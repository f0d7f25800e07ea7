import Emberlite.Lib.Bracket
import Emberlite.Netdev.Mac

/-! The sockets, streams and resolver states that the functions of src/components/netdev/src/netdev.c open and close
    again. Each function is modelled once more with them, exit by exit. -/

namespace Emberlite.Netdev.Opened
open CString Scanf Bracket

/-- What is open in the process. -/
structure Open where
  sockets : Finset Nat
  streams : Finset Nat
  resolvers : Finset Nat

namespace Open

/-- `socket` -/
def socket (r : Open) : Nat × Open :=
  (lowestFree r.sockets, { r with sockets := insert (lowestFree r.sockets) r.sockets })

/-- `close` -/
def close (sd : Nat) (r : Open) : Open := { r with sockets := r.sockets.erase sd }

/-- `popen` -/
def popen (r : Open) : Nat × Open :=
  (lowestFree r.streams, { r with streams := insert (lowestFree r.streams) r.streams })

/-- `pclose` -/
def pclose (fp : Nat) (r : Open) : Open := { r with streams := r.streams.erase fp }

/-- `res_ninit`, which may fail: then there is no state. -/
def resNinit (ok : Bool) (r : Open) : Option Nat × Open :=
  if ok then
    (some (lowestFree r.resolvers), { r with resolvers := insert (lowestFree r.resolvers) r.resolvers })
  else (none, r)

/-- `res_nclose`, which needs a state that `res_ninit` has set up. -/
def resNclose (res : Option Nat) (r : Open) : Option Open :=
  res.map fun res => { r with resolvers := r.resolvers.erase res }

end Open

/-- What a function returns, and what is open then. -/
abbrev Call (α : Type) : Type := Open → Option (α × Open)

/-! ### The source -/

section Source
variable (q : Queries) (p : Parsers) (o : Outcome) (calls : MacCalls) (ifname : IfName)

/-- `get_local_mac` -/
def getLocalMac (socket : Bool) (ifHwaddr : List UInt8 → Option Mac) (mac : Vector UInt8 macSize) :
    Call (Vector UInt8 macSize × Int) := fun r =>
  if !socket then some ((mac, -emberError), r)
  else
    let (sd, r) := r.socket
    match ifHwaddr (text (strncpy (ifNameSize - 1) ifname.val)) with
    | none => some ((mac, -emberError), r.close sd)
    | some hwaddr => do
      let mac ← FixedBuffer.write mac 0 (snprintf macSize (printMac hwaddr))
      return ((mac, emberEok), r.close sd)

/-- `set_local_mac`. The exit for a string that is no address does not close. -/
def setLocalMac (mac : List UInt8) (nic : Nic) : Call (Nic × Int) := fun r =>
  if 0 ≠ calls.uid ∧ 0 ≠ calls.euid then some ((nic, -emberError), r)
  else if !calls.socket then some ((nic, -emberError), r)
  else
    let (sd, r) := r.socket
    let (ret, numbers) := sscanf macFormat (text mac)
    if 6 > ret then some ((nic, -emberError), r)
    else
      let values := numbers.map calls.store
      let sa_data := (List.range 6).foldl (fun sa_data _ => storeValues values sa_data) calls.stack
      let (nic, ret) := nic.ioctl calls.ioctl { name := text ifname.val, family := arphrdEther, sa_data }
      some ((nic, ret), r.close sd)

/-- `get_local_ip` -/
def getLocalIp (ip : Field) : Call (Field × Int) := fun r =>
  if !q.ipSocket then some ((ip, -emberError), r)
  else
    let (sd, r) := r.socket
    match q.ifAddr (text ((strncpy ifNameSize ifname.val).set (ifNameSize - 1) 0)) with
    | none => some ((ip, -emberError), r.close sd)
    | some sin => do
      let ip ← FixedBuffer.write ip 0 (snprintf ipSize (inetNtoa sin))
      return ((ip, emberEok), r.close sd)

/-- `set_local_ip` -/
def setLocalIp (ip : List UInt8) (k : Kernel) : Call (Kernel × Int) := fun r =>
  if !o.socket then some ((k, -emberError), r)
  else
    let (sd, r) := r.socket
    let sin_addr := inetAddr p ip
    let ifr_name := (strncpy ifNameSize ifname.val).set (ifNameSize - 1) 0
    some (k.ioctl o (.setAddr (text ifr_name) sin_addr), r.close sd)

/-- `get_local_netmask` -/
def getLocalNetmask (netmask_addr : Field) : Call (Field × Int) := fun r =>
  if !q.netmaskSocket then some ((netmask_addr, -emberError), r)
  else
    let (sd, r) := r.socket
    match q.ifNetmask (text (strncpy (ifNameSize - 1) ifname.val)) with
    | none => some ((netmask_addr, -emberError), r.close sd)
    | some sin => do
      let netmask_addr ← FixedBuffer.write netmask_addr 0 (strncpy ipSize (inetNtoa sin))
      return ((netmask_addr, emberEok), r.close sd)

/-- `set_local_netmask` -/
def setLocalNetmask (netmask_addr : List UInt8) (k : Kernel) : Call (Kernel × Int) := fun r =>
  if !o.socket then some ((k, -emberError), r)
  else
    let (sd, r) := r.socket
    let ifr_name := strncpy (ifNameSize - 1) ifname.val
    let (_, sin_addr) := inetPton p netmask_addr inaddrAny
    some (k.ioctl o (.setNetmask (text ifr_name) sin_addr), r.close sd)

/-- `get_local_gateway`, for an array of any size. The exit for a command without output does not close. -/
def getLocalGateway {n : Nat} (gateway : Vector UInt8 n) : Call (Vector UInt8 n × Int) := fun r =>
  match q.popen (routeCommand ifname) with
  | none => some ((gateway, -emberError), r)
  | some output =>
    let (fp, r) := r.popen
    match fgets 256 output with
    | none => some ((gateway, -emberError), r)
    | some line =>
      let r := r.pclose fp
      if text line = [] then none
      else do
        let gateway ← FixedBuffer.write gateway 0 (withoutNewline (text line) ++ [0])
        return ((gateway, emberEok), r)

/-- `set_local_gateway` -/
def setLocalGateway (gateway : List UInt8) (k : Kernel) : Call (Kernel × Int) := fun r =>
  if !o.socket then some ((k, -emberError), r)
  else
    let (sd, r) := r.socket
    let (ret, sin_addr) := inetAton p gateway inaddrAny
    if ret < 0 then some ((k, -emberError), r.close sd)
    else
      let route := {
        dst := inaddrAny
        gateway := sin_addr
        genmask := inaddrAny
        flags := rtfUpGateway
        metric := 5
        dev := text ifname.val }
      some (k.ioctl o (.addRoute route), r.close sd)

/-- `get_local_dns`, with what `res_ninit` answers. The exit for no nameserver does not close; where `res_ninit` has
    failed, the nameservers are what the memory happens to hold. -/
def getLocalDns (ninit : Bool) (dns_addr : Field) : Call (Field × Int) := fun r =>
  if !q.malloc then none
  else
    let (res, r) := r.resNinit ninit
    match q.nameservers with
    | [] => some ((dns_addr, -emberError), r)
    | sin :: _ => do
      let dns_addr ← FixedBuffer.write dns_addr 0 (snprintf ipSize (inetNtoa sin))
      let r ← r.resNclose res
      return ((dns_addr, emberEok), r)

/-- `set_local_dns`, which opens nothing itself. -/
def setLocalDns (commands : Commands) (host : Host) (ifname dns_addr : List UInt8) : Call (Host × Int) := fun r => do
  return (← Netdev.setLocalDns commands host ifname dns_addr, r)

/-- `link_status_t`, an unsigned type. -/
abbrev LinkStatus : Type := BitVec 32

/-- `LINK_UP` -/
def linkUp : LinkStatus := 0

/-- `LINK_DOWN` -/
def linkDown : LinkStatus := 1

/-- `get_netdev_status`, with what `SIOCETHTOOL` stores. -/
def getNetdevStatus (socket : Bool) (glink : List UInt8 → Option (BitVec 32)) : Call LinkStatus := fun r =>
  if !socket then some (BitVec.ofInt 32 (-emberError), r)
  else
    let (skfd, r) := r.socket
    match glink (text (strncpy (ifNameSize - 1) ifname.val)) with
    | none => some (BitVec.ofInt 32 (-emberError), r.close skfd)
    | some data => some (if data ≠ 0 then linkUp else linkDown, r.close skfd)

/-- `IFF_UP` -/
def iffUp : BitVec 16 := 1

/-- The flags of the devices, by their names. -/
abbrev Flags : Type := List UInt8 → BitVec 16

/-- The flags with `IFF_UP` set or cleared, as the status says. -/
def newFlags (status : LinkStatus) (ifr_flags : BitVec 16) : BitVec 16 :=
  if status = linkUp then ifr_flags ||| iffUp
  else if status = linkDown then ifr_flags &&& ~~~iffUp
  else ifr_flags

/-- `set_netdev_status`, and whether `socket`, `SIOCGIFFLAGS` and `SIOCSIFFLAGS` succeed. -/
def setNetdevStatus (socket getFlags setFlags : Bool) (status : LinkStatus) (flags : Flags) : Call (Flags × Int) :=
  fun r =>
    if !socket then some ((flags, -emberError), r)
    else
      let (sockfd, r) := r.socket
      let ifr_name := text ifname.val
      if !getFlags then some ((flags, -emberError), r.close sockfd)
      else
        let ifr_flags := newFlags status (flags ifr_name)
        if !setFlags then some ((flags, -emberError), r.close sockfd)
        else some ((Function.update flags ifr_name ifr_flags, emberEok), r.close sockfd)

end Source

/-! ### What should be open afterwards -/

/-- The call returns, with the same open as at its entry. -/
def Keeps {α : Type} (call : Call α) (r : Open) : Prop := ∃ result, call r = some (result, r)

/-- The public functions, each with its arguments and what the calls that it makes answer. -/
inductive Function
  | getMac (ifname : IfName) (socket : Bool) (ifHwaddr : List UInt8 → Option Mac) (mac : Vector UInt8 macSize)
  | setMac (calls : MacCalls) (ifname : IfName) (mac : List UInt8) (nic : Nic)
  | getIp (q : Queries) (ifname : IfName) (ip : Field)
  | setIp (p : Parsers) (o : Outcome) (ifname : IfName) (ip : List UInt8) (k : Kernel)
  | getNetmask (q : Queries) (ifname : IfName) (netmask_addr : Field)
  | setNetmask (p : Parsers) (o : Outcome) (ifname : IfName) (netmask_addr : List UInt8) (k : Kernel)
  | getGateway (q : Queries) (ifname : IfName) (n : Nat) (gateway : Vector UInt8 n)
  | setGateway (p : Parsers) (o : Outcome) (ifname : IfName) (gateway : List UInt8) (k : Kernel)
  | getDns (q : Queries) (ninit : Bool) (dns_addr : Field)
  | setDns (commands : Commands) (host : Host) (ifname dns_addr : List UInt8)
  | getStatus (ifname : IfName) (socket : Bool) (glink : List UInt8 → Option (BitVec 32))
  | setStatus (ifname : IfName) (socket getFlags setFlags : Bool) (status : LinkStatus) (flags : Flags)

/-- A function keeps what is open. -/
def Function.Keeps (r : Open) : Function → Prop
  | getMac ifname socket ifHwaddr mac => Opened.Keeps (getLocalMac ifname socket ifHwaddr mac) r
  | setMac calls ifname mac nic => Opened.Keeps (setLocalMac calls ifname mac nic) r
  | getIp q ifname ip => Opened.Keeps (getLocalIp q ifname ip) r
  | setIp p o ifname ip k => Opened.Keeps (setLocalIp p o ifname ip k) r
  | getNetmask q ifname netmask_addr => Opened.Keeps (getLocalNetmask q ifname netmask_addr) r
  | setNetmask p o ifname netmask_addr k => Opened.Keeps (setLocalNetmask p o ifname netmask_addr k) r
  | getGateway q ifname _ gateway => Opened.Keeps (getLocalGateway q ifname gateway) r
  | setGateway p o ifname gateway k => Opened.Keeps (setLocalGateway p o ifname gateway k) r
  | getDns q ninit dns_addr => Opened.Keeps (getLocalDns q ninit dns_addr) r
  | setDns commands host ifname dns_addr => Opened.Keeps (setLocalDns commands host ifname dns_addr) r
  | getStatus ifname socket glink => Opened.Keeps (getNetdevStatus ifname socket glink) r
  | setStatus ifname socket getFlags setFlags status flags =>
    Opened.Keeps (setNetdevStatus ifname socket getFlags setFlags status flags) r

/-- The command has a line of output, a string that fits in an array of `n`. -/
def HasLine (q : Queries) (ifname : IfName) (n : Nat) : Prop :=
  ∃ line, (q.popen (routeCommand ifname)).bind (fgets 256) = some line ∧ text line ≠ [] ∧
    (withoutNewline (text line)).length < n

/-- No exit that forgets to close is taken, and nothing is written past the end of a buffer. -/
def Function.Clean : Function → Prop
  | setMac calls _ mac _ => ¬calls.may ∨ Scanned mac
  | getGateway q ifname n _ => q.popen (routeCommand ifname) = none ∨ HasLine q ifname n
  | getDns q ninit _ => q.malloc = true ∧ (ninit = true ↔ q.nameservers ≠ [])
  | setDns _ _ ifname dns_addr =>
    (text dns_addr).length < ipSize ∨ text ifname ≠ lit "eth0" ∧ text ifname ≠ lit "eth1"
  | _ => True

/-! ### Opening and closing -/

section Open
variable (r : Open)

@[simp] theorem close_socket : r.socket.2.close r.socket.1 = r := by
  simp [Open.socket, Open.close, Finset.erase_insert (lowestFree_notMem _)]

@[simp] theorem pclose_popen : r.popen.2.pclose r.popen.1 = r := by
  simp [Open.popen, Open.pclose, Finset.erase_insert (lowestFree_notMem _)]

@[simp] theorem resNclose_resNinit : (r.resNinit true).2.resNclose (r.resNinit true).1 = some r := by
  simp [Open.resNinit, Open.resNclose, Finset.erase_insert (lowestFree_notMem _)]

theorem insert_lowestFree_ne (used : Finset Nat) : insert (lowestFree used) used ≠ used := fun h =>
  lowestFree_notMem used (Finset.insert_eq_self.mp h)

theorem socket_ne : r.socket.2 ≠ r := fun h => insert_lowestFree_ne r.sockets (congrArg Open.sockets h)

theorem popen_ne : r.popen.2 ≠ r := fun h => insert_lowestFree_ne r.streams (congrArg Open.streams h)

theorem resNinit_ne : (r.resNinit true).2 ≠ r := fun h => insert_lowestFree_ne r.resolvers (congrArg Open.resolvers h)

end Open

/-! ### The functions that close at each exit -/

section Closing
variable {q : Queries} {p : Parsers} {o : Outcome} {ifname : IfName} {k : Kernel} {s : List UInt8} {field : Field}
  {r : Open}

/-- A function that closes at each exit, and returns. -/
theorem keeps_of_eq {α : Type} {call : Call α} {x : Option α} (hcall : call r = x.map (·, r))
    (hreturns : ∃ result, x = some result) : Keeps call r := by
  obtain ⟨result, rfl⟩ := hreturns
  exact ⟨result, hcall⟩

theorem getLocalMac_eq (socket : Bool) (ifHwaddr : List UInt8 → Option Mac) (mac : Vector UInt8 macSize) :
    getLocalMac ifname socket ifHwaddr mac r = (Netdev.getLocalMac socket ifHwaddr ifname mac).map (·, r) := by
  rw [getLocalMac, Netdev.getLocalMac]
  cases socket with
  | false => rfl
  | true =>
    cases ifHwaddr (text (strncpy (ifNameSize - 1) ifname.val)) with
    | none => simp
    | some hwaddr => simp [Option.map_eq_bind, Option.bind_assoc]

theorem getLocalIp_eq : getLocalIp q ifname field r = (Netdev.getLocalIp q ifname field).map (·, r) := by
  rw [getLocalIp, Netdev.getLocalIp]
  cases q.ipSocket with
  | false => rfl
  | true =>
    cases q.ifAddr (text ((strncpy ifNameSize ifname.val).set (ifNameSize - 1) 0)) with
    | none => simp
    | some sin => simp [Option.map_eq_bind, Option.bind_assoc]

theorem getLocalNetmask_eq : getLocalNetmask q ifname field r = (Netdev.getLocalNetmask q ifname field).map (·, r) := by
  rw [getLocalNetmask, Netdev.getLocalNetmask]
  cases q.netmaskSocket with
  | false => rfl
  | true =>
    cases q.ifNetmask (text (strncpy (ifNameSize - 1) ifname.val)) with
    | none => simp
    | some sin => simp [Option.map_eq_bind, Option.bind_assoc]

theorem setLocalIp_eq : setLocalIp p o ifname s k r = some (Netdev.setLocalIp p o ifname s k, r) := by
  rw [setLocalIp, Netdev.setLocalIp]
  cases o.socket with
  | false => rfl
  | true => simp

theorem setLocalNetmask_eq : setLocalNetmask p o ifname s k r = some (Netdev.setLocalNetmask p o ifname s k, r) := by
  rw [setLocalNetmask, Netdev.setLocalNetmask]
  cases o.socket with
  | false => rfl
  | true => simp

theorem setLocalGateway_eq : setLocalGateway p o ifname s k r = some (Netdev.setLocalGateway p o ifname s k, r) := by
  rw [setLocalGateway, Netdev.setLocalGateway]
  cases o.socket with
  | false => rfl
  | true =>
    have hret : ¬(inetAton p s inaddrAny).1 < 0 := (parsed_eq _ _).2
    simp [hret]

theorem getNetdevStatus_keeps (socket : Bool) (glink : List UInt8 → Option (BitVec 32)) :
    Keeps (getNetdevStatus ifname socket glink) r := by
  rw [Keeps, getNetdevStatus]
  cases socket with
  | false => exact ⟨_, rfl⟩
  | true =>
    cases glink (text (strncpy (ifNameSize - 1) ifname.val)) with
    | none => simp
    | some data => simp

theorem setNetdevStatus_keeps (socket getFlags setFlags : Bool) (status : LinkStatus) (flags : Flags) :
    Keeps (setNetdevStatus ifname socket getFlags setFlags status flags) r := by
  rw [Keeps, setNetdevStatus]
  cases socket with
  | false => exact ⟨_, rfl⟩
  | true =>
    cases getFlags with
    | false => simp
    | true => cases setFlags <;> simp

/-- An address fits in its field, however it is copied there. -/
theorem write_inetNtoa {source : List UInt8} {addr : InAddr} (field : Field)
    (hsource : ∃ rest, source = inetNtoa addr ++ 0 :: rest ∧ (inetNtoa addr ++ 0 :: rest).length ≤ ipSize) :
    ∃ after, FixedBuffer.write field 0 source = some after := by
  obtain ⟨rest, rfl, hfit⟩ := hsource
  obtain ⟨after, hwrite, -⟩ := text_write field (noNul_inetNtoa addr) hfit
  exact ⟨after, hwrite⟩

theorem getLocalIp_returns (q : Queries) (ifname : IfName) (field : Field) :
    ∃ result, Netdev.getLocalIp q ifname field = some result := by
  rw [Netdev.getLocalIp]
  split
  · exact ⟨_, rfl⟩
  · split
    · exact ⟨_, rfl⟩
    · case _ sin _ =>
      obtain ⟨after, hwrite⟩ := write_inetNtoa field (snprintf_inetNtoa sin)
      exact ⟨_, by rw [hwrite]; rfl⟩

theorem getLocalNetmask_returns (q : Queries) (ifname : IfName) (field : Field) :
    ∃ result, Netdev.getLocalNetmask q ifname field = some result := by
  rw [Netdev.getLocalNetmask]
  split
  · exact ⟨_, rfl⟩
  · split
    · exact ⟨_, rfl⟩
    · case _ sin _ =>
      obtain ⟨after, hwrite⟩ :=
        write_inetNtoa field (strncpy_split (noNul_inetNtoa sin) (length_inetNtoa sin))
      exact ⟨_, by rw [hwrite]; rfl⟩

theorem getLocalMac_returns (socket : Bool) (ifHwaddr : List UInt8 → Option Mac) (ifname : IfName)
    (mac : Vector UInt8 macSize) : ∃ result, Netdev.getLocalMac socket ifHwaddr ifname mac = some result := by
  rw [Netdev.getLocalMac]
  split
  · exact ⟨_, rfl⟩
  · split
    · exact ⟨_, rfl⟩
    · case _ hwaddr _ =>
      have hfit : 0 + (snprintf macSize (printMac hwaddr)).length ≤ macSize := by
        rw [Nat.zero_add, macSize, snprintf, List.length_append]
        exact Nat.succ_le_succ (List.length_take_le 17 _)
      obtain ⟨after, hwrite, -⟩ := FixedBuffer.write_eq mac hfit
      exact ⟨_, by rw [hwrite]; rfl⟩

end Closing

/-! ### The functions with an exit that does not close -/

section Leaking
variable {q : Queries} {calls : MacCalls} {ifname : IfName} {nic : Nic} {s : List UInt8} {field : Field} {r : Open}

theorem setLocalMac_result :
    (setLocalMac calls ifname s nic r).map Prod.fst = some (Netdev.setLocalMac calls ifname s nic) := by
  rw [setLocalMac, Netdev.setLocalMac]
  split
  · rfl
  · split
    · rfl
    · dsimp only
      split <;> rfl

theorem getLocalGateway_result :
    (getLocalGateway q ifname field r).map Prod.fst = Netdev.getLocalGateway q ifname field := by
  rw [getLocalGateway, Netdev.getLocalGateway]
  cases q.popen (routeCommand ifname) with
  | none => rfl
  | some output =>
    dsimp only
    cases fgets 256 output with
    | none => rfl
    | some line =>
      dsimp only
      split
      · rfl
      · simp [Option.map_eq_bind, Option.bind_assoc]

theorem getLocalDns_result :
    (getLocalDns q true field r).map Prod.fst = Netdev.getLocalDns q field := by
  rw [getLocalDns, Netdev.getLocalDns]
  split
  · rfl
  · cases q.nameservers with
    | nil => rfl
    | cons sin rest => simp [Option.map_eq_bind, Option.bind_assoc]

theorem setLocalMac_of_not_may (h : ¬calls.may) : Keeps (setLocalMac calls ifname s nic) r := by
  rw [Keeps, setLocalMac]
  split
  · exact ⟨_, rfl⟩
  · case _ huser =>
    rw [socket_of_not_may h huser]
    exact ⟨_, rfl⟩

theorem setLocalMac_of_may (h : calls.may) : Keeps (setLocalMac calls ifname s nic) r ↔ Scanned s := by
  rcases sscanf_cases 58 5 (text s) with ⟨values, hvalues, hret⟩ | ⟨hnone, hshort⟩
  · have hscan : sscanf macFormat (text s) = (6, values) := hret
    refine iff_of_true ?_ ⟨values, hvalues⟩
    rw [Keeps, setLocalMac, if_neg h.user, h.2]
    simp [hscan]
  · have hscan : 6 > (sscanf macFormat (text s)).1 := hshort
    refine iff_of_false ?_ fun ⟨values, hvalues⟩ => hnone values hvalues
    rintro ⟨result, hkeeps⟩
    rw [setLocalMac, if_neg h.user, h.2] at hkeeps
    simp only [Bool.not_true, Bool.false_eq_true, if_false, if_pos hscan, Option.some.injEq, Prod.mk.injEq] at hkeeps
    exact socket_ne r hkeeps.2

theorem setLocalMac_iff : Keeps (setLocalMac calls ifname s nic) r ↔ ¬calls.may ∨ Scanned s := by
  by_cases hmay : calls.may
  · rw [setLocalMac_of_may hmay]
    exact (or_iff_right (not_not.mpr hmay)).symm
  · exact iff_of_true (setLocalMac_of_not_may hmay) (.inl hmay)

theorem getLocalGateway_iff {n : Nat} (gateway : Vector UInt8 n) : Keeps (getLocalGateway q ifname gateway) r ↔
    q.popen (routeCommand ifname) = none ∨ HasLine q ifname n := by
  rw [Keeps, getLocalGateway, HasLine]
  cases q.popen (routeCommand ifname) with
  | none => exact iff_of_true ⟨_, rfl⟩ (.inl rfl)
  | some output =>
    simp only [reduceCtorEq, false_or, Option.bind_some, pclose_popen]
    cases fgets 256 output with
    | none =>
      refine iff_of_false ?_ nofun
      rintro ⟨result, hkeeps⟩
      exact popen_ne r (congrArg Prod.snd (Option.some.inj hkeeps))
    | some line =>
      by_cases hempty : text line = []
      · simp [hempty]
      · by_cases hfit : (withoutNewline (text line) ++ [0]).length ≤ n
        · obtain ⟨after, hwrite, -⟩ := text_write gateway (noNul_withoutNewline line) hfit
          have hshort : (withoutNewline (text line)).length < n := by
            rwa [List.length_append] at hfit
          simp [hempty, hwrite, hshort]
        · have hlong : FixedBuffer.write gateway 0 (withoutNewline (text line) ++ [0]) = none :=
            dif_neg (by rwa [Nat.zero_add])
          have hnot : ¬(withoutNewline (text line)).length < n := by
            rwa [List.length_append] at hfit
          simp [hempty, hlong, hnot]

theorem getLocalDns_iff (ninit : Bool) :
    Keeps (getLocalDns q ninit field) r ↔ q.malloc = true ∧ (ninit = true ↔ q.nameservers ≠ []) := by
  rw [Keeps, getLocalDns]
  cases q.malloc with
  | false => simp
  | true =>
    cases q.nameservers with
    | nil =>
      cases ninit with
      | false => simp [Open.resNinit]
      | true => simp [resNinit_ne]
    | cons sin rest =>
      obtain ⟨after, hwrite⟩ := write_inetNtoa field (snprintf_inetNtoa sin)
      cases ninit with
      | false => simp [hwrite, Open.resNinit, Open.resNclose]
      | true => simp [hwrite]

end Leaking

section Dns
variable {commands : Commands} {host : Host} {ifname dns : List UInt8}

theorem remember_isSome_iff (i : Fin 2) : (∃ host', host.remember i dns = some host') ↔ (text dns).length < ipSize := by
  constructor
  · rintro ⟨host', hremember⟩
    obtain ⟨field, hwrite, -⟩ := Option.bind_eq_some_iff.mp hremember
    by_contra hlong
    rw [FixedBuffer.write, dif_neg] at hwrite
    · cases hwrite
    · rw [length_strncpy, Nat.zero_add]
      exact fun hfit => hlong hfit
  · intro hshort
    obtain ⟨attr, hremember, -⟩ := remember_eq hshort host i
    exact ⟨_, hremember⟩

theorem setLocalDns_iff (r : Open) : Keeps (setLocalDns commands host ifname dns) r ↔
    (text dns).length < ipSize ∨ text ifname ≠ lit "eth0" ∧ text ifname ≠ lit "eth1" := by
  have heth : ∀ name ∈ [lit "eth0", lit "eth1"], (strncmp ipSize ifname name = 0 ↔ text ifname = name) := by
    have hshort : ∀ name ∈ [lit "eth0", lit "eth1"], (text name).length < ipSize ∧ text name = name := by
      decide +kernel
    intro name hname
    rw [strncmp_eq_zero_of_lt (hshort name hname).1, (hshort name hname).2]
  have hkeeps : Keeps (setLocalDns commands host ifname dns) r ↔ ∃ host', host.rememberFor ifname dns = some host' := by
    rw [Keeps, setLocalDns, Netdev.setLocalDns]
    cases host.rememberFor ifname dns <;> simp
  rw [hkeeps, Host.rememberFor]
  simp only [heth (lit "eth0") (by simp), heth (lit "eth1") (by simp)]
  by_cases hfirst : text ifname = lit "eth0"
  · simp [hfirst, remember_isSome_iff]
  · by_cases hsecond : text ifname = lit "eth1"
    · rw [if_neg hfirst, if_pos hsecond, remember_isSome_iff]
      simp [hsecond]
    · simp [hfirst, hsecond]

end Dns

/-- A call returns with the same open as before if and only if it takes no exit that forgets to close, and
    writes nothing past the end of a buffer. -/
theorem keeps_iff_clean (f : Function) (r : Open) : f.Keeps r ↔ f.Clean := by
  cases f with
  | getMac ifname socket ifHwaddr mac =>
    exact iff_of_true (keeps_of_eq (getLocalMac_eq socket ifHwaddr mac) (getLocalMac_returns socket ifHwaddr ifname mac))
      trivial
  | setMac calls ifname mac nic => exact setLocalMac_iff
  | getIp q ifname ip => exact iff_of_true (keeps_of_eq getLocalIp_eq (getLocalIp_returns q ifname ip)) trivial
  | setIp p o ifname ip k => exact iff_of_true ⟨_, setLocalIp_eq⟩ trivial
  | getNetmask q ifname netmask_addr =>
    exact iff_of_true (keeps_of_eq getLocalNetmask_eq (getLocalNetmask_returns q ifname netmask_addr)) trivial
  | setNetmask p o ifname netmask_addr k => exact iff_of_true ⟨_, setLocalNetmask_eq⟩ trivial
  | getGateway q ifname n gateway => exact getLocalGateway_iff gateway
  | setGateway p o ifname gateway k => exact iff_of_true ⟨_, setLocalGateway_eq⟩ trivial
  | getDns q ninit dns_addr => exact getLocalDns_iff ninit
  | setDns commands host ifname dns_addr => exact setLocalDns_iff r
  | getStatus ifname socket glink => exact iff_of_true (getNetdevStatus_keeps socket glink) trivial
  | setStatus ifname socket getFlags setFlags status flags =>
    exact iff_of_true (setNetdevStatus_keeps socket getFlags setFlags status flags) trivial

/-- A string that is no address leaves the socket open. -/
theorem rejected_mac_leaks : ¬∀ f r, Function.Keeps r f := by
  intro hclaim
  have hkeeps : Function.Keeps ⟨∅, ∅, ∅⟩ (.setMac root eth0 (lit "garbage") ⟨fun _ => Vector.replicate 6 0, []⟩) :=
    hclaim _ _
  rcases setLocalMac_iff.mp hkeeps with hmay | ⟨values, hvalues⟩
  · exact hmay ⟨.inl rfl, rfl⟩
  · have hnone : (scan macFormat (text (lit "garbage"))).1 = [] := by decide +kernel
    have hfields : (scan macFormat (text (lit "garbage"))).1 = values := scan_fields hvalues
    rw [← hfields, hnone] at hvalues
    cases length_fields hvalues

end Emberlite.Netdev.Opened
