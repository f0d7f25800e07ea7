import Emberlite.Netdev.IpAttr
import Emberlite.Netdev.ResolvConf

/-! `set_local_ip`, `set_local_netmask` and `set_local_gateway` (src/components/netdev/src/netdev.c), each with a parser
    of its own, and `set_ip_attr`, which calls them and `set_local_dns`. -/

namespace Emberlite.Netdev
open CString CNumber

/-- `INADDR_ANY` -/
def inaddrAny : InAddr := ⟨0, 0, 0, 0⟩

/-- `INADDR_NONE` -/
def inaddrNone : InAddr := ⟨255, 255, 255, 255⟩

/-- What the parsers of the library make of a string, and the words behind `nameserver` that the resolver takes for an
    address. -/
structure Parsers where
  aton : List UInt8 → Option InAddr
  pton : List UInt8 → Option InAddr
  addr : List UInt8 → InAddr
  server : List UInt8 → Bool
  addr_eq : ∀ s, addr s = (aton s).getD inaddrNone
  -- Four decimal numbers mean the same to both.
  aton_of_pton : ∀ s v, pton s = some v → aton s = some v

/-- `struct rtentry`, as far as `set_local_gateway` sets it. -/
structure RtEntry where
  dst : InAddr
  gateway : InAddr
  genmask : InAddr
  flags : Nat
  metric : Nat
  dev : List UInt8

/-- `RTF_UP | RTF_GATEWAY`. -/
def rtfUpGateway : Nat := 1 ||| 2

/-- The calls of `ioctl` that configure. -/
inductive Request
  -- `SIOCSIFADDR`.
  | setAddr (name : List UInt8) (addr : InAddr)
  -- `SIOCSIFNETMASK`.
  | setNetmask (name : List UInt8) (addr : InAddr)
  -- `SIOCADDRT`.
  | addRoute (route : RtEntry)

/-- What the kernel holds, by the names of the interfaces, and the requests that it has seen. -/
structure Kernel where
  addr : List UInt8 → Option InAddr
  netmask : List UInt8 → Option InAddr
  routes : List RtEntry
  issued : List Request

/-- What the kernel holds after a request that it grants. -/
def Kernel.apply (k : Kernel) : Request → Kernel
  | .setAddr name addr => { k with addr := Function.update k.addr name (some addr) }
  | .setNetmask name addr => { k with netmask := Function.update k.netmask name (some addr) }
  | .addRoute route => { k with routes := k.routes ++ [route] }

/-- Whether the calls of one function succeed. -/
structure Outcome where
  socket : Bool
  ioctl : Bool

/-- `ioctl` and what follows it. -/
def Kernel.ioctl (k : Kernel) (o : Outcome) (request : Request) : Kernel × Int :=
  let k := { k with issued := k.issued ++ [request] }
  if o.ioctl then (k.apply request, emberEok) else (k, -emberError)

/-! ### The source -/

/-- `inet_addr` -/
def inetAddr (p : Parsers) (s : List UInt8) : InAddr := p.addr (text s)

/-- A parser that returns 1 and the address, or 0 and leaves its output. -/
def parsed (addr : Option InAddr) (before : InAddr) : Int × InAddr :=
  match addr with
  | some addr => (1, addr)
  | none => (0, before)

/-- `inet_pton` for `AF_INET`. -/
def inetPton (p : Parsers) (s : List UInt8) (before : InAddr) : Int × InAddr := parsed (p.pton (text s)) before

/-- `inet_aton` -/
def inetAton (p : Parsers) (s : List UInt8) (before : InAddr) : Int × InAddr := parsed (p.aton (text s)) before

/-- `set_local_ip` -/
def setLocalIp (p : Parsers) (o : Outcome) (ifname : IfName) (ip : List UInt8) (k : Kernel) : Kernel × Int :=
  if !o.socket then (k, -emberError)
  else
    let sin_addr := inetAddr p ip
    let ifr_name := (strncpy ifNameSize ifname.val).set (ifNameSize - 1) 0
    k.ioctl o (.setAddr (text ifr_name) sin_addr)

/-- `set_local_netmask`. What `inet_pton` returns is not looked at. -/
def setLocalNetmask (p : Parsers) (o : Outcome) (ifname : IfName) (netmask_addr : List UInt8) (k : Kernel) :
    Kernel × Int :=
  if !o.socket then (k, -emberError)
  else
    let ifr_name := strncpy (ifNameSize - 1) ifname.val
    let (_, sin_addr) := inetPton p netmask_addr inaddrAny
    k.ioctl o (.setNetmask (text ifr_name) sin_addr)

/-- `set_local_gateway` -/
def setLocalGateway (p : Parsers) (o : Outcome) (ifname : IfName) (gateway : List UInt8) (k : Kernel) : Kernel × Int :=
  if !o.socket then (k, -emberError)
  else
    let (ret, sin_addr) := inetAton p gateway inaddrAny
    if ret < 0 then (k, -emberError)
    else
      let route := {
        dst := inaddrAny
        gateway := sin_addr
        genmask := inaddrAny
        flags := rtfUpGateway
        metric := 5
        dev := text ifname.val }
      k.ioctl o (.addRoute route)

/-! ### Strings that are no addresses -/

/-- The three functions that parse an address. -/
inductive Setter
  | ip
  | netmask
  | gateway

/-- The function of each setter. -/
def Setter.call : Setter → Parsers → Outcome → IfName → List UInt8 → Kernel → Kernel × Int
  | .ip => setLocalIp
  | .netmask => setLocalNetmask
  | .gateway => setLocalGateway

/-- A string that is no address is rejected: no request is issued, and the kernel stays as it is. -/
def RejectsInvalid (setter : Setter) (p : Parsers) (o : Outcome) (ifname : IfName) (s : List UInt8) (k : Kernel) : Prop :=
  p.aton (text s) = none → setter.call p o ifname s k = (k, -emberError)

/-- The address that the kernel is given for a string. -/
def Setter.configured (p : Parsers) (s : List UInt8) : Setter → InAddr
  | .ip => (p.aton (text s)).getD inaddrNone
  | .netmask => (p.pton (text s)).getD inaddrAny
  | .gateway => (p.aton (text s)).getD inaddrAny

/-- The route to everywhere through a gateway. -/
def defaultRoute (name : List UInt8) (gateway : InAddr) : RtEntry where
  dst := inaddrAny
  gateway := gateway
  genmask := inaddrAny
  flags := rtfUpGateway
  metric := 5
  dev := name

/-- The request of each function. -/
def Setter.request (name : List UInt8) (addr : InAddr) : Setter → Request
  | .ip => .setAddr name addr
  | .netmask => .setNetmask name addr
  | .gateway => .addRoute (defaultRoute name addr)

section Setters
variable {p : Parsers} {o : Outcome} {ifname : IfName} {s : List UInt8} {k : Kernel} {setter : Setter}

theorem parsed_eq (addr : Option InAddr) (before : InAddr) :
    (parsed addr before).2 = addr.getD before ∧ ¬(parsed addr before).1 < 0 := by
  cases addr with
  | none => exact ⟨rfl, Int.lt_irrefl 0⟩
  | some v => exact ⟨rfl, Int.not_lt.mpr Int.one_nonneg⟩

theorem call_of_no_socket (h : o.socket = false) (setter : Setter) : setter.call p o ifname s k = (k, -emberError) := by
  cases setter <;> simp [Setter.call, setLocalIp, setLocalNetmask, setLocalGateway, h]

/-- Once there is a socket, each function issues its request, whatever its parser has found. -/
theorem call_of_socket (h : o.socket = true) (setter : Setter) :
    setter.call p o ifname s k = k.ioctl o (setter.request (text ifname.val) (setter.configured p s)) := by
  have hopen : (!o.socket) ≠ true := by simp [h]
  cases setter with
  | ip =>
    refine (if_neg hopen).trans ?_
    exact congrArg₂ (fun name addr => k.ioctl o (.setAddr name addr)) (text_ifrName ifname).1 (p.addr_eq _)
  | netmask =>
    refine (if_neg hopen).trans ?_
    exact congrArg₂ (fun name addr => k.ioctl o (.setNetmask name addr)) (text_ifrName ifname).2 (parsed_eq _ _).1
  | gateway =>
    refine ((if_neg hopen).trans (if_neg (parsed_eq _ _).2)).trans ?_
    exact congrArg (fun addr => k.ioctl o (.addRoute (defaultRoute (text ifname.val) addr))) (parsed_eq _ _).1

theorem ioctl_issued (k : Kernel) (o : Outcome) (request : Request) :
    (k.ioctl o request).1.issued = k.issued ++ [request] := by
  rw [Kernel.ioctl]
  split
  · cases request <;> rfl
  · rfl

theorem valid_or_no_socket (h : RejectsInvalid setter p o ifname s k) : p.aton (text s) ≠ none ∨ o.socket = false := by
  by_contra hinvalid
  obtain ⟨hnone, hsocket⟩ := not_or.mp hinvalid
  have hcall := h (not_not.mp hnone)
  rw [call_of_socket (Bool.eq_true_of_not_eq_false hsocket)] at hcall
  have hissued := ioctl_issued k o (setter.request (text ifname.val) (setter.configured p s))
  rw [hcall] at hissued
  simp at hissued

/-- Each function rejects a string that is no address if and only if it has no socket; otherwise 255.255.255.255
    or 0.0.0.0 is configured. -/
theorem rejectsInvalid_iff (setter : Setter) (p : Parsers) (o : Outcome) (ifname : IfName) (s : List UInt8) (k : Kernel) :
    RejectsInvalid setter p o ifname s k ↔ p.aton (text s) ≠ none ∨ o.socket = false := by
  refine ⟨valid_or_no_socket, ?_⟩
  rintro (hvalid | hsocket) hnone
  · exact absurd hnone hvalid
  · exact call_of_no_socket hsocket setter

end Setters

/-! ### Four decimal numbers -/

/-- A number of an address: up to three digits, and no zero before the others. -/
def octet (s : List UInt8) : Option UInt8 :=
  if s ≠ [] ∧ s.length ≤ 3 ∧ s.all (isDigit 10) ∧ value 10 s < 256 ∧ (s.head? = some 48 → s.length = 1) then
    some (value 10 s).toUInt8
  else none

/-- An address as four decimal numbers. -/
def quad (s : List UInt8) : Option InAddr :=
  match s.splitOn 46 with
  | [a, b, c, d] => do return ⟨← octet a, ← octet b, ← octet c, ← octet d⟩
  | _ => none

/-- Parsers that take four decimal numbers and nothing else. -/
def dottedQuad : Parsers where
  aton := quad
  pton := quad
  addr := fun s => (quad s).getD inaddrNone
  server := fun s => (quad s).isSome
  addr_eq := fun _ => rfl
  aton_of_pton := fun _ _ h => h

/-- The interface `eth0`. -/
def eth0 : IfName := ⟨lit "eth0", by decide +kernel⟩

/-- A kernel that nothing was asked of. -/
def blank : Kernel where
  addr := fun _ => none
  netmask := fun _ => none
  routes := []
  issued := []

/-- 255.255.255.255 is configured for a string that is no address. -/
theorem garbage_configured : ¬∀ setter p o ifname s k, RejectsInvalid setter p o ifname s k := by
  intro hclaim
  rcases valid_or_no_socket (hclaim .ip dottedQuad ⟨true, true⟩ eth0 (lit "garbage") blank) with hvalid | hsocket
  · exact hvalid (by decide +kernel)
  · cases hsocket

/-! ### `set_ip_attr` -/

/-- An attribute of four strings. -/
structure AttrStrings extends NetdevAttrT where
  terminated : ∀ field ∈ [ipaddr, netmask, gateway, dns], (text field.toList).length < ipSize

/-- What the four functions change. -/
structure Net where
  kernel : Kernel
  host : Host

/-- What becomes of the calls and of the commands of the four functions. -/
structure Outcomes where
  ip : Outcome
  netmask : Outcome
  gateway : Outcome
  dns : Commands

/-- What the four functions return. -/
structure Results where
  ip : Int
  netmask : Int
  gateway : Int
  dns : Int

/-- The calls of `set_ip_attr`. -/
def setAll (p : Parsers) (o : Outcomes) (ifname : IfName) (attr : NetdevAttrT) (net : Net) : Option (Net × Results) := do
  let (kernel, ip) := setLocalIp p o.ip ifname attr.ipaddr.toList net.kernel
  let (kernel, netmask) := setLocalNetmask p o.netmask ifname attr.netmask.toList kernel
  let (kernel, gateway) := setLocalGateway p o.gateway ifname attr.gateway.toList kernel
  let (host, dns) ← setLocalDns o.dns net.host ifname.val attr.dns.toList
  return ({ kernel, host }, { ip, netmask, gateway, dns })

/-- `set_ip_attr`. It looks at nothing that the calls return. -/
def setIpAttr (p : Parsers) (o : Outcomes) (ifname : IfName) (attr : NetdevAttrT) (net : Net) : Option (Net × Int) :=
  (setAll p o ifname attr net).map fun (net, _) => (net, emberEok)

/-- The interface has the address, the netmask, the default route and the nameserver of the strings. What the shell
    makes of a quote in a string is no nameserver, nor is a word that the resolver does not take. -/
structure Configured (p : Parsers) (ifname : IfName) (attr : NetdevAttrT) (net : Net) : Prop where
  addr : ∃ v, p.aton (text attr.ipaddr.toList) = some v ∧ net.kernel.addr (text ifname.val) = some v
  netmask : ∃ v, p.aton (text attr.netmask.toList) = some v ∧ net.kernel.netmask (text ifname.val) = some v
  gateway : ∃ v, p.aton (text attr.gateway.toList) = some v ∧ ∃ route ∈ net.kernel.routes, route.dst = inaddrAny ∧
    route.genmask = inaddrAny ∧ route.gateway = v ∧ route.dev = text ifname.val
  dns : p.server (text attr.dns.toList) = true ∧ quote ∉ text attr.dns.toList ∧
    text attr.dns.toList ∈ nameservers net.host.resolvConf

/-- Every setting could be applied: no function and no command has failed, and all is configured. -/
def AllApplied (p : Parsers) (o : Outcomes) (ifname : IfName) (attr : NetdevAttrT) (net : Net) : Prop :=
  o.dns = .succeed ∧ ∃ net', setAll p o ifname attr net = some (net', ⟨emberEok, emberEok, emberEok, emberEok⟩) ∧
    Configured p ifname attr net'

/-- Success means that everything is configured, and what could not be applied is an error. -/
def AllOrError (p : Parsers) (o : Outcomes) (ifname : IfName) (attr : NetdevAttrT) (net : Net) : Prop :=
  ∃ net' ret, setIpAttr p o ifname attr net = some (net', ret) ∧ (ret = emberEok → Configured p ifname attr net') ∧
    (¬AllApplied p o ifname attr net → ret = -emberError)

/-- No call and no command fails, and the strings are what their parsers want. -/
structure Applicable (p : Parsers) (o : Outcomes) (attr : NetdevAttrT) : Prop where
  calls : ∀ outcome ∈ [o.ip, o.netmask, o.gateway], outcome.socket = true ∧ outcome.ioctl = true
  commands : o.dns = .succeed
  addr : p.aton (text attr.ipaddr.toList) ≠ none
  -- The netmask that `inet_pton` leaves is 0.0.0.0.
  netmask : p.pton (text attr.netmask.toList) ≠ none ∨ p.aton (text attr.netmask.toList) = some inaddrAny
  gateway : p.aton (text attr.gateway.toList) ≠ none
  dns : p.server (text attr.dns.toList) = true ∧ quote ∉ text attr.dns.toList ∧ newline ∉ text attr.dns.toList

section SetIpAttr
variable {p : Parsers} {o : Outcomes} {outcome : Outcome} {ifname : IfName} {attr : NetdevAttrT} {net : Net}
  {s : List UInt8} {k : Kernel}

theorem calls_ok_of_result (setter : Setter) (h : (setter.call p outcome ifname s k).2 = emberEok) :
    outcome.socket = true ∧ outcome.ioctl = true := by
  have hfailed : -emberError ≠ emberEok := by decide
  cases hsocket : outcome.socket with
  | false =>
    rw [call_of_no_socket hsocket] at h
    exact absurd h hfailed
  | true =>
    rw [call_of_socket hsocket, Kernel.ioctl] at h
    cases hioctl : outcome.ioctl with
    | true => exact ⟨rfl, rfl⟩
    | false =>
      rw [hioctl] at h
      exact absurd h hfailed

theorem call_of_ok (h : outcome.socket = true ∧ outcome.ioctl = true) (setter : Setter) (p : Parsers) (ifname : IfName)
    (s : List UInt8) (k : Kernel) : setter.call p outcome ifname s k =
      (({ k with issued := k.issued ++ [setter.request (text ifname.val) (setter.configured p s)] } : Kernel).apply
        (setter.request (text ifname.val) (setter.configured p s)), emberEok) := by
  rw [call_of_socket h.1, Kernel.ioctl, h.2]
  rfl

/-- The call for the DNS succeeds, and a word is then in the file if the commands succeed. -/
theorem setLocalDns_lists (commands : Commands) (host : Host) (ifname : List UInt8) {a : List UInt8}
    (ha : (text a).length < ipSize) : ∃ host', setLocalDns commands host ifname a = some (host', 0) ∧
      (commands = .succeed → IsWord a → text a ∈ nameservers host'.resolvConf) := by
  have hremember : ∃ kept, host.rememberFor ifname a = some kept := by
    have hany : ∀ i, ∃ kept, host.remember i a = some kept := fun i => by
      obtain ⟨attr, hattr, -⟩ := remember_eq ha host i
      exact ⟨_, hattr⟩
    rw [Host.rememberFor]
    split
    · exact hany 0
    · split
      · exact hany 1
      · exact ⟨host, rfl⟩
  obtain ⟨kept, hkept⟩ := hremember
  refine ⟨kept.system a commands, ?_, ?_⟩
  · rw [setLocalDns, hkept]
    rfl
  · rintro rfl hword
    rw [Host.system, rewrite_eq hword, nameservers_written hword]
    exact List.mem_cons_self

/-- The kernel after the three calls, where none fails. -/
def configured (p : Parsers) (name : List UInt8) (attr : NetdevAttrT) (k : Kernel) : Kernel where
  addr := Function.update k.addr name (some (Setter.ip.configured p attr.ipaddr.toList))
  netmask := Function.update k.netmask name (some (Setter.netmask.configured p attr.netmask.toList))
  routes := k.routes ++ [defaultRoute name (Setter.gateway.configured p attr.gateway.toList)]
  issued := k.issued ++ [.setAddr name (Setter.ip.configured p attr.ipaddr.toList)] ++
    [.setNetmask name (Setter.netmask.configured p attr.netmask.toList)] ++
    [.addRoute (defaultRoute name (Setter.gateway.configured p attr.gateway.toList))]

theorem setAll_eq {host : Host}
    (h : ∀ outcome ∈ [o.ip, o.netmask, o.gateway], outcome.socket = true ∧ outcome.ioctl = true)
    (hdns : setLocalDns o.dns net.host ifname.val attr.dns.toList = some (host, 0)) :
    setAll p o ifname attr net = some (⟨configured p (text ifname.val) attr net.kernel, host⟩,
      ⟨emberEok, emberEok, emberEok, emberEok⟩) := by
  have hip := call_of_ok (h o.ip (by simp)) .ip p ifname attr.ipaddr.toList net.kernel
  have hmask := call_of_ok (h o.netmask (by simp)) .netmask p ifname attr.netmask.toList
  have hgate := call_of_ok (h o.gateway (by simp)) .gateway p ifname attr.gateway.toList
  simp only [Setter.call] at hip hmask hgate
  rw [setAll, hip]
  simp only [hmask, hgate, hdns]
  rfl

theorem setAll_ok {net' : Net} (h : setAll p o ifname attr net = some (net', ⟨emberEok, emberEok, emberEok, emberEok⟩)) :
    ∀ outcome ∈ [o.ip, o.netmask, o.gateway], outcome.socket = true ∧ outcome.ioctl = true := by
  obtain ⟨⟨host, ret⟩, hdns, h⟩ := Option.bind_eq_some_iff.mp h
  obtain ⟨-, hresults⟩ := Prod.mk.inj (Option.some.inj h)
  have hip : (Setter.ip.call p o.ip ifname attr.ipaddr.toList net.kernel).2 = emberEok := congrArg Results.ip hresults
  have hmask := congrArg Results.netmask hresults
  have hgate := congrArg Results.gateway hresults
  simp only [List.forall_mem_cons]
  exact ⟨calls_ok_of_result .ip hip, calls_ok_of_result .netmask hmask, calls_ok_of_result .gateway hgate, nofun⟩

theorem AttrStrings.dns_short (attr : AttrStrings) : (text attr.dns.toList).length < ipSize :=
  attr.terminated attr.dns (by simp)

/-- The netmask that is configured is the one that the string means. -/
theorem aton_netmask (h : p.pton (text s) ≠ none ∨ p.aton (text s) = some inaddrAny) :
    p.aton (text s) = some (Setter.netmask.configured p s) := by
  cases hpton : p.pton (text s) with
  | some mask =>
    rw [Setter.configured, hpton]
    exact p.aton_of_pton _ _ hpton
  | none =>
    rw [Setter.configured, hpton]
    exact h.resolve_left (not_not.mpr hpton)

theorem allApplied_iff {attr : AttrStrings} :
    AllApplied p o ifname attr.toNetdevAttrT net ↔ Applicable p o attr.toNetdevAttrT := by
  obtain ⟨host, hdns, hlists⟩ := setLocalDns_lists o.dns net.host ifname.val attr.dns_short
  constructor
  · rintro ⟨hcommands, net', hset, happlied⟩
    have hcalls := setAll_ok hset
    obtain ⟨rfl, -⟩ := Prod.mk.inj (Option.some.inj ((setAll_eq hcalls hdns).symm.trans hset))
    obtain ⟨ip, hip, -⟩ := happlied.addr
    obtain ⟨mask, hmask, hnetmask⟩ := happlied.netmask
    obtain ⟨gate, hgate, -⟩ := happlied.gateway
    obtain ⟨hserver, hquote, hlisted⟩ := happlied.dns
    refine ⟨hcalls, hcommands, by simp [hip], ?_, by simp [hgate], hserver, hquote,
      newline_not_mem_of_mem_nameservers hlisted⟩
    refine or_iff_not_imp_left.mpr fun hnone => ?_
    rw [hmask, ← hnetmask]
    simp [configured, Setter.configured, not_not.mp hnone]
  · intro h
    obtain ⟨ip, hip⟩ := Option.ne_none_iff_exists'.mp h.addr
    obtain ⟨gate, hgate⟩ := Option.ne_none_iff_exists'.mp h.gateway
    obtain ⟨hserver, hquote, hnewline⟩ := h.dns
    have hlisted := hlists h.commands ⟨attr.dns_short, hquote, hnewline⟩
    refine ⟨h.commands, _, setAll_eq h.calls hdns, ⟨ip, hip, ?_⟩, ⟨_, aton_netmask h.netmask, ?_⟩,
      ⟨gate, hgate, defaultRoute (text ifname.val) (Setter.gateway.configured p attr.gateway.toList), ?_, rfl, rfl, ?_,
        rfl⟩, hserver, hquote, hlisted⟩
    · simp [configured, Setter.configured, hip]
    · simp [configured]
    · exact List.mem_append_right _ List.mem_cons_self
    · simp [defaultRoute, Setter.configured, hgate]

theorem setIpAttr_succeeds (p : Parsers) (o : Outcomes) (ifname : IfName) (attr : AttrStrings) (net : Net) :
    ∃ net', setIpAttr p o ifname attr.toNetdevAttrT net = some (net', emberEok) := by
  obtain ⟨host, hdns, -⟩ := setLocalDns_lists o.dns net.host ifname.val attr.dns_short
  rw [setIpAttr, setAll, hdns]
  exact ⟨_, rfl⟩

theorem applicable_of_allOrError {attr : AttrStrings} (h : AllOrError p o ifname attr.toNetdevAttrT net) :
    Applicable p o attr.toNetdevAttrT := by
  obtain ⟨net', ret, hset, -, herror⟩ := h
  obtain ⟨net'', hok⟩ := setIpAttr_succeeds p o ifname attr net
  cases hset.symm.trans hok
  by_contra hnot
  exact absurd (herror (mt allApplied_iff.mp hnot)) (by decide)

/-- The call tells its caller what has been configured if and only if everything has: no call and no command fails, and
    the parsers, the shell and the resolver take the strings. -/
theorem allOrError_iff (p : Parsers) (o : Outcomes) (ifname : IfName) (attr : AttrStrings) (net : Net) :
    AllOrError p o ifname attr.toNetdevAttrT net ↔ Applicable p o attr.toNetdevAttrT := by
  refine ⟨applicable_of_allOrError, fun h => ?_⟩
  have hall : AllApplied p o ifname attr.toNetdevAttrT net := allApplied_iff.mpr h
  have ⟨_, net', hset, happlied⟩ := hall
  refine ⟨net', emberEok, ?_, fun _ => happlied, fun hnot => absurd hall hnot⟩
  rw [setIpAttr, hset]
  rfl

end SetIpAttr

/-- A string in an attribute. -/
def field (s : List UInt8) : Field := ⟨(strncpy ipSize s).toArray, by simp⟩

/-- The attributes of an interface with a fixed address. -/
def staticAttr : AttrStrings where
  ipaddr := field (lit "10.0.0.2")
  netmask := field (lit "255.255.255.0")
  gateway := field (lit "10.0.0.1")
  dns := field (lit "8.8.8.8")
  terminated := by decide +kernel

/-- A device without a netmask: the call that should set it fails, and the caller is told that all is well. -/
theorem half_configured_succeeds :
    ¬∀ p o ifname net, ∀ attr : AttrStrings, AllOrError p o ifname attr.toNetdevAttrT net := by
  intro hclaim
  have hcalls := (applicable_of_allOrError (hclaim dottedQuad
    ⟨⟨true, true⟩, ⟨true, false⟩, ⟨true, true⟩, .succeed⟩ eth0 ⟨blank, start []⟩ staticAttr)).calls
  have hnetmask : true = true ∧ false = true := hcalls ⟨true, false⟩ (by simp)
  exact absurd hnetmask.2 (by decide)

end Emberlite.Netdev
