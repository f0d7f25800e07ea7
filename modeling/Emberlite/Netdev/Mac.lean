import Emberlite.Netdev.SetIp
import Emberlite.Lib.Scanf

/-! `set_local_mac` and `get_local_mac` (src/components/netdev/src/netdev.c): the strings that are taken for a hardware
    address, and the strings that should be. -/

namespace Emberlite.Netdev
open CString CNumber Scanf

/-- `MAC_SIZE` -/
def macSize : Nat := 18

/-- The six bytes of a hardware address. -/
abbrev Mac : Type := Vector UInt8 6

/-- `ARPHRD_ETHER` -/
def arphrdEther : Nat := 1

/-- `ifr_name`, and the family and `sa_data` of `ifr_hwaddr`. -/
structure HwaddrReq where
  name : List UInt8
  family : Nat
  sa_data : Vector UInt8 14

/-- The address that a device takes from a request. -/
def HwaddrReq.mac (req : HwaddrReq) : Mac := req.sa_data.take 6

/-- The hardware addresses, by the names of the devices, and the requests to set one. -/
structure Nic where
  hwaddr : List UInt8 → Mac
  issued : List HwaddrReq

/-- Who calls, whether the calls succeed, what a `%x` out of the range of an `unsigned int` stores, and what the stack
    holds. -/
structure MacCalls where
  uid : Nat
  euid : Nat
  socket : Bool
  ioctl : Bool
  store : Int → BitVec 32
  store_eq : ∀ n < 2 ^ 32, store (n : Nat) = BitVec.ofNat 32 n
  stack : Vector UInt8 14

/-! ### The source -/

/-- `ioctl` with `SIOCSIFHWADDR`, and what follows it. -/
def Nic.ioctl (nic : Nic) (ok : Bool) (req : HwaddrReq) : Nic × Int :=
  let nic := { nic with issued := nic.issued ++ [req] }
  if ok then ({ nic with hwaddr := Function.update nic.hwaddr req.name req.mac }, emberEok) else (nic, -emberError)

/-- "%x:%x:%x:%x:%x:%x%*c". -/
def macFormat : List Directive :=
  [.hex, .char 58, .hex, .char 58, .hex, .char 58, .hex, .char 58, .hex, .char 58, .hex, .skip]

/-- `(uint8_t)values[i]`. -/
def low (values : List (BitVec 32)) (i : Nat) : UInt8 := .ofBitVec ((values.getD i 0).setWidth 8)

/-- The body of the loop, which stores all six values each time. -/
def storeValues (values : List (BitVec 32)) (sa_data : Vector UInt8 14) : Vector UInt8 14 :=
  (((((sa_data.set 0 (low values 0)).set 1 (low values 1)).set 2 (low values 2)).set 3 (low values 3)).set 4
    (low values 4)).set 5 (low values 5)

/-- `set_local_mac` -/
def setLocalMac (calls : MacCalls) (ifname : IfName) (mac : List UInt8) (nic : Nic) : Nic × Int :=
  if 0 ≠ calls.uid ∧ 0 ≠ calls.euid then (nic, -emberError)
  else if !calls.socket then (nic, -emberError)
  else
    let (ret, numbers) := sscanf macFormat (text mac)
    if 6 > ret then (nic, -emberError)
    else
      let values := numbers.map calls.store
      let sa_data := (List.range 6).foldl (fun sa_data _ => storeValues values sa_data) calls.stack
      nic.ioctl calls.ioctl { name := text ifname.val, family := arphrdEther, sa_data }

/-- The digit that `%x` prints. -/
def hexDigit (n : Nat) : UInt8 := if n < 10 then (48 + n).toUInt8 else (87 + n).toUInt8

/-- `%02x`. -/
def twoDigits (byte : UInt8) : List UInt8 := [hexDigit (byte.toNat / 16), hexDigit (byte.toNat % 16)]

/-- What "%02x:%02x:%02x:%02x:%02x:%02x" prints. -/
def printMac (mac : Mac) : List UInt8 :=
  twoDigits mac[0] ++ lit ":" ++ twoDigits mac[1] ++ lit ":" ++ twoDigits mac[2] ++ lit ":" ++ twoDigits mac[3] ++
    lit ":" ++ twoDigits mac[4] ++ lit ":" ++ twoDigits mac[5]

/-- `get_local_mac`, with what `socket` and `SIOCGIFHWADDR` answer. -/
def getLocalMac (socket : Bool) (ifHwaddr : List UInt8 → Option Mac) (ifname : IfName) (mac : Vector UInt8 macSize) :
    Option (Vector UInt8 macSize × Int) :=
  if !socket then some (mac, -emberError)
  else
    match ifHwaddr (text (strncpy (ifNameSize - 1) ifname.val)) with
    | none => some (mac, -emberError)
    | some hwaddr => (FixedBuffer.write mac 0 (snprintf macSize (printMac hwaddr))).map (·, emberEok)

/-! ### The strings that should be taken -/

/-- One or two hexadecimal digits. -/
def Group (s : List UInt8) (byte : UInt8) : Prop :=
  (s.length = 1 ∨ s.length = 2) ∧ (∀ c ∈ s, isDigit 16 c) ∧ byte = (value 16 s).toUInt8

/-- `k + 1` groups with colons between them. -/
inductive Groups : Nat → List UInt8 → List UInt8 → Prop
  | last {s : List UInt8} {byte : UInt8} (h : Group s byte) : Groups 0 s [byte]
  | more {k : Nat} {group s bytes : List UInt8} {byte : UInt8} (h : Group group byte) (hs : Groups k s bytes) :
      Groups (k + 1) (group ++ 58 :: s) (byte :: bytes)

/-- The string of a hardware address. -/
def IsMac (s : List UInt8) (mac : Mac) : Prop := Groups 5 (text s) mac.toList

/-- The caller may set an address, and there is a socket. -/
def MacCalls.may (calls : MacCalls) : Prop := (calls.uid = 0 ∨ calls.euid = 0) ∧ calls.socket = true

/-- The call asks the device to take this address. -/
def Programs (calls : MacCalls) (ifname : IfName) (s : List UInt8) (nic : Nic) (mac : Mac) : Prop :=
  ∃ req : HwaddrReq, req.name = text ifname.val ∧ req.mac = mac ∧
    setLocalMac calls ifname s nic = nic.ioctl calls.ioctl req

/-- The string of an address programs that address, and any other string is rejected. -/
def TakesMacs (calls : MacCalls) (ifname : IfName) (s : List UInt8) (nic : Nic) : Prop :=
  (calls.may → ∀ mac, IsMac s mac → Programs calls ifname s nic mac) ∧
    ((∀ mac, ¬IsMac s mac) → setLocalMac calls ifname s nic = (nic, -emberError))

/-- The string that is read from a device gives its address back. -/
def RoundTrips (calls : MacCalls) (ifname : IfName) (nic : Nic) (buffer : Vector UInt8 macSize) (mac : Mac) : Prop :=
  ∃ string, getLocalMac true (fun _ => some mac) ifname buffer = some (string, emberEok) ∧
    (calls.may → Programs calls ifname string.toList nic mac)

/-- Six numbers as `%x` takes them with colons between them, and anything after them. -/
def Scanned (s : List UInt8) : Prop := ∃ values, HexFields 58 5 (text s) values

/-! ### Groups of digits -/

section Groups
variable {calls : MacCalls} {s rest bytes : List UInt8} {byte : UInt8} {k : Nat}

/-- Where nothing follows that could belong to a number. -/
def Ends (rest : List UInt8) : Prop := ∀ c ∈ rest.head?, isDigit 16 c = false ∧ c ≠ 120 ∧ c ≠ 88

theorem unmarked_group (hs : ∀ c ∈ s, isDigit 16 c) (hrest : Ends rest) : Unmarked (s ++ rest) := by
  have hsecond : ∀ x, (x = 120 ∨ x = 88) → ¬[48, x] <+: s ++ rest := by
    intro x hx hprefix
    obtain ⟨after, hafter⟩ := hprefix
    rcases s with _ | ⟨c, _ | ⟨d, s⟩⟩
    · obtain rfl : 48 :: x :: after = rest := hafter
      exact absurd (hrest 48 rfl).1 (by decide)
    · obtain rfl : x :: after = rest := (List.cons.inj hafter).2
      exact hx.elim (hrest x rfl).2.1 (hrest x rfl).2.2
    · obtain ⟨-, hxrest⟩ := List.cons.inj hafter
      obtain ⟨rfl, -⟩ := List.cons.inj hxrest
      have hdigit : isDigit 16 x := hs x (by simp)
      rcases hx with rfl | rfl
      · exact absurd hdigit (by decide)
      · exact absurd hdigit (by decide)
  intro mark hmark hprefix
  cases hmark with
  | none => rfl
  | lower => exact absurd hprefix (hsecond 120 (.inl rfl))
  | upper => exact absurd hprefix (hsecond 88 (.inr rfl))

/-- A group is a number for `%x`. -/
theorem item_of_group (h : Group s byte) (hrest : Ends rest) : HexItem s (value 16 s : Nat) rest := by
  obtain ⟨hlen, hs, -⟩ := h
  have hne : s ≠ [] := by
    rintro rfl
    simp at hlen
  exact ⟨[], [], [], s, false, rfl, nofun, .none, .none, hne, hs, rfl, fun c hc => (hrest c hc).1,
    fun _ => unmarked_group hs hrest⟩

theorem value_of_group (h : Group s byte) : value 16 s < 256 := by
  obtain ⟨hlen, hs, -⟩ := h
  have htwo : s.length ≤ 2 := by
    rcases hlen with hlen | hlen
    · exact Nat.le_succ_of_le (Nat.le_of_eq hlen)
    · exact Nat.le_of_eq hlen
  calc value 16 s < 16 ^ s.length := value_lt hs
    _ ≤ 16 ^ 2 := Nat.pow_le_pow_right (Nat.succ_pos 15) htwo

/-- The byte that is stored for a number. -/
def lowByte (calls : MacCalls) (n : Int) : UInt8 := .ofBitVec ((calls.store n).setWidth 8)

theorem lowByte_of_group (h : Group s byte) : lowByte calls (value 16 s : Nat) = byte := by
  have hsmall := value_of_group h
  rw [lowByte, calls.store_eq _ (Nat.lt_trans hsmall (by decide)), h.2.2, BitVec.setWidth_ofNat_of_le (by decide)]
  rfl

/-- The groups of an address are the numbers that the format takes. -/
theorem fields_of_groups (h : Groups k s bytes) :
    ∃ values, HexFields 58 k s values ∧ bytes = values.map (lowByte calls) := by
  induction h with
  | @last s byte h =>
    have hitem : HexItem s (value 16 s : Nat) [] := item_of_group h nofun
    refine ⟨[(value 16 s : Nat)], ?_, ?_⟩
    · have hlast : HexFields 58 0 (s ++ []) [(value 16 s : Nat)] := .last hitem
      rwa [List.append_nil] at hlast
    · rw [List.map_singleton, lowByte_of_group h]
  | @more k group s bytes byte h hs ih =>
    obtain ⟨values, hvalues, rfl⟩ := ih
    have hcolon : Ends (58 :: s) := by
      rintro c ⟨⟩
      exact ⟨by decide, by decide, by decide⟩
    refine ⟨(value 16 group : Nat) :: values, .more (item_of_group h hcolon) hvalues, ?_⟩
    rw [List.map_cons, lowByte_of_group h]

theorem length_groups (h : Groups k s bytes) : bytes.length = k + 1 ∧ s.length ≤ 3 * k + 2 := by
  induction h with
  | last h => exact ⟨rfl, by rcases h.1 with h | h <;> omega⟩
  | more h hs ih =>
    obtain ⟨hbytes, hlen⟩ := ih
    refine ⟨by rw [List.length_cons, hbytes], ?_⟩
    rw [List.length_append, List.length_cons]
    rcases h.1 with h | h <;> omega

end Groups

/-! ### The call -/

section Call
variable {calls : MacCalls} {ifname : IfName} {s bytes : List UInt8} {nic : Nic} {mac : Mac} {numbers : List Int}
  {i : Nat}

theorem getElem_storeValues (values : List (BitVec 32)) (sa_data : Vector UInt8 14) (hi : i < 6) :
    (storeValues values sa_data)[i] = low values i := by
  obtain rfl | rfl | rfl | rfl | rfl | rfl : i = 0 ∨ i = 1 ∨ i = 2 ∨ i = 3 ∨ i = 4 ∨ i = 5 := by omega
  all_goals simp [storeValues]

/-- The device takes the low bytes of the six values. -/
theorem toList_take_storeValues (hlen : numbers.length = 6) (sa_data : Vector UInt8 14) :
    ((storeValues (numbers.map calls.store) sa_data).take 6).toList = numbers.map (lowByte calls) := by
  refine List.ext_getElem (by simp [hlen]) fun i hi hi' => ?_
  have hsix : i < 6 := by simpa using hi
  have hnumber : i < numbers.length := hlen.symm ▸ hsix
  rw [Vector.getElem_toList, Vector.getElem_take, getElem_storeValues _ _ hsix, low, List.getElem_map]
  simp [hnumber, lowByte]

theorem MacCalls.may.user (h : calls.may) : ¬(0 ≠ calls.uid ∧ 0 ≠ calls.euid) := fun hnone =>
  h.1.elim (Ne.symm hnone.1) (Ne.symm hnone.2)

/-- A user who may, and still no call: there is no socket. -/
theorem socket_of_not_may (h : ¬calls.may) (huser : ¬(0 ≠ calls.uid ∧ 0 ≠ calls.euid)) : calls.socket = false := by
  by_contra hopen
  refine h ⟨?_, Bool.eq_true_of_not_eq_false hopen⟩
  simpa [or_iff_not_imp_left, eq_comm] using huser

theorem setLocalMac_of_not_may (h : ¬calls.may) : setLocalMac calls ifname s nic = (nic, -emberError) := by
  rw [setLocalMac]
  split
  · rfl
  · case _ huser =>
    rw [socket_of_not_may h huser]
    rfl

theorem setLocalMac_of_may (h : calls.may) : setLocalMac calls ifname s nic =
    if 6 > (sscanf macFormat (text s)).1 then (nic, -emberError)
    else nic.ioctl calls.ioctl {
      name := text ifname.val
      family := arphrdEther
      sa_data := (List.range 6).foldl
        (fun sa_data _ => storeValues ((sscanf macFormat (text s)).2.map calls.store) sa_data) calls.stack } := by
  rw [setLocalMac, if_neg h.user, h.2]
  rfl

/-- Where the format is taken to its end, the low bytes of its numbers are programmed. -/
theorem setLocalMac_fields (h : calls.may) (hfields : HexFields 58 5 (text s) numbers) (ifname : IfName) (nic : Nic) :
    ∃ req : HwaddrReq, req.name = text ifname.val ∧ req.mac.toList = numbers.map (lowByte calls) ∧
      setLocalMac calls ifname s nic = nic.ioctl calls.ioctl req := by
  have hlen : numbers.length = 6 := length_fields hfields
  rcases sscanf_cases 58 5 (text s) with ⟨values, hvalues, hret⟩ | ⟨hnone, -⟩
  · obtain rfl : values = numbers := (scan_fields hvalues).symm.trans (scan_fields hfields)
    have hscan : sscanf macFormat (text s) = (6, values) := hret
    refine ⟨_, ?_, ?_, (setLocalMac_of_may h).trans (if_neg ?_)⟩
    · rfl
    · rw [hscan]
      exact toList_take_storeValues hlen _
    · rw [hscan]
      exact lt_irrefl (6 : Int)
  · exact absurd hfields (hnone numbers)

theorem setLocalMac_not_scanned (h : ¬Scanned s) : setLocalMac calls ifname s nic = (nic, -emberError) := by
  by_cases hmay : calls.may
  · rcases sscanf_cases 58 5 (text s) with ⟨values, hvalues, -⟩ | ⟨-, hshort⟩
    · exact absurd ⟨values, hvalues⟩ h
    · rw [setLocalMac_of_may hmay, if_pos]
      exact hshort
  · exact setLocalMac_of_not_may hmay

theorem issued_ioctl (nic : Nic) (ok : Bool) (req : HwaddrReq) : (nic.ioctl ok req).1.issued = nic.issued ++ [req] := by
  cases ok <;> rfl

/-- A string that the format takes is programmed, so that it has to be the string of an address. -/
theorem isMac_of_takesMacs (h : TakesMacs calls ifname s nic) (hmay : calls.may) (hscanned : Scanned s) :
    ∃ mac, IsMac s mac := by
  by_contra hnone
  obtain ⟨numbers, hfields⟩ := hscanned
  obtain ⟨req, -, -, hcall⟩ := setLocalMac_fields hmay hfields ifname nic
  have hissued := issued_ioctl nic calls.ioctl req
  rw [← hcall, h.2 fun mac hmac => hnone ⟨mac, hmac⟩] at hissued
  simp at hissued

theorem programs_of_isMac (hmay : calls.may) (h : IsMac s mac) : Programs calls ifname s nic mac := by
  obtain ⟨numbers, hfields, hbytes⟩ := fields_of_groups h
  obtain ⟨req, hname, hmac, hcall⟩ := setLocalMac_fields hmay hfields ifname nic
  exact ⟨req, hname, Vector.toList_inj.mp (hmac.trans hbytes.symm), hcall⟩

/-! ### The string of a device -/

theorem digit_hexDigit : ∀ n : Fin 16, digit (hexDigit n) = some n.val := by decide

theorem group_twoDigits (byte : UInt8) : Group (twoDigits byte) byte := by
  have hhigh : byte.toNat / 16 < 16 := Nat.div_lt_of_lt_mul byte.toNat_lt
  have hlow : byte.toNat % 16 < 16 := Nat.mod_lt _ (by decide)
  have hdigit : ∀ n < 16, digit (hexDigit n) = some n := fun n hn => digit_hexDigit ⟨n, hn⟩
  refine ⟨.inr rfl, ?_, ?_⟩
  · intro c hc
    simp only [twoDigits, List.mem_cons, List.not_mem_nil, or_false] at hc
    rcases hc with rfl | rfl
    · simp [isDigit, hdigit _ hhigh, hhigh]
    · simp [isDigit, hdigit _ hlow, hlow]
  · simp only [twoDigits, value, List.foldl_cons, List.foldl_nil, hdigit _ hhigh, hdigit _ hlow, Option.getD_some,
      Nat.mul_zero, Nat.zero_add, Nat.div_add_mod]
    exact UInt8.ofNat_toNat.symm

theorem toList_mac (mac : Mac) : mac.toList = [mac[0], mac[1], mac[2], mac[3], mac[4], mac[5]] := by
  obtain ⟨⟨list⟩, hlen⟩ := mac
  match list, hlen with
  | [_, _, _, _, _, _], _ => rfl

theorem groups_printMac (mac : Mac) : Groups 5 (printMac mac) mac.toList := by
  have hcolon : lit ":" = [58] := by decide +kernel
  have hgroup := fun i : Fin 6 => group_twoDigits mac[i]
  simp only [printMac, hcolon, List.append_assoc, List.singleton_append, toList_mac]
  exact .more (hgroup 0) (.more (hgroup 1) (.more (hgroup 2) (.more (hgroup 3) (.more (hgroup 4) (.last (hgroup 5))))))

theorem noNul_groups {k : Nat} (h : Groups k s bytes) : NoNul s := by
  have hdigits : ∀ {group byte}, Group group byte → NoNul group := fun hgroup c hc hzero => by
    have hdigit := hgroup.2.1 c hc
    rw [hzero, isDigit_zero] at hdigit
    cases hdigit
  induction h with
  | last h => exact hdigits h
  | more h hs ih =>
    refine (hdigits h).append fun c hc => ?_
    rcases List.mem_cons.mp hc with rfl | hc
    · decide
    · exact ih c hc

end Call

theorem roundTrips (calls : MacCalls) (ifname : IfName) (nic : Nic) (buffer : Vector UInt8 macSize) (mac : Mac) :
    RoundTrips calls ifname nic buffer mac := by
  have hgroups := groups_printMac mac
  have hnul : NoNul (printMac mac) := noNul_groups hgroups
  have hlen : (printMac mac).length ≤ 17 := (length_groups hgroups).2
  have hfit : (printMac mac ++ [0]).length ≤ macSize := by
    rw [List.length_append]
    exact Nat.succ_le_succ hlen
  have hprint : snprintf macSize (printMac mac) = printMac mac ++ [0] := by
    rw [show macSize = 17 + 1 from rfl, snprintf, text_of_ne_zero hnul, List.take_of_length_le hlen]
  obtain ⟨string, hwrite, htext⟩ := text_write buffer hnul hfit
  refine ⟨string, ?_, fun hmay => programs_of_isMac hmay ?_⟩
  · have hget : getLocalMac true (fun _ => some mac) ifname buffer =
        (FixedBuffer.write buffer 0 (snprintf macSize (printMac mac))).map (·, emberEok) := if_neg (by decide)
    rw [hget, hprint, hwrite]
    rfl
  · rwa [IsMac, htext]

/-- A string is taken as it should be if and only if nothing can be programmed, or the format does not take it, or
    it is the string of an address; and what is printed for an address always programs it. -/
theorem takesMacs_iff (calls : MacCalls) (ifname : IfName) (nic : Nic) :
    (∀ s, TakesMacs calls ifname s nic ↔ ¬calls.may ∨ ¬Scanned s ∨ ∃ mac, IsMac s mac) ∧
      ∀ buffer mac, RoundTrips calls ifname nic buffer mac := by
  refine ⟨fun s => ⟨fun h => ?_, ?_⟩, roundTrips calls ifname nic⟩
  · by_contra hnot
    simp only [not_or, not_not] at hnot
    exact hnot.2.2 (isMac_of_takesMacs h hnot.1 hnot.2.1)
  · intro h
    refine ⟨fun hmay mac hmac => programs_of_isMac hmay hmac, fun hnone => ?_⟩
    rcases h with hmay | hscanned | ⟨mac, hmac⟩
    · exact setLocalMac_of_not_may hmay
    · exact setLocalMac_not_scanned hscanned
    · exact absurd hmac (hnone mac)

/-- A user who may do everything, where every call succeeds. -/
def root : MacCalls where
  uid := 0
  euid := 0
  socket := true
  ioctl := true
  store := fun n => BitVec.ofInt 32 n
  store_eq := fun _ _ => rfl
  stack := Vector.replicate 14 0

/-- Seven groups are taken for an address, the last of them is ignored. -/
theorem seven_groups_programmed : ¬∀ calls ifname s nic, TakesMacs calls ifname s nic := by
  intro hclaim
  have hmay : root.may := ⟨.inl rfl, rfl⟩
  have hscanned : Scanned (lit "aa:bb:cc:dd:ee:ff:00") := by
    rcases scan_cases 58 5 (text (lit "aa:bb:cc:dd:ee:ff:00")) with hfields | hshort
    · exact ⟨_, hfields⟩
    · exact absurd hshort (by decide +kernel)
  obtain ⟨mac, hmac⟩ := isMac_of_takesMacs (hclaim root eth0 _ ⟨fun _ => Vector.replicate 6 0, []⟩) hmay hscanned
  exact absurd (length_groups hmac).2 (by decide +kernel)

end Emberlite.Netdev
