import Emberlite.Netdev.Dns
import Emberlite.Lib.CNumber

/-! `get_ip_attr` and the four functions that it asks, `get_local_ip`, `get_local_netmask`, `get_local_gateway` and
    `get_local_dns` (src/components/netdev/src/netdev.c). -/

namespace Emberlite.Netdev
open CString CNumber

/-- `struct in_addr`, byte by byte. -/
structure InAddr where
  a : UInt8
  b : UInt8
  c : UInt8
  d : UInt8
  deriving DecidableEq, Repr

/-- `inet_ntoa` -/
def inetNtoa (addr : InAddr) : List UInt8 :=
  decimal addr.a.toNat ++ lit "." ++ decimal addr.b.toNat ++ lit "." ++ decimal addr.c.toNat ++ lit "." ++
    decimal addr.d.toNat

/-- `IFNAMSIZ`. -/
def ifNameSize : Nat := 16

/-- The name of an interface. -/
def IfName : Type := {s : List UInt8 // (text s).length < ifNameSize}

/-- `EMBER_EOK` -/
def emberEok : Int := 0

/-- `EMBER_ERROR` -/
def emberError : Int := 1

/-- A string of the attributes. -/
abbrev Field : Type := Vector UInt8 ipSize

/-- `netdev_attr_t` -/
structure NetdevAttrT where
  ipaddr : Field
  netmask : Field
  gateway : Field
  dns : Field

/-- What the kernel, the shell and the resolver answer. -/
structure Queries where
  ipSocket : Bool
  -- `SIOCGIFADDR`.
  ifAddr : List UInt8 → Option InAddr
  netmaskSocket : Bool
  -- `SIOCGIFNETMASK`.
  ifNetmask : List UInt8 → Option InAddr
  -- The output of a command.
  popen : List UInt8 → Option (List UInt8)
  malloc : Bool
  nameservers : List InAddr

/-! ### The source -/

/-- `get_local_ip` -/
def getLocalIp (q : Queries) (ifname : IfName) (ip : Field) : Option (Field × Int) :=
  if !q.ipSocket then some (ip, -emberError)
  else
    match q.ifAddr (text ((strncpy ifNameSize ifname.val).set (ifNameSize - 1) 0)) with
    | none => some (ip, -emberError)
    | some sin => (FixedBuffer.write ip 0 (snprintf ipSize (inetNtoa sin))).map (·, emberEok)

/-- `get_local_netmask` -/
def getLocalNetmask (q : Queries) (ifname : IfName) (netmask_addr : Field) : Option (Field × Int) :=
  if !q.netmaskSocket then some (netmask_addr, -emberError)
  else
    match q.ifNetmask (text (strncpy (ifNameSize - 1) ifname.val)) with
    | none => some (netmask_addr, -emberError)
    | some sin => (FixedBuffer.write netmask_addr 0 (strncpy ipSize (inetNtoa sin))).map (·, emberEok)

/-- The command of `get_local_gateway`, which fits in its buffer. -/
def routeCommand (ifname : IfName) : List UInt8 :=
  lit "route -n | grep " ++ text ifname.val ++ lit "  | grep 'UG[ \t]' | awk '\x7bprint $2\x7d'"

/-- A line without its end. -/
def withoutNewline (line : List UInt8) : List UInt8 := if line.getLast? = some newline then line.dropLast else line

/-- `get_local_gateway`. A line that begins with NUL is read before its start. -/
def getLocalGateway (q : Queries) (ifname : IfName) (gateway : Field) : Option (Field × Int) :=
  match q.popen (routeCommand ifname) with
  | none => some (gateway, -emberError)
  | some output =>
    match fgets 256 output with
    | none => some (gateway, -emberError)
    | some line =>
      if text line = [] then none
      else (FixedBuffer.write gateway 0 (withoutNewline (text line) ++ [0])).map (·, emberEok)

/-- `get_local_dns`. Without memory it goes on with a null pointer. -/
def getLocalDns (q : Queries) (dns_addr : Field) : Option (Field × Int) :=
  if !q.malloc then none
  else
    match q.nameservers with
    | [] => some (dns_addr, -emberError)
    | sin :: _ => (FixedBuffer.write dns_addr 0 (snprintf ipSize (inetNtoa sin))).map (·, emberEok)

/-- `if (!get_...) strncpy(..., NONE_IP, IP_SIZE)`, after the call. -/
def replaced (got : Field × Int) : Option Field :=
  if got.2 = 0 then FixedBuffer.write got.1 0 (strncpy ipSize noneIp) else some got.1

/-- `get_ip_attr` -/
def getIpAttr (q : Queries) (ifname : IfName) (attr : NetdevAttrT) : Option (NetdevAttrT × Int) := do
  let ipaddr ← getLocalIp q ifname attr.ipaddr >>= replaced
  let netmask ← getLocalNetmask q ifname attr.netmask >>= replaced
  let gateway ← getLocalGateway q ifname attr.gateway >>= replaced
  let dns ← getLocalDns q attr.dns >>= replaced
  return ({ ipaddr, netmask, gateway, dns }, emberEok)

/-! ### What the fields should hold -/

/-- The string that the call has got, or 0.0.0.0 if it has failed. -/
def Law (got : Option (Field × Int)) (after : Field) : Prop :=
  ∃ field ret, got = some (field, ret) ∧ text after.toList = if ret = emberEok then text field.toList else noneIp

/-- The call succeeds, and each field holds what its getter has got, or 0.0.0.0. -/
def FollowsGetters (q : Queries) (ifname : IfName) (attr : NetdevAttrT) : Prop :=
  ∃ attr', getIpAttr q ifname attr = some (attr', emberEok) ∧ Law (getLocalIp q ifname attr.ipaddr) attr'.ipaddr ∧
    Law (getLocalNetmask q ifname attr.netmask) attr'.netmask ∧
    Law (getLocalGateway q ifname attr.gateway) attr'.gateway ∧ Law (getLocalDns q attr.dns) attr'.dns

/-! ### What the calls get -/

/-- The address, where it can be got. -/
def ipAnswer (q : Queries) (ifname : IfName) : Option (List UInt8) :=
  if q.ipSocket then (q.ifAddr (text ifname.val)).map inetNtoa else none

/-- The netmask, where it can be got. -/
def netmaskAnswer (q : Queries) (ifname : IfName) : Option (List UInt8) :=
  if q.netmaskSocket then (q.ifNetmask (text ifname.val)).map inetNtoa else none

/-- The line that the command prints, where there is one. -/
def gatewayAnswer (q : Queries) (ifname : IfName) : Option (List UInt8) :=
  ((q.popen (routeCommand ifname)).bind (fgets 256)).map fun line => withoutNewline (text line)

/-- The first name server, where there is one. -/
def dnsAnswer (q : Queries) : Option (List UInt8) := q.nameservers.head?.map inetNtoa

/-- The answer is 0.0.0.0, or there is none and the field holds 0.0.0.0 already. -/
def Harmless (answer : Option (List UInt8)) (before : Field) : Prop :=
  match answer with
  | some s => s = noneIp
  | none => text before.toList = noneIp

/-- What a call with this answer gets; a string that is too long is written past the end of the field. -/
def Answers (got : Option (Field × Int)) (answer : Option (List UInt8)) (before : Field) : Prop :=
  match answer with
  | none => got = some (before, -emberError)
  | some s => (∃ field, got = some (field, emberEok) ∧ text field.toList = s) ∨ got = none ∧ s ≠ noneIp

section Fields
variable {q : Queries} {ifname : IfName} {attr : NetdevAttrT} {field before : Field} {s rest : List UInt8}
  {answer : Option (List UInt8)} {got : Option (Field × Int)}

theorem text_write {n : Nat} (buffer : Vector UInt8 n) (hs : NoNul s) (hfit : (s ++ 0 :: rest).length ≤ n) :
    ∃ after : Vector UInt8 n, FixedBuffer.write buffer 0 (s ++ 0 :: rest) = some after ∧ text after.toList = s := by
  have hroom : 0 + (s ++ 0 :: rest).length ≤ n := by rwa [Nat.zero_add]
  obtain ⟨after, hwrite, hlist⟩ := FixedBuffer.write_eq buffer hroom
  refine ⟨after, hwrite, ?_⟩
  rw [hlist, List.take_zero, List.nil_append, List.append_assoc, List.cons_append]
  exact text_append_zero hs _

theorem noNul_noneIp : NoNul noneIp := noNul_of_all (by decide +kernel)

theorem length_noneIp : noneIp.length = 7 := by decide +kernel

/-- A string that fits is copied and filled up with NULs. -/
theorem strncpy_split (hs : NoNul s) (hshort : s.length < ipSize) :
    ∃ rest, strncpy ipSize s = s ++ 0 :: rest ∧ (s ++ 0 :: rest).length ≤ ipSize := by
  obtain ⟨k, hk⟩ : ∃ k, ipSize - s.length = k + 1 := ⟨ipSize - s.length - 1, by omega⟩
  have hcopy : strncpy ipSize s = s ++ 0 :: List.replicate k 0 := by
    rw [strncpy_eq, text_of_ne_zero hs, List.take_of_length_le (Nat.le_of_lt hshort), hk, List.replicate_succ]
  refine ⟨List.replicate k 0, hcopy, ?_⟩
  rw [← hcopy, length_strncpy]

theorem replaced_eq (field : Field) :
    ∃ after, replaced (field, emberEok) = some after ∧ text after.toList = noneIp := by
  obtain ⟨rest, hcopy, hfit⟩ := strncpy_split noNul_noneIp (by rw [length_noneIp]; decide)
  obtain ⟨after, hwrite, htext⟩ := text_write field noNul_noneIp hfit
  refine ⟨after, ?_, htext⟩
  rw [replaced, hcopy]
  exact hwrite

/-- The test is the wrong way round: an answer is replaced, and where there is none the field stays. -/
theorem law_iff (h : Answers got answer before) :
    (∃ after, got >>= replaced = some after ∧ Law got after) ↔ Harmless answer before := by
  cases answer with
  | none =>
    obtain rfl : got = some (before, -emberError) := h
    have hstays : (some (before, -emberError) >>= replaced) = some before := rfl
    constructor
    · rintro ⟨after, hafter, field, ret, hgot, htext⟩
      cases hgot
      cases hstays.symm.trans hafter
      exact htext
    · exact fun hnone => ⟨before, hstays, before, -emberError, rfl, hnone⟩
  | some s =>
    rcases h with ⟨field, rfl, htext⟩ | ⟨rfl, hother⟩
    · obtain ⟨after, hreplaced, hnone⟩ := replaced_eq field
      constructor
      · rintro ⟨after', hafter', field', ret, hgot, htext'⟩
        cases hgot
        cases hreplaced.symm.trans hafter'
        exact htext.symm.trans (htext'.symm.trans hnone)
      · intro hs
        refine ⟨after, hreplaced, field, emberEok, rfl, ?_⟩
        rw [if_pos rfl, hnone, htext]
        exact Eq.symm hs
    · exact iff_of_false (fun ⟨_, hafter, _⟩ => nomatch hafter) hother

/-! ### Addresses in text -/

theorem lit_dot : lit "." = [46] := by decide +kernel

theorem noNul_inetNtoa (addr : InAddr) : NoNul (inetNtoa addr) := by
  have hdot : NoNul (lit ".") := noNul_of_all (by decide +kernel)
  have hnumber : ∀ byte : UInt8, NoNul (decimal byte.toNat) := fun byte => noNul_decimal _
  exact (((((hnumber _).append hdot).append (hnumber _)).append hdot).append (hnumber _)).append hdot
    |>.append (hnumber _)

theorem length_inetNtoa (addr : InAddr) : (inetNtoa addr).length < ipSize := by
  have hnumber : ∀ byte : UInt8, (decimal byte.toNat).length ≤ 3 := fun byte =>
    length_decimal_le (by decide) (Nat.lt_trans byte.toNat_lt (by decide))
  have ha := hnumber addr.a
  have hb := hnumber addr.b
  have hc := hnumber addr.c
  have hd := hnumber addr.d
  simp only [inetNtoa, lit_dot, List.length_append, List.length_singleton, ipSize]
  omega

/-- The address is in the field, however it is copied there. -/
theorem answers_inetNtoa {source : List UInt8} {addr : InAddr}
    (hsource : ∃ rest, source = inetNtoa addr ++ 0 :: rest ∧ (inetNtoa addr ++ 0 :: rest).length ≤ ipSize) :
    Answers ((FixedBuffer.write before 0 source).map (·, emberEok)) (some (inetNtoa addr)) before := by
  obtain ⟨rest, rfl, hfit⟩ := hsource
  obtain ⟨field, hwrite, htext⟩ := text_write before (noNul_inetNtoa addr) hfit
  rw [hwrite]
  exact .inl ⟨field, rfl, htext⟩

theorem snprintf_inetNtoa (addr : InAddr) :
    ∃ rest, snprintf ipSize (inetNtoa addr) = inetNtoa addr ++ 0 :: rest ∧
      (inetNtoa addr ++ 0 :: rest).length ≤ ipSize := by
  have hlen : (inetNtoa addr).length ≤ 15 := Nat.le_of_lt_succ (length_inetNtoa addr)
  refine ⟨[], ?_, ?_⟩
  · rw [ipSize, snprintf, text_of_ne_zero (noNul_inetNtoa addr), List.take_of_length_le hlen]
  · rw [List.length_append, List.length_singleton, ipSize]
    omega

/-! ### The calls -/

theorem text_ifrName (ifname : IfName) :
    text ((strncpy ifNameSize ifname.val).set (ifNameSize - 1) 0) = text ifname.val ∧
      text (strncpy (ifNameSize - 1) ifname.val) = text ifname.val := by
  have hlen : (text ifname.val).length ≤ ifNameSize - 1 := Nat.le_of_lt_succ ifname.property
  have hzeros : ∀ k, text (text ifname.val ++ List.replicate k 0) = text ifname.val := text_append_zeros (noNul_text _)
  constructor
  · rw [strncpy_eq, List.take_of_length_le (Nat.le_of_lt ifname.property), List.set_append_right _ _ hlen,
      List.set_replicate_self, hzeros]
  · rw [strncpy_eq, List.take_of_length_le hlen, hzeros]

theorem answers_ip (q : Queries) (ifname : IfName) (ip : Field) :
    Answers (getLocalIp q ifname ip) (ipAnswer q ifname) ip := by
  rw [getLocalIp, ipAnswer, (text_ifrName ifname).1]
  cases q.ipSocket with
  | false => rfl
  | true =>
    rw [if_neg (by decide), if_pos rfl]
    cases haddr : q.ifAddr (text ifname.val) with
    | none => rfl
    | some addr => exact answers_inetNtoa (snprintf_inetNtoa addr)

theorem answers_netmask (q : Queries) (ifname : IfName) (netmask : Field) :
    Answers (getLocalNetmask q ifname netmask) (netmaskAnswer q ifname) netmask := by
  rw [getLocalNetmask, netmaskAnswer, (text_ifrName ifname).2]
  cases q.netmaskSocket with
  | false => rfl
  | true =>
    rw [if_neg (by decide), if_pos rfl]
    cases haddr : q.ifNetmask (text ifname.val) with
    | none => rfl
    | some addr => exact answers_inetNtoa (strncpy_split (noNul_inetNtoa addr) (length_inetNtoa addr))

theorem noNul_withoutNewline (line : List UInt8) : NoNul (withoutNewline (text line)) := by
  rw [withoutNewline]
  split
  · exact fun c hc => noNul_text line c (List.dropLast_subset _ hc)
  · exact noNul_text line

theorem answers_gateway (q : Queries) (ifname : IfName) (gateway : Field) :
    Answers (getLocalGateway q ifname gateway) (gatewayAnswer q ifname) gateway := by
  rw [getLocalGateway, gatewayAnswer]
  cases houtput : q.popen (routeCommand ifname) with
  | none => rfl
  | some output =>
    cases hline : fgets 256 output with
    | none =>
      simp only [Option.bind_some, hline]
      rfl
    | some line =>
      simp only [Option.bind_some, hline, Option.map_some]
      by_cases hempty : text line = []
      · refine .inr ⟨if_pos hempty, ?_⟩
        rw [hempty]
        decide +kernel
      · rw [if_neg hempty]
        by_cases hfit : (withoutNewline (text line) ++ [0]).length ≤ ipSize
        · obtain ⟨field, hwrite, htext⟩ := text_write gateway (noNul_withoutNewline line) hfit
          rw [hwrite]
          exact .inl ⟨field, rfl, htext⟩
        · have hlong : FixedBuffer.write gateway 0 (withoutNewline (text line) ++ [0]) = none :=
            dif_neg (by rwa [Nat.zero_add])
          rw [hlong]
          refine .inr ⟨rfl, fun hnone => hfit ?_⟩
          rw [hnone, List.length_append, length_noneIp]
          decide

theorem answers_dns (hmalloc : q.malloc = true) (dns : Field) : Answers (getLocalDns q dns) (dnsAnswer q) dns := by
  rw [getLocalDns, dnsAnswer, hmalloc, if_neg (by decide)]
  cases q.nameservers with
  | nil => rfl
  | cons addr rest => exact answers_inetNtoa (snprintf_inetNtoa addr)

theorem harmless_of_follows (h : FollowsGetters q ifname attr) : Harmless (ipAnswer q ifname) attr.ipaddr ∧
    Harmless (netmaskAnswer q ifname) attr.netmask ∧ Harmless (gatewayAnswer q ifname) attr.gateway ∧
    q.malloc = true ∧ Harmless (dnsAnswer q) attr.dns := by
  obtain ⟨attr', hattr, hlaw₁, hlaw₂, hlaw₃, hlaw₄⟩ := h
  obtain ⟨ipaddr, hip, hattr⟩ := Option.bind_eq_some_iff.mp hattr
  obtain ⟨netmask, hmask, hattr⟩ := Option.bind_eq_some_iff.mp hattr
  obtain ⟨gateway, hgate, hattr⟩ := Option.bind_eq_some_iff.mp hattr
  obtain ⟨dns, hdns, hattr⟩ := Option.bind_eq_some_iff.mp hattr
  have hmalloc : q.malloc = true := by
    cases hnone : q.malloc with
    | true => rfl
    | false =>
      rw [getLocalDns, hnone] at hdns
      cases hdns
  cases hattr
  exact ⟨(law_iff (answers_ip ..)).mp ⟨ipaddr, hip, hlaw₁⟩, (law_iff (answers_netmask ..)).mp ⟨netmask, hmask, hlaw₂⟩,
    (law_iff (answers_gateway ..)).mp ⟨gateway, hgate, hlaw₃⟩, hmalloc,
    (law_iff (answers_dns hmalloc _)).mp ⟨dns, hdns, hlaw₄⟩⟩

/-- Every field holds what it should, if and only if memory could be had and each call has got 0.0.0.0, or has failed
    with 0.0.0.0 in its field before. -/
theorem followsGetters_iff (q : Queries) (ifname : IfName) (attr : NetdevAttrT) :
    FollowsGetters q ifname attr ↔ Harmless (ipAnswer q ifname) attr.ipaddr ∧
      Harmless (netmaskAnswer q ifname) attr.netmask ∧ Harmless (gatewayAnswer q ifname) attr.gateway ∧
      q.malloc = true ∧ Harmless (dnsAnswer q) attr.dns := by
  refine ⟨harmless_of_follows, fun ⟨hip, hmask, hgate, hmalloc, hdns⟩ => ?_⟩
  obtain ⟨ipaddr, hip, hlaw₁⟩ := (law_iff (answers_ip ..)).mpr hip
  obtain ⟨netmask, hmask, hlaw₂⟩ := (law_iff (answers_netmask ..)).mpr hmask
  obtain ⟨gateway, hgate, hlaw₃⟩ := (law_iff (answers_gateway ..)).mpr hgate
  obtain ⟨dns, hdns, hlaw₄⟩ := (law_iff (answers_dns hmalloc _)).mpr hdns
  refine ⟨⟨ipaddr, netmask, gateway, dns⟩, ?_, hlaw₁, hlaw₂, hlaw₃, hlaw₄⟩
  rw [getIpAttr, hip, hmask, hgate, hdns]
  rfl

end Fields

/-! ### An interface with an address -/

/-- Every call gets 10.0.0.1. -/
def answering : Queries where
  ipSocket := true
  ifAddr := fun _ => some ⟨10, 0, 0, 1⟩
  netmaskSocket := true
  ifNetmask := fun _ => some ⟨10, 0, 0, 1⟩
  popen := fun _ => some (lit "10.0.0.1\n")
  malloc := true
  nameservers := [⟨10, 0, 0, 1⟩]

/-- The address that was read is replaced by 0.0.0.0. -/
theorem read_address_replaced : ¬∀ q ifname attr, FollowsGetters q ifname attr := by
  intro hclaim
  have hempty : Field := Vector.replicate ipSize 0
  have hname : (text (lit "eth0")).length < ifNameSize := by decide +kernel
  obtain ⟨hip, -⟩ := harmless_of_follows (hclaim answering ⟨lit "eth0", hname⟩ ⟨hempty, hempty, hempty, hempty⟩)
  have haddr : inetNtoa ⟨10, 0, 0, 1⟩ = noneIp := hip
  exact absurd haddr (by decide +kernel)

end Emberlite.Netdev
