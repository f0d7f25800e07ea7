import Mathlib.Data.List.Induction
import Mathlib.Data.List.Perm.Basic
import Mathlib.Logic.Function.Basic
import Emberlite.Netdev.Dns

/-! Histories of `set_local_dns` on eth0 and eth1, against the nameservers that /etc/resolv.conf should list:
    the address of each interface that has one. A call writes its own address, for whichever interface, so
    the file lists what it should exactly when both interfaces have that one address. The commands of the calls
    succeed. -/

namespace Emberlite.Netdev
open CString

/-- The name of an interface. -/
def ifname : Fin 2 → List UInt8
  | 0 => lit "eth0"
  | 1 => lit "eth1"

/-- Before the first call both interfaces have no address. The file holds anything. -/
def start (file : List UInt8) : Host where
  netdevAttr := fun _ => ⟨⟨(strncpy ipSize noneIp).toArray, by simp⟩⟩
  resolvConf := file

/-- A call whose commands succeed. -/
def call (host : Host) (c : DnsCall) : Option Host :=
  (setLocalDns .succeed host (ifname c.iface) c.dns_addr).map Prod.fst

/-- A history of calls. -/
def run (file : List UInt8) (calls : List DnsCall) : Option Host := calls.foldlM call (start file)

/-! ### What the file should list -/

/-- The file lists what it should, in whatever order. -/
def Agrees (file : List UInt8) (calls : List DnsCall) : Prop :=
  ∃ host, run file calls = some host ∧ (nameservers host.resolvConf).Perm (wanted calls)

/-- The file lists what it should after each call. -/
def AgreesThroughout (file : List UInt8) (calls : List DnsCall) : Prop :=
  ∀ front, front <+: calls → front ≠ [] → Agrees file front

theorem remembered_append (calls : List DnsCall) (c : DnsCall) (i : Fin 2) :
    remembered (calls ++ [c]) i = if c.iface = i then text c.dns_addr else remembered calls i := by
  rw [remembered, List.filter_append]
  by_cases hi : c.iface = i
  · rw [if_pos hi, List.filter_cons_of_pos (by simpa using hi), List.filter_nil, List.getLast?_concat]
    rfl
  · rw [if_neg hi, List.filter_cons_of_neg (by simpa using hi), List.filter_nil, List.append_nil]
    rfl

/-! ### One call -/

variable {host : Host} {a : List UInt8}

theorem remember_eq (ha : (text a).length < ipSize) (host : Host) (i : Fin 2) :
    ∃ attr, host.remember i a = some { host with netdevAttr := Function.update host.netdevAttr i attr } ∧
      text attr.dns.toList = text a := by
  have hsrc : strncpy ((text a).length + 1) a = text a ++ [0] := by
    rw [strncpy_eq, List.take_of_length_le (Nat.le_succ _), Nat.add_sub_cancel_left]
    rfl
  have hfit : 0 + (strncpy ((text a).length + 1) a).length ≤ ipSize := by
    rw [length_strncpy, Nat.zero_add]
    exact ha
  obtain ⟨dns, hwrite, hdns⟩ := FixedBuffer.write_eq (host.netdevAttr i).dns hfit
  refine ⟨⟨dns⟩, ?_, ?_⟩
  · rw [Host.remember, hwrite]
    rfl
  · rw [hdns, hsrc, List.take_zero, List.nil_append, List.append_assoc, List.singleton_append,
      text_append_zero fun c => ne_zero_of_mem_text]

theorem strncmp_none (attr : NetdevAttr) : strncmp ipSize attr.dns.toList noneIp = 0 ↔ text attr.dns.toList = noneIp :=
  strncmp_eq_zero_of_lt (by decide +kernel)

theorem rememberFor_ifname (host : Host) (a : List UInt8) : ∀ i, host.rememberFor (ifname i) a = host.remember i a
  | 0 => if_pos (by decide +kernel)
  | 1 => by rw [Host.rememberFor, if_neg (by decide +kernel), if_pos (by decide +kernel)]

theorem rewrite_eq (ha : IsWord a) (host : Host) :
    host.rewrite a = { host with resolvConf := written (fun j => text (host.netdevAttr j).dns.toList) a } := by
  rw [Host.rewrite, echo_replaces ha]
  simp only [echo_extends ha]
  by_cases hfirst : text (host.netdevAttr 0).dns.toList = noneIp
  · rw [if_neg (not_not.mpr ((strncmp_none _).mpr hfirst))]
    by_cases hsecond : text (host.netdevAttr 1).dns.toList = noneIp
    · rw [if_neg (not_not.mpr ((strncmp_none _).mpr hsecond)), written, if_pos ⟨hfirst, hsecond⟩, List.append_nil]
    · rw [if_pos (mt (strncmp_none _).mp hsecond), written, if_neg fun h => hsecond h.2]
  · rw [if_pos (mt (strncmp_none _).mp hfirst), written, if_neg fun h => hfirst h.1]

theorem setLocalDns_eq (ha : IsAddress a) (host : Host) (i : Fin 2) :
    ∃ host', setLocalDns .succeed host (ifname i) a = some (host', 0) ∧
      (∀ j, text (host'.netdevAttr j).dns.toList = if i = j then text a else text (host.netdevAttr j).dns.toList) ∧
      host'.resolvConf = written (fun j => text (host'.netdevAttr j).dns.toList) a := by
  obtain ⟨attr, hremember, hattr⟩ := remember_eq ha.1 host i
  have hdns : ∀ j, text (Function.update host.netdevAttr i attr j).dns.toList =
      if i = j then text a else text (host.netdevAttr j).dns.toList := by
    intro j
    by_cases hj : i = j
    · subst hj
      rw [if_pos rfl, Function.update_self, hattr]
    · rw [if_neg hj, Function.update_of_ne (Ne.symm hj)]
  have hset : setLocalDns .succeed host (ifname i) a = some ({
      netdevAttr := Function.update host.netdevAttr i attr
      resolvConf := written (fun j => text (Function.update host.netdevAttr i attr j).dns.toList) a }, 0) := by
    rw [setLocalDns, rememberFor_ifname, hremember, Option.map_some, Host.system, rewrite_eq ha.isWord]
  exact ⟨_, hset, hdns, rfl⟩

/-! ### Histories -/

theorem run_append (file : List UInt8) (calls : List DnsCall) (c : DnsCall) :
    run file (calls ++ [c]) = (run file calls).bind fun host => call host c := by
  rw [run, List.foldlM_append, Option.bind_eq_bind]
  congr 1
  funext host
  exact List.foldlM_cons.trans (bind_pure _)

/-- The arrays hold what was set last, and a call is never stopped. -/
theorem run_remembers (file : List UInt8) (calls : List DnsCall) :
    ∃ host, run file calls = some host ∧
      ∀ i, text (host.netdevAttr i).dns.toList = remembered calls i := by
  induction calls using List.reverseRecOn with
  | nil => exact ⟨start file, rfl, fun i => show text (strncpy ipSize noneIp) = noneIp by decide +kernel⟩
  | append_singleton calls c ih =>
    obtain ⟨host, hrun, hdns⟩ := ih
    obtain ⟨host', hset, hdns', -⟩ := setLocalDns_eq c.valid host c.iface
    refine ⟨host', ?_, fun i => ?_⟩
    · rw [run_append, hrun, Option.bind_some, call, hset]
      rfl
    · rw [hdns' i, remembered_append, hdns i]

theorem run_written (file : List UInt8) (calls : List DnsCall) (c : DnsCall) :
    ∃ host, run file (calls ++ [c]) = some host ∧
      host.resolvConf = written (remembered (calls ++ [c])) c.dns_addr := by
  obtain ⟨host, hrun, hdns⟩ := run_remembers file calls
  obtain ⟨host', hset, hdns', hfile⟩ := setLocalDns_eq c.valid host c.iface
  have haddr : (fun j => text (host'.netdevAttr j).dns.toList) = remembered (calls ++ [c]) := by
    funext j
    rw [hdns' j, remembered_append, hdns j]
  refine ⟨host', ?_, haddr ▸ hfile⟩
  rw [run_append, hrun, Option.bind_some, call, hset]
  rfl

theorem nameservers_written {a : List UInt8} (ha : IsWord a) (addr : Fin 2 → List UInt8) :
    nameservers (written addr a) = text a :: if addr 0 = noneIp ∧ addr 1 = noneIp then [] else [text a] := by
  rw [written, nameservers_line_append ha]
  split
  · rfl
  · rw [← List.append_nil (line a), nameservers_line_append ha, nameservers_nil]

/-- The file lists what it should, said by the two addresses remembered. -/
theorem agrees_append {file : List UInt8} {calls : List DnsCall} {c : DnsCall} :
    Agrees file (calls ++ [c]) ↔
      (text c.dns_addr :: if remembered (calls ++ [c]) 0 = noneIp ∧ remembered (calls ++ [c]) 1 = noneIp then []
        else [text c.dns_addr]).Perm (wanted (calls ++ [c])) := by
  obtain ⟨host, hrun, hfile⟩ := run_written file calls c
  rw [← nameservers_written c.valid.isWord, ← hfile]
  constructor
  · rintro ⟨host', hrun', hperm⟩
    obtain rfl : host = host' := Option.some_inj.mp (hrun.symm.trans hrun')
    exact hperm
  · intro hperm
    exact ⟨host, hrun, hperm⟩

/-- One address written for the two that count: `x` is the address of the call, `y` that of the other interface. -/
theorem perm_wanted {x y none : List UInt8} :
    (x :: if x = none ∧ y = none then [] else [x]).Perm ([x, y].filter fun a => decide (a ≠ none)) ↔
      x ≠ none ∧ y = x := by
  by_cases hx : x = none
  · by_cases hy : y = none
    · simp [hx, hy]
    · simp [hx, hy]
  · by_cases hy : y = none
    · simp [hx, hy]
      exact fun h => hx h.symm
    · simp [hx, hy, eq_comm]

theorem agrees_append_iff {file : List UInt8} {calls : List DnsCall} {c : DnsCall} :
    Agrees file (calls ++ [c]) ↔ text c.dns_addr ≠ noneIp ∧ remembered calls c.iface.rev = text c.dns_addr := by
  rw [agrees_append, wanted, List.map_cons, List.map_cons, List.map_nil, remembered_append, remembered_append]
  have h01 : ¬ (0 : Fin 2) = 1 := by decide
  have h10 : ¬ (1 : Fin 2) = 0 := by decide
  obtain hi | hi : c.iface = 0 ∨ c.iface = 1 := by omega
  · simp only [hi, if_pos, if_neg h01]
    exact perm_wanted
  · simp only [hi, if_pos, if_neg h10]
    have hswap := (List.Perm.swap (text c.dns_addr) (remembered calls 0) []).filter fun a => decide (a ≠ noneIp)
    rw [hswap.congr_right]
    simp only [and_comm (a := remembered calls 0 = noneIp)]
    exact perm_wanted

theorem not_agrees_singleton (file : List UInt8) (c : DnsCall) : ¬ Agrees file [c] := by
  intro h
  obtain ⟨hne, hsame⟩ := agrees_append_iff.mp (show Agrees file ([] ++ [c]) from h)
  exact hne hsame.symm

/-- A call leaves the file as it should be exactly when it sets an address that the other interface has
    already; the first call of a history never does. -/
theorem agrees_iff (file : List UInt8) (calls : List DnsCall) (c : DnsCall) :
    (Agrees file (calls ++ [c]) ↔ text c.dns_addr ≠ noneIp ∧ remembered calls c.iface.rev = text c.dns_addr) ∧
      ¬ AgreesThroughout file (calls ++ [c]) := by
  refine ⟨agrees_append_iff, fun h => ?_⟩
  rcases calls with _ | ⟨d, calls⟩
  · exact not_agrees_singleton file c (h [c] (List.prefix_refl _) (by simp))
  · exact not_agrees_singleton file d (h [d] ⟨calls ++ [c], rfl⟩ (by simp))

/-- Two interfaces, two addresses: the first one is lost. -/
theorem first_address_lost :
    ¬ ∀ (file : List UInt8) (calls : List DnsCall), AgreesThroughout file calls := by
  intro h
  have hboth : Agrees [] ([⟨0, lit "8.8.8.8", by decide +kernel⟩] ++ [⟨1, lit "1.1.1.1", by decide +kernel⟩]) :=
    h [] _ _ (List.prefix_refl _) (by simp)
  exact absurd (agrees_append.mp hboth) (by decide +kernel)

end Emberlite.Netdev
