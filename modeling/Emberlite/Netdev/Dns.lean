import Mathlib.Data.List.Basic
import Emberlite.Lib.CString
import Emberlite.Lib.FixedBuffer

/-! `set_local_dns` (src/components/netdev/src/netdev.c): the DNS addresses remembered for eth0 and eth1, and
    the nameserver lines of /etc/resolv.conf. -/

namespace Emberlite.Netdev
open CString

/-- `IP_SIZE`, the size of the array of an address. -/
def ipSize : Nat := 16

/-- `NONE_IP`, the address of an interface that has none. -/
def noneIp : List UInt8 := lit "0.0.0.0"

/-- The character that ends a line. -/
def newline : UInt8 := 10

/-- The quote of the shell. -/
def quote : UInt8 := 39

/-- The field of `netdev_attr_t` that DNS is about. -/
structure NetdevAttr where
  dns : Vector UInt8 ipSize

/-- What the calls read and write: the array `netdev_attr` and the file /etc/resolv.conf. -/
structure Host where
  netdevAttr : Fin 2 → NetdevAttr
  resolvConf : List UInt8

/-! ### The shell and the resolver -/

/-- What follows `front` in `s`, if `s` starts with it. -/
def after (front s : List UInt8) : Option (List UInt8) :=
  if front.isPrefixOf s then some (s.drop front.length) else none

/-- The shell's `echo` of one quoted word into /etc/resolv.conf, where it succeeds: `>` replaces the file, `>>` extends
    it. -/
def shell (command file : List UInt8) : List UInt8 :=
  match after (lit "echo '") command with
  | none => file
  | some rest =>
    let word := rest.takeWhile (· != quote)
    let redirection := rest.dropWhile (· != quote)
    if redirection = lit "' > /etc/resolv.conf" then word ++ [newline]
    else if redirection = lit "' >> /etc/resolv.conf" then file ++ (word ++ [newline])
    else file

/-- What becomes of the commands of a call. -/
inductive Commands where
  | succeed
  -- One of them fails, before the shell has opened the file or after; the file then holds `left`.
  | fail (left : List UInt8)

/-- The addresses of the file's nameserver lines. -/
def nameservers (file : List UInt8) : List (List UInt8) :=
  (file.splitOn newline).filterMap (after (lit "nameserver "))

/-! ### The source -/

/-- `strncpy(netdev_attr[i].dns, dns_addr, strlen(dns_addr) + 1)`. -/
def Host.remember (host : Host) (i : Fin 2) (dns_addr : List UInt8) : Option Host := do
  let dns ← FixedBuffer.write (host.netdevAttr i).dns 0 (strncpy ((text dns_addr).length + 1) dns_addr)
  return { host with netdevAttr := Function.update host.netdevAttr i { dns := dns } }

/-- `snprintf` of one of the two commands into `dnsconf[100]`, and `system` where it succeeds. -/
def Host.echo (host : Host) (dns_addr redirection : List UInt8) : Host :=
  let dnsconf := snprintf 100 (lit "echo 'nameserver " ++ (text dns_addr ++ redirection))
  { host with resolvConf := shell (text dnsconf) host.resolvConf }

/-- The arrays after the call, which knows two interfaces by their names. -/
def Host.rememberFor (host : Host) (ifname dns_addr : List UInt8) : Option Host :=
  if strncmp ipSize ifname (lit "eth0") = 0 then host.remember 0 dns_addr
  else if strncmp ipSize ifname (lit "eth1") = 0 then host.remember 1 dns_addr
  else some host

/-- The commands of a call. The second line names the address of the call too, whichever interface asks for it. -/
def Host.rewrite (host : Host) (dns_addr : List UInt8) : Host :=
  let host := host.echo dns_addr (lit "' > /etc/resolv.conf")
  if strncmp ipSize (host.netdevAttr 0).dns.toList noneIp ≠ 0 then host.echo dns_addr (lit "' >> /etc/resolv.conf")
  else if strncmp ipSize (host.netdevAttr 1).dns.toList noneIp ≠ 0 then
    host.echo dns_addr (lit "' >> /etc/resolv.conf")
  else host

/-- The file after the commands. -/
def Host.system (host : Host) (dns_addr : List UInt8) : Commands → Host
  | .succeed => host.rewrite dns_addr
  | .fail left => { host with resolvConf := left }

/-- `set_local_dns`. What `system` returns is not looked at. -/
def setLocalDns (commands : Commands) (host : Host) (ifname dns_addr : List UInt8) : Option (Host × Int) :=
  (host.rememberFor ifname dns_addr).map fun host => (host.system dns_addr commands, 0)

/-! ### The file after a command -/

/-- The text of an address: digits and dots, short enough for the array of an address. -/
def IsAddress (a : List UInt8) : Prop := (text a).length < ipSize ∧ ∀ c ∈ text a, c = 46 ∨ 48 ≤ c ∧ c ≤ 57

instance (a : List UInt8) : Decidable (IsAddress a) := inferInstanceAs (Decidable (_ ∧ _))

/-- The line of an address. -/
def line (a : List UInt8) : List UInt8 := lit "nameserver " ++ (text a ++ [newline])

theorem after_append (front s : List UInt8) : after front (front ++ s) = some s := by
  rw [after, if_pos (List.isPrefixOf_iff_prefix.mpr (List.prefix_append front s)), List.drop_left]

variable {a : List UInt8}

theorem IsAddress.ne (ha : IsAddress a) {c d : UInt8} (hc : c ∈ text a) (hd : d ≠ 46 ∧ (d < 48 ∨ 57 < d)) : c ≠ d := by
  rintro rfl
  rcases ha.2 c hc with hdot | ⟨hlow, hhigh⟩
  · exact hd.1 hdot
  · rcases hd.2 with h | h
    · exact absurd hlow (UInt8.not_le.mpr h)
    · exact absurd hhigh (UInt8.not_le.mpr h)

/-- A word that the quotes of a command and a line of the file can hold, short enough for the array of an address. -/
def IsWord (a : List UInt8) : Prop := (text a).length < ipSize ∧ quote ∉ text a ∧ newline ∉ text a

instance (a : List UInt8) : Decidable (IsWord a) := inferInstanceAs (Decidable (_ ∧ _ ∧ _))

theorem IsAddress.isWord (ha : IsAddress a) : IsWord a :=
  ⟨ha.1, fun hc => ha.ne hc (by decide) rfl, fun hc => ha.ne hc (by decide) rfl⟩

theorem ne_of_mem_line {c d : UInt8} (hd : d ∉ text a) (hlit : ∀ c ∈ lit "nameserver ", c ≠ d)
    (hc : c ∈ lit "nameserver " ++ text a) : c ≠ d := by
  rcases List.mem_append.mp hc with hc | hc
  · exact hlit c hc
  · exact fun heq => hd (heq ▸ hc)

/-- The buffer holds the whole command. -/
theorem text_dnsconf (ha : IsWord a) {redirection : List UInt8} (hlen : redirection.length ≤ 40)
    (hzero : ∀ c ∈ redirection, c ≠ 0) :
    text (snprintf 100 (lit "echo 'nameserver " ++ (text a ++ redirection))) =
      lit "echo '" ++ ((lit "nameserver " ++ text a) ++ redirection) := by
  have hlenAddr : (text a).length < 16 := ha.1
  have hlenEcho : (lit "echo 'nameserver ").length = 17 := rfl
  have hecho : ∀ c ∈ lit "echo 'nameserver ", c ≠ 0 := by decide +kernel
  have hsplit : lit "echo 'nameserver " = lit "echo '" ++ lit "nameserver " := rfl
  rw [text_snprintf, hsplit, List.append_assoc, List.append_assoc]
  · intro c hc
    rcases List.mem_append.mp hc with hc | hc
    · exact hecho c hc
    · rcases List.mem_append.mp hc with hc | hc
      · exact ne_zero_of_mem_text hc
      · exact hzero c hc
  · rw [List.length_append, List.length_append, hlenEcho]
    omega

/-- The command writes its line: the buffer holds all of it, and the quoted word is the line. -/
theorem shell_echo (ha : IsWord a) {tail : List UInt8} (hlen : (quote :: tail).length ≤ 40)
    (hzero : ∀ c ∈ quote :: tail, c ≠ 0) (file : List UInt8) :
    shell (text (snprintf 100 (lit "echo 'nameserver " ++ (text a ++ quote :: tail)))) file =
      if quote :: tail = lit "' > /etc/resolv.conf" then line a
      else if quote :: tail = lit "' >> /etc/resolv.conf" then file ++ line a
      else file := by
  have hword : ∀ c ∈ lit "nameserver " ++ text a, (c != quote) = true := fun c hc =>
    bne_iff_ne.mpr (ne_of_mem_line ha.2.1 (by decide +kernel) hc)
  have hstop : ¬ (quote != quote) = true := by decide
  have htake : ((lit "nameserver " ++ text a) ++ quote :: tail).takeWhile (· != quote) = lit "nameserver " ++ text a := by
    rw [List.takeWhile_append_of_pos hword, List.takeWhile_cons_of_neg (p := (· != quote)) hstop, List.append_nil]
  have hdrop : ((lit "nameserver " ++ text a) ++ quote :: tail).dropWhile (· != quote) = quote :: tail := by
    rw [List.dropWhile_append_of_pos hword, List.dropWhile_cons_of_neg (p := (· != quote)) hstop]
  rw [text_dnsconf ha hlen hzero, shell, after_append]
  simp only [htake, hdrop]
  rw [line, List.append_assoc]

theorem echo_replaces (ha : IsWord a) (host : Host) :
    host.echo a (lit "' > /etc/resolv.conf") = { host with resolvConf := line a } := by
  rw [Host.echo, show lit "' > /etc/resolv.conf" = quote :: lit " > /etc/resolv.conf" from rfl,
    shell_echo ha (by decide +kernel) (by decide +kernel), if_pos (by decide +kernel)]

theorem echo_extends (ha : IsWord a) (host : Host) :
    host.echo a (lit "' >> /etc/resolv.conf") = { host with resolvConf := host.resolvConf ++ line a } := by
  rw [Host.echo, show lit "' >> /etc/resolv.conf" = quote :: lit " >> /etc/resolv.conf" from rfl,
    shell_echo ha (by decide +kernel) (by decide +kernel), if_neg (by decide +kernel), if_pos (by decide +kernel)]

theorem nameservers_line_append (ha : IsWord a) (file : List UInt8) :
    nameservers (line a ++ file) = text a :: nameservers file := by
  have hword : ∀ c ∈ lit "nameserver " ++ text a, (c == newline) = false := fun c hc =>
    beq_eq_false_iff_ne.mpr (ne_of_mem_line ha.2.2 (by decide +kernel) hc)
  have hassoc : line a ++ file = (lit "nameserver " ++ text a) ++ newline :: file := by
    rw [line]
    simp only [List.append_assoc, List.singleton_append]
  rw [nameservers, hassoc, List.splitOn, List.splitOnP_append_cons_of_forall_mem hword newline (by decide),
    List.filterMap_cons_some (after_append _ _)]
  rfl

theorem nameservers_nil : nameservers [] = [] := rfl

theorem not_mem_of_mem_splitOnP {p : UInt8 → Bool} {s word : List UInt8} (hword : word ∈ s.splitOnP p) {c : UInt8}
    (hc : p c = true) : c ∉ word := by
  induction s generalizing word with
  | nil =>
    rw [List.splitOnP_nil, List.mem_singleton] at hword
    simp [hword]
  | cons d s ih =>
    rw [List.splitOnP_cons_eq_if_modifyHead] at hword
    split at hword
    · rcases List.mem_cons.mp hword with rfl | hword
      · exact List.not_mem_nil
      · exact ih hword
    · case _ hd =>
      obtain ⟨first, rest, hsplit⟩ := List.exists_cons_of_ne_nil (List.splitOnP_ne_nil p s)
      rw [hsplit] at hword ih
      rcases List.mem_cons.mp hword with rfl | hword
      · exact List.not_mem_cons_of_ne_of_not_mem (fun heq => hd (heq ▸ hc)) (ih List.mem_cons_self)
      · exact ih (List.mem_cons_of_mem _ hword)

theorem newline_not_mem_of_mem_nameservers {file : List UInt8} (ha : a ∈ nameservers file) : newline ∉ a := by
  obtain ⟨word, hword, hafter⟩ := List.mem_filterMap.mp ha
  rw [after] at hafter
  split at hafter
  · cases hafter
    exact fun hc => not_mem_of_mem_splitOnP hword (beq_self_eq_true newline) (List.mem_of_mem_drop hc)
  · cases hafter

/-! ### A call, and the file it leaves -/

/-- A call on one of the two interfaces, with the text of an address. -/
structure DnsCall where
  iface : Fin 2
  dns_addr : List UInt8
  valid : IsAddress dns_addr

/-- The address most recently set for interface `i`. -/
def remembered (calls : List DnsCall) (i : Fin 2) : List UInt8 :=
  (((calls.filter fun c => c.iface = i).getLast?.map fun c => text c.dns_addr)).getD noneIp

/-- The addresses of the interfaces that have one. -/
def wanted (calls : List DnsCall) : List (List UInt8) :=
  ([0, 1].map (remembered calls)).filter fun a => decide (a ≠ noneIp)

/-- The file a call leaves: its own line once, and again if an interface has an address. -/
def written (addr : Fin 2 → List UInt8) (a : List UInt8) : List UInt8 :=
  line a ++ if addr 0 = noneIp ∧ addr 1 = noneIp then [] else line a

end Emberlite.Netdev
