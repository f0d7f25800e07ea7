import Emberlite.Hal.Adc
import Emberlite.Lib.FloatText

/-! `hal_adc_read_voltage`, with the scale that `hal_adc_open` has read. -/

namespace Emberlite
namespace Hal
namespace Adc
open CString CNumber FloatText Rounding

/-- `parse_scale_to_mv`. -/
def parseScaleToMv (s : List UInt8) : Value binary32 :=
  let v := strtof binary32 s
  if v.range ∨ v.rest ≠ [] then .ofRat 0 else v.value.mul (.ofRat 1000)

/-- `hal_adc_open`, with its floating-point numbers. -/
def halAdcOpenScaled (config : HalAdcConfig) (calloc : Bool) (files : Files) :
    Except Status (HalAdcHandle (Value binary32)) :=
  halAdcOpen (.ofRat 1) parseScaleToMv config calloc files

/-- `hal_adc_read_voltage`: the status, and `*out_mv` afterwards; nothing where the conversion to an integer is
    undefined. -/
def halAdcReadVoltage (h : HalAdcHandle (Value binary32)) (files : Files) (outMv : BitVec 32) :
    Option (Status × BitVec 32) :=
  let (st, raw) := halAdcReadRaw h files 0
  if st ≠ .ok then some (st, outMv)
  else
    let mv := (Value.ofRat raw.toNat : Value binary32).mul h.scaleToMv
    let mv := if mv.lt (.ofRat 0) then .ofRat 0 else mv
    ((mv.add (.ofRat (1 / 2))).toUnsigned 32).map fun n => (.ok, BitVec.ofNat 32 n)

/-! ### Files of the kernel -/

theorem lit_end : lit "\n" = [10] := by decide +kernel

/-- A line without ends of lines in it. -/
theorem readFileTrimmed_line {files : Files} {path s : List UInt8} {n : Nat}
    (hfile : files (text path) = .ok (s ++ lit "\n")) (hs : ∀ c ∈ s, c ≠ 0 ∧ isLineEnd c = false)
    (hfit : s.length + 1 < n) : readFileTrimmed files path n = .ok s := by
  have htake : (s ++ [10]).take (n - 1) = s ++ [10] := List.take_of_length_le (by simp; omega)
  have htrimmed : trimmed (s ++ [10]) = s := by
    rw [trimmed, List.rdropWhile_concat_pos _ _ _ rfl, List.rdropWhile_eq_self_iff]
    exact fun hne => by simp [(hs _ (List.getLast_mem hne)).2]
  rw [readFileTrimmed, hfile, lit_end]
  dsimp only
  rw [htake, htrimmed, text_of_ne_zero fun c hc => (hs c hc).1]

theorem of_isDigit {c : UInt8} (hc : isDigit 10 c) : c ≠ 0 ∧ isLineEnd c = false := by
  rw [isLineEnd, Bool.or_eq_false_iff, beq_eq_false_iff_ne, beq_eq_false_iff_ne]
  refine ⟨?_, ?_, ?_⟩ <;> rintro rfl <;> cases hc

theorem readRaw_decimal {h : HalAdcHandle (Value binary32)} {files : Files} {n : Nat}
    (hfile : files (text h.rawPath) = .ok (decimal n ++ lit "\n")) (hn : n < 2 ^ 32) (outValue : BitVec 32) :
    halAdcReadRaw h files outValue = (.ok, BitVec.ofNat 32 n) := by
  have hlength : (decimal n).length ≤ 10 := length_decimal_le (by decide) (hn.trans (by decide))
  have hread := readFileTrimmed_line (n := 64) hfile (fun c hc => of_isDigit (isDigit_of_mem_decimal hc)) (by omega)
  have hnumber : strtol (decimal n) = ⟨n, false, []⟩ :=
    strtol_end.mpr (.inr ⟨numeral_decimal n, by rw [longMin]; omega, by rw [longMax]; omega⟩)
  rw [halAdcReadRaw, hread]
  dsimp only
  rw [hnumber, if_neg (by simp), BitVec.ofInt_natCast]

/-- A scale with `k` decimals, as the kernel writes it. -/
structure Scale where
  whole : Nat
  k : Nat
  part : Nat
  whole_lt : whole < 2 ^ 31
  k_le : k ≤ 37
  part_lt : part < 10 ^ k

namespace Scale

/-- What the file holds, without the end of the line: there is no point where there are no decimals. -/
def content (s : Scale) : List UInt8 :=
  if s.k = 0 then decimal s.whole else decimal s.whole ++ 46 :: padded s.k s.part

/-- The number that it stands for. -/
def value (s : Scale) : Rat := s.whole + s.part / 10 ^ s.k

variable (s : Scale)

theorem mem_content {c : UInt8} (hc : c ∈ s.content) : c ≠ 0 ∧ isLineEnd c = false := by
  rw [content] at hc
  split_ifs at hc
  · exact of_isDigit (isDigit_of_mem_decimal hc)
  · rcases List.mem_append.mp hc with hc | hc
    · exact of_isDigit (isDigit_of_mem_decimal hc)
    · rcases List.mem_cons.mp hc with rfl | hc
      · exact ⟨by decide, rfl⟩
      · exact of_isDigit (isDigit_of_mem_padded hc)

theorem length_content : s.content.length ≤ 48 := by
  have hwhole : (decimal s.whole).length ≤ 10 := length_decimal_le (by decide) (s.whole_lt.trans (by decide))
  have := s.k_le
  rw [content]
  split_ifs with hk
  · omega
  · have hpart := length_padded (Nat.pos_of_ne_zero hk) s.part_lt
    rw [List.length_append, List.length_cons, hpart]
    omega

theorem decimal_content : Decimal s.content s.value := by
  rw [content]
  split_ifs with hk
  · have hpart : s.part = 0 := by
      have hlt := s.part_lt
      rwa [hk, pow_zero, Nat.lt_one_iff] at hlt
    have hvalue : s.value = s.whole := by rw [value, hpart, Nat.cast_zero, zero_div, add_zero]
    rw [hvalue]
    exact decimal_whole s.whole
  · exact decimal_fixed s.whole (Nat.pos_of_ne_zero hk) s.part_lt

theorem value_nonneg : 0 ≤ s.value := by
  rw [value]
  positivity

theorem value_lt : s.value < 2 ^ 31 := by
  have hwhole : (s.whole : Rat) + 1 ≤ 2 ^ 31 := by exact_mod_cast s.whole_lt
  have hpart : (s.part : Rat) / 10 ^ s.k < 1 := by
    rw [div_lt_one (by positivity)]
    exact_mod_cast s.part_lt
  rw [value]
  linarith

/-- A scale is no subnormal number. -/
theorem value_normal : s.value = 0 ∨ (2 : Rat) ^ (-126 : Int) ≤ s.value := by
  have hpower : (10 : Rat) ^ s.k ≤ 10 ^ 37 := pow_le_pow_right₀ (by norm_num) s.k_le
  rcases Nat.eq_zero_or_pos (s.whole * 10 ^ s.k + s.part) with hzero | hpos
  · obtain ⟨hwhole, hpart⟩ := Nat.add_eq_zero_iff.mp hzero
    rcases Nat.mul_eq_zero.mp hwhole with hwhole | hten
    · exact .inl (by simp [value, hwhole, hpart])
    · exact absurd hten (by positivity)
  · refine .inr ?_
    have hone : (1 : Rat) ≤ s.whole * 10 ^ s.k + s.part := by exact_mod_cast hpos
    have heq : s.value = (s.whole * 10 ^ s.k + s.part) / 10 ^ s.k := by
      rw [value, add_div, mul_div_cancel_right₀ _ (by positivity)]
    rw [heq, le_div_iff₀ (by positivity)]
    norm_num at hpower ⊢
    linarith

end Scale

/-! ### The scale in millivolts -/

/-- No normal number is rounded to a smaller one. -/
theorem normal_round {x : Rat} (hx : x = 0 ∨ (2 : Rat) ^ (-126 : Int) ≤ x) :
    binary32.round x = 0 ∨ (2 : Rat) ^ (-126 : Int) ≤ binary32.round x := by
  rcases hx with rfl | hx
  · exact .inl (Format.round_zero binary32)
  · exact .inr (Format.le_round (binary32.holds_zpow (by decide)) hx)

/-- A number that is not too large is rounded to one that is stored. -/
theorem ofRat_normal {x : Rat} (hx : x = 0 ∨ (2 : Rat) ^ (-126 : Int) ≤ x) (hlt : x < 2 ^ 64) :
    ∃ y h, Value.ofRat x = (.finite y h : Value binary32) ∧ y = binary32.round x ∧ binary32.Drift 1 x y ∧
      (y = 0 ∨ (2 : Rat) ^ (-126 : Int) ≤ y) := by
  have hnonneg : 0 ≤ x := by
    rcases hx with rfl | hx
    · exact le_rfl
    · exact (zpow_pos two_pos _).le.trans hx
  obtain ⟨y, h, hy, rfl, -⟩ := Value.ofRat_near (F := binary32) (x := x) (j := 64)
    (by rwa [abs_of_nonneg hnonneg]) (by decide) (by decide)
  exact ⟨_, h, hy, rfl, Format.drift_round hx, normal_round hx⟩

theorem in_range {x : Rat} (hx : x = 0 ∨ (2 : Rat) ^ (-126 : Int) ≤ x) (hlt : x < 2 ^ 64) :
    (Item.number x).range binary32 = false := by
  obtain ⟨y, h, -, rfl, -, -⟩ := ofRat_normal hx hlt
  rw [Item.range, Bool.or_eq_false_iff, decide_eq_false_iff_not, decide_eq_false_iff_not, not_le]
  refine ⟨h.2, fun ⟨hsmall, hinexact⟩ => ?_⟩
  rcases hx with rfl | hx
  · exact hinexact (Format.round_zero binary32)
  · exact absurd (hx.trans (le_abs_self x)) (not_le.mpr hsmall)

theorem parse_scale (s : Scale) : ∃ b h, parseScaleToMv s.content = .finite b h ∧
    binary32.Drift 2 (s.value * 1000) b ∧ (b = 0 ∨ (2 : Rat) ^ (-126 : Int) ≤ b) := by
  have hthousand : binary32.Stores 1000 := Value.stores_natCast (n := 1000) (by decide) (by decide) (by decide)
  have hlt := s.value_lt
  have hread : strtof binary32 s.content = ⟨.ofRat s.value, false, []⟩ := by
    have hends : Ends [] := fun _ hc => by cases hc
    have hdecimal := strtof_decimal (F := binary32) s.decimal_content hends
    rwa [List.append_nil, in_range s.value_normal (by linarith)] at hdecimal
  obtain ⟨y, h, hy, -, hdrift, hnormal⟩ := ofRat_normal s.value_normal (by linarith)
  have hhigh := hdrift.high
  norm_num [binary32] at hhigh
  have hproduct : y * 1000 = 0 ∨ (2 : Rat) ^ (-126 : Int) ≤ y * 1000 := by
    rcases hnormal with rfl | hnormal
    · exact .inl (zero_mul _)
    · exact .inr (by linarith [zpow_pos (two_pos (α := Rat)) (-126)])
  obtain ⟨b, hb, hmul, -, hdrift', hnormal'⟩ := ofRat_normal hproduct (by linarith)
  refine ⟨b, hb, ?_, (hdrift.mul (Format.Drift.refl _ 1000) s.value_nonneg (by norm_num)).trans hdrift', hnormal'⟩
  rw [parseScaleToMv, hread, if_neg (by simp), hy, Value.ofRat_of_stores hthousand, Value.mul_finite, hmul]

/-! ### The voltage -/

/-- The voltage of a count, by three roundings and the cut-off of the fraction. -/
def millivolts (b : Rat) (n : Nat) : Nat :=
  ⌊binary32.round (binary32.round (binary32.round (n : Rat) * b) + 1 / 2)⌋.toNat

theorem millivolts_mono {b : Rat} (hb : 0 ≤ b) {n m : Nat} (hnm : n ≤ m) : millivolts b n ≤ millivolts b m := by
  have hcount : binary32.round (n : Rat) ≤ binary32.round (m : Rat) := Format.round_mono (by exact_mod_cast hnm)
  have hproduct : binary32.round (binary32.round (n : Rat) * b) ≤ binary32.round (binary32.round (m : Rat) * b) :=
    Format.round_mono (mul_le_mul_of_nonneg_right hcount hb)
  exact Int.toNat_le_toNat (Int.floor_le_floor (Format.round_mono (by linarith)))

/-- The count as a `float`, times the scale. -/
theorem product_normal {b scale : Rat} {n : Nat} (hdrift : binary32.Drift 2 scale b)
    (hnormal : b = 0 ∨ (2 : Rat) ^ (-126 : Int) ≤ b) (hpos : 0 ≤ scale) (hn : n < 2 ^ 32) :
    ∃ c h, Value.ofRat n = (.finite c h : Value binary32) ∧ c = binary32.round (n : Rat) ∧
      binary32.Drift 3 (n * scale) (c * b) ∧ (c * b = 0 ∨ (2 : Rat) ^ (-126 : Int) ≤ c * b) := by
  have hnpos : (0 : Rat) ≤ n := n.cast_nonneg
  have hnlt : (n : Rat) < 2 ^ 32 := by exact_mod_cast hn
  have hpower : (2 : Rat) ^ (-126 : Int) ≤ 1 := by norm_num
  rcases Nat.eq_zero_or_pos n with rfl | hone
  · obtain ⟨c, hc, hread, hround, hdriftC, -⟩ := ofRat_normal (x := (0 : Nat)) (.inl Nat.cast_zero) (by norm_num)
    have hczero : c = 0 := by rw [hround, Nat.cast_zero, Format.round_zero]
    exact ⟨c, hc, hread, hround, hdriftC.mul hdrift hnpos hpos, .inl (by rw [hczero, zero_mul])⟩
  · have hone : (1 : Rat) ≤ n := by exact_mod_cast hone
    obtain ⟨c, hc, hread, hround, hdriftC, -⟩ := ofRat_normal (x := n) (.inr (hpower.trans hone)) (by linarith)
    have hstores : binary32.Stores (1 : Nat) := Value.stores_natCast (by decide) (by decide) (by decide)
    have hcone : 1 ≤ c := by
      rw [Nat.cast_one] at hstores
      exact hround ▸ Format.le_round hstores.1 hone
    refine ⟨c, hc, hread, hround, hdriftC.mul hdrift hnpos hpos, ?_⟩
    rcases hnormal with rfl | hnormal
    · exact .inl (mul_zero c)
    · exact .inr (hnormal.trans (le_mul_of_one_le_left ((zpow_pos two_pos _).le.trans hnormal) hcone))

/-- A half is added and the fraction cut off. -/
theorem cut_near {T p : Rat} (hT : 0 ≤ T) (hfits : T ≤ 2 ^ 31) (hdrift : binary32.Drift 3 T p)
    (hnormal : p = 0 ∨ (2 : Rat) ^ (-126 : Int) ≤ p) :
    ∃ d h, Value.ofRat p = (.finite d h : Value binary32) ∧ 0 ≤ d ∧
      ∃ v : Nat, v = ⌊binary32.round (binary32.round p + 1 / 2)⌋.toNat ∧ v < 2 ^ 32 ∧
        ((Value.finite d h : Value binary32).add (.ofRat (1 / 2))).toUnsigned 32 = some v ∧
          |(v : Rat) - T| ≤ 1 / 2 + (T + 1) / 2 ^ 21 := by
  have hhalf : binary32.Stores (1 / 2) := Value.stores_half (by decide) (by decide)
  have hpower : (2 : Rat) ^ (-126 : Int) ≤ 1 / 2 := by norm_num
  have hhigh := hdrift.high
  norm_num [binary32] at hhigh
  obtain ⟨d, hd, hproduct, hround, hdriftD, -⟩ := ofRat_normal hnormal (by linarith)
  have hdpos : 0 ≤ d := hdriftD.nonneg (hdrift.nonneg hT)
  obtain ⟨hlowD, hhighD⟩ := hdrift.trans hdriftD
  norm_num [binary32] at hlowD hhighD
  obtain ⟨e, he, hsum, hround', ⟨hlowE, hhighE⟩, -⟩ := ofRat_normal (x := d + 1 / 2) (.inr (hpower.trans (by linarith)))
    (by linarith)
  norm_num [binary32] at hlowE hhighE
  obtain ⟨hfloor, hle, hlt⟩ := Value.toUnsigned_floor (w := 32) (h := he) (by linarith) (by linarith)
  have hword : (⌊e⌋.toNat : Rat) < 2 ^ 32 := by linarith
  refine ⟨d, hd, hproduct, hdpos, ⌊e⌋.toNat, by rw [← hround, ← hround'], by exact_mod_cast hword, ?_,
    abs_le.mpr ⟨by linarith, by linarith⟩⟩
  rw [Value.ofRat_of_stores hhalf, Value.add_finite, hsum, hfloor]

variable {h : HalAdcHandle (Value binary32)} {files : Files}

/-- A count is read as its product with the scale, to within the rounding and the cut-off of the fraction. -/
theorem readVoltage_near {scale b : Rat} {hb : binary32.Stores b} (hscale : h.scaleToMv = .finite b hb)
    (hdrift : binary32.Drift 2 scale b) (hnormal : b = 0 ∨ (2 : Rat) ^ (-126 : Int) ≤ b) (hpos : 0 ≤ scale) {n : Nat}
    (hn : n < 2 ^ 32) (hraw : files (text h.rawPath) = .ok (decimal n ++ lit "\n")) (hfits : n * scale ≤ 2 ^ 31)
    (outMv : BitVec 32) :
    halAdcReadVoltage h files outMv = some (.ok, BitVec.ofNat 32 (millivolts b n)) ∧ millivolts b n < 2 ^ 32 ∧
      |(millivolts b n : Rat) - n * scale| ≤ 1 / 2 + (n * scale + 1) / 2 ^ 21 := by
  have hzero : binary32.Stores (0 : Nat) := Value.stores_natCast (by decide) (by decide) (by decide)
  rw [Nat.cast_zero] at hzero
  obtain ⟨c, hc, hcount, hround, hdriftP, hnormalP⟩ := product_normal hdrift hnormal hpos hn
  obtain ⟨d, hd, hproduct, hdpos, v, hvalue, hv, hcut, hnear⟩ :=
    cut_near (mul_nonneg n.cast_nonneg hpos) hfits hdriftP hnormalP
  have hmillivolts : millivolts b n = v := by rw [millivolts, ← hround, hvalue]
  have hnat : (BitVec.ofNat 32 n).toNat = n := by rw [BitVec.toNat_ofNat, Nat.mod_eq_of_lt hn]
  rw [hmillivolts]
  refine ⟨?_, hv, hnear⟩
  rw [halAdcReadVoltage, readRaw_decimal hraw hn]
  dsimp only
  rw [if_neg (not_not.mpr rfl), hnat, hscale, hcount, Value.mul_finite, hproduct, Value.ofRat_of_stores hzero,
    Value.lt_finite, if_neg (by simpa using hdpos), hcut, Option.map_some]

/-- What the counts of a channel are read as. -/
structure VoltageSpec (h : HalAdcHandle (Value binary32)) (scale : Rat) : Prop where
  near : ∀ (n : Nat) (files : Files) (outMv : BitVec 32), n < 2 ^ 32 → n * scale ≤ 2 ^ 31 →
    files (text h.rawPath) = .ok (decimal n ++ lit "\n") → ∃ v, halAdcReadVoltage h files outMv = some (.ok, v) ∧
      |(v.toNat : Rat) - n * scale| ≤ 1 / 2 + (n * scale + 1) / 2 ^ 21
  mono : ∀ (n m : Nat) (files files' : Files) (outMv outMv' v w : BitVec 32), n ≤ m → m < 2 ^ 32 → m * scale ≤ 2 ^ 31 →
    files (text h.rawPath) = .ok (decimal n ++ lit "\n") → files' (text h.rawPath) = .ok (decimal m ++ lit "\n") →
    halAdcReadVoltage h files outMv = some (.ok, v) → halAdcReadVoltage h files' outMv' = some (.ok, w) → v ≤ w

theorem voltageSpec {scale b : Rat} {hb : binary32.Stores b} (hscale : h.scaleToMv = .finite b hb)
    (hdrift : binary32.Drift 2 scale b) (hnormal : b = 0 ∨ (2 : Rat) ^ (-126 : Int) ≤ b) (hpos : 0 ≤ scale) :
    VoltageSpec h scale where
  near n files outMv hn hfits hraw := by
    obtain ⟨hread, hword, hnear⟩ := readVoltage_near hscale hdrift hnormal hpos hn hraw hfits outMv
    refine ⟨_, hread, ?_⟩
    rwa [BitVec.toNat_ofNat, Nat.mod_eq_of_lt hword]
  mono n m files files' outMv outMv' v w hnm hm hfits hraw hraw' hv hw := by
    have hle : (n : Rat) ≤ m := by exact_mod_cast hnm
    obtain ⟨hread, hword, -⟩ := readVoltage_near hscale hdrift hnormal hpos (hnm.trans_lt hm) hraw
      ((mul_le_mul_of_nonneg_right hle hpos).trans hfits) outMv
    obtain ⟨hread', hword', -⟩ := readVoltage_near hscale hdrift hnormal hpos hm hraw' hfits outMv'
    cases hread.symm.trans hv
    cases hread'.symm.trans hw
    rw [BitVec.le_def, BitVec.toNat_ofNat, BitVec.toNat_ofNat, Nat.mod_eq_of_lt hword, Nat.mod_eq_of_lt hword']
    exact millivolts_mono (hdrift.nonneg hpos) hnm

/-- The handle before the scale is read. -/
def unscaled (config : HalAdcConfig) : HalAdcHandle (Value binary32) :=
  ⟨snprintf 256 (text config.iioPath), config.channelIndex, .ofRat 1⟩

/-- From a channel whose scale the kernel shows with up to 37 decimals, or none, every count is read as its product with a
    thousand times the scale, off by at most a half and one part in two million of what is one more; and no larger count
    as less. -/
theorem open_voltageSpec {config : HalAdcConfig} {files : Files} (s : Scale)
    (hscale : files (text (unscaled config).scalePath) = .ok (s.content ++ lit "\n")) :
    ∃ h, halAdcOpenScaled config true files = .ok h ∧ VoltageSpec h (s.value * 1000) := by
  obtain ⟨b, hb, hparse, hdrift, hnormal⟩ := parse_scale s
  have hlength := s.length_content
  have hread := readFileTrimmed_line (n := 128) hscale (fun c hc => s.mem_content hc) (by omega)
  have hpos : 0 ≤ s.value * 1000 := mul_nonneg s.value_nonneg (by norm_num)
  have hopen : halAdcOpenScaled config true files = .ok { unscaled config with scaleToMv := .finite b hb } := by
    rw [halAdcOpenScaled, halAdcOpen, if_neg (by simp)]
    dsimp only
    rw [unscaled] at hread
    rw [hread, ← hparse]
    rfl
  exact ⟨_, hopen, voltageSpec rfl hdrift hnormal hpos⟩

/-- 3300 over 4096, as far as the kernel shows it. -/
def twelveBits : Scale := ⟨0, 9, 805664062, by decide, by decide, by decide⟩

theorem open_voltageSpec_twelve_bits :
    ∃ h, halAdcOpenScaled ⟨lit "/iio", 0⟩ true (holding (twelveBits.content ++ lit "\n")) = .ok h ∧
      VoltageSpec h (twelveBits.value * 1000) :=
  open_voltageSpec twelveBits rfl

end Adc
end Hal
end Emberlite
