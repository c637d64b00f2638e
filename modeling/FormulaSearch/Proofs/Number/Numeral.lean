import FormulaSearch.Number.Numeral
import FormulaSearch.Proofs.Formula.Literal
import FormulaSearch.Proofs.Number.Rounding
import Mathlib.Data.List.TakeWhile

/-!
# The values of numerals

The value of a numeral is that of its digits, times a power of ten, and reading rounds it once. The
numerals that are not multiplied out are those whose values are out of range.
-/

namespace FormulaSearch

/-! ## Digits -/

theorem digitsValue_append (cs ds : List Char) :
    digitsValue (cs ++ ds) = 10 ^ ds.length * digitsValue cs + digitsValue ds := by
  rw [digitsValue, Nat.ofDigitChars_append, Nat.ofDigitChars_eq_ofDigitChars_zero]
  rfl

theorem digitsValue_cons (c : Char) (cs : List Char) :
    digitsValue (c :: cs) = 10 ^ cs.length * (c.toNat - '0'.toNat) + digitsValue cs := by
  rw [← List.singleton_append, digitsValue_append]
  simp [digitsValue, Nat.ofDigitChars_cons]

@[simp] theorem digitsValue_replicate_zero (k : Nat) :
    digitsValue (List.replicate k '0') = 0 := by
  rw [digitsValue, Nat.ofDigitChars_replicate_zero, Nat.mul_zero]

theorem digitsValue_zero_cons (cs : List Char) : digitsValue ('0' :: cs) = digitsValue cs := by
  simp [digitsValue_cons]

theorem digitsValue_lt {cs : List Char} (h : ∀ c ∈ cs, c.isDigit = true) :
    digitsValue cs < 10 ^ cs.length := by
  induction cs with
  | nil => decide
  | cons c cs ih =>
    have hdigit := Char.isDigit_iff_toNat.mp (h c List.mem_cons_self)
    have hrest := ih fun d hd => h d (List.mem_cons_of_mem c hd)
    have hfirst : 10 ^ cs.length * (c.toNat - '0'.toNat) ≤ 10 ^ cs.length * 9 := by
      apply Nat.mul_le_mul_left
      have : '9'.toNat = '0'.toNat + 9 := rfl
      omega
    rw [digitsValue_cons, List.length_cons, Nat.pow_succ]
    omega

/-- A number has as many places as digits from the first one that is not zero. -/
theorem places_of_digitsValue {cs : List Char} (h : ∀ c ∈ cs, c.isDigit = true)
    (hpos : digitsValue cs ≠ 0) :
    10 ^ (cs.dropWhile (· == '0')).length ≤ 10 * digitsValue cs ∧
      digitsValue cs < 10 ^ (cs.dropWhile (· == '0')).length := by
  induction cs with
  | nil => exact absurd digitsValue_nil hpos
  | cons c cs ih =>
    rw [List.dropWhile_cons]
    split_ifs with hc
    · rw [beq_iff_eq.mp hc, digitsValue_zero_cons] at hpos ⊢
      exact ih (fun d hd => h d (List.mem_cons_of_mem c hd)) hpos
    · refine ⟨?_, digitsValue_lt h⟩
      have hdigit := Char.isDigit_iff_toNat.mp (h c List.mem_cons_self)
      have hne : c.toNat ≠ '0'.toNat := fun heq => hc (beq_iff_eq.mpr (Char.toNat_inj.mp heq))
      have hfirst : 10 ^ cs.length * 1 ≤ 10 ^ cs.length * (c.toNat - '0'.toNat) :=
        Nat.mul_le_mul_left _ (by omega)
      rw [digitsValue_cons, List.length_cons, Nat.pow_succ]
      omega

/-! ## Values -/

theorem Decimal.value_eq (d : Decimal) : d.value = d.digits / 10 ^ d.fraction.length := by
  rw [Decimal.value, Rat.mkRat_eq_div, Nat.pow_eq, Nat.cast_pow, Nat.cast_ofNat]
  rfl

namespace Numeral

/-- The exact value without a sign. -/
def value (n : Numeral) : Rat := n.decimal.value * 10 ^ n.exponent

theorem value_eq (n : Numeral) : n.value = n.decimal.digits * 10 ^ n.scale := by
  rw [value, scale, Decimal.value_eq, zpow_sub₀ (by norm_num), zpow_natCast]
  ring

/-- The reach of a numeral bounds its value from both sides. -/
theorem value_bounds {n : Numeral} (h : n.decimal.wellFormed = true) (hpos : n.decimal.digits ≠ 0) :
    (10 : Rat) ^ (n.reach - 1) ≤ n.value ∧ n.value < 10 ^ n.reach := by
  have hdigits : ∀ c ∈ n.decimal.whole ++ n.decimal.fraction, c.isDigit = true := by
    obtain ⟨-, hwhole, hfraction⟩ := (Decimal.wellFormed_iff _ _).mp h
    intro c hc
    exact (List.mem_append.mp hc).elim (hwhole c) (hfraction c)
  obtain ⟨hlower, hupper⟩ := places_of_digitsValue hdigits hpos
  rw [value_eq, reach]
  generalize ((n.decimal.whole ++ n.decimal.fraction).dropWhile (· == '0')).length = k at *
  have hlower' : (10 : Rat) ^ k ≤ 10 * n.decimal.digits := by exact_mod_cast hlower
  have hupper' : (n.decimal.digits : Rat) < 10 ^ k := by exact_mod_cast hupper
  constructor
  · calc (10 : Rat) ^ ((k : Int) + n.scale - 1) = 10 ^ k * 10 ^ n.scale / 10 := by
          rw [zpow_sub_one₀ (by norm_num), zpow_add₀ (by norm_num), zpow_natCast]
          rfl
      _ ≤ 10 * n.decimal.digits * 10 ^ n.scale / 10 := by gcongr
      _ = n.decimal.digits * 10 ^ n.scale := by ring
  · rw [zpow_add₀ (by norm_num), zpow_natCast]
    gcongr

theorem pow_le_of_reach {e : Int} (h : 310 ≤ e) : (2 : Rat) ^ 1024 ≤ 10 ^ e := by
  have hpow : 2 ^ 1024 ≤ 10 ^ 310 := by decide +kernel
  calc (2 : Rat) ^ 1024 ≤ 10 ^ (310 : Int) := by exact_mod_cast hpow
    _ ≤ 10 ^ e := zpow_le_zpow_right₀ (by norm_num) h

theorem le_pow_of_reach {e : Int} (h : e ≤ -331) : (10 : Rat) ^ e ≤ 2 ^ (-1075 : Int) := by
  have hpow : 2 ^ 1075 ≤ 10 ^ 331 := by decide +kernel
  calc (10 : Rat) ^ e ≤ 10 ^ (-331 : Int) := zpow_le_zpow_right₀ (by norm_num) h
    _ ≤ 2 ^ (-1075 : Int) := by
        rw [zpow_neg, zpow_neg]
        gcongr
        exact_mod_cast hpow

/-- Reading rounds the exact value. What is not multiplied out is out of range. -/
theorem toBinary64_eq {n : Numeral} (h : n.decimal.wellFormed = true) (negative : Bool) :
    n.toBinary64 negative = .ofMagnitude negative (.ofNat (Binary64.nearestTo n.value)) := by
  have hnonneg : 0 ≤ n.value := by
    rw [value_eq]
    positivity
  unfold toBinary64
  dsimp only
  split_ifs with hsmall hlarge
  · have hzero : Binary64.nearestTo n.value = 0 := by
      by_cases hdigits : n.decimal.digits = 0
      · rw [value_eq, hdigits, Nat.cast_zero, zero_mul, Binary64.nearestTo_zero]
      · have hreach : n.reach < -330 := by simpa [hdigits] using hsmall
        apply Binary64.nearestTo_of_small hnonneg
        exact (value_bounds h hdigits).2.trans_le (le_pow_of_reach (by omega))
    rw [hzero]
    rfl
  · have hdigits : n.decimal.digits ≠ 0 := by
      rintro hdigits
      simp [hdigits] at hsmall
    have hinfinity : Binary64.nearestTo n.value = Binary64.infinityBits.toNat := by
      apply Binary64.nearestTo_of_large
      exact (pow_le_of_reach (by omega)).trans (value_bounds h hdigits).1
    rw [hinfinity, UInt64.ofNat_toNat]
  · rw [Binary64.nearestQuotient, Nat.pow_eq, Nat.pow_eq,
      Binary64.nearestMagnitude_eq_nearestTo _ (by positivity), mul_pow_div_pow (by norm_num),
      value_eq, Nat.cast_ofNat]

/-! ## Texts -/

theorem exponent?_of_splitSign {cs ds : List Char} {negative : Bool}
    (h : splitSign cs = (negative, ds)) (hdigits : ∀ c ∈ ds, c.isDigit = true) (hne : ds ≠ []) :
    exponent? cs = some (if negative then -(digitsValue ds : Int) else digitsValue ds) := by
  have hempty : ds.isEmpty = false := List.isEmpty_eq_false_iff.mpr hne
  have hall : ds.all Char.isDigit = true := List.all_eq_true.mpr hdigits
  simp [exponent?, h, hempty, hall]

theorem isExponentMark_of_continuesLiteral {c : Char} (h : Scan.continuesLiteral c = true) :
    isExponentMark c = false := by
  rw [isExponentMark, Bool.or_eq_false_iff, beq_eq_false_iff_ne, beq_eq_false_iff_ne]
  constructor
  · rintro rfl
    exact absurd h (by decide)
  · rintro rfl
    exact absurd h (by decide)

theorem ofChars?_of_no_mark {cs : List Char} (h : ∀ c ∈ cs, isExponentMark c = false)
    (hdecimal : (Decimal.split cs).wellFormed = true) :
    ofChars? cs = some ⟨Decimal.split cs, 0⟩ := by
  have hplain : ∀ c ∈ cs, (!isExponentMark c) = true := fun c hc => by simp [h c hc]
  have htake : cs.takeWhile (!isExponentMark ·) = cs := List.takeWhile_eq_self_iff.mpr hplain
  have hdrop : cs.dropWhile (!isExponentMark ·) = [] := List.dropWhile_eq_nil_iff.mpr hplain
  simp [ofChars?, htake, hdrop, hdecimal]

theorem ofChars?_of_mark {cs : List Char} (h : ∀ c ∈ cs, isExponentMark c = false)
    (hdecimal : (Decimal.split cs).wellFormed = true) {c : Char} (hc : isExponentMark c = true)
    (rest : List Char) :
    ofChars? (cs ++ c :: rest) = (exponent? rest).map fun e => ⟨Decimal.split cs, e⟩ := by
  have hplain : ∀ c ∈ cs, (!isExponentMark c) = true := fun c hc => by simp [h c hc]
  have htake : (cs ++ c :: rest).takeWhile (!isExponentMark ·) = cs := by
    simp [List.takeWhile_append_of_pos hplain, hc]
  have hdrop : (cs ++ c :: rest).dropWhile (!isExponentMark ·) = c :: rest := by
    simp [List.dropWhile_append_of_pos hplain, hc]
  simp [ofChars?, htake, hdrop, hdecimal]

end Numeral

theorem splitSign_signed {us : List Char} (h : splitSign us = (false, us)) (negative : Bool) :
    splitSign (if negative then '-' :: us else us) = (negative, us) := by
  cases negative with
  | false => exact h
  | true => rfl

theorem Numeral.exponent?_toString (e : Int) : exponent? (toString e).toList = some e := by
  obtain ⟨negative, htext, he⟩ := exists_toString_eq e
  have hsign := splitSign_signed (isNumeric_toDigits e.natAbs).splitSign_eq negative
  rw [htext, exponent?_of_splitSign hsign isDigit_of_mem_toDigits Nat.toDigits_ne_nil,
    digitsValue_toDigits, ← he]

theorem Binary64.read_of_splitSign {cs us : List Char} {negative : Bool} {n : Numeral}
    (hsign : splitSign cs = (negative, us)) (hn : Numeral.ofChars? us = some n) :
    read cs = .ok (n.toBinary64 negative) := by
  have hne : cs.isEmpty = false := by
    rw [List.isEmpty_eq_false_iff]
    rintro rfl
    cases hsign
    cases hn
  rw [read, hne, hsign]
  simp [hn]

theorem Binary64.read_signed {us : List Char} {n : Numeral} (hsign : splitSign us = (false, us))
    (hn : Numeral.ofChars? us = some n) (negative : Bool) :
    read (if negative then '-' :: us else us) = .ok (n.toBinary64 negative) :=
  read_of_splitSign (splitSign_signed hsign negative) hn

theorem decimal?_signed {us : List Char} (hsign : splitSign us = (false, us))
    (hdecimal : (Decimal.split us).wellFormed = true)
    (hplaces : (Decimal.split us).fraction.length ≤ Decimal.maxPlaces) (negative : Bool) :
    decimal? (if negative then '-' :: us else us) =
      some (if negative then -(Decimal.split us).value else (Decimal.split us).value) := by
  rw [decimal?, splitSign_signed hsign]
  simp [hdecimal, hplaces]

theorem decimal?_toString (e : Int) : decimal? (toString e).toList = some (e : Rat) := by
  obtain ⟨negative, htext, he⟩ := exists_toString_eq e
  have hsplit : Decimal.split (Nat.toDigits 10 e.natAbs) = ⟨Nat.toDigits 10 e.natAbs, []⟩ :=
    Decimal.split_of_no_point fun c hc =>
      ne_of_mem_of_not_mem hc (Decimal.point_not_mem isDigit_of_mem_toDigits)
  have hdecimal : (Decimal.split (Nat.toDigits 10 e.natAbs)).wellFormed = true := by
    rw [hsplit, Decimal.wellFormed_iff]
    exact ⟨.inl Nat.toDigits_ne_nil, isDigit_of_mem_toDigits, by simp⟩
  have hplaces : (Decimal.split (Nat.toDigits 10 e.natAbs)).fraction.length ≤
      Decimal.maxPlaces := by
    rw [hsplit]
    exact Nat.zero_le _
  have hvalue : (Decimal.split (Nat.toDigits 10 e.natAbs)).value = e.natAbs := by
    rw [hsplit, Decimal.value_eq, Decimal.digits, List.append_nil, digitsValue_toDigits]
    simp
  rw [htext, decimal?_signed (isNumeric_toDigits _).splitSign_eq hdecimal hplaces, hvalue]
  conv_rhs => rw [he]
  cases negative <;> simp

end FormulaSearch
