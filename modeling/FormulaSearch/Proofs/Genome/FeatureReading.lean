import FormulaSearch.Proofs.Genome.FeatureText
import FormulaSearch.Proofs.Number.Numeral
import FormulaSearch.Proofs.Number.Shortest

/-!
# Reading features back

The text of a feature holds the digits of its shortest decimal, laid out with a point or with an
exponent. Either way a reader of rows finds the value that the digits stand for, and so the feature
itself. Formulas read the texts with a point alone, and these have the same value there.
-/

namespace FormulaSearch

open Numeral (isExponentMark ofChars?)

theorem IsNumeric.splitSign_append {cs : List Char} (h : IsNumeric cs) (ds : List Char) :
    splitSign (cs ++ ds) = (false, cs ++ ds) := by
  match cs, h.ne_nil with
  | c :: cs, _ =>
    have hc := h.1 c List.mem_cons_self
    unfold splitSign
    split
    · next heq =>
      cases heq
      exact absurd hc (by decide)
    · next heq =>
      cases heq
      exact absurd hc (by decide)
    · rfl

/-! ## The layouts of digits -/

theorem wellFormed_split_positional {digits : List Char} (h : ∀ c ∈ digits, c.isDigit = true)
    (exponent : Int) : (Decimal.split (positional digits exponent)).wellFormed = true := by
  obtain ⟨⟨hnumeric, hdigit⟩, hcount⟩ := isNumeric_positional h exponent
  exact (Decimal.wellFormed_split_iff _).mpr ⟨hnumeric, hcount.le, hdigit⟩

theorem isExponentMark_of_mem_positional {digits : List Char}
    (h : ∀ c ∈ digits, c.isDigit = true) (exponent : Int) :
    ∀ c ∈ positional digits exponent, isExponentMark c = false := by
  intro c hc
  exact Numeral.isExponentMark_of_continuesLiteral ((isNumeric_positional h exponent).1.1 c hc)

theorem value_split_of_point {whole fraction : List Char} (h : ∀ c ∈ whole, c.isDigit = true) :
    (Decimal.split (whole ++ '.' :: fraction)).value =
      digitsValue (whole ++ fraction) * 10 ^ (-fraction.length : Int) := by
  have hpoint : ∀ c ∈ whole, c ≠ '.' :=
    fun c hc => ne_of_mem_of_not_mem hc (Decimal.point_not_mem h)
  rw [Decimal.split_of_point hpoint, Decimal.value_eq, Decimal.digits, zpow_neg, zpow_natCast]
  exact div_eq_mul_inv _ _

/-- The point is put where the exponent of the first digit says. -/
theorem value_split_positional {digits : List Char} (h : ∀ c ∈ digits, c.isDigit = true)
    (exponent : Int) : (Decimal.split (positional digits exponent)).value =
      digitsValue digits * 10 ^ (exponent + 1 - digits.length) := by
  unfold positional
  split_ifs with hsmall
  · -- zeros stand between the point and the digits
    have hzero : ∀ c ∈ ['0'], c.isDigit = true := List.forall_mem_singleton.mpr rfl
    have hlength : (-((List.replicate (-exponent - 1).toNat '0' ++ digits).length : Int)) =
        exponent + 1 - digits.length := by
      rw [List.length_append, List.length_replicate]
      omega
    have hvalue : digitsValue (['0'] ++ (List.replicate (-exponent - 1).toNat '0' ++ digits)) =
        digitsValue digits := by
      rw [List.singleton_append, digitsValue_zero_cons, digitsValue_append,
        digitsValue_replicate_zero, Nat.mul_zero, Nat.zero_add]
    rw [← hlength, ← hvalue]
    exact value_split_of_point hzero
  · dsimp only
    obtain ⟨k, rfl⟩ := Int.eq_ofNat_of_zero_le (not_lt.mp hsmall)
    rw [Int.toNat_natCast]
    by_cases hshort : digits.length ≤ k + 1
    · -- zeros fill the places before the point
      obtain ⟨zeros, hzeros⟩ := Nat.exists_eq_add_of_le hshort
      have hpadding : k + 1 - digits.length = zeros := by omega
      have hpadded : ∀ c ∈ digits ++ List.replicate zeros '0', c.isDigit = true := by
        intro c hc
        exact (List.mem_append.mp hc).elim (h c) (isDigit_replicate_zero zeros c)
      have hvalue : digitsValue (digits ++ List.replicate zeros '0' ++ ['0']) =
          10 * (10 ^ zeros * digitsValue digits) := by
        rw [digitsValue_append, digitsValue_append, digitsValue_replicate_zero,
          List.length_replicate, Nat.add_zero]
        rfl
      have hexponent : ((k : Int) + 1 - digits.length) = zeros := by omega
      rw [hpadding, if_pos hshort, List.take_of_length_le (by simp; omega),
        value_split_of_point hpadded, hvalue, hexponent, zpow_natCast]
      push_cast
      norm_num
      ring
    · -- the point stands among the digits
      have hpadding : k + 1 - digits.length = 0 := by omega
      have hexponent : (-(digits.drop (k + 1)).length : Int) = k + 1 - digits.length := by
        rw [List.length_drop]
        omega
      rw [hpadding, if_neg hshort, List.replicate_zero, List.append_nil,
        value_split_of_point fun c hc => h c (List.mem_of_mem_take hc), List.take_append_drop,
        hexponent]

/-- The mantissa is laid out as a number with a point after its first digit. -/
theorem scientific_eq {digits : List Char} (hne : digits ≠ []) (exponent : Int) :
    scientific digits exponent = positional digits 0 ++ 'E' :: (toString exponent).toList := by
  match digits, hne with
  | [c], _ => rfl
  | c :: d :: digits, _ => simp [scientific, positional]

/-! ## Texts of decimals -/

namespace ShortDecimal

theorem text_ne_nil (d : ShortDecimal) : d.text ≠ [] := Nat.toDigits_ne_nil

theorem value_eq (d : ShortDecimal) :
    d.value = digitsValue d.text * 10 ^ (d.exponent + 1 - d.text.length) := by
  have hscale : d.exponent + 1 - d.text.length = d.scale := by
    rw [exponent]
    ring
  rw [hscale, text, digitsValue_toDigits]
  rfl

theorem value_split_positional (d : ShortDecimal) :
    (Decimal.split (positional d.text d.exponent)).value = d.value := by
  rw [FormulaSearch.value_split_positional d.isDigit_text, value_eq]

/-- Both layouts of a decimal are numerals of its value. -/
theorem ofChars?_positional (d : ShortDecimal) :
    ∃ n, ofChars? (positional d.text d.exponent) = some n ∧ n.decimal.wellFormed = true ∧
      n.value = d.value := by
  have hwellFormed := wellFormed_split_positional d.isDigit_text d.exponent
  have hmark := isExponentMark_of_mem_positional d.isDigit_text d.exponent
  refine ⟨_, Numeral.ofChars?_of_no_mark hmark hwellFormed, hwellFormed, ?_⟩
  rw [Numeral.value, zpow_zero, mul_one, value_split_positional]

theorem ofChars?_scientific (d : ShortDecimal) :
    ∃ n, ofChars? (scientific d.text d.exponent) = some n ∧ n.decimal.wellFormed = true ∧
      n.value = d.value := by
  have hwellFormed := wellFormed_split_positional d.isDigit_text 0
  have hmark := isExponentMark_of_mem_positional d.isDigit_text 0
  have hread : ofChars? (scientific d.text d.exponent) =
      some ⟨Decimal.split (positional d.text 0), d.exponent⟩ := by
    rw [scientific_eq d.text_ne_nil, Numeral.ofChars?_of_mark hmark hwellFormed rfl,
      Numeral.exponent?_toString]
    rfl
  refine ⟨_, hread, hwellFormed, ?_⟩
  rw [Numeral.value, FormulaSearch.value_split_positional d.isDigit_text, value_eq, mul_assoc,
    ← zpow_add₀ (by norm_num)]
  congr 2
  ring

end ShortDecimal

namespace Binary64

theorem splitSign_numberText (x : Binary64) : splitSign x.numberText = (false, x.numberText) := by
  unfold numberText
  have hnumeric (exponent : Int) : IsNumeric (positional x.shortest.text exponent) :=
    (isNumeric_positional x.shortest.isDigit_text exponent).1
  split_ifs
  · rfl
  · exact (hnumeric _).splitSign_eq
  · rw [scientific_eq x.shortest.text_ne_nil]
    exact (hnumeric 0).splitSign_append _

/-! ## Reading -/

theorem ofChars?_numberText {x : Binary64} (hx : x.isFinite = true) :
    ∃ n, ofChars? x.numberText = some n ∧ n.decimal.wellFormed = true ∧
      nearestTo n.value = x.magnitude.toNat := by
  unfold numberText
  by_cases hzero : x.magnitude = 0
  · rw [if_pos hzero, hzero]
    refine ⟨⟨⟨['0'], ['0']⟩, 0⟩, rfl, rfl, ?_⟩
    have hdigits : (Decimal.mk ['0'] ['0']).digits = 0 := rfl
    rw [Numeral.value_eq, hdigits, Nat.cast_zero, zero_mul, nearestTo_zero]
    rfl
  · rw [if_neg hzero, ← nearestTo_shortest hx]
    have hlayout : ∃ n, ofChars? (if x.isPositional then
        positional x.shortest.text x.shortest.exponent
        else scientific x.shortest.text x.shortest.exponent) = some n ∧
        n.decimal.wellFormed = true ∧ n.value = x.shortest.value := by
      split_ifs
      · exact x.shortest.ofChars?_positional
      · exact x.shortest.ofChars?_scientific
    obtain ⟨n, hn, hwellFormed, hvalue⟩ := hlayout
    exact ⟨n, hn, hwellFormed, congrArg nearestTo hvalue⟩

theorem read_featureText_of_isFinite {x : Binary64} (hx : x.isFinite = true) :
    read x.featureText = .ok x := by
  obtain ⟨n, hn, hwellFormed, hvalue⟩ := ofChars?_numberText hx
  rw [featureText_of_isFinite hx, read_signed x.splitSign_numberText hn,
    Numeral.toBinary64_eq hwellFormed, hvalue, UInt64.ofNat_toNat, ofMagnitude_isNegative_magnitude]

theorem read_featureText_of_isInfinite {x : Binary64} (hx : x.isInfinite = true) :
    read x.featureText = .ok x := by
  have hmagnitude : x.magnitude = infinityBits := beq_iff_eq.mp hx
  have hnan : x.isNaN = false := by
    rw [isNaN, hmagnitude]
    rfl
  have htext : x.featureText =
      if x.isNegative then '-' :: "Infinity".toList else "Infinity".toList := by
    unfold featureText
    rw [hnan, hx]
    rfl
  have hread (negative : Bool) :
      read (if negative then '-' :: "Infinity".toList else "Infinity".toList) =
        .ok (ofMagnitude negative infinityBits) := by
    cases negative <;> rfl
  rw [htext, hread, ← hmagnitude, ofMagnitude_isNegative_magnitude]

theorem read_featureText_of_isNaN {x : Binary64} (hx : x.isNaN = true) :
    read x.featureText = .ok nan := by
  rw [featureText, if_pos hx]
  rfl

/-! ## Features in formulas -/

theorem decimal?_featureText_isSome_iff (x : Binary64) :
    (decimal? x.featureText).isSome = true ↔ x.IsPlain := by
  constructor
  · intro hsome
    by_contra hplain
    obtain ⟨q, hq⟩ := Option.isSome_iff_exists.mp hsome
    obtain ⟨c, hc, hunreadable⟩ := exists_unreadable_of_not_isPlain hplain
    rw [Scan.isReadable_of_decimal? hq hc] at hunreadable
    exact absurd hunreadable (by decide)
  · intro hplain
    obtain ⟨hsigned, hcount⟩ := hplain.isSigned_featureText
    have hlength : x.featureText.length ≤ Decimal.maxPlaces :=
      hplain.length_featureText_le.trans (by decide)
    exact (hsigned.decimal?_isSome_iff hlength).mpr hcount.le

theorem IsPlain.split_numberText {x : Binary64} (hx : x.IsPlain) :
    (Decimal.split x.numberText).wellFormed = true ∧
      (Decimal.split x.numberText).value = if x.magnitude = 0 then 0 else x.shortest.value := by
  rw [hx.numberText_eq]
  split_ifs
  · exact ⟨rfl, rfl⟩
  · exact ⟨wellFormed_split_positional x.shortest.isDigit_text _, x.shortest.value_split_positional⟩

theorem IsPlain.places_numberText_le {x : Binary64} (hx : x.IsPlain) :
    (Decimal.split x.numberText).fraction.length ≤ Decimal.maxPlaces :=
  (Decimal.length_fraction_split_le _).trans (hx.length_numberText_le.trans (by decide))

theorem IsPlain.decimal?_featureText {x : Binary64} (hx : x.IsPlain) :
    decimal? x.featureText = some (if x.magnitude = 0 then 0
      else if x.isNegative then -x.shortest.value else x.shortest.value) := by
  obtain ⟨hwellFormed, hvalue⟩ := hx.split_numberText
  rw [featureText_of_isFinite hx.1,
    decimal?_signed x.splitSign_numberText hwellFormed hx.places_numberText_le, hvalue]
  by_cases hzero : x.magnitude = 0
  · simp [hzero]
  · simp [hzero]

theorem shortest_pos {x : Binary64} (hx : x.isFinite = true) (hzero : x.magnitude ≠ 0) :
    0 < x.shortest.value := by
  have hnonneg : 0 ≤ x.shortest.value := by
    unfold ShortDecimal.value
    positivity
  apply lt_of_le_of_ne hnonneg
  intro hvalue
  have hmagnitude := nearestTo_shortest hx
  rw [← hvalue, nearestTo_zero] at hmagnitude
  exact hzero (UInt64.toNat_inj.mp hmagnitude.symm)

theorem ofRat_decimal?_featureText {x : Binary64} {q : Rat} (h : decimal? x.featureText = some q) :
    (ofRat q).isFinite = true ∧ (ofRat q).toRat = x.toRat := by
  have hplain := (decimal?_featureText_isSome_iff x).mp (by rw [h]; rfl)
  rw [hplain.decimal?_featureText, Option.some_inj] at h
  rw [← h]
  by_cases hzero : x.magnitude = 0
  · rw [if_pos hzero, ofRat_zero, (toRat_eq_zero_iff x).mpr hzero]
    decide
  · have hpos := shortest_pos hplain.1 hzero
    rw [if_neg hzero, ofRat_of_nearestTo hpos (nearestTo_shortest hplain.1)]
    exact ⟨hplain.1, rfl⟩

/-- Reading the text of a feature gives back its pattern, or a NaN for a NaN. The text is a literal
of formulas exactly if the feature is plain, and then the value of the literal rounds to a number
equal to the feature. -/
theorem featureText_reads_back (x : Binary64) :
    (∃ y, read x.featureText = .ok y ∧ if x.isNaN then y.isNaN = true else y = x) ∧
      ((decimal? x.featureText).isSome = true ↔ x.IsPlain) ∧
      ∀ q, decimal? x.featureText = some q →
        (ofRat q).isFinite = true ∧ (ofRat q).toRat = x.toRat := by
  refine ⟨?_, decimal?_featureText_isSome_iff x, fun q => ofRat_decimal?_featureText⟩
  by_cases hnan : x.isNaN = true
  · refine ⟨nan, read_featureText_of_isNaN hnan, ?_⟩
    rw [if_pos hnan]
    decide
  · refine ⟨x, ?_, by rw [if_neg hnan]⟩
    cases hinfinite : x.isInfinite with
    | true => exact read_featureText_of_isInfinite hinfinite
    | false => exact read_featureText_of_isFinite (by simp [isFinite_eq_not, hnan, hinfinite])

example : read (ofRat (mkRat (-1) 10000)).featureText = .ok (ofRat (mkRat (-1) 10000)) ∧
    (ofRat (mkRat (-1) 10000)).featureText = "-1.0E-4".toList := by decide +kernel

end Binary64

end FormulaSearch
