import FormulaSearch.Proofs.Number.Numeral

/-!
# The form of decimal literals

A decimal literal is a sign, or none, and digits with at most one point before, among or behind
them. These are the texts that are read, each to the exact value that its form has: the number that
the digits spell, divided by ten for each digit behind the point, with the sign. All other texts are
refused and named. The digits before the point may be any number. Those behind it are counted in 32
bits, and a literal with more of them is refused like a text that is no literal.
-/

namespace FormulaSearch

/-- What may stand in front of the digits of a literal. -/
inductive LeadingSign where
  | absent
  | plus
  | minus

namespace LeadingSign

def text : LeadingSign → List Char
  | absent => []
  | plus => ['+']
  | minus => ['-']

def factor : LeadingSign → Int
  | absent => 1
  | plus => 1
  | minus => -1

end LeadingSign

/-- A decimal literal: a sign, digits, and perhaps a point with more digits behind it. There is at
least one digit. -/
structure DecimalLiteral where
  sign : LeadingSign
  whole : List Char
  /-- The digits behind the point, if there is a point. -/
  fraction : Option (List Char)
  isDigit_whole : ∀ c ∈ whole, c.isDigit = true
  isDigit_fraction : ∀ c ∈ fraction.getD [], c.isDigit = true
  digit : whole ≠ [] ∨ fraction.getD [] ≠ []

namespace DecimalLiteral

def unsigned (l : DecimalLiteral) : List Char := l.whole ++ l.fraction.elim [] ('.' :: ·)

def text (l : DecimalLiteral) : List Char := l.sign.text ++ l.unsigned

/-- All digits, without the point. -/
def digits (l : DecimalLiteral) : List Char := l.whole ++ l.fraction.getD []

/-- The number that all digits spell, from the last one up. -/
def magnitude (l : DecimalLiteral) : Nat :=
  Nat.ofDigits 10 (l.digits.reverse.map fun c => c.toNat - '0'.toNat)

def places (l : DecimalLiteral) : Nat := (l.fraction.getD []).length

def value (l : DecimalLiteral) : Rat := l.sign.factor * l.magnitude / 10 ^ l.places

end DecimalLiteral

theorem digitsValue_eq_ofDigits (cs : List Char) :
    digitsValue cs = Nat.ofDigits 10 (cs.reverse.map fun c => c.toNat - '0'.toNat) := by
  induction cs with
  | nil => rfl
  | cons c cs ih =>
    rw [digitsValue_cons, ih, List.reverse_cons, List.map_append, Nat.ofDigits_append,
      List.length_map, List.length_reverse, List.map_singleton, Nat.ofDigits_singleton,
      Nat.add_comm]

namespace DecimalLiteral

/-! ## Literals are read -/

variable (l : DecimalLiteral)

theorem split_unsigned : Decimal.split l.unsigned = ⟨l.whole, l.fraction.getD []⟩ := by
  have hwhole : ∀ c ∈ l.whole, c ≠ '.' :=
    fun c hc => ne_of_mem_of_not_mem hc (Decimal.point_not_mem l.isDigit_whole)
  unfold unsigned
  cases l.fraction with
  | none =>
    rw [Option.elim_none, List.append_nil]
    exact Decimal.split_of_no_point hwhole
  | some fraction => exact Decimal.split_of_point hwhole

theorem wellFormed_split : (Decimal.split l.unsigned).wellFormed = true := by
  rw [split_unsigned, Decimal.wellFormed_iff]
  exact ⟨l.digit, l.isDigit_whole, l.isDigit_fraction⟩

theorem splitSign_unsigned : splitSign l.unsigned = (false, l.unsigned) := by
  obtain ⟨hall, -, hdigit⟩ := (Decimal.wellFormed_split_iff _).mp l.wellFormed_split
  exact IsNumeric.splitSign_eq ⟨hall, hdigit⟩

theorem value_split : (Decimal.split l.unsigned).value = l.magnitude / 10 ^ l.places := by
  rw [split_unsigned, Decimal.value_eq, Decimal.digits, digitsValue_eq_ofDigits]
  rfl

theorem exists_splitSign_text : ∃ negative : Bool, splitSign l.text = (negative, l.unsigned) ∧
    l.value = if negative then -(Decimal.split l.unsigned).value
      else (Decimal.split l.unsigned).value := by
  have hvalue := l.value_split
  rw [hvalue, text, value]
  cases l.sign with
  | absent => exact ⟨false, l.splitSign_unsigned, by simp [LeadingSign.factor]⟩
  | plus => exact ⟨false, rfl, by simp [LeadingSign.factor]⟩
  | minus => exact ⟨true, rfl, by simp [LeadingSign.factor, neg_div]⟩

/-- A literal is read unless the digits behind its point are too many to be counted. -/
theorem decimal?_text : decimal? l.text = if l.places < 2 ^ 32 then some l.value else none := by
  obtain ⟨negative, hsign, hvalue⟩ := l.exists_splitSign_text
  have hplaces : (Decimal.split l.unsigned).fraction.length ≤ Decimal.maxPlaces ↔
      l.places < 2 ^ 32 := by
    rw [split_unsigned]
    exact Nat.lt_succ_iff.symm
  simp only [decimal?, hsign, hvalue, l.wellFormed_split, hplaces, Bool.true_and,
    decide_eq_true_eq]

/-! ## What is read is a literal -/

theorem exists_unsigned_eq (sign : LeadingSign) {us : List Char}
    (h : (Decimal.split us).wellFormed = true) :
    ∃ l : DecimalLiteral, l.sign = sign ∧ l.unsigned = us := by
  by_cases hpoint : '.' ∈ us
  · obtain ⟨whole, fraction, rfl, hwhole⟩ := List.eq_append_cons_of_mem hpoint
    rw [Decimal.split_of_point fun c hc => ne_of_mem_of_not_mem hc hwhole,
      Decimal.wellFormed_iff] at h
    exact ⟨⟨sign, whole, some fraction, h.2.1, h.2.2, h.1⟩, rfl, rfl⟩
  · rw [Decimal.split_of_no_point fun c hc => ne_of_mem_of_not_mem hc hpoint,
      Decimal.wellFormed_iff] at h
    exact ⟨⟨sign, us, none, h.2.1, h.2.2, h.1⟩, rfl, List.append_nil us⟩

theorem exists_text_eq {cs : List Char} {q : Rat} (h : decimal? cs = some q) :
    ∃ l : DecimalLiteral, l.text = cs := by
  have hunsigned := ((decimal?_isSome_iff cs).mp (by rw [h]; rfl)).1
  have hsign : ∃ sign : LeadingSign, cs = sign.text ++ (splitSign cs).2 := by
    rcases splitSign_eq cs with hcs | ⟨_, rfl | rfl, hcs⟩
    · exact ⟨.absent, hcs⟩
    · exact ⟨.minus, hcs⟩
    · exact ⟨.plus, hcs⟩
  obtain ⟨sign, hcs⟩ := hsign
  obtain ⟨l, rfl, hl⟩ := exists_unsigned_eq sign hunsigned
  exact ⟨l, by rw [text, hl, ← hcs]⟩

theorem decimal?_eq_some_iff {cs : List Char} {q : Rat} : decimal? cs = some q ↔
    ∃ l : DecimalLiteral, (l.text = cs ∧ l.places < 2 ^ 32) ∧ l.value = q := by
  constructor
  · intro h
    obtain ⟨l, rfl⟩ := exists_text_eq h
    rw [decimal?_text, Option.ite_none_right_eq_some, Option.some_inj] at h
    exact ⟨l, ⟨rfl, h.1⟩, h.2⟩
  · rintro ⟨l, ⟨rfl, hplaces⟩, rfl⟩
    rw [decimal?_text, if_pos hplaces]

/-! ## Lowest terms -/

theorem value_eq_mkRat : l.value = mkRat (l.sign.factor * l.magnitude) (10 ^ l.places) := by
  rw [Rat.mkRat_eq_div, value]
  push_cast
  rfl

theorem natAbs_numerator : (l.sign.factor * l.magnitude).natAbs = l.magnitude := by
  rw [Int.natAbs_mul, Int.natAbs_natCast]
  cases l.sign <;> exact Nat.one_mul _

/-- A text is read exactly if it is that of a literal whose digits behind the point can be counted,
and to the value of the literal. Otherwise it is named as invalid. The fraction of a literal is
reduced by what its digits and its power of ten have in common. -/
theorem readLiteral_accepts_literals (cs : List Char) :
    (∀ q, readLiteral cs = .ok q ↔
      ∃ l : DecimalLiteral, (l.text = cs ∧ l.places < 2 ^ 32) ∧ l.value = q) ∧
    (∀ e, readLiteral cs = .error e ↔
      (¬ ∃ l : DecimalLiteral, l.text = cs ∧ l.places < 2 ^ 32) ∧ e = .invalidLiteral cs) ∧
    ∀ l : DecimalLiteral, let common := (10 ^ l.places).gcd l.magnitude
      l.value.num = l.sign.factor * (l.magnitude / common : Nat) ∧
        l.value.den = 10 ^ l.places / common ∧ l.value.num.natAbs.Coprime l.value.den := by
  refine ⟨fun q => ?_, fun e => ?_, fun l => ⟨?_, ?_, l.value.reduced⟩⟩
  · rw [← decimal?_eq_some_iff, readLiteral]
    split <;> simp_all
  · rw [readLiteral_eq_error_iff, Option.eq_none_iff_forall_ne_some]
    refine and_congr_left fun _ => ?_
    simp only [ne_eq, decimal?_eq_some_iff, not_exists, not_and]
    exact ⟨fun h l hl hplaces => h l.value l ⟨hl, hplaces⟩ rfl,
      fun h q l hl _ => h l hl.1 hl.2⟩
  · have hcommon : (((10 ^ l.places).gcd l.magnitude : Nat) : Int) ∣ l.magnitude := by
      exact_mod_cast Nat.gcd_dvd_right _ _
    rw [value_eq_mkRat, Rat.num_mkRat, if_neg (by positivity), natAbs_numerator,
      Int.mul_ediv_assoc _ hcommon]
    rfl
  · rw [value_eq_mkRat, Rat.den_mkRat, if_neg (by positivity), natAbs_numerator]

/-- Zeros at either end make no difference, and digits of other scripts are none. -/
example : readLiteral "-007.50".toList = .ok (-15 / 2) ∧
    readLiteral "1.2.3".toList = .error (.invalidLiteral "1.2.3".toList) ∧
    readLiteral ['\u0663'] = .error (.invalidLiteral ['\u0663']) := by
  decide +kernel

def zero (places : Nat) : DecimalLiteral where
  sign := .absent
  whole := ['0']
  fraction := some (List.replicate places '0')
  isDigit_whole := List.forall_mem_singleton.mpr rfl
  isDigit_fraction _ hc := List.eq_of_mem_replicate hc ▸ rfl
  digit := .inl (List.cons_ne_nil '0' [])

theorem text_zero (places : Nat) : (zero places).text = '0' :: '.' :: List.replicate places '0' :=
  rfl

/-- A literal of zero is refused if there is one digit too many behind its point. -/
theorem readLiteral_refuses_uncounted_zeros :
    let cs := '0' :: '.' :: List.replicate (2 ^ 32) '0'
    (∃ l : DecimalLiteral, l.text = cs) ∧ readLiteral cs = .error (.invalidLiteral cs) := by
  have hplaces : ¬ (zero (2 ^ 32)).places < 2 ^ 32 := by
    have hlength : (zero (2 ^ 32)).places = 2 ^ 32 := List.length_replicate
    rw [hlength]
    exact lt_irrefl _
  have hread : decimal? (zero (2 ^ 32)).text = none := by rw [decimal?_text, if_neg hplaces]
  rw [text_zero] at hread
  exact ⟨⟨zero (2 ^ 32), text_zero _⟩, (readLiteral_eq_error_iff _ _).mpr ⟨hread, rfl⟩⟩

end DecimalLiteral

end FormulaSearch
