import FormulaSearch.Formula.Scan
import Mathlib.Tactic

/-!
# The language of decimal literals

A text without its sign is a literal if it consists of digits and at most one point, and has a
digit, and if the digits after the point can be counted in 32 bits. So whether a row of such
characters is a literal depends on its points alone, unless it is very long.
-/

namespace FormulaSearch

open Scan (continuesLiteral)

theorem continuesLiteral_of_isDigit {c : Char} (h : c.isDigit = true) :
    continuesLiteral c = true := by
  simp [continuesLiteral, h]

theorem continuesLiteral_point : continuesLiteral '.' = true := by decide

theorem isDigit_of_continuesLiteral {c : Char} (h : continuesLiteral c = true) (hc : c ≠ '.') :
    c.isDigit = true := by
  simpa [continuesLiteral, hc] using h

theorem plain_of_continuesLiteral {c : Char} (h : continuesLiteral c = true) :
    Text.isBlank c = false ∧ c ≠ '(' ∧ c ≠ ')' := by
  by_cases hc : c = '.'
  · subst hc
    decide
  · have hdigit := isDigit_of_continuesLiteral h hc
    rw [Char.isDigit_iff_toNat, show '0'.toNat = 48 from rfl, show '9'.toNat = 57 from rfl]
      at hdigit
    refine ⟨?_, ?_, ?_⟩
    · have hascii : c.toNat < 0x80 := by omega
      simp only [Text.isBlank, hascii, if_true, Bool.or_eq_false_iff, beq_eq_false_iff_ne,
        Bool.and_eq_false_iff, decide_eq_false_iff_not]
      omega
    · rintro rfl
      simp at hdigit
    · rintro rfl
      simp at hdigit

namespace Decimal

theorem wellFormed_iff (w f : List Char) : (Decimal.mk w f).wellFormed = true ↔
    (w ≠ [] ∨ f ≠ []) ∧ (∀ c ∈ w, c.isDigit = true) ∧ ∀ c ∈ f, c.isDigit = true := by
  cases w <;> cases f <;> simp [wellFormed]

theorem exists_digit_iff {cs : List Char} (h : ∀ c ∈ cs, c.isDigit = true) :
    (∃ c ∈ cs, c.isDigit = true) ↔ cs ≠ [] := by
  cases cs with
  | nil => simp
  | cons c cs => simp [h c (by simp)]

theorem point_not_mem {cs : List Char} (h : ∀ c ∈ cs, c.isDigit = true) : '.' ∉ cs :=
  fun hmem => absurd (h _ hmem) (by decide)

theorem wellFormed_split_iff (cs : List Char) : (split cs).wellFormed = true ↔
    (∀ c ∈ cs, continuesLiteral c = true) ∧ cs.count '.' ≤ 1 ∧ ∃ c ∈ cs, c.isDigit = true := by
  by_cases hpoint : '.' ∈ cs
  · obtain ⟨w, f, rfl, hw⟩ := List.eq_append_cons_of_mem hpoint
    rw [split_of_point fun c hc => ne_of_mem_of_not_mem hc hw, wellFormed_iff]
    have hcount : (w ++ '.' :: f).count '.' = f.count '.' + 1 := by
      simp [List.count_append, List.count_eq_zero_of_not_mem hw]
    constructor
    · intro ⟨hne, hw', hf⟩
      refine ⟨?_, ?_, ?_⟩
      · intro c hc
        rcases List.mem_append.mp hc with hc | hc
        · exact continuesLiteral_of_isDigit (hw' c hc)
        · rcases List.mem_cons.mp hc with rfl | hc
          · exact continuesLiteral_point
          · exact continuesLiteral_of_isDigit (hf c hc)
      · rw [hcount, List.count_eq_zero_of_not_mem (point_not_mem hf)]
      · rcases hne with hne | hne
        · obtain ⟨c, hc, hd⟩ := (exists_digit_iff hw').mpr hne
          exact ⟨c, List.mem_append_left _ hc, hd⟩
        · obtain ⟨c, hc, hd⟩ := (exists_digit_iff hf).mpr hne
          exact ⟨c, List.mem_append_right _ (List.mem_cons_of_mem _ hc), hd⟩
    · intro ⟨hall, hone, d, hd, hdigit⟩
      rw [hcount] at hone
      have hf : '.' ∉ f := List.count_eq_zero.mp (by omega)
      have hdigits : ∀ c ∈ w ++ '.' :: f, c ≠ '.' → c.isDigit = true :=
        fun c hc => isDigit_of_continuesLiteral (hall c hc)
      refine ⟨?_, ?_, ?_⟩
      · rcases List.mem_append.mp hd with hd | hd
        · exact .inl (List.ne_nil_of_mem hd)
        · rcases List.mem_cons.mp hd with rfl | hd
          · exact absurd hdigit (by decide)
          · exact .inr (List.ne_nil_of_mem hd)
      · exact fun c hc => hdigits c (by simp [hc]) (ne_of_mem_of_not_mem hc hw)
      · exact fun c hc => hdigits c (by simp [hc]) (ne_of_mem_of_not_mem hc hf)
  · rw [split_of_no_point fun c hc => ne_of_mem_of_not_mem hc hpoint, wellFormed_iff,
      List.count_eq_zero_of_not_mem hpoint]
    constructor
    · rintro ⟨hne, hall, -⟩
      exact ⟨fun c hc => continuesLiteral_of_isDigit (hall c hc), Nat.zero_le _,
        (exists_digit_iff hall).mpr (by simpa using hne)⟩
    · rintro ⟨hall, -, d, hd, -⟩
      refine ⟨.inl (List.ne_nil_of_mem hd), ?_, by simp⟩
      intro c hc
      exact isDigit_of_continuesLiteral (hall c hc) (ne_of_mem_of_not_mem hc hpoint)

theorem length_fraction_split_le (cs : List Char) : (split cs).fraction.length ≤ cs.length := by
  rw [split, List.length_drop]
  exact (Nat.sub_le _ 1).trans (List.dropWhile_sublist _).length_le

end Decimal

theorem decimal?_isSome_iff (cs : List Char) : (decimal? cs).isSome = true ↔
    (Decimal.split (splitSign cs).2).wellFormed = true ∧
      (Decimal.split (splitSign cs).2).fraction.length ≤ Decimal.maxPlaces := by
  unfold decimal?
  dsimp only
  split <;> simp_all

theorem splitSign_eq (cs : List Char) :
    cs = (splitSign cs).2 ∨ ∃ sign, (sign = '-' ∨ sign = '+') ∧ cs = sign :: (splitSign cs).2 := by
  unfold splitSign
  split
  · exact .inr ⟨'-', by simp⟩
  · exact .inr ⟨'+', by simp⟩
  · exact .inl rfl

theorem numeric_or_sign_of_decimal? {cs : List Char} {q : Rat} (h : decimal? cs = some q) {c : Char}
    (hc : c ∈ cs) : continuesLiteral c = true ∨ c = '-' ∨ c = '+' := by
  have hwellFormed := ((decimal?_isSome_iff cs).mp (by simp [h])).1
  have hall := ((Decimal.wellFormed_split_iff _).mp hwellFormed).1
  rcases splitSign_eq cs with heq | ⟨sign, hsign, heq⟩
  · rw [heq] at hc
    exact .inl (hall c hc)
  · rw [heq] at hc
    rcases List.mem_cons.mp hc with rfl | hc
    · exact .inr hsign
    · exact .inl (hall c hc)

/-! ## Numeric texts -/

/-- Digits and points, with a digit among them. -/
def IsNumeric (cs : List Char) : Prop :=
  (∀ c ∈ cs, continuesLiteral c = true) ∧ ∃ c ∈ cs, c.isDigit = true

/-- A numeric text, perhaps behind a minus. -/
def IsSigned (cs : List Char) : Prop := IsNumeric cs ∨ ∃ us, cs = '-' :: us ∧ IsNumeric us

theorem IsNumeric.ne_nil {cs : List Char} (h : IsNumeric cs) : cs ≠ [] := by
  obtain ⟨-, c, hc, -⟩ := h
  exact List.ne_nil_of_mem hc

theorem IsNumeric.append {cs ds : List Char} (hc : IsNumeric cs) (hd : IsNumeric ds) :
    IsNumeric (cs ++ ds) := by
  obtain ⟨hcs, d, hd', hdigit⟩ := hc
  refine ⟨?_, d, List.mem_append_left ds hd', hdigit⟩
  intro c hmem
  rcases List.mem_append.mp hmem with hmem | hmem
  · exact hcs c hmem
  · exact hd.1 c hmem

theorem IsSigned.append {cs ds : List Char} (hc : IsSigned cs) (hd : IsNumeric ds) :
    IsSigned (cs ++ ds) := by
  rcases hc with hc | ⟨us, rfl, hu⟩
  · exact .inl (hc.append hd)
  · exact .inr ⟨us ++ ds, rfl, hu.append hd⟩

theorem IsNumeric.splitSign_eq {cs : List Char} (h : IsNumeric cs) :
    splitSign cs = (false, cs) := by
  unfold splitSign
  split
  · exact absurd (h.1 '-' (by simp)) (by decide)
  · exact absurd (h.1 '+' (by simp)) (by decide)
  · rfl

theorem IsNumeric.wellFormed_split_iff {cs : List Char} (h : IsNumeric cs) :
    (Decimal.split cs).wellFormed = true ↔ cs.count '.' ≤ 1 := by
  rw [Decimal.wellFormed_split_iff]
  exact ⟨fun hcount => hcount.2.1, fun hcount => ⟨h.1, hcount, h.2⟩⟩

/-- A numeric text that is not too long is a literal unless it has two points. -/
theorem IsSigned.decimal?_isSome_iff {cs : List Char} (h : IsSigned cs)
    (hlength : cs.length ≤ Decimal.maxPlaces) :
    (decimal? cs).isSome = true ↔ cs.count '.' ≤ 1 := by
  rw [FormulaSearch.decimal?_isSome_iff]
  rcases h with h | ⟨us, rfl, h⟩
  · rw [h.splitSign_eq, h.wellFormed_split_iff]
    exact and_iff_left ((Decimal.length_fraction_split_le cs).trans hlength)
  · have hcount : ('-' :: us).count '.' = us.count '.' := List.count_cons_of_ne (by decide)
    have hplaces : (Decimal.split us).fraction.length ≤ Decimal.maxPlaces :=
      (Decimal.length_fraction_split_le us).trans ((Nat.le_succ _).trans hlength)
    rw [hcount, ← h.wellFormed_split_iff]
    exact and_iff_left hplaces

/-- A numeric text, signed or not, is cut as one token before a character that does not continue
it. -/
theorem IsSigned.exists_cut {text rest : List Char} (h : IsSigned text)
    (hrest : ∀ c ∈ rest.head?, continuesLiteral c = false) :
    ∃ c cs, text ++ rest = c :: cs ∧ Text.isBlank c = false ∧ c ≠ '(' ∧
      c :: cs.takeWhile continuesLiteral = text ∧ cs.dropWhile continuesLiteral = rest := by
  have hstop : rest.takeWhile continuesLiteral = [] ∧ rest.dropWhile continuesLiteral = rest := by
    cases rest with
    | nil => exact ⟨rfl, rfl⟩
    | cons d rest => simp [hrest d (by simp)]
  obtain ⟨c, run, rfl, hblank, hopen, hrun⟩ : ∃ c run, text = c :: run ∧
      Text.isBlank c = false ∧ c ≠ '(' ∧ ∀ d ∈ run, continuesLiteral d = true := by
    rcases h with h | ⟨us, rfl, h⟩
    · match text, h.ne_nil with
      | c :: run, _ =>
        have hc := h.1 c (by simp)
        obtain ⟨hblank, hopen, -⟩ := plain_of_continuesLiteral hc
        exact ⟨c, run, rfl, hblank, hopen, fun d hd => h.1 d (List.mem_cons_of_mem c hd)⟩
    · exact ⟨'-', us, rfl, by decide, by decide, h.1⟩
  refine ⟨c, run ++ rest, rfl, hblank, hopen, ?_, ?_⟩
  · rw [List.takeWhile_append_of_pos hrun, hstop.1, List.append_nil]
  · rw [List.dropWhile_append_of_pos hrun, hstop.2]

/-! ## Integers -/

theorem isDigit_of_mem_toDigits {n : Nat} : ∀ c ∈ Nat.toDigits 10 n, c.isDigit = true :=
  fun _ hc => Nat.isDigit_of_mem_toDigits (by decide) (by decide) hc

theorem isNumeric_toDigits (n : Nat) : IsNumeric (Nat.toDigits 10 n) :=
  ⟨fun c hc => continuesLiteral_of_isDigit (isDigit_of_mem_toDigits c hc),
    (Decimal.exists_digit_iff isDigit_of_mem_toDigits).mpr Nat.toDigits_ne_nil⟩

theorem exists_toString_eq (e : Int) : ∃ negative : Bool,
    (toString e).toList =
      (if negative then '-' :: Nat.toDigits 10 e.natAbs else Nat.toDigits 10 e.natAbs) ∧
    e = if negative then -(e.natAbs : Int) else e.natAbs := by
  cases e with
  | ofNat n => exact ⟨false, Nat.toList_repr, rfl⟩
  | negSucc n =>
    refine ⟨true, ?_, rfl⟩
    change ("-" ++ Nat.repr (n + 1)).toList = _
    rw [String.toList_append, Nat.toList_repr]
    rfl

theorem isSigned_toString (e : Int) : IsSigned (toString e).toList := by
  obtain ⟨negative, htext, -⟩ := exists_toString_eq e
  rw [htext]
  cases negative with
  | false => exact .inl (isNumeric_toDigits _)
  | true => exact .inr ⟨_, rfl, isNumeric_toDigits _⟩

end FormulaSearch
