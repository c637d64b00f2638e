import FormulaSearch.Proofs.Formula.Chain
import FormulaSearch.Proofs.Number.Shortest
import Mathlib.Data.Bool.AllAny

/-!
# The shape of feature texts

The text of a plain number is digits, a point and digits, perhaps behind a minus. Every other text
holds a character that stands in no formula.
-/

namespace FormulaSearch

open Scan (continuesLiteral isReadable)

theorem isNumeric_pointed {whole fraction : List Char} (hne : whole ≠ [])
    (hwhole : ∀ c ∈ whole, c.isDigit = true) (hfraction : ∀ c ∈ fraction, c.isDigit = true) :
    IsNumeric (whole ++ '.' :: fraction) ∧ (whole ++ '.' :: fraction).count '.' = 1 := by
  refine ⟨⟨?_, ?_⟩, ?_⟩
  · intro c hc
    rcases List.mem_append.mp hc with hc | hc
    · exact continuesLiteral_of_isDigit (hwhole c hc)
    · rcases List.mem_cons.mp hc with rfl | hc
      · exact continuesLiteral_point
      · exact continuesLiteral_of_isDigit (hfraction c hc)
  · obtain ⟨c, hc⟩ := List.exists_mem_of_ne_nil whole hne
    exact ⟨c, List.mem_append_left _ hc, hwhole c hc⟩
  · simp [List.count_append, List.count_eq_zero_of_not_mem (Decimal.point_not_mem hwhole),
      List.count_eq_zero_of_not_mem (Decimal.point_not_mem hfraction)]

theorem isDigit_replicate_zero (n : Nat) : ∀ c ∈ List.replicate n '0', c.isDigit = true := by
  intro c hc
  rw [List.eq_of_mem_replicate hc]
  rfl

theorem isNumeric_positional {digits : List Char} (h : ∀ c ∈ digits, c.isDigit = true)
    (exponent : Int) : IsNumeric (positional digits exponent) ∧
      (positional digits exponent).count '.' = 1 := by
  unfold positional
  split
  · apply isNumeric_pointed (List.cons_ne_nil '0' []) (List.forall_mem_singleton.mpr rfl)
    intro c hc
    rcases List.mem_append.mp hc with hc | hc
    · exact isDigit_replicate_zero _ c hc
    · exact h c hc
  · dsimp only
    generalize hpadded :
      digits ++ List.replicate (exponent.toNat + 1 - digits.length) '0' = padded
    have hdigits : ∀ c ∈ padded, c.isDigit = true := by
      intro c hc
      rw [← hpadded] at hc
      rcases List.mem_append.mp hc with hc | hc
      · exact h c hc
      · exact isDigit_replicate_zero _ c hc
    have hlength : 0 < padded.length := by
      rw [← hpadded]
      simp only [List.length_append, List.length_replicate]
      omega
    refine isNumeric_pointed ?_ (fun c hc => hdigits c (List.mem_of_mem_take hc)) ?_
    · rw [Ne, List.take_eq_nil_iff]
      rintro (hzero | hnil)
      · omega
      · simp [hnil] at hlength
    · split
      · intro c hc
        rw [List.mem_singleton.mp hc]
        rfl
      · exact fun c hc => hdigits c (List.mem_of_mem_drop hc)

theorem length_positional_le (digits : List Char) (exponent : Int) :
    (positional digits exponent).length ≤ digits.length + exponent.natAbs + 3 := by
  unfold positional
  split
  · simp only [List.length_cons, List.length_append, List.length_replicate]
    omega
  · dsimp only
    split <;> simp only [List.length_append, List.length_take, List.length_replicate,
      List.length_cons, List.length_nil, List.length_drop] <;> omega

theorem ShortDecimal.isDigit_text (d : ShortDecimal) : ∀ c ∈ d.text, c.isDigit = true :=
  fun _ hc => Nat.isDigit_of_mem_toDigits (by decide) (by decide) hc

namespace Binary64

/-- The text of a finite number without its sign. -/
def numberText (x : Binary64) : List Char :=
  if x.magnitude = 0 then ['0', '.', '0']
  else if x.isPositional then positional x.shortest.text x.shortest.exponent
  else scientific x.shortest.text x.shortest.exponent

theorem featureText_of_isFinite {x : Binary64} (hx : x.isFinite = true) :
    x.featureText = if x.isNegative then '-' :: x.numberText else x.numberText := by
  rw [isFinite_eq_not, Bool.not_eq_true', Bool.or_eq_false_iff] at hx
  unfold featureText
  rw [hx.1, hx.2]
  rfl

theorem IsPlain.numberText_eq {x : Binary64} (h : x.IsPlain) :
    x.numberText = if x.magnitude = 0 then ['0', '.', '0']
      else positional x.shortest.text x.shortest.exponent := by
  unfold numberText
  rcases ((isPlain_iff x).mp h).2 with hzero | hpositional
  · rw [if_pos hzero, if_pos hzero]
  · rw [if_pos hpositional]

theorem IsPlain.isNumeric_numberText {x : Binary64} (h : x.IsPlain) :
    IsNumeric x.numberText ∧ x.numberText.count '.' = 1 := by
  rw [h.numberText_eq]
  split
  · have hdigits : ∀ c ∈ ['0'], c.isDigit = true := List.forall_mem_singleton.mpr rfl
    exact isNumeric_pointed (List.cons_ne_nil '0' []) hdigits hdigits
  · exact isNumeric_positional x.shortest.isDigit_text x.shortest.exponent

/-- The text of a plain number is far too short for its digits not to be counted. -/
theorem IsPlain.length_numberText_le {x : Binary64} (h : x.IsPlain) :
    x.numberText.length ≤ 9999 := by
  obtain ⟨htext, hexponent⟩ := x.length_text_shortest_le
  have hpositional := length_positional_le x.shortest.text x.shortest.exponent
  rw [h.numberText_eq]
  split
  · decide
  · omega

theorem IsPlain.isSigned_featureText {x : Binary64} (h : x.IsPlain) :
    IsSigned x.featureText ∧ x.featureText.count '.' = 1 := by
  obtain ⟨hnumeric, hcount⟩ := h.isNumeric_numberText
  rw [featureText_of_isFinite h.1]
  split
  · exact ⟨.inr ⟨x.numberText, rfl, hnumeric⟩, by rwa [List.count_cons_of_ne (by decide)]⟩
  · exact ⟨.inl hnumeric, hcount⟩

theorem IsPlain.length_featureText_le {x : Binary64} (h : x.IsPlain) :
    x.featureText.length ≤ 10000 := by
  have hlength := h.length_numberText_le
  rw [featureText_of_isFinite h.1]
  split
  · exact Nat.succ_le_succ hlength
  · exact hlength.trans (Nat.le_succ _)

theorem exists_unreadable_of_not_isPlain {x : Binary64} (h : ¬ x.IsPlain) :
    ∃ c ∈ x.featureText, isReadable c = false := by
  have hsign (us : List Char) {c : Char} (hc : c ∈ us) :
      c ∈ if x.isNegative then '-' :: us else us := by
    split
    · exact List.mem_cons_of_mem '-' hc
    · exact hc
  rw [isPlain_iff, isFinite_eq_not] at h
  unfold featureText
  by_cases hnan : x.isNaN = true
  · exact ⟨'N', by simp [hnan], by decide⟩
  · by_cases hinfinite : x.isInfinite = true
    · refine ⟨'I', ?_, by decide⟩
      simp only [hnan, hinfinite, if_true]
      exact hsign "Infinity".toList (by decide)
    · have hrange : ¬ (x.magnitude = 0 ∨ x.isPositional = true) :=
        fun hrange => h ⟨by simp [hnan, hinfinite], hrange⟩
      obtain ⟨hzero, hpositional⟩ := not_or.mp hrange
      refine ⟨'E', ?_, by decide⟩
      simp only [hnan, hinfinite, hzero, hpositional]
      exact hsign _ (by simp [scientific])

/-! ## Characters of feature texts -/

def IsFeatureChar (c : Char) : Prop := continuesLiteral c = true ∨ c ∈ "-ENaInfity".toList

theorem IsFeatureChar.of_isDigit {c : Char} (h : c.isDigit = true) : IsFeatureChar c :=
  .inl (continuesLiteral_of_isDigit h)

theorem isFeatureChar_of_mem_toString {e : Int} {c : Char} (hc : c ∈ (toString e).toList) :
    IsFeatureChar c := by
  have hdigit (h : c ∈ Nat.toDigits 10 e.natAbs) : IsFeatureChar c :=
    .inl ((isNumeric_toDigits _).1 c h)
  obtain ⟨negative, htext, -⟩ := exists_toString_eq e
  rw [htext] at hc
  cases negative with
  | false => exact hdigit hc
  | true =>
    rcases List.mem_cons.mp hc with rfl | hc
    · exact .inr (by decide)
    · exact hdigit hc

theorem isFeatureChar_of_mem_scientific {digits : List Char} (h : ∀ c ∈ digits, c.isDigit = true)
    {exponent : Int} {c : Char} (hc : c ∈ scientific digits exponent) : IsFeatureChar c := by
  unfold scientific at hc
  simp only [List.mem_append, List.mem_cons] at hc
  rcases hc with hc | rfl | hc | rfl | hc
  · exact .of_isDigit (h c (List.mem_of_mem_take hc))
  · exact .inl continuesLiteral_point
  · split at hc
    · rw [List.mem_singleton.mp hc]
      exact .of_isDigit (by decide)
    · exact .of_isDigit (h c (List.mem_of_mem_drop hc))
  · exact .inr (by decide)
  · exact isFeatureChar_of_mem_toString hc

theorem isFeatureChar_of_mem_featureText {x : Binary64} {c : Char} (hc : c ∈ x.featureText) :
    IsFeatureChar c := by
  have hsigned {us : List Char} (hus : ∀ d ∈ us, IsFeatureChar d)
      (h : c ∈ if x.isNegative then '-' :: us else us) : IsFeatureChar c := by
    split at h
    · rcases List.mem_cons.mp h with rfl | h
      · exact .inr (by decide)
      · exact hus c h
    · exact hus c h
  have hnames : (∀ d ∈ "NaN".toList, IsFeatureChar d) ∧ (∀ d ∈ "Infinity".toList, IsFeatureChar d) ∧
      ∀ d ∈ ['0', '.', '0'], IsFeatureChar d := by
    unfold IsFeatureChar
    refine ⟨?_, ?_, ?_⟩ <;> exact List.all_iff_forall_prop.mp (by decide)
  unfold featureText at hc
  split at hc
  · exact hnames.1 c hc
  · refine hsigned ?_ hc
    split
    · exact hnames.2.1
    · split
      · exact hnames.2.2
      · have htext := x.shortest.isDigit_text
        dsimp only
        split
        · exact fun d hd => .inl ((isNumeric_positional htext x.shortest.exponent).1.1 d hd)
        · exact fun d hd => isFeatureChar_of_mem_scientific htext hd

theorem IsFeatureChar.plain {c : Char} (h : IsFeatureChar c) :
    Text.isBlank c = false ∧ c ≠ ')' := by
  have hletters : ∀ d ∈ "-ENaInfity".toList, Text.isBlank d = false ∧ d ≠ ')' :=
    List.all_iff_forall_prop.mp (by decide)
  rcases h with h | h
  · obtain ⟨hblank, -, hclose⟩ := plain_of_continuesLiteral h
    exact ⟨hblank, hclose⟩
  · exact hletters c h

end Binary64

end FormulaSearch
