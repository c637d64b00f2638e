import FormulaSearch.Proofs.Formula.Reading
import FormulaSearch.Proofs.Number.Numeral

/-!
# Reading the texts of formulas

The text of a formula is a sentence. Applications stand in parentheses, but the slash of a fraction
does not: it binds as tightly as a product or a quotient around it. To the right of such an operator
a fraction is therefore taken apart, which changes the value of a quotient only.
-/

namespace FormulaSearch

open Scan (continuesLiteral)

namespace Grammar

/-! ## Parts of phrases -/

def Phrase.integer (n : Int) : Phrase := .literal (toString n).toList n

/-- A phrase with the slash and the denominator of a fraction after it; one is left out. -/
def Phrase.over (p : Phrase) (den : Nat) : Phrase :=
  if den = 1 then p else .application '/' .div p (integer den)

theorem derives_integer (n : Int) : Derives .atom (.integer n) := .literal (decimal?_toString n)

theorem Derives.over {p : Phrase} (h : Derives .prod p) (den : Nat) :
    Derives .prod (p.over den) := by
  unfold Phrase.over
  split_ifs
  · exact h
  · exact .application (by decide) h (derives_integer den)

/-- An operator is applied at its own level if what stands on its right binds more tightly. -/
theorem exists_derives_application {op : Operator} {K : Level} {left right : Phrase}
    (hleft : Derives .prod left) (hright : Derives K right) (hop : op.binding < K.rank) :
    ∃ L : Level, L.rank = op.binding ∧
      Derives L (.application op.symbol op left right) := by
  obtain ⟨L, hL⟩ := exists_level op
  have hrank : op.binding = L.rank := (mem_operators hL).2.1
  have hlt := rank_lt_of_mem_operators hL
  have hprod : L.rank ≤ Level.prod.rank := Nat.le_of_lt_succ hlt
  have hnext : L.next.rank ≤ K.rank := by
    rw [Level.rank_next hlt]
    omega
  exact ⟨L, hrank.symm, .application hL (hleft.mono hprod) (hright.mono hnext)⟩

theorem derives_application {op : Operator} {K : Level} {left right : Phrase}
    (hleft : Derives .prod left) (hright : Derives K right) (hop : op.binding < K.rank) :
    Derives .sum (.application op.symbol op left right) := by
  obtain ⟨L, -, h⟩ := exists_derives_application hleft hright hop
  exact h.mono (Nat.zero_le _)

theorem eval_over (p : Phrase) {den : Nat} (hden : den ≠ 0) :
    (p.over den).formula.eval = p.formula.eval.map (· / (den : Rat)) := by
  unfold Phrase.over
  split_ifs with hone
  · subst hone
    cases p.formula.eval <;> simp [Except.map]
  · have hquotient (a : Rat) : Exact.quotient a den = .ok (a / den) :=
      if_neg (Nat.cast_ne_zero.mpr hden)
    cases hp : p.formula.eval <;>
      simp [Phrase.formula, Phrase.integer, Formula.eval, Operator.apply, hp, hquotient, bind,
        Except.bind, Except.map]

theorem eval_fraction (q : Rat) : ((Phrase.integer q.num).over q.den).formula.eval = .ok q := by
  rw [eval_over _ q.den_ne_zero]
  exact congrArg Except.ok q.num_div_den

/-! ## Spellings of parts -/

theorem Spells.signed {text rest : List Char} {ts : List Token} (h : Spells rest ts)
    (htext : IsSigned text) (hrest : ∀ c ∈ rest.head?, continuesLiteral c = false) :
    Spells (text ++ rest) (.literal text :: ts) := by
  obtain ⟨c, cs, hcs, hblank, hopen, htake, hdrop⟩ := htext.exists_cut hrest
  rw [hcs, ← htake]
  exact .literal hblank hopen (hdrop.symm ▸ h)

theorem Spells.fraction {q : Rat} {rest : List Char} {ts : List Token} (h : Spells rest ts)
    (hrest : ∀ c ∈ rest.head?, continuesLiteral c = false) :
    Spells ((fractionText q).toList ++ rest)
      (((Phrase.integer q.num).over q.den).tokens ++ ts) := by
  unfold fractionText Phrase.over
  split_ifs
  · exact h.signed (isSigned_toString q.num) hrest
  · have hden := h.signed (isSigned_toString q.den) hrest
    have hslash : ∀ c ∈ ('/' :: ((toString (q.den : Int)).toList ++ rest)).head?,
        continuesLiteral c = false := by
      simp [continuesLiteral]
    have hnum := (Spells.mark hden).signed (isSigned_toString q.num) hslash
    have htext : (toString q.num ++ "/" ++ toString q.den).toList ++ rest =
        (toString q.num).toList ++ '/' :: ((toString (q.den : Int)).toList ++ rest) := by
      rw [String.toList_append, String.toList_append, List.append_assoc, List.append_assoc]
      rfl
    rw [htext]
    exact hnum

end Grammar

namespace Formula

open Grammar

/-- The derivation of the text of a formula. -/
def phrase : Formula → Phrase
  | number q => (Phrase.integer q.num).over q.den
  | binary op left (number q) =>
    .group <|
      if op.binding = Level.prod.rank then
        (Phrase.application op.symbol op left.phrase (.integer q.num)).over q.den
      else .application op.symbol op left.phrase ((Phrase.integer q.num).over q.den)
  | binary op left right => .group (.application op.symbol op left.phrase right.phrase)

theorem exists_phrase_binary_eq_group (op : Operator) (left right : Formula) :
    ∃ inner, (binary op left right).phrase = .group inner := by
  cases right <;> exact ⟨_, rfl⟩

theorem derives_phrase (f : Formula) : Derives .prod f.phrase := by
  have hgroup {inner : Phrase} (h : Derives .sum inner) : Derives .prod (.group inner) :=
    (Derives.group h).mono (by decide)
  induction f with
  | number q => exact ((derives_integer q.num).mono (by decide)).over q.den
  | binary op left right ihl ihr =>
    cases right with
    | number q =>
      apply hgroup
      split_ifs with hop
      · -- The fraction is taken apart, so the operator has an integer on its right.
        obtain ⟨L, hL, h⟩ := exists_derives_application ihl (derives_integer q.num) (binding_lt op)
        rw [Level.eq_of_rank_eq (hL.trans hop)] at h
        exact (h.over q.den).mono (Nat.zero_le _)
      · have hlt : op.binding < Level.prod.rank :=
          Nat.lt_of_le_of_ne (Nat.le_of_lt_succ (binding_lt op)) hop
        exact derives_application ihl ihr hlt
    | binary op' l r =>
      obtain ⟨inner, hinner⟩ := exists_phrase_binary_eq_group op' l r
      have hright : Derives .atom (binary op' l r).phrase := by
        rw [hinner] at ihr ⊢
        exact .group ihr.group_inner
      exact hgroup (derives_application ihl hright (binding_lt op))

theorem tokens_phrase_binary (op : Operator) (left right : Formula) :
    (binary op left right).phrase.tokens =
      .mark '(' ::
        (left.phrase.tokens ++ .mark op.symbol :: right.phrase.tokens ++ [.mark ')']) := by
  cases right with
  | number q =>
    simp only [phrase, Phrase.over]
    split_ifs <;> simp [Phrase.tokens]
  | binary _ _ _ => simp [phrase, Phrase.tokens]

theorem toList_text_binary (op : Operator) (left right : Formula) :
    (binary op left right).text.toList = '(' ::
      (left.text.toList ++ ' ' :: op.symbol :: ' ' :: (right.text.toList ++ [')'])) := by
  simp [text]

theorem spells_text (f : Formula) {rest : List Char} {ts : List Token} (h : Spells rest ts)
    (hrest : ∀ c ∈ rest.head?, continuesLiteral c = false) :
    Spells (f.text.toList ++ rest) (f.phrase.tokens ++ ts) := by
  have hblank : Text.isBlank ' ' = true := by decide
  induction f generalizing rest ts with
  | number q => exact h.fraction hrest
  | binary op left right ihl ihr =>
    have hclose := ihr (Spells.mark (c := ')') h) (by simp [continuesLiteral])
    have hop := Spells.blank hblank (Spells.mark (c := op.symbol) (.blank hblank hclose))
    have hopen := Spells.mark (c := '(') (ihl hop (by simp [continuesLiteral]))
    rw [toList_text_binary, tokens_phrase_binary]
    simpa using hopen

theorem isSentence_text (f : Formula) : IsSentence f.text.toList f.phrase := by
  have hspells := f.spells_text .nil (by simp)
  rw [List.append_nil, List.append_nil] at hspells
  exact ⟨(derives_phrase f).mono (Nat.zero_le _), hspells⟩

theorem read_text (f : Formula) : read f.text.toList = .ok f.phrase.formula :=
  Scan.read_of_sentence (isSentence_text f)

/-! ## What is read -/

theorem formula_phrase {f : Formula} (h : ∀ q ∈ f.leaves, q.den = 1) : f.phrase.formula = f := by
  have hinteger {q : Rat} (hq : q.den = 1) : (q.num : Rat) = q := Rat.den_eq_one_iff q |>.mp hq
  induction f with
  | number q =>
    have hq := h q (by simp [leaves])
    simp [phrase, Phrase.over, Phrase.integer, Phrase.formula, hq, hinteger hq]
  | binary op left right ihl ihr =>
    have hleft := ihl fun q hq => h q (List.mem_append_left _ hq)
    have hright := ihr fun q hq => h q (List.mem_append_right _ hq)
    cases right with
    | number q =>
      have hq := h q (by simp [leaves])
      simp [phrase, Phrase.over, Phrase.integer, Phrase.formula, hq, hinteger hq, hleft]
    | binary op' l r => simp only [phrase, Phrase.formula, hleft] at hright ⊢; simp [hright]

/-- No quotient has a number that is not an integer as its divisor. -/
def DividesByIntegers : Formula → Prop
  | number _ => True
  | binary op left right => left.DividesByIntegers ∧ right.DividesByIntegers ∧
      ∀ q, op = .div → right = .number q → q.den = 1

/-- A product with a fraction is the product with its numerator over its denominator. -/
theorem map_apply_num {op : Operator} {q : Rat} (hop : op.binding = Level.prod.rank)
    (hdiv : op = .div → q.den = 1) (a : Rat) :
    (op.apply a q.num).map (· / (q.den : Rat)) = op.apply a q := by
  cases op with
  | mul =>
    simp only [Operator.apply, Except.map]
    rw [mul_div_assoc, Rat.num_div_den]
  | div =>
    have hq := hdiv rfl
    rw [(Rat.den_eq_one_iff q).mp hq, hq]
    cases Operator.apply .div a q <;> simp [Except.map]
  | add | sub | max | min | pow => exact absurd hop (by decide)

theorem eval_formula_phrase {f : Formula} (h : f.DividesByIntegers) :
    f.phrase.formula.eval = f.eval := by
  induction f with
  | number q => exact eval_fraction q
  | binary op left right ihl ihr =>
    obtain ⟨hl, hr, hdiv⟩ := h
    cases right with
    | number q =>
      simp only [phrase, Phrase.formula, eval]
      split_ifs with hop
      · rw [eval_over _ q.den_ne_zero]
        simp only [Phrase.formula, Phrase.integer, eval, ihl hl]
        cases left.eval with
        | error fault => rfl
        | ok a => exact map_apply_num hop (fun h => hdiv q h rfl) a
      · simp only [Phrase.formula, eval, ihl hl, eval_fraction]
    | binary op' l r =>
      simp only [phrase, Phrase.formula, eval, ihl hl] at ihr ⊢
      rw [ihr hr]

/-- A formula of integers is read back from its text. Any other formula has the value, or the fault,
of its text, unless a fraction is a divisor. -/
theorem text_keeps_meaning (f : Formula) :
    ((∀ q ∈ f.leaves, q.den = 1) → read f.text.toList = .ok f) ∧
      (f.DividesByIntegers → evaluate f.text.toList = f.eval.mapError .arithmetic) := by
  constructor
  · intro hleaves
    rw [read_text, formula_phrase hleaves]
  · intro hdivisors
    rw [evaluate, read_text]
    exact congrArg (Except.mapError _) (eval_formula_phrase hdivisors)

theorem text_keeps_meaning_of_signs_and_fractions :
    (∀ q ∈ (binary .sub (number (-3)) (number (-4))).leaves, q.den = 1) ∧
      read "(-3 - -4)".toList = .ok (binary .sub (number (-3)) (number (-4))) ∧
    (binary .mul (number (1 / 2)) (number (-2 / 3))).DividesByIntegers ∧
      evaluate "(1/2 * -2/3)".toList = .ok (-1 / 3) := by
  have hleaves : ∀ q ∈ (binary .sub (number (-3)) (number (-4))).leaves, q.den = 1 := by decide
  have hdivisors : (binary .mul (number (1 / 2)) (number (-2 / 3))).DividesByIntegers :=
    ⟨trivial, trivial, fun q hop => absurd hop (by decide)⟩
  have hdifference : (binary .sub (number (-3)) (number (-4))).text = "(-3 - -4)" := by
    decide +kernel
  have hproduct : (binary .mul (number (1 / 2)) (number (-2 / 3))).text = "(1/2 * -2/3)" := by
    decide +kernel
  have hvalue : (binary .mul (number (1 / 2)) (number (-2 / 3))).eval = .ok (-1 / 3) := by
    decide +kernel
  have hread := (text_keeps_meaning _).1 hleaves
  have hevaluate := (text_keeps_meaning _).2 hdivisors
  rw [hdifference] at hread
  rw [hproduct, hvalue] at hevaluate
  exact ⟨hleaves, hread, hdivisors, hevaluate⟩

/-- A fraction as a divisor is read as a divisor and one more quotient. -/
example : evaluate (binary .div (number 1) (number (1 / 2))).text.toList = .ok (1 / 2) ∧
    (binary .div (number 1) (number (1 / 2))).eval = .ok 2 := by
  constructor
  · cbv
  · decide +kernel

end Formula

end FormulaSearch
