import FormulaSearch.Genome.Variation
import FormulaSearch.Model.Basic
import FormulaSearch.Proofs.Genome.FeatureText

/-!
# What a genome spells

The text of a genome is one word for each gene. The words of the last three genes run together: a
minus at the start of one of them becomes an operator, and otherwise their digits and points merge
into one literal.
-/

namespace FormulaSearch

theorem mapM_eq_ok {α β ε : Type} {f : α → Except ε β} {h : α → β} {as : List α}
    (has : ∀ a ∈ as, f a = .ok (h a)) : as.mapM f = .ok (as.map h) := by
  induction as with
  | nil => rfl
  | cons a as ih =>
    have ha := has a (by simp)
    have hlater := ih fun b hb => has b (List.mem_cons_of_mem a hb)
    rw [List.mapM_cons, ha, hlater]
    rfl

theorem mapM_eq_error {α β ε : Type} {f : α → Except ε β} {as : List α} {e : ε} {n : Nat}
    (hn : n < as.length) (hfront : ∀ m (hm : m < n), ∃ b, f (as[m]) = .ok b)
    (he : f as[n] = .error e) : as.mapM f = .error e := by
  induction as generalizing n with
  | nil => exact absurd hn (Nat.not_lt_zero n)
  | cons a as ih =>
    rw [List.mapM_cons]
    cases n with
    | zero =>
      have he : f a = .error e := he
      rw [he]
      rfl
    | succ n =>
      obtain ⟨b, hb⟩ := hfront 0 (Nat.succ_pos n)
      have hb : f a = .ok b := hb
      have hlater := ih (n := n) (Nat.lt_of_succ_lt_succ hn)
        (fun m hm => hfront (m + 1) (Nat.succ_lt_succ hm)) he
      rw [hb, hlater]
      rfl

namespace Genome

def named? (g : Genome) (i : Fin 15) : Option Piece := (vocabulary i)[(g.genes.get i).toNat]?

def InVocabulary (g : Genome) : Prop := ∀ i : Fin 15, (g.genes.get i).toNat < (vocabulary i).length

instance (g : Genome) : Decidable g.InVocabulary :=
  inferInstanceAs (Decidable (∀ i : Fin 15, (g.genes.get i).toNat < (vocabulary i).length))

def RefersTo (g : Genome) (k : Fin 4) : Prop := ∃ i, g.named? i = some (.feature k)

def word (texts : Vector (List Char) 4) (g : Genome) (i : Fin 15) : List Char :=
  ((g.named? i).map (Piece.text texts)).getD []

theorem word_of_named {texts : Vector (List Char) 4} {g : Genome} {i : Fin 15} {p : Piece}
    (h : g.named? i = some p) : g.word texts i = p.text texts := by
  simp [word, h]

theorem InVocabulary.exists_named {g : Genome} (h : g.InVocabulary) (i : Fin 15) :
    ∃ p, g.named? i = some p ∧ p ∈ vocabulary i :=
  ⟨_, List.getElem?_eq_getElem (h i), List.getElem_mem (h i)⟩

theorem zipIdx_toList (g : Genome) :
    g.toList.zipIdx = (List.finRange 15).map fun i => (g.genes.get i, i.val) := by
  apply List.ext_getElem
  · simp
  · intro n h1 h2
    simp [toList, Vector.get]

theorem pieces_eq_mapM (g : Genome) :
    g.pieces = (List.finRange 15).mapM fun i : Fin 15 => pieceAt i (g.genes.get i) := by
  rw [pieces, zipIdx_toList, List.mapM_map]
  rfl

theorem pieceAt_of_named {g : Genome} {i : Fin 15} {p : Piece} (h : g.named? i = some p) :
    pieceAt i (g.genes.get i) = .ok p := by
  have h : (vocabulary i)[(g.genes.get i).toNat]? = some p := h
  simp only [pieceAt, h]

theorem InVocabulary.exists_pieces {g : Genome} (hg : g.InVocabulary) :
    ∃ piece : Fin 15 → Piece, (∀ i, g.named? i = some (piece i)) ∧
      g.pieces = .ok ((List.finRange 15).map piece) := by
  choose piece hpiece _ using hg.exists_named
  refine ⟨piece, hpiece, ?_⟩
  rw [pieces_eq_mapM]
  exact mapM_eq_ok fun i _ => pieceAt_of_named (hpiece i)

theorem vocabulary_length (i : Nat) :
    (vocabulary i).length = if i % 2 = 1 ∧ i < 12 then 7 else 8 := by
  unfold vocabulary tailStart
  by_cases h : i % 2 = 1 ∧ i < 12
  · simp [h, Operator.all]
  · have : ¬ (i % 2 = 1 && decide (i < 12)) = true := by simpa using h
    rw [if_neg this, if_neg h]
    rfl

theorem pieces_eq_error {g : Genome} {i : Fin 15}
    (hfront : ∀ j < i, (g.genes.get j).toNat < (vocabulary j).length)
    (hi : (vocabulary i).length ≤ (g.genes.get i).toNat) :
    g.pieces = .error ⟨i, g.genes.get i⟩ := by
  have herror : pieceAt i (g.genes.get i) = .error ⟨i, g.genes.get i⟩ := by
    rw [pieceAt, List.getElem?_eq_none_iff.mpr hi]
  rw [pieces_eq_mapM]
  refine mapM_eq_error (n := i.val) (by simp) ?_ ?_
  · intro m hm
    have hlt := hfront ⟨m, hm.trans i.isLt⟩ hm
    obtain ⟨p, hp⟩ : ∃ p, g.named? ⟨m, hm.trans i.isLt⟩ = some p :=
      ⟨_, List.getElem?_eq_getElem hlt⟩
    refine ⟨p, ?_⟩
    rw [List.getElem_finRange]
    exact pieceAt_of_named hp
  · rw [List.getElem_finRange]
    exact herror

theorem spell_eq_ok {g : Genome} (hg : g.InVocabulary) (texts : Vector (List Char) 4) :
    g.spell texts = .ok ((List.finRange 15).flatMap (g.word texts)) := by
  obtain ⟨piece, hpiece, hpieces⟩ := hg.exists_pieces
  have hword : g.word texts = fun i => (piece i).text texts :=
    funext fun i => word_of_named (hpiece i)
  rw [spell, hpieces, hword]
  simp only [bind, Except.bind, pure, Except.pure, List.flatMap_map]

/-! ## The words of genes -/

def operatorAt (g : Genome) (i : Fin 15) : Operator := Operator.all.getD (g.genes.get i).toNat .add

theorem named?_of_operator {g : Genome} (hg : g.InVocabulary) {i : Fin 15} (hodd : i.val % 2 = 1)
    (hi : i.val < 12) : g.named? i = some (.operator (g.operatorAt i)) ∧
      Operator.all[(g.genes.get i).toNat]? = some (g.operatorAt i) := by
  have hvocabulary : vocabulary i = Operator.all.map .operator := by
    simp [vocabulary, tailStart, hodd, hi]
  have hlength : (g.genes.get i).toNat < Operator.all.length := by
    have := hg i
    rwa [hvocabulary, List.length_map] at this
  have hop : Operator.all[(g.genes.get i).toNat]? = some (g.operatorAt i) := by
    rw [operatorAt, List.getD_eq_getElem?_getD, List.getElem?_eq_getElem hlength]
    rfl
  refine ⟨?_, hop⟩
  rw [named?, hvocabulary, List.getElem?_map, hop]
  rfl

def IsOperandPosition (i : Fin 15) : Prop := i.val % 2 = 0 ∨ 12 ≤ i.val

instance (i : Fin 15) : Decidable (IsOperandPosition i) :=
  inferInstanceAs (Decidable (_ ∨ _))

theorem InVocabulary.exists_operand {g : Genome} (hg : g.InVocabulary) {i : Fin 15}
    (hi : IsOperandPosition i) : (∃ k, g.named? i = some (.feature k)) ∨
      ∃ l, g.named? i = some (.literal l) := by
  have hvocabulary : vocabulary i = Piece.operands := by
    have : ¬ (i.val % 2 = 1 ∧ i.val < tailStart) := by
      unfold IsOperandPosition at hi
      unfold tailStart
      omega
    simp only [vocabulary, Bool.and_eq_true, decide_eq_true_eq, if_neg this]
  obtain ⟨p, hp, hmem⟩ := hg.exists_named i
  rw [hvocabulary] at hmem
  cases p with
  | feature k => exact .inl ⟨k, hp⟩
  | literal l => exact .inr ⟨l, hp⟩
  | operator op => simp [Piece.operands] at hmem

theorem word_of_feature {r : Row} {g : Genome} {i : Fin 15} {k : Fin 4}
    (h : g.named? i = some (.feature k)) :
    g.word r.texts i = (r.features.get k).featureText := by
  rw [word_of_named h]
  simp [Piece.text, Row.texts, Vector.get]

theorem Literal.isSigned_text (l : Literal) : IsSigned l.text ∧ l.text.count '.' ≤ 1 := by
  have h : l.text.all Scan.continuesLiteral = true ∧ l.text.any Char.isDigit = true ∧
      l.text.count '.' ≤ 1 := by
    cases l <;> decide
  exact ⟨.inl ⟨List.all_eq_true.mp h.1, List.any_eq_true.mp h.2.1⟩, h.2.2⟩

/-- Where all features are plain, every operand is a literal. -/
theorem isSigned_word {g : Genome} (hg : g.InVocabulary) {r : Row}
    (hplain : ∀ k, g.RefersTo k → (r.features.get k).IsPlain) {i : Fin 15}
    (hi : IsOperandPosition i) :
    IsSigned (g.word r.texts i) ∧ (g.word r.texts i).count '.' ≤ 1 := by
  rcases hg.exists_operand hi with ⟨k, hk⟩ | ⟨l, hl⟩
  · obtain ⟨hsigned, hcount⟩ := (hplain k ⟨i, hk⟩).isSigned_featureText
    rw [word_of_feature hk]
    exact ⟨hsigned, hcount.le⟩
  · rw [word_of_named hl]
    exact Literal.isSigned_text l

theorem length_word_le {g : Genome} (hg : g.InVocabulary) {r : Row}
    (hplain : ∀ k, g.RefersTo k → (r.features.get k).IsPlain) {i : Fin 15}
    (hi : IsOperandPosition i) : (g.word r.texts i).length ≤ 10000 := by
  rcases hg.exists_operand hi with ⟨k, hk⟩ | ⟨l, hl⟩
  · rw [word_of_feature hk]
    exact (hplain k ⟨i, hk⟩).length_featureText_le
  · have hshort : l.text.length ≤ 10000 := by cases l <;> decide
    rw [word_of_named hl]
    exact hshort

theorem plain_of_mem_word {g : Genome} {r : Row} {i : Fin 15} {c : Char}
    (hc : c ∈ g.word r.texts i) : Text.isBlank c = false ∧ c ≠ ')' := by
  cases hp : g.named? i with
  | none => simp [word, hp] at hc
  | some p =>
    cases p with
    | feature k =>
      rw [word_of_feature hp] at hc
      exact (Binary64.isFeatureChar_of_mem_featureText hc).plain
    | literal l =>
      rw [word_of_named hp] at hc
      have hall : ∀ d ∈ l.text, Text.isBlank d = false ∧ d ≠ ')' :=
        List.all_iff_forall_prop.mp (by cases l <;> decide)
      exact hall c hc
    | operator op =>
      rw [word_of_named hp] at hc
      obtain rfl : c = op.symbol := by simpa [Piece.text] using hc
      cases op <;> decide

/-! ## Words that run together -/

/-- Words that run together, cut at each minus that starts one of them after the first. -/
def cutAtSigns : List Char → List (List Char) → List (List Char)
  | current, [] => [current]
  | current, ('-' :: unsigned) :: rest => current :: cutAtSigns unsigned rest
  | current, next :: rest => cutAtSigns (current ++ next) rest

/-- Cutting loses only the signs, and cuts once for each word with one. -/
theorem exists_cutAtSigns (current : List Char) (rest : List (List Char)) :
    ∃ text texts, cutAtSigns current rest = text :: texts ∧
      current ++ rest.flatten = text ++ texts.flatMap ('-' :: ·) ∧
      texts.length = rest.countP fun w => w.head? = some '-' := by
  fun_induction cutAtSigns current rest with
  | case1 current => exact ⟨current, [], rfl, by simp, rfl⟩
  | case2 current unsigned rest ih =>
    obtain ⟨text, texts, hcut, htext, hlength⟩ := ih
    refine ⟨current, text :: texts, by rw [hcut], ?_, ?_⟩
    · simp only [List.flatten_cons, List.cons_append, List.flatMap_cons, htext]
    · simp [hlength]
  | case3 current next rest hnext ih =>
    obtain ⟨text, texts, hcut, htext, hlength⟩ := ih
    refine ⟨text, texts, hcut, by simpa using htext, ?_⟩
    have hhead : next.head? ≠ some '-' := by
      intro hhead
      obtain ⟨unsigned, rfl⟩ := List.head?_eq_some_iff.mp hhead
      exact hnext unsigned rfl
    rw [hlength, List.countP_cons_of_neg (by simpa using hhead)]

theorem length_le_of_mem_cutAtSigns {current : List Char} {rest : List (List Char)} :
    ∀ text ∈ cutAtSigns current rest, text.length ≤ current.length + rest.flatten.length := by
  fun_induction cutAtSigns current rest with
  | case1 current => simp
  | case2 current unsigned rest ih =>
    intro text htext
    rw [List.flatten_cons, List.length_append, List.length_cons]
    rcases List.mem_cons.mp htext with rfl | htext
    · exact Nat.le_add_right _ _
    · have := ih text htext
      omega
  | case3 current next rest _ ih =>
    intro text htext
    have := ih text htext
    rw [List.length_append] at this
    rw [List.flatten_cons, List.length_append]
    omega

theorem isSigned_of_mem_cutAtSigns {current : List Char} {rest : List (List Char)}
    (hcurrent : IsSigned current) (hrest : ∀ w ∈ rest, IsSigned w) :
    ∀ text ∈ cutAtSigns current rest, IsSigned text := by
  fun_induction cutAtSigns current rest with
  | case1 current => simpa using hcurrent
  | case2 current unsigned rest ih =>
    have hunsigned : IsSigned unsigned := by
      rcases hrest _ List.mem_cons_self with h | ⟨us, heq, h⟩
      · exact absurd (h.1 '-' (by simp)) (by decide)
      · obtain rfl : unsigned = us := by simpa using heq
        exact .inl h
    intro text htext
    rcases List.mem_cons.mp htext with rfl | htext
    · exact hcurrent
    · exact ih hunsigned (fun w hw => hrest w (List.mem_cons_of_mem _ hw)) text htext
  | case3 current next rest hnext ih =>
    have hnumeric : IsNumeric next := by
      rcases hrest next (by simp) with h | ⟨us, rfl, -⟩
      · exact h
      · exact absurd rfl (hnext us)
    exact ih (hcurrent.append hnumeric) fun w hw => hrest w (List.mem_cons_of_mem next hw)

end Genome

end FormulaSearch
