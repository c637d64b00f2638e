import FormulaSearch.Proofs.Genome.Spelling

/-!
# Which rows a genome has a formula for

The text of a genome on a row is a chain of literals unless a feature that it refers to is not
plain. So whether it is read depends on these features and on the points of its last three words.
-/

namespace FormulaSearch.Genome

open Grammar (chainText)
open Scan (isReadable IsLexical)

variable {texts : Vector (List Char) 4} {g : Genome} {r : Row}

def tailWord (texts : Vector (List Char) 4) (g : Genome) (k : Fin 3) : List Char :=
  g.word texts (k.natAdd 12)

/-- Two of the words at the end have a point, and none after the first of the two up to the second
starts with a minus. -/
def TailClashes (texts : Vector (List Char) 4) (g : Genome) : Prop :=
  ∃ i j : Fin 3, i < j ∧ '.' ∈ g.tailWord texts i ∧ '.' ∈ g.tailWord texts j ∧
    ∀ k, i < k → k ≤ j → (g.tailWord texts k).head? ≠ some '-'

/-- The words at the end that start with a minus, the first of them apart. -/
def tailSigns (texts : Vector (List Char) 4) (g : Genome) : Nat :=
  [g.tailWord texts 1, g.tailWord texts 2].countP fun w => w.head? = some '-'

/-- The literals into which the words at the end are cut at these signs. -/
def tailLiterals (texts : Vector (List Char) 4) (g : Genome) : List (List Char) :=
  cutAtSigns (g.tailWord texts 0) [g.tailWord texts 1, g.tailWord texts 2]

theorem cutAtSigns_merge {next : List Char} (h : next.head? ≠ some '-') (current : List Char)
    (rest : List (List Char)) :
    cutAtSigns current (next :: rest) = cutAtSigns (current ++ next) rest := by
  rw [cutAtSigns]
  rintro unsigned rfl
  exact h rfl

/-- Where none of three words has two points, a literal with two points comes from two words with
no sign between them. -/
theorem count_cutAtSigns_le_iff {p q r : List Char} (hp : p.count '.' ≤ 1) (hq : q.count '.' ≤ 1)
    (hr : r.count '.' ≤ 1) : (∀ text ∈ cutAtSigns p [q, r], text.count '.' ≤ 1) ↔
      ¬ ('.' ∈ p ∧ '.' ∈ q ∧ q.head? ≠ some '-') ∧ ¬ ('.' ∈ q ∧ '.' ∈ r ∧ r.head? ≠ some '-') ∧
        ¬ ('.' ∈ p ∧ '.' ∈ r ∧ q.head? ≠ some '-' ∧ r.head? ≠ some '-') := by
  have hunsigned (us : List Char) : ('-' :: us).count '.' = us.count '.' :=
    List.count_cons_of_ne (by decide)
  simp only [← List.count_pos_iff (a := '.')]
  have hnil : (∀ text ∈ ([] : List (List Char)), text.count '.' ≤ 1) ↔ True := by simp
  by_cases hqs : q.head? = some '-' <;> by_cases hrs : r.head? = some '-'
  · obtain ⟨us, rfl⟩ := List.head?_eq_some_iff.mp hqs
    obtain ⟨vs, rfl⟩ := List.head?_eq_some_iff.mp hrs
    have hcut : cutAtSigns p ['-' :: us, '-' :: vs] = [p, us, vs] := rfl
    rw [hunsigned] at hq hr
    simp [hcut, hp, hq, hr]
  · obtain ⟨us, rfl⟩ := List.head?_eq_some_iff.mp hqs
    have hcut : cutAtSigns p ['-' :: us, r] = [p, us ++ r] := by
      rw [cutAtSigns, cutAtSigns_merge hrs, cutAtSigns]
    rw [hunsigned] at hq
    simp only [hcut, List.forall_mem_cons, hnil, List.count_append, hunsigned, hrs, List.head?_cons,
      ne_eq, not_true_eq_false, and_false, not_false_eq_true, and_true, true_and]
    omega
  · obtain ⟨vs, rfl⟩ := List.head?_eq_some_iff.mp hrs
    have hcut : cutAtSigns p [q, '-' :: vs] = [p ++ q, vs] := by
      rw [cutAtSigns_merge hqs, cutAtSigns, cutAtSigns]
    rw [hunsigned] at hr
    simp only [hcut, List.forall_mem_cons, hnil, List.count_append, hunsigned, hqs, List.head?_cons,
      ne_eq, not_true_eq_false, and_false, not_false_eq_true, and_true]
    omega
  · have hcut : cutAtSigns p [q, r] = [p ++ q ++ r] := by
      rw [cutAtSigns_merge hqs, cutAtSigns_merge hrs, cutAtSigns]
    simp only [hcut, List.forall_mem_cons, hnil, List.count_append, hqs, hrs, ne_eq,
      not_false_eq_true, and_true]
    omega

theorem tailClashes_iff : g.TailClashes texts ↔
    ('.' ∈ g.tailWord texts 0 ∧ '.' ∈ g.tailWord texts 1 ∧
      (g.tailWord texts 1).head? ≠ some '-') ∨
    ('.' ∈ g.tailWord texts 1 ∧ '.' ∈ g.tailWord texts 2 ∧
      (g.tailWord texts 2).head? ≠ some '-') ∨
    ('.' ∈ g.tailWord texts 0 ∧ '.' ∈ g.tailWord texts 2 ∧
      (g.tailWord texts 1).head? ≠ some '-' ∧ (g.tailWord texts 2).head? ≠ some '-') := by
  unfold TailClashes
  simp [Fin.exists_fin_succ, Fin.forall_fin_succ]
  tauto

/-- Where the last words are literals, they do not clash exactly if what they are cut into has no
literal with two points. -/
theorem count_tailLiterals_le_iff (hcount : ∀ k, (g.tailWord texts k).count '.' ≤ 1) :
    (∀ text ∈ g.tailLiterals texts, text.count '.' ≤ 1) ↔ ¬ g.TailClashes texts := by
  rw [tailLiterals, count_cutAtSigns_le_iff (hcount 0) (hcount 1) (hcount 2), tailClashes_iff]
  tauto

/-! ## The chain of a genome -/

/-- The operators of a genome with the literals after them, where its last words are cut into the
given literals. -/
def links (texts : Vector (List Char) 4) (g : Genome) (text : List Char)
    (later : List (List Char)) : List (Operator × List Char) :=
  ([1, 3, 5, 7, 9].map fun i : Fin 15 => (g.operatorAt i, g.word texts (i + 1))) ++
    (g.operatorAt 11, text) :: later.map fun unsigned => (.sub, unsigned)

theorem operators_links (texts : Vector (List Char) 4) (g : Genome) (text : List Char)
    (later : List (List Char)) : (g.links texts text later).map Prod.fst =
      [1, 3, 5, 7, 9, 11].map g.operatorAt ++ List.replicate later.length .sub := by
  simp [links, Function.comp_def]

theorem literals_links (texts : Vector (List Char) 4) (g : Genome) (text : List Char)
    (later : List (List Char)) : g.word texts 0 :: (g.links texts text later).map Prod.snd =
      [0, 2, 4, 6, 8, 10].map (g.word texts) ++ text :: later := by
  simp [links, Function.comp_def]

theorem flatMap_word_eq_chainText (hg : g.InVocabulary) {text : List Char}
    {later : List (List Char)}
    (htext : g.tailWord texts 0 ++ [g.tailWord texts 1, g.tailWord texts 2].flatten =
      text ++ later.flatMap ('-' :: ·)) :
    (List.finRange 15).flatMap (g.word texts) =
      chainText (g.word texts 0) (g.links texts text later) := by
  have hop (i : Fin 15) (hodd : i.val % 2 = 1) (hi : i.val < 12) :
      g.word texts i = [(g.operatorAt i).symbol] :=
    word_of_named (named?_of_operator hg hodd hi).1
  have htail : g.word texts 12 ++ (g.word texts 13 ++ g.word texts 14) =
      text ++ later.flatMap ('-' :: ·) := by
    simpa [tailWord] using htext
  have hfinRange : List.finRange 15 = [0, 1, 2, 3, 4, 5, 6, 7, 8, 9, 10, 11, 12, 13, 14] := rfl
  have hsub : Operator.sub.symbol = '-' := rfl
  rw [hfinRange]
  simp only [List.flatMap_cons, List.flatMap_nil, List.append_nil, htail]
  rw [hop 1 (by decide) (by decide), hop 3 (by decide) (by decide), hop 5 (by decide) (by decide),
    hop 7 (by decide) (by decide), hop 9 (by decide) (by decide), hop 11 (by decide) (by decide)]
  simp [chainText, links, List.flatMap_map, hsub]

theorem isOperandPosition_of_mem :
    ∀ i ∈ ([0, 2, 4, 6, 8, 10] : List (Fin 15)), IsOperandPosition i := by decide

theorem isSigned_literals (hg : g.InVocabulary)
    (hplain : ∀ k, g.RefersTo k → (r.features.get k).IsPlain) :
    ∀ text ∈ [0, 2, 4, 6, 8, 10].map (g.word r.texts) ++
      g.tailLiterals r.texts, IsSigned text ∧ text.length ≤ Decimal.maxPlaces := by
  intro text htext
  rcases List.mem_append.mp htext with htext | htext
  · obtain ⟨i, hi, rfl⟩ := List.mem_map.mp htext
    have hposition := isOperandPosition_of_mem i hi
    exact ⟨(isSigned_word hg hplain hposition).1,
      (length_word_le hg hplain hposition).trans (by decide)⟩
  · have htail (k : Fin 3) : IsSigned (g.tailWord r.texts k) :=
      (isSigned_word hg hplain (.inr (by simp))).1
    have hlength (k : Fin 3) : (g.tailWord r.texts k).length ≤ 10000 :=
      length_word_le hg hplain (.inr (by simp))
    constructor
    · refine isSigned_of_mem_cutAtSigns (htail 0) ?_ text htext
      intro w hw
      rcases List.mem_cons.mp hw with rfl | hw
      · exact htail 1
      · rw [List.mem_singleton.mp hw]
        exact htail 2
    · have htotal := length_le_of_mem_cutAtSigns text htext
      rw [List.flatten_cons, List.flatten_singleton, List.length_append] at htotal
      have := hlength 0
      have := hlength 1
      have := hlength 2
      exact htotal.trans (le_trans (b := 30000) (by omega) (by decide))

theorem read_of_plain (hg : g.InVocabulary)
    (hplain : ∀ k, g.RefersTo k → (r.features.get k).IsPlain) :
    (g.TailClashes r.texts ∧ ∃ text,
      Formula.read ((List.finRange 15).flatMap (g.word r.texts)) =
        .error (.invalidLiteral text)) ∨
    ¬ g.TailClashes r.texts ∧ ∃ f,
      Formula.read ((List.finRange 15).flatMap (g.word r.texts)) = .ok f ∧
      f.operators = [1, 3, 5, 7, 9, 11].map g.operatorAt ++
        List.replicate (g.tailSigns r.texts) .sub ∧
      f.leaves.map some = ([0, 2, 4, 6, 8, 10].map (g.word r.texts) ++
        g.tailLiterals r.texts).map decimal? := by
  obtain ⟨text, later, hcut, htext, hlength⟩ := exists_cutAtSigns
    (g.tailWord r.texts 0)
    [g.tailWord r.texts 1, g.tailWord r.texts 2]
  have htail : g.tailLiterals r.texts = text :: later := hcut
  have hliterals := literals_links r.texts g text later
  have hsigned := isSigned_literals hg hplain
  have hcount (k : Fin 3) : (g.tailWord r.texts k).count '.' ≤ 1 :=
    (isSigned_word hg hplain (.inr (by simp))).2
  have hclash := count_tailLiterals_le_iff hcount
  rw [flatMap_word_eq_chainText hg htext]
  rw [htail] at hsigned hclash ⊢
  rw [← hliterals] at hsigned ⊢
  rcases Formula.read_chain hsigned with ⟨bad, hbad, htwo, herror⟩ | ⟨hall, f, hf, hops, hleaves⟩
  · refine .inl ⟨?_, bad, herror⟩
    by_contra hno
    rw [hliterals] at hbad
    rcases List.mem_append.mp hbad with hbad | hbad
    · obtain ⟨i, hi, rfl⟩ := List.mem_map.mp hbad
      have := (isSigned_word hg hplain (isOperandPosition_of_mem i hi)).2
      omega
    · have := hclash.mpr hno bad hbad
      omega
  · refine .inr ⟨hclash.mp fun t ht => hall t ?_, f, hf, ?_, hleaves⟩
    · rw [hliterals]
      exact List.mem_append_right _ ht
    · rw [hops, operators_links, hlength]
      rfl

theorem read_of_not_plain {k : Fin 4} (hk : g.RefersTo k) (hplain : ¬ (r.features.get k).IsPlain) :
    ∃ e, Formula.read ((List.finRange 15).flatMap (g.word r.texts)) = .error e ∧
      IsLexical e := by
  obtain ⟨i, hi⟩ := hk
  obtain ⟨c, hc, hunreadable⟩ := Binary64.exists_unreadable_of_not_isPlain hplain
  rw [← word_of_feature hi] at hc
  refine Formula.read_of_unreadable ?_ (List.mem_flatMap.mpr ⟨i, List.mem_finRange i, hc⟩)
    hunreadable
  intro d hd
  obtain ⟨j, -, hd⟩ := List.mem_flatMap.mp hd
  exact plain_of_mem_word hd

theorem read_words_cases (hg : g.InVocabulary) :
    (¬ ((∀ k, g.RefersTo k → (r.features.get k).IsPlain) ∧ ¬ g.TailClashes r.texts) ∧
      ∃ e, Formula.read ((List.finRange 15).flatMap (g.word r.texts)) = .error e ∧
        IsLexical e) ∨
    ((∀ k, g.RefersTo k → (r.features.get k).IsPlain) ∧ ¬ g.TailClashes r.texts) ∧
      ∃ f, Formula.read ((List.finRange 15).flatMap (g.word r.texts)) = .ok f ∧
        f.operators = [1, 3, 5, 7, 9, 11].map g.operatorAt ++
          List.replicate (g.tailSigns r.texts) .sub ∧
        f.leaves.map some = ([0, 2, 4, 6, 8, 10].map (g.word r.texts) ++
          g.tailLiterals r.texts).map decimal? := by
  by_cases hplain : ∀ k, g.RefersTo k → (r.features.get k).IsPlain
  · rcases read_of_plain hg hplain with ⟨hclash, text, herror⟩ | ⟨hclash, hread⟩
    · exact .inl ⟨fun h => h.2 hclash, _, herror, .inl ⟨text, rfl⟩⟩
    · exact .inr ⟨⟨hplain, hclash⟩, hread⟩
  · obtain ⟨k, hk⟩ := not_forall.mp hplain
    obtain ⟨hrefers, hk⟩ := Classical.not_imp.mp hk
    exact .inl ⟨fun h => hplain h.1, read_of_not_plain hrefers hk⟩

/-- The text of a genome on a row is a formula exactly if every feature it refers to is plain and
its last words do not clash. The formula has the six operators of the genome and a subtraction for
each sign among the last words; its numbers are the operands between them. Every other text has a
lexical fault. -/
theorem read_spell (g : Genome) (r : Row) (hg : g.InVocabulary) :
    ∃ cs, g.spell r.texts = .ok cs ∧
      ((∃ f, Formula.read cs = .ok f) ↔ (∀ k, g.RefersTo k → (r.features.get k).IsPlain) ∧
        ¬ g.TailClashes r.texts) ∧
      (∀ f, Formula.read cs = .ok f →
        f.operatorCount = 6 + g.tailSigns r.texts ∧
        f.operators = [1, 3, 5, 7, 9, 11].map g.operatorAt ++
          List.replicate (g.tailSigns r.texts) .sub ∧
        f.leaves.map some = ([0, 2, 4, 6, 8, 10].map (g.word r.texts) ++
          g.tailLiterals r.texts).map decimal?) ∧
      ∀ e, Formula.read cs = .error e →
        (∃ text, e = .invalidLiteral text) ∨ ∃ c, e = .unknownOperator c := by
  refine ⟨_, spell_eq_ok hg _, ?_⟩
  rcases read_words_cases hg with ⟨hno, e, herror, hlexical⟩ | ⟨hyes, f, hf, hops, hleaves⟩
  · rw [herror]
    refine ⟨⟨?_, fun hyes => absurd hyes hno⟩, ?_, ?_⟩
    · intro ⟨f, hf⟩
      cases hf
    · intro f hf
      cases hf
    · intro e' he'
      cases he'
      exact hlexical
  · rw [hf]
    refine ⟨⟨fun _ => hyes, fun _ => ⟨f, rfl⟩⟩, ?_, ?_⟩
    · intro f' hf'
      cases hf'
      refine ⟨?_, hops, hleaves⟩
      rw [← Formula.length_operators, hops]
      simp
      omega
    · intro e he
      cases he

/-- The text of this genome on the row is `1+1*1+1+1+1p1.5-2.0-0.25`. -/
def exampleGenome : Genome := ⟨#v[4, 0, 4, 2, 4, 0, 4, 0, 4, 0, 4, 6, 0, 1, 2]⟩

def exampleRow : Row :=
  .ofColumns ⟨0⟩ ⟨0x3FF8000000000000⟩ ⟨0xC000000000000000⟩ ⟨0xBFD0000000000000⟩ ⟨0⟩ ⟨0⟩

theorem read_spell_example : exampleGenome.InVocabulary ∧
    ∃ cs f, exampleGenome.spell exampleRow.texts = .ok cs ∧ Formula.read cs = .ok f ∧
      f.operatorCount = 8 ∧ f.operators = [.add, .mul, .add, .add, .add, .pow, .sub, .sub] := by
  have hg : exampleGenome.InVocabulary := by decide
  obtain ⟨cs, hcs, hread, hok, -⟩ := read_spell exampleGenome exampleRow hg
  have hplain : ∀ k : Fin 4, (exampleRow.features.get k).IsPlain := by
    simp only [Binary64.isPlain_iff]
    decide +kernel
  have hclash : ¬ exampleGenome.TailClashes exampleRow.texts := by
    unfold TailClashes
    decide +kernel
  obtain ⟨f, hf⟩ := hread.mpr ⟨fun k _ => hplain k, hclash⟩
  obtain ⟨hcount, hops, -⟩ := hok f hf
  have hsigns : exampleGenome.tailSigns exampleRow.texts = 2 := by decide +kernel
  rw [hsigns] at hcount hops
  refine ⟨hg, cs, f, hcs, hf, hcount, ?_⟩
  rw [hops]
  decide +kernel

end FormulaSearch.Genome
