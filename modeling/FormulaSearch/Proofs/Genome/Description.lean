import FormulaSearch.Proofs.Genome.Spelling

/-!
# Descriptions

The description of a genome is its text with letters for the features. It has a text on a row
exactly if it has a description, and that text is the description with the features put in. No two
genomes have the same description, though nothing separates the last three operands.
-/

namespace FormulaSearch

def letters : Vector (List Char) 4 := #v["a".toList, "b".toList, "c".toList, "d".toList]

def substituted (texts : Vector (List Char) 4) (c : Char) : List Char :=
  if c = 'a' then texts[0] else if c = 'b' then texts[1] else if c = 'c' then texts[2]
  else if c = 'd' then texts[3] else [c]

namespace Piece

theorem text_eq_flatMap (texts : Vector (List Char) 4) (p : Piece) :
    p.text texts = (p.text letters).flatMap (substituted texts) := by
  rcases p with i | l | op
  · fin_cases i <;> simp [text, letters, substituted]
  · cases l <;> simp [text, Literal.text, substituted]
  · cases op <;> simp [text, Operator.symbol, substituted]

/-! ## Cutting a description into pieces -/

/-- The piece whose text is the one character. -/
def ofChar? (c : Char) : Option Piece :=
  (operands ++ Operator.all.map operator).find? fun p => p.text letters = [c]

/-- The first piece of a description, and what follows it. A zero is a piece of its own unless a
point follows it, since no piece begins with a point. -/
def first? : List Char → Option (Piece × List Char)
  | '0' :: '.' :: '3' :: '3' :: '3' :: cs => some (.literal .third, cs)
  | '0' :: '.' :: '6' :: '6' :: '6' :: cs => some (.literal .twoThirds, cs)
  | c :: cs => (ofChar? c).map fun p => (p, cs)
  | [] => none

theorem first?_cons (c : Char) {cs : List Char} (h : cs.head? ≠ some '.') :
    first? (c :: cs) = (ofChar? c).map fun p => (p, cs) := by
  unfold first?
  split
  · next heq =>
    cases heq
    simp at h
  · next heq =>
    cases heq
    simp at h
  · next heq =>
    cases heq
    rfl
  · next heq => cases heq

/-- The first piece is recovered whatever follows it, a point apart. -/
theorem first?_text_append (p : Piece) {cs : List Char} (h : cs.head? ≠ some '.') :
    first? (p.text letters ++ cs) = some (p, cs) := by
  have hchar {c : Char} (htext : p.text letters = [c]) (hp : ofChar? c = some p) :
      first? (p.text letters ++ cs) = some (p, cs) := by
    rw [htext, List.singleton_append, first?_cons c h, hp]
    rfl
  rcases p with i | l | op
  · fin_cases i <;> exact hchar rfl (by decide)
  · cases l with
    | one => exact hchar rfl (by decide)
    | zero => exact hchar rfl (by decide)
    | third => rfl
    | twoThirds => rfl
  · cases op <;> exact hchar rfl (by decide)

theorem exists_text_eq_cons (p : Piece) : ∃ c cs, p.text letters = c :: cs ∧ c ≠ '.' := by
  rcases p with i | l | op
  · fin_cases i <;> exact ⟨_, [], rfl, by decide⟩
  · cases l <;> exact ⟨_, _, rfl, by decide⟩
  · cases op <;> exact ⟨_, [], rfl, by decide⟩

theorem head?_flatMap_text_ne_point (ps : List Piece) :
    (ps.flatMap (text letters)).head? ≠ some '.' := by
  cases ps with
  | nil => simp
  | cons p ps =>
    obtain ⟨c, cs, htext, hc⟩ := exists_text_eq_cons p
    simpa [htext] using hc

/-- A description is cut into pieces in one way only. -/
theorem flatMap_text_injective : Function.Injective fun ps : List Piece =>
    ps.flatMap (text letters) := by
  intro ps
  induction ps with
  | nil =>
    intro qs h
    cases qs with
    | nil => rfl
    | cons q qs =>
      obtain ⟨c, cs, htext, -⟩ := exists_text_eq_cons q
      simp [htext] at h
  | cons p ps ih =>
    intro qs h
    cases qs with
    | nil =>
      obtain ⟨c, cs, htext, -⟩ := exists_text_eq_cons p
      simp [htext] at h
    | cons q qs =>
      simp only [List.flatMap_cons] at h
      -- Both sides have the same first piece and the same rest, which begins with no point.
      have hfirst := congrArg first? h
      rw [first?_text_append p (head?_flatMap_text_ne_point ps),
        first?_text_append q (head?_flatMap_text_ne_point qs), Option.some.injEq,
        Prod.mk.injEq] at hfirst
      rw [hfirst.1, ih hfirst.2]

end Piece

namespace Genome

variable {g h : Genome} {texts : Vector (List Char) 4}

/-! ## Which genomes have a text -/

/-- The largest value that names something at a position: an operand at the even positions and at
position 13, an operator at the others. -/
def largestNamed (i : Fin 15) : UInt8 := if i.val % 2 = 0 ∨ i.val = 13 then 7 else 6

def IsSpellable (g : Genome) : Prop := ∀ i, g.genes.get i ≤ largestNamed i

def IsFirstNameless (g : Genome) (i : Fin 15) : Prop :=
  largestNamed i < g.genes.get i ∧ ∀ j < i, g.genes.get j ≤ largestNamed j

theorem lt_vocabulary_length_iff (i : Fin 15) (v : UInt8) :
    v.toNat < (vocabulary i).length ↔ v ≤ largestNamed i := by
  have hlength : ∀ i : Fin 15, (vocabulary i).length = (largestNamed i).toNat + 1 := by decide
  rw [hlength, UInt8.le_iff_toNat_le, Nat.lt_succ_iff]

theorem inVocabulary_iff_isSpellable : g.InVocabulary ↔ g.IsSpellable :=
  forall_congr' fun i => lt_vocabulary_length_iff i _

theorem exists_firstNameless (hg : ¬ g.IsSpellable) : ∃ i, g.IsFirstNameless i := by
  obtain ⟨i, hi⟩ := not_forall.mp hg
  obtain ⟨k, hk, hmin⟩ :=
    wellFounded_lt.has_min {i : Fin 15 | ¬ g.genes.get i ≤ largestNamed i} ⟨i, hi⟩
  refine ⟨k, UInt8.not_le.mp hk, fun j hj => ?_⟩
  by_contra hnameless
  exact hmin j hnameless hj

theorem IsFirstNameless.pieces_eq {i : Fin 15} (hi : g.IsFirstNameless i) :
    g.pieces = .error ⟨i, g.genes.get i⟩ := by
  apply pieces_eq_error
  · exact fun j hj => (lt_vocabulary_length_iff j _).mpr (hi.2 j hj)
  · rw [← not_lt, lt_vocabulary_length_iff]
    exact UInt8.not_le.mpr hi.1

theorem spell_eq_error (e : OutOfVocabulary) (he : g.pieces = .error e) :
    g.spell texts = .error e := by
  rw [spell, he]
  rfl

theorem exists_spell_iff : (∃ cs, g.spell texts = .ok cs) ↔ g.IsSpellable := by
  constructor
  · intro ⟨cs, hcs⟩
    by_contra hg
    obtain ⟨i, hi⟩ := exists_firstNameless hg
    rw [spell_eq_error _ hi.pieces_eq] at hcs
    cases hcs
  · intro hg
    exact ⟨_, spell_eq_ok (inVocabulary_iff_isSpellable.mpr hg) texts⟩

theorem spell_eq_error_iff {e : OutOfVocabulary} :
    g.spell texts = .error e ↔ ∃ i, g.IsFirstNameless i ∧ e = ⟨i, g.genes.get i⟩ := by
  constructor
  · intro he
    by_cases hg : g.IsSpellable
    · obtain ⟨cs, hcs⟩ := exists_spell_iff.mpr hg
      rw [hcs] at he
      cases he
    · obtain ⟨i, hi⟩ := exists_firstNameless hg
      rw [spell_eq_error _ hi.pieces_eq] at he
      exact ⟨i, hi, (Except.error.inj he).symm⟩
  · rintro ⟨i, hi, rfl⟩
    exact spell_eq_error _ hi.pieces_eq

/-! ## Descriptions -/

theorem describe_eq_spell (g : Genome) : g.describe = g.spell letters := rfl

theorem spell_eq_map_describe (texts : Vector (List Char) 4) (g : Genome) :
    g.spell texts = g.describe.map fun cs => cs.flatMap (substituted texts) := by
  rw [describe_eq_spell, spell, spell]
  cases g.pieces with
  | error e => rfl
  | ok ps =>
    simp only [bind, Except.bind, pure, Except.pure, Except.map, List.flatMap_assoc]
    exact congrArg Except.ok (List.flatMap_congr fun p _ => p.text_eq_flatMap texts)

theorem nodup_vocabulary (i : Nat) : (vocabulary i).Nodup := by
  unfold vocabulary
  split <;> decide

theorem eq_of_pieces_eq {ps : List Piece} (hg : g.InVocabulary) (hh : h.InVocabulary)
    (hgps : g.pieces = .ok ps) (hhps : h.pieces = .ok ps) : g = h := by
  obtain ⟨p, hp, hps⟩ := hg.exists_pieces
  obtain ⟨q, hq, hqs⟩ := hh.exists_pieces
  have hpq : (List.finRange 15).map p = (List.finRange 15).map q := by
    rw [hgps, ← hhps, hqs, Except.ok.injEq] at hps
    exact hps.symm
  have hgene (i : Fin 15) : g.genes.get i = h.genes.get i := by
    have hi : p i = q i := List.map_inj_left.mp hpq i (List.mem_finRange i)
    have hnamed : g.named? i = h.named? i := by rw [hp i, hq i, hi]
    exact UInt8.toNat_inj.mp ((List.getElem?_inj (hg i) (nodup_vocabulary i)).mp hnamed)
  cases g
  cases h
  congr 1
  exact Vector.ext fun i hi => hgene ⟨i, hi⟩

theorem eq_of_describe_eq {cs : List Char} (hg : g.describe = .ok cs) (hh : h.describe = .ok cs) :
    g = h := by
  have hgs := inVocabulary_iff_isSpellable.mpr (exists_spell_iff.mp ⟨cs, hg⟩)
  have hhs := inVocabulary_iff_isSpellable.mpr (exists_spell_iff.mp ⟨cs, hh⟩)
  rw [describe_eq_spell, spell] at hg hh
  obtain ⟨ps, hps, hgtext⟩ := bind_eq_ok_iff.mp hg
  obtain ⟨qs, hqs, hhtext⟩ := bind_eq_ok_iff.mp hh
  have htexts := (Except.ok.inj hgtext).trans (Except.ok.inj hhtext).symm
  obtain rfl := Piece.flatMap_text_injective htexts
  exact eq_of_pieces_eq hgs hhs hps hqs

/-- A genome has a description exactly if it has a text on a row, whatever the row, and otherwise
both report the first gene that names nothing. The text is the description with the texts of the
features for their letters, and no other genome has the same description. -/
theorem description_determines_text (g : Genome) (r : Row) :
    ((∃ cs, g.describe = .ok cs) ↔ g.IsSpellable) ∧
    ((∃ cs, g.spell r.texts = .ok cs) ↔ g.IsSpellable) ∧
    (∀ e, g.describe = .error e ↔ ∃ i, g.IsFirstNameless i ∧ e = ⟨i, g.genes.get i⟩) ∧
    (∀ e, g.spell r.texts = .error e ↔ ∃ i, g.IsFirstNameless i ∧ e = ⟨i, g.genes.get i⟩) ∧
    (∀ cs, g.describe = .ok cs → g.spell r.texts = .ok (cs.flatMap (substituted r.texts))) ∧
    ∀ h cs, g.describe = .ok cs → h.describe = .ok cs → g = h := by
  refine ⟨exists_spell_iff, exists_spell_iff, fun e => spell_eq_error_iff,
    fun e => spell_eq_error_iff, ?_, fun h cs => eq_of_describe_eq⟩
  intro cs hcs
  rw [spell_eq_map_describe, hcs]
  rfl

/-- Gene 13 names an operand, and the tail of zero, two thirds and zero runs together. -/
example : (⟨#v[0, 0, 4, 6, 1, 4, 4, 0, 2, 1, 3, 5, 5, 7, 5]⟩ : Genome).describe =
    .ok "a+1pbm1+c-dn00.6660".toList := rfl

end Genome

end FormulaSearch
