import FormulaSearch.Proofs.Genome.Spelling
import FormulaSearch.Proofs.Random.Draw
import FormulaSearch.Genome.Variation

/-!
# Genomes that clamping does not mend

Clamping leaves one value too many at most positions. A genome without these values names
something at every position once it is clamped. Genomes that are drawn have none of them, and
crossover and mutation bring none in.
-/

namespace FormulaSearch

namespace Genome

/-- A value that stays when it is clamped, at a position whose vocabulary does not hold it. -/
def IsStray (i : Nat) (v : UInt8) : Prop := i % 2 = 0 ∧ v = 8 ∨ i % 2 = 1 ∧ i < 12 ∧ v = 7

instance (i : Nat) (v : UInt8) : Decidable (IsStray i v) := inferInstanceAs (Decidable (_ ∨ _))

def IsRenderable (g : Genome) : Prop := ∀ i : Fin 15, ¬ IsStray i (g.genes.get i)

instance (g : Genome) : Decidable g.IsRenderable := inferInstanceAs (Decidable (∀ _, _))

def IsFirstStray (g : Genome) (i : Fin 15) : Prop :=
  IsStray i (g.genes.get i) ∧ ∀ j < i, ¬ IsStray j (g.genes.get j)

theorem exists_firstStray {g : Genome} (h : ¬ g.IsRenderable) : ∃ i, g.IsFirstStray i := by
  obtain ⟨i, hi⟩ := not_forall.mp h
  obtain ⟨k, hk, hmin⟩ :=
    wellFounded_lt.has_min {i : Fin 15 | IsStray i (g.genes.get i)} ⟨i, not_not.mp hi⟩
  exact ⟨k, hk, fun j hj hstray => hmin j hstray hj⟩

theorem get_clamped (g : Genome) (i : Fin 15) :
    g.clamped.genes.get i = if clampLimit i < g.genes.get i then 0 else g.genes.get i := by
  simp [clamped, Vector.get]
  rfl

theorem clamped_lt_of_not_stray {g : Genome} {i : Fin 15} (h : ¬ IsStray i (g.genes.get i)) :
    (g.clamped.genes.get i).toNat < (vocabulary i).length := by
  rw [get_clamped, vocabulary_length]
  generalize g.genes.get i = v at h
  have hzero : (0 : UInt8).toNat = 0 := rfl
  have hseven : (7 : UInt8).toNat = 7 := rfl
  have height : (8 : UInt8).toNat = 8 := rfl
  unfold clampLimit
  by_cases heven : i.val % 2 = 0
  · have hne : v.toNat ≠ 8 := fun hv => h (.inl ⟨heven, UInt8.toNat_inj.mp hv⟩)
    have hvocabulary : ¬ (i.val % 2 = 1 ∧ i.val < 12) := by omega
    rw [if_pos heven, if_neg hvocabulary]
    split
    · omega
    · next hle =>
      rw [UInt8.lt_iff_toNat_lt] at hle
      omega
  · have hodd : i.val % 2 = 1 := by omega
    rw [if_neg heven]
    split
    · split <;> omega
    · next hle =>
      rw [UInt8.lt_iff_toNat_lt] at hle
      split
      · next hi =>
        have hne : v.toNat ≠ 7 := fun hv => h (.inr ⟨hodd, hi.2, UInt8.toNat_inj.mp hv⟩)
        omega
      · omega

theorem vocabulary_length_le_of_stray {i : Nat} {v : UInt8} (h : IsStray i v) :
    (vocabulary i).length ≤ v.toNat := by
  rw [vocabulary_length]
  rcases h with ⟨heven, rfl⟩ | ⟨hodd, hi, rfl⟩
  · simp [heven]
  · simp [hodd, hi]

theorem get_clamped_of_stray {g : Genome} {i : Fin 15} (h : IsStray i (g.genes.get i)) :
    g.clamped.genes.get i = g.genes.get i := by
  rw [get_clamped]
  rcases h with ⟨heven, hv⟩ | ⟨hodd, -, hv⟩
  · simp [clampLimit, heven, hv]
  · simp [clampLimit, hodd, hv]

/-- Clamping neither mends a stray gene nor leads one astray. -/
theorem isStray_clamped_iff (g : Genome) (i : Fin 15) :
    IsStray i (g.clamped.genes.get i) ↔ IsStray i (g.genes.get i) := by
  by_cases h : IsStray i (g.genes.get i)
  · rw [get_clamped_of_stray h]
  · refine iff_of_false (fun hclamped => ?_) h
    have hlt := clamped_lt_of_not_stray h
    exact absurd hlt (not_lt.mpr (vocabulary_length_le_of_stray hclamped))

theorem IsRenderable.clamped_inVocabulary {g : Genome} (h : g.IsRenderable) :
    g.clamped.InVocabulary := fun i => clamped_lt_of_not_stray (h i)

theorem IsRenderable.exists_pieces {g : Genome} (h : g.IsRenderable) :
    ∃ pieces, g.clamped.pieces = .ok pieces := by
  obtain ⟨piece, -, hpieces⟩ := h.clamped_inVocabulary.exists_pieces
  exact ⟨_, hpieces⟩

/-- A genome that clamping does not mend is reported by its first stray gene. -/
theorem IsFirstStray.pieces_eq {g : Genome} {i : Fin 15} (h : g.IsFirstStray i) :
    g.clamped.pieces = .error ⟨i, g.genes.get i⟩ := by
  have hclamped := get_clamped_of_stray h.1
  have hi : (vocabulary i).length ≤ (g.clamped.genes.get i).toNat := by
    rw [hclamped]
    exact vocabulary_length_le_of_stray h.1
  rw [pieces_eq_error (fun j hj => clamped_lt_of_not_stray (h.2 j hj)) hi, hclamped]

/-! ## Genes that are drawn -/

def IsDrawn (g : Genome) : Prop := ∀ i : Fin 15, (g.genes.get i).toNat < drawnBelow

theorem not_isStray_of_lt {i : Nat} {v : UInt8} (h : v.toNat < drawnBelow) : ¬ IsStray i v := by
  unfold drawnBelow at h
  rintro (⟨-, rfl⟩ | ⟨-, -, rfl⟩)
  · exact absurd h (by decide)
  · exact absurd h (by decide)

theorem IsDrawn.isRenderable {g : Genome} (h : g.IsDrawn) : g.IsRenderable :=
  fun i => not_isStray_of_lt (h i)

def AreDrawn (replacements : Vector (Option UInt8) 15) : Prop :=
  ∀ i : Fin 15, ∀ v, replacements.get i = some v → v.toNat < drawnBelow

theorem IsDrawn.clamped_eq {g : Genome} (h : g.IsDrawn) : g.clamped = g := by
  apply congrArg Genome.mk
  ext i hi
  have hlt : g.genes[i].toNat < 7 := h ⟨i, hi⟩
  have hlimit : ¬ clampLimit i < g.genes[i] := by
    rw [UInt8.lt_iff_toNat_lt, clampLimit]
    split
    · exact Nat.not_lt.mpr (hlt.le.trans (by decide))
    · exact Nat.not_lt.mpr hlt.le
  rw [Vector.getElem_mapIdx, if_neg hlimit]

theorem IsDrawn.exists_pieces {g : Genome} (h : g.IsDrawn) : ∃ pieces, g.pieces = .ok pieces := by
  rw [← h.clamped_eq]
  exact h.isRenderable.exists_pieces

theorem IsDrawn.exists_describe {g : Genome} (h : g.IsDrawn) : ∃ text, g.describe = .ok text := by
  obtain ⟨pieces, hpieces⟩ := h.exists_pieces
  unfold describe spell
  rw [hpieces]
  exact ⟨_, rfl⟩

section

variable {S : Fin 15 → UInt8 → Prop} {g h : Genome}

theorem forall_cross (hg : ∀ i, S i (g.genes.get i)) (hh : ∀ i, S i (h.genes.get i))
    (origins : Vector Bool 15) : ∀ i, S i ((cross origins g h).genes.get i) := by
  intro i
  have : (cross origins g h).genes.get i =
      if origins.get i then g.genes.get i else h.genes.get i :=
    getElem_cross origins g h i i.isLt
  rw [this]
  split
  · exact hg i
  · exact hh i

theorem forall_replace (hg : ∀ i, S i (g.genes.get i)) {replacements : Vector (Option UInt8) 15}
    (hnew : ∀ i v, replacements.get i = some v → S i v) :
    ∀ i, S i ((replace replacements g).genes.get i) := by
  intro i
  have : (replace replacements g).genes.get i =
      (replacements.get i).getD (g.genes.get i) := getElem_replace replacements g i i.isLt
  rw [this]
  cases hv : replacements.get i with
  | none => exact hg i
  | some v => exact hnew i v hv

end

theorem IsRenderable.cross {g h : Genome} (hg : g.IsRenderable) (hh : h.IsRenderable)
    (origins : Vector Bool 15) : (cross origins g h).IsRenderable :=
  forall_cross (S := fun i v => ¬ IsStray i v) hg hh origins

theorem IsRenderable.replace {g : Genome} (hg : g.IsRenderable)
    {replacements : Vector (Option UInt8) 15} (h : AreDrawn replacements) :
    (replace replacements g).IsRenderable :=
  forall_replace (S := fun i v => ¬ IsStray i v) hg fun i v hv => not_isStray_of_lt (h i v hv)

theorem IsDrawn.cross {g h : Genome} (hg : g.IsDrawn) (hh : h.IsDrawn)
    (origins : Vector Bool 15) : (cross origins g h).IsDrawn :=
  forall_cross (S := fun _ v => v.toNat < drawnBelow) hg hh origins

theorem IsDrawn.replace {g : Genome} (hg : g.IsDrawn)
    {replacements : Vector (Option UInt8) 15} (h : AreDrawn replacements) :
    (replace replacements g).IsDrawn :=
  forall_replace (S := fun _ v => v.toNat < drawnBelow) hg h

variable {ρ : Type} [WordSource ρ]

theorem yields_drawGene : Draw.Yields (drawGene : Draw ρ UInt8) fun v => v.toNat < drawnBelow := by
  have hbelow : Draw.Yields (Draw.below drawnBelow : Draw ρ Nat) (· < drawnBelow) :=
    Draw.yields_below (by decide)
  refine hbelow.bind fun n hn => Draw.Yields.pure ?_
  have : n < 256 := hn.trans (by decide)
  rw [UInt8.toNat_ofNat_of_lt' this]
  exact hn

theorem yields_draw : Draw.Yields (draw : Draw ρ Genome) IsDrawn :=
  (yields_drawGene.vector 15).bind fun _ hgenes => Draw.Yields.pure fun i => hgenes i i.isLt

theorem yields_drawReplacements (rate : Binary64) :
    Draw.Yields (drawReplacements rate : Draw ρ (Vector (Option UInt8) 15)) AreDrawn := by
  have hone : Draw.Yields (drawReplacement rate : Draw ρ (Option UInt8))
      fun r => ∀ v, r = some v → v.toNat < drawnBelow := by
    refine (Draw.Yields.trivial _).bind fun redrawn _ => ?_
    split
    · refine yields_drawGene.bind fun w hw => Draw.Yields.pure ?_
      intro v hv
      cases hv
      exact hw
    · apply Draw.Yields.pure
      intro v hv
      cases hv
  exact (hone.vector 15).mono fun replacements h i => h i i.isLt

end Genome

end FormulaSearch
