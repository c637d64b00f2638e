import FormulaSearch.Evolution.Contest
import FormulaSearch.Proofs.Number.Order
import FormulaSearch.Proofs.Trial

/-!
# Populations whose scores become known

Scoring fills in scores that are not known and changes nothing else. Once all scores of a
population are known, the winner of a contest is determined by them.
-/

namespace FormulaSearch.Population

variable {P P' P'' : Population}

def genomes (P : Population) : Array Genome := P.members.map Individual.genome

@[simp] theorem size_genomes (P : Population) : P.genomes.size = P.size := by
  simp [genomes, size]

def score? (P : Population) (i : Nat) : Option Binary64 := (P.members[i]?).bind Individual.score

/-- The second population is the first one with more scores known. -/
structure Fills (P P' : Population) : Prop where
  genomes_eq : P'.genomes = P.genomes
  score_eq : ∀ i v, P.score? i = some v → P'.score? i = some v

theorem Fills.refl (P : Population) : P.Fills P := ⟨rfl, fun _ _ h => h⟩

theorem Fills.trans (h : P.Fills P') (h' : P'.Fills P'') : P.Fills P'' :=
  ⟨h'.genomes_eq.trans h.genomes_eq, fun i v hv => h'.score_eq i v (h.score_eq i v hv)⟩

theorem Fills.size_eq (h : P.Fills P') : P'.size = P.size := by
  have := congrArg Array.size h.genomes_eq
  simpa using this

theorem Fills.forall_lt_size_tail (h : P.Fills P') {first : Nat} {rest : List Nat}
    (hlt : ∀ i ∈ first :: rest, i < P.size) : ∀ i ∈ rest, i < P'.size := by
  intro i hi
  rw [h.size_eq]
  exact hlt i (List.mem_cons_of_mem first hi)

theorem lt_size_of_getElem? {i : Nat} {ind : Individual} (h : P.members[i]? = some ind) :
    i < P.size := (Array.getElem?_eq_some_iff.mp h).1

theorem genome_mem {i : Nat} {ind : Individual} (h : P.members[i]? = some ind) :
    ind.genome ∈ P.genomes := by
  obtain ⟨hi, rfl⟩ := Array.getElem?_eq_some_iff.mp h
  exact Array.mem_map_of_mem (Array.getElem_mem hi)

theorem member_eq_ok_iff {i : Nat} {ind : Individual} :
    P.member i = .ok ind ↔ P.members[i]? = some ind := by
  unfold member
  split <;> simp_all

theorem exists_member {i : Nat} (h : i < P.size) : ∃ ind, P.members[i]? = some ind :=
  ⟨_, Array.getElem?_eq_getElem h⟩

theorem score?_of_getElem? {i : Nat} {ind : Individual} (h : P.members[i]? = some ind) :
    P.score? i = ind.score := by
  simp [score?, h]

theorem getElem?_setScore {i : Nat} {ind : Individual} (h : P.members[i]? = some ind)
    (v : Binary64) (k : Nat) : (P.setScore i v).members[k]? =
      if k = i then some { ind with score := some v } else P.members[k]? := by
  unfold setScore
  rw [Array.getElem?_modify]
  by_cases hk : k = i
  · subst hk
    simp [h]
  · have : ¬ i = k := fun h => hk h.symm
    simp [this, hk]

theorem score?_setScore {i : Nat} (h : i < P.size) (v : Binary64) (k : Nat) :
    (P.setScore i v).score? k = if k = i then some v else P.score? k := by
  obtain ⟨ind, hind⟩ := exists_member h
  rw [score?, getElem?_setScore hind]
  split <;> rfl

theorem genomes_setScore (P : Population) (i : Nat) (v : Binary64) :
    (P.setScore i v).genomes = P.genomes := by
  apply Array.ext_getElem?
  intro k
  simp only [genomes, setScore, Array.getElem?_map, Array.getElem?_modify]
  split
  · cases P.members[k]? <;> rfl
  · rfl

theorem fills_setScore {i : Nat} (h : i < P.size) (hnone : P.score? i = none) (v : Binary64) :
    P.Fills (P.setScore i v) := by
  refine ⟨genomes_setScore P i v, ?_⟩
  intro k w hw
  rw [score?_setScore h]
  have hk : k ≠ i := by
    rintro rfl
    simp [hnone] at hw
  rw [if_neg hk, hw]

def AllScored (P : Population) : Prop := ∀ i < P.size, (P.score? i).isSome = true

/-! ## Winners -/

/-- The score of an individual; zero for one whose score is not known. -/
def value (P : Population) (i : Nat) : Binary64 := (P.score? i).getD 0

theorem value_of_score? {i : Nat} {v : Binary64} (h : P.score? i = some v) : P.value i = v := by
  simp [value, h]

/-- The winner of a contest by the known scores. It starts with the given leader, and a tie goes to
the challenger. -/
def leader (P : Population) (best : Nat) : List Nat → Nat
  | [] => best
  | i :: rest => if P.value best ≤ P.value i then P.leader i rest else P.leader best rest

/-- Among `before ++ i :: after` the index has the last of the greatest scores. A score that is NaN
does not count. -/
structure IsLastGreatest (P : Population) (before : List Nat) (i : Nat) (after : List Nat) :
    Prop where
  isNumber : (P.value i).isNaN = false
  before_le : ∀ k ∈ before, (P.value k).isNaN = false → P.value k ≤ P.value i
  after_lt : ∀ k ∈ after, (P.value k).isNaN = false → P.value k < P.value i

/-- If the first leader has a number for a score, the winner has the last of the greatest ones. -/
theorem exists_isLastGreatest_leader {best : Nat} (h : (P.value best).isNaN = false)
    (indices : List Nat) : ∃ before after,
      best :: indices = before ++ P.leader best indices :: after ∧
        P.IsLastGreatest before (P.leader best indices) after := by
  induction indices generalizing best with
  | nil => exact ⟨[], [], rfl, h, by simp, by simp⟩
  | cons next rest ih =>
    rw [leader]
    split
    · next hle =>
      have hnext := (Binary64.isNaN_of_le hle).2
      obtain ⟨before, after, hsplit, hnumber, hbefore, hafter⟩ := ih hnext
      have hwinner : P.value next ≤ P.value (P.leader next rest) := by
        cases before with
        | nil =>
          rw [← (List.cons.inj hsplit).1]
          exact Binary64.le_refl hnext
        | cons first before =>
          obtain rfl := (List.cons.inj hsplit).1
          exact hbefore next List.mem_cons_self hnext
      refine ⟨best :: before, after, congrArg (best :: ·) hsplit, hnumber, ?_, hafter⟩
      refine List.forall_mem_cons.mpr ⟨fun _ => ?_, hbefore⟩
      exact Binary64.le_trans h hnext hnumber hle hwinner
    · next hnot =>
      obtain ⟨before, after, hsplit, hnumber, hbefore, hafter⟩ := ih h
      have hbelow (hnext : (P.value next).isNaN = false) : P.value next < P.value best :=
        (Binary64.not_le_iff_lt hnext h).mp hnot
      cases before with
      | nil =>
        obtain ⟨hbest, rfl⟩ := List.cons.inj hsplit
        rw [← hbest] at hafter ⊢
        exact ⟨[], next :: rest, rfl, h, by simp, List.forall_mem_cons.mpr ⟨hbelow, hafter⟩⟩
      | cons first before =>
        obtain ⟨rfl, hrest⟩ := List.cons.inj hsplit
        obtain ⟨hbest, hbefore⟩ := List.forall_mem_cons.mp hbefore
        refine ⟨best :: next :: before, after, congrArg (best :: next :: ·) hrest, hnumber, ?_,
          hafter⟩
        refine List.forall_mem_cons.mpr ⟨hbest, List.forall_mem_cons.mpr ⟨fun hnext => ?_, hbefore⟩⟩
        have hle := Binary64.le_of_lt hnext h (hbelow hnext)
        exact Binary64.le_trans hnext h hnumber hle (hbest h)

/-- If no score is NaN, the winner has the greatest one. -/
theorem value_le_value_leader (h : ∀ i, (P.value i).isNaN = false) (best : Nat)
    (indices : List Nat) : ∀ i ∈ best :: indices, P.value i ≤ P.value (P.leader best indices) := by
  obtain ⟨before, after, hsplit, hlast⟩ := exists_isLastGreatest_leader (h best) indices
  intro i hi
  rw [hsplit, List.mem_append, List.mem_cons] at hi
  rcases hi with hi | hi | hi
  · exact hlast.before_le i hi (h i)
  · rw [hi]
    exact Binary64.le_refl hlast.isNumber
  · exact Binary64.le_of_lt (h i) hlast.isNumber (hlast.after_lt i hi (h i))

def fittestIndex (P : Population) : Nat := P.leader 0 (List.range' 1 (P.size - 1))

/-- The individual is the fittest one and this is its score. -/
def IsFittest (P : Population) (best : Individual) (v : Binary64) : Prop :=
  P.members[P.fittestIndex]? = some best ∧ best.score = some v

def NoNaN (P : Population) : Prop := ∀ i v, P.score? i = some v → v.isNaN = false

theorem isNaN_value {i : Nat} (h : ∀ v, P.score? i = some v → v.isNaN = false) :
    (P.value i).isNaN = false := by
  unfold value
  cases hscore : P.score? i with
  | none => decide +kernel
  | some v => exact h v hscore

theorem NoNaN.isNaN_value (h : P.NoNaN) (i : Nat) : (P.value i).isNaN = false :=
  Population.isNaN_value (h i)

theorem IsFittest.score_eq {best : Individual} {v : Binary64} (h : P.IsFittest best v) :
    P.score? P.fittestIndex = some v := (score?_of_getElem? h.1).trans h.2

theorem IsFittest.le {best : Individual} {v w : Binary64} {i : Nat} (h : P.IsFittest best v)
    (hnan : P.NoNaN) (hi : P.score? i = some w) : w ≤ v := by
  have hmem : i ∈ 0 :: List.range' 1 (P.size - 1) := by
    obtain ⟨ind, hind, -⟩ := Option.bind_eq_some_iff.mp hi
    have := lt_size_of_getElem? hind
    rw [List.mem_cons, List.mem_range'_1]
    omega
  have hle := value_le_value_leader hnan.isNaN_value 0 _ i hmem
  rw [value_of_score? hi] at hle
  exact (value_of_score? h.score_eq) ▸ hle

/-- The scan for the fittest individual starts with a number, or with an individual that is not
scored yet. -/
def StartsNumeric (P : Population) : Prop := ∀ v, P.score? 0 = some v → v.isNaN = false

/-- The individual is the last of the fittest ones and this is its score. A score that is NaN does
not count. -/
def IsLastFittest (P : Population) (best : Individual) (v : Binary64) : Prop :=
  ∃ k, P.members[k]? = some best ∧ best.score = some v ∧ v.isNaN = false ∧
    ∀ i w, P.score? i = some w → w.isNaN = false → w ≤ v ∧ (k < i → w < v)

theorem IsFittest.isLastFittest {best : Individual} {v : Binary64} (h : P.IsFittest best v)
    (hstart : P.StartsNumeric) : P.IsLastFittest best v := by
  obtain ⟨before, after, hsplit, hlast⟩ :=
    exists_isLastGreatest_leader (isNaN_value hstart) (List.range' 1 (P.size - 1))
  have hvalue : P.value P.fittestIndex = v := value_of_score? h.score_eq
  obtain ⟨hnumber, hbefore, hafter⟩ := hlast
  rw [← fittestIndex, hvalue] at hnumber hbefore hafter
  rw [← fittestIndex] at hsplit
  refine ⟨P.fittestIndex, h.1, h.2, hnumber, fun i w hw hnan => ?_⟩
  have hi : i ∈ 0 :: List.range' 1 (P.size - 1) := by
    obtain ⟨ind, hind, -⟩ := Option.bind_eq_some_iff.mp hw
    have := lt_size_of_getElem? hind
    rw [List.mem_cons, List.mem_range'_1]
    omega
  have hsorted : (0 :: List.range' 1 (P.size - 1)).Pairwise (· < ·) := by
    refine List.pairwise_cons.mpr ⟨fun k hk => ?_, List.pairwise_lt_range'⟩
    exact (List.mem_range'_1.mp hk).1
  rw [← value_of_score? hw] at hnan ⊢
  rw [hsplit] at hi hsorted
  rcases List.mem_append.mp hi with hi | hi
  · have hlt := (List.pairwise_append.mp hsorted).2.2 i hi _ List.mem_cons_self
    exact ⟨hbefore i hi hnan, fun hgt => absurd hgt (Nat.not_lt.mpr hlt.le)⟩
  · rcases List.mem_cons.mp hi with rfl | hi
    · rw [hvalue]
      exact ⟨Binary64.le_refl hnumber, fun hgt => absurd hgt (Nat.lt_irrefl _)⟩
    · have hlt := hafter i hi hnan
      exact ⟨Binary64.le_of_lt hnan hnumber hlt, fun _ => hlt⟩

theorem IsFittest.eq {best best' : Individual} {v v' : Binary64} (h : P.IsFittest best v)
    (h' : P.IsFittest best' v') : best = best' ∧ v = v' := by
  obtain rfl : best = best' := Option.some.inj (h.1.symm.trans h'.1)
  exact ⟨rfl, Option.some.inj (h.2.symm.trans h'.2)⟩

end FormulaSearch.Population
