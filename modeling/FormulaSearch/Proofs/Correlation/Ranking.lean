import FormulaSearch.Correlation.Ranks
import Mathlib.Tactic

/-!
# Rankings

A column that never falls is ranked by its row numbers, as equal values keep their order. The exact
distance of two rankings of `n` rows is at most `n (n² - 1) / 3`: what it lacks is the sum of the
squares by which the two ranks of a row miss `n + 1`.
-/

namespace FormulaSearch

def IsAscending (xs : List Binary64) : Prop := xs.Pairwise fun a b => a.orderKey ≤ b.orderKey

instance (xs : List Binary64) : Decidable (IsAscending xs) :=
  inferInstanceAs (Decidable (xs.Pairwise _))

theorem isAscending_replicate (n : Nat) (c : Binary64) : IsAscending (.replicate n c) :=
  List.pairwise_replicate.mpr (.inr le_rfl)

theorem sortedPositions_of_isAscending {xs : List Binary64} (h : IsAscending xs) :
    sortedPositions xs = List.range xs.length := by
  have hsorted : xs.zipIdx.Pairwise fun a b => decide (a.1.orderKey ≤ b.1.orderKey) = true := by
    have hvalues : (xs.zipIdx.map Prod.fst).Pairwise fun a b => a.orderKey ≤ b.orderKey := by
      rwa [List.zipIdx_map_fst]
    simpa using List.pairwise_map.mp hvalues
  rw [sortedPositions, List.mergeSort_of_pairwise hsorted, List.zipIdx_map_snd,
    List.range_eq_range']

theorem ranks_of_isAscending {xs : List Binary64} (h : IsAscending xs) :
    ranks xs = List.range' 1 xs.length := by
  have hsorted : ((List.range xs.length).zipIdx 1).Pairwise fun a b =>
      decide (a.1 ≤ b.1) = true := by
    have hpositions : (((List.range xs.length).zipIdx 1).map Prod.fst).Pairwise (· ≤ ·) := by
      rw [List.zipIdx_map_fst]
      exact List.pairwise_le_range
    simpa using List.pairwise_map.mp hpositions
  rw [ranks, sortedPositions_of_isAscending h, List.mergeSort_of_pairwise hsorted,
    List.zipIdx_map_snd, List.length_range]

/-! ## The exact distance -/

theorem foldl_add_squaredGap (pairs : List (Nat × Nat)) (sum : Int) :
    pairs.foldl (fun sum pair => sum + squaredGap pair.1 pair.2) sum =
      sum + (pairs.map fun pair => ((pair.1 : Int) - pair.2) ^ 2).sum := by
  induction pairs generalizing sum with
  | nil => simp
  | cons pair pairs ih =>
    rw [List.foldl_cons, ih, List.map_cons, List.sum_cons, squaredGap]
    ring

theorem rankDistance_eq_sum (as bs : List Nat) :
    rankDistance as bs = ((as.zip bs).map fun pair => ((pair.1 : Int) - pair.2) ^ 2).sum := by
  rw [rankDistance, foldl_add_squaredGap]
  simp

/-- The sum of the squares by which the two ranks of a row miss those of opposite rankings. -/
def oppositeDistance (n : Nat) (as bs : List Nat) : Int :=
  ((as.zip bs).map fun pair => ((pair.1 : Int) + pair.2 - (n + 1)) ^ 2).sum

theorem rankDistance_nonneg (as bs : List Nat) : 0 ≤ (rankDistance as bs : Int) := by
  rw [rankDistance_eq_sum]
  apply List.sum_nonneg
  simp only [List.forall_mem_map]
  exact fun pair _ => sq_nonneg _

theorem oppositeDistance_nonneg (n : Nat) (as bs : List Nat) : 0 ≤ oppositeDistance n as bs := by
  apply List.sum_nonneg
  simp only [List.forall_mem_map]
  exact fun pair _ => sq_nonneg _

/-- What a rank adds to the two distances. -/
def rankWeight (n : Nat) (a : Nat) : Int := 2 * (a : Int) ^ 2 - 2 * (n + 1) * a

theorem rankDistance_add_oppositeDistance (n : Nat) {as bs : List Nat}
    (h : as.length = bs.length) : rankDistance as bs + oppositeDistance n as bs =
      (as.map (rankWeight n)).sum + (bs.map (rankWeight n)).sum +
        as.length * ((n : Int) + 1) ^ 2 := by
  rw [rankDistance_eq_sum, oppositeDistance]
  induction as generalizing bs with
  | nil =>
    obtain rfl : bs = [] := List.eq_nil_of_length_eq_zero h.symm
    simp
  | cons a as ih =>
    obtain _ | ⟨b, bs⟩ := bs
    · simp at h
    · have := ih (Nat.succ.inj h)
      simp only [List.zip_cons_cons, List.map_cons, List.sum_cons, List.length_cons, rankWeight]
        at this ⊢
      push_cast
      linarith

theorem three_mul_sum_rankWeight (n m : Nat) :
    3 * ((List.range' 1 m).map (rankWeight n)).sum =
      (m : Int) * (m + 1) * (2 * m + 1) - 3 * (n + 1) * (m * (m + 1)) := by
  induction m with
  | zero => simp
  | succ m ih =>
    rw [List.range'_concat, List.map_append, List.sum_append, Int.mul_add, ih]
    simp only [List.map_cons, List.map_nil, List.sum_cons, List.sum_nil, rankWeight]
    push_cast
    ring

/-- The two distances of rankings of `n` rows. -/
theorem three_mul_rankDistance_add (n : Nat) {as bs : List Nat} (has : as.Perm (List.range' 1 n))
    (hbs : bs.Perm (List.range' 1 n)) :
    3 * (rankDistance as bs + oppositeDistance n as bs) = (n : Int) * (n ^ 2 - 1) := by
  have hlength : as.length = n := by simpa using has.length_eq
  have hsums : (as.map (rankWeight n)).sum = ((List.range' 1 n).map (rankWeight n)).sum ∧
      (bs.map (rankWeight n)).sum = ((List.range' 1 n).map (rankWeight n)).sum :=
    ⟨(has.map _).sum_eq, (hbs.map _).sum_eq⟩
  have hweights := three_mul_sum_rankWeight n n
  rw [rankDistance_add_oppositeDistance n (has.trans hbs.symm).length_eq, hsums.1, hsums.2, hlength]
  linarith

theorem three_mul_rankDistance_le (n : Nat) {as bs : List Nat} (has : as.Perm (List.range' 1 n))
    (hbs : bs.Perm (List.range' 1 n)) : 3 * rankDistance as bs ≤ (n : Int) * (n ^ 2 - 1) := by
  have htotal := three_mul_rankDistance_add n has hbs
  have hopposite := oppositeDistance_nonneg n as bs
  linarith

end FormulaSearch
