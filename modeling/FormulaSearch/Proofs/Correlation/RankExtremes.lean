import FormulaSearch.Proofs.Correlation.MomentSums
import FormulaSearch.Proofs.Correlation.RankBounds
import FormulaSearch.Proofs.Correlation.RankOrder

/-!
# Extremes of the rank distance

The exact distance of two rankings is zero for equal ones only, and the greatest there is for
opposite ones only, so the unrounded coefficient of Spearman has its ends at these two. Where no
value occurs twice in a column, the rank of a value counts the values below it, and the order of the
rows plays no part in the distance.
-/

namespace FormulaSearch

/-! ## Equal and opposite rankings -/

theorem forall_mem_zip_iff {f : Nat → Nat} {as bs : List Nat} (h : as.length = bs.length) :
    (∀ pair ∈ as.zip bs, pair.2 = f pair.1) ↔ bs = as.map f := by
  have hpairs : List.Forall₂ (fun a b => f a = b) as bs ↔ as.map f = bs := by
    rw [← List.forall₂_map_left_iff, List.forall₂_eq_eq_eq]
  rw [eq_comm, ← hpairs, List.forall₂_iff_zip]
  constructor
  · exact fun hall => ⟨h, fun hmem => (hall _ hmem).symm⟩
  · exact fun hall pair hmem => (hall.2 hmem).symm

/-- The ranking that counts from the other end. -/
def oppositeRanks (n : Nat) (as : List Nat) : List Nat := as.map (n + 1 - ·)

variable {as bs : List Nat} {n : Nat}

theorem rankDistance_eq_zero_iff (h : as.length = bs.length) :
    (rankDistance as bs : Int) = 0 ↔ as = bs := by
  rw [rankDistance_eq_sum, sum_sq_eq_zero_iff fun pair : Nat × Nat => (pair.1 : Int) - pair.2]
  have hsame := forall_mem_zip_iff (f := id) h
  rw [List.map_id, eq_comm] at hsame
  rw [← hsame]
  refine forall₂_congr fun pair _ => ?_
  rw [id, sub_eq_zero, Nat.cast_inj, eq_comm]

theorem oppositeDistance_eq_zero_iff (h : as.length = bs.length) (has : ∀ a ∈ as, a ≤ n) :
    oppositeDistance n as bs = 0 ↔ bs = oppositeRanks n as := by
  rw [oppositeDistance, oppositeRanks,
    sum_sq_eq_zero_iff fun pair : Nat × Nat => (pair.1 : Int) + pair.2 - (n + 1),
    ← forall_mem_zip_iff h]
  refine forall₂_congr fun pair hpair => ?_
  have := has pair.1 (List.of_mem_zip hpair).1
  omega

theorem rankDistance_comm (as bs : List Nat) :
    (rankDistance as bs : Int) = rankDistance bs as := by
  rw [rankDistance_eq_sum, rankDistance_eq_sum, ← List.zip_swap bs as, List.map_map]
  refine congrArg List.sum (List.map_congr_left fun pair _ => ?_)
  exact sub_sq_comm _ _

theorem cast_rankDistance (as bs : List Nat) :
    ((rankDistance as bs : Int) : Rat) = rankDistance as bs := by
  unfold rankDistance
  have hfold (pairs : List (Nat × Nat)) (sum : Int) :
      ((pairs.foldl (fun sum pair => sum + squaredGap pair.1 pair.2) sum : Int) : Rat) =
        pairs.foldl (fun sum pair => sum + squaredGap pair.1 pair.2) (sum : Rat) := by
    induction pairs generalizing sum with
    | nil => rfl
    | cons pair pairs ih =>
      rw [List.foldl_cons, ih, List.foldl_cons]
      simp [squaredGap]
  simpa using hfold (as.zip bs) ((0 : Nat) : Int)

/-! ## The distance of two columns -/

def rankGap (points : List (Binary64 × Binary64)) : Int :=
  rankDistance (ranks (points.map Prod.fst)) (ranks (points.map Prod.snd))

/-- The coefficient of Spearman, computed without rounding. -/
def exactSpearman (points : List (Binary64 × Binary64)) : Rat :=
  let distance : Rat :=
    rankDistance (ranks (points.map Prod.fst)) (ranks (points.map Prod.snd))
  let n : Rat := points.length
  1 - 6 * distance / (n * (n * n - 1))

variable {points points' : List (Binary64 × Binary64)}

theorem exactSpearman_eq (points : List (Binary64 × Binary64)) : exactSpearman points =
    1 - 6 * rankGap points / (points.length * (points.length * points.length - 1)) := by
  rw [rankGap, cast_rankDistance]
  rfl

theorem ranks_map_perm {α : Type} (f : α → Binary64) (rows : List α) :
    (ranks (rows.map f)).Perm (List.range' 1 rows.length) := by
  simpa using ranks_perm (rows.map f)

theorem le_of_mem_ranks_map {α : Type} {f : α → Binary64} {rows : List α} {r : Nat}
    (h : r ∈ ranks (rows.map f)) : r ≤ rows.length :=
  (le_of_mem_ranks h).trans_eq (List.length_map f)

theorem length_ranks_fst_eq (points : List (Binary64 × Binary64)) :
    (ranks (points.map Prod.fst)).length = (ranks (points.map Prod.snd)).length :=
  ((ranks_map_perm Prod.fst points).trans (ranks_map_perm Prod.snd points).symm).length_eq

theorem rankGap_eq_zero_iff :
    rankGap points = 0 ↔ ranks (points.map Prod.fst) = ranks (points.map Prod.snd) :=
  rankDistance_eq_zero_iff (length_ranks_fst_eq points)

theorem three_mul_rankGap_le (points : List (Binary64 × Binary64)) :
    3 * rankGap points ≤ points.length * ((points.length : Int) ^ 2 - 1) :=
  three_mul_rankDistance_le _ (ranks_map_perm _ points) (ranks_map_perm _ points)

theorem three_mul_rankGap_eq_iff :
    3 * rankGap points = points.length * ((points.length : Int) ^ 2 - 1) ↔
      ranks (points.map Prod.snd) = oppositeRanks points.length (ranks (points.map Prod.fst)) := by
  rw [← oppositeDistance_eq_zero_iff (length_ranks_fst_eq points) fun _ => le_of_mem_ranks_map,
    ← three_mul_rankDistance_add _ (ranks_map_perm Prod.fst points)
      (ranks_map_perm Prod.snd points), rankGap]
  omega

theorem rankGap_map_swap (points : List (Binary64 × Binary64)) :
    rankGap (points.map Prod.swap) = rankGap points := by
  rw [rankGap, rankGap, rankDistance_comm, List.map_map, List.map_map]
  rfl

/-! ## Columns without ties -/

theorem card_filter_get {α : Type} (xs : List α) (p : α → Prop) [DecidablePred p] :
    (Finset.univ.filter fun i : Fin xs.length => p (xs.get i)).card = xs.countP p := by
  conv_rhs => rw [← List.map_get_finRange xs, List.countP_map, List.countP_eq_length_filter]
  rfl

/-- The rank of a value counts the values up to it. -/
def rankAmong (xs : List Binary64) (x : Binary64) : Nat := xs.countP (·.IsBelow x) + 1

theorem ranks_of_nodup {xs : List Binary64} (h : xs.Nodup) : ranks xs = xs.map (rankAmong xs) := by
  have hcolumn : ranks xs = List.ofFn fun i : Fin xs.length => rankAmong xs (xs.get i) := by
    rw [ranks_eq_ofFn]
    refine congrArg List.ofFn (funext fun i => ?_)
    have hprecedes (j : Fin xs.length) : Precedes xs.get j i ↔ (xs.get j).IsBelow (xs.get i) := by
      refine or_iff_left fun ⟨hsame, hlt⟩ => ?_
      exact hlt.ne (h.injective_get hsame)
    rw [rankAt_eq]
    simp only [hprecedes]
    rw [card_filter_get xs (·.IsBelow (xs.get i)), rankAmong]
  rw [hcolumn, List.ofFn_comp', List.ofFn_get]

theorem rankAmong_perm {xs ys : List Binary64} (h : xs.Perm ys) : rankAmong xs = rankAmong ys :=
  funext fun _ => congrArg (· + 1) (h.countP_eq _)

def gapAmong (points : List (Binary64 × Binary64)) (p : Binary64 × Binary64) : Int :=
  (rankAmong (points.map Prod.fst) p.1 : Int) - rankAmong (points.map Prod.snd) p.2

theorem rankGap_of_nodup (hx : (points.map Prod.fst).Nodup) (hy : (points.map Prod.snd).Nodup) :
    rankGap points = (points.map fun p => gapAmong points p ^ 2).sum := by
  rw [rankGap, rankDistance_eq_sum, ranks_of_nodup hx, ranks_of_nodup hy, List.map_map,
    List.map_map, List.zip_map', List.map_map]
  rfl

/-- Without ties the rows may be put into another order. -/
theorem rankGap_perm (h : points.Perm points') (hx : (points.map Prod.fst).Nodup)
    (hy : (points.map Prod.snd).Nodup) : rankGap points' = rankGap points := by
  have hx' := h.map Prod.fst
  have hy' := h.map Prod.snd
  have hgap : gapAmong points' = gapAmong points := by
    funext p
    rw [gapAmong, gapAmong, rankAmong_perm hx', rankAmong_perm hy']
  rw [rankGap_of_nodup hx hy, rankGap_of_nodup (hx'.nodup_iff.mp hx) (hy'.nodup_iff.mp hy), hgap]
  exact (h.map _).sum_eq.symm

/-! ## The coefficient -/

/-- The greatest distance that rankings of `n` rows can have. -/
def greatestGap (n : Nat) : Rat := n * ((n : Rat) ^ 2 - 1) / 3

theorem greatestGap_pos (hn : 2 ≤ n) : 0 < greatestGap n := by
  have hn' : (2 : Rat) ≤ n := by exact_mod_cast hn
  rw [greatestGap]
  have : 0 < (n : Rat) ^ 2 - 1 := by nlinarith
  positivity

theorem rankGap_le_greatestGap (points : List (Binary64 × Binary64)) :
    (rankGap points : Rat) ≤ greatestGap points.length := by
  have hle : (3 : Rat) * rankGap points ≤ points.length * ((points.length : Rat) ^ 2 - 1) := by
    exact_mod_cast three_mul_rankGap_le points
  rw [greatestGap]
  linarith

theorem rankGap_eq_greatestGap_iff : (rankGap points : Rat) = greatestGap points.length ↔
    ranks (points.map Prod.snd) = oppositeRanks points.length (ranks (points.map Prod.fst)) := by
  rw [← three_mul_rankGap_eq_iff, greatestGap, eq_div_iff three_ne_zero, mul_comm]
  norm_cast

theorem exactSpearman_eq_div (hn : 2 ≤ points.length) :
    exactSpearman points = 1 - 2 * (rankGap points / greatestGap points.length) := by
  have hpos := greatestGap_pos hn
  rw [exactSpearman_eq]
  unfold greatestGap at hpos ⊢
  have hproduct : (points.length : Rat) * (points.length * points.length - 1) =
      points.length * ((points.length : Rat) ^ 2 - 1) := by ring
  have hne : (points.length : Rat) * ((points.length : Rat) ^ 2 - 1) ≠ 0 := by
    intro hzero
    rw [hzero, zero_div] at hpos
    exact hpos.false
  rw [hproduct]
  field_simp
  ring

/-- Of two or more rows, the exact distance of the rankings is between zero, for equal ones alone,
and `n (n² - 1) / 3`, for opposite ones alone. So the coefficient is between one and minus one, with
the ends at the same two. The distance is that of the swapped columns, and without ties that of the
same rows in any order. It is computed exactly while it has no more digits than a significand. -/
theorem rankGap_extremes (h : 2 ≤ points.length) :
    (0 ≤ rankGap points ∧ (rankGap points : Rat) ≤ points.length * (points.length ^ 2 - 1) / 3) ∧
    let rankX := ranks (points.map Prod.fst)
    let rankY := ranks (points.map Prod.snd)
    let opposite := oppositeRanks points.length rankX
    (rankGap points = 0 ↔ rankX = rankY) ∧
    ((rankGap points : Rat) = points.length * (points.length ^ 2 - 1) / 3 ↔ rankY = opposite) ∧
    (-1 ≤ exactSpearman points ∧ exactSpearman points ≤ 1) ∧
    (exactSpearman points = 1 ↔ rankX = rankY) ∧ (exactSpearman points = -1 ↔ rankY = opposite) ∧
    rankGap (points.map Prod.swap) = rankGap points ∧
    ((points.map Prod.fst).Nodup → (points.map Prod.snd).Nodup → ∀ points', points.Perm points' →
      rankGap points' = rankGap points) ∧
    (points.length ≤ 2 ^ 53 → rankGap points ≤ 2 ^ 53 →
      (rankDistance rankX rankY : Binary64).Holds (rankGap points)) := by
  have hpos := greatestGap_pos h
  have hnonneg : 0 ≤ rankGap points := rankDistance_nonneg _ _
  have hnonneg' : (0 : Rat) ≤ rankGap points := by exact_mod_cast hnonneg
  have hle := rankGap_le_greatestGap points
  have hratio : 0 ≤ rankGap points / greatestGap points.length := by positivity
  have hratio' : rankGap points / greatestGap points.length ≤ 1 := (div_le_one hpos).mpr hle
  refine ⟨⟨hnonneg, hle⟩, rankGap_eq_zero_iff, rankGap_eq_greatestGap_iff, ?_, ?_, ?_,
    rankGap_map_swap points, fun hx hy points' hperm => rankGap_perm hperm hx hy, ?_⟩
  · rw [exactSpearman_eq_div h]
    constructor <;> linarith
  · rw [exactSpearman_eq_div h, ← rankGap_eq_zero_iff, sub_eq_self, mul_eq_zero,
      or_iff_right two_ne_zero, div_eq_zero_iff, or_iff_left hpos.ne', Int.cast_eq_zero]
  · have hends : exactSpearman points = -1 ↔ rankGap points / greatestGap points.length = 1 := by
      rw [exactSpearman_eq_div h]
      constructor <;> intro <;> linarith
    rw [hends, div_eq_one_iff_eq hpos.ne', rankGap_eq_greatestGap_iff]
  · intro hlength hexact
    have hranks (f : Binary64 × Binary64 → Binary64) : ∀ r ∈ ranks (points.map f), r ≤ 2 ^ 53 :=
      fun r hr => (le_of_mem_ranks_map hr).trans hlength
    exact holds_rankDistance (hranks Prod.fst) (hranks Prod.snd) hexact

/-- Three rows of which the second column falls, and the same rows from the last one up. -/
theorem rankGap_extremes_of_falling_column :
    let points : List (Binary64 × Binary64) :=
      [(0, 4), (2, ⟨Binary64.signBit⟩), (7, Binary64.negInfinity)]
    2 ≤ points.length ∧ rankGap points = 8 ∧ exactSpearman points = -1 ∧
      rankGap points.reverse = 8 ∧ rankGap (points.map Prod.swap) = 8 := by
  intro points
  have hlength : 2 ≤ points.length := by decide
  have hx : (points.map Prod.fst).Nodup := by decide +kernel
  have hy : (points.map Prod.snd).Nodup := by decide +kernel
  have hrankX : ranks (points.map Prod.fst) = [1, 2, 3] := by
    rw [ranks_of_nodup hx]
    decide +kernel
  have hrankY : ranks (points.map Prod.snd) = [3, 2, 1] := by
    rw [ranks_of_nodup hy]
    decide +kernel
  obtain ⟨-, -, hgreatest, -, -, hlowest, hswap, hperm, -⟩ := rankGap_extremes hlength
  rw [hrankX, hrankY] at hgreatest hlowest
  have hgap : rankGap points = 8 := by
    have := hgreatest.mpr rfl
    norm_num [points] at this
    exact_mod_cast this
  exact ⟨hlength, hgap, hlowest.mpr rfl, (hperm hx hy _ points.reverse_perm.symm).trans hgap,
    hswap.trans hgap⟩

end FormulaSearch
