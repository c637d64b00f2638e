import FormulaSearch.Correlation.Metric
import FormulaSearch.Proofs.Correlation.Ranking
import FormulaSearch.Proofs.Number.Operations

/-!
# Bounds of the rank coefficient

The coefficient of Spearman is one less a quotient of which both sides are sums and products of
nonnegative numbers, so rounding never lifts it above one. As long as `n (n² - 1)` has no more digits
than a significand, the distance of the ranks and the divisor are exact, and the quotient is at most
two.
-/

namespace FormulaSearch

open Binary64

/-! ## The exact distance in floating point -/

theorem holds_squaredGap {a b : Nat} (ha : a ≤ 2 ^ 53) (hb : b ≤ 2 ^ 53)
    (h : ((a : Int) - b) ^ 2 ≤ 2 ^ 53) : (squaredGap a b : Binary64).Holds (((a : Int) - b) ^ 2) := by
  have hgap : |(a : Int) - b| ≤ 2 ^ 53 := by
    rw [abs_le]
    constructor <;> nlinarith
  have hdifference := (holds_natCast ha).sub (holds_natCast hb) hgap
  rw [sq] at h ⊢
  exact hdifference.mul hdifference (by rwa [abs_of_nonneg (mul_self_nonneg _)])

theorem holds_foldl_squaredGap {pairs : List (Nat × Nat)} {sum : Binary64} {k : Int}
    (hsum : sum.Holds k) (hk : 0 ≤ k) (hpairs : ∀ pair ∈ pairs, pair.1 ≤ 2 ^ 53 ∧ pair.2 ≤ 2 ^ 53)
    (htotal : k + (pairs.map fun pair => ((pair.1 : Int) - pair.2) ^ 2).sum ≤ 2 ^ 53) :
    (pairs.foldl (fun sum pair => sum + squaredGap pair.1 pair.2) sum).Holds
      (k + (pairs.map fun pair => ((pair.1 : Int) - pair.2) ^ 2).sum) := by
  induction pairs generalizing sum k with
  | nil => simpa using hsum
  | cons pair pairs ih =>
    obtain ⟨⟨hfst, hsnd⟩, hpairs⟩ := List.forall_mem_cons.mp hpairs
    have hrest : 0 ≤ (pairs.map fun pair => ((pair.1 : Int) - pair.2) ^ 2).sum := by
      apply List.sum_nonneg
      simp only [List.forall_mem_map]
      exact fun pair _ => sq_nonneg _
    have hsquare := sq_nonneg ((pair.1 : Int) - pair.2)
    rw [List.map_cons, List.sum_cons, ← add_assoc] at htotal ⊢
    have hgap := holds_squaredGap hfst hsnd (by linarith)
    have hnext := hsum.add hgap (by rw [abs_of_nonneg (by linarith)]; linarith)
    exact ih hnext (by linarith) hpairs htotal

theorem holds_rankDistance {as bs : List Nat} (has : ∀ a ∈ as, a ≤ 2 ^ 53)
    (hbs : ∀ b ∈ bs, b ≤ 2 ^ 53) (hdistance : (rankDistance as bs : Int) ≤ 2 ^ 53) :
    (rankDistance as bs : Binary64).Holds (rankDistance as bs) := by
  rw [rankDistance_eq_sum] at hdistance ⊢
  have hzero : ((0 : Nat) : Binary64).Holds 0 := holds_zero
  have hpairs : ∀ pair ∈ as.zip bs, pair.1 ≤ 2 ^ 53 ∧ pair.2 ≤ 2 ^ 53 := fun pair hpair =>
    ⟨has _ (List.of_mem_zip hpair).1, hbs _ (List.of_mem_zip hpair).2⟩
  have hsum := holds_foldl_squaredGap hzero le_rfl hpairs (by rwa [zero_add])
  rw [zero_add] at hsum
  exact hsum

/-! ## The lower bound -/

theorem le_of_mem_ranks {xs : List Binary64} {r : Nat} (h : r ∈ ranks xs) : r ≤ xs.length := by
  have := (ranks_perm xs).mem_iff.mp h
  rw [List.mem_range'_1] at this
  omega

/-- What the coefficient lacks to one. -/
def rankQuotient (points : List (Binary64 × Binary64)) : Binary64 :=
  let distance : Binary64 :=
    rankDistance (ranks (points.map Prod.fst)) (ranks (points.map Prod.snd))
  let n : Binary64 := points.length
  6 * distance / (n * (n * n - 1))

variable {points : List (Binary64 × Binary64)}

theorem spearman_eq (h : points ≠ []) :
    spearman points = finiteOrZero (1 - rankQuotient points) := by
  have hempty : points.isEmpty = false := by simpa using h
  simp only [spearman, hempty]
  rfl

theorem holds_divisor {n : Nat} (hn : 2 ≤ n) (hsize : n * (n ^ 2 - 1) ≤ 2 ^ 53) :
    ((n : Binary64) * ((n : Binary64) * n - 1)).Holds (n * (n ^ 2 - 1)) := by
  have hsize' : (n : Int) * (n ^ 2 - 1) ≤ 2 ^ 53 := by
    have : 1 ≤ n ^ 2 := Nat.one_le_pow _ _ (by omega)
    exact_mod_cast hsize
  have hn' : (2 : Int) ≤ n := by exact_mod_cast hn
  have hsquare : (n : Int) * n ≤ 2 ^ 53 := by nlinarith
  have hvalue : (n : Binary64).Holds n := holds_natCast (by
    zify
    nlinarith)
  have hproduct := hvalue.mul hvalue (by rwa [abs_of_nonneg (by positivity)])
  have hless := hproduct.sub holds_one (by
    rw [abs_of_nonneg (by nlinarith)]
    linarith)
  rw [sq] at hsize' ⊢
  exact hvalue.mul hless (by rwa [abs_of_nonneg (by nlinarith)])

/-- The quotient is not above two, as the exact one is not, and twice the divisor is representable. -/
theorem quotient_bounds {x y : Binary64} {S D : Int} (hx : x.Holds S) (hy : y.Holds D)
    (hS : 0 ≤ S) (hle : 3 * S ≤ D) (hpositive : 0 < D) (hD : D ≤ 2 ^ 53) :
    (6 * x / y).isFinite = true ∧ 0 ≤ (6 * x / y).toReal ∧ (6 * x / y).toReal ≤ 2 := by
  have hS' : (0 : ℝ) ≤ S := by exact_mod_cast hS
  have hle' : (3 : ℝ) * S ≤ D := by exact_mod_cast hle
  have hpositive' : (0 : ℝ) < D := by exact_mod_cast hpositive
  have hD' : (D : ℝ) ≤ 2 ^ 53 := by exact_mod_cast hD
  have htwice : IsRepresentable (D * 2 ^ (1 : Int)) :=
    ⟨D, 1, by rwa [abs_of_pos hpositive], by decide, rfl⟩
  rw [zpow_one] at htwice
  have hsmall {r : ℝ} (hr : 0 ≤ r) (hr' : r ≤ 2 ^ 54) : |r| ≤ 2 ^ 1023 := by
    rw [abs_of_nonneg hr]
    exact hr'.trans (pow_le_pow_right₀ one_le_two (by decide))
  have hsix : (6 : Binary64).Holds 6 := holds_natCast (n := 6) (by decide)
  have hproduct := roundsTo_mul hsix.isFinite hx.isFinite
  rw [hsix.toReal, hx.toReal] at hproduct
  push_cast at hproduct
  have hfinite := hproduct.isFinite (hsmall (by positivity) (by linarith))
  have hlower := hproduct.ge hfinite isRepresentable_zero (by positivity)
  have hupper := hproduct.le hfinite htwice (by linarith)
  have hquotient := roundsTo_div hfinite hy.isFinite (by rw [hy.toReal]; exact hpositive'.ne')
  rw [hy.toReal] at hquotient
  have hratio : 0 ≤ (6 * x).toReal / D := by positivity
  have hratio' : (6 * x).toReal / D ≤ 2 := by
    rw [div_le_iff₀ hpositive']
    linarith
  have htwo : IsRepresentable 2 := by
    simpa using isRepresentable_natCast (n := 2) (by decide)
  have hfinite' := hquotient.isFinite (hsmall hratio (hratio'.trans (by norm_num)))
  exact ⟨hfinite', hquotient.ge hfinite' isRepresentable_zero hratio,
    hquotient.le hfinite' htwo hratio'⟩

theorem rankQuotient_bounds (hlength : 2 ≤ points.length)
    (hsize : points.length * (points.length ^ 2 - 1) ≤ 2 ^ 53) :
    (rankQuotient points).isFinite = true ∧ 0 ≤ (rankQuotient points).toReal ∧
      (rankQuotient points).toReal ≤ 2 := by
  have hsize' : (points.length : Int) * (points.length ^ 2 - 1) ≤ 2 ^ 53 := by
    have : 1 ≤ points.length ^ 2 := Nat.one_le_pow _ _ (by omega)
    exact_mod_cast hsize
  have hlength' : (2 : Int) ≤ points.length := by exact_mod_cast hlength
  have hsmall : points.length ≤ 2 ^ 53 := by
    zify
    nlinarith
  have hx := ranks_perm (points.map Prod.fst)
  have hy := ranks_perm (points.map Prod.snd)
  rw [List.length_map] at hx hy
  have hexact := three_mul_rankDistance_le points.length hx hy
  have hnonneg := rankDistance_nonneg (ranks (points.map Prod.fst)) (ranks (points.map Prod.snd))
  have hranks (xs : List Binary64) (hxs : xs.length = points.length) :
      ∀ r ∈ ranks xs, r ≤ 2 ^ 53 := fun r hr => (le_of_mem_ranks hr).trans (hxs ▸ hsmall)
  have hdistance := holds_rankDistance (hranks (points.map Prod.fst) (List.length_map _))
    (hranks (points.map Prod.snd) (List.length_map _)) (by linarith)
  have hdivisor := holds_divisor hlength hsize
  have hpositive : 0 < (points.length : Int) * (points.length ^ 2 - 1) := by nlinarith
  exact quotient_bounds hdistance hdivisor hnonneg hexact hpositive hsize'

theorem one_sub_bounds {q : Binary64} (hq : q.isFinite = true) (hnonneg : 0 ≤ q.toReal)
    (hle : q.toReal ≤ 2) : (1 - q).isFinite = true ∧ -1 ≤ (1 - q).toReal ∧ (1 - q).toReal ≤ 1 := by
  have hrounds := roundsTo_sub holds_one.isFinite hq
  rw [holds_one.toReal, Int.cast_one] at hrounds
  have hfinite := hrounds.isFinite (by
    have : |1 - q.toReal| ≤ 1 := by rw [abs_le]; constructor <;> linarith
    exact this.trans (one_le_pow₀ one_le_two))
  exact ⟨hfinite, hrounds.ge hfinite isRepresentable_one.neg (by linarith),
    hrounds.le hfinite isRepresentable_one (by linarith)⟩

/-- Of one row the quotient is no number, so the coefficient is zero. -/
theorem spearman_of_length_eq_one (h : points.length = 1) : spearman points = 0 := by
  have hranks (xs : List Binary64) (hxs : xs.length = 1) : ranks xs = [1] := by
    have := ranks_perm xs
    rw [hxs] at this
    exact List.perm_singleton.mp this
  rw [spearman_eq (List.ne_nil_of_length_pos (by omega)), rankQuotient,
    hranks _ (by rwa [List.length_map]), hranks _ (by rwa [List.length_map]), h]
  decide +kernel

theorem neg_one_le_spearman (hsize : points.length * (points.length ^ 2 - 1) ≤ 2 ^ 53) :
    -1 ≤ (spearman points).toReal := by
  rcases Nat.lt_or_ge points.length 2 with hshort | hlength
  · have hcoefficient : spearman points = 0 := by
      rcases points with _ | ⟨p, rest⟩
      · rfl
      · exact spearman_of_length_eq_one (by simp at hshort ⊢; exact hshort)
    rw [hcoefficient, holds_zero.toReal]
    norm_num
  · obtain ⟨hquotient, hnonneg, hle⟩ := rankQuotient_bounds hlength hsize
    obtain ⟨hfinite, hlower, -⟩ := one_sub_bounds hquotient hnonneg hle
    rwa [spearman_eq (List.ne_nil_of_length_pos (by omega)), finiteOrZero, if_pos hfinite]

/-! ## The upper bound -/

/-- The value is not negative, if it is finite. -/
def Binary64.IsNonneg (x : Binary64) : Prop := x.isFinite = true → 0 ≤ x.toReal

section Nonneg

variable {x y : Binary64}

theorem Binary64.IsNonneg.add (hx : x.IsNonneg) (hy : y.IsNonneg) : (x + y).IsNonneg := by
  intro h
  obtain ⟨hx', hy'⟩ := isFinite_of_add h
  exact (roundsTo_add hx' hy').ge h isRepresentable_zero (add_nonneg (hx hx') (hy hy'))

theorem Binary64.IsNonneg.mul (hx : x.IsNonneg) (hy : y.IsNonneg) : (x * y).IsNonneg := by
  intro h
  obtain ⟨hx', hy'⟩ := isFinite_of_mul h
  exact (roundsTo_mul hx' hy').ge h isRepresentable_zero (mul_nonneg (hx hx') (hy hy'))

theorem Binary64.isNonneg_mul_self (x : Binary64) : (x * x).IsNonneg := by
  intro h
  have hx := (isFinite_of_mul h).1
  exact (roundsTo_mul hx hx).ge h isRepresentable_zero (mul_self_nonneg _)

theorem Binary64.IsNonneg.div (hx : x.IsNonneg) (hy : y.IsNonneg) : (x / y).IsNonneg := by
  intro h
  obtain ⟨hx', ⟨hy', hne⟩ | hzero⟩ := isFinite_of_div h
  · exact (roundsTo_div hx' hy' hne).ge h isRepresentable_zero (div_nonneg (hx hx') (hy hy'))
  · exact hzero.ge

theorem Binary64.isNonneg_natCast (n : Nat) : (n : Binary64).IsNonneg := fun h =>
  (roundsTo_natCast n).ge h isRepresentable_zero n.cast_nonneg

end Nonneg

theorem isNonneg_rankDistance (as bs : List Nat) : (rankDistance as bs : Binary64).IsNonneg := by
  have hfold (pairs : List (Nat × Nat)) {sum : Binary64} (hsum : sum.IsNonneg) :
      (pairs.foldl (fun sum pair => sum + squaredGap pair.1 pair.2) sum).IsNonneg := by
    induction pairs generalizing sum with
    | nil => exact hsum
    | cons pair pairs ih => exact ih (hsum.add (isNonneg_mul_self _))
  exact hfold _ (isNonneg_natCast 0)

theorem isNonneg_divisor {n : Nat} (hn : 1 ≤ n) :
    ((n : Binary64) * ((n : Binary64) * n - 1)).IsNonneg := by
  refine (isNonneg_natCast n).mul fun h => ?_
  have hsquare := (isFinite_of_sub h).1
  have hvalue := (isFinite_of_mul hsquare).1
  have hn' := (roundsTo_natCast n).ge hvalue isRepresentable_one (by exact_mod_cast hn)
  have hsquare' := (roundsTo_mul hvalue hvalue).ge hsquare isRepresentable_one (by nlinarith)
  refine (roundsTo_sub hsquare holds_one.isFinite).ge h isRepresentable_zero ?_
  rw [holds_one.toReal, Int.cast_one]
  linarith

theorem isNonneg_rankQuotient (h : points ≠ []) : (rankQuotient points).IsNonneg := by
  have hsix : (6 : Binary64).IsNonneg := isNonneg_natCast 6
  exact (hsix.mul (isNonneg_rankDistance _ _)).div
    (isNonneg_divisor (List.length_pos_iff.mpr h))

theorem spearman_le_one (points : List (Binary64 × Binary64)) : (spearman points).toReal ≤ 1 := by
  rcases eq_or_ne points [] with rfl | hne
  · change (0 : Binary64).toReal ≤ 1
    rw [holds_zero.toReal]
    norm_num
  · rw [spearman_eq hne, finiteOrZero]
    split
    · next hfinite =>
      have hquotient := (isFinite_of_sub hfinite).2
      have hnonneg := isNonneg_rankQuotient hne hquotient
      refine (roundsTo_sub holds_one.isFinite hquotient).le hfinite isRepresentable_one ?_
      rw [holds_one.toReal, Int.cast_one]
      linarith
    · rw [holds_zero.toReal]
      norm_num

end FormulaSearch
