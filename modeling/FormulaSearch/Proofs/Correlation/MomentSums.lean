import FormulaSearch.Correlation.Moments
import Mathlib.Algebra.Order.BigOperators.Ring.Finset
import Mathlib.Tactic

/-!
# Moments in two passes

In exact arithmetic the moments that are kept up to date point by point are those of two passes: the
means first, and then the sums of the deviations from them. So the inequality of Cauchy and Schwarz
holds for them, a sum of squares is zero for a constant column alone, and the square of the
coefficient of Pearson depends neither on the scales of the columns nor on the order of the points.
-/

namespace FormulaSearch

theorem sum_sq_eq_zero_iff {α R : Type} [Ring R] [LinearOrder R] [IsStrictOrderedRing R] (f : α → R)
    (l : List α) : (l.map fun a => f a ^ 2).sum = 0 ↔ ∀ a ∈ l, f a = 0 := by
  have hsquares : ∀ t ∈ l.map fun a => f a ^ 2, 0 ≤ t := by
    simp only [List.forall_mem_map]
    exact fun _ _ => sq_nonneg _
  constructor
  · intro hsum a ha
    have hsquare := List.all_zero_of_le_zero_le_of_sum_eq_zero hsquares hsum
      (List.mem_map_of_mem ha)
    exact (pow_eq_zero_iff two_ne_zero).mp hsquare
  · intro hzero
    apply List.sum_eq_zero
    simp only [List.forall_mem_map]
    intro a ha
    rw [hzero a ha, zero_pow two_ne_zero]

section Deviations

variable {α : Type} (f g : α → Rat) {l l' : List α}

def meanOf (l : List α) : Rat := (l.map f).sum / l.length

/-- The sum of the products of the deviations of two readings from their means. -/
def codeviation (l : List α) : Rat :=
  (l.map fun a => (f a - meanOf f l) * (g a - meanOf g l)).sum

theorem length_ne_zero (h : l ≠ []) : (l.length : Rat) ≠ 0 := by
  exact_mod_cast mt List.length_eq_zero_iff.mp h

theorem sum_mul_deviations (c d : Rat) (l : List α) :
    (l.map fun a => (f a - c) * (g a - d)).sum =
      (l.map fun a => f a * g a).sum - d * (l.map f).sum - c * (l.map g).sum +
        l.length * (c * d) := by
  induction l with
  | nil => simp
  | cons a l ih =>
    simp only [List.map_cons, List.sum_cons, List.length_cons, ih]
    push_cast
    ring

theorem codeviation_eq (h : l ≠ []) : codeviation f g l =
    (l.map fun a => f a * g a).sum - (l.map f).sum * (l.map g).sum / l.length := by
  have hlength := length_ne_zero h
  rw [codeviation, sum_mul_deviations, meanOf, meanOf]
  field_simp
  ring

theorem codeviation_comm (l : List α) : codeviation f g l = codeviation g f l := by
  simp only [codeviation, mul_comm]

theorem sum_map_concat (l : List α) (a : α) : ((l ++ [a]).map f).sum = (l.map f).sum + f a := by
  rw [List.map_append, List.sum_append, List.map_singleton, List.sum_singleton]

theorem meanOf_concat (h : l ≠ []) (a : α) :
    meanOf f (l ++ [a]) = meanOf f l + (f a - meanOf f l) / (l.length + 1 : Nat) := by
  have hlength := length_ne_zero h
  have hnext : (l.length : Rat) + 1 ≠ 0 := by positivity
  simp only [meanOf, sum_map_concat, List.length_append, List.length_singleton]
  push_cast
  field_simp
  ring

/-- The deviations of a further element from the old means count with the share of the old ones. -/
theorem codeviation_concat (h : l ≠ []) (a : α) : codeviation f g (l ++ [a]) = codeviation f g l +
    (f a - meanOf f l) * (g a - meanOf g l) * (l.length / (l.length + 1 : Nat)) := by
  have hlength := length_ne_zero h
  have hnext : (l.length : Rat) + 1 ≠ 0 := by positivity
  rw [codeviation_eq f g h, codeviation_eq f g (by simp), meanOf, meanOf]
  simp only [sum_map_concat, List.length_append, List.length_singleton]
  push_cast
  field_simp
  ring

theorem meanOf_perm (h : l.Perm l') : meanOf f l' = meanOf f l := by
  rw [meanOf, meanOf, (h.map f).sum_eq, h.length_eq]

theorem codeviation_perm (h : l.Perm l') : codeviation f g l' = codeviation f g l := by
  rw [codeviation, codeviation, meanOf_perm f h, meanOf_perm g h]
  exact (h.map _).sum_eq.symm

theorem meanOf_affine (a b : Rat) (h : l ≠ []) :
    meanOf (fun x => a * f x + b) l = a * meanOf f l + b := by
  have hlength := length_ne_zero h
  have hsum : (l.map fun x => a * f x + b).sum = a * (l.map f).sum + l.length * b := by
    rw [List.sum_map_add, List.sum_map_mul_left, List.map_const', List.sum_replicate, nsmul_eq_mul]
  rw [meanOf, meanOf, hsum]
  field_simp

/-- Only the factor of an affine map stays in the deviations. -/
theorem codeviation_affine (a b : Rat) (h : l ≠ []) :
    codeviation (fun x => a * f x + b) g l = a * codeviation f g l := by
  rw [codeviation, codeviation, meanOf_affine f a b h, ← List.sum_map_mul_left]
  refine congrArg List.sum (List.map_congr_left fun x _ => ?_)
  ring

theorem sq_codeviation_le (l : List α) :
    codeviation f g l ^ 2 ≤ codeviation f f l * codeviation g g l := by
  simp only [codeviation, ← Fin.sum_univ_fun_getElem, ← sq]
  exact Finset.sum_mul_sq_le_sq_mul_sq _ _ _

theorem codeviation_self_eq_zero_iff (h : l ≠ []) :
    codeviation f f l = 0 ↔ ∃ c, ∀ a ∈ l, f a = c := by
  have hsquares : codeviation f f l = (l.map fun a => (f a - meanOf f l) ^ 2).sum := by
    simp only [codeviation, sq]
  rw [hsquares, sum_sq_eq_zero_iff]
  constructor
  · exact fun hzero => ⟨meanOf f l, fun a ha => sub_eq_zero.mp (hzero a ha)⟩
  · intro ⟨c, hc⟩ a ha
    have hmean : meanOf f l = c := by
      rw [meanOf, List.map_congr_left hc, List.map_const', List.sum_replicate, nsmul_eq_mul]
      exact mul_div_cancel_left₀ c (length_ne_zero h)
    rw [hmean, hc a ha, sub_self]

theorem codeviation_map {β : Type} (h : β → α) (l : List β) :
    codeviation f g (l.map h) = codeviation (fun x => f (h x)) (fun x => g (h x)) l := by
  simp only [codeviation, meanOf, List.map_map, List.length_map, Function.comp_def]

end Deviations

/-! ## The recurrence -/

namespace Moments

variable {points points' : List (Rat × Rat)}

/-- The moments of points in two passes. -/
def twoPass (points : List (Rat × Rat)) : Moments Rat where
  count := points.length
  meanX := meanOf Prod.fst points
  meanY := meanOf Prod.snd points
  squaresX := codeviation Prod.fst Prod.fst points
  squaresY := codeviation Prod.snd Prod.snd points
  products := codeviation Prod.fst Prod.snd points

theorem ofPoint_eq (p : Rat × Rat) : ofPoint p.1 p.2 = twoPass [p] := by
  simp [ofPoint, twoPass, meanOf, codeviation]

theorem add_twoPass (h : points ≠ []) (p : Rat × Rat) :
    (twoPass points).add p = twoPass (points ++ [p]) := by
  simp only [twoPass, meanOf_concat _ h, codeviation_concat _ _ h, List.length_append,
    List.length_singleton]
  rfl

theorem foldl_add_twoPass (h : points ≠ []) (rest : List (Rat × Rat)) :
    rest.foldl add (twoPass points) = twoPass (points ++ rest) := by
  induction rest generalizing points with
  | nil => rw [List.append_nil, List.foldl_nil]
  | cons p rest ih =>
    rw [List.foldl_cons, add_twoPass h, ih (List.append_ne_nil_of_left_ne_nil h _),
      List.append_assoc, List.singleton_append]

theorem ofPoints_eq_twoPass (p : Rat × Rat) (rest : List (Rat × Rat)) :
    ofPoints p rest = twoPass (p :: rest) := by
  rw [ofPoints, ofPoint_eq, foldl_add_twoPass (List.cons_ne_nil p [])]
  rfl

end Moments

/-! ## The square of the coefficient -/

/-- The square of the coefficient of Pearson, computed without rounding. A quotient by zero is
zero. -/
def squaredPearson : List (Rat × Rat) → Rat
  | [] => 0
  | p :: rest =>
    let m := Moments.ofPoints p rest
    let n : Rat := m.count
    (m.products / n) ^ 2 / (m.squaresX / n * (m.squaresY / n))

variable {points points' : List (Rat × Rat)}

theorem squaredPearson_eq (points : List (Rat × Rat)) : squaredPearson points =
    codeviation Prod.fst Prod.snd points ^ 2 /
      (codeviation Prod.fst Prod.fst points * codeviation Prod.snd Prod.snd points) := by
  cases points with
  | nil => simp [squaredPearson, codeviation]
  | cons p rest =>
    have hcount : ((p :: rest).length : Rat) ^ 2 ≠ 0 :=
      pow_ne_zero 2 (length_ne_zero (List.cons_ne_nil p rest))
    simp only [squaredPearson, Moments.ofPoints_eq_twoPass, Moments.twoPass]
    rw [div_pow, div_mul_div_comm, ← sq, div_div_div_cancel_right₀ hcount]

theorem squaredPearson_perm (h : points.Perm points') :
    squaredPearson points' = squaredPearson points := by
  simp only [squaredPearson_eq, codeviation_perm _ _ h]

theorem squaredPearson_map_swap (points : List (Rat × Rat)) :
    squaredPearson (points.map Prod.swap) = squaredPearson points := by
  simp only [squaredPearson_eq, codeviation_map, Prod.fst_swap, Prod.snd_swap]
  rw [codeviation_comm, mul_comm]

theorem squaredPearson_affine_fst {a : Rat} (ha : a ≠ 0) (b : Rat) (points : List (Rat × Rat)) :
    squaredPearson (points.map fun p => (a * p.1 + b, p.2)) = squaredPearson points := by
  rcases eq_or_ne points [] with rfl | hne
  · rfl
  · have hsquares : codeviation (fun p : Rat × Rat => a * p.1 + b) (fun p => a * p.1 + b) points =
        a * (a * codeviation Prod.fst Prod.fst points) := by
      rw [codeviation_affine _ _ a b hne, codeviation_comm, codeviation_affine _ _ a b hne]
    simp only [squaredPearson_eq, codeviation_map]
    rw [hsquares, codeviation_affine _ _ a b hne, mul_pow, ← mul_assoc a a, ← sq, mul_assoc,
      mul_div_mul_left _ _ (pow_ne_zero 2 ha)]

theorem squaredPearson_affine_snd {a : Rat} (ha : a ≠ 0) (b : Rat) (points : List (Rat × Rat)) :
    squaredPearson (points.map fun p => (p.1, a * p.2 + b)) = squaredPearson points := by
  have hswap := squaredPearson_affine_fst ha b (points.map Prod.swap)
  rw [squaredPearson_map_swap, List.map_map] at hswap
  rw [← hswap, ← squaredPearson_map_swap, List.map_map]
  rfl

/-- In exact arithmetic the recurrence ends with the number of points, the means and the sums of the
products of deviations from them. So the inequality of Cauchy and Schwarz holds, a sum of squares is
zero for a constant column alone, and the square of the coefficient depends neither on the scales of
the columns nor on the order of the points. -/
theorem recurrence_computes_deviations (p : Rat × Rat) (rest : List (Rat × Rat)) :
    (Moments.ofPoints p rest).count = (p :: rest).length ∧
    let points := p :: rest
    let m := Moments.ofPoints p rest
    (m.meanX = (points.map Prod.fst).sum / points.length ∧
      m.meanY = (points.map Prod.snd).sum / points.length) ∧
    (m.squaresX = (points.map fun q => (q.1 - m.meanX) ^ 2).sum ∧
      m.squaresY = (points.map fun q => (q.2 - m.meanY) ^ 2).sum ∧
      m.products = (points.map fun q => (q.1 - m.meanX) * (q.2 - m.meanY)).sum) ∧
    m.products ^ 2 ≤ m.squaresX * m.squaresY ∧
    ((m.squaresX = 0 ↔ ∃ c, ∀ q ∈ points, q.1 = c) ∧
      (m.squaresY = 0 ↔ ∃ c, ∀ q ∈ points, q.2 = c)) ∧
    (∀ a b : Rat, a ≠ 0 →
      squaredPearson (points.map fun q => (a * q.1 + b, q.2)) = squaredPearson points ∧
      squaredPearson (points.map fun q => (q.1, a * q.2 + b)) = squaredPearson points) ∧
    ∀ points', points.Perm points' → squaredPearson points' = squaredPearson points := by
  have hne : p :: rest ≠ [] := List.cons_ne_nil p rest
  rw [Moments.ofPoints_eq_twoPass]
  refine ⟨rfl, ⟨rfl, rfl⟩, ⟨?_, ?_, rfl⟩, sq_codeviation_le _ _ _,
    ⟨codeviation_self_eq_zero_iff _ hne, codeviation_self_eq_zero_iff _ hne⟩,
    fun a b ha => ⟨squaredPearson_affine_fst ha b _, squaredPearson_affine_snd ha b _⟩,
    fun points' => squaredPearson_perm⟩
  · simp only [Moments.twoPass, codeviation, sq]
  · simp only [Moments.twoPass, codeviation, sq]

/-- Three points on a falling line, and three that differ in one coordinate only. -/
theorem recurrence_computes_deviations_of_lines :
    let line : List (Rat × Rat) := [(1, 8), (2, 5), (4, -1)]
    squaredPearson line = 1 ∧ squaredPearson (line.map fun q => (q.1, -1 / 3 * q.2 + 2)) = 1 ∧
      squaredPearson line.reverse = 1 ∧
      (Moments.ofPoints ((1 : Rat), (1 : Rat)) [(1, 3), (1, 2)]).squaresX = 0 := by
  intro line
  have hline : squaredPearson line = 1 := by decide +kernel
  obtain ⟨-, -, -, -, -, haffine, hperm⟩ := recurrence_computes_deviations (1, 8) [(2, 5), (4, -1)]
  obtain ⟨-, -, -, -, ⟨hconstant, -⟩, -⟩ := recurrence_computes_deviations (1, 1) [(1, 3), (1, 2)]
  refine ⟨hline, (haffine (-1 / 3) 2 (by norm_num)).2.trans hline,
    (hperm _ line.reverse_perm.symm).trans hline, hconstant.mpr ⟨1, by simp⟩⟩

end FormulaSearch
