import FormulaSearch.Proofs.Correlation.Ranking
import FormulaSearch.Proofs.Model.Record
import FormulaSearch.Proofs.Number.Arithmetic

/-!
# Constant columns

Against a constant column the coefficient of Pearson is zero: all deviations are zero, or NaN if the
constant is not finite, and so is what is made of them. The coefficient of Spearman is not. The
values of a constant column rank in the order of the rows, so the coefficient tells how far the other
column follows that order. This is what a genome scores whose formula has no value on any row.
-/

namespace FormulaSearch

open Binary64
open Trial (Ensures)

/-! ## Deviations from a constant -/

namespace Binary64

/-- The running mean of copies of `c`. A zero may have the other sign. -/
inductive IsMeanOfCopies (mean c : Binary64) : Prop
  | nan (h : mean.unpacked = .notANumber)
  | same (h : mean.unpacked = c.unpacked)
  | zeros {s t} (h : mean.unpacked = .zero s) (hc : c.unpacked = .zero t)

variable {mean c d : Binary64}

theorem IsMeanOfCopies.isVoid_sub (h : mean.IsMeanOfCopies c) : IsVoid (c - mean).unpacked := by
  rw [unpacked_sub]
  apply IsVoid.stored
  cases h with
  | nan h =>
    rw [h]
    cases c.unpacked <;> exact True.intro
  | same h =>
    rw [h]
    exact .sub_self _
  | @zeros s t h hc =>
    rw [h, hc]
    cases s <;> cases t <;> exact True.intro

theorem IsMeanOfCopies.add (h : mean.IsMeanOfCopies c) (hd : IsVoid d.unpacked) :
    (mean + d).IsMeanOfCopies c := by
  have hsum := unpacked_add mean d
  rcases hd.add_cases mean.unpacked with hadd | hadd | ⟨s, t, hmean, hadd⟩ <;> rw [hadd] at hsum
  · rw [stored_unpacked] at hsum
    cases h with
    | nan h => exact .nan (hsum.trans h)
    | same h => exact .same (hsum.trans h)
    | zeros h hc => exact .zeros (hsum.trans h) hc
  · exact .nan (hsum.trans stored_notANumber)
  · rw [stored_zero] at hsum
    cases h with
    | nan h => cases hmean.symm.trans h
    | same h => exact .zeros hsum (h.symm.trans hmean)
    | zeros h hc => exact .zeros hsum hc

end Binary64

/-! ## The moments with a constant column -/

/-- What is kept of points of which the second coordinate is always `c`. -/
structure Moments.IsFlat (m : Moments Binary64) (c : Binary64) : Prop where
  meanY : m.meanY.IsMeanOfCopies c
  squaresY : IsVoid m.squaresY.unpacked
  products : IsVoid m.products.unpacked

theorem Moments.IsFlat.add {m : Moments Binary64} {c : Binary64} (h : m.IsFlat c) (x : Binary64) :
    (m.add (x, c)).IsFlat c := by
  have hdeviation : IsVoid (c - m.meanY).unpacked := h.meanY.isVoid_sub
  constructor
  · apply h.meanY.add
    rw [unpacked_div]
    exact hdeviation.div.stored
  · simp only [Moments.add, unpacked_add, unpacked_mul]
    exact (h.squaresY.add hdeviation.mul_right.stored.mul_right.stored).stored
  · simp only [Moments.add, unpacked_add, unpacked_mul]
    exact (h.products.add hdeviation.mul_left.stored.mul_right.stored).stored

theorem Moments.IsFlat.foldl_add {rest : List (Binary64 × Binary64)} {m : Moments Binary64}
    {c : Binary64} (h : m.IsFlat c) (hrest : ∀ p ∈ rest, p.2 = c) :
    (rest.foldl Moments.add m).IsFlat c := by
  induction rest generalizing m with
  | nil => exact h
  | cons p rest ih =>
    obtain ⟨rfl, hrest⟩ := List.forall_mem_cons.mp hrest
    exact ih (h.add p.1) hrest

theorem Moments.isFlat_ofPoint (x c : Binary64) : (ofPoint x c).IsFlat c := by
  have hzero : IsVoid (0 : Binary64).unpacked := by
    rw [show (0 : Binary64) = ⟨0⟩ by decide +kernel]
    exact IsVoid.stored (u := .zero .positive) True.intro
  exact ⟨.same rfl, hzero, hzero⟩

theorem finiteOrZero_of_nan {x : Binary64} (hx : x.unpacked = .notANumber) :
    finiteOrZero x = 0 := by
  have hnan : x.isNaN = true := by
    by_contra h
    exact Binary64.unpacked_ne_notANumber (Bool.not_eq_true _ ▸ h) hx
  rw [finiteOrZero, Binary64.isFinite_eq_not, hnan]
  rfl

theorem pearson_of_constant {points : List (Binary64 × Binary64)} {c : Binary64}
    (h : ∀ p ∈ points, p.2 = c) : pearson points = 0 := by
  cases points with
  | nil => rfl
  | cons p rest =>
    obtain ⟨rfl, hrest⟩ := List.forall_mem_cons.mp h
    have hflat : (Moments.ofPoints p rest).IsFlat p.2 := (Moments.isFlat_ofPoint _ _).foldl_add hrest
    apply finiteOrZero_of_nan
    simp only [unpacked_div, unpacked_mul, unpacked_sqrt]
    rw [hflat.products.div.stored.div_eq_notANumber
      hflat.squaresY.div.stored.sqrt.stored.mul_left.stored, stored_notANumber]

/-! ## The coefficients -/

/-- The coefficient of Spearman of a column against the numbers of its rows. -/
def rowTrend (xs : List Binary64) : Binary64 :=
  let distance : Binary64 := rankDistance (ranks xs) (List.range' 1 xs.length)
  let n : Binary64 := xs.length
  finiteOrZero (1 - 6 * distance / (n * (n * n - 1)))

theorem spearman_of_isAscending {points : List (Binary64 × Binary64)} (hpoints : points ≠ [])
    (h : IsAscending (points.map Prod.snd)) : spearman points = rowTrend (points.map Prod.fst) := by
  have hempty : points.isEmpty = false := by simpa using hpoints
  simp only [spearman, rowTrend, hempty, ranks_of_isAscending h, List.length_map]
  rfl

def Metric.againstConstant : Metric → List Binary64 → Binary64
  | pearson, _ => 0
  | spearman, xs => rowTrend xs

theorem Metric.coefficient_zip_replicate (metric : Metric) {xs : List Binary64} (hxs : xs ≠ [])
    (c : Binary64) : metric.coefficient (xs.zip (.replicate xs.length c)) =
      metric.againstConstant xs := by
  have hfst : (xs.zip (.replicate xs.length c)).map Prod.fst = xs := by
    rw [List.map_fst_zip (by simp)]
  have hsnd : (xs.zip (.replicate xs.length c)).map Prod.snd = .replicate xs.length c := by
    rw [List.map_snd_zip (by simp)]
  cases metric with
  | pearson =>
    apply pearson_of_constant
    intro p hp
    exact List.eq_of_mem_replicate (hsnd ▸ List.mem_map_of_mem hp)
  | spearman =>
    have hpoints : xs.zip (.replicate xs.length c) ≠ [] := by
      intro h
      rw [h] at hfst
      exact hxs hfst.symm
    have hspearman := spearman_of_isAscending hpoints (hsnd.symm ▸ isAscending_replicate _ c)
    rwa [hfst] at hspearman

/-! ## Formulas without a value -/

/-- The text has no finite value, so it cannot be read or evaluated, or its value is out of range. -/
def Formula.IsValueless (text : List Char) : Prop :=
  ∀ q, Formula.evaluate text = .ok q → (Binary64.ofRat q).isFinite = false

instance (text : List Char) : Decidable (Formula.IsValueless text) :=
  match h : Formula.evaluate text with
  | .ok q => decidable_of_iff ((Binary64.ofRat q).isFinite = false) (by simp [Formula.IsValueless, h])
  | .error _ => isTrue (by simp [Formula.IsValueless, h])

theorem ModelSettings.output_of_isValueless (s : ModelSettings) {text : List Char}
    (h : Formula.IsValueless text) : (s.output text).1 = s.fallback := by
  unfold output
  split
  · next q hq => simp [h q hq]
  · rfl

namespace Model

variable {m : Model} {role : Role} {table : Table} {g : Genome}

theorem column_of_isValueless (htable : (m.track role).table = some table)
    (hrows : table.isEmpty = false) (hg : g.IsRenderable)
    (hvalueless : ∀ row ∈ table.rows, ∀ text, g.clamped.spell row.texts = .ok text →
      Formula.IsValueless text) :
    m.column role g = .ok (.replicate table.size m.settings.fallback) := by
  obtain ⟨sheet, hsheet, rfl⟩ := Option.map_eq_some_iff.mp htable
  obtain ⟨pieces, hpieces⟩ := hg.exists_pieces
  simp only [column, hsheet, hrows, Sheet.outputs_of_pieces hpieces, sheet.texts_eq, List.map_map]
  refine congrArg Except.ok (List.eq_replicate_iff.mpr ⟨by simp [Table.size], ?_⟩)
  intro x hx
  obtain ⟨row, hrow, rfl⟩ := List.mem_map.mp hx
  apply ModelSettings.output_of_isValueless
  apply hvalueless row hrow
  rw [Genome.spell, hpieces]
  rfl

theorem ensures_calculate_of_isValueless (htable : (m.track role).table = some table)
    (hrows : table.isEmpty = false) (hg : g.IsRenderable)
    (hvalueless : ∀ row ∈ table.rows, ∀ text, g.clamped.spell row.texts = .ok text →
      Formula.IsValueless text) :
    Ensures (· = m) (calculate role g)
      (fun v _ => v = m.settings.metric.againstConstant table.targets) fun _ _ => False := by
  have hcolumn := column_of_isValueless htable hrows hg hvalueless
  have htargets : table.targets ≠ [] := by
    simpa [Table.targets, Table.isEmpty] using hrows
  apply (ensures_calculate_after m role g).weaken (fun _ h => h)
  · rintro v _ ⟨produced, hproduced, rfl, -⟩
    obtain rfl : _ = produced := Except.ok.inj (hcolumn.symm.trans hproduced)
    rw [coefficient, Model.targets, htable, ← Table.length_targets]
    exact Metric.coefficient_zip_replicate _ htargets _
  · rintro e _ ⟨herror, -⟩
    cases hcolumn.symm.trans herror

/-- A column and a constant one have the coefficient zero by Pearson, and by Spearman that of the
column and its row numbers. The same goes for the score of a genome without a value on any row. So
the metric is blind to constant columns exactly where the row numbers tell it nothing. -/
theorem constant_column_coefficient (metric : Metric) :
    (∀ (xs ys : List Binary64) (c : Binary64), 2 ≤ xs.length → ys.length = xs.length →
      (∀ y ∈ ys, y = c) → metric.coefficient (xs.zip ys) = metric.againstConstant xs) ∧
    (∀ (m : Model) (role : Role) (table : Table) (g : Genome) (journal : Journal),
      m.settings.metric = metric → (m.track role).table = some table → 2 ≤ table.size →
      g.IsRenderable → (∀ row ∈ table.rows, ∀ text, g.clamped.spell row.texts = .ok text →
        Formula.IsValueless text) →
      (calculate role g m journal).result = .ok (metric.againstConstant table.targets)) ∧
    ∀ xs, metric.againstConstant xs = 0 ↔ metric = .pearson ∨ rowTrend xs = 0 := by
  refine ⟨?_, ?_, ?_⟩
  · intro xs ys c hlength hsame hconstant
    obtain rfl : ys = .replicate xs.length c := List.eq_replicate_iff.mpr ⟨hsame, hconstant⟩
    exact metric.coefficient_zip_replicate (List.ne_nil_of_length_pos (by omega)) c
  · rintro m role table g journal rfl htable hrows hg hvalueless
    have hempty : table.isEmpty = false := by
      rw [Table.isEmpty, List.isEmpty_eq_false_iff]
      exact List.ne_nil_of_length_pos (Nat.lt_of_lt_of_le two_pos hrows)
    have hcalculate := ensures_calculate_of_isValueless htable hempty hg hvalueless
    obtain ⟨v, hv, rfl⟩ := hcalculate.exists_ok rfl journal
    exact hv
  · intro xs
    cases metric <;> simp [Metric.againstConstant]

theorem spearman_of_constant_column_ne_zero :
    ¬ ∀ (metric : Metric) (xs ys : List Binary64) (c : Binary64), 2 ≤ xs.length →
      ys.length = xs.length → (∀ x ∈ xs, x.isFinite = true) → c.isFinite = true →
      (∀ y ∈ ys, y = c) → metric.coefficient (xs.zip ys) = 0 := by
  intro h
  have hzero := h .spearman [1, 2] [0.5, 0.5] 0.5 (by decide) (by simp) (by decide +kernel)
    (by decide +kernel) (by decide +kernel)
  have hone : Metric.spearman.coefficient ([1, 2].zip [0.5, 0.5]) = rowTrend [1, 2] :=
    @Metric.coefficient_zip_replicate .spearman [1, 2] (by simp) 0.5
  have hranks : ranks [1, 2] = [1, 2] := ranks_of_isAscending (by decide +kernel)
  rw [hone, rowTrend, hranks] at hzero
  exact absurd hzero (by decide +kernel)

/-- Three literals in a row run together into a numeral with three points. -/
theorem constant_column_coefficient_unreadable_tail :
    let rows : List Row := [.ofColumns 1 1 1 2 1 0, .ofColumns 2 2 4 2 1 0]
    let table : Table := ⟨rows⟩
    let g : Genome := ⟨#v[0, 0, 1, 2, 4, 2, 4, 2, 4, 2, 4, 2, 6, 6, 6]⟩
    let m (metric : Metric) : Model :=
      { settings := { metric }, training := { sheet := some (.ofTable table) } }
    Metric.spearman.coefficient ([1, 2].zip [0.5, 0.5]) = 1 ∧
      (calculate .training g (m .pearson) #[]).result = .ok 0 ∧
      (calculate .training g (m .spearman) #[]).result = .ok 1 := by
  intro rows table g m
  have hvalueless : ∀ row ∈ table.rows, ∀ text, g.clamped.spell row.texts = .ok text →
      Formula.IsValueless text := by
    have h : ∀ row ∈ rows, ∀ text ∈ (g.clamped.spell row.texts).toOption,
        Formula.IsValueless text := by decide +kernel
    intro row hrow text htext
    exact h row hrow text (htext ▸ rfl)
  have hranks : ranks [1, 2] = [1, 2] := ranks_of_isAscending (by decide +kernel)
  have hone : rowTrend [1, 2] = 1 := by
    rw [rowTrend, hranks]
    decide +kernel
  have hscore (metric : Metric) := (constant_column_coefficient metric).2.1 (m metric) .training
    table g #[] rfl rfl (by decide) (by decide) hvalueless
  refine ⟨?_, hscore .pearson, (hscore .spearman).trans (congrArg Except.ok hone)⟩
  exact ((constant_column_coefficient .spearman).1 [1, 2] [0.5, 0.5] 0.5 (by decide) (by simp)
    (by decide +kernel)).trans hone

end Model

end FormulaSearch
