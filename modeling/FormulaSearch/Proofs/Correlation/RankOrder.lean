import FormulaSearch.Proofs.Correlation.Ranking
import FormulaSearch.Proofs.Number.Rounding

/-!
# The order of ranks

The ranks of a column are the places of its rows in the order of the values, where equal values keep
the order of the rows. So a rank is one more than the number of rows that precede its own, and
nothing else about the values plays a part.
-/

namespace FormulaSearch

/-! ## The total order of patterns -/

namespace Binary64

/-- The total order of patterns: those with a sign are below those without. Magnitudes count upwards
without a sign and downwards with one, so NaNs are at both ends. -/
def IsBelow (x y : Binary64) : Prop :=
  match x.isNegative, y.isNegative with
  | true, false => True
  | false, true => False
  | false, false => x.magnitude < y.magnitude
  | true, true => y.magnitude < x.magnitude

theorem orderKey_lt_iff (x y : Binary64) : x.orderKey < y.orderKey ↔ x.IsBelow y := by
  unfold orderKey IsBelow
  cases x.isNegative <;> cases y.isNegative
  all_goals
    simp only [UInt64.lt_iff_toNat_lt, if_true, if_false, Bool.false_eq_true, iff_true, iff_false]
    omega

instance (x y : Binary64) : Decidable (x.IsBelow y) := decidable_of_iff _ (orderKey_lt_iff x y)

theorem orderKey_injective : Function.Injective orderKey := by
  intro x y h
  have hfields : x.isNegative = y.isNegative ∧ x.magnitude.toNat = y.magnitude.toNat := by
    unfold orderKey at h
    cases hx : x.isNegative <;> cases hy : y.isNegative
    all_goals
      simp [hx, hy] at h ⊢
      omega
  rw [← ofMagnitude_isNegative_magnitude x, ← ofMagnitude_isNegative_magnitude y, hfields.1,
    UInt64.toNat_inj.mp hfields.2]

theorem eq_iff_not_isBelow (x y : Binary64) : x = y ↔ ¬ x.IsBelow y ∧ ¬ y.IsBelow x := by
  rw [← orderKey_injective.eq_iff, ← orderKey_lt_iff, ← orderKey_lt_iff]
  omega

example : IsBelow ⟨0xFFF8000000000000⟩ negInfinity ∧ IsBelow ⟨signBit⟩ 0 ∧
    IsBelow infinity nan := by
  decide +kernel

end Binary64

/-! ## Rows in order -/

/-- The value of a row is below that of another row, or is the same further up. -/
def Precedes {n : Nat} (column : Fin n → Binary64) (i j : Fin n) : Prop :=
  (column i).IsBelow (column j) ∨ column i = column j ∧ i < j

instance {n : Nat} (column : Fin n → Binary64) (i j : Fin n) : Decidable (Precedes column i j) :=
  inferInstanceAs (Decidable (_ ∨ _))

theorem precedes_iff {n : Nat} {column : Fin n → Binary64} {i j : Fin n} :
    Precedes column i j ↔ (column i).orderKey < (column j).orderKey ∨
      (column i).orderKey = (column j).orderKey ∧ i < j := by
  rw [Precedes, ← Binary64.orderKey_lt_iff, Binary64.orderKey_injective.eq_iff]

theorem eq_of_not_precedes {n : Nat} {column : Fin n → Binary64} {i j : Fin n}
    (h : ¬ Precedes column i j) (h' : ¬ Precedes column j i) : i = j := by
  rw [precedes_iff] at h h'
  omega

theorem precedes_congr {n : Nat} {column column' : Fin n → Binary64}
    (h : ∀ i j, (column' i).IsBelow (column' j) ↔ (column i).IsBelow (column j)) (i j : Fin n) :
    Precedes column' i j ↔ Precedes column i j := by
  rw [Precedes, Precedes, Binary64.eq_iff_not_isBelow, Binary64.eq_iff_not_isBelow, h, h]

/-- Where no value occurs twice, the order of the rows plays no part. -/
theorem precedes_comp {n : Nat} {column : Fin n → Binary64} (h : Function.Injective column)
    (order : Equiv.Perm (Fin n)) (i j : Fin n) :
    Precedes (column ∘ order) i j ↔ Precedes column (order i) (order j) := by
  have hleft : ¬ (column (order i) = column (order j) ∧ i < j) :=
    fun ⟨heq, hlt⟩ => hlt.ne (order.injective (h heq))
  have hright : ¬ (column (order i) = column (order j) ∧ order i < order j) :=
    fun ⟨heq, hlt⟩ => hlt.ne (h heq)
  exact (or_iff_left hleft).trans (or_iff_left hright).symm

/-! ## Sorting by a key -/

section SortByKey

variable {α β : Type} [LinearOrder β] (key : α → β)

theorem pairwise_mergeSort_key (l : List α) :
    (l.mergeSort fun a b => decide (key a ≤ key b)).Pairwise fun a b => key a ≤ key b := by
  apply (List.pairwise_mergeSort ?_ ?_ l).imp
  · intro a b hle
    exact of_decide_eq_true hle
  · intro a b c
    simpa only [decide_eq_true_eq] using le_trans
  · intro a b
    simpa only [Bool.or_eq_true, decide_eq_true_eq] using le_total _ _

/-- Sorting is stable. -/
theorem pair_sublist_mergeSort_key {l : List α} {a b : α} (h : [a, b].Sublist l)
    (hle : key a ≤ key b) : [a, b].Sublist (l.mergeSort fun a b => decide (key a ≤ key b)) :=
  List.pair_sublist_mergeSort (fun a b c => by simpa only [decide_eq_true_eq] using le_trans)
    (fun a b => by simpa only [Bool.or_eq_true, decide_eq_true_eq] using le_total _ _)
    (decide_eq_true hle) h

end SortByKey

/-! ## Places in the sorted column -/

def sortedRows (xs : List Binary64) : List Placed :=
  xs.zipIdx.mergeSort fun a b => decide (a.1.orderKey ≤ b.1.orderKey)

def rankAt (xs : List Binary64) (row : Nat) : Nat := (ranks xs).getD row 0

variable {xs : List Binary64}

theorem ranks_eq_ofFn (xs : List Binary64) :
    ranks xs = List.ofFn fun i : Fin xs.length => rankAt xs i := by
  apply List.ext_getElem
  · rw [length_ranks, List.length_ofFn]
  · intro i hi hi'
    rw [List.getElem_ofFn, rankAt, List.getD_eq_getElem _ _ hi]

/-- When the places are put back into the order of the rows, each row has its own. -/
theorem map_fst_mergeSort_places {places : List Nat} {n : Nat} (h : places.Perm (List.range n)) :
    ((places.zipIdx 1).mergeSort fun a b => decide (a.1 ≤ b.1)).map Prod.fst = List.range n := by
  have hsorted := pairwise_mergeSort_key Prod.fst (places.zipIdx 1)
  have hperm := (List.mergeSort_perm (places.zipIdx 1)
    (fun a b => decide (a.1 ≤ b.1))).map Prod.fst
  rw [List.zipIdx_map_fst] at hperm
  exact List.Perm.eq_of_pairwise (fun _ _ _ _ => Nat.le_antisymm) (List.pairwise_map.mpr hsorted)
    List.pairwise_le_range (hperm.trans h)

theorem rankAt_of_sortedPositions {place row : Nat} (h : (sortedPositions xs)[place]? = some row) :
    rankAt xs row = place + 1 := by
  have hmem : (row, place + 1) ∈ ((sortedPositions xs).zipIdx 1).mergeSort
      fun a b => decide (a.1 ≤ b.1) := by
    rw [List.mem_mergeSort, List.mk_mem_zipIdx_iff_le_and_getElem?_sub]
    exact ⟨by omega, by simpa using h⟩
  obtain ⟨i, hi⟩ := List.getElem?_of_mem hmem
  have hrow : (List.range xs.length)[i]? = some row := by
    rw [← map_fst_mergeSort_places (sortedPositions_perm xs), List.getElem?_map, hi]
    rfl
  obtain ⟨hlt, rfl⟩ := List.getElem?_eq_some_iff.mp hrow
  have hrank : (ranks xs)[i]? = some (place + 1) := by
    rw [ranks, List.getElem?_map, hi]
    rfl
  rw [List.getElem_range, rankAt, List.getD_eq_getElem?_getD, hrank]
  rfl

theorem rankAt_of_sortedRows {place : Nat} {entry : Placed}
    (h : (sortedRows xs)[place]? = some entry) : rankAt xs entry.2 = place + 1 := by
  apply rankAt_of_sortedPositions
  change ((sortedRows xs).map Prod.snd)[place]? = _
  rw [List.getElem?_map, h]
  rfl

theorem pairwise_sortedRows (xs : List Binary64) : (sortedRows xs).Pairwise fun a b =>
    a.1.orderKey ≤ b.1.orderKey ∧ rankAt xs a.2 < rankAt xs b.2 := by
  apply (pairwise_mergeSort_key (fun entry : Placed => entry.1.orderKey) xs.zipIdx).and
  rw [List.pairwise_iff_getElem]
  intro i j hi hj hij
  rw [rankAt_of_sortedRows (List.getElem?_eq_getElem hi),
    rankAt_of_sortedRows (List.getElem?_eq_getElem hj)]
  omega

theorem sortedRows_cases {a b : Placed} (ha : a ∈ sortedRows xs) (hb : b ∈ sortedRows xs)
    (hne : a ≠ b) : (a.1.orderKey ≤ b.1.orderKey ∧ rankAt xs a.2 < rankAt xs b.2) ∨
      (b.1.orderKey ≤ a.1.orderKey ∧ rankAt xs b.2 < rankAt xs a.2) := by
  obtain ⟨k, rfl⟩ := List.get_of_mem ha
  obtain ⟨l, rfl⟩ := List.get_of_mem hb
  rcases lt_trichotomy k l with hlt | rfl | hgt
  · exact .inl ((pairwise_sortedRows xs).rel_get_of_lt hlt)
  · exact absurd rfl hne
  · exact .inr ((pairwise_sortedRows xs).rel_get_of_lt hgt)

theorem mem_sortedRows (i : Fin xs.length) : (xs.get i, i.val) ∈ sortedRows xs := by
  rw [sortedRows, List.mem_mergeSort, List.mem_zipIdx_iff_getElem?]
  exact List.getElem?_eq_getElem i.isLt

theorem pair_sublist_zipIdx {i j : Fin xs.length} (h : i < j) :
    [(xs.get i, i.val), (xs.get j, j.val)].Sublist xs.zipIdx := by
  have hpairs : xs.zipIdx.Pairwise fun a b => [a, b].Sublist xs.zipIdx :=
    List.pairwise_iff_forall_sublist.mpr fun h => h
  have hij := List.pairwise_iff_getElem.mp hpairs i j (by simp) (by simp) h
  simpa using hij

/-! ## Ranks and order -/

theorem rankAt_lt_of_precedes {i j : Fin xs.length} (h : Precedes xs.get i j) :
    rankAt xs i < rankAt xs j := by
  rw [precedes_iff] at h
  rcases h with hbelow | ⟨hsame, hij⟩
  · have hne : (xs.get i, i.val) ≠ (xs.get j, j.val) := by
      intro heq
      exact hbelow.ne (congrArg (fun entry : Placed => entry.1.orderKey) heq)
    rcases sortedRows_cases (mem_sortedRows i) (mem_sortedRows j) hne with hij | hji
    · exact hij.2
    · exact absurd hji.1 (not_le.mpr hbelow)
  · have hstable := pair_sublist_mergeSort_key (fun entry : Placed => entry.1.orderKey)
      (pair_sublist_zipIdx hij) hsame.le
    exact (List.pairwise_iff_forall_sublist.mp (pairwise_sortedRows xs) hstable).2

theorem rankAt_lt_iff {i j : Fin xs.length} :
    rankAt xs i < rankAt xs j ↔ Precedes xs.get i j := by
  constructor
  · intro hlt
    by_contra hnot
    by_cases hji : Precedes xs.get j i
    · exact absurd (rankAt_lt_of_precedes hji) (by omega)
    · rw [eq_of_not_precedes hnot hji] at hlt
      exact lt_irrefl _ hlt
  · exact rankAt_lt_of_precedes

theorem rankAt_injective (xs : List Binary64) :
    Function.Injective fun i : Fin xs.length => rankAt xs i := by
  intro i j h
  have hforth : ¬ Precedes xs.get i j := by
    rw [← rankAt_lt_iff]
    exact h.not_lt
  have hback : ¬ Precedes xs.get j i := by
    rw [← rankAt_lt_iff]
    exact h.not_gt
  exact eq_of_not_precedes hforth hback

theorem exists_rankAt_eq_iff {r : Nat} :
    (∃ i : Fin xs.length, rankAt xs i = r) ↔ 1 ≤ r ∧ r ≤ xs.length := by
  have hmem := (ranks_perm xs).mem_iff (a := r)
  rw [ranks_eq_ofFn, List.mem_ofFn', Set.mem_range, List.mem_range'_1] at hmem
  rw [hmem]
  omega

/-- The rank of a row counts the rows up to it. -/
theorem rankAt_eq (i : Fin xs.length) :
    rankAt xs i = (Finset.univ.filter fun j => Precedes xs.get j i).card + 1 := by
  have hi := exists_rankAt_eq_iff.mp ⟨i, rfl⟩
  have himage : (Finset.univ.filter fun j => Precedes xs.get j i).image
      (fun j : Fin xs.length => rankAt xs j) = Finset.Ico 1 (rankAt xs i) := by
    ext r
    simp only [Finset.mem_image, Finset.mem_filter, Finset.mem_univ, true_and, ← rankAt_lt_iff,
      Finset.mem_Ico]
    constructor
    · rintro ⟨j, hlt, rfl⟩
      exact ⟨(exists_rankAt_eq_iff.mp ⟨j, rfl⟩).1, hlt⟩
    · intro ⟨hpos, hlt⟩
      obtain ⟨j, rfl⟩ := exists_rankAt_eq_iff.mpr ⟨hpos, hlt.le.trans hi.2⟩
      exact ⟨j, hlt, rfl⟩
  have hcard := Finset.card_image_of_injective
    (Finset.univ.filter fun j => Precedes xs.get j i) (rankAt_injective xs)
  rw [himage, Nat.card_Ico] at hcard
  omega

theorem ranks_ofFn {n : Nat} (column : Fin n → Binary64) : ranks (List.ofFn column) =
    List.ofFn fun i => (Finset.univ.filter fun j => Precedes column j i).card + 1 := by
  obtain ⟨xs, hxs⟩ : ∃ xs, xs = List.ofFn column := ⟨_, rfl⟩
  obtain rfl : n = xs.length := by rw [hxs, List.length_ofFn]
  obtain rfl : xs.get = column := List.ofFn_injective ((List.ofFn_get xs).trans hxs)
  rw [List.ofFn_get, ranks_eq_ofFn]
  exact congrArg List.ofFn (funext rankAt_eq)

/-- Equal values keep their order, and zeros are told apart by their signs. -/
example : ranks (List.ofFn ![0.5, 0.5, 0.1]) = [2, 3, 1] ∧
    ranks (List.ofFn ![0, ⟨Binary64.signBit⟩]) = [2, 1] := by
  rw [ranks_ofFn, ranks_ofFn]
  decide +kernel

/-- Ranks are a permutation of the numbers from one. They rise with the values, and from row to row
where the values are the same. So columns of the same order have the same ranks, and where no value
occurs twice, the ranks move with the rows. -/
theorem ranks_order_stably (xs : List Binary64) :
    (ranks xs).Perm (List.range' 1 xs.length) ∧
    (∀ i j : Fin xs.length, rankAt xs i < rankAt xs j ↔
      (xs.get i).IsBelow (xs.get j) ∨ xs.get i = xs.get j ∧ i < j) ∧
    (∀ column : Fin xs.length → Binary64,
      (∀ i j, (column i).IsBelow (column j) ↔ (xs.get i).IsBelow (xs.get j)) →
        ranks (List.ofFn column) = ranks xs) ∧
    (xs.Nodup → ∀ order : Equiv.Perm (Fin xs.length),
      ranks (List.ofFn fun i => xs.get (order i)) = List.ofFn fun i => rankAt xs (order i)) := by
  refine ⟨ranks_perm xs, fun i j => rankAt_lt_iff, ?_, ?_⟩
  · intro column hpattern
    have hcolumn := ranks_ofFn column
    simp only [precedes_congr hpattern] at hcolumn
    rw [hcolumn, ranks_eq_ofFn]
    exact congrArg List.ofFn (funext fun i => (rankAt_eq i).symm)
  · intro hnodup order
    have hmoved := ranks_ofFn (xs.get ∘ order)
    simp only [precedes_comp hnodup.injective_get] at hmoved
    apply hmoved.trans (congrArg List.ofFn (funext fun i => ?_))
    rw [rankAt_eq]
    congr 1
    exact Finset.card_equiv order (by simp)

/-- The zeros, negative infinity and a NaN with a sign rank like four falling numbers. If they are
turned around, then so are their ranks. -/
theorem ranks_order_stably_of_signs :
    let xs : List Binary64 :=
      [0, ⟨Binary64.signBit⟩, Binary64.negInfinity, ⟨0xFFF8000000000000⟩]
    let falling : Fin xs.length → Binary64 := ![4, 3, 2, 1]
    (∀ i j, (falling i).IsBelow (falling j) ↔ (xs.get i).IsBelow (xs.get j)) ∧ xs.Nodup ∧
      ranks (List.ofFn falling) = ranks xs ∧
      ranks (List.ofFn fun i => xs.get (Fin.revPerm i)) =
        List.ofFn fun i : Fin xs.length => rankAt xs (Fin.revPerm i) := by
  intro xs falling
  have hpattern : ∀ i j, (falling i).IsBelow (falling j) ↔ (xs.get i).IsBelow (xs.get j) := by
    decide +kernel
  have hnodup : xs.Nodup := by decide +kernel
  obtain ⟨-, -, hsame, hmoved⟩ := ranks_order_stably xs
  exact ⟨hpattern, hnodup, hsame falling hpattern, hmoved hnodup Fin.revPerm⟩

end FormulaSearch
