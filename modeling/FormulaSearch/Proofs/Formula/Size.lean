import FormulaSearch.Formula.Tree
import FormulaSearch.Proofs.Number.Size

/-!
# Sizes of the values of formulas

Only powers are held to a budget, but that bounds every value of a formula: along the tree each
leaf adds no more bits than the budget or the longest leaf has, and each operator adds one.
-/

namespace FormulaSearch

open Exact

/-- The values of the operators are hardly longer than their operands, unless they are powers. -/
theorem bitSize_apply_le {op : Operator} {a b q : Rat} (h : op.apply a b = .ok q) :
    bitSize q ≤ max powerBudget (bitSize a + bitSize b + 1) := by
  cases op with
  | add =>
    rw [← Except.ok.inj h]
    exact le_max_of_le_right (bitSize_add_le a b)
  | sub =>
    rw [← Except.ok.inj h]
    exact le_max_of_le_right (bitSize_sub_le a b)
  | mul =>
    rw [← Except.ok.inj h]
    exact le_max_of_le_right ((bitSize_mul_le a b).trans (Nat.le_succ _))
  | div =>
    rw [(quotient_eq_ok_iff.mp h).2]
    exact le_max_of_le_right ((bitSize_div_le a b).trans (Nat.le_succ _))
  | max =>
    rw [← Except.ok.inj h]
    apply le_max_of_le_right
    split_ifs <;> omega
  | min =>
    rw [← Except.ok.inj h]
    apply le_max_of_le_right
    split_ifs <;> omega
  | pow => exact le_max_of_le_left (bitSize_power_le h)

namespace Formula

def parts : Formula → List Formula
  | number q => [number q]
  | binary op left right => binary op left right :: (left.parts ++ right.parts)

/-- The size of the longest leaf, or the budget of powers if no leaf exceeds it. -/
def leafSize (f : Formula) : Nat := (f.leaves.map bitSize).foldr max powerBudget

theorem powerBudget_le_leafSize (f : Formula) : powerBudget ≤ f.leafSize := by
  unfold leafSize
  induction f.leaves with
  | nil => exact le_rfl
  | cons q qs ih => exact ih.trans (le_max_right _ _)

theorem bitSize_le_leafSize {f : Formula} {q : Rat} (h : q ∈ f.leaves) :
    bitSize q ≤ f.leafSize := by
  unfold leafSize
  generalize f.leaves = qs at h
  induction qs with
  | nil => cases h
  | cons q' qs ih =>
    rcases List.mem_cons.mp h with rfl | h
    · exact le_max_left _ _
    · exact (ih h).trans (le_max_right _ _)

theorem leaves_sublist_of_mem_parts {f g : Formula} (h : g ∈ f.parts) :
    g.leaves.Sublist f.leaves := by
  induction f with
  | number q => rw [List.mem_singleton.mp h]
  | binary op left right ihl ihr =>
    rcases List.mem_cons.mp h with rfl | h
    · exact .refl _
    · rcases List.mem_append.mp h with h | h
      · exact (ihl h).trans (List.sublist_append_left _ _)
      · exact (ihr h).trans (List.sublist_append_right _ _)

/-- Every leaf brings at most `M` bits, and joins the others with at most one more. -/
theorem bitSize_eval_lt {f : Formula} {M : Nat} (hbudget : powerBudget ≤ M)
    (hleaves : ∀ q ∈ f.leaves, bitSize q ≤ M) {q : Rat} (h : f.eval = .ok q) :
    bitSize q < f.leaves.length * (M + 1) := by
  induction f generalizing q with
  | number q' =>
    have hq : bitSize q' ≤ M := hleaves q' (List.mem_singleton_self q')
    rw [← Except.ok.inj h]
    simp only [leaves, List.length_singleton]
    omega
  | binary op left right ihl ihr =>
    cases hleft : left.eval with
    | error e => simp [eval, hleft, bind, Except.bind] at h
    | ok a =>
      cases hright : right.eval with
      | error e => simp [eval, hleft, hright, bind, Except.bind] at h
      | ok b =>
        rw [eval_binary_of_ok hleft hright] at h
        have ha := ihl (fun q hq => hleaves q (List.mem_append_left _ hq)) hleft
        have hb := ihr (fun q hq => hleaves q (List.mem_append_right _ hq)) hright
        have hpositive : M + 1 ≤ left.leaves.length * (M + 1) :=
          Nat.le_mul_of_pos_left _ (by simp [length_leaves])
        have happly := bitSize_apply_le h
        rw [leaves, List.length_append, Nat.add_mul]
        omega

/-- The values of a formula and of all its parts keep to one bound, however powers, quotients and
negative exponents are nested. -/
theorem bitSize_eval_le {f g : Formula} (hg : g ∈ f.parts) {q : Rat} (h : g.eval = .ok q) :
    bitSize q ≤ f.leaves.length * (f.leafSize + 1) - 1 := by
  have hsublist := leaves_sublist_of_mem_parts hg
  have hvalue := bitSize_eval_lt f.powerBudget_le_leafSize
    (fun q hq => bitSize_le_leafSize (hsublist.subset hq)) h
  have hlength := Nat.mul_le_mul_right (f.leafSize + 1) hsublist.length_le
  omega

/-- A negative power of a quotient, inside a quotient by zero. -/
theorem bitSize_eval_le_nested :
    let inner : Formula := .binary .pow (.binary .div (.number 3) (.number (-2))) (.number (-5))
    let whole : Formula := .binary .div inner (.number 0)
    inner ∈ whole.parts ∧ inner.eval = .ok (-32 / 243) ∧
      bitSize (-32 / 243) ≤ whole.leaves.length * (whole.leafSize + 1) - 1 := by
  intro inner whole
  have hpart : inner ∈ whole.parts := by simp [whole, inner, parts]
  have hvalue : inner.eval = .ok (-32 / 243) := by cbv
  exact ⟨hpart, hvalue, bitSize_eval_le hpart hvalue⟩

end Formula

end FormulaSearch
