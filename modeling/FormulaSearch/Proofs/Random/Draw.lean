import FormulaSearch.Random.Draw
import Mathlib.Tactic

/-!
# What draws yield

Properties of drawn values that hold whatever the words of the source are. A number drawn below a
bound is below it: the carry of the second word cannot lead past the last number.
-/

namespace FormulaSearch.Draw

variable {ρ α β : Type}

/-- From every source the drawn value has the property. -/
def Yields (d : Draw ρ α) (Q : α → Prop) : Prop := ∀ r, Q (d r).1

namespace Yields

variable {d : Draw ρ α} {Q Q' : α → Prop} {R : β → Prop}

theorem mono (h : Yields d Q) (hQ : ∀ a, Q a → Q' a) : Yields d Q' := fun r => hQ _ (h r)

theorem pure {a : α} (h : Q a) : Yields (Pure.pure a : Draw ρ α) Q := fun _ => h

theorem bind {f : α → Draw ρ β} (hd : Yields d Q) (hf : ∀ a, Q a → Yields (f a) R) :
    Yields (d >>= f) R :=
  fun r => hf (d r).1 (hd r) (d r).2

theorem trivial (d : Draw ρ α) : Yields d fun _ => True := fun _ => True.intro

theorem times (h : Yields d Q) (n : Nat) : Yields (Draw.times n d) fun as => ∀ a ∈ as, Q a := by
  induction n with
  | zero =>
    apply pure
    simp
  | succ n ih =>
    refine bind h fun a ha => bind ih fun as has => pure ?_
    exact List.forall_mem_cons.mpr ⟨ha, has⟩

theorem vector (h : Yields d Q) (n : Nat) :
    Yields (Draw.vector n d) fun v => ∀ i (hi : i < n), Q v[i] := by
  induction n with
  | zero =>
    apply pure
    intro i hi
    exact absurd hi (Nat.not_lt_zero i)
  | succ n ih =>
    refine bind ih fun v hv => bind h fun a ha => pure ?_
    intro i hi
    rw [Vector.getElem_push]
    split
    · next hlt => exact hv i hlt
    · exact ha

end Yields

variable [WordSource ρ]

theorem yields_word {width : Nat} (h : width = 32 ∨ width = 64) :
    Yields (word width : Draw ρ Nat) (· < 2 ^ width) := by
  rcases h with rfl | rfl
  · exact Yields.bind (Yields.trivial word32) fun w _ => Yields.pure w.toNat_lt
  · exact Yields.bind (Yields.trivial word64) fun w _ => Yields.pure w.toNat_lt

theorem widthFor_cases (n : Nat) : widthFor n = 32 ∨ widthFor n = 64 := by
  unfold widthFor
  split <;> simp

/-- A product with a word has a result below the bound, and if that is the last number below it,
then a remainder without a carry. -/
theorem product_bounds {word range n : Nat} (hword : word < range) (hn : 0 < n) :
    word * n / range < n ∧ (word * n / range + 1 = n → word * n % range + n ≤ range) := by
  have hproduct : (word + 1) * n ≤ range * n := Nat.mul_le_mul_right n hword
  have hdivision := Nat.div_add_mod (word * n) range
  rw [Nat.add_mul, Nat.one_mul] at hproduct
  constructor
  · rw [Nat.div_lt_iff_lt_mul (Nat.zero_lt_of_lt hword), Nat.mul_comm n range]
    omega
  · intro hlast
    have hrange : range * n = range * (word * n / range) + range := by
      rw [← hlast, Nat.mul_add, Nat.mul_one, hlast]
    omega

theorem yields_below {n : Nat} (hn : 0 < n) : Yields (below n : Draw ρ Nat) (· < n) := by
  have hword : Yields (word (widthFor n) : Draw ρ Nat) (· < 2 ^ widthFor n) :=
    yields_word (widthFor_cases n)
  unfold below
  simp only [Nat.one_shiftLeft]
  refine Yields.bind hword fun first hfirst => ?_
  obtain ⟨hhigh, hlast⟩ := product_bounds hfirst hn
  split
  · next hlow =>
    refine Yields.bind (Yields.trivial _) fun second _ => Yields.pure ?_
    split
    · by_contra hge
      have := hlast (by omega)
      omega
    · exact hhigh
  · exact Yields.pure hhigh

end FormulaSearch.Draw
