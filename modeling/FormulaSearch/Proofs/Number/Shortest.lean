import FormulaSearch.Number.Shortest
import FormulaSearch.Proofs.Number.Rounding

/-!
# Shortest decimals round back

Every candidate for the shortest decimal of a value rounds to it, and so do all of its digits. The
one that is taken therefore does too. Its digits and its scale are bounded, as those of the value
are.
-/

namespace FormulaSearch

namespace ShortDecimal

def value (d : ShortDecimal) : Rat := d.digits * 10 ^ d.scale

theorem fraction_div (d : ShortDecimal) : (d.fraction.1 : Rat) / d.fraction.2 = d.value := by
  have h := mul_pow_div_pow (b := 10) (by norm_num) d.digits d.scale
  rwa [Nat.cast_ofNat] at h

@[simp] theorem value_normalize (d : ShortDecimal) : d.normalize.value = d.value := by
  unfold normalize
  split_ifs with h
  · rw [value, value, h, zpow_add_one₀ (by norm_num)]
    norm_num
    ring
  · rfl

theorem normalize_bounds {d : ShortDecimal} {bound k : Nat} (hbound : 1 < bound)
    (hdigits : d.digits < bound) (hscale : d.scale.natAbs < k) :
    d.normalize.digits < bound ∧ d.normalize.scale.natAbs ≤ k := by
  unfold normalize
  split
  · exact ⟨hbound, by dsimp only; omega⟩
  · exact ⟨hdigits, hscale.le⟩

end ShortDecimal

namespace Binary64

theorem readsBack_iff {x : Binary64} {d : ShortDecimal} :
    x.readsBack d = true ↔ nearestTo d.value = x.magnitude.toNat := by
  have hdenominator : 0 < d.fraction.2 := Nat.pow_pos (by norm_num)
  rw [readsBack, nearestMagnitude_eq_nearestTo _ hdenominator, ShortDecimal.fraction_div,
    beq_iff_eq]

/-- What is found on a grid is one of the two neighbours of the value, and reads back. -/
theorem onGrid_cases {x : Binary64} {scale : Int} {d : ShortDecimal}
    (h : x.onGrid scale = some d) : x.readsBack d = true ∧ ∃ k ≤ 1,
      d = ⟨x.fraction.1 * Nat.pow 10 (-scale).toNat / (x.fraction.2 * Nat.pow 10 scale.toNat) + k,
        scale⟩ := by
  unfold onGrid at h
  dsimp only at h
  split at h
  · next hbelow habove =>
    cases h
    split_ifs
    · exact ⟨hbelow, 0, Nat.zero_le 1, rfl⟩
    · exact ⟨habove, 1, Nat.le_refl 1, rfl⟩
  · next hbelow _ =>
    cases h
    exact ⟨hbelow, 0, Nat.zero_le 1, rfl⟩
  · next _ habove =>
    cases h
    exact ⟨habove, 1, Nat.le_refl 1, rfl⟩
  · cases h

theorem shortest_cases (x : Binary64) : x.shortest = x.allDigits.normalize ∨
    ∃ p < 17, ∃ d, x.onGrid (leadingPower x.fraction.1 x.fraction.2 - (p : Nat)) = some d ∧
      x.shortest = d.normalize := by
  unfold shortest
  dsimp only
  cases hfound : (List.range 17).findSome? fun (p : Nat) =>
      x.onGrid (leadingPower x.fraction.1 x.fraction.2 - p) with
  | none => exact .inl rfl
  | some d =>
    obtain ⟨p, hp, hgrid⟩ := List.exists_of_findSome?_eq_some hfound
    exact .inr ⟨p, List.mem_range.mp hp, d, hgrid, rfl⟩

/-- The digits of a binary fraction are exact. -/
theorem value_allDigits (x : Binary64) : x.allDigits.value = magnitudeValue x.magnitude.toNat := by
  rw [← mkRat_fraction, fraction, mkRat_shiftLeft, ShortDecimal.value, allDigits, fraction]
  generalize x.exponent = e
  obtain ⟨k, rfl | rfl⟩ := e.eq_nat_or_neg
  · simp [Nat.shiftLeft_eq]
  · have hpowers : (5 : Rat) ^ k * 2 ^ k = 10 ^ k := by
      rw [← mul_pow]
      norm_num
    have hscale : min 0 (-(k : Int)) = -k := min_eq_right (by omega)
    have hshift : (-(k : Int)).toNat = 0 := by omega
    rw [hscale, hshift, neg_neg, Int.toNat_natCast, Nat.shiftLeft_zero, Nat.pow_eq, zpow_neg,
      zpow_neg, zpow_natCast, zpow_natCast, ← hpowers]
    push_cast
    field_simp

theorem nearestTo_shortest {x : Binary64} (hx : x.isFinite = true) :
    nearestTo x.shortest.value = x.magnitude.toNat := by
  rcases x.shortest_cases with hall | ⟨p, -, d, hgrid, hshortest⟩
  · rw [hall, ShortDecimal.value_normalize, value_allDigits,
      nearestTo_magnitudeValue ((isFinite_iff x).mp hx)]
  · rw [hshortest, ShortDecimal.value_normalize]
    exact readsBack_iff.mp (onGrid_cases hgrid).1

/-! ## How long they are

The bounds are crude: what matters is that there are some. -/

theorem natAbs_exponent_le (x : Binary64) : x.exponent.natAbs ≤ 1074 := by
  have hmagnitude : x.magnitude.toNat < 2 ^ 63 := by
    rw [magnitude, UInt64.toNat_and]
    exact Nat.and_lt_two_pow _ (by decide)
  have hfield : x.exponentField < 2 ^ 11 := by
    rw [exponentField_eq, Nat.div_lt_iff_lt_mul (by positivity)]
    exact hmagnitude
  unfold exponent
  split <;> omega

theorem fraction_bounds (x : Binary64) {k : Nat} (hk : 1200 ≤ k) :
    x.fraction.1 < 10 ^ k ∧ x.fraction.2 ≤ 10 ^ k := by
  have hexponent := x.natAbs_exponent_le
  have hsignificand : x.significand < 2 ^ 53 := by
    have := Nat.mod_lt x.magnitude.toNat (show 0 < 2 ^ 52 by positivity)
    unfold significand
    rw [fractionField_eq]
    split <;> omega
  have hpow {e : Nat} (he : e ≤ k) : 2 ^ e ≤ 10 ^ k :=
    (Nat.pow_le_pow_left (by norm_num) e).trans (Nat.pow_le_pow_right (by norm_num) he)
  simp only [fraction, Nat.shiftLeft_eq, Nat.one_mul]
  constructor
  · calc x.significand * 2 ^ x.exponent.toNat
        < 2 ^ 53 * 2 ^ x.exponent.toNat :=
          Nat.mul_lt_mul_of_pos_right hsignificand (by positivity)
      _ = 2 ^ (53 + x.exponent.toNat) := (Nat.pow_add 2 53 _).symm
      _ ≤ 10 ^ k := hpow (by omega)
  · exact hpow (by omega)

theorem natAbs_leadingPower_le {n d k : Nat} (hk : 0 < k) (hn : n < 10 ^ k) (hd : d ≤ 10 ^ k) :
    (leadingPower n d).natAbs ≤ k := by
  have hlength {m : Nat} (hm : m < 10 ^ k) : (Nat.toDigits 10 m).length ≤ k :=
    Nat.toDigits_length 10 m k hk hm
  unfold leadingPower
  split
  · have := hlength ((Nat.div_le_self n d).trans_lt hn)
    omega
  · have hpos : 0 < 10 ^ k := by positivity
    have := hlength ((Nat.div_le_self (d - 1) n).trans_lt (by omega))
    omega

theorem onGrid_bounds {x : Binary64} {scale : Int} {d : ShortDecimal}
    (h : x.onGrid scale = some d) :
    d.digits ≤ x.fraction.1 * 10 ^ scale.natAbs + 1 ∧ d.scale = scale := by
  obtain ⟨-, k, hk, rfl⟩ := onGrid_cases h
  refine ⟨Nat.add_le_add ((Nat.div_le_self _ _).trans ?_) hk, rfl⟩
  exact Nat.mul_le_mul_left _ (Nat.pow_le_pow_right (by norm_num) (by omega))

theorem shortest_bounds (x : Binary64) {k : Nat} (hk : 1200 ≤ k) :
    x.shortest.digits < 10 ^ (3 * k + 1) ∧ x.shortest.scale.natAbs ≤ 2 * k := by
  obtain ⟨hn, hd⟩ := x.fraction_bounds hk
  have hbound : 1 < 10 ^ (3 * k + 1) := Nat.one_lt_pow (Nat.succ_ne_zero _) (by norm_num)
  have hproduct {m : Nat} (hm : m ≤ 10 ^ (2 * k)) : x.fraction.1 * m + 1 < 10 ^ (3 * k + 1) := by
    have hle := Nat.mul_le_mul hn.le hm
    have hpos : 0 < 10 ^ (3 * k) := by positivity
    rw [← Nat.pow_add, show k + 2 * k = 3 * k by ring] at hle
    rw [Nat.pow_succ]
    omega
  rcases x.shortest_cases with hall | ⟨p, hp, d, hgrid, hshortest⟩
  · have hexponent := x.natAbs_exponent_le
    have hfive : Nat.pow 5 (-x.exponent).toNat ≤ 10 ^ (2 * k) :=
      (Nat.pow_le_pow_left (by norm_num) _).trans (Nat.pow_le_pow_right (by norm_num) (by omega))
    rw [hall]
    apply ShortDecimal.normalize_bounds hbound ((Nat.le_succ _).trans_lt (hproduct hfive))
    dsimp only [allDigits]
    omega
  · obtain ⟨hdigits, hscale⟩ := onGrid_bounds hgrid
    have hleading := natAbs_leadingPower_le (by omega) hn hd
    have hscale' : d.scale.natAbs < 2 * k := by omega
    have hpower : 10 ^ d.scale.natAbs ≤ 10 ^ (2 * k) :=
      Nat.pow_le_pow_right (by norm_num) hscale'.le
    rw [← hscale] at hdigits
    rw [hshortest]
    exact ShortDecimal.normalize_bounds hbound (hdigits.trans_lt (hproduct hpower)) hscale'

theorem length_text_shortest_le (x : Binary64) :
    x.shortest.text.length ≤ 3601 ∧ x.shortest.exponent.natAbs ≤ 6001 := by
  obtain ⟨hdigits, hscale⟩ := x.shortest_bounds (Nat.le_refl 1200)
  have hlength : x.shortest.text.length ≤ 3 * 1200 + 1 :=
    Nat.toDigits_length 10 _ _ (Nat.succ_pos _) hdigits
  refine ⟨hlength, ?_⟩
  unfold ShortDecimal.exponent
  omega

end Binary64

end FormulaSearch
