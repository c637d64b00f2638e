import FormulaSearch.Number.Binary64

/-!
# Rounding to the nearest value

An exact quotient is rounded once: to the nearest representable value, a tie to the even
significand. Values past the range become infinite, and those too small become subnormal or zero.
-/

namespace FormulaSearch

def roundHalfEven (n d : Nat) : Nat :=
  let q := n / d
  let r := n % d
  if 2 * r < d then q else if d < 2 * r then q + 1 else q + q % 2

theorem roundHalfEven_one (n : Nat) : roundHalfEven n 1 = n := by
  simp [roundHalfEven, Nat.mod_one]

theorem roundHalfEven_near (n : Nat) {d : Nat} (hd : 0 < d) :
    2 * (roundHalfEven n d * d) ≤ 2 * n + d ∧ 2 * n ≤ 2 * (roundHalfEven n d * d) + d := by
  have hn := Nat.div_add_mod n d
  have hr := Nat.mod_lt n hd
  have hq : n / d * d = d * (n / d) := Nat.mul_comm _ _
  unfold roundHalfEven
  dsimp only
  split
  · omega
  · split
    · rw [Nat.add_mul, hq]; omega
    · rcases Nat.mod_two_eq_zero_or_one (n / d) with h | h <;> rw [h]
      · rw [Nat.add_zero, hq]; omega
      · rw [Nat.add_mul, hq]; omega

namespace Binary64

/-- The exponent of the leading binary digit of `n / d`, for positive `n` and `d`. -/
def leadingExponent (n d : Nat) : Int :=
  let e : Int := (n.log2 : Int) - d.log2
  if d <<< e.toNat ≤ n <<< (-e).toNat then e else e - 1

/-- The exponent of the last place kept when `n / d` is rounded: fifty-two places below the leading
digit, but not below the smallest subnormal. -/
def lastPlace (n d : Nat) : Int := max (leadingExponent n d - 52) (-1074)

/-- The magnitude nearest to `n / d`. A significand above its normal range carries into the
exponent, as the two fields are adjacent. -/
def nearestMagnitude (n d : Nat) : Nat :=
  if n = 0 then 0
  else
    let q := lastPlace n d
    let m := roundHalfEven (n <<< (-q).toNat) (d <<< q.toNat)
    min ((q + 1074).toNat <<< 52 + m) infinityBits.toNat

@[simp] theorem nearestMagnitude_zero (d : Nat) : nearestMagnitude 0 d = 0 := by
  simp [nearestMagnitude]

theorem nearestMagnitude_le (n d : Nat) : nearestMagnitude n d ≤ infinityBits.toNat := by
  unfold nearestMagnitude
  split
  · exact Nat.zero_le _
  · exact Nat.min_le_right _ _

def nearestQuotient (negative : Bool) (n d : Nat) : Binary64 :=
  ofMagnitude negative (UInt64.ofNat (nearestMagnitude n d))

/-- The value nearest to a rational. Zero is positive, and a negative rational too small to be
told from zero is negative zero. -/
def ofRat (q : Rat) : Binary64 := nearestQuotient (decide (q.num < 0)) q.num.natAbs q.den

@[simp] theorem ofRat_zero : ofRat 0 = ⟨0⟩ := by decide

end Binary64

end FormulaSearch
