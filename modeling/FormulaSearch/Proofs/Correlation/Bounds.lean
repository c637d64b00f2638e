import FormulaSearch.Proofs.Correlation.RankBounds

/-!
# Bounds of the coefficients

All three sums of the moments are made of the same rounded deviations and shares. For these the
inequality of Cauchy and Schwarz holds exactly, so only the roundings of products, sums and roots
separate the coefficient of Pearson from one: of `n` points they bring a relative error of at most
`2 n + 8` units. This needs products of deviations that are zero or in the normal range. The
coefficient of Spearman has one as an exact bound.
-/

namespace FormulaSearch

open Binary64

/-! ## Deviations -/

/-- A deviation is zero, or far enough from zero for its products to stay in the normal range. -/
def Binary64.IsClear (d : Binary64) : Prop := d.toRat = 0 ∨ 1 / 2 ^ 480 ≤ |d.toRat|

instance (d : Binary64) : Decidable d.IsClear := inferInstanceAs (Decidable (_ ∨ _))

def Moments.MeetsClear (m : Moments Binary64) : List (Binary64 × Binary64) → Prop
  | [] => True
  | p :: rest => (p.1 - m.meanX).IsClear ∧ (p.2 - m.meanY).IsClear ∧ (m.add p).MeetsClear rest

instance Moments.decidableMeetsClear (m : Moments Binary64) :
    (points : List (Binary64 × Binary64)) → Decidable (m.MeetsClear points)
  | [] => inferInstanceAs (Decidable True)
  | p :: rest =>
    have := decidableMeetsClear (m.add p) rest
    inferInstanceAs (Decidable (_ ∧ _ ∧ _))

def HasClearDeviations : List (Binary64 × Binary64) → Prop
  | [] => True
  | p :: rest => (Moments.ofPoint p.1 p.2).MeetsClear rest

instance : (points : List (Binary64 × Binary64)) → Decidable (HasClearDeviations points)
  | [] => inferInstanceAs (Decidable True)
  | p :: rest => Moments.decidableMeetsClear (Moments.ofPoint p.1 p.2) rest

theorem Binary64.IsClear.clears {d : Binary64} (h : d.IsClear) : Clears (-480) d.toReal := by
  rcases h with h | h
  · exact .inl (by rw [toReal, h, Rat.cast_zero])
  · right
    have hreal : ((1 / 2 ^ 480 : Rat) : ℝ) ≤ (|d.toRat| : Rat) := by exact_mod_cast h
    rw [Rat.cast_abs, Rat.cast_div, Rat.cast_one, Rat.cast_pow, Rat.cast_ofNat, one_div] at hreal
    rw [zpow_neg]
    exact hreal

/-- The share of the old points is at least a half. -/
structure Binary64.IsShare (s : Binary64) : Prop where
  isFinite : s.isFinite = true
  one_le_add : 1 ≤ s.toReal + s.toReal
  le_one : s.toReal ≤ 1

theorem isShare_of_count {n : Nat} (hn : 1 ≤ n) (hn' : n < 2 ^ 53) :
    ((n : Binary64) / ((n + 1 : Nat) : Binary64)).IsShare := by
  have hcount := holds_natCast hn'.le
  have hnext := holds_natCast (n := n + 1) hn'
  have hpositive : (0 : ℝ) < (n + 1 : Nat) := by positivity
  have hquotient := roundsTo_div hcount.isFinite hnext.isFinite (by
    rw [hnext.toReal, Int.cast_natCast]
    exact hpositive.ne')
  rw [hcount.toReal, hnext.toReal, Int.cast_natCast, Int.cast_natCast] at hquotient
  have hlower : (2 : ℝ) ^ (-1 : Int) ≤ n / (n + 1 : Nat) := by
    have : (1 : ℝ) ≤ n := by exact_mod_cast hn
    rw [zpow_neg_one, inv_eq_one_div, div_le_div_iff₀ two_pos hpositive]
    push_cast
    linarith
  have hupper : (n : ℝ) / (n + 1 : Nat) ≤ 1 := by
    rw [div_le_one hpositive]
    push_cast
    linarith
  have hfinite := hquotient.isFinite (by
    rw [abs_of_nonneg (by positivity)]
    exact hupper.trans (one_le_pow₀ one_le_two))
  have hhalf := hquotient.ge hfinite (isRepresentable_two_zpow (by decide)) hlower
  refine ⟨hfinite, ?_, hquotient.le hfinite isRepresentable_one hupper⟩
  rw [zpow_neg_one] at hhalf
  linarith

theorem Binary64.IsShare.nonneg {s : Binary64} (hs : s.IsShare) : 0 ≤ s.toReal := by
  have := hs.one_le_add
  linarith

theorem Binary64.IsShare.clears {s : Binary64} (hs : s.IsShare) : Clears (-1) s.toReal := by
  have := hs.one_le_add
  right
  rw [zpow_neg_one, abs_of_nonneg hs.nonneg]
  linarith

/-! ## Terms and sums -/

section Terms

variable {d d' s x t : Binary64}

/-- The two roundings of a product of deviations and a share, when it is finite. -/
theorem roundsTo_term (hfinite : (d * d' * s).isFinite = true) (hd : d.IsClear) (hd' : d'.IsClear)
    (hs : s.IsShare) : (d * d').isFinite = true ∧ RoundsTo (d.toReal * d'.toReal) (d * d') ∧
      Clears (-960) (d.toReal * d'.toReal) ∧ RoundsTo ((d * d').toReal * s.toReal) (d * d' * s) ∧
      Clears (-961) ((d * d').toReal * s.toReal) := by
  have hproduct := (isFinite_of_mul hfinite).1
  obtain ⟨hx, hy⟩ := isFinite_of_mul hproduct
  have hexact : Clears (-960) (d.toReal * d'.toReal) := hd.clears.mul hd'.clears
  have hrounds := roundsTo_mul hx hy
  exact ⟨hproduct, hrounds, hexact, roundsTo_mul hproduct hs.isFinite,
    (hrounds.clears hproduct hexact (by decide)).mul hs.clears⟩

theorem clears_term (hfinite : (d * d' * s).isFinite = true) (hd : d.IsClear) (hd' : d'.IsClear)
    (hs : s.IsShare) : Clears (-961) (d * d' * s).toReal := by
  obtain ⟨-, -, -, hrounds, hclears⟩ := roundsTo_term hfinite hd hd' hs
  exact hrounds.clears hfinite hclears (by decide)

theorem abs_term_le (hfinite : (d * d' * s).isFinite = true) (hd : d.IsClear) (hd' : d'.IsClear)
    (hs : s.IsShare) : |(d * d' * s).toReal| ≤
      (1 + unitRoundoff) ^ 2 * (|d.toReal * d'.toReal| * s.toReal) := by
  obtain ⟨hproduct, hinner, hinner', houter, houter'⟩ := roundsTo_term hfinite hd hd' hs
  have hu := unitRoundoff_pos
  have hs' := hs.nonneg
  calc |(d * d' * s).toReal|
      ≤ (1 + unitRoundoff) * |(d * d').toReal * s.toReal| :=
        houter.abs_le_of_clears hfinite (houter'.mono (by decide))
    _ = (1 + unitRoundoff) * (|(d * d').toReal| * s.toReal) := by
        rw [abs_mul, abs_of_nonneg hs']
    _ ≤ (1 + unitRoundoff) * ((1 + unitRoundoff) * |d.toReal * d'.toReal| * s.toReal) := by
        gcongr
        exact hinner.abs_le_of_clears hproduct (hinner'.mono (by decide))
    _ = (1 + unitRoundoff) ^ 2 * (|d.toReal * d'.toReal| * s.toReal) := by ring

theorem le_square_term (hfinite : (d * d * s).isFinite = true) (hd : d.IsClear) (hs : s.IsShare) :
    (1 - unitRoundoff) ^ 2 * (d.toReal * d.toReal * s.toReal) ≤ (d * d * s).toReal := by
  obtain ⟨hproduct, hinner, hinner', houter, houter'⟩ := roundsTo_term hfinite hd hd hs
  have hu : 0 ≤ 1 - unitRoundoff := by linarith [unitRoundoff_le_half]
  have hs' := hs.nonneg
  have hsquare := hinner.lower hproduct (hinner'.mono (by decide)) (mul_self_nonneg _)
  have hnonneg : 0 ≤ (d * d).toReal := hinner.ge hproduct isRepresentable_zero (mul_self_nonneg _)
  calc (1 - unitRoundoff) ^ 2 * (d.toReal * d.toReal * s.toReal)
      = (1 - unitRoundoff) * ((1 - unitRoundoff) * (d.toReal * d.toReal) * s.toReal) := by ring
    _ ≤ (1 - unitRoundoff) * ((d * d).toReal * s.toReal) := by gcongr
    _ ≤ (d * d * s).toReal :=
      houter.lower hfinite (houter'.mono (by decide)) (mul_nonneg hnonneg hs')

theorem le_sum (hfinite : (x + t).isFinite = true) (hx : 0 ≤ x.toReal) (ht : 0 ≤ t.toReal)
    {e : Int} (hclears : Clears e x.toReal) (hclears' : Clears e t.toReal) (he : -1022 ≤ e) :
    Clears e (x + t).toReal ∧ (1 - unitRoundoff) * (x.toReal + t.toReal) ≤ (x + t).toReal := by
  obtain ⟨hx', ht'⟩ := isFinite_of_add hfinite
  have hsum : Clears e (x.toReal + t.toReal) := hclears.add hclears' hx ht
  have hrounds := roundsTo_add hx' ht'
  exact ⟨hrounds.clears hfinite hsum (by omega),
    hrounds.lower hfinite (hsum.mono he) (add_nonneg hx ht)⟩

/-- A sum may cancel, but its error is small next to the terms. -/
theorem abs_sum_le (hfinite : (x + t).isFinite = true) (hclears : Clears (-1022) t.toReal) :
    |(x + t).toReal| ≤ (1 + unitRoundoff) * (|x.toReal| + |t.toReal|) := by
  obtain ⟨hx, ht⟩ := isFinite_of_add hfinite
  have hrounds := roundsTo_add hx ht
  rcases hclears with hzero | hlarge
  · rw [hzero, add_zero] at hrounds
    rw [hrounds.eq hfinite (isRepresentable_toReal hx), hzero, abs_zero, add_zero]
    exact le_mul_of_one_le_left (abs_nonneg _) (by linarith [unitRoundoff_pos])
  · exact hrounds.abs_upper hfinite (abs_add_le _ _)
      (hlarge.trans (le_add_of_nonneg_left (abs_nonneg _)))

end Terms

/-! ## The sums of the moments -/

/-- A sum of squares that is, when it is finite, clear and at least `a` but for `k` roundings. -/
def Binary64.SumsUp (x : Binary64) (k : Nat) (a : ℝ) : Prop :=
  x.isFinite = true → Clears (-961) x.toReal ∧ (1 - unitRoundoff) ^ k * a ≤ x.toReal

theorem one_sub_unitRoundoff_pos : 0 < 1 - unitRoundoff := by
  linarith [unitRoundoff_le_half]

theorem Binary64.SumsUp.add {x d s : Binary64} {k : Nat} {a : ℝ} (h : x.SumsUp k a) (ha : 0 ≤ a)
    (hk : 2 ≤ k) (hd : d.IsClear) (hs : s.IsShare) :
    (x + d * d * s).SumsUp (k + 1) (a + d.toReal * d.toReal * s.toReal) := by
  intro hfinite
  obtain ⟨hx, hterm⟩ := isFinite_of_add hfinite
  obtain ⟨hclears, hlower⟩ := h hx
  have hu := one_sub_unitRoundoff_pos
  have hsquare : 0 ≤ d.toReal * d.toReal * s.toReal := mul_nonneg (mul_self_nonneg _) hs.nonneg
  have hlower' := le_square_term hterm hd hs
  have hnonneg : 0 ≤ x.toReal := (mul_nonneg (by positivity) ha).trans hlower
  have hnonneg' : 0 ≤ (d * d * s).toReal := (mul_nonneg (by positivity) hsquare).trans hlower'
  have hpower : (1 - unitRoundoff) ^ k ≤ (1 - unitRoundoff) ^ 2 :=
    pow_le_pow_of_le_one hu.le (by linarith [unitRoundoff_pos]) hk
  obtain ⟨hclears', hsum⟩ := le_sum hfinite hnonneg hnonneg' hclears (clears_term hterm hd hd hs)
    (by decide)
  refine ⟨hclears', ?_⟩
  calc (1 - unitRoundoff) ^ (k + 1) * (a + d.toReal * d.toReal * s.toReal)
      = (1 - unitRoundoff) * ((1 - unitRoundoff) ^ k * a +
          (1 - unitRoundoff) ^ k * (d.toReal * d.toReal * s.toReal)) := by ring
    _ ≤ (1 - unitRoundoff) * (x.toReal + (1 - unitRoundoff) ^ 2 *
          (d.toReal * d.toReal * s.toReal)) := by gcongr
    _ ≤ (1 - unitRoundoff) * (x.toReal + (d * d * s).toReal) := by gcongr
    _ ≤ (x + d * d * s).toReal := hsum

/-- What separates the sums from exact sums `a`, `b` and `c` of terms `x²`, `y²` and `|x y|`, for
which the inequality of Cauchy and Schwarz holds. -/
structure Moments.Approximates (m : Moments Binary64) (a b c : ℝ) : Prop where
  squaresX : m.squaresX.SumsUp (m.count + 1) a
  squaresY : m.squaresY.SumsUp (m.count + 1) b
  products : m.products.isFinite = true →
    |m.products.toReal| ≤ (1 + unitRoundoff) ^ (m.count + 1) * c
  nonneg_left : 0 ≤ a
  nonneg_right : 0 ≤ b
  nonneg : 0 ≤ c
  cauchy : c * c ≤ a * b

theorem cauchy_add {a b c p q r : ℝ} (ha : 0 ≤ a) (hb : 0 ≤ b) (hp : 0 ≤ p) (hq : 0 ≤ q)
    (h : c * c ≤ a * b) (h' : r * r = p * q) : (c + r) * (c + r) ≤ (a + p) * (b + q) := by
  have hmixed : 2 * (c * r) ≤ a * q + p * b := by
    apply le_of_abs_le
    apply abs_le_of_sq_le_sq _ (by positivity)
    calc (2 * (c * r)) ^ 2 = 4 * ((c * c) * (r * r)) := by ring
      _ ≤ 4 * ((a * b) * (p * q)) := by
        rw [h']
        gcongr
      _ ≤ (a * q + p * b) ^ 2 := by nlinarith [sq_nonneg (a * q - p * b)]
  linarith

theorem Moments.approximates_ofPoint (x y : Binary64) : (ofPoint x y).Approximates 0 0 0 := by
  have hzero : ((0 : Nat) : Binary64).toReal = 0 := by
    rw [(holds_natCast (Nat.zero_le _)).toReal, Nat.cast_zero, Int.cast_zero]
  have hsums : Binary64.SumsUp (0 : Nat) ((ofPoint x y).count + 1) 0 := fun _ =>
    ⟨.inl hzero, by rw [hzero, mul_zero]⟩
  refine ⟨hsums, hsums, fun _ => ?_, le_rfl, le_rfl, le_rfl, le_rfl⟩
  change |((0 : Nat) : Binary64).toReal| ≤ _
  rw [hzero, abs_zero, mul_zero]

theorem Moments.Approximates.exists_add {m : Moments Binary64} {a b c : ℝ}
    (h : m.Approximates a b c) {p : Binary64 × Binary64} (hcount : 1 ≤ m.count)
    (hcount' : m.count < 2 ^ 53) (hx : (p.1 - m.meanX).IsClear) (hy : (p.2 - m.meanY).IsClear) :
    ∃ a' b' c', (m.add p).Approximates a' b' c' := by
  have hs := isShare_of_count hcount hcount'
  have hs' := hs.nonneg
  generalize hshare : (m.count : Binary64) / ((m.count + 1 : Nat) : Binary64) = s at hs hs'
  set dx := p.1 - m.meanX with hdx
  set dy := p.2 - m.meanY with hdy
  refine ⟨a + dx.toReal * dx.toReal * s.toReal, b + dy.toReal * dy.toReal * s.toReal,
    c + |dx.toReal * dy.toReal| * s.toReal, ?_⟩
  have hsquare (d : Binary64) : 0 ≤ d.toReal * d.toReal * s.toReal :=
    mul_nonneg (mul_self_nonneg _) hs'
  constructor
  case squaresX =>
    have hsum := h.squaresX.add h.nonneg_left (by omega) hx hs
    simpa only [Moments.add, hshare] using hsum
  case squaresY =>
    have hsum := h.squaresY.add h.nonneg_right (by omega) hy hs
    simpa only [Moments.add, hshare] using hsum
  case products =>
    simp only [Moments.add, hshare, ← hdx, ← hdy]
    intro hfinite
    obtain ⟨hproducts, hterm⟩ := isFinite_of_add hfinite
    have hu := unitRoundoff_pos
    have hpower : (1 + unitRoundoff) ^ 2 ≤ (1 + unitRoundoff) ^ (m.count + 1) :=
      pow_le_pow_right₀ (by linarith) (by omega)
    calc |(m.products + dx * dy * s).toReal|
        ≤ (1 + unitRoundoff) * (|m.products.toReal| + |(dx * dy * s).toReal|) :=
          abs_sum_le hfinite ((clears_term hterm hx hy hs).mono (by decide))
      _ ≤ (1 + unitRoundoff) * ((1 + unitRoundoff) ^ (m.count + 1) * c +
            (1 + unitRoundoff) ^ (m.count + 1) * (|dx.toReal * dy.toReal| * s.toReal)) := by
          gcongr
          · exact h.products hproducts
          · refine (abs_term_le hterm hx hy hs).trans ?_
            gcongr
      _ = (1 + unitRoundoff) ^ (m.count + 1 + 1) * (c + |dx.toReal * dy.toReal| * s.toReal) := by
          ring
  case nonneg_left => exact add_nonneg h.nonneg_left (hsquare dx)
  case nonneg_right => exact add_nonneg h.nonneg_right (hsquare dy)
  case nonneg => exact add_nonneg h.nonneg (mul_nonneg (abs_nonneg _) hs')
  case cauchy =>
    apply cauchy_add h.nonneg_left h.nonneg_right (hsquare dx) (hsquare dy) h.cauchy
    rw [mul_mul_mul_comm, abs_mul_abs_self]
    ring

theorem Moments.Approximates.exists_foldl_add {rest : List (Binary64 × Binary64)}
    {m : Moments Binary64} {a b c : ℝ} (h : m.Approximates a b c) (hcount : 1 ≤ m.count)
    (hlength : m.count + rest.length ≤ 2 ^ 53) (hclear : m.MeetsClear rest) :
    ∃ a' b' c', (rest.foldl Moments.add m).Approximates a' b' c' := by
  induction rest generalizing m a b c with
  | nil => exact ⟨a, b, c, h⟩
  | cons p rest ih =>
    obtain ⟨hx, hy, hclear⟩ := hclear
    rw [List.length_cons] at hlength
    obtain ⟨a', b', c', h'⟩ := h.exists_add hcount (by omega) hx hy
    have hnext : (m.add p).count = m.count + 1 := rfl
    exact ih h' (by omega) (by omega) hclear

/-! ## The coefficient -/

section Coefficient

variable {x y z : Binary64} {n k : Nat} {a b c : ℝ}

theorem roundsTo_div_count (hx : x.isFinite = true) (hn : 1 ≤ n) (hn' : n ≤ 2 ^ 53) :
    (0 : ℝ) < n ∧ RoundsTo (x.toReal / n) (x / (n : Binary64)) := by
  have hcount := holds_natCast hn'
  have hvalue : (n : Binary64).toReal = n := by rw [hcount.toReal, Int.cast_natCast]
  have hpositive : (0 : ℝ) < n := by exact_mod_cast hn
  have hrounds := roundsTo_div hx hcount.isFinite (hvalue ▸ hpositive.ne')
  rw [hvalue] at hrounds
  exact ⟨hpositive, hrounds⟩

theorem deviation_lower (h : x.SumsUp k a) (ha : 0 ≤ a) (hn : 1 ≤ n) (hn' : n ≤ 2 ^ 53)
    (hfinite : (x / (n : Binary64)).sqrt.isFinite = true) :
    0 ≤ (x / (n : Binary64)).sqrt.toReal ∧ Clears (-507) (x / (n : Binary64)).sqrt.toReal ∧
      (1 - unitRoundoff) ^ (k + 3) * (a / n) ≤ (x / (n : Binary64)).sqrt.toReal ^ 2 := by
  have hvariance := isFinite_of_sqrt hfinite
  have hx := (isFinite_of_div hvariance).1
  obtain ⟨hclears, hlower⟩ := h hx
  obtain ⟨hpositive, hquotient⟩ := roundsTo_div_count hx hn hn'
  have hu := one_sub_unitRoundoff_pos
  have hnonneg : 0 ≤ x.toReal / n :=
    div_nonneg ((mul_nonneg (by positivity) ha).trans hlower) hpositive.le
  have hcount : (n : ℝ) ≤ 2 ^ (53 : Int) := by exact_mod_cast hn'
  have hclears : Clears (-1014) (x.toReal / n) := hclears.div hpositive hcount
  have hvariance_lower := hquotient.lower hvariance (hclears.mono (by decide)) hnonneg
  have hvariance_nonneg := hquotient.ge hvariance isRepresentable_zero hnonneg
  have hroot := roundsTo_sqrt hvariance hvariance_nonneg
  have hroot_clears : Clears (-507) (√(x / (n : Binary64)).toReal) :=
    (hquotient.clears hvariance hclears (by decide)).sqrt hvariance_nonneg
  have hroot_nonneg := Real.sqrt_nonneg (x / (n : Binary64)).toReal
  refine ⟨hroot.ge hfinite isRepresentable_zero hroot_nonneg,
    hroot.clears hfinite hroot_clears (by decide), ?_⟩
  calc (1 - unitRoundoff) ^ (k + 3) * (a / n)
      = (1 - unitRoundoff) ^ 2 * ((1 - unitRoundoff) * ((1 - unitRoundoff) ^ k * a / n)) := by ring
    _ ≤ (1 - unitRoundoff) ^ 2 * ((1 - unitRoundoff) * (x.toReal / n)) := by gcongr
    _ ≤ (1 - unitRoundoff) ^ 2 * (x / (n : Binary64)).toReal := by gcongr
    _ = ((1 - unitRoundoff) * √(x / (n : Binary64)).toReal) ^ 2 := by
      rw [mul_pow, Real.sq_sqrt hvariance_nonneg]
    _ ≤ (x / (n : Binary64)).sqrt.toReal ^ 2 := by
      gcongr
      exact hroot.lower hfinite (hroot_clears.mono (by decide)) hroot_nonneg

/-- The product of the standard deviations has no less than its share of the exact `c`. -/
theorem divisor_lower (hx : x.SumsUp k a) (hy : y.SumsUp k b) (ha : 0 ≤ a) (hb : 0 ≤ b)
    (hcauchy : c * c ≤ a * b) (hn : 1 ≤ n) (hn' : n ≤ 2 ^ 53)
    (hfinite : ((x / (n : Binary64)).sqrt * (y / (n : Binary64)).sqrt).isFinite = true) :
    Clears (-1014) ((x / (n : Binary64)).sqrt * (y / (n : Binary64)).sqrt).toReal ∧
      0 ≤ ((x / (n : Binary64)).sqrt * (y / (n : Binary64)).sqrt).toReal ∧
      (1 - unitRoundoff) ^ (k + 4) * (c / n) ≤
        ((x / (n : Binary64)).sqrt * (y / (n : Binary64)).sqrt).toReal := by
  obtain ⟨hx', hy'⟩ := isFinite_of_mul hfinite
  obtain ⟨hnonneg, hclears, hlower⟩ := deviation_lower hx ha hn hn' hx'
  obtain ⟨hnonneg', hclears', hlower'⟩ := deviation_lower hy hb hn hn' hy'
  have hrounds := roundsTo_mul hx' hy'
  generalize (x / (n : Binary64)).sqrt = sx at *
  generalize (y / (n : Binary64)).sqrt = sy at *
  have hu := one_sub_unitRoundoff_pos
  have hproduct := mul_nonneg hnonneg hnonneg'
  have hproduct_clears : Clears (-1014) (sx.toReal * sy.toReal) := hclears.mul hclears'
  have hproduct_lower : (1 - unitRoundoff) ^ (k + 3) * (c / n) ≤ sx.toReal * sy.toReal := by
    apply le_of_abs_le
    apply abs_le_of_sq_le_sq _ hproduct
    calc ((1 - unitRoundoff) ^ (k + 3) * (c / n)) ^ 2
        = ((1 - unitRoundoff) ^ (k + 3)) ^ 2 * ((c * c) / (n * n)) := by ring
      _ ≤ ((1 - unitRoundoff) ^ (k + 3)) ^ 2 * ((a * b) / (n * n)) := by gcongr
      _ = ((1 - unitRoundoff) ^ (k + 3) * (a / n)) * ((1 - unitRoundoff) ^ (k + 3) * (b / n)) := by
        ring
      _ ≤ sx.toReal ^ 2 * sy.toReal ^ 2 := by gcongr
      _ = (sx.toReal * sy.toReal) ^ 2 := by ring
  refine ⟨hrounds.clears hfinite hproduct_clears (by decide),
    hrounds.ge hfinite isRepresentable_zero hproduct, ?_⟩
  calc (1 - unitRoundoff) ^ (k + 4) * (c / n)
      = (1 - unitRoundoff) * ((1 - unitRoundoff) ^ (k + 3) * (c / n)) := by ring
    _ ≤ (1 - unitRoundoff) * (sx.toReal * sy.toReal) := by gcongr
    _ ≤ (sx * sy).toReal := hrounds.lower hfinite (hproduct_clears.mono (by decide)) hproduct

theorem one_le_two_roundoffs : 1 ≤ (1 + 2 * unitRoundoff) * (1 - unitRoundoff) := by
  nlinarith [unitRoundoff_pos, unitRoundoff_le_half]

/-- All roundings, of the numerator and of the divisor, as those of a numerator. -/
theorem roundings_le (k : Nat) : (1 + unitRoundoff) ^ (k + 2) ≤
    (1 + 2 * unitRoundoff) ^ (2 * k + 6) * (1 - unitRoundoff) ^ (k + 4) := by
  have hu := unitRoundoff_pos
  calc (1 + unitRoundoff) ^ (k + 2) ≤ (1 + 2 * unitRoundoff) ^ (k + 2) * 1 := by
        rw [mul_one]
        gcongr
        linarith
    _ ≤ (1 + 2 * unitRoundoff) ^ (k + 2) *
          ((1 + 2 * unitRoundoff) * (1 - unitRoundoff)) ^ (k + 4) := by
        gcongr
        exact one_le_pow₀ one_le_two_roundoffs
    _ = (1 + 2 * unitRoundoff) ^ (2 * k + 6) * (1 - unitRoundoff) ^ (k + 4) := by
        rw [mul_pow, ← mul_assoc, ← pow_add]
        congr 2
        omega

/-- What the roundings of a divisor and of a numerator make of one. -/
theorem one_le_roundings (k : Nat) : 1 ≤ (1 + unitRoundoff) ^ k / (1 - unitRoundoff) ^ (k + 4) := by
  have hu := unitRoundoff_pos
  have hu' := one_sub_unitRoundoff_pos
  rw [one_le_div (by positivity)]
  exact (pow_le_one₀ hu'.le (by linarith)).trans (one_le_pow₀ (by linarith))

theorem abs_mean_le {w : ℝ} (hfinite : (z / (n : Binary64)).isFinite = true) (hn : 1 ≤ n)
    (hn' : n ≤ 2 ^ 53) (hz : z.isFinite = true → |z.toReal| ≤ (1 + unitRoundoff) ^ k * c)
    (hw : 2 ^ (-1022 : Int) ≤ w) (hlower : (1 - unitRoundoff) ^ (k + 4) * (c / n) ≤ w) :
    |(z / (n : Binary64)).toReal| ≤
      (1 + unitRoundoff) * ((1 + unitRoundoff) ^ k / (1 - unitRoundoff) ^ (k + 4) * w) := by
  have hu := unitRoundoff_pos
  have hu' := one_sub_unitRoundoff_pos
  have hz' := (isFinite_of_div hfinite).1
  obtain ⟨hpositive, hrounds⟩ := roundsTo_div_count hz' hn hn'
  have hw' : 0 ≤ w := le_trans (by positivity) hw
  apply hrounds.abs_upper hfinite
  · calc |z.toReal / n| = |z.toReal| / n := by rw [abs_div, abs_of_pos hpositive]
      _ ≤ (1 + unitRoundoff) ^ k * c / n := by
        gcongr
        exact hz hz'
      _ = (1 + unitRoundoff) ^ k / (1 - unitRoundoff) ^ (k + 4) *
          ((1 - unitRoundoff) ^ (k + 4) * (c / n)) := by field_simp
      _ ≤ (1 + unitRoundoff) ^ k / (1 - unitRoundoff) ^ (k + 4) * w := by gcongr
  · exact hw.trans (le_mul_of_one_le_left hw' (one_le_roundings k))

/-- The quotient of a mean product by a divisor `y` that is not much too small. -/
theorem abs_quotient_le (hfinite : (z / (n : Binary64) / y).isFinite = true) (hn : 1 ≤ n)
    (hn' : n ≤ 2 ^ 53) (hz : z.isFinite = true → |z.toReal| ≤ (1 + unitRoundoff) ^ k * c)
    (hy : y.isFinite = true → Clears (-1014) y.toReal ∧ 0 ≤ y.toReal ∧
      (1 - unitRoundoff) ^ (k + 4) * (c / n) ≤ y.toReal) :
    |(z / (n : Binary64) / y).toReal| ≤ (1 + 2 * unitRoundoff) ^ (2 * k + 6) := by
  have hu := unitRoundoff_pos
  have hu' := one_sub_unitRoundoff_pos
  obtain ⟨hmean, ⟨hy', hne⟩ | hzero⟩ := isFinite_of_div hfinite
  swap
  · rw [hzero, abs_zero]
    positivity
  obtain ⟨hclears, hnonneg, hlower⟩ := hy hy'
  have hdivisor : 0 < y.toReal := lt_of_le_of_ne hnonneg hne.symm
  have hlarge : 2 ^ (-1022 : Int) ≤ y.toReal := by
    have hmagnitude := hclears.resolve_left hne
    rw [abs_of_pos hdivisor] at hmagnitude
    exact (zpow_le_zpow_right₀ one_le_two (by decide)).trans hmagnitude
  have hupper := abs_mean_le hmean hn hn' hz hlarge hlower
  have hone := one_le_roundings k
  have hroundings := roundings_le k
  rw [← div_le_iff₀ (by positivity)] at hroundings
  have hquotient : |(z / (n : Binary64)).toReal / y.toReal| ≤
      (1 + unitRoundoff) * ((1 + unitRoundoff) ^ k / (1 - unitRoundoff) ^ (k + 4)) := by
    rw [abs_div, abs_of_pos hdivisor, div_le_iff₀ hdivisor, mul_assoc]
    exact hupper
  have hrange : (2 : ℝ) ^ (-1022 : Int) ≤
      (1 + unitRoundoff) * ((1 + unitRoundoff) ^ k / (1 - unitRoundoff) ^ (k + 4)) := by
    calc (2 : ℝ) ^ (-1022 : Int) ≤ 1 := zpow_le_one_of_nonpos₀ one_le_two (by decide)
      _ ≤ _ := one_le_mul_of_one_le_of_one_le (by linarith) hone
  calc |(z / (n : Binary64) / y).toReal|
      ≤ (1 + unitRoundoff) *
          ((1 + unitRoundoff) * ((1 + unitRoundoff) ^ k / (1 - unitRoundoff) ^ (k + 4))) :=
        (roundsTo_div hmean hy' hne).abs_upper hfinite hquotient hrange
    _ = (1 + unitRoundoff) ^ (k + 2) / (1 - unitRoundoff) ^ (k + 4) := by ring
    _ ≤ (1 + 2 * unitRoundoff) ^ (2 * k + 6) := hroundings

end Coefficient

/-- For clear deviations the coefficient exceeds one by no more than the roundings bring. -/
theorem abs_pearson_le {points : List (Binary64 × Binary64)} (hlength : points.length ≤ 2 ^ 53)
    (hclear : HasClearDeviations points) :
    |(pearson points).toReal| ≤ (1 + 2 * unitRoundoff) ^ (2 * points.length + 8) := by
  have hu := unitRoundoff_pos
  have hzero : |(0 : Binary64).toReal| ≤ (1 + 2 * unitRoundoff) ^ (2 * points.length + 8) := by
    rw [holds_zero.toReal, Int.cast_zero, abs_zero]
    positivity
  cases points with
  | nil => exact hzero
  | cons p rest =>
    have hcount := Moments.count_ofPoints p rest
    rw [List.length_cons] at hlength hzero ⊢
    obtain ⟨a, b, c, h⟩ := (Moments.approximates_ofPoint p.1 p.2).exists_foldl_add le_rfl
      ((Nat.add_comm 1 _).trans_le hlength) hclear
    change (Moments.ofPoints p rest).Approximates a b c at h
    rw [pearson, finiteOrZero]
    generalize Moments.ofPoints p rest = m at hcount h
    rw [← hcount] at hlength hzero ⊢
    split
    · next hfinite =>
      have hcount' : 1 ≤ m.count := by omega
      have hdivisor := divisor_lower h.squaresX h.squaresY h.nonneg_left h.nonneg_right h.cauchy
        hcount' hlength
      have hquotient := abs_quotient_le hfinite hcount' hlength h.products hdivisor
      have hroundings : 2 * (m.count + 1) + 6 = 2 * m.count + 8 := by omega
      rwa [hroundings] at hquotient
    · exact hzero

/-! ## Both coefficients -/

/-- The bounds of one are kept by the coefficient of Spearman, from below as long as its divisor is
exact. The coefficient of Pearson keeps them but for its roundings. -/
theorem coefficients_bounded (points : List (Binary64 × Binary64)) :
    (spearman points).toRat ≤ 1 ∧
      (points.length * (points.length ^ 2 - 1) ≤ 2 ^ 53 → -1 ≤ (spearman points).toRat) ∧
      (points.length ≤ 2 ^ 53 → HasClearDeviations points →
        |(pearson points).toRat| ≤ (1 + 1 / 2 ^ 52) ^ (2 * points.length + 8)) := by
  refine ⟨?_, fun hsize => ?_, fun hlength hclear => ?_⟩
  · have hupper := spearman_le_one points
    unfold toReal at hupper
    exact_mod_cast hupper
  · have hlower := neg_one_le_spearman hsize
    unfold toReal at hlower
    exact_mod_cast hlower
  · have hbound := abs_pearson_le hlength hclear
    have hroundoff : 2 * unitRoundoff = ((1 / 2 ^ 52 : Rat) : ℝ) := by
      rw [unitRoundoff]
      norm_num
    rw [hroundoff] at hbound
    unfold toReal at hbound
    exact_mod_cast hbound

/-- A column of three values against itself is rounded to more than one. -/
theorem coefficients_bounded_three_points :
    let points : List (Binary64 × Binary64) := [(0, 0), (6, 6), (3, 3)]
    (spearman points).toRat ≤ 1 ∧ -1 ≤ (spearman points).toRat ∧
      |(pearson points).toRat| ≤ (1 + 1 / 2 ^ 52) ^ 14 := by
  intro points
  obtain ⟨hupper, hlower, hpearson⟩ := coefficients_bounded points
  exact ⟨hupper, hlower (by decide), hpearson (by decide) (by decide +kernel)⟩

theorem pearson_of_equal_columns_exceeds_one :
    ¬ ∀ (metric : Metric) (xs ys : List Binary64), ys.length = xs.length →
      (∀ x ∈ xs, x.isFinite = true) → (∀ y ∈ ys, y.isFinite = true) →
      |(metric.coefficient (xs.zip ys)).toRat| ≤ 1 := by
  intro h
  have hbound := h .pearson [0, 6, 3] [0, 6, 3] rfl (by decide +kernel) (by decide +kernel)
  exact absurd hbound (by decide +kernel)

end FormulaSearch
