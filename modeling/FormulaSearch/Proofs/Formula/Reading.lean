import FormulaSearch.Proofs.Formula.Grammar
import FormulaSearch.Proofs.Formula.Literal

/-!
# The reader and the grammar

The two stacks of the reader hold, from the bottom up, the parts of a sentence whose right sides
are still to come. Reading keeps this, so what is read at the end is the tree of a derivation.
Conversely the reader follows every derivation: after the tokens of a phrase it is where it would
be with the phrase as one operand, up to reductions that it has put off.
-/

namespace FormulaSearch

theorem bind_eq_ok_iff {α β ε : Type} {x : Except ε α} {f : α → Except ε β} {b : β} :
    x >>= f = .ok b ↔ ∃ a, x = .ok a ∧ f a = .ok b := by
  cases x <;> simp [bind, Except.bind]

theorem map_eq_ok_iff {α β ε : Type} {f : α → β} {x : Except ε α} {b : β} :
    x.map f = .ok b ↔ ∃ a, x = .ok a ∧ f a = b := by
  cases x <;> simp [Except.map]

end FormulaSearch

namespace FormulaSearch.Scan

open Grammar

/-! ## Steps that do not fail -/

theorem afterOperandStep_cases {s s' : Scan} {c : Char} (h : s.afterOperandStep c = .ok s') :
    (c = ')' ∧ ∃ pending operands,
      Scan.reduceToOpening s.pending s.operands = .ok (pending, operands) ∧
        s' = ⟨operands, pending, s.afterOperand⟩) ∨
    c ≠ ')' ∧ ∃ op pending operands, Operator.ofSymbol? c = some op ∧
      Scan.reduceTighter op s.pending s.operands = .ok (pending, operands) ∧
        s' = ⟨operands, .operator op :: pending, false⟩ := by
  unfold Scan.afterOperandStep at h
  split at h
  · next hclose =>
    obtain ⟨⟨pending, operands⟩, hreduce, heq⟩ := bind_eq_ok_iff.mp h
    exact .inl ⟨hclose, pending, operands, hreduce, (Except.ok.inj heq).symm⟩
  · next hclose =>
    split at h
    · cases h
    · split at h
      · cases h
      · next op hop =>
        obtain ⟨⟨pending, operands⟩, hreduce, heq⟩ := bind_eq_ok_iff.mp h
        exact .inr ⟨hclose, op, pending, operands, hop, hreduce, (Except.ok.inj heq).symm⟩

/-- Where an operand is expected, exactly the literals with a value are pushed. -/
theorem pushLiteral_eq_ok_iff {s s' : Scan} {text : List Char} :
    s.pushLiteral text = .ok s' ↔
      ∃ q, decimal? text = some q ∧ s' = ⟨.number q :: s.operands, s.pending, true⟩ := by
  unfold Scan.pushLiteral readLiteral
  cases decimal? text <;> simp [bind, Except.bind, pure, Except.pure, eq_comm]

/-! ## What the stacks stand for -/

/-- The topmost pending item is no operator that binds as tightly as the given rank. -/
def Below (n : Nat) : List Pending → Prop
  | .operator op :: _ => op.binding < n
  | _ => True

theorem Below.mono {m n : Nat} {pending : List Pending} (h : Below m pending) (hmn : m ≤ n) :
    Below n pending := by
  cases pending with
  | nil => trivial
  | cons item rest =>
    cases item with
    | opening => trivial
    | operator op => exact Nat.lt_of_lt_of_le h hmn

theorem below_four (pending : List Pending) : Below 4 pending := by
  cases pending with
  | nil => trivial
  | cons item rest =>
    cases item with
    | opening => trivial
    | operator op => exact binding_lt op

/-- The stacks that stand for a row of tokens after which an operand is expected: every operator
has its left side below it, and binds more tightly than the operator under that. -/
inductive Awaits : List Formula → List Pending → List Token → Prop
  | bottom : Awaits [] [] []
  | opening {operands : List Formula} {pending : List Pending} {ts : List Token} :
      Awaits operands pending ts → Awaits operands (.opening :: pending) (ts ++ [.mark '('])
  | operator {operands : List Formula} {pending : List Pending} {ts : List Token} {L : Level}
      {sign : Char} {op : Operator} {p : Phrase} :
      Awaits operands pending ts → Below L.rank pending → Derives L p → (sign, op) ∈ L.operators →
        Awaits (p.formula :: operands) (.operator op :: pending) (ts ++ p.tokens ++ [.mark sign])

/-- The stacks that stand for a row of tokens that ends with a phrase of some level. -/
def Holds (L : Level) (operands : List Formula) (pending : List Pending) (ts : List Token) : Prop :=
  ∃ p lower ts', Awaits lower pending ts' ∧ Below L.rank pending ∧ Derives L p ∧
    operands = p.formula :: lower ∧ ts = ts' ++ p.tokens

theorem Awaits.length_eq {operands : List Formula} {pending : List Pending} {ts : List Token}
    (h : Awaits operands pending ts) :
    operands.length + pending.count .opening = pending.length := by
  induction h with
  | bottom => rfl
  | opening _ ih => simp only [List.count_cons_self, List.length_cons]; omega
  | operator _ _ _ _ ih =>
    simp only [List.length_cons, List.count_cons, beq_iff_eq, reduceCtorEq, if_false]
    omega

theorem Holds.reduce {L : Level} {op : Operator} {operands : List Formula} {pending : List Pending}
    {ts : List Token} (h : Holds L operands (.operator op :: pending) ts) :
    ∃ K : Level, ∃ operands', op.binding = K.rank ∧ Scan.reduce op operands = .ok operands' ∧
      Holds K operands' pending ts := by
  obtain ⟨right, _, _, hlower, hbelow, hright, rfl, rfl⟩ := h
  cases hlower with
  | @operator lower _ ts' K sign _ left hlower hbelow' hleft hop =>
    have hK := (mem_operators hop).2.1
    have hnext : K.next.rank ≤ L.rank := by
      rw [Level.rank_next (rank_lt_of_mem_operators hop), ← hK]
      exact hbelow
    exact ⟨K, _, hK, rfl, .application sign op left right, lower, ts', hlower, hbelow',
      .application hop hleft (hright.mono hnext), rfl, by simp [Phrase.tokens]⟩

/-- Reducing before an operator never fails, and leaves a phrase of the operator's level. -/
theorem Holds.reduceTighter {K L : Level} {op : Operator} {operands : List Formula}
    {pending : List Pending} {ts : List Token} (h : Holds L operands pending ts)
    (hK : op.binding = K.rank) (hKL : K.rank ≤ L.rank) :
    ∃ pending' operands', Scan.reduceTighter op pending operands = .ok (pending', operands') ∧
      Holds K operands' pending' ts := by
  have hkeep (hbelow : Below op.binding pending) : Holds K operands pending ts := by
    obtain ⟨p, lower, ts', hlower, -, hp, rfl, rfl⟩ := h
    exact ⟨p, lower, ts', hlower, hK ▸ hbelow, hp.mono hKL, rfl, rfl⟩
  induction pending generalizing L operands with
  | nil => exact ⟨[], operands, rfl, hkeep trivial⟩
  | cons item rest ih =>
    cases item with
    | opening => exact ⟨_, operands, rfl, hkeep trivial⟩
    | operator top =>
      by_cases hlt : top.binding < op.binding
      · exact ⟨.operator top :: rest, operands, by simp [Scan.reduceTighter, hlt], hkeep hlt⟩
      · obtain ⟨M, operands', hM, hreduce, hholds⟩ := h.reduce
        have hrest := ih hholds (by omega) fun hbelow => by
          obtain ⟨p, lower, ts', hlower, -, hp, rfl, rfl⟩ := hholds
          exact ⟨p, lower, ts', hlower, hK ▸ hbelow, hp.mono (by omega), rfl, rfl⟩
        simpa [Scan.reduceTighter, hlt, hreduce, bind, Except.bind] using hrest

/-- Reducing to an open parenthesis never fails, and makes an atom of the group. -/
theorem Holds.reduceToOpening {L : Level} {operands : List Formula} {pending : List Pending}
    {ts : List Token} (h : Holds L operands pending ts) (hopen : .opening ∈ pending) :
    ∃ pending' operands', Scan.reduceToOpening pending operands = .ok (pending', operands') ∧
      Holds .atom operands' pending' (ts ++ [.mark ')']) := by
  induction pending generalizing L operands with
  | nil => simp at hopen
  | cons item rest ih =>
    cases item with
    | opening =>
      obtain ⟨p, lower, _, hlower, -, hp, rfl, rfl⟩ := h
      cases hlower with
      | @opening _ _ ts' hlower =>
        have hsum : Derives .sum p := hp.mono (Nat.zero_le _)
        exact ⟨rest, _, rfl,
          .group p, lower, ts', hlower, below_four rest, .group hsum, rfl, by simp [Phrase.tokens]⟩
    | operator op =>
      obtain ⟨K, operands', -, hreduce, hholds⟩ := h.reduce
      have hrest := ih hholds (by simpa using hopen)
      simpa [Scan.reduceToOpening, hreduce, bind, Except.bind] using hrest

/-- At the end a sentence is left if no parenthesis is open. -/
theorem Holds.reduceAll {L : Level} {operands : List Formula} {pending : List Pending}
    {ts : List Token} (h : Holds L operands pending ts) (hopen : .opening ∉ pending) :
    ∃ p, Scan.reduceAll pending operands = .ok p.formula ∧ Derives .sum p ∧ p.tokens = ts := by
  induction pending generalizing L operands with
  | nil =>
    obtain ⟨p, lower, _, hlower, -, hp, rfl, rfl⟩ := h
    cases hlower with
    | bottom => exact ⟨p, rfl, hp.mono (Nat.zero_le _), rfl⟩
  | cons item rest ih =>
    cases item with
    | opening => simp at hopen
    | operator op =>
      obtain ⟨K, operands', -, hreduce, hholds⟩ := h.reduce
      have hrest := ih hholds (by simpa using hopen)
      simpa [Scan.reduceAll, hreduce, bind, Except.bind] using hrest

/-- The end is reached only with all parentheses closed and one operand more than operators. -/
theorem length_of_reduceAll {pending : List Pending} {operands : List Formula} {f : Formula}
    (h : Scan.reduceAll pending operands = .ok f) :
    .opening ∉ pending ∧ operands.length = pending.length + 1 := by
  induction pending generalizing operands with
  | nil =>
    match operands, h with
    | [_], _ => exact ⟨by simp, rfl⟩
  | cons item rest ih =>
    cases item with
    | opening => cases h
    | operator op =>
      match operands, h with
      | _ :: _ :: lower, h =>
        obtain ⟨hopen, hlength⟩ := ih h
        simp only [List.length_cons] at hlength
        exact ⟨by simpa using hopen, by simp only [List.length_cons]; omega⟩

/-! ## What is read is a sentence -/

def Stands (s : Scan) (ts : List Token) : Prop :=
  if s.afterOperand then Holds .atom s.operands s.pending ts
  else Awaits s.operands s.pending ts

theorem stands_iff_holds {s : Scan} {ts : List Token} (h : s.afterOperand = true) :
    Stands s ts ↔ Holds .atom s.operands s.pending ts := by
  simp [Stands, h]

theorem stands_iff_awaits {s : Scan} {ts : List Token} (h : ¬ s.afterOperand = true) :
    Stands s ts ↔ Awaits s.operands s.pending ts := by
  simp [Stands, h]

/-- No front of a text closes more parentheses than it opens and than are open before it. -/
def ClosesWithin (n : Int) (cs : List Char) : Prop :=
  ∀ front, front <+: cs → (front.count ')' : Int) ≤ front.count '(' + n

theorem ClosesWithin.cons {n : Int} {c : Char} {cs : List Char} (h : ClosesWithin n (c :: cs)) :
    ClosesWithin (n + depth [.mark c]) cs := by
  intro front hfront
  have := h (c :: front) (List.cons_prefix_cons.mpr ⟨rfl, hfront⟩)
  simp only [List.count_cons, beq_iff_eq, depth] at this ⊢
  split at this <;> split at this <;> simp_all <;> omega

theorem ClosesWithin.append {n : Int} {us cs : List Char} (h : ClosesWithin n (us ++ cs))
    (hus : '(' ∉ us ∧ ')' ∉ us) : ClosesWithin n cs := by
  intro front hfront
  have := h (us ++ front) ((List.prefix_append_right_inj us).mpr hfront)
  simpa [List.count_append, List.count_eq_zero_of_not_mem hus.1,
    List.count_eq_zero_of_not_mem hus.2] using this

theorem Awaits.depth_eq {operands : List Formula} {pending : List Pending} {ts : List Token}
    (h : Awaits operands pending ts) : depth ts = pending.count .opening := by
  induction h with
  | bottom => rfl
  | opening _ ih => simp [depth, ih]
  | operator _ _ hp hop ih =>
    obtain ⟨h1, h2⟩ := sign_ne_parenthesis hop
    simp [depth, ih, hp.depth_tokens, h1, h2]

theorem Holds.depth_eq {L : Level} {operands : List Formula} {pending : List Pending}
    {ts : List Token} (h : Holds L operands pending ts) : depth ts = pending.count .opening := by
  obtain ⟨p, lower, ts', hlower, -, hp, -, rfl⟩ := h
  simp [hlower.depth_eq, hp.depth_tokens]

theorem Stands.afterOperandStep {s s' : Scan} {c : Char} {ts : List Token} (h : Stands s ts)
    (hafter : s.afterOperand = true) (hclose : c = ')' → 0 < depth ts)
    (hstep : s.afterOperandStep c = .ok s') : Stands s' (ts ++ [.mark c]) := by
  have hholds := (stands_iff_holds hafter).mp h
  obtain ⟨rfl, pending, operands, hreduce, rfl⟩ | ⟨-, op, pending, operands, hop, hreduce, rfl⟩ :=
    afterOperandStep_cases hstep
  · have hopen : .opening ∈ s.pending := by
      have := hclose rfl
      rw [hholds.depth_eq] at this
      exact List.count_pos_iff.mp (by omega)
    obtain ⟨pending', operands', hreduce', hatom⟩ := hholds.reduceToOpening hopen
    cases hreduce.symm.trans hreduce'
    have hs' : (⟨operands, pending, s.afterOperand⟩ : Scan).afterOperand = true := hafter
    exact (stands_iff_holds hs').mpr hatom
  · obtain ⟨K, hK⟩ := exists_level op
    obtain ⟨-, hrank, -⟩ := mem_operators hK
    have hle : K.rank ≤ Level.atom.rank := (rank_lt_of_mem_operators hK).le
    obtain ⟨pending', operands', hreduce', hholds'⟩ := hholds.reduceTighter hrank hle
    cases hreduce.symm.trans hreduce'
    obtain ⟨p, lower, ts', hlower, hbelow, hp, rfl, rfl⟩ := hholds'
    have hsign : op.symbol = c := Operator.symbol_of_ofSymbol? hop
    exact .operator hlower hbelow hp (hsign ▸ hK)

theorem Stands.pushLiteral {s s' : Scan} {text : List Char} {ts : List Token} (h : Stands s ts)
    (hafter : ¬ s.afterOperand = true) (hpush : s.pushLiteral text = .ok s') :
    (∃ q, decimal? text = some q) ∧ Stands s' (ts ++ [.literal text]) := by
  have hawaits := (stands_iff_awaits hafter).mp h
  obtain ⟨q, hq, rfl⟩ := pushLiteral_eq_ok_iff.mp hpush
  exact ⟨⟨q, hq⟩, .literal text q, s.operands, ts, hawaits, below_four s.pending, .literal hq, rfl,
    rfl⟩

theorem not_mem_parentheses_of_decimal? {text : List Char} {q : Rat} (h : decimal? text = some q) :
    '(' ∉ text ∧ ')' ∉ text := by
  constructor
  · intro hc
    exact absurd (numeric_or_sign_of_decimal? h hc) (by decide)
  · intro hc
    exact absurd (numeric_or_sign_of_decimal? h hc) (by decide)

theorem not_mem_parentheses_of_isBlank {c : Char} (h : Text.isBlank c = true) :
    '(' ∉ [c] ∧ ')' ∉ [c] := by
  constructor
  · intro hmem
    rw [← List.mem_singleton.mp hmem] at h
    exact absurd h (by decide)
  · intro hmem
    rw [← List.mem_singleton.mp hmem] at h
    exact absurd h (by decide)

/-- A run that gets to the end of a text cuts it into tokens, and stands for them. -/
theorem Stands.run {s s' : Scan} {cs : List Char} {ts : List Token} (h : Stands s ts)
    (hclose : ClosesWithin (depth ts) cs) (hrun : Scan.run s cs = .ok s') :
    ∃ us, Spells cs us ∧ Stands s' (ts ++ us) := by
  fun_induction Scan.run s cs generalizing ts with
  | case1 s =>
    cases hrun
    exact ⟨[], .nil, by simpa using h⟩
  | case2 s c cs hc ih =>
    have hrest : ClosesWithin (depth ts) cs := by
      apply ClosesWithin.append _ (not_mem_parentheses_of_isBlank hc)
      exact hclose
    obtain ⟨us, hus, hs'⟩ := ih h hrest hrun
    exact ⟨us, .blank hc hus, hs'⟩
  | case3 s c cs hc hafter ih =>
    obtain ⟨s₁, hstep, hrun⟩ := bind_eq_ok_iff.mp hrun
    have hdepth : c = ')' → 0 < depth ts := by
      rintro rfl
      have := hclose [')'] (by simp)
      simp at this
      omega
    have hs₁ := h.afterOperandStep hafter hdepth hstep
    obtain ⟨us, hus, hs'⟩ := ih s₁ hs₁ (by simpa using hclose.cons) hrun
    exact ⟨.mark c :: us, .mark hus, by simpa using hs'⟩
  | case4 s cs hafter hc ih =>
    have hawaits := (stands_iff_awaits hafter).mp h
    have hs : ¬ { s with pending := .opening :: s.pending }.afterOperand = true := hafter
    have hs := (stands_iff_awaits hs).mpr (.opening hawaits)
    obtain ⟨us, hus, hs'⟩ := ih hs (by simpa using hclose.cons) hrun
    exact ⟨.mark '(' :: us, .mark hus, by simpa using hs'⟩
  | case5 s c cs hc hafter hopen ih =>
    obtain ⟨s₁, hpush, hrun⟩ := bind_eq_ok_iff.mp hrun
    obtain ⟨⟨q, hq⟩, hs₁⟩ := h.pushLiteral hafter hpush
    have hrest : ClosesWithin (depth ts) (cs.dropWhile continuesLiteral) := by
      refine ClosesWithin.append ?_ (not_mem_parentheses_of_decimal? hq)
      simpa using hclose
    obtain ⟨us, hus, hs'⟩ := ih s₁ hs₁ (by simpa [depth] using hrest) hrun
    exact ⟨_ :: us, .literal (by simpa using hc) hopen hus, by simpa using hs'⟩

/-- What is read from a text that never closes too much is the tree of a derivation of it. -/
theorem exists_sentence_of_read {cs : List Char} {f : Formula} (hclose : ClosesWithin 0 cs)
    (h : Formula.read cs = .ok f) : ∃ p, IsSentence cs p ∧ p.formula = f := by
  obtain ⟨s, hrun, h⟩ := bind_eq_ok_iff.mp h
  have hstart : Stands {} [] := .bottom
  obtain ⟨ts, hts, hs⟩ := hstart.run hclose hrun
  obtain ⟨hopen, hlength⟩ := length_of_reduceAll h
  have hafter : s.afterOperand = true := by
    by_contra hafter
    have := ((stands_iff_awaits hafter).mp hs).length_eq
    omega
  obtain ⟨p, hp, hsum, rfl⟩ := ((stands_iff_holds hafter).mp hs).reduceAll hopen
  rw [hp, Except.ok.injEq] at h
  exact ⟨p, ⟨hsum, hts⟩, h⟩

/-! ## Every sentence is read -/

/-- The second pair of stacks comes from the first by reductions of operators that bind at least as
tightly as the given rank. -/
inductive Settles (n : Nat) : List Pending × List Formula → List Pending × List Formula → Prop
  | refl {a : List Pending × List Formula} : Settles n a a
  | step {op : Operator} {pending : List Pending} {left right : Formula} {rest : List Formula}
      {a : List Pending × List Formula} : n ≤ op.binding →
        Settles n a (.operator op :: pending, right :: left :: rest) →
          Settles n a (pending, .binary op left right :: rest)

theorem Settles.mono {m n : Nat} {a b : List Pending × List Formula} (h : Settles n a b)
    (hmn : m ≤ n) : Settles m a b := by
  induction h with
  | refl => exact .refl
  | step hn _ ih => exact .step (hmn.trans hn) ih

theorem Settles.reduceTighter_eq {n : Nat} {op : Operator} {a b : List Pending × List Formula}
    (h : Settles n a b) (hop : op.binding ≤ n) :
    Scan.reduceTighter op a.1 a.2 = Scan.reduceTighter op b.1 b.2 := by
  induction h with
  | refl => rfl
  | @step top pending left right rest _ hn _ ih =>
    have hlt : ¬ top.binding < op.binding := by omega
    rw [ih, Scan.reduceTighter, if_neg hlt]
    rfl

theorem Settles.reduceToOpening_eq {n : Nat} {a b : List Pending × List Formula}
    (h : Settles n a b) : Scan.reduceToOpening a.1 a.2 = Scan.reduceToOpening b.1 b.2 := by
  induction h with
  | refl => rfl
  | step _ _ ih => rw [ih]; rfl

theorem Settles.reduceAll_eq {n : Nat} {a b : List Pending × List Formula} (h : Settles n a b) :
    Scan.reduceAll a.1 a.2 = Scan.reduceAll b.1 b.2 := by
  induction h with
  | refl => rfl
  | step _ _ ih => rw [ih]; rfl

theorem reduceTighter_of_below {op : Operator} {pending : List Pending}
    (h : Below op.binding pending) (operands : List Formula) :
    Scan.reduceTighter op pending operands = .ok (pending, operands) := by
  cases pending with
  | nil => rfl
  | cons item rest =>
    cases item with
    | opening => rfl
    | operator top =>
      have hlt : top.binding < op.binding := h
      simp [Scan.reduceTighter, hlt]

theorem run_blank (s : Scan) {c : Char} (cs : List Char) (h : Text.isBlank c = true) :
    Scan.run s (c :: cs) = Scan.run s cs := by
  rw [Scan.run, if_pos h]

theorem run_afterOperand {s : Scan} {c : Char} (cs : List Char) (hc : Text.isBlank c = false)
    (hs : s.afterOperand = true) :
    Scan.run s (c :: cs) = (s.afterOperandStep c).bind (Scan.run · cs) := by
  rw [Scan.run, if_neg (by simp [hc]), if_pos hs]
  rfl

theorem run_opening {s : Scan} (cs : List Char) (hs : s.afterOperand = false) :
    Scan.run s ('(' :: cs) = Scan.run { s with pending := .opening :: s.pending } cs := by
  rw [Scan.run, if_neg (by decide), if_neg (by simp [hs]), if_pos rfl]

theorem run_literal {s : Scan} {c : Char} (cs : List Char) (hc : Text.isBlank c = false)
    (hopen : c ≠ '(') (hs : s.afterOperand = false) :
    Scan.run s (c :: cs) = (s.pushLiteral (c :: cs.takeWhile continuesLiteral)).bind
      (Scan.run · (cs.dropWhile continuesLiteral)) := by
  rw [Scan.run, if_neg (by simp [hc]), if_neg (by simp [hs]), if_neg hopen]
  rfl

theorem afterOperandStep_symbol (s : Scan) (op : Operator) :
    s.afterOperandStep op.symbol = (Scan.reduceTighter op s.pending s.operands).map
      fun r => ⟨r.2, .operator op :: r.1, false⟩ := by
  have hparenthesis : op.symbol ≠ ')' := by cases op <;> decide
  have hnumeric : ¬ (op.symbol.isDigit || op.symbol = '.') = true := by cases op <;> decide
  rw [Scan.afterOperandStep, if_neg hparenthesis, if_neg hnumeric, Operator.ofSymbol?_symbol]
  cases hreduce : Scan.reduceTighter op s.pending s.operands <;>
    simp [hreduce, bind, Except.bind, pure, Except.pure, Except.map]

theorem exists_run_mark {c : Char} {cs : List Char} {ts : List Token}
    (h : Spells cs (.mark c :: ts)) :
    ∃ rest, Spells rest ts ∧ ∀ s : Scan, Scan.run s cs = Scan.run s (c :: rest) := by
  generalize hus : Token.mark c :: ts = us at h
  induction h with
  | nil => cases hus
  | blank hc _ ih =>
    obtain ⟨rest, hrest, hrun⟩ := ih hus
    exact ⟨rest, hrest, fun s => (run_blank s _ hc).trans (hrun s)⟩
  | mark h _ =>
    cases hus
    exact ⟨_, h, fun s => rfl⟩
  | literal _ _ _ => cases hus

theorem exists_run_literal {text cs : List Char} {ts : List Token}
    (h : Spells cs (.literal text :: ts)) :
    ∃ c rest, text = c :: rest.takeWhile continuesLiteral ∧ Text.isBlank c = false ∧ c ≠ '(' ∧
      Spells (rest.dropWhile continuesLiteral) ts ∧
        ∀ s : Scan, Scan.run s cs = Scan.run s (c :: rest) := by
  generalize hus : Token.literal text :: ts = us at h
  induction h with
  | nil => cases hus
  | blank hc _ ih =>
    obtain ⟨c, rest, htext, hc', hopen, hrest, hrun⟩ := ih hus
    exact ⟨c, rest, htext, hc', hopen, hrest, fun s => (run_blank s _ hc).trans (hrun s)⟩
  | mark _ _ => cases hus
  | literal hc hopen h _ =>
    cases hus
    exact ⟨_, _, rfl, hc, hopen, h, fun s => rfl⟩

/-- What the reader does with the tokens of a phrase: it ends with stacks that settle to those with
the phrase as one more operand. -/
theorem exists_run_phrase {L : Level} {p : Phrase} (h : Derives L p) {cs : List Char}
    {ts : List Token} (hcs : Spells cs (p.tokens ++ ts)) (operands : List Formula)
    {pending : List Pending} (hbelow : Below L.rank pending) :
    ∃ rest pending' operands', Spells rest ts ∧
      Scan.run ⟨operands, pending, false⟩ cs = Scan.run ⟨operands', pending', true⟩ rest ∧
        Settles L.rank (pending', operands') (pending, p.formula :: operands) := by
  induction h generalizing cs ts operands pending with
  | @literal text q hq =>
    obtain ⟨c, rest, htext, hc, hopen, hrest, hrun⟩ := exists_run_literal hcs
    refine ⟨_, pending, .number q :: operands, hrest, ?_, .refl⟩
    rw [hrun, run_literal rest hc hopen rfl, ← htext]
    simp [Scan.pushLiteral, readLiteral, hq, bind, Except.bind, pure, Except.pure]
  | @group p hp ih =>
    simp only [Phrase.tokens, List.cons_append, List.append_assoc, List.nil_append] at hcs
    obtain ⟨rest, hrest, hrun⟩ := exists_run_mark hcs
    have hbelow' : Below Level.sum.rank (.opening :: pending) := trivial
    obtain ⟨rest', pending', operands', hrest', hrun', hsettles⟩ := ih hrest operands hbelow'
    obtain ⟨rest'', hrest'', hrun''⟩ := exists_run_mark hrest'
    refine ⟨rest'', pending, p.formula :: operands, hrest'', ?_, .refl⟩
    have hreduce : Scan.reduceToOpening pending' operands' = .ok (pending, p.formula :: operands) :=
      hsettles.reduceToOpening_eq
    rw [hrun, run_opening rest rfl, hrun', hrun'', run_afterOperand rest'' (by decide) rfl]
    simp [Scan.afterOperandStep, hreduce, bind, Except.bind, pure, Except.pure]
  | @application K sign op left right hop hl hr ihl ihr =>
    simp only [Phrase.tokens, List.append_assoc, List.cons_append] at hcs
    obtain ⟨hsymbol, hrank, rfl⟩ := mem_operators hop
    obtain ⟨rest, pending', operands', hrest, hrun, hsettles⟩ := ihl hcs operands hbelow
    obtain ⟨rest', hrest', hrun'⟩ := exists_run_mark hrest
    have hbelow' : Below K.next.rank (.operator op :: pending) := by
      rw [Level.rank_next (rank_lt_of_mem_operators hop)]
      exact Nat.lt_succ_of_le hrank.le
    obtain ⟨rest'', pending'', operands'', hrest'', hrun'', hsettles'⟩ :=
      ihr hrest' (left.formula :: operands) hbelow'
    refine ⟨rest'', pending'', operands'', hrest'', ?_, ?_⟩
    · have hreduce : Scan.reduceTighter op pending' operands' =
          .ok (pending, left.formula :: operands) := by
        rw [hsettles.reduceTighter_eq hrank.le]
        exact reduceTighter_of_below (hrank ▸ hbelow) _
      have hstep : Scan.afterOperandStep ⟨operands', pending', true⟩ op.symbol =
          .ok ⟨left.formula :: operands, .operator op :: pending, false⟩ := by
        rw [afterOperandStep_symbol, hreduce]
        rfl
      rw [hrun, hrun', run_afterOperand rest' (by cases op <;> decide) rfl, hstep]
      exact hrun''
    · have hnext : K.rank ≤ K.next.rank := by
        rw [Level.rank_next (rank_lt_of_mem_operators hop)]
        omega
      exact .step hrank.ge (hsettles'.mono hnext)
  | @unit K p _ ih =>
    have hnext : K.rank ≤ K.next.rank := by cases K <;> simp [Level.rank, Level.next]
    obtain ⟨rest, pending', operands', hrest, hrun, hsettles⟩ := ih hcs operands (hbelow.mono hnext)
    exact ⟨rest, pending', operands', hrest, hrun, hsettles.mono hnext⟩

theorem run_of_spells_nil {cs : List Char} (h : Spells cs []) (s : Scan) :
    Scan.run s cs = .ok s := by
  generalize hts : ([] : List Token) = ts at h
  induction h with
  | nil => rw [Scan.run]
  | blank hc _ ih => rw [run_blank s _ hc, ih hts]
  | mark _ _ => cases hts
  | literal _ _ _ => cases hts

theorem read_of_sentence {cs : List Char} {p : Phrase} (h : IsSentence cs p) :
    Formula.read cs = .ok p.formula := by
  have hcs : Spells cs (p.tokens ++ []) := by simpa using h.2
  have hbelow : Below Level.sum.rank [] := trivial
  obtain ⟨rest, pending, operands, hrest, hrun, hsettles⟩ := exists_run_phrase h.1 hcs [] hbelow
  have hreduce : Scan.reduceAll pending operands = .ok p.formula := hsettles.reduceAll_eq
  unfold Formula.read
  rw [show ({} : Scan) = ⟨[], [], false⟩ from rfl, hrun, run_of_spells_nil hrest]
  exact hreduce

end FormulaSearch.Scan

namespace FormulaSearch.Formula

open Grammar

/-- A text that never closes more parentheses than it has opened is read exactly if it is a
sentence. What is read is then the tree of its derivation, and it has no other derivation. -/
theorem read_eq_ok_iff_sentence {cs : List Char}
    (hclose : ∀ front, front <+: cs → front.count ')' ≤ front.count '(') :
    (∀ f, read cs = .ok f ↔ ∃ p, IsSentence cs p ∧ p.formula = f) ∧
      ∀ p q, IsSentence cs p → IsSentence cs q → p = q := by
  refine ⟨fun f => ⟨fun h => ?_, ?_⟩, fun p q => IsSentence.unique⟩
  · refine Scan.exists_sentence_of_read ?_ h
    intro front hfront
    have := hclose front hfront
    omega
  · rintro ⟨p, hp, rfl⟩
    exact Scan.read_of_sentence hp

/-- A sentence with all four levels, a signed literal and blanks. -/
theorem sentence_of_four_levels :
    (∀ front, front <+: "2 * (3 - -.5m1)p2 / 4".toList →
      front.count ')' ≤ front.count '(') ∧
    ∃ p, IsSentence "2 * (3 - -.5m1)p2 / 4".toList p ∧ p.formula =
      .binary .pow
        (.binary .mul (.number 2)
          (.binary .sub (.number 3) (.binary .max (.number (-1 / 2)) (.number 1))))
        (.binary .div (.number 2) (.number 4)) := by
  have hclose : ∀ front, front <+: "2 * (3 - -.5m1)p2 / 4".toList →
      front.count ')' ≤ front.count '(' := by
    intro front h
    rw [← List.mem_inits] at h
    revert front
    decide
  exact ⟨hclose, ((read_eq_ok_iff_sentence hclose).1 _).mp (by cbv)⟩

end FormulaSearch.Formula
