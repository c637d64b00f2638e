import FormulaSearch.Proofs.Formula.Reading

/-!
# The two stacks of the reader

Before each character there is one operand for each pending operator, and one more where an
operator is expected. Between parentheses the pending operators bind the more tightly the later
they came. So no reduction lacks an operand while a text is scanned, and at its end the two stacks
tell which of two faults it has, if any.
-/

namespace FormulaSearch

def Pending.operator? : Pending → Option Operator
  | opening => none
  | operator op => some op

namespace Scan

/-! ## The loop -/

/-- One iteration: what a character and those that it takes with it make of a scan, and the text
behind them. -/
def iterate (s : Scan) (c : Char) (cs : List Char) : Except ReadFault (Scan × List Char) :=
  if Text.isBlank c then .ok (s, cs)
  else if s.afterOperand then (s.afterOperandStep c).map fun s' => (s', cs)
  else if c = '(' then .ok ({ s with pending := .opening :: s.pending }, cs)
  else
    (s.pushLiteral (c :: cs.takeWhile continuesLiteral)).map fun s' =>
      (s', cs.dropWhile continuesLiteral)

theorem run_cons (s : Scan) (c : Char) (cs : List Char) :
    run s (c :: cs) = (s.iterate c cs).bind fun r => run r.1 r.2 := by
  rw [run, iterate]
  split_ifs
  · rfl
  · cases s.afterOperandStep c <;> rfl
  · rfl
  · cases s.pushLiteral (c :: cs.takeWhile continuesLiteral) <;> rfl

theorem iterate_cases {s s' : Scan} {c : Char} {cs rest : List Char}
    (h : s.iterate c cs = .ok (s', rest)) :
    (s' = s ∧ rest = cs) ∨
    (s.afterOperand = true ∧ s.afterOperandStep c = .ok s' ∧ rest = cs) ∨
    (s.afterOperand = false ∧ s' = { s with pending := .opening :: s.pending } ∧ rest = cs) ∨
    s.afterOperand = false ∧ s.pushLiteral (c :: cs.takeWhile continuesLiteral) = .ok s' ∧
      rest = cs.dropWhile continuesLiteral := by
  unfold iterate at h
  split_ifs at h with hblank hafter hopen
  · cases h
    exact .inl ⟨rfl, rfl⟩
  · obtain ⟨s₁, hstep, heq⟩ := map_eq_ok_iff.mp h
    cases heq
    exact .inr (.inl ⟨hafter, hstep, rfl⟩)
  · cases h
    exact .inr (.inr (.inl ⟨by simpa using hafter, rfl, rfl⟩))
  · obtain ⟨s₁, hpush, heq⟩ := map_eq_ok_iff.mp h
    cases heq
    exact .inr (.inr (.inr ⟨by simpa using hafter, hpush, rfl⟩))

theorem length_le_of_iterate {s s' : Scan} {c : Char} {cs rest : List Char}
    (h : s.iterate c cs = .ok (s', rest)) : rest.length ≤ cs.length := by
  obtain ⟨-, rfl⟩ | ⟨-, -, rfl⟩ | ⟨-, -, rfl⟩ | ⟨-, -, rfl⟩ := iterate_cases h
  · exact le_rfl
  · exact le_rfl
  · exact le_rfl
  · exact (List.dropWhile_sublist _).length_le

/-- The scans with which an iteration begins, and the text that is left then. -/
inductive Reaches (cs : List Char) : Scan → List Char → Prop
  | start : Reaches cs {} cs
  | next {s s' : Scan} {c : Char} {rest rest' : List Char} :
      Reaches cs s (c :: rest) → s.iterate c rest = .ok (s', rest') → Reaches cs s' rest'

variable {cs rest : List Char} {s s' : Scan} {c : Char}

theorem Reaches.run_eq (h : Reaches cs s rest) : run {} cs = run s rest := by
  induction h with
  | start => rfl
  | next _ hstep ih => rw [ih, run_cons, hstep, Except.bind]

theorem Reaches.read_eq (h : Reaches cs s []) :
    Formula.read cs = reduceAll s.pending s.operands := by
  rw [Formula.read, h.run_eq, run]
  rfl

theorem Reaches.read_eq_error {e : ReadFault} (h : Reaches cs s (c :: rest))
    (hstep : s.iterate c rest = .error e) : Formula.read cs = .error e := by
  rw [Formula.read, h.run_eq, run_cons, hstep]
  rfl

theorem Reaches.end_or_fault (h : Reaches cs s rest) : (∃ s', Reaches cs s' []) ∨
    ∃ s' c rest' e, Reaches cs s' (c :: rest') ∧ s'.iterate c rest' = .error e := by
  -- Strong induction on the length, as a literal takes several characters at once.
  induction hn : rest.length using Nat.strongRecOn generalizing s rest with
  | ind n ih =>
    cases rest with
    | nil => exact .inl ⟨s, h⟩
    | cons c rest =>
      cases hstep : s.iterate c rest with
      | error e => exact .inr ⟨s, c, rest, e, h, hstep⟩
      | ok r =>
        have hlength : r.2.length < n := by
          rw [← hn]
          exact Nat.lt_succ_of_le (length_le_of_iterate hstep)
        exact ih _ hlength (h.next hstep) rfl

theorem run_eq_ok_iff : run {} cs = .ok s ↔ Reaches cs s [] := by
  constructor
  · intro hrun
    have hstart : Reaches cs {} cs := .start
    rcases hstart.end_or_fault with ⟨s', hend⟩ | ⟨s', c, rest, e, hreach, hstep⟩
    · have hs : s' = s := by
        rw [hend.run_eq, run] at hrun
        exact Except.ok.inj hrun
      exact hs ▸ hend
    · rw [hreach.run_eq, run_cons, hstep] at hrun
      cases hrun
  · intro h
    rw [h.run_eq, run]

/-! ## The invariant -/

/-- The operators that wait, the last one first. -/
def operatorsIn (pending : List Pending) : List Operator := pending.filterMap Pending.operator?

@[simp] theorem operatorsIn_opening (pending : List Pending) :
    operatorsIn (.opening :: pending) = operatorsIn pending := rfl

@[simp] theorem operatorsIn_operator (op : Operator) (pending : List Pending) :
    operatorsIn (.operator op :: pending) = op :: operatorsIn pending := rfl

theorem operatorsIn_append (above below : List Pending) :
    operatorsIn (above ++ below) = operatorsIn above ++ operatorsIn below :=
  List.filterMap_append

theorem mem_operatorsIn {op : Operator} {pending : List Pending} :
    op ∈ operatorsIn pending ↔ .operator op ∈ pending := by
  induction pending with
  | nil => simp [operatorsIn]
  | cons item rest ih => cases item <;> simp [ih]

theorem length_operatorsIn {pending : List Pending} (h : .opening ∉ pending) :
    (operatorsIn pending).length = pending.length := by
  induction pending with
  | nil => rfl
  | cons item rest ih =>
    cases item with
    | opening => simp at h
    | operator op =>
      have := ih (by simpa using h)
      simp [this]

/-- Of two pending operators with no parenthesis opened between them, the upper one binds more
tightly. -/
def Tightens (pending : List Pending) : Prop :=
  ∀ above upper between lower below,
    pending = above ++ .operator upper :: (between ++ .operator lower :: below) →
      .opening ∉ between → lower.binding < upper.binding

theorem tightens_nil : Tightens [] := by
  intro above upper between lower below heq
  simp at heq

theorem tightens_cons_iff {item : Pending} {pending : List Pending} :
    Tightens (item :: pending) ↔ Tightens pending ∧
      ∀ upper between lower below, item = .operator upper →
        pending = between ++ .operator lower :: below → .opening ∉ between →
          lower.binding < upper.binding := by
  constructor
  · intro h
    constructor
    · intro above upper between lower below heq
      exact h (item :: above) upper between lower below (by rw [heq, List.cons_append])
    · rintro upper between lower below rfl rfl
      exact h [] upper between lower below rfl
  · intro ⟨hrest, htop⟩ above upper between lower below heq
    cases above with
    | nil =>
      obtain ⟨hitem, hpending⟩ := List.cons.inj heq
      exact htop upper between lower below hitem hpending
    | cons _ above => exact hrest above upper between lower below (List.cons.inj heq).2

theorem Tightens.of_suffix {pending lower : List Pending} (h : Tightens pending)
    (hlower : lower <:+ pending) : Tightens lower := by
  obtain ⟨front, rfl⟩ := hlower
  induction front with
  | nil => exact h
  | cons item front ih => exact ih (tightens_cons_iff.mp h).1

theorem Tightens.opening {pending : List Pending} (h : Tightens pending) :
    Tightens (.opening :: pending) := by
  refine tightens_cons_iff.mpr ⟨h, ?_⟩
  intro upper between lower below heq
  cases heq

/-- An operator that binds more tightly than the topmost one binds more tightly than all of them
down to the last open parenthesis. -/
theorem Tightens.operator {op : Operator} {pending : List Pending} (h : Tightens pending)
    (hbelow : Below op.binding pending) : Tightens (.operator op :: pending) := by
  refine tightens_cons_iff.mpr ⟨h, ?_⟩
  rintro _ between lower below ⟨⟩ rfl hopen
  -- The operators under the topmost one bind less tightly than it does, by `h`.
  cases between with
  | nil => exact hbelow
  | cons item between =>
    cases item with
    | opening => simp at hopen
    | operator middle =>
      have hmiddle : lower.binding < middle.binding :=
        (tightens_cons_iff.mp h).2 middle between lower below rfl rfl (by simpa using hopen)
      exact hmiddle.trans hbelow

/-- One operand for each pending operator, and one more where an operator is expected; the pending
operators bind the more tightly the later they came, between parentheses. -/
structure Disciplined (s : Scan) : Prop where
  length_operands :
    s.operands.length = (operatorsIn s.pending).length + if s.afterOperand then 1 else 0
  tightens : Tightens s.pending

theorem disciplined_start : Disciplined {} := ⟨rfl, tightens_nil⟩

/-! ## Reductions while scanning -/

theorem exists_reduce (op : Operator) {n : Nat} {operands : List Formula}
    (h : operands.length = n + 2) :
    ∃ operands', Scan.reduce op operands = .ok operands' ∧ operands'.length = n + 1 := by
  match operands, h with
  | right :: left :: lower, h => exact ⟨.binary op left right :: lower, rfl, by simpa using h⟩

/-- With one operand more than operators, everything down to an open parenthesis is reduced, and
the operands stay one more. -/
theorem exists_reduceToOpening {pending : List Pending} {operands : List Formula}
    (h : operands.length = (operatorsIn pending).length + 1) :
    ∃ pending' operands', Scan.reduceToOpening pending operands = .ok (pending', operands') ∧
      pending' <:+ pending ∧ operands'.length = (operatorsIn pending').length + 1 := by
  induction pending generalizing operands with
  | nil => exact ⟨[], operands, rfl, List.suffix_rfl, h⟩
  | cons item lower ih =>
    cases item with
    | opening => exact ⟨lower, operands, rfl, List.suffix_cons _ _, h⟩
    | operator op =>
      obtain ⟨reduced, hreduce, hlength⟩ := exists_reduce op h
      obtain ⟨pending', operands', hrest, hsuffix, hlength'⟩ := ih hlength
      refine ⟨pending', operands', ?_, hsuffix.trans (List.suffix_cons _ _), hlength'⟩
      simpa [Scan.reduceToOpening, hreduce, bind, Except.bind] using hrest

/-- Likewise everything that binds at least as tightly as an operator is reduced, so that the
operator may be put on top. -/
theorem exists_reduceTighter (op : Operator) {pending : List Pending} {operands : List Formula}
    (h : operands.length = (operatorsIn pending).length + 1) :
    ∃ pending' operands', Scan.reduceTighter op pending operands = .ok (pending', operands') ∧
      pending' <:+ pending ∧ Below op.binding pending' ∧
        operands'.length = (operatorsIn pending').length + 1 := by
  induction pending generalizing operands with
  | nil => exact ⟨[], operands, rfl, List.suffix_rfl, trivial, h⟩
  | cons item lower ih =>
    cases item with
    | opening => exact ⟨_, operands, rfl, List.suffix_rfl, trivial, h⟩
    | operator top =>
      by_cases hlt : top.binding < op.binding
      · exact ⟨_, operands, by rw [Scan.reduceTighter, if_pos hlt], List.suffix_rfl, hlt, h⟩
      · obtain ⟨reduced, hreduce, hlength⟩ := exists_reduce top h
        obtain ⟨pending', operands', hrest, hsuffix, hbelow, hlength'⟩ := ih hlength
        refine ⟨pending', operands', ?_, hsuffix.trans (List.suffix_cons _ _), hbelow, hlength'⟩
        simpa [Scan.reduceTighter, hlt, hreduce, bind, Except.bind] using hrest

theorem Disciplined.length_of_afterOperand (h : s.Disciplined) (hafter : s.afterOperand = true) :
    s.operands.length = (operatorsIn s.pending).length + 1 := by
  have := h.length_operands
  rwa [if_pos hafter] at this

theorem Disciplined.length_of_not_afterOperand (h : s.Disciplined)
    (hafter : s.afterOperand = false) : s.operands.length = (operatorsIn s.pending).length := by
  have := h.length_operands
  rwa [hafter] at this

theorem Disciplined.afterOperandStep (h : s.Disciplined) (hafter : s.afterOperand = true)
    (hstep : s.afterOperandStep c = .ok s') : s'.Disciplined := by
  have hlength := h.length_of_afterOperand hafter
  obtain ⟨-, pending, operands, hreduce, rfl⟩ | ⟨-, op, pending, operands, -, hreduce, rfl⟩ :=
    afterOperandStep_cases hstep
  · obtain ⟨pending', operands', hreduce', hsuffix, hlength'⟩ := exists_reduceToOpening hlength
    cases hreduce.symm.trans hreduce'
    exact ⟨by rw [if_pos hafter]; exact hlength', h.tightens.of_suffix hsuffix⟩
  · obtain ⟨pending', operands', hreduce', hsuffix, hbelow, hlength'⟩ :=
      exists_reduceTighter op hlength
    cases hreduce.symm.trans hreduce'
    exact ⟨hlength', (h.tightens.of_suffix hsuffix).operator hbelow⟩

theorem Disciplined.pushLiteral {text : List Char} (h : s.Disciplined)
    (hafter : s.afterOperand = false) (hpush : s.pushLiteral text = .ok s') : s'.Disciplined := by
  obtain ⟨q, -, rfl⟩ := pushLiteral_eq_ok_iff.mp hpush
  exact ⟨congrArg (· + 1) (h.length_of_not_afterOperand hafter), h.tightens⟩

theorem Disciplined.iterate (h : s.Disciplined) (hstep : s.iterate c cs = .ok (s', rest)) :
    s'.Disciplined := by
  obtain ⟨rfl, -⟩ | ⟨hafter, hnext, -⟩ | ⟨-, rfl, -⟩ | ⟨hafter, hpush, -⟩ := iterate_cases hstep
  · exact h
  · exact h.afterOperandStep hafter hnext
  · exact ⟨h.length_operands, h.tightens.opening⟩
  · exact h.pushLiteral hafter hpush

theorem Reaches.disciplined (h : Reaches cs s rest) : s.Disciplined := by
  induction h with
  | start => exact disciplined_start
  | next _ hstep ih => exact ih.iterate hstep

/-! ## The final reductions -/

def reduceRest : List Pending → List Formula → Except ReadFault (List Formula)
  | [], operands => .ok operands
  | .opening :: _, _ => .error .mismatchedParentheses
  | .operator op :: rest, operands => do reduceRest rest (← Scan.reduce op operands)

/-- The last check: no operand at all is a fault, and so is a surplus of them. -/
def onlyOperand : List Formula → Except ReadFault Formula
  | [] => .error .malformed
  | [formula] => .ok formula
  | _ :: _ :: _ => .error .malformed

theorem reduceAll_eq_bind (pending : List Pending) (operands : List Formula) :
    reduceAll pending operands = (reduceRest pending operands).bind onlyOperand := by
  induction pending generalizing operands with
  | nil =>
    match operands with
    | [] => rfl
    | [_] => rfl
    | _ :: _ :: _ => rfl
  | cons item rest ih =>
    cases item with
    | opening => rfl
    | operator op =>
      cases hreduce : Scan.reduce op operands with
      | error e => simp [reduceAll, reduceRest, hreduce, bind, Except.bind]
      | ok reduced => simpa [reduceAll, reduceRest, hreduce, bind, Except.bind] using ih reduced

theorem length_of_reduce {op : Operator} {operands reduced : List Formula}
    (h : Scan.reduce op operands = .ok reduced) : operands.length = reduced.length + 1 := by
  match operands, h with
  | _ :: _ :: _, h =>
    cases h
    rfl

theorem length_of_reduceRest {pending : List Pending} {operands left : List Formula}
    (h : reduceRest pending operands = .ok left) :
    operands.length = (operatorsIn pending).length + left.length := by
  induction pending generalizing operands with
  | nil =>
    cases h
    simp [operatorsIn]
  | cons item rest ih =>
    cases item with
    | opening => cases h
    | operator op =>
      obtain ⟨reduced, hreduce, h⟩ := bind_eq_ok_iff.mp h
      have := ih h
      have := length_of_reduce hreduce
      simp only [operatorsIn_operator, List.length_cons]
      omega

/-- The reductions come down to an open parenthesis if there are enough operands above it, those
from outside the parenthesis among them. -/
theorem reduceAll_opening {above : List Pending} (below : List Pending) (operands : List Formula)
    (habove : .opening ∉ above) :
    reduceAll (above ++ .opening :: below) operands =
      .error (if above = [] ∨ above.length < operands.length then .mismatchedParentheses
        else .malformed) := by
  induction above generalizing operands with
  | nil => simp [reduceAll]
  | cons item above ih =>
    cases item with
    | opening => simp at habove
    | operator op =>
      have ih (reduced : List Formula) := ih reduced (by simpa using habove)
      rcases operands with _ | ⟨right, _ | ⟨left, lower⟩⟩
      · simp [reduceAll, Scan.reduce, bind, Except.bind]
      · simp [reduceAll, Scan.reduce, bind, Except.bind]
      · have hreduce : reduceAll (.operator op :: above ++ .opening :: below)
            (right :: left :: lower) =
              reduceAll (above ++ .opening :: below) (.binary op left right :: lower) := rfl
        rw [hreduce, ih]
        -- With the last operator above the parenthesis gone, both conditions hold.
        cases above <;> simp

/-- Without an open parenthesis the result hangs on the number of operands. -/
theorem reduceAll_of_no_opening {pending : List Pending} {operands : List Formula}
    (h : .opening ∉ pending) :
    (operands.length = pending.length + 1 → ∃ f, reduceAll pending operands = .ok f) ∧
      (operands.length ≤ pending.length → reduceAll pending operands = .error .malformed) := by
  induction pending generalizing operands with
  | nil =>
    rcases operands with _ | ⟨f, _ | ⟨_, _⟩⟩
    · simp [reduceAll]
    · simp [reduceAll]
    · simp
  | cons item rest ih =>
    cases item with
    | opening => simp at h
    | operator op =>
      have ih (reduced : List Formula) := @ih reduced (by simpa using h)
      rcases operands with _ | ⟨right, _ | ⟨left, lower⟩⟩
      · simp [reduceAll, Scan.reduce, bind, Except.bind]
      · simp [reduceAll, Scan.reduce, bind, Except.bind]
      · have hreduce : reduceAll (.operator op :: rest) (right :: left :: lower) =
          reduceAll rest (.binary op left right :: lower) := rfl
        simpa [hreduce] using ih (.binary op left right :: lower)

/-- The last open parenthesis is on top, or operators wait below it. -/
def StopsAtOpening (pending : List Pending) : Prop :=
  ∃ above below, pending = above ++ .opening :: below ∧ .opening ∉ above ∧
    (above = [] ∨ ∃ op, .operator op ∈ below)

/-- After an operand the final reductions find all their operands: they end at a parenthesis that
is still open, and otherwise with a formula. -/
theorem Disciplined.reduceAll_of_afterOperand (h : s.Disciplined) (hafter : s.afterOperand = true) :
    (.opening ∈ s.pending → reduceAll s.pending s.operands = .error .mismatchedParentheses) ∧
      (.opening ∉ s.pending → ∃ f, reduceAll s.pending s.operands = .ok f) := by
  have hlength := h.length_of_afterOperand hafter
  constructor
  · intro hopen
    obtain ⟨above, below, hpending, habove⟩ := List.eq_append_cons_of_mem hopen
    rw [hpending, operatorsIn_append, List.length_append, length_operatorsIn habove] at hlength
    have henough : above.length < s.operands.length := by omega
    rw [hpending, reduceAll_opening below s.operands habove, if_pos (.inr henough)]
  · intro hopen
    rw [length_operatorsIn hopen] at hlength
    exact (reduceAll_of_no_opening hopen).1 hlength

/-- Where an operand is missing at the end, the reductions still come down to an open parenthesis
if there is none to make, or if one of the operands below the parenthesis can stand in. -/
theorem Disciplined.reduceAll_of_not_afterOperand (h : s.Disciplined)
    (hafter : s.afterOperand = false) :
    (StopsAtOpening s.pending →
      reduceAll s.pending s.operands = .error .mismatchedParentheses) ∧
    (¬ StopsAtOpening s.pending → reduceAll s.pending s.operands = .error .malformed) := by
  have hlength := h.length_of_not_afterOperand hafter
  -- Above the parenthesis one operand is missing, unless an operator below it has one to spare.
  constructor
  · rintro ⟨above, below, hpending, habove, hstop⟩
    rw [hpending, operatorsIn_append, List.length_append, length_operatorsIn habove] at hlength
    rw [hpending, reduceAll_opening below s.operands habove, if_pos]
    apply hstop.imp_right
    intro ⟨op, hop⟩
    have := List.length_pos_of_mem (mem_operatorsIn.mpr hop)
    simp only [operatorsIn_opening] at hlength
    omega
  · intro hstop
    by_cases hopen : .opening ∈ s.pending
    · obtain ⟨above, below, hpending, habove⟩ := List.eq_append_cons_of_mem hopen
      have hnone : operatorsIn below = [] := by
        apply List.eq_nil_iff_forall_not_mem.mpr
        intro op hop
        exact hstop ⟨above, below, hpending, habove, .inr ⟨op, mem_operatorsIn.mp hop⟩⟩
      have hne : above ≠ [] := fun hnil => hstop ⟨above, below, hpending, habove, .inl hnil⟩
      rw [hpending, operatorsIn_append, List.length_append, length_operatorsIn habove,
        operatorsIn_opening, hnone, List.length_nil] at hlength
      have hfew : ¬ (above = [] ∨ above.length < s.operands.length) := by
        rw [not_or]
        exact ⟨hne, by omega⟩
      rw [hpending, reduceAll_opening below s.operands habove, if_neg hfew]
    · rw [length_operatorsIn hopen] at hlength
      exact (reduceAll_of_no_opening hopen).2 hlength.le

theorem Disciplined.length_left_le {left : List Formula} (h : s.Disciplined)
    (hleft : reduceRest s.pending s.operands = .ok left) : left.length ≤ 1 := by
  have hreduced := length_of_reduceRest hleft
  have hlength := h.length_operands
  split at hlength <;> omega

/-- Every text is scanned to its end unless an iteration fails. The stacks are disciplined whenever
an iteration begins, so none of its reductions can fail. At the end there is never a surplus of
operands, and the stacks tell how the text is read. -/
theorem scanning_keeps_discipline (cs : List Char) :
    ((∃ s, Reaches cs s []) ∨ ∃ s c rest e, Reaches cs s (c :: rest) ∧
      s.iterate c rest = .error e ∧ Formula.read cs = .error e) ∧
    (∀ s rest, Reaches cs s rest → s.Disciplined ∧
      (s.afterOperand = true →
        (∃ r, reduceToOpening s.pending s.operands = .ok r) ∧
          ∀ op, ∃ r, reduceTighter op s.pending s.operands = .ok r)) ∧
    ∀ s, Reaches cs s [] →
      Formula.read cs = (reduceRest s.pending s.operands).bind onlyOperand ∧
      (∀ left, reduceRest s.pending s.operands = .ok left → left.length ≤ 1) ∧
      (s.afterOperand = true →
        (.opening ∈ s.pending → Formula.read cs = .error .mismatchedParentheses) ∧
          (.opening ∉ s.pending → ∃ f, Formula.read cs = .ok f)) ∧
      (s.afterOperand = false →
        (StopsAtOpening s.pending → Formula.read cs = .error .mismatchedParentheses) ∧
          (¬ StopsAtOpening s.pending → Formula.read cs = .error .malformed)) := by
  refine ⟨?_, ?_, ?_⟩
  · have hstart : Reaches cs {} cs := .start
    apply hstart.end_or_fault.imp_right
    intro ⟨s, c, rest, e, hreach, hstep⟩
    exact ⟨s, c, rest, e, hreach, hstep, hreach.read_eq_error hstep⟩
  · intro s rest hreach
    have h := hreach.disciplined
    refine ⟨h, fun hafter => ?_⟩
    have hlength := h.length_of_afterOperand hafter
    constructor
    · obtain ⟨pending, operands, hreduce, -⟩ := exists_reduceToOpening hlength
      exact ⟨_, hreduce⟩
    · intro op
      obtain ⟨pending, operands, hreduce, -⟩ := exists_reduceTighter op hlength
      exact ⟨_, hreduce⟩
  · intro s hreach
    have h := hreach.disciplined
    rw [hreach.read_eq]
    exact ⟨reduceAll_eq_bind _ _, fun left => h.length_left_le, h.reduceAll_of_afterOperand,
      h.reduceAll_of_not_afterOperand⟩

/-- The sum in the parenthesis takes its second operand from before it. -/
theorem discipline_of_missing_operand :
    Reaches "2*(3+".toList
      ⟨[.number 3, .number 2], [.operator .add, .opening, .operator .mul], false⟩ [] ∧
    StopsAtOpening [.operator .add, .opening, .operator .mul] ∧
    Formula.read "2*(3+".toList = .error .mismatchedParentheses := by
  have hreach : Reaches "2*(3+".toList
      ⟨[.number 3, .number 2], [.operator .add, .opening, .operator .mul], false⟩ [] :=
    run_eq_ok_iff.mp (by cbv)
  have hstop : StopsAtOpening [.operator .add, .opening, .operator .mul] :=
    ⟨[.operator .add], [.operator .mul], rfl, by decide, .inr ⟨.mul, by decide⟩⟩
  exact ⟨hreach, hstop, (((scanning_keeps_discipline _).2.2 _ hreach).2.2.2 rfl).1 hstop⟩

/-- With nothing before the parenthesis the operand is missed first. -/
example : Formula.read "(3+".toList = .error .malformed := by cbv

end Scan

end FormulaSearch
