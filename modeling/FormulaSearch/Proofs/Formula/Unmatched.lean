import FormulaSearch.Proofs.Formula.Reading

/-!
# Closing parentheses without a partner

A closing parenthesis without a partner closes everything before it, as if the text had begun with
one more open parenthesis. So a text is read like the one in which every closing parenthesis has a
partner, and it has the same fault if it has one.
-/

namespace FormulaSearch

/-! ## Counting them -/

/-- The largest number by which the closing parentheses outnumber the opening ones in a front of
the text. -/
def excess (cs : List Char) : Nat :=
  (cs.inits.map fun front => front.count ')' - front.count '(').foldr max 0

example : excess "1)+(2))*3)".toList = 3 := by decide

/-- The closing parentheses without a partner if `depth` parentheses are open before the text. -/
def unmatched : Nat → List Char → Nat
  | _, [] => 0
  | depth, c :: cs =>
    if c = '(' then unmatched (depth + 1) cs
    else if c = ')' then unmatched (depth - 1) cs + (1 - depth)
    else unmatched depth cs

theorem excess_le_iff {cs : List Char} {k : Nat} :
    excess cs ≤ k ↔ ∀ front, front <+: cs → front.count ')' ≤ front.count '(' + k := by
  have hfold (fronts : List (List Char)) :
      (fronts.map fun front => front.count ')' - front.count '(').foldr max 0 ≤ k ↔
        ∀ front ∈ fronts, front.count ')' ≤ front.count '(' + k := by
    induction fronts with
    | nil => simp
    | cons front fronts ih =>
      simp only [List.map_cons, List.foldr_cons, max_le_iff, List.forall_mem_cons, ih]
      apply and_congr_left'
      omega
  simp only [excess, hfold, List.mem_inits]

theorem forall_prefix_cons_iff {α : Type} {P : List α → Prop} {a : α} {as : List α} :
    (∀ front, front <+: a :: as → P front) ↔ P [] ∧ ∀ front, front <+: as → P (a :: front) := by
  constructor
  · intro h
    exact ⟨h [] List.nil_prefix, fun front hfront => h _ (List.cons_prefix_cons.mpr ⟨rfl, hfront⟩)⟩
  · intro ⟨hnil, hcons⟩ front hfront
    rcases List.prefix_cons_iff.mp hfront with rfl | ⟨rest, rfl, hrest⟩
    · exact hnil
    · exact hcons rest hrest

theorem unmatched_le_iff {depth : Nat} {cs : List Char} {k : Nat} : unmatched depth cs ≤ k ↔
    ∀ front, front <+: cs → front.count ')' ≤ depth + front.count '(' + k := by
  induction cs generalizing depth k with
  | nil => simp [unmatched]
  | cons c cs ih =>
    rw [forall_prefix_cons_iff, unmatched]
    split_ifs with hopen hclose
    · simp [hopen, ih, add_comm, add_left_comm]
    · subst hclose
      have hrest : unmatched (depth - 1) cs + (1 - depth) ≤ k ↔
          1 ≤ depth + k ∧ unmatched (depth - 1) cs ≤ depth + k - 1 - (depth - 1) := by omega
      rw [hrest, ih]
      constructor
      · intro ⟨hpositive, hall⟩
        refine ⟨by simp, fun front hfront => ?_⟩
        have := hall front hfront
        simp
        omega
      · intro ⟨_, hall⟩
        have hpositive : 1 ≤ depth + k := by simpa using hall [] List.nil_prefix
        refine ⟨hpositive, fun front hfront => ?_⟩
        have := hall front hfront
        simp at this
        omega
    · simp [hopen, hclose, ih]

theorem unmatched_cons (depth : Nat) (c : Char) (cs : List Char) : unmatched depth (c :: cs) =
    unmatched (if c = '(' then depth + 1 else if c = ')' then depth - 1 else depth) cs +
      if c = ')' then 1 - depth else 0 := by
  rw [unmatched]
  split_ifs with hopen hclose
  · exact absurd (hopen.symm.trans hclose) (by decide)
  · rfl
  · rfl
  · rfl

theorem excess_eq_unmatched (cs : List Char) : excess cs = unmatched 0 cs := by
  apply eq_of_forall_ge_iff
  intro k
  simp [excess_le_iff, unmatched_le_iff]

theorem unmatched_append_of_plain {us : List Char} (hus : '(' ∉ us ∧ ')' ∉ us) (depth : Nat)
    (cs : List Char) : unmatched depth (us ++ cs) = unmatched depth cs := by
  induction us with
  | nil => rfl
  | cons c us ih =>
    simp only [List.mem_cons, not_or] at hus
    rw [List.cons_append, unmatched, if_neg (Ne.symm hus.1.1), if_neg (Ne.symm hus.2.1)]
    exact ih ⟨hus.1.2, hus.2.2⟩

namespace Scan

/-! ## Scans inside open parentheses -/

def openings (s : Scan) : Nat := s.pending.count .opening

/-- The same scan with `k` more open parentheses, below everything that waits. -/
def enclosed (k : Nat) (s : Scan) : Scan :=
  { s with pending := s.pending ++ List.replicate k .opening }

theorem enclosed_zero (s : Scan) : s.enclosed 0 = s := by simp [enclosed]

/-- If there is nothing to close, one of the enclosing parentheses is closed. -/
theorem reduceToOpening_enclosed (k : Nat) (pending : List Pending) (operands : List Formula) :
    reduceToOpening (pending ++ List.replicate (k + (1 - pending.count .opening)) .opening)
        operands =
      (reduceToOpening pending operands).map fun r => (r.1 ++ List.replicate k .opening, r.2) := by
  induction pending generalizing operands with
  | nil => rfl
  | cons item rest ih =>
    cases item with
    | opening => simp [reduceToOpening, Except.map]
    | operator op =>
      cases hreduce : reduce op operands with
      | error e => simp [reduceToOpening, hreduce, bind, Except.bind, Except.map]
      | ok operands' => simpa [reduceToOpening, hreduce, bind, Except.bind] using ih operands'

theorem count_of_reduceToOpening {pending pending' : List Pending}
    {operands operands' : List Formula}
    (h : reduceToOpening pending operands = .ok (pending', operands')) :
    pending'.count .opening = pending.count .opening - 1 := by
  induction pending generalizing operands with
  | nil =>
    cases h
    rfl
  | cons item rest ih =>
    cases item with
    | opening =>
      cases h
      simp
    | operator op =>
      obtain ⟨operands₁, -, h⟩ := bind_eq_ok_iff.mp h
      simpa using ih h

theorem reduceTighter_enclosed (op : Operator) (k : Nat) (pending : List Pending)
    (operands : List Formula) :
    reduceTighter op (pending ++ List.replicate k .opening) operands =
      (reduceTighter op pending operands).map fun r =>
        (r.1 ++ List.replicate k .opening, r.2) := by
  induction pending generalizing operands with
  | nil => cases k <;> rfl
  | cons item rest ih =>
    cases item with
    | opening => rfl
    | operator top =>
      by_cases hbinding : top.binding < op.binding
      · simp [reduceTighter, hbinding, Except.map]
      · cases hreduce : reduce top operands with
        | error e => simp [reduceTighter, hbinding, hreduce, bind, Except.bind, Except.map]
        | ok operands' =>
          simpa [reduceTighter, hbinding, hreduce, bind, Except.bind] using ih operands'

theorem count_of_reduceTighter {op : Operator} {pending pending' : List Pending}
    {operands operands' : List Formula}
    (h : reduceTighter op pending operands = .ok (pending', operands')) :
    pending'.count .opening = pending.count .opening := by
  induction pending generalizing operands with
  | nil =>
    cases h
    rfl
  | cons item rest ih =>
    cases item with
    | opening =>
      cases h
      rfl
    | operator top =>
      rw [reduceTighter] at h
      split_ifs at h
      · cases h
        rfl
      · obtain ⟨operands₁, -, h⟩ := bind_eq_ok_iff.mp h
        simpa using ih h

theorem afterOperandStep_enclosed (s : Scan) (k : Nat) (c : Char) :
    (s.enclosed (k + if c = ')' then 1 - s.openings else 0)).afterOperandStep c =
      (s.afterOperandStep c).map (enclosed k) := by
  unfold afterOperandStep
  split_ifs with hclose hnumeric
  · simp only [enclosed, openings, reduceToOpening_enclosed]
    cases reduceToOpening s.pending s.operands <;> rfl
  · rfl
  · split
    · rfl
    · next op _ =>
      simp only [enclosed, add_zero, reduceTighter_enclosed]
      cases reduceTighter op s.pending s.operands <;> rfl

theorem openings_of_afterOperandStep {s s' : Scan} {c : Char} (h : s.afterOperandStep c = .ok s') :
    c ≠ '(' ∧ s'.openings = if c = ')' then s.openings - 1 else s.openings := by
  obtain ⟨rfl, pending, operands, hreduce, rfl⟩ |
    ⟨hclose, op, pending, operands, hop, hreduce, rfl⟩ := afterOperandStep_cases h
  · exact ⟨by decide, count_of_reduceToOpening hreduce⟩
  · rw [if_neg hclose]
    constructor
    · rintro rfl
      cases hop
    · simpa [openings] using count_of_reduceTighter hreduce

theorem pushLiteral_enclosed (s : Scan) (k : Nat) (text : List Char) :
    (s.enclosed k).pushLiteral text = (s.pushLiteral text).map (enclosed k) := by
  unfold pushLiteral
  cases readLiteral text <;> rfl

theorem openings_of_pushLiteral {s s' : Scan} {text : List Char}
    (h : s.pushLiteral text = .ok s') :
    (∃ q, decimal? text = some q) ∧ s'.openings = s.openings := by
  obtain ⟨q, hq, rfl⟩ := pushLiteral_eq_ok_iff.mp h
  exact ⟨⟨q, hq⟩, rfl⟩

/-- The parentheses that a text leaves without a partner are those that the enclosing ones close,
and nothing else of a run depends on them. -/
theorem run_enclosed (s : Scan) (cs : List Char) :
    run (s.enclosed (unmatched s.openings cs)) cs = run s cs := by
  fun_induction run s cs with
  | case1 s => rw [unmatched, enclosed_zero, run]
  | case2 s c cs hblank ih =>
    have hunmatched := unmatched_append_of_plain (not_mem_parentheses_of_isBlank hblank)
    rw [run_blank _ _ hblank, ← ih]
    exact congrArg (fun k => run (s.enclosed k) cs) (hunmatched _ cs)
  | case3 s c cs hblank hafter ih =>
    have hstep (k : Nat) : run (s.enclosed (k + if c = ')' then 1 - s.openings else 0)) (c :: cs) =
        ((s.afterOperandStep c).map (enclosed k)).bind (run · cs) := by
      rw [run_afterOperand (s := s.enclosed _) cs (by simpa using hblank) hafter,
        afterOperandStep_enclosed]
    rw [unmatched_cons, hstep]
    cases hnext : s.afterOperandStep c with
    | error e => rfl
    | ok s' =>
      obtain ⟨hopen, hopenings⟩ := openings_of_afterOperandStep hnext
      rw [if_neg hopen, ← hopenings]
      exact ih s'
  | case4 s cs hafter hblank ih =>
    have hs (k : Nat) : (s.enclosed k).afterOperand = false := by simpa [enclosed] using hafter
    rw [run_opening cs (hs _), unmatched, if_pos rfl]
    have hopenings : ({ s with pending := .opening :: s.pending } : Scan).openings =
      s.openings + 1 := List.count_cons_self
    rw [hopenings] at ih
    exact ih
  | case5 s c cs hblank hafter hopen ih =>
    have hs (k : Nat) : (s.enclosed k).afterOperand = false := by simpa [enclosed] using hafter
    rw [run_literal cs (by simpa using hblank) hopen (hs _), pushLiteral_enclosed]
    cases hpush : s.pushLiteral (c :: cs.takeWhile continuesLiteral) with
    | error e => rfl
    | ok s' =>
      obtain ⟨⟨q, hq⟩, hopenings⟩ := openings_of_pushLiteral hpush
      have hsplit : c :: cs = (c :: cs.takeWhile continuesLiteral) ++
          cs.dropWhile continuesLiteral := by
        rw [List.cons_append, List.takeWhile_append_dropWhile]
      rw [hsplit, unmatched_append_of_plain (not_mem_parentheses_of_decimal? hq), ← hopenings]
      exact ih s'

theorem run_openings (k j : Nat) (cs : List Char) :
    run (enclosed j {}) (List.replicate k '(' ++ cs) = run (enclosed (j + k) {}) cs := by
  induction k generalizing j with
  | zero => rfl
  | succ k ih =>
    rw [List.replicate_succ, List.cons_append, run_opening _ rfl, ← Nat.succ_add_eq_add_succ]
    exact ih (j + 1)

end Scan

/-- A text is read as if each of its closing parentheses without a partner were opened at its
beginning: the tree is the same one, or else the fault. -/
theorem Formula.read_openings_append (cs : List Char) :
    read cs = read (List.replicate (excess cs) '(' ++ cs) := by
  have hrun := Scan.run_enclosed {} cs
  have hopenings := Scan.run_openings (unmatched 0 cs) 0 cs
  rw [Nat.zero_add, Scan.enclosed_zero] at hopenings
  rw [read, read, excess_eq_unmatched, hopenings]
  exact congrArg (· >>= fun s => Scan.reduceAll s.pending s.operands) hrun.symm

end FormulaSearch
