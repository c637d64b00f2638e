import FormulaSearch.Proofs.Formula.Reading

/-!
# Chains of literals

A text without blanks and parentheses is a row of literals with operators between them. If its
literals are sound, and not too long, it has a tree with these operators and these literals in their
order; otherwise the reader stops at a literal or at a character that is no operator.
-/

namespace FormulaSearch

namespace Formula

def operators : Formula → List Operator
  | number _ => []
  | binary op left right => left.operators ++ op :: right.operators

theorem length_operators (f : Formula) : f.operators.length = f.operatorCount := by
  induction f with
  | number _ => rfl
  | binary op l r hl hr => simp [operators, operatorCount, hl, hr]; omega

end Formula

namespace Grammar

def Token.operator? : Token → Option Operator
  | .literal _ => none
  | .mark c => Operator.ofSymbol? c

def Token.text? : Token → Option (List Char)
  | .literal text => some text
  | .mark _ => none

theorem Derives.operators_formula {L : Level} {p : Phrase} (h : Derives L p) :
    p.formula.operators = p.tokens.filterMap Token.operator? := by
  induction h with
  | literal _ => rfl
  | @group p _ ih =>
    have hopen : Token.operator? (.mark '(') = none := by decide
    have hclose : Token.operator? (.mark ')') = none := by decide
    simp [Phrase.tokens, Phrase.formula, ih, hopen, hclose]
  | @application L sign op left right hop _ _ ihl ihr =>
    have hsign : Token.operator? (.mark sign) = some op := (mem_operators hop).1
    simp [Phrase.tokens, Phrase.formula, Formula.operators, ihl, ihr, hsign]
  | unit _ ih => exact ih

theorem Derives.leaves_formula {L : Level} {p : Phrase} (h : Derives L p) :
    p.formula.leaves.map some = (p.tokens.filterMap Token.text?).map decimal? := by
  induction h with
  | literal hq => simp [Phrase.tokens, Phrase.formula, Formula.leaves, Token.text?, hq]
  | @group p _ ih =>
    have hopen : Token.text? (.mark '(') = none := rfl
    have hclose : Token.text? (.mark ')') = none := rfl
    simp [Phrase.tokens, Phrase.formula, ih, hopen, hclose]
  | application _ _ _ ihl ihr =>
    simp only [Phrase.formula, Phrase.tokens, Formula.leaves, List.map_append,
      List.filterMap_append, List.filterMap_cons, Token.text?, ihl, ihr]
  | unit _ ih => exact ih

/-- A literal, and operators each with a literal after it. -/
def chainText (first : List Char) (rest : List (Operator × List Char)) : List Char :=
  first ++ rest.flatMap fun link => link.1.symbol :: link.2

def chainTokens (first : List Char) (rest : List (Operator × List Char)) : List Token :=
  .literal first :: rest.flatMap fun link => [.mark link.1.symbol, .literal link.2]

theorem chainText_cons (first : List Char) (op : Operator) (text : List Char)
    (rest : List (Operator × List Char)) :
    chainText first ((op, text) :: rest) = first ++ op.symbol :: chainText text rest := rfl

theorem chainTokens_cons (first : List Char) (op : Operator) (text : List Char)
    (rest : List (Operator × List Char)) : chainTokens first ((op, text) :: rest) =
      .literal first :: .mark op.symbol :: chainTokens text rest := rfl

theorem operators_chainTokens (first : List Char) (rest : List (Operator × List Char)) :
    (chainTokens first rest).filterMap Token.operator? = rest.map Prod.fst := by
  induction rest generalizing first with
  | nil => rfl
  | cons link rest ih =>
    have hop : Token.operator? (.mark link.1.symbol) = some link.1 :=
      Operator.ofSymbol?_symbol link.1
    rw [chainTokens_cons, List.filterMap_cons_none rfl, List.filterMap_cons_some hop, ih link.2]
    rfl

theorem texts_chainTokens (first : List Char) (rest : List (Operator × List Char)) :
    (chainTokens first rest).filterMap Token.text? = first :: rest.map Prod.snd := by
  induction rest generalizing first with
  | nil => rfl
  | cons link rest ih =>
    have hfirst : Token.text? (.literal first) = some first := rfl
    have hop : Token.text? (.mark link.1.symbol) = none := rfl
    rw [chainTokens_cons, List.filterMap_cons_some hfirst, List.filterMap_cons_none hop, ih link.2]
    rfl

theorem depth_chainTokens (first : List Char) (rest : List (Operator × List Char)) :
    depth (chainTokens first rest) = 0 := by
  induction rest generalizing first with
  | nil => rfl
  | cons link rest ih =>
    obtain ⟨L, hL⟩ := exists_level link.1
    obtain ⟨h1, h2⟩ := sign_ne_parenthesis hL
    rw [chainTokens_cons]
    simp [depth, h1, h2, ih]

end Grammar

namespace Scan

open Grammar

theorem run_signed {s : Scan} {text rest : List Char} (hs : s.afterOperand = false)
    (htext : IsSigned text) (hrest : ∀ c ∈ rest.head?, continuesLiteral c = false) :
    Scan.run s (text ++ rest) = (s.pushLiteral text).bind (Scan.run · rest) := by
  obtain ⟨c, cs, hcs, hblank, hopen, htake, hdrop⟩ := htext.exists_cut hrest
  rw [hcs, run_literal _ hblank hopen hs, htake, hdrop]

/-- After an operand an operator never fails. -/
theorem Holds.exists_step {s : Scan} {ts : List Token}
    (h : Holds .atom s.operands s.pending ts) (op : Operator) :
    ∃ s', s.afterOperandStep op.symbol = .ok s' ∧ s'.afterOperand = false ∧
      Awaits s'.operands s'.pending (ts ++ [.mark op.symbol]) := by
  obtain ⟨K, hK⟩ := exists_level op
  obtain ⟨-, hrank, -⟩ := mem_operators hK
  obtain ⟨pending', operands', hreduce, hholds⟩ :=
    h.reduceTighter hrank (rank_lt_of_mem_operators hK).le
  obtain ⟨p, lower, ts', hlower, hbelow, hp, rfl, rfl⟩ := hholds
  refine ⟨⟨p.formula :: lower, .operator op :: pending', false⟩, ?_, rfl, ?_⟩
  · rw [afterOperandStep_symbol, hreduce]
    rfl
  · exact .operator hlower hbelow hp hK

theorem Awaits.pushLiteral {s : Scan} {ts : List Token} (h : Awaits s.operands s.pending ts)
    {text : List Char} (htext : IsSigned text) (hlength : text.length ≤ Decimal.maxPlaces) :
    (1 < text.count '.' ∧ s.pushLiteral text = .error (.invalidLiteral text)) ∨
    text.count '.' ≤ 1 ∧ ∃ s', s.pushLiteral text = .ok s' ∧ s'.afterOperand = true ∧
      Holds .atom s'.operands s'.pending (ts ++ [.literal text]) := by
  cases hq : decimal? text with
  | none =>
    have htwo := mt (htext.decimal?_isSome_iff hlength).mpr (by simp [hq])
    refine .inl ⟨by omega, ?_⟩
    simp [Scan.pushLiteral, readLiteral, hq, bind, Except.bind]
  | some q =>
    have hone := (htext.decimal?_isSome_iff hlength).mp (by simp [hq])
    refine .inr ⟨hone, ⟨.number q :: s.operands, s.pending, true⟩, ?_, rfl, ?_⟩
    · simp [Scan.pushLiteral, readLiteral, hq, bind, Except.bind, pure, Except.pure]
    · exact ⟨.literal text q, s.operands, ts, h, below_four s.pending, .literal hq, rfl, rfl⟩

/-- A run over a chain stops at a literal with two points, or gets to the end. -/
theorem run_chain {s : Scan} {ts : List Token} (h : Awaits s.operands s.pending ts)
    (hs : s.afterOperand = false) {first : List Char} {rest : List (Operator × List Char)}
    (hsigned : ∀ text ∈ first :: rest.map Prod.snd,
      IsSigned text ∧ text.length ≤ Decimal.maxPlaces) :
    (∃ text ∈ first :: rest.map Prod.snd, 1 < text.count '.' ∧
      Scan.run s (chainText first rest) = .error (.invalidLiteral text)) ∨
    (∀ text ∈ first :: rest.map Prod.snd, text.count '.' ≤ 1) ∧
      ∃ s', Scan.run s (chainText first rest) = .ok s' ∧
        Holds .atom s'.operands s'.pending (ts ++ chainTokens first rest) := by
  obtain ⟨hfirst, hlength⟩ := hsigned first (by simp)
  induction rest generalizing s ts first with
  | nil =>
    have hrun : Scan.run s (chainText first []) = (s.pushLiteral first).bind (Scan.run · []) :=
      run_signed hs hfirst (by simp)
    rw [hrun]
    rcases h.pushLiteral hfirst hlength with ⟨htwo, herror⟩ | ⟨hone, s', hok, -, hholds⟩
    · exact .inl ⟨first, by simp, htwo, by rw [herror]; rfl⟩
    · refine .inr ⟨by simpa using hone, s', ?_, hholds⟩
      rw [hok]
      exact Scan.run.eq_1 s'
  | cons link rest ih =>
    obtain ⟨op, text⟩ := link
    have hstop : ∀ c ∈ (op.symbol :: chainText text rest).head?, continuesLiteral c = false := by
      intro c hc
      obtain rfl : op.symbol = c := by simpa using hc
      cases op <;> decide
    rw [chainText_cons, run_signed hs hfirst hstop]
    rcases h.pushLiteral hfirst hlength with ⟨htwo, herror⟩ | ⟨hone, s₁, hok, hs₁, hholds⟩
    · exact .inl ⟨first, by simp, htwo, by rw [herror]; rfl⟩
    · obtain ⟨s₂, hstep, hs₂, hawaits⟩ := hholds.exists_step op
      have hnext : (s.pushLiteral first).bind (Scan.run · (op.symbol :: chainText text rest)) =
          Scan.run s₂ (chainText text rest) := by
        have hblank : Text.isBlank op.symbol = false := by cases op <;> decide
        rw [hok, Except.bind, run_afterOperand _ hblank hs₁, hstep]
        rfl
      have hlater : ∀ t ∈ text :: rest.map Prod.snd,
          IsSigned t ∧ t.length ≤ Decimal.maxPlaces := by
        intro t ht
        exact hsigned t (List.mem_cons_of_mem first ht)
      obtain ⟨htext, hlength'⟩ := hlater text (by simp)
      rw [hnext]
      rcases ih hawaits hs₂ hlater htext hlength' with
        ⟨t, ht, htwo, herror⟩ | ⟨hall, s', hok', hholds'⟩
      · exact .inl ⟨t, List.mem_cons_of_mem first ht, htwo, herror⟩
      · refine .inr ⟨?_, s', hok', by simpa [chainTokens_cons] using hholds'⟩
        intro t ht
        rcases List.mem_cons.mp ht with rfl | ht
        · exact hone
        · exact hall t ht

/-! ## Texts that are not read -/

def isReadable (c : Char) : Bool :=
  Text.isBlank c || continuesLiteral c || c == '(' || c == ')' || (Operator.ofSymbol? c).isSome

theorem isReadable_of_decimal? {text : List Char} {q : Rat} (h : decimal? text = some q) {c : Char}
    (hc : c ∈ text) : isReadable c = true := by
  rcases numeric_or_sign_of_decimal? h hc with hc | rfl | rfl
  · simp [isReadable, hc]
  · decide
  · decide

theorem isReadable_of_run {s s' : Scan} {cs : List Char} (h : Scan.run s cs = .ok s') :
    ∀ c ∈ cs, isReadable c = true := by
  fun_induction Scan.run s cs with
  | case1 s => simp
  | case2 s c cs hc ih => simpa [isReadable, hc] using ih h
  | case3 s c cs hc hafter ih =>
    obtain ⟨s₁, hstep, h⟩ := bind_eq_ok_iff.mp h
    have hreadable : isReadable c = true := by
      obtain ⟨hclose, -⟩ | ⟨-, op, -, -, hop, -⟩ := afterOperandStep_cases hstep
      · simp [isReadable, hclose]
      · simp [isReadable, hop]
    intro d hd
    rcases List.mem_cons.mp hd with rfl | hd
    · exact hreadable
    · exact ih s₁ h d hd
  | case4 s cs hafter hc ih =>
    intro d hd
    rcases List.mem_cons.mp hd with rfl | hd
    · decide
    · exact ih h d hd
  | case5 s c cs hc hafter hopen ih =>
    obtain ⟨s₁, hpush, h⟩ := bind_eq_ok_iff.mp h
    obtain ⟨q, hq, -⟩ := pushLiteral_eq_ok_iff.mp hpush
    intro d hd
    rw [← List.takeWhile_append_dropWhile (p := continuesLiteral) (l := cs),
      ← List.cons_append] at hd
    rcases List.mem_append.mp hd with hd | hd
    · exact isReadable_of_decimal? hq hd
    · exact ih s₁ h d hd

/-- The faults that a text without blanks and closing parentheses can have before its end. -/
def IsLexical (e : ReadFault) : Prop :=
  (∃ text, e = .invalidLiteral text) ∨ ∃ c, e = .unknownOperator c

theorem Stands.isLexical_of_run {s : Scan} {ts : List Token} {cs : List Char} {e : ReadFault}
    (h : Stands s ts) (hcs : ∀ c ∈ cs, Text.isBlank c = false ∧ c ≠ ')')
    (hhead : s.afterOperand = true → ∀ c ∈ cs.head?, continuesLiteral c = false)
    (hrun : Scan.run s cs = .error e) : IsLexical e := by
  fun_induction Scan.run s cs generalizing ts with
  | case1 s => cases hrun
  | case2 s c cs hc ih => simp [(hcs c (by simp)).1] at hc
  | case3 s c cs hc hafter ih =>
    have hlater : ∀ d ∈ cs, Text.isBlank d = false ∧ d ≠ ')' :=
      fun d hd => hcs d (List.mem_cons_of_mem c hd)
    have hclose : c ≠ ')' := (hcs c (by simp)).2
    have hnumeric : ¬ (c.isDigit || c = '.') = true := by
      have := hhead hafter c (by simp)
      simpa [continuesLiteral] using this
    cases hop : Operator.ofSymbol? c with
    | none =>
      have hstep : s.afterOperandStep c = .error (.unknownOperator c) := by
        rw [Scan.afterOperandStep, if_neg hclose, if_neg hnumeric, hop]
      simp only [hstep, bind, Except.bind, Except.error.injEq] at hrun
      exact .inr ⟨c, hrun.symm⟩
    | some op =>
      obtain rfl := Operator.symbol_of_ofSymbol? hop
      obtain ⟨s₁, hstep, hs₁, hawaits⟩ := ((stands_iff_holds hafter).mp h).exists_step op
      simp only [hstep, bind, Except.bind] at hrun
      have hstands := (stands_iff_awaits (by simp [hs₁])).mpr hawaits
      exact ih s₁ hstands hlater (by simp [hs₁]) hrun
  | case4 s cs hafter hc ih =>
    have hlater : ∀ d ∈ cs, Text.isBlank d = false ∧ d ≠ ')' :=
      fun d hd => hcs d (List.mem_cons_of_mem '(' hd)
    have hs : ¬ { s with pending := .opening :: s.pending }.afterOperand = true := hafter
    have hawaits := (stands_iff_awaits hafter).mp h
    exact ih ((stands_iff_awaits hs).mpr (.opening hawaits)) hlater (fun h => absurd h hs) hrun
  | case5 s c cs hc hafter hopen ih =>
    cases hpush : s.pushLiteral (c :: cs.takeWhile continuesLiteral) with
    | error e' =>
      simp only [hpush, bind, Except.bind, Except.error.injEq] at hrun
      subst hrun
      unfold Scan.pushLiteral at hpush
      cases hliteral : readLiteral (c :: cs.takeWhile continuesLiteral) with
      | error e'' =>
        simp only [hliteral, bind, Except.bind, Except.error.injEq] at hpush
        subst hpush
        exact .inl ⟨_, ((readLiteral_eq_error_iff _ _).mp hliteral).2⟩
      | ok q => simp [hliteral, bind, Except.bind, pure, Except.pure] at hpush
    | ok s₁ =>
      simp only [hpush, bind, Except.bind] at hrun
      have hlater : ∀ d ∈ cs.dropWhile continuesLiteral, Text.isBlank d = false ∧ d ≠ ')' := by
        intro d hd
        exact hcs d (List.mem_cons_of_mem c ((List.dropWhile_sublist _).subset hd))
      have hstop : ∀ d ∈ (cs.dropWhile continuesLiteral).head?, continuesLiteral d = false := by
        intro d hd
        have := List.head?_dropWhile_not continuesLiteral cs
        simpa [Option.mem_def.mp hd] using this
      exact ih s₁ (h.pushLiteral hafter hpush).2 hlater (fun _ => hstop) hrun

end Scan

namespace Formula

open Grammar Scan

/-- A chain of short literals has a tree exactly if none of them has two points. The tree has the operators
and the literals of the chain, in their order. -/
theorem read_chain {first : List Char} {rest : List (Operator × List Char)}
    (hsigned : ∀ text ∈ first :: rest.map Prod.snd,
      IsSigned text ∧ text.length ≤ Decimal.maxPlaces) :
    (∃ text ∈ first :: rest.map Prod.snd, 1 < text.count '.' ∧
      read (chainText first rest) = .error (.invalidLiteral text)) ∨
    (∀ text ∈ first :: rest.map Prod.snd, text.count '.' ≤ 1) ∧
      ∃ f, read (chainText first rest) = .ok f ∧ f.operators = rest.map Prod.fst ∧
        f.leaves.map some = (first :: rest.map Prod.snd).map decimal? := by
  have hstart : Awaits ({} : Scan).operands ({} : Scan).pending [] := .bottom
  unfold Formula.read
  rcases run_chain hstart rfl hsigned with ⟨text, htext, htwo, herror⟩ | ⟨hall, s, hok, hholds⟩
  · exact .inl ⟨text, htext, htwo, by rw [herror]; rfl⟩
  · have hopen : .opening ∉ s.pending := by
      have := hholds.depth_eq
      rw [List.nil_append, depth_chainTokens] at this
      exact List.count_eq_zero.mp (by omega)
    obtain ⟨p, hreduce, hp, htokens⟩ := hholds.reduceAll hopen
    refine .inr ⟨hall, p.formula, ?_, ?_, ?_⟩
    · rw [hok]
      exact hreduce
    · rw [hp.operators_formula, htokens, List.nil_append, operators_chainTokens]
    · rw [hp.leaves_formula, htokens, List.nil_append, texts_chainTokens]

/-- A text with a character that stands in no formula has a lexical fault, unless blanks or
closing parentheses make for another one before. -/
theorem read_of_unreadable {cs : List Char} (hcs : ∀ c ∈ cs, Text.isBlank c = false ∧ c ≠ ')')
    {c : Char} (hc : c ∈ cs) (hunreadable : isReadable c = false) :
    ∃ e, read cs = .error e ∧ IsLexical e := by
  unfold Formula.read
  cases hrun : Scan.run {} cs with
  | error e =>
    have hstart : Stands {} [] := .bottom
    exact ⟨e, rfl, hstart.isLexical_of_run hcs (by simp) hrun⟩
  | ok s =>
    have := isReadable_of_run hrun c hc
    simp [hunreadable] at this

end Formula

end FormulaSearch
