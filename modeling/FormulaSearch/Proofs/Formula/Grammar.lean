import FormulaSearch.Formula.Scan
import Mathlib.Tactic

/-!
# The grammar of formulas

Sums, extrema, powers and products are chains of operators that associate to the left; each level
has the next one as its operands, and a parenthesized sum is an atom. A text is a sentence of the
grammar if it is a row of tokens, with blanks between them, that some phrase derives. Phrases are
the derivations without their unit steps. A text has at most one of them.
-/

namespace FormulaSearch.Grammar

/-- The nonterminals, the loosest first. -/
inductive Level where
  | sum | ext | pow | prod | atom
deriving DecidableEq

namespace Level

/-- The nonterminal on the right of the operators of a level. -/
def next : Level → Level
  | sum => ext
  | ext => pow
  | pow => prod
  | prod => atom
  | atom => atom

/-- The operators of a level, each with its sign. -/
def operators : Level → List (Char × Operator)
  | sum => [('+', .add), ('-', .sub)]
  | ext => [('m', .max), ('n', .min)]
  | pow => [('p', .pow)]
  | prod => [('*', .mul), ('/', .div)]
  | atom => []

def rank : Level → Nat
  | sum => 0
  | ext => 1
  | pow => 2
  | prod => 3
  | atom => 4

theorem eq_of_rank_eq {K L : Level} (h : K.rank = L.rank) : K = L := by
  cases K <;> cases L <;> first | rfl | simp [rank] at h

theorem rank_next {L : Level} (h : L.rank < 4) : L.next.rank = L.rank + 1 := by
  cases L <;> simp_all [rank, next]

end Level

theorem mem_operators {L : Level} {sign : Char} {op : Operator} (h : (sign, op) ∈ L.operators) :
    Operator.ofSymbol? sign = some op ∧ op.binding = L.rank ∧ op.symbol = sign := by
  cases L <;> simp only [Level.operators, List.mem_cons, Prod.mk.injEq, List.not_mem_nil,
    or_false] at h
  case sum => rcases h with ⟨rfl, rfl⟩ | ⟨rfl, rfl⟩ <;> decide
  case ext => rcases h with ⟨rfl, rfl⟩ | ⟨rfl, rfl⟩ <;> decide
  case pow => obtain ⟨rfl, rfl⟩ := h; decide
  case prod => rcases h with ⟨rfl, rfl⟩ | ⟨rfl, rfl⟩ <;> decide

theorem exists_level (op : Operator) : ∃ L : Level, (op.symbol, op) ∈ L.operators := by
  cases op
  case add => exact ⟨.sum, by decide⟩
  case sub => exact ⟨.sum, by decide⟩
  case mul => exact ⟨.prod, by decide⟩
  case div => exact ⟨.prod, by decide⟩
  case max => exact ⟨.ext, by decide⟩
  case min => exact ⟨.ext, by decide⟩
  case pow => exact ⟨.pow, by decide⟩

theorem binding_lt (op : Operator) : op.binding < 4 := by cases op <;> decide

/-! ## Tokens -/

/-- A literal, or a sign that stands for itself: an operator or a parenthesis. -/
inductive Token where
  | literal (text : List Char)
  | mark (c : Char)
deriving DecidableEq

/-- The texts that a row of tokens has. Blanks may stand anywhere between tokens. A literal takes
all digits and points that follow its first character. -/
inductive Spells : List Char → List Token → Prop
  | nil : Spells [] []
  | blank {c : Char} {cs : List Char} {ts : List Token} :
      Text.isBlank c = true → Spells cs ts → Spells (c :: cs) ts
  | mark {c : Char} {cs : List Char} {ts : List Token} :
      Spells cs ts → Spells (c :: cs) (.mark c :: ts)
  | literal {c : Char} {cs : List Char} {ts : List Token} :
      Text.isBlank c = false → c ≠ '(' → Spells (cs.dropWhile Scan.continuesLiteral) ts →
        Spells (c :: cs) (.literal (c :: cs.takeWhile Scan.continuesLiteral) :: ts)

/-! ## Phrases -/

/-- A derivation: what the literals, the parentheses and the operators of a sentence span. -/
inductive Phrase where
  | literal (text : List Char) (value : Rat)
  | group (inner : Phrase)
  | application (sign : Char) (op : Operator) (left right : Phrase)
deriving DecidableEq

namespace Phrase

def tokens : Phrase → List Token
  | literal text _ => [.literal text]
  | group inner => .mark '(' :: (inner.tokens ++ [.mark ')'])
  | application sign _ left right => left.tokens ++ .mark sign :: right.tokens

/-- The tree of a derivation: the parentheses are gone. -/
def formula : Phrase → Formula
  | literal _ value => .number value
  | group inner => inner.formula
  | application _ op left right => .binary op left.formula right.formula

end Phrase

/-- The productions of the grammar. -/
inductive Derives : Level → Phrase → Prop
  | literal {text : List Char} {value : Rat} :
      decimal? text = some value → Derives .atom (.literal text value)
  | group {p : Phrase} : Derives .sum p → Derives .atom (.group p)
  | application {L : Level} {sign : Char} {op : Operator} {left right : Phrase} :
      (sign, op) ∈ L.operators → Derives L left → Derives L.next right →
        Derives L (.application sign op left right)
  | unit {L : Level} {p : Phrase} : Derives L.next p → Derives L p

/-- The phrase derives the text as a sum. -/
def IsSentence (cs : List Char) (p : Phrase) : Prop := Derives .sum p ∧ Spells cs p.tokens

/-- A phrase of a level is also one of every looser level. -/
theorem Derives.mono {K L : Level} {p : Phrase} (h : Derives L p) (hle : K.rank ≤ L.rank) :
    Derives K p := by
  obtain ⟨n, hn⟩ := Nat.exists_eq_add_of_le hle
  induction n generalizing K with
  | zero => exact Level.eq_of_rank_eq hn.symm ▸ h
  | succ n ih =>
    have hK : K.rank < 4 := by
      have : L.rank ≤ 4 := by cases L <;> simp [Level.rank]
      omega
    have hnext := Level.rank_next hK
    exact .unit (ih (by omega) (by omega))

/-! ## Nesting -/

/-- How many parentheses a row of tokens leaves open. -/
def depth : List Token → Int
  | [] => 0
  | .mark c :: ts => (if c = '(' then 1 else if c = ')' then -1 else 0) + depth ts
  | .literal _ :: ts => depth ts

@[simp] theorem depth_append (ts us : List Token) : depth (ts ++ us) = depth ts + depth us := by
  induction ts with
  | nil => simp [depth]
  | cons t ts ih => cases t <;> simp [depth, ih, add_assoc]

theorem sign_ne_parenthesis {L : Level} {sign : Char} {op : Operator}
    (h : (sign, op) ∈ L.operators) : sign ≠ '(' ∧ sign ≠ ')' := by
  obtain ⟨-, -, rfl⟩ := mem_operators h
  cases op <;> decide

theorem Derives.depth_tokens {L : Level} {p : Phrase} (h : Derives L p) : depth p.tokens = 0 := by
  induction h with
  | literal _ => rfl
  | group _ ih => simp [Phrase.tokens, depth, ih]
  | application hop _ _ ihl ihr =>
    obtain ⟨h1, h2⟩ := sign_ne_parenthesis hop
    simp [Phrase.tokens, depth, ihl, ihr, h1, h2]
  | unit _ ih => exact ih

theorem prefix_append_cases {α : Type} {us xs ys : List α} (h : us <+: xs ++ ys) :
    us <+: xs ∨ ∃ vs, us = xs ++ vs ∧ vs <+: ys := by
  obtain ⟨rest, h⟩ := h
  rcases List.append_eq_append_iff.mp h with ⟨as, rfl, -⟩ | ⟨bs, rfl, rfl⟩
  · exact .inl (List.prefix_append us as)
  · exact .inr ⟨bs, rfl, List.prefix_append bs rest⟩

/-- No front of a phrase closes more parentheses than it opens. -/
theorem Derives.depth_nonneg {L : Level} {p : Phrase} (h : Derives L p) {ts : List Token}
    (hts : ts <+: p.tokens) : 0 ≤ depth ts := by
  induction h generalizing ts with
  | literal _ =>
    rcases List.prefix_cons_iff.mp hts with rfl | ⟨us, rfl, hus⟩
    · simp [depth]
    · rw [List.prefix_nil.mp hus]
      simp [depth]
  | @group p hp ih =>
    rcases List.prefix_cons_iff.mp hts with rfl | ⟨us, rfl, hus⟩
    · simp [depth]
    · rcases List.prefix_concat_iff.mp hus with rfl | hus
      · simp [depth, hp.depth_tokens]
      · have := ih hus
        simp only [depth, if_true]
        omega
  | @application L sign op left right hop hl hr ihl ihr =>
    obtain ⟨h1, h2⟩ := sign_ne_parenthesis hop
    rcases prefix_append_cases hts with hts | ⟨us, rfl, hus⟩
    · exact ihl hts
    · rw [depth_append, hl.depth_tokens]
      rcases List.prefix_cons_iff.mp hus with rfl | ⟨vs, rfl, hvs⟩
      · simp [depth]
      · simpa [depth, h1, h2] using ihr hvs
  | unit _ ih => exact ih hts

/-! ## Unambiguity -/

/-- An operator outside all parentheses binds no less tightly than the level of the phrase. -/
theorem Derives.rank_le_of_outer {K L : Level} {p : Phrase} {sign : Char} {op : Operator}
    (h : Derives L p) (hop : (sign, op) ∈ K.operators) {us vs : List Token}
    (htokens : p.tokens = us ++ .mark sign :: vs) (hdepth : depth us = 0) : L.rank ≤ K.rank := by
  have hsign := sign_ne_parenthesis hop
  induction h generalizing us vs with
  | literal _ => cases us <;> simp [Phrase.tokens] at htokens
  | @group p hp ih =>
    cases us with
    | nil =>
      simp only [Phrase.tokens, List.nil_append, List.cons.injEq, Token.mark.injEq] at htokens
      exact absurd htokens.1.symm hsign.1
    | cons t us =>
      simp only [Phrase.tokens, List.cons_append, List.cons.injEq] at htokens
      obtain ⟨rfl, htokens⟩ := htokens
      have hus : us <+: p.tokens ++ [.mark ')'] := ⟨_, htokens.symm⟩
      rcases List.prefix_concat_iff.mp hus with rfl | hus
      · simp at htokens
      · have := hp.depth_nonneg hus
        simp only [depth, if_true] at hdepth
        omega
  | @application L sign' op' left right hop' hl hr ihl ihr =>
    have heq : sign' = sign → L.rank ≤ K.rank := by
      rintro rfl
      obtain ⟨h, hK, -⟩ := mem_operators hop
      obtain ⟨h', hL, -⟩ := mem_operators hop'
      rw [h, Option.some.injEq] at h'
      subst h'
      omega
    rcases List.append_eq_append_iff.mp htokens with ⟨as, rfl, has⟩ | ⟨bs, hbs, hbs'⟩
    · cases as with
      | nil =>
        simp only [List.nil_append, List.cons.injEq, Token.mark.injEq] at has
        exact heq has.1
      | cons t as =>
        simp only [List.cons_append, List.cons.injEq] at has
        obtain ⟨rfl, has⟩ := has
        obtain ⟨h1, h2⟩ := sign_ne_parenthesis hop'
        have := ihr has (by simpa [hl.depth_tokens, depth, h1, h2] using hdepth)
        have : L.rank ≤ L.next.rank := by cases L <;> simp [Level.rank, Level.next]
        omega
    · cases bs with
      | nil =>
        simp only [List.nil_append, List.cons.injEq, Token.mark.injEq] at hbs'
        exact heq hbs'.1.symm
      | cons t bs =>
        simp only [List.cons_append, List.cons.injEq] at hbs'
        obtain ⟨rfl, -⟩ := hbs'
        exact ihl hbs hdepth
  | @unit L p _ ih =>
    have : L.rank ≤ L.next.rank := by cases L <;> simp [Level.rank, Level.next]
    have := ih htokens hdepth
    omega

theorem Derives.literal_value {L : Level} {text : List Char} {value : Rat}
    (h : Derives L (.literal text value)) : decimal? text = some value := by
  generalize hp : Phrase.literal text value = p at h
  induction h with
  | literal hq => cases hp; exact hq
  | group _ => cases hp
  | application _ _ _ => cases hp
  | unit _ ih => exact ih hp

theorem Derives.group_inner {L : Level} {inner : Phrase} (h : Derives L (.group inner)) :
    Derives .sum inner := by
  generalize hp : Phrase.group inner = p at h
  induction h with
  | literal _ => cases hp
  | group hq => cases hp; exact hq
  | application _ _ _ => cases hp
  | unit _ ih => exact ih hp

theorem Derives.application_sides {L : Level} {sign : Char} {op : Operator} {left right : Phrase}
    (h : Derives L (.application sign op left right)) :
    ∃ K : Level, (sign, op) ∈ K.operators ∧ Derives K left ∧ Derives K.next right := by
  generalize hp : Phrase.application sign op left right = p at h
  induction h with
  | literal _ => cases hp
  | group _ => cases hp
  | application hop hl hr => cases hp; exact ⟨_, hop, hl, hr⟩
  | unit _ ih => exact ih hp

theorem rank_lt_of_mem_operators {L : Level} {sign : Char} {op : Operator}
    (h : (sign, op) ∈ L.operators) : L.rank < 4 :=
  (mem_operators h).2.1 ▸ binding_lt op

/-- The last operator of a phrase cannot lie within its left side under another reading. -/
theorem Derives.not_split_later {K L : Level} {sign sign' : Char} {op op' : Operator}
    {left left' right : Phrase} {ts rest : List Token} (hop : (sign, op) ∈ K.operators)
    (hop' : (sign', op') ∈ L.operators) (hl : Derives K left) (hr : Derives K.next right)
    (hl' : Derives L left') (hleft : left'.tokens = left.tokens ++ .mark sign :: ts)
    (hright : right.tokens = ts ++ .mark sign' :: rest) : False := by
  have h := hl'.rank_le_of_outer hop hleft hl.depth_tokens
  have hts : depth ts = 0 := by
    obtain ⟨h1, h2⟩ := sign_ne_parenthesis hop
    have := congrArg depth hleft
    simpa [hl.depth_tokens, hl'.depth_tokens, depth, h1, h2] using this.symm
  have h' := hr.rank_le_of_outer hop' hright hts
  rw [Level.rank_next (rank_lt_of_mem_operators hop)] at h'
  omega

theorem literal_ne_application {text : List Char} {value : Rat} {sign : Char} {op : Operator}
    {left right : Phrase} :
    (Phrase.literal text value).tokens ≠ (Phrase.application sign op left right).tokens := by
  intro h
  have hmem : Token.mark sign ∈ (Phrase.application sign op left right).tokens := by
    simp [Phrase.tokens]
  rw [← h] at hmem
  simp [Phrase.tokens] at hmem

theorem group_ne_application {K L : Level} {sign : Char} {op : Operator} {p left right : Phrase}
    (hp : Derives .sum p) (hop : (sign, op) ∈ K.operators) (hl : Derives L left) :
    (Phrase.group p).tokens ≠ (Phrase.application sign op left right).tokens := by
  intro h
  have hK : 4 ≤ K.rank := (Derives.group hp).rank_le_of_outer hop h hl.depth_tokens
  have := rank_lt_of_mem_operators hop
  omega

theorem Derives.tokens_inj {K L : Level} {p q : Phrase} (hp : Derives K p) (hq : Derives L q)
    (h : p.tokens = q.tokens) : p = q := by
  induction p generalizing K L q with
  | literal text value =>
    cases q with
    | literal text' value' =>
      simp only [Phrase.tokens, List.cons.injEq, Token.literal.injEq, and_true] at h
      subst h
      have := hp.literal_value.symm.trans hq.literal_value
      simp_all
    | group _ => simp [Phrase.tokens] at h
    | application sign op left right => exact absurd h literal_ne_application
  | group p ih =>
    cases q with
    | literal _ _ => simp [Phrase.tokens] at h
    | group q =>
      simp only [Phrase.tokens, List.cons.injEq, List.append_cancel_right_eq, true_and] at h
      rw [ih hp.group_inner hq.group_inner h]
    | application sign op left right =>
      obtain ⟨M, hop, hl, -⟩ := hq.application_sides
      exact absurd h (group_ne_application hp.group_inner hop hl)
  | application sign op left right ihl ihr =>
    obtain ⟨M, hop, hl, hr⟩ := hp.application_sides
    cases q with
    | literal _ _ => exact absurd h.symm literal_ne_application
    | group q => exact absurd h.symm (group_ne_application hq.group_inner hop hl)
    | application sign' op' left' right' =>
      obtain ⟨N, hop', hl', hr'⟩ := hq.application_sides
      have hsplit : left.tokens = left'.tokens ∧
          Token.mark sign :: right.tokens = .mark sign' :: right'.tokens := by
        rcases List.append_eq_append_iff.mp h with ⟨as, hleft, has⟩ | ⟨bs, hleft, hbs⟩
        · cases as with
          | nil => exact ⟨by simpa using hleft.symm, has⟩
          | cons t as =>
            simp only [List.cons_append, List.cons.injEq] at has
            obtain ⟨rfl, hright⟩ := has
            exact (not_split_later hop hop' hl hr hl' hleft hright).elim
        · cases bs with
          | nil => exact ⟨by simpa using hleft, hbs.symm⟩
          | cons t bs =>
            simp only [List.cons_append, List.cons.injEq] at hbs
            obtain ⟨rfl, hright⟩ := hbs
            exact (not_split_later hop' hop hl' hr' hl hleft hright).elim
      obtain ⟨hleft, hright⟩ := hsplit
      simp only [List.cons.injEq, Token.mark.injEq] at hright
      obtain ⟨rfl, hright⟩ := hright
      have hops := (mem_operators hop).1.symm.trans (mem_operators hop').1
      rw [Option.some.inj hops, ihl hl hl' hleft, ihr hr hr' hright]

/-- Tokens in an order in which operands and operators take turns; the flag tells whether an
operand has just been read. -/
def Alternates : Bool → List Token → Prop
  | _, [] => True
  | false, .literal _ :: ts => Alternates true ts
  | false, .mark c :: ts => c = '(' ∧ Alternates false ts
  | true, .literal _ :: _ => False
  | true, .mark c :: ts =>
    (c = ')' ∧ Alternates true ts) ∨ ((Operator.ofSymbol? c).isSome ∧ Alternates false ts)

theorem Derives.alternates {L : Level} {p : Phrase} (h : Derives L p) {ts : List Token}
    (hts : Alternates true ts) : Alternates false (p.tokens ++ ts) := by
  induction h generalizing ts with
  | literal _ => exact hts
  | group _ ih =>
    simp only [Phrase.tokens, List.cons_append, List.append_assoc]
    exact ⟨rfl, ih (.inl ⟨rfl, hts⟩)⟩
  | application hop _ _ ihl ihr =>
    simp only [Phrase.tokens, List.append_assoc, List.cons_append]
    exact ihl (.inr ⟨by simp [(mem_operators hop).1], ihr hts⟩)
  | unit _ ih => exact ih hts

theorem isBlank_mark {b : Bool} {c : Char} {ts : List Token} (h : Alternates b (.mark c :: ts)) :
    Text.isBlank c = false := by
  cases b with
  | false =>
    obtain ⟨rfl, -⟩ := h
    decide
  | true =>
    rcases h with ⟨rfl, -⟩ | ⟨h, -⟩
    · decide
    · obtain ⟨op, hop⟩ := Option.isSome_iff_exists.mp h
      rw [← Operator.symbol_of_ofSymbol? hop]
      cases op <;> decide

/-- A text is cut into tokens in one way only, as what may come next is known at each place. -/
theorem Spells.unique {b : Bool} {cs : List Char} {ts us : List Token} (h : Spells cs ts)
    (h' : Spells cs us) (hts : Alternates b ts) (hus : Alternates b us) : ts = us := by
  induction h generalizing b us with
  | nil => cases h'; rfl
  | blank hc _ ih =>
    cases h' with
    | blank _ h' => exact ih h' hts hus
    | mark _ => exact absurd (isBlank_mark hus) (by simp [hc])
    | literal hc' _ _ => exact absurd hc' (by simp [hc])
  | @mark c cs ts h ih =>
    cases h' with
    | blank hc _ => exact absurd (isBlank_mark hts) (by simp [hc])
    | @mark _ _ us h' =>
      cases b with
      | false => rw [ih h' hts.2 hus.2]
      | true =>
        have hparenthesis : Operator.ofSymbol? ')' = none := by decide
        rcases hts with ⟨rfl, hts⟩ | ⟨hop, hts⟩ <;> rcases hus with ⟨h1, hus⟩ | ⟨hop', hus⟩
        · rw [ih h' hts hus]
        · simp [hparenthesis] at hop'
        · simp [h1, hparenthesis] at hop
        · rw [ih h' hts hus]
    | literal _ hc _ =>
      cases b with
      | false => exact absurd hts.1 hc
      | true => exact hus.elim
  | literal hc hc' _ ih =>
    cases b with
    | true => exact hts.elim
    | false =>
      cases h' with
      | blank hc'' _ => exact absurd hc (by simp [hc''])
      | mark _ => exact absurd hus.1 hc'
      | literal _ _ h' => rw [ih h' hts hus]

theorem IsSentence.unique {cs : List Char} {p q : Phrase} (hp : IsSentence cs p)
    (hq : IsSentence cs q) : p = q := by
  have hap : Alternates false (p.tokens ++ []) := hp.1.alternates trivial
  have haq : Alternates false (q.tokens ++ []) := hq.1.alternates trivial
  rw [List.append_nil] at hap haq
  exact hp.1.tokens_inj hq.1 (hp.2.unique hq.2 hap haq)

end FormulaSearch.Grammar
