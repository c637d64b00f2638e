import FormulaSearch.Trial
import Mathlib.Tactic

/-!
# Contracts of trials

What a trial ensures: from every state with a property it either ends well, and then its value and
its state have another one, or it fails, and then its fault and its state have a third. What a trial
forgets: it runs like another one whose state holds more. For both there is one rule for each way of
building trials.
-/

namespace FormulaSearch.Trial

variable {ε ε' σ τ α β : Type}

theorem ofExcept_ok_bind (a : α) (f : α → Trial ε σ β) :
    (Trial.ofExcept (.ok a) >>= f : Trial ε σ β) = f a := rfl

theorem map_apply (f : α → β) (t : Trial ε σ α) (s : σ) (j : Journal) :
    (f <$> t) s j = ⟨(t s j).result.map f, (t s j).state, (t s j).journal⟩ := by
  rw [map_eq_pure_bind, bind_apply]
  rcases t s j with ⟨_ | _, _, _⟩ <;> rfl

theorem exists_of_map_eq_ok {x : Except ε α} {f : α → β} {b : β} (h : x.map f = .ok b) :
    ∃ a, x = .ok a ∧ f a = b := by
  cases x with
  | error e => cases h
  | ok a => exact ⟨a, rfl, Except.ok.inj h⟩

theorem map_get_bind {f : σ → Trial ε σ α} {g : α → β} {t : Trial ε σ β}
    (h : ∀ s, g <$> f s = t) : g <$> (Trial.get >>= f) = t := by
  funext s j
  exact congrFun (congrFun (h s) s) j

/-- From every state with `P` the trial ends with `Q` or fails with `E`. -/
def Ensures (P : σ → Prop) (t : Trial ε σ α) (Q : α → σ → Prop) (E : ε → σ → Prop) : Prop :=
  ∀ s j, P s → match t s j with
    | ⟨.ok a, s', _⟩ => Q a s'
    | ⟨.error e, s', _⟩ => E e s'

namespace Ensures

variable {P P' : σ → Prop} {Q Q' : α → σ → Prop} {R : β → σ → Prop} {E E' : ε → σ → Prop}
  {t : Trial ε σ α}

theorem weaken (h : Ensures P t Q E) (hP : ∀ s, P' s → P s) (hQ : ∀ a s, Q a s → Q' a s)
    (hE : ∀ e s, E e s → E' e s) : Ensures P' t Q' E' := by
  intro s j hs
  have := h s j (hP s hs)
  rcases hrun : t s j with ⟨_ | a, s', j'⟩
  · rw [hrun] at this
    exact hE _ s' this
  · rw [hrun] at this
    exact hQ a s' this

theorem of_pre (h : Ensures P t Q E) (hP : ∀ s, P' s → P s) : Ensures P' t Q E :=
  h.weaken hP (fun _ _ => id) fun _ _ => id

theorem and_post (h : Ensures P t Q E) (hQ : ∀ a s, Q a s → Q' a s) : Ensures P t Q' E :=
  h.weaken (fun _ => id) hQ fun _ _ => id

theorem at_state (h : Ensures P t Q E) {s : σ} (hs : P s) : Ensures (· = s) t Q E := by
  apply h.of_pre
  rintro _ rfl
  exact hs

theorem of_forall (h : ∀ s, P s → Ensures (· = s) t Q E) : Ensures P t Q E :=
  fun s j hs => h s hs s j rfl

theorem trivial (t : Trial ε σ α) :
    Ensures (fun _ => True) t (fun _ _ => True) fun _ _ => True := by
  intro s j _
  rcases t s j with ⟨_ | _, _, _⟩ <;> exact True.intro

theorem pure {a : α} (h : ∀ s, P s → Q a s) : Ensures P (Pure.pure a : Trial ε σ α) Q E :=
  fun s _ hs => h s hs

theorem fail {e : ε} (h : ∀ s, P s → E e s) : Ensures P (Trial.fail e : Trial ε σ α) Q E :=
  fun s _ hs => h s hs

theorem bind {f : α → Trial ε σ β} (ht : Ensures P t Q E) (hf : ∀ a, Ensures (Q a) (f a) R E) :
    Ensures P (t >>= f) R E := by
  intro s j hs
  have := ht s j hs
  rcases hrun : t s j with ⟨e | a, s', j'⟩
  · rw [hrun] at this
    rw [bind_of_error hrun]
    exact this
  · rw [hrun] at this
    rw [bind_of_ok hrun]
    exact hf a s' j' this

theorem and (h : Ensures P t Q E) (h' : Ensures P' t Q' E') :
    Ensures (fun s => P s ∧ P' s) t (fun a s => Q a s ∧ Q' a s) fun e s => E e s ∧ E' e s := by
  intro s j ⟨hs, hs'⟩
  have h := h s j hs
  have h' := h' s j hs'
  rcases hrun : t s j with ⟨e | a, s₁, j₁⟩ <;> rw [hrun] at h h'
  · exact ⟨h, h'⟩
  · exact ⟨h, h'⟩

/-- What a trial ensures of its state does not depend on what is made of its value. -/
theorem of_map {f : α → β} {Q : σ → Prop} (h : Ensures P (f <$> t) (fun _ => Q) E) :
    Ensures P t (fun _ => Q) E := by
  intro s j hs
  have h := h s j hs
  rw [map_eq_pure_bind] at h
  rcases hrun : t s j with ⟨e | a, s₁, j₁⟩
  · rwa [bind_of_error hrun] at h
  · rwa [bind_of_ok hrun] at h

/-- What follows a trial that cannot end well is never reached. -/
theorem never_bind {f : α → Trial ε σ β} (ht : Ensures P t (fun _ _ => False) E) :
    Ensures P (t >>= f) R E :=
  ht.bind fun _ _ _ hs => hs.elim

theorem get_bind {f : σ → Trial ε σ β} (hf : ∀ s, P s → Ensures (· = s) (f s) R E) :
    Ensures P (Trial.get >>= f) R E :=
  fun s j hs => hf s hs s j rfl

theorem modify_bind {f : σ → σ} {next : Unit → Trial ε σ β}
    (h : Ensures (fun s => ∃ s', P s' ∧ s = f s') (next ()) R E) :
    Ensures P (Trial.modify f >>= next) R E :=
  fun s j hs => h (f s) j ⟨s, hs, rfl⟩

theorem modify {f : σ → σ} {Q : Unit → σ → Prop} (h : ∀ s, P s → Q () (f s)) :
    Ensures P (Trial.modify f : Trial ε σ Unit) Q E :=
  fun s _ hs => h s hs

/-- The journal plays no part. -/
theorem note_bind {entry : Entry} {next : Unit → Trial ε σ β} (h : Ensures P (next ()) R E) :
    Ensures P (Trial.note entry >>= next) R E :=
  fun s j hs => h s (j.push entry) hs

theorem noteAll_bind {entries : List Entry} {next : Unit → Trial ε σ β}
    (h : Ensures P (next ()) R E) : Ensures P (Trial.noteAll entries >>= next) R E :=
  fun s j hs => h s (j.append entries.toArray) hs

theorem ofExcept {x : Except ε α} (hok : ∀ a, x = .ok a → ∀ s, P s → Q a s)
    (herror : ∀ e, x = .error e → ∀ s, P s → E e s) :
    Ensures P (Trial.ofExcept x : Trial ε σ α) Q E := by
  cases x with
  | ok a => exact pure (hok a rfl)
  | error e => exact fail (herror e rfl)

theorem focus {part : τ → σ} {put : σ → τ → τ} {rename : ε → ε'} {P : τ → Prop}
    {Q : α → τ → Prop} {E : ε' → τ → Prop}
    (h : ∀ s, P s → Ensures (· = part s) t (fun a s' => Q a (put s' s))
      fun e s' => E (rename e) (put s' s)) :
    Ensures P (Trial.focus part put rename t) Q E := by
  intro s j hs
  have := h s hs (part s) j rfl
  rcases hrun : t (part s) j with ⟨e | a, s', j'⟩
  · rw [hrun] at this
    simp only [focus_apply, hrun]
    exact this
  · rw [hrun] at this
    simp only [focus_apply, hrun]
    exact this

theorem state {R : σ → Prop} (h : Ensures P t (fun _ => R) fun _ => R) {s : σ} (hs : P s)
    (j : Journal) : R (t s j).state := by
  have := h s j hs
  rcases hrun : t s j with ⟨e | a, s', j'⟩ <;> rwa [hrun] at this

theorem exists_ok (h : Ensures P t Q fun _ _ => False) {s : σ} (hs : P s) (j : Journal) :
    ∃ a, (t s j).result = .ok a ∧ Q a (t s j).state := by
  have := h s j hs
  rcases hrun : t s j with ⟨e | a, s', j'⟩
  · rw [hrun] at this
    exact this.elim
  · rw [hrun] at this
    exact ⟨a, rfl, this⟩

theorem exists_error (h : Ensures P t (fun _ _ => False) E) {s : σ} (hs : P s) (j : Journal) :
    ∃ e, (t s j).result = .error e ∧ E e (t s j).state := by
  have := h s j hs
  rcases hrun : t s j with ⟨e | a, s', j'⟩
  · rw [hrun] at this
    exact ⟨e, rfl, this⟩
  · rw [hrun] at this
    exact this.elim

theorem of_ok (h : Ensures P t Q E) {s : σ} (hs : P s) {j : Journal} {a : α}
    (hok : (t s j).result = .ok a) : Q a (t s j).state := by
  have := h s j hs
  rcases hrun : t s j with ⟨e | b, s', j'⟩
  · simp [hrun] at hok
  · rw [hrun] at this hok
    cases hok
    exact this

end Ensures

/-- The trial keeps a property of the state, whether it ends well or fails, and its value has
another one. -/
def Upholds (I : σ → Prop) (t : Trial ε σ α) (V : α → Prop) : Prop :=
  Ensures I t (fun a s => I s ∧ V a) fun _ => I

namespace Upholds

variable {I : σ → Prop} {V V' : α → Prop} {W : β → Prop} {t : Trial ε σ α}

theorem weaken (h : Upholds I t V) (hV : ∀ a, V a → V' a) : Upholds I t V' :=
  h.and_post fun a _ hs => ⟨hs.1, hV a hs.2⟩

theorem pure {a : α} (h : V a) : Upholds I (Pure.pure a : Trial ε σ α) V :=
  Ensures.pure fun _ hs => ⟨hs, h⟩

theorem fail (e : ε) : Upholds I (Trial.fail e : Trial ε σ α) V := Ensures.fail fun _ hs => hs

theorem bind {f : α → Trial ε σ β} (ht : Upholds I t V) (hf : ∀ a, V a → Upholds I (f a) W) :
    Upholds I (t >>= f) W :=
  Ensures.bind ht fun a s j hs => hf a hs.2 s j hs.1

theorem get_bind {f : σ → Trial ε σ β} (hf : ∀ s, I s → Upholds I (f s) W) :
    Upholds I (Trial.get >>= f) W :=
  Ensures.get_bind fun s hs => (hf s hs).at_state hs

theorem modify {f : σ → σ} {V : Unit → Prop} (h : ∀ s, I s → I (f s)) (hV : V ()) :
    Upholds I (Trial.modify f : Trial ε σ Unit) V :=
  Ensures.modify fun s hs => ⟨h s hs, hV⟩

theorem noteAll (entries : List Entry) :
    Upholds I (Trial.noteAll entries : Trial ε σ Unit) fun _ => True := fun _ _ hs => ⟨hs, ⟨⟩⟩

theorem ofExcept {x : Except ε α} (h : ∀ a, x = .ok a → V a) :
    Upholds I (Trial.ofExcept x : Trial ε σ α) V :=
  Ensures.ofExcept (fun a ha _ hs => ⟨hs, h a ha⟩) fun _ _ _ hs => hs

theorem focus {part : τ → σ} {put : σ → τ → τ} {rename : ε → ε'} {J : τ → Prop}
    (h : Upholds I t V) (hpart : ∀ s, J s → I (part s)) (hput : ∀ a s, J s → I a → J (put a s)) :
    Upholds J (Trial.focus part put rename t) V :=
  Ensures.focus fun s hs => (h.at_state (hpart s hs)).weaken (fun _ h => h)
    (fun _ a ha => ⟨hput a s hs ha.1, ha.2⟩) fun _ a ha => hput a s hs ha

end Upholds

/-- The second trial runs like the first one, on what `keep` leaves of the state. -/
def Forgets (keep : τ → σ) (t : Trial ε τ α) (t' : Trial ε σ α) : Prop :=
  ∀ s j, t' (keep s) j = ⟨(t s j).result, keep (t s j).state, (t s j).journal⟩

namespace Forgets

variable {keep : τ → σ} {t : Trial ε τ α} {t' : Trial ε σ α}

theorem pure (a : α) : Forgets keep (Pure.pure a) (Pure.pure a : Trial ε σ α) := fun _ _ => rfl

theorem fail (e : ε) : Forgets keep (Trial.fail e) (Trial.fail e : Trial ε σ α) := fun _ _ => rfl

theorem ofExcept (x : Except ε α) :
    Forgets keep (Trial.ofExcept x) (Trial.ofExcept x : Trial ε σ α) := by
  cases x with
  | ok a => exact pure a
  | error e => exact fail e

theorem note (entry : Entry) :
    Forgets keep (Trial.note entry) (Trial.note entry : Trial ε σ Unit) := fun _ _ => rfl

theorem modify {f : τ → τ} {f' : σ → σ} (h : ∀ s, keep (f s) = f' (keep s)) :
    Forgets keep (Trial.modify f) (Trial.modify f' : Trial ε σ Unit) := by
  intro s j
  simp [h]

theorem bind {f : α → Trial ε τ β} {f' : α → Trial ε σ β} (ht : Forgets keep t t')
    (hf : ∀ a, Forgets keep (f a) (f' a)) : Forgets keep (t >>= f) (t' >>= f') := by
  intro s j
  have ht := ht s j
  rcases hrun : t s j with ⟨e | a, s', j'⟩
  · rw [hrun] at ht
    rw [bind_of_error ht, bind_of_error hrun]
  · rw [hrun] at ht
    rw [bind_of_ok ht, bind_of_ok hrun]
    exact hf a s' j'

theorem get_bind {f : τ → Trial ε τ β} {f' : σ → Trial ε σ β}
    (hf : ∀ s, Forgets keep (f s) (f' (keep s))) :
    Forgets keep (Trial.get >>= f) (Trial.get >>= f') :=
  fun s j => hf s s j

theorem focus {τ' σ' : Type} {keep' : τ' → σ'} {part : τ' → τ} {put : τ → τ' → τ'}
    {part' : σ' → σ} {put' : σ → σ' → σ'} {rename : ε → ε'} (h : Forgets keep t t')
    (hpart : ∀ s, part' (keep' s) = keep (part s))
    (hput : ∀ a s, keep' (put a s) = put' (keep a) (keep' s)) :
    Forgets keep' (Trial.focus part put rename t) (Trial.focus part' put' rename t') := by
  intro s j
  simp only [focus_apply, hpart, h (part s) j, hput]

theorem result_eq (h : Forgets keep t t') (s : τ) (j : Journal) :
    (t s j).result = (t' (keep s) j).result := by
  rw [h s j]

end Forgets

end FormulaSearch.Trial
