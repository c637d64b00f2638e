import FormulaSearch.Proofs.Trial

/-!
# Trials side by side

Two trials agree if from related states both end well, with related values and states, or both fail
with the same fault. The journals play no part. There is one rule for each way of building trials,
as for the contracts of a single trial.
-/

namespace FormulaSearch.Trial

variable {ε ε' σ σ' τ τ' α α' β β' : Type}

/-- From states related by `R` both trials end well, related by `S`, or both fail with the same
fault and states related by `E`. -/
def Agree (R : σ → τ → Prop) (t : Trial ε σ α) (t' : Trial ε τ β) (S : α → β → σ → τ → Prop)
    (E : σ → τ → Prop) : Prop :=
  ∀ s s' j j', R s s' → match t s j, t' s' j' with
    | ⟨.ok a, s, _⟩, ⟨.ok b, s', _⟩ => S a b s s'
    | ⟨.error e, s, _⟩, ⟨.error e', s', _⟩ => e = e' ∧ E s s'
    | _, _ => False

namespace Agree

variable {R R' : σ → τ → Prop} {S S' : α → β → σ → τ → Prop} {E E' : σ → τ → Prop}
  {t : Trial ε σ α} {t' : Trial ε τ β}

theorem cases (h : Agree R t t' S E) {s : σ} {s' : τ} (hs : R s s') (j j' : Journal) :
    (∃ a b s₁ s₁' j₁ j₁', t s j = ⟨.ok a, s₁, j₁⟩ ∧ t' s' j' = ⟨.ok b, s₁', j₁'⟩ ∧ S a b s₁ s₁') ∨
    ∃ e s₁ s₁' j₁ j₁', t s j = ⟨.error e, s₁, j₁⟩ ∧ t' s' j' = ⟨.error e, s₁', j₁'⟩ ∧ E s₁ s₁' := by
  have := h s s' j j' hs
  rcases hrun : t s j with ⟨e | a, s₁, j₁⟩ <;> rcases hrun' : t' s' j' with ⟨e' | b, s₁', j₁'⟩ <;>
    rw [hrun, hrun'] at this
  · obtain ⟨rfl, hE⟩ := this
    exact .inr ⟨e, s₁, s₁', j₁, j₁', rfl, rfl, hE⟩
  · exact this.elim
  · exact this.elim
  · exact .inl ⟨a, b, s₁, s₁', j₁, j₁', rfl, rfl, this⟩

theorem weaken (h : Agree R t t' S E) (hR : ∀ s s', R' s s' → R s s')
    (hS : ∀ a b s s', S a b s s' → S' a b s s') (hE : ∀ s s', E s s' → E' s s') :
    Agree R' t t' S' E' := by
  intro s s' j j' hs
  obtain ⟨a, b, s₁, s₁', j₁, j₁', hrun, hrun', hS'⟩ | ⟨e, s₁, s₁', j₁, j₁', hrun, hrun', hE'⟩ :=
    h.cases (hR s s' hs) j j'
  · rw [hrun, hrun']
    exact hS a b s₁ s₁' hS'
  · rw [hrun, hrun']
    exact ⟨rfl, hE s₁ s₁' hE'⟩

theorem of_pre (h : Agree R t t' S E) (hR : ∀ s s', R' s s' → R s s') : Agree R' t t' S E :=
  h.weaken hR (fun _ _ _ _ => id) fun _ _ => id

theorem and_post (h : Agree R t t' S E) (hS : ∀ a b s s', S a b s s' → S' a b s s') :
    Agree R t t' S' E :=
  h.weaken (fun _ _ => id) hS fun _ _ => id

theorem at_states (h : Agree R t t' S E) {s : σ} {s' : τ} (hs : R s s') :
    Agree (fun s₁ s₁' => s₁ = s ∧ s₁' = s') t t' S E := by
  apply h.of_pre
  rintro _ _ ⟨rfl, rfl⟩
  exact hs

theorem of_forall (h : ∀ s s', R s s' → Agree (fun s₁ s₁' => s₁ = s ∧ s₁' = s') t t' S E) :
    Agree R t t' S E :=
  fun s s' j j' hs => h s s' hs s s' j j' ⟨rfl, rfl⟩

/-- A part of the relation that does not depend on the states. -/
theorem of_fact {fact : Prop} (h : fact → Agree R t t' S E) :
    Agree (fun s s' => fact ∧ R s s') t t' S E :=
  fun s s' j j' hs => h hs.1 s s' j j' hs.2

theorem pure {a : α} {b : β} (h : ∀ s s', R s s' → S a b s s') :
    Agree R (Pure.pure a : Trial ε σ α) (Pure.pure b : Trial ε τ β) S E :=
  fun s s' _ _ hs => h s s' hs

theorem fail {e : ε} (h : ∀ s s', R s s' → E s s') :
    Agree R (Trial.fail e : Trial ε σ α) (Trial.fail e : Trial ε τ β) S E :=
  fun s s' _ _ hs => ⟨rfl, h s s' hs⟩

theorem bind {f : α → Trial ε σ α'} {f' : β → Trial ε τ β'} {S' : α' → β' → σ → τ → Prop}
    (ht : Agree R t t' S E) (hf : ∀ a b, Agree (S a b) (f a) (f' b) S' E) :
    Agree R (t >>= f) (t' >>= f') S' E := by
  intro s s' j j' hs
  obtain ⟨a, b, s₁, s₁', j₁, j₁', hrun, hrun', hS⟩ | ⟨e, s₁, s₁', j₁, j₁', hrun, hrun', hE⟩ :=
    ht.cases hs j j'
  · rw [bind_of_ok hrun, bind_of_ok hrun']
    exact hf a b s₁ s₁' j₁ j₁' hS
  · rw [bind_of_error hrun, bind_of_error hrun']
    exact ⟨rfl, hE⟩

/-- The first two trials end with the same value. -/
theorem bind_eq {t' : Trial ε τ α} {f : α → Trial ε σ α'} {f' : α → Trial ε τ β'}
    {S : α → σ → τ → Prop} {S' : α' → β' → σ → τ → Prop}
    (ht : Agree R t t' (fun a b s s' => a = b ∧ S a s s') E)
    (hf : ∀ a, Agree (S a) (f a) (f' a) S' E) : Agree R (t >>= f) (t' >>= f') S' E := by
  apply ht.bind
  rintro a b s s' j j' ⟨rfl, hS⟩
  exact hf a s s' j j' hS

theorem get_bind {f : σ → Trial ε σ α} {f' : τ → Trial ε τ β}
    (hf : ∀ s s', R s s' → Agree (fun s₁ s₁' => s₁ = s ∧ s₁' = s') (f s) (f' s') S E) :
    Agree R (Trial.get >>= f) (Trial.get >>= f') S E :=
  fun s s' j j' hs => hf s s' hs s s' j j' ⟨rfl, rfl⟩

theorem modify {f : σ → σ} {f' : τ → τ} {S : Unit → Unit → σ → τ → Prop}
    (h : ∀ s s', R s s' → S () () (f s) (f' s')) :
    Agree R (Trial.modify f : Trial ε σ Unit) (Trial.modify f') S E :=
  fun s s' _ _ hs => h s s' hs

theorem note_bind {entry entry' : Entry} {next : Unit → Trial ε σ α} {next' : Unit → Trial ε τ β}
    (h : Agree R (next ()) (next' ()) S E) :
    Agree R (Trial.note entry >>= next) (Trial.note entry' >>= next') S E :=
  fun s s' j j' hs => h s s' (j.push entry) (j'.push entry') hs

theorem ofExcept {x : Except ε α} {S : α → α → σ → τ → Prop}
    (hok : ∀ a, x = .ok a → ∀ s s', R s s' → S a a s s') (herror : ∀ s s', R s s' → E s s') :
    Agree R (Trial.ofExcept x : Trial ε σ α) (Trial.ofExcept x) S E := by
  cases x with
  | ok a => exact pure (hok a rfl)
  | error e => exact fail herror

theorem focus {part : σ' → σ} {put : σ → σ' → σ'} {part' : τ' → τ} {put' : τ → τ' → τ'}
    {rename : ε → ε'} {R : σ' → τ' → Prop} {S : α → β → σ' → τ' → Prop} {E : σ' → τ' → Prop}
    (h : ∀ s s', R s s' → Agree (fun u u' => u = part s ∧ u' = part' s') t t'
      (fun a b u u' => S a b (put u s) (put' u' s')) fun u u' => E (put u s) (put' u' s')) :
    Agree R (Trial.focus part put rename t) (Trial.focus part' put' rename t') S E := by
  intro s s' j j' hs
  simp only [focus_apply]
  obtain ⟨a, b, s₁, s₁', j₁, j₁', hrun, hrun', hS⟩ | ⟨e, s₁, s₁', j₁, j₁', hrun, hrun', hE⟩ :=
    (h s s' hs).cases ⟨rfl, rfl⟩ j j'
  · rw [hrun, hrun']
    exact hS
  · rw [hrun, hrun']
    exact ⟨rfl, hE⟩

/-! ### Steps of one side

A step that only one of the trials takes has to end well; what it ensures is enough. -/

/-- The first trial still goes on when the second one has ended. -/
theorem pure_right {b : β} (h : ∀ s', Ensures (R · s') t (fun a s => S a b s s') fun _ _ => False) :
    Agree R t (Pure.pure b : Trial ε τ β) S E := by
  intro s s' j j' hs
  obtain ⟨a, ha, hS⟩ := (h s').exists_ok hs j
  rcases hrun : t s j with ⟨_ | _, s₁, j₁⟩
  · simp [hrun] at ha
  · rw [hrun] at ha hS
    cases ha
    exact hS

/-- The second trial takes a step that the first one does not. -/
theorem bind_right {u : Trial ε τ β'} {f : β' → Trial ε τ β} {R₁ : β' → σ → τ → Prop}
    (hu : ∀ s, Ensures (R s) u (fun c => R₁ c s) fun _ _ => False)
    (hf : ∀ c, Agree (R₁ c) t (f c) S E) : Agree R t (u >>= f) S E := by
  intro s s' j j' hs
  obtain ⟨c, hc, hR⟩ := (hu s).exists_ok hs j'
  rcases hrun : u s' j' with ⟨_ | _, s₁', j₁'⟩
  · simp [hrun] at hc
  · rw [hrun] at hc hR
    cases hc
    rw [bind_of_ok hrun]
    exact hf _ s s₁' j j₁' hR

theorem note_left {entry : Entry} {next : Unit → Trial ε σ α} (h : Agree R (next ()) t' S E) :
    Agree R (Trial.note entry >>= next) t' S E :=
  fun s s' j j' hs => h s s' (j.push entry) j' hs

theorem focus_left {part : σ' → σ} {put : σ → σ' → σ'} {R : σ' → τ → Prop}
    {S : α → β → σ' → τ → Prop} {E : σ' → τ → Prop}
    (h : ∀ s s', R s s' → Agree (fun u u' => u = part s ∧ u' = s') t t'
      (fun a b u u' => S a b (put u s) u') fun u u' => E (put u s) u') :
    Agree R (Trial.focus part put id t) t' S E := by
  intro s s' j j' hs
  rw [focus_apply]
  obtain ⟨a, b, s₁, s₁', j₁, j₁', hrun, hrun', hS⟩ | ⟨e, s₁, s₁', j₁, j₁', hrun, hrun', hE⟩ :=
    (h s s' hs).cases ⟨rfl, rfl⟩ j j'
  · rw [hrun, hrun']
    exact hS
  · rw [hrun, hrun']
    exact ⟨rfl, hE⟩

/-! ### Contracts -/

/-- Two contracts that do not let one trial end well and the other one fail. -/
theorem of_ensures {P : σ → Prop} {P' : τ → Prop} {Q : α → σ → Prop} {Q' : β → τ → Prop}
    {F : ε → σ → Prop} {F' : ε → τ → Prop} (ht : Ensures P t Q F) (ht' : Ensures P' t' Q' F')
    (hok : ∀ a s b s', Q a s → Q' b s' → S a b s s')
    (herror : ∀ e s e' s', F e s → F' e' s' → e = e' ∧ E s s')
    (hleft : ∀ a s e s', Q a s → ¬ F' e s') (hright : ∀ e s b s', F e s → ¬ Q' b s') :
    Agree (fun s s' => P s ∧ P' s') t t' S E := by
  intro s s' j j' ⟨hP, hP'⟩
  have h := ht s j hP
  have h' := ht' s' j' hP'
  rcases hrun : t s j with ⟨e | a, s₁, j₁⟩ <;> rcases hrun' : t' s' j' with ⟨e' | b, s₁', j₁'⟩ <;>
    rw [hrun] at h <;> rw [hrun'] at h'
  · exact herror e s₁ e' s₁' h h'
  · exact hright e s₁ b s₁' h h'
  · exact hleft a s₁ e' s₁' h h'
  · exact hok a s₁ b s₁' h h'

theorem and_ensures {P : σ → Prop} {Q : α → σ → Prop} (h : Agree R t t' S E)
    (ht : Ensures P t Q fun _ _ => True) :
    Agree (fun s s' => R s s' ∧ P s) t t' (fun a b s s' => S a b s s' ∧ Q a s) E := by
  intro s s' j j' ⟨hR, hP⟩
  have hQ := ht s j hP
  obtain ⟨a, b, s₁, s₁', j₁, j₁', hrun, hrun', hS⟩ | ⟨e, s₁, s₁', j₁, j₁', hrun, hrun', hE⟩ :=
    h.cases hR j j'
  · rw [hrun] at hQ
    rw [hrun, hrun']
    exact ⟨hS, hQ⟩
  · rw [hrun, hrun']
    exact ⟨rfl, hE⟩

end Agree

/-! ### Trials that may stop

Each of the trials may also stop with a fault of its own, which the other one need not share. -/

/-- From states related by `R` both trials end well, related by `S`, or both fail with the same
fault, unless one of them stops. -/
def AgreeUnless (stops stops' : ε → Prop) (R : σ → τ → Prop) (t : Trial ε σ α)
    (t' : Trial ε τ β) (S : α → β → σ → τ → Prop) : Prop :=
  ∀ s s' j j', R s s' → match t s j, t' s' j' with
    | ⟨.ok a, s, _⟩, ⟨.ok b, s', _⟩ => S a b s s'
    | ⟨.error e, _, _⟩, ⟨.error e', _, _⟩ => e = e' ∨ stops e ∨ stops' e'
    | ⟨.error e, _, _⟩, ⟨.ok _, _, _⟩ => stops e
    | ⟨.ok _, _, _⟩, ⟨.error e', _, _⟩ => stops' e'

theorem Agree.unless {R : σ → τ → Prop} {S : α → β → σ → τ → Prop} {E : σ → τ → Prop}
    {t : Trial ε σ α} {t' : Trial ε τ β} (h : Agree R t t' S E) (stops stops' : ε → Prop) :
    AgreeUnless stops stops' R t t' S := by
  intro s s' j j' hs
  obtain ⟨a, b, s₁, s₁', j₁, j₁', hrun, hrun', hS⟩ | ⟨e, s₁, s₁', j₁, j₁', hrun, hrun', -⟩ :=
    h.cases hs j j'
  · rw [hrun, hrun']
    exact hS
  · rw [hrun, hrun']
    exact .inl rfl

namespace AgreeUnless

variable {stops stops' : ε → Prop} {R : σ → τ → Prop} {S : α → β → σ → τ → Prop}
  {t : Trial ε σ α} {t' : Trial ε τ β}

theorem and_post {S' : α → β → σ → τ → Prop} (h : AgreeUnless stops stops' R t t' S)
    (hS : ∀ a b s s', S a b s s' → S' a b s s') : AgreeUnless stops stops' R t t' S' := by
  intro s s' j j' hs
  have := h s s' j j' hs
  rcases hrun : t s j with ⟨e | a, s₁, j₁⟩ <;> rcases hrun' : t' s' j' with ⟨e' | b, s₁', j₁'⟩ <;>
    rw [hrun, hrun'] at this
  · exact this
  · exact this
  · exact this
  · exact hS a b s₁ s₁' this

theorem of_forall (h : ∀ s s', R s s' →
    AgreeUnless stops stops' (fun s₁ s₁' => s₁ = s ∧ s₁' = s') t t' S) :
    AgreeUnless stops stops' R t t' S :=
  fun s s' j j' hs => h s s' hs s s' j j' ⟨rfl, rfl⟩

theorem of_fact {fact : Prop} (h : fact → AgreeUnless stops stops' R t t' S) :
    AgreeUnless stops stops' (fun s s' => fact ∧ R s s') t t' S :=
  fun s s' j j' hs => h hs.1 s s' j j' hs.2

theorem pure {a : α} {b : β} (h : ∀ s s', R s s' → S a b s s') :
    AgreeUnless stops stops' R (Pure.pure a : Trial ε σ α) (Pure.pure b : Trial ε τ β) S :=
  fun s s' _ _ hs => h s s' hs

theorem bind {f : α → Trial ε σ α'} {f' : β → Trial ε τ β'} {S' : α' → β' → σ → τ → Prop}
    (ht : AgreeUnless stops stops' R t t' S)
    (hf : ∀ a b, AgreeUnless stops stops' (S a b) (f a) (f' b) S') :
    AgreeUnless stops stops' R (t >>= f) (t' >>= f') S' := by
  intro s s' j j' hs
  have h := ht s s' j j' hs
  rcases hrun : t s j with ⟨e | a, s₁, j₁⟩ <;> rcases hrun' : t' s' j' with ⟨e' | b, s₁', j₁'⟩ <;>
    rw [hrun, hrun'] at h
  · rw [bind_of_error hrun, bind_of_error hrun']
    exact h
  · -- the second trial goes on, and whatever it ends with, the first one has stopped
    rw [bind_of_error hrun, bind_of_ok hrun']
    rcases f' b s₁' j₁' with ⟨e' | _, _, _⟩
    · exact .inr (.inl h)
    · exact h
  · rw [bind_of_ok hrun, bind_of_error hrun']
    rcases f a s₁ j₁ with ⟨e | _, _, _⟩
    · exact .inr (.inr h)
    · exact h
  · rw [bind_of_ok hrun, bind_of_ok hrun']
    exact hf a b s₁ s₁' j₁ j₁' h

theorem get_bind {f : σ → Trial ε σ α} {f' : τ → Trial ε τ β}
    (hf : ∀ s s', R s s' →
      AgreeUnless stops stops' (fun s₁ s₁' => s₁ = s ∧ s₁' = s') (f s) (f' s') S) :
    AgreeUnless stops stops' R (Trial.get >>= f) (Trial.get >>= f') S :=
  fun s s' j j' hs => hf s s' hs s s' j j' ⟨rfl, rfl⟩

/-- Trials that fail only by stopping. -/
theorem of_ensures {P : σ → Prop} {P' : τ → Prop} {Q : α → σ → Prop} {Q' : β → τ → Prop}
    (ht : Ensures P t Q fun e _ => stops e) (ht' : Ensures P' t' Q' fun e _ => stops' e) :
    AgreeUnless stops stops' (fun s s' => P s ∧ P' s') t t' fun a b s s' => Q a s ∧ Q' b s' := by
  intro s s' j j' ⟨hP, hP'⟩
  have h := ht s j hP
  have h' := ht' s' j' hP'
  rcases hrun : t s j with ⟨e | a, s₁, j₁⟩ <;> rcases hrun' : t' s' j' with ⟨e' | b, s₁', j₁'⟩ <;>
    rw [hrun] at h <;> rw [hrun'] at h'
  · exact .inr (.inl h)
  · exact h
  · exact h'
  · exact ⟨h, h'⟩

theorem cases (h : AgreeUnless stops stops' R t t' S) {s : σ} {s' : τ} (hs : R s s')
    (j j' : Journal) :
    (∃ a b, (t s j).result = .ok a ∧ (t' s' j').result = .ok b ∧
        S a b (t s j).state (t' s' j').state) ∨
      (∃ e, (t s j).result = .error e ∧ (t' s' j').result = .error e) ∨
      (∃ e, (t s j).result = .error e ∧ stops e) ∨
      ∃ e, (t' s' j').result = .error e ∧ stops' e := by
  have := h s s' j j' hs
  rcases hrun : t s j with ⟨e | a, s₁, j₁⟩ <;> rcases hrun' : t' s' j' with ⟨e' | b, s₁', j₁'⟩ <;>
    rw [hrun, hrun'] at this
  · obtain rfl | hstops | hstops := this
    · exact .inr (.inl ⟨e, rfl, rfl⟩)
    · exact .inr (.inr (.inl ⟨e, rfl, hstops⟩))
    · exact .inr (.inr (.inr ⟨e', rfl, hstops⟩))
  · exact .inr (.inr (.inl ⟨e, rfl, this⟩))
  · exact .inr (.inr (.inr ⟨e', rfl, this⟩))
  · exact .inl ⟨a, b, rfl, rfl, this⟩

end AgreeUnless

end FormulaSearch.Trial
