import FormulaSearch.Journal

/-!
# Trials

A trial is a computation that may fail. It works on a state and writes a journal, and what it has
done to them stays when it fails.
-/

namespace FormulaSearch

/-- What a trial leaves behind. -/
structure Outcome (ε σ α : Type) where
  result : Except ε α
  state : σ
  journal : Journal

def Trial (ε σ α : Type) := σ → Journal → Outcome ε σ α

namespace Trial

variable {ε ε' σ τ α β : Type}

@[inline] protected def pure (a : α) : Trial ε σ α := fun s j => ⟨.ok a, s, j⟩

/-- The second trial starts where the first one ended, unless that failed. -/
@[inline] protected def bind (t : Trial ε σ α) (f : α → Trial ε σ β) : Trial ε σ β := fun s j =>
  match t s j with
  | ⟨.ok a, s, j⟩ => f a s j
  | ⟨.error e, s, j⟩ => ⟨.error e, s, j⟩

instance : Monad (Trial ε σ) where
  pure := Trial.pure
  bind := Trial.bind

@[simp] theorem pure_apply (a : α) (s : σ) (j : Journal) :
    (pure a : Trial ε σ α) s j = ⟨.ok a, s, j⟩ := rfl

theorem bind_apply (t : Trial ε σ α) (f : α → Trial ε σ β) (s : σ) (j : Journal) :
    (t >>= f) s j = match t s j with
      | ⟨.ok a, s, j⟩ => f a s j
      | ⟨.error e, s, j⟩ => ⟨.error e, s, j⟩ := rfl

theorem bind_of_ok {t : Trial ε σ α} {f : α → Trial ε σ β} {s s' : σ} {j j' : Journal} {a : α}
    (h : t s j = ⟨.ok a, s', j'⟩) : (t >>= f) s j = f a s' j' := by rw [bind_apply, h]

theorem bind_of_error {t : Trial ε σ α} {f : α → Trial ε σ β} {s s' : σ} {j j' : Journal} {e : ε}
    (h : t s j = ⟨.error e, s', j'⟩) : (t >>= f) s j = ⟨.error e, s', j'⟩ := by
  rw [bind_apply, h]

instance : LawfulMonad (Trial ε σ) :=
  LawfulMonad.mk' _
    (by intro α t; funext s j; change (t >>= _) s j = _; rw [bind_apply]
        rcases t s j with ⟨_ | _, _, _⟩ <;> rfl)
    (by intros; rfl)
    (by intro α β γ t f g; funext s j; simp only [bind_apply]
        rcases t s j with ⟨_ | _, _, _⟩ <;> rfl)

@[inline] def fail (e : ε) : Trial ε σ α := fun s j => ⟨.error e, s, j⟩

@[simp] theorem fail_apply (e : ε) (s : σ) (j : Journal) :
    (fail e : Trial ε σ α) s j = ⟨.error e, s, j⟩ := rfl

@[inline] def ofExcept : Except ε α → Trial ε σ α
  | .ok a => pure a
  | .error e => fail e

@[inline] def get : Trial ε σ σ := fun s j => ⟨.ok s, s, j⟩

@[simp] theorem get_apply (s : σ) (j : Journal) : (get : Trial ε σ σ) s j = ⟨.ok s, s, j⟩ := rfl

@[inline] def modify (f : σ → σ) : Trial ε σ Unit := fun s j => ⟨.ok (), f s, j⟩

@[simp] theorem modify_apply (f : σ → σ) (s : σ) (j : Journal) :
    (modify f : Trial ε σ Unit) s j = ⟨.ok (), f s, j⟩ := rfl

@[inline] def note (e : Entry) : Trial ε σ Unit := fun s j => ⟨.ok (), s, j.push e⟩

@[simp] theorem note_apply (e : Entry) (s : σ) (j : Journal) :
    (note e : Trial ε σ Unit) s j = ⟨.ok (), s, j.push e⟩ := rfl

@[inline] def noteAll (entries : List Entry) : Trial ε σ Unit :=
  fun s j => ⟨.ok (), s, j.append entries.toArray⟩

@[simp] theorem noteAll_apply (entries : List Entry) (s : σ) (j : Journal) :
    (noteAll entries : Trial ε σ Unit) s j = ⟨.ok (), s, j.append entries.toArray⟩ := rfl

/-- A trial on one part of the state; its failures are renamed. -/
@[inline] def focus (part : τ → σ) (put : σ → τ → τ) (rename : ε → ε') (t : Trial ε σ α) :
    Trial ε' τ α := fun s j =>
  let o := t (part s) j
  ⟨o.result.mapError rename, put o.state s, o.journal⟩

theorem focus_apply (part : τ → σ) (put : σ → τ → τ) (rename : ε → ε') (t : Trial ε σ α) (s : τ)
    (j : Journal) : focus part put rename t s j =
      ⟨(t (part s) j).result.mapError rename, put (t (part s) j).state s,
        (t (part s) j).journal⟩ := rfl

end Trial

end FormulaSearch
