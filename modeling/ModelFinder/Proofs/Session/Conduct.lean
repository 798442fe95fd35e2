import ModelFinder.Session

/-!
# What sessions keep to

A `Conduct` says which changes of the state and which notes are allowed, whatever the end of a session
is.  Changes that follow on each other are allowed if each of them is, so a session keeps to a conduct
if all of its parts do (`Session.KeepsTo`).  There is one rule for each way of building a session.
-/

namespace ModelFinder

/-- The changes of state and the notes that are allowed. -/
structure Conduct (ν σ : Type) where
  moves : σ → σ → Prop
  notes : ν → Prop
  refl : ∀ s, moves s s
  trans : ∀ {s t u}, moves s t → moves t u → moves s u

namespace Session

variable {ν ε ε' σ τ α γ : Type}

/-- Whatever state the session starts from, it changes it as it may and leaves notes that it may. -/
def KeepsTo (x : Session ν ε σ α) (k : Conduct ν σ) : Prop :=
  ∀ s, k.moves s (x s).state ∧ ∀ n ∈ (x s).notes, k.notes n

variable {k : Conduct ν σ} {x : Session ν ε σ α}

theorem keepsTo_of_noteless (h : ∀ s, k.moves s (x s).state) (hnotes : ∀ s, (x s).notes = []) :
    x.KeepsTo k :=
  fun s => ⟨h s, fun _ hn => absurd (hnotes s ▸ hn) List.not_mem_nil⟩

theorem keepsTo_pure (a : α) : (pure a : Session ν ε σ α).KeepsTo k :=
  keepsTo_of_noteless k.refl fun _ => rfl

theorem keepsTo_fail (e : ε) : (fail e : Session ν ε σ α).KeepsTo k :=
  keepsTo_of_noteless k.refl fun _ => rfl

theorem keepsTo_ofExcept (a : Except ε α) : (ofExcept a : Session ν ε σ α).KeepsTo k :=
  keepsTo_of_noteless k.refl fun _ => rfl

theorem keepsTo_read : (read : Session ν ε σ σ).KeepsTo k :=
  keepsTo_of_noteless k.refl fun _ => rfl

theorem keepsTo_update {f : σ → σ} (h : ∀ s, k.moves s (f s)) :
    (update f : Session ν ε σ Unit).KeepsTo k :=
  keepsTo_of_noteless h fun _ => rfl

theorem keepsTo_note {n : ν} (h : k.notes n) : (note n : Session ν ε σ Unit).KeepsTo k :=
  fun s => ⟨k.refl s, fun _ hm => List.mem_singleton.mp hm ▸ h⟩

theorem KeepsTo.bind {f : α → Session ν ε σ γ} (hx : x.KeepsTo k) (hf : ∀ a, (f a).KeepsTo k) :
    (x >>= f).KeepsTo k := by
  intro s
  obtain ⟨hmoves, hnotes⟩ := hx s
  show k.moves s ((x s).andThen fun a t => f a t).state ∧
    ∀ n ∈ ((x s).andThen fun a t => f a t).notes, k.notes n
  generalize x s = o at hmoves hnotes
  obtain ⟨answer, t, notes⟩ := o
  cases answer with
  | error => exact ⟨hmoves, hnotes⟩
  | ok a =>
      obtain ⟨hmoves', hnotes'⟩ := hf a t
      refine ⟨k.trans hmoves hmoves', fun n hn => ?_⟩
      exact (List.mem_append.mp hn).elim (hnotes n) (hnotes' n)

theorem KeepsTo.forM {f : γ → Session ν ε σ Unit} (h : ∀ c, (f c).KeepsTo k) (cs : List γ) :
    (cs.forM f).KeepsTo k := by
  induction cs with
  | nil => exact keepsTo_pure ()
  | cons c cs ih => exact (h c).bind fun _ => ih

theorem KeepsTo.mapM {f : γ → Session ν ε σ α} (h : ∀ c, (f c).KeepsTo k) (cs : List γ) :
    (cs.mapM f).KeepsTo k := by
  induction cs with
  | nil => exact keepsTo_pure []
  | cons c cs ih =>
      rw [List.mapM_cons]
      exact (h c).bind fun _ => ih.bind fun _ => keepsTo_pure _

theorem KeepsTo.mapFailure (h : x.KeepsTo k) (f : ε → ε') : (x.mapFailure f).KeepsTo k := h

/-- Sessions on a part of the state. -/
theorem KeepsTo.within {k' : Conduct ν τ} {part : τ → σ} {put : σ → τ → τ} (h : x.KeepsTo k)
    (hmoves : ∀ t s, k.moves (part t) s → k'.moves t (put s t))
    (hnotes : ∀ n, k.notes n → k'.notes n) : (Session.within part put x).KeepsTo k' :=
  fun t => ⟨hmoves t _ (h (part t)).1, fun n hn => hnotes n ((h (part t)).2 n hn)⟩

end Session

end ModelFinder
