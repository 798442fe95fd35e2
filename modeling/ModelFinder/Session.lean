/-!
# Sessions

A `Session` is a computation that works on a state, leaves notes on the way, and ends with an
answer or a failure.  The state reached and the notes left are there in both cases, and a session
can only add to the notes: `Outcome.notes` are those of the session itself.

Parts with a state, notes and failures of their own are embedded by `Session.within`,
`Session.mapNotes` and `Session.mapFailure`.
-/

namespace ModelFinder

/-- How a session ends. -/
structure Outcome (ν ε σ α : Type) where
  answer : Except ε α
  state : σ
  notes : List ν

namespace Outcome

variable {ν ε σ α β γ : Type}

/-- Goes on from the state reached, unless there is a failure. -/
def andThen (o : Outcome ν ε σ α) (f : α → σ → Outcome ν ε σ β) : Outcome ν ε σ β :=
  match o with
  | ⟨.ok a, s, notes⟩ =>
    let r := f a s
    ⟨r.answer, r.state, notes ++ r.notes⟩
  | ⟨.error e, s, notes⟩ => ⟨.error e, s, notes⟩

theorem ok_andThen (a : α) (s : σ) (f : α → σ → Outcome ν ε σ β) :
    andThen ⟨.ok a, s, []⟩ f = f a s := rfl

theorem andThen_ok (o : Outcome ν ε σ α) : o.andThen (fun a s => ⟨.ok a, s, []⟩) = o := by
  obtain ⟨answer, s, notes⟩ := o
  cases answer <;> simp [andThen]

theorem andThen_assoc (o : Outcome ν ε σ α) (f : α → σ → Outcome ν ε σ β)
    (g : β → σ → Outcome ν ε σ γ) :
    (o.andThen f).andThen g = o.andThen fun a s => (f a s).andThen g := by
  obtain ⟨answer, s, notes⟩ := o
  cases answer with
  | error e => rfl
  | ok a =>
      simp only [andThen]
      cases f a s with
      | mk answer' s' more => cases answer' <;> simp

end Outcome

/-- A computation with notes `ν`, failures `ε`, state `σ` and answer `α`. -/
def Session (ν ε σ α : Type) := σ → Outcome ν ε σ α

namespace Session

variable {ν ν' ε ε' σ τ α β : Type}

/-- Runs a session from a state. -/
def run (x : Session ν ε σ α) (s : σ) : Outcome ν ε σ α := x s

/-- Goes on with `f` after `x`, unless `x` failed; the notes of `x` come first. -/
def andThen (x : Session ν ε σ α) (f : α → Session ν ε σ β) : Session ν ε σ β := fun s =>
  (x s).andThen fun a s' => f a s'

instance : Monad (Session ν ε σ) where
  pure a := fun s => ⟨.ok a, s, []⟩
  bind := andThen

theorem bind_run (x : Session ν ε σ α) (f : α → Session ν ε σ β) (s : σ) :
    run (x >>= f) s = (run x s).andThen fun a s' => run (f a) s' := rfl

instance : LawfulMonad (Session ν ε σ) := LawfulMonad.mk'
  (Session ν ε σ)
  (fun x => funext fun s => Outcome.andThen_ok (x s))
  (fun a f => funext fun s => Outcome.ok_andThen a s fun a s' => f a s')
  (fun x f g => funext fun s => Outcome.andThen_assoc (x s) (fun a s' => f a s') fun b s' => g b s')

/-- The state. -/
def read : Session ν ε σ σ := fun s => ⟨.ok s, s, []⟩

theorem read_bind_run (f : σ → Session ν ε σ α) (s : σ) : run (read >>= f) s = run (f s) s := rfl

/-- Changes the state. -/
def update (f : σ → σ) : Session ν ε σ Unit := fun s => ⟨.ok (), f s, []⟩

/-- Leaves a note. -/
def note (n : ν) : Session ν ε σ Unit := fun s => ⟨.ok (), s, [n]⟩

/-- Fails. -/
def fail (e : ε) : Session ν ε σ α := fun s => ⟨.error e, s, []⟩

/-- An answer or a failure that needs no state. -/
def ofExcept (x : Except ε α) : Session ν ε σ α := fun s => ⟨x, s, []⟩

/-- Runs a session on a part of the state. -/
def within (part : σ → τ) (put : τ → σ → σ) (x : Session ν ε τ α) : Session ν ε σ α := fun s =>
  let r := x (part s)
  ⟨r.answer, put r.state s, r.notes⟩

/-- Rewrites the notes of a session. -/
def mapNotes (f : ν → ν') (x : Session ν ε σ α) : Session ν' ε σ α := fun s =>
  let r := x s
  ⟨r.answer, r.state, r.notes.map f⟩

/-- Rewrites the failure of a session. -/
def mapFailure (f : ε → ε') (x : Session ν ε σ α) : Session ν ε' σ α := fun s =>
  let r := x s
  ⟨r.answer.mapError f, r.state, r.notes⟩

end Session

end ModelFinder
