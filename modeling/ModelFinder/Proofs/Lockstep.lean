import ModelFinder.Proofs.Session

/-!
# Runs in lockstep

Two runs of one session are in lockstep (`Lockstep.InStep`) when they differ in their stop
conditions only.  As long as neither stop condition has triggered, the states of the runs are
related by `running`, and the runs leave the same notes and come to the same end.  When both
trigger at one poll, both give up there, in states related by `stopped`.  And where a `Lockstep`
allows it (`cuts`), the first run may end earlier than the second: all it has noted until then, the
second has noted as well.

There is one rule for each way in which sessions are built (`inStep_bind`, `inStep_within`, …).  Of
the stop conditions it is only asked that related ones answer a poll alike, unless the first may
trigger alone (`Lockstep.Alike`), and that they stay related when they are told about an iteration
(`Lockstep.Steady`).
-/

namespace ModelFinder

/-- How the states of two runs are compared, while both go on and when both have given up, and by
which failures the first one may end alone. -/
structure Lockstep (S S' : Type) where
  running : S → S' → Prop
  stopped : S → S' → Prop
  cuts : Failure → Prop

namespace Lockstep

variable {ν ν' S S' T T' α β ρ σ σ' τ : Type}

/-- The ends of two runs in lockstep. -/
inductive Agrees (k : Lockstep S S') : Outcome ν Failure S α → Outcome ν Failure S' α → Prop
  | answered {a : α} {s : S} {s' : S'} {notes : List ν} (running : k.running s s') :
      Agrees k ⟨.ok a, s, notes⟩ ⟨.ok a, s', notes⟩
  | failed {e : Failure} {s : S} {s' : S'} {notes : List ν}
      (not_exhausted : ∀ phase, e ≠ .exhausted phase) (running : k.running s s') :
      Agrees k ⟨.error e, s, notes⟩ ⟨.error e, s', notes⟩
  | stopped {phase : Phase} {s : S} {s' : S'} {notes : List ν} (stopped : k.stopped s s') :
      Agrees k ⟨.error (.exhausted phase), s, notes⟩ ⟨.error (.exhausted phase), s', notes⟩
  | cut {e : Failure} {s : S} {notes : List ν} {o : Outcome ν Failure S' α} (cuts : k.cuts e)
      (earlier : notes <+: o.notes) : Agrees k ⟨.error e, s, notes⟩ o

/-- From related states, the two sessions run in lockstep. -/
def InStep (k : Lockstep S S') (x : Session ν Failure S α) (y : Session ν Failure S' α) : Prop :=
  ∀ ⦃s s'⦄, k.running s s' → k.Agrees (x s) (y s')

/-- Two states are compared by their stop conditions, and are the same otherwise. -/
def along (k : Lockstep σ σ') (view : S → ρ × σ) (view' : S' → ρ × σ') : Lockstep S S' where
  running s s' := (view s).1 = (view' s').1 ∧ k.running (view s).2 (view' s').2
  stopped s s' := (view s).1 = (view' s').1 ∧ k.stopped (view s).2 (view' s').2
  cuts := k.cuts

/-- Two runs that come to the same end agree, whatever that is. -/
theorem agrees_of_state {k : Lockstep S S'} (o : Outcome ν Failure S α) {s' : S'}
    (hrunning : k.running o.state s') (hstopped : k.stopped o.state s') :
    k.Agrees o ⟨o.answer, s', o.notes⟩ := by
  obtain ⟨answer, s, notes⟩ := o
  cases answer with
  | ok a => exact .answered hrunning
  | error e =>
      cases e with
      | exhausted phase => exact .stopped hstopped
      | _ => exact .failed nofun hrunning

/-- The end of the first run is that of the second, if its state can be told from the other. -/
theorem eq_of_agrees {k : Lockstep S S'} {f : S' → S} (hrunning : ∀ s s', k.running s s' → s = f s')
    (hstopped : ∀ s s', k.stopped s s' → s = f s') (hcuts : ∀ e, ¬ k.cuts e)
    {o : Outcome ν Failure S α} {o' : Outcome ν Failure S' α} (h : k.Agrees o o') :
    o = ⟨o'.answer, f o'.state, o'.notes⟩ := by
  cases h with
  | answered hs => rw [hrunning _ _ hs]
  | failed _ hs => rw [hrunning _ _ hs]
  | stopped hs => rw [hstopped _ _ hs]
  | cut hc _ => exact absurd hc (hcuts _)

/-! ### One rule for each way of building a session -/

section Rules

variable {k : Lockstep S S'} {x : Session ν Failure S α} {y : Session ν Failure S' α}

theorem inStep_pure (a : α) :
    k.InStep (pure a : Session ν Failure S α) (pure a : Session ν Failure S' α) :=
  fun _ _ hs => .answered hs

theorem Agrees.andThen {o : Outcome ν Failure S α} {o' : Outcome ν Failure S' α}
    {f : α → S → Outcome ν Failure S β} {g : α → S' → Outcome ν Failure S' β}
    (h : k.Agrees o o') (hf : ∀ a s s', k.running s s' → k.Agrees (f a s) (g a s')) :
    k.Agrees (o.andThen f) (o'.andThen g) := by
  cases h with
  | @answered a s s' notes hs =>
      have h' := hf a s s' hs
      unfold Outcome.andThen
      dsimp only
      generalize f a s = p at h'
      generalize g a s' = q at h'
      cases h' with
      | answered hr => exact .answered hr
      | failed hne hr => exact .failed hne hr
      | stopped hs => exact .stopped hs
      | cut hc he => exact .cut hc ((List.prefix_append_right_inj notes).mpr he)
  | failed hne hs => exact .failed hne hs
  | stopped hs => exact .stopped hs
  | @cut e s notes o' hc he =>
      -- what the second run does after the first has ended adds to its notes only
      refine .cut hc (he.trans ?_)
      obtain ⟨answer, s', notes'⟩ := o'
      cases answer with
      | error => exact List.prefix_rfl
      | ok => exact List.prefix_append ..

theorem inStep_bind {f : α → Session ν Failure S β} {g : α → Session ν Failure S' β}
    (h : k.InStep x y) (hf : ∀ a, k.InStep (f a) (g a)) : k.InStep (x >>= f) (y >>= g) :=
  fun _ _ hs => (h hs).andThen fun a _ _ ht => hf a ht

/-- States may be read if what is done with them is in lockstep. -/
theorem inStep_read_bind {f : S → Session ν Failure S β} {g : S' → Session ν Failure S' β}
    (h : ∀ s s', k.running s s' → k.Agrees (f s s) (g s' s')) :
    k.InStep (Session.read >>= f) (Session.read >>= g) := by
  intro s s' hs
  have hread : k.Agrees (⟨.ok (), s, []⟩ : Outcome ν Failure S Unit) ⟨.ok (), s', []⟩ :=
    .answered hs
  exact hread.andThen (f := fun _ s => f s s) (g := fun _ s => g s s) fun _ s s' hs => h s s' hs

/-- A failure that has nothing to do with the stop condition. -/
theorem inStep_fail {e : Failure} (he : ∀ phase, e ≠ .exhausted phase) :
    k.InStep (Session.fail e : Session ν Failure S α) (Session.fail e : Session ν Failure S' α) :=
  fun _ _ hs => .failed he hs

theorem inStep_note (n : ν) :
    k.InStep (Session.note n : Session ν Failure S Unit)
      (Session.note n : Session ν Failure S' Unit) := fun _ _ hs => .answered hs

theorem inStep_update {f : S → S} {g : S' → S'}
    (h : ∀ s s', k.running s s' → k.running (f s) (g s')) :
    k.InStep (Session.update f : Session ν Failure S Unit)
      (Session.update g : Session ν Failure S' Unit) := fun s s' hs => .answered (h s s' hs)

theorem inStep_mapNotes (h : k.InStep x y) (f : ν → ν') :
    k.InStep (x.mapNotes f) (y.mapNotes f) := by
  intro s s' hs
  have h' := h hs
  show k.Agrees ⟨(x s).answer, (x s).state, (x s).notes.map f⟩
    ⟨(y s').answer, (y s').state, (y s').notes.map f⟩
  generalize x s = o at h'
  generalize y s' = o' at h'
  cases h' with
  | answered hr => exact .answered hr
  | failed hne hr => exact .failed hne hr
  | stopped hs => exact .stopped hs
  | cut hc he => exact .cut hc (he.map f)

/-- Sessions on a part of the state which has the stop condition. -/
theorem inStep_within {k : Lockstep T T'} {k₀ : Lockstep S S'} {part : T → S} {put : S → T → T}
    {part' : T' → S'} {put' : S' → T' → T'} (h : k₀.InStep x y)
    (hpart : ∀ t t', k.running t t' → k₀.running (part t) (part' t'))
    (hput : ∀ t t', k.running t t' → ∀ s s',
      (k₀.running s s' → k.running (put s t) (put' s' t')) ∧
        (k₀.stopped s s' → k.stopped (put s t) (put' s' t')))
    (hcuts : ∀ e, k₀.cuts e → k.cuts e) :
    k.InStep (Session.within part put x) (Session.within part' put' y) := by
  intro t t' ht
  have h' := h (hpart t t' ht)
  have hput' := hput t t' ht
  show k.Agrees ⟨(x (part t)).answer, put (x (part t)).state t, (x (part t)).notes⟩
    ⟨(y (part' t')).answer, put' (y (part' t')).state t', (y (part' t')).notes⟩
  generalize x (part t) = o at h'
  generalize y (part' t') = o' at h'
  cases h' with
  | answered hr => exact .answered ((hput' _ _).1 hr)
  | failed hne hr => exact .failed hne ((hput' _ _).1 hr)
  | stopped hs => exact .stopped ((hput' _ _).2 hs)
  | cut hc he => exact .cut (hcuts _ hc) he

/-- One session on a part of the state that both runs have in common. -/
theorem inStep_within_common {k : Lockstep T T'} {part : T → τ} {put : τ → T → T}
    {part' : T' → τ} {put' : τ → T' → T'} {x : Session ν Failure τ α}
    (hx : ∀ s phase, (x s).answer ≠ .error (.exhausted phase))
    (hpart : ∀ t t', k.running t t' → part t = part' t')
    (hput : ∀ t t', k.running t t' → ∀ s, k.running (put s t) (put' s t')) :
    k.InStep (Session.within part put x) (Session.within part' put' x) := by
  intro t t' ht
  have hne := hx (part' t')
  show k.Agrees ⟨(x (part t)).answer, put (x (part t)).state t, (x (part t)).notes⟩
    ⟨(x (part' t')).answer, put' (x (part' t')).state t', (x (part' t')).notes⟩
  rw [hpart t t' ht]
  generalize x (part' t') = o at hne
  obtain ⟨answer, s, notes⟩ := o
  cases answer with
  | ok a => exact .answered (hput t t' ht s)
  | error e => exact .failed (fun phase he => hne phase (congrArg Except.error he)) (hput t t' ht s)

/-- An answer or a failure that needs no state. -/
theorem inStep_ofExcept {x : Except Failure α} (hx : ∀ phase, x ≠ .error (.exhausted phase)) :
    k.InStep (Session.ofExcept x : Session ν Failure S α)
      (Session.ofExcept x : Session ν Failure S' α) := by
  intro s s' hs
  cases x with
  | ok a => exact .answered hs
  | error e => exact .failed (fun phase he => hx phase (congrArg Except.error he)) hs

end Rules

/-- Failures of another kind are no reason to give up. -/
theorem mapFailure_ne_exhausted {ε : Type} {f : ε → Failure}
    (hf : ∀ e phase, f e ≠ .exhausted phase) (x : Session ν ε S α) (s : S) (phase : Phase) :
    (x.mapFailure f s).answer ≠ .error (.exhausted phase) := by
  show (x s).answer.mapError f ≠ _
  cases (x s).answer with
  | ok a => exact fun h => by cases h
  | error e => exact fun h => hf e phase (Except.error.inj h)

/-! ### Stop conditions -/

section StopConditions

open StopCondition

variable [StopCondition σ] [StopCondition σ'] {k : Lockstep σ σ'}

/-- Related stop conditions answer polls alike, unless the first may trigger alone, and stay
related. -/
structure Alike (k : Lockstep σ σ') : Prop where
  poll : ∀ {s s'}, k.running s s' →
    ((poll s).1 = false ∧ (poll s').1 = false ∧ k.running (poll s).2 (poll s').2) ∨
      ((poll s).1 = true ∧ (poll s').1 = true ∧ k.stopped (poll s).2 (poll s').2) ∨
        ((poll s).1 = true ∧ ∀ phase, k.cuts (.exhausted phase))

/-- They stay related when they are told about an iteration as well. -/
structure Steady (k : Lockstep σ σ') : Prop extends k.Alike where
  tick : ∀ {s s'}, k.running s s' → k.running (tick s) (tick s')

theorem inStep_poll (hk : k.Alike) (phase : Phase) :
    k.InStep (Session.poll phase : Session ν Failure σ Unit)
      (Session.poll phase : Session ν Failure σ' Unit) := by
  intro s s' hs
  have h := hk.poll hs
  unfold Session.poll
  generalize StopCondition.poll s = p at h
  generalize StopCondition.poll s' = p' at h
  obtain ⟨b, t⟩ := p
  obtain ⟨b', t'⟩ := p'
  rcases h with ⟨rfl, rfl, ht⟩ | ⟨rfl, rfl, ht⟩ | ⟨rfl, hc⟩
  · exact .answered ht
  · exact .stopped ht
  · exact .cut (hc phase) List.nil_prefix

theorem inStep_tick (hk : k.Steady) :
    k.InStep (Session.tick : Session ν Failure σ Unit) (Session.tick : Session ν Failure σ' Unit) :=
  inStep_update fun _ _ => hk.tick

end StopConditions

/-! ### One run, twice -/

section Alone

open StopCondition

/-- The same run twice, as long as an invariant holds of its stop condition. -/
def keeping (J : σ → Prop) (cuts : Failure → Prop) : Lockstep σ σ where
  running s s' := s = s' ∧ J s
  stopped s s' := s = s' ∧ J s
  cuts := cuts

theorem steady_keeping [StopCondition σ] {J : σ → Prop} {cuts : Failure → Prop}
    (hpoll : ∀ s, J s → J (poll s).2) (htick : ∀ s, J s → J (tick s)) :
    (keeping J cuts).Steady where
  poll := by
    rintro s _ ⟨rfl, hs⟩
    cases h : (poll s).1 with
    | false => exact .inl ⟨rfl, rfl, rfl, hpoll s hs⟩
    | true => exact .inr (.inl ⟨rfl, rfl, rfl, hpoll s hs⟩)
  tick := by
    rintro s _ ⟨rfl, hs⟩
    exact ⟨rfl, htick s hs⟩

/-- What holds while a session is in lockstep with itself holds of the state that it reaches. -/
theorem ends_of_inStep {k : Lockstep S S} {x : Session ν Failure S α} (hx : k.InStep x x)
    (hcuts : ∀ e, ¬ k.cuts e) {s : S} (hs : k.running s s) :
    x.Ends s (fun _ t => k.running t t) fun _ _ => True := by
  have h := hx hs
  unfold Session.Ends
  generalize x s = o at h
  cases h with
  | answered ht => exact ht
  | failed _ _ => exact trivial
  | stopped _ => exact trivial
  | cut hc _ => exact absurd hc (hcuts _)

/-- Any session is in lockstep with itself, from equal states to equal states. -/
theorem inStep_self {k : Lockstep S S} (x : Session ν Failure S α)
    (h : ∀ s s', k.running s s' → s = s' ∧ ∀ t, k.running t t ∧ k.stopped t t) : k.InStep x x := by
  intro s s' hs
  obtain ⟨rfl, ht⟩ := h s s' hs
  exact agrees_of_state (x s) (ht _).1 (ht _).2

end Alone

end Lockstep

end ModelFinder
