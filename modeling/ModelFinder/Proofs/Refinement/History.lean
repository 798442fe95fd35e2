import ModelFinder.Proofs.Refinement.Steps

/-!
# The history of a run

A run of the refinement loop leaves its milestones, but no note tells when it asks its oracle, calls
its pipeline or polls its stop condition.  To speak of these as well, the loop is run with steps
that write an `Occurrence` for each of them into a log, which is kept beside the stop condition
(`Watched`).  The pipeline that is called may write into the log what happens inside of it; one that
does not is `Pipeline.sealed`.

The log changes nothing (`inStep_watch`): a watched run comes to the same end as the loop itself,
and leaves the same notes.  `history` is what a watched run has logged in the end.  What is logged
is described by `Session.Logs`, with one rule for each way in which sessions are built, so that a
proof about histories follows the text of the loop; that the logged milestones are those of the
notes comes with it.
-/

namespace ModelFinder

/-- What happens during a run. -/
inductive Occurrence (L : Logic) where
  | polled (triggered : Bool)
  | ticked
  | asked (q : Question L)
  | replied (q : Question L) (reply : q.Reply)
  | called (p : Problem L) (minimised : Bool)
  | decided (p : Problem L) (minimised : Bool) (v : Verdict L)
  | resolving (cnf : Cnf)
  | reached (m : Milestone L)

namespace Occurrence

variable {L : Logic}

/-- What happens inside of a call of a pipeline. -/
def isInside : Occurrence L → Bool
  | polled _ => true
  | ticked => true
  | resolving _ => true
  | reached (.stage _) => true
  | _ => false

/-- What the stop condition sees of it. -/
def stopCall? : Occurrence L → Option StopCondition.Call
  | polled _ => some .poll
  | ticked => some .tick
  | _ => none

/-- The calls of the stop condition in a history, in order. -/
def stopCalls (h : List (Occurrence L)) : List StopCondition.Call := h.filterMap stopCall?

theorem stopCalls_concat (h : List (Occurrence L)) (e : Occurrence L) :
    stopCalls (h ++ [e]) = stopCalls h ++ e.stopCall?.toList := by
  unfold stopCalls
  rw [List.filterMap_append]
  cases he : e.stopCall? <;> simp [he]

/-- The milestones of a history, in order. -/
def milestones (h : List (Occurrence L)) : List (Milestone L) :=
  h.filterMap fun
    | reached m => some m
    | _ => none

@[simp] theorem milestones_append (h h' : List (Occurrence L)) :
    milestones (h ++ h') = milestones h ++ milestones h' := List.filterMap_append

end Occurrence

/-- A stop condition and a log. -/
structure Watched (L : Logic) (σ : Type) where
  stop : σ
  log : List (Occurrence L)

namespace Watched

variable {L : Logic} {σ : Type}

/-- Writes into the log. -/
def push (es : List (Occurrence L)) (w : Watched L σ) : Watched L σ := { w with log := w.log ++ es }

/-- Polls and ticks are logged. -/
instance [StopCondition σ] : StopCondition (Watched L σ) where
  poll w :=
    let (triggered, stop) := StopCondition.poll w.stop
    (triggered, ⟨stop, w.log ++ [.polled triggered]⟩)
  tick w := ⟨StopCondition.tick w.stop, w.log ++ [.ticked]⟩

end Watched

namespace Pipeline

variable {L : Logic} {π σ : Type}

/-- Writes into the log. -/
def record {ρ : Type} (es : List (Occurrence L)) :
    Session (Note (Stage L)) Failure (ρ × Watched L σ) Unit :=
  Session.update fun s => (s.1, s.2.push es)

/-- The milestones of a session, as they are logged. -/
def stages (notes : List (Note (Stage L))) : List (Occurrence L) :=
  (Note.milestones notes).map fun m => .reached (.stage m)

theorem milestones_stages (notes : List (Note (Stage L))) :
    Occurrence.milestones (stages notes) = (Note.milestones notes).map Milestone.stage := by
  rw [stages, Occurrence.milestones, List.filterMap_map]
  exact congrFun List.filterMap_eq_map _

theorem isInside_of_mem_stages {notes : List (Note (Stage L))} {e : Occurrence L}
    (he : e ∈ stages notes) : e.isInside = true := by
  obtain ⟨m, -, rfl⟩ := List.mem_map.mp he
  rfl

/-- A pipeline that tells nothing but its milestones. -/
def sealed (pipeline : Pipeline L π σ) : Pipeline L π (Watched L σ) where
  solve p minimised := fun s =>
    let r := pipeline.solve p minimised (s.1, s.2.stop)
    ⟨r.answer, (r.state.1, ⟨r.state.2, s.2.log ++ stages r.notes⟩), r.notes⟩

/-- Calls and their verdicts are logged. -/
def watched (pipeline : Pipeline L π (Watched L σ)) : Pipeline L π (Watched L σ) where
  solve p minimised := do
    record [.called p minimised]
    let v ← pipeline.solve p minimised
    record [.decided p minimised v]
    return v

end Pipeline

namespace Refinement

variable {L : Logic} {ω π σ α β : Type}

/-- Writes into the log. -/
def record (es : List (Occurrence L)) : Run L ω π (Watched L σ) Unit :=
  stopping (Session.update (Watched.push es))

/-- The steps of the loop, which are logged. -/
def watchedSteps (oracle : Oracle L ω) : Steps L ω π (Watched L σ) where
  reach m := do
    record [.reached m]
    reach m
  consult q := do
    record [.asked q]
    let reply ← consult (oracle.ask q)
    record [.replied q reply]
    return reply

/-- The loop, watched. -/
def watch [StopCondition σ] (oracle : Oracle L ω) (pipeline : Pipeline L π (Watched L σ))
    (rounds : Nat) (p : Problem L) : Run L ω π (Watched L σ) (Verdict L) :=
  (watchedSteps oracle).solve oracle.isHigherOrder pipeline.watched rounds p

/-- A state with an empty log. -/
def State.unlogged (L : Logic) (s : State ω π σ) : State ω π (Watched L σ) :=
  { s with stop := ⟨s.stop, []⟩ }

/-- All that happens in a run; but for the log, the watched run is the run itself
(`solve_eq_watch`). -/
def history [StopCondition σ] (oracle : Oracle L ω) (pipeline : Pipeline L π (Watched L σ))
    (rounds : Nat) (p : Problem L) (s : State ω π σ) : List (Occurrence L) :=
  ((watch oracle pipeline rounds p).run (s.unlogged L)).state.stop.log

end Refinement

/-! ### The log changes nothing -/

open Lockstep StopCondition

/-- A run and a watched one; `P` and `Q` tell about the log, as long as the stop condition has not
triggered and when it has. -/
def Lockstep.watching {L : Logic} {σ : Type} (P Q : Watched L σ → Prop) :
    Lockstep σ (Watched L σ) where
  running s w := w.stop = s ∧ P w
  stopped s w := w.stop = s ∧ Q w
  cuts _ := False

section Watching

variable {L : Logic} {ω π σ ν : Type} {P Q : Watched L σ → Prop}

theorem Lockstep.steady_watching [StopCondition σ]
    (hgo : ∀ w : Watched L σ, P w → (poll w).1 = false → P (poll w).2)
    (hstop : ∀ w : Watched L σ, P w → (poll w).1 = true → Q (poll w).2)
    (htick : ∀ w : Watched L σ, P w → P (tick w)) : (watching P Q).Steady where
  poll := by
    rintro _ w ⟨rfl, hw⟩
    cases h : (poll w).1 with
    | false => exact .inl ⟨rfl, rfl, rfl, hgo w hw h⟩
    | true => exact .inr (.inl ⟨rfl, rfl, rfl, hstop w hw h⟩)
  tick := by
    rintro _ w ⟨rfl, hw⟩
    exact ⟨rfl, htick w hw⟩

/-- Nothing needs to be known of the log. -/
theorem Lockstep.steady_watching_any [StopCondition σ] :
    (watching (fun _ : Watched L σ => True) fun _ => True).Steady :=
  steady_watching (fun _ _ _ => trivial) (fun _ _ _ => trivial) fun _ _ => trivial

/-- Nothing on one side, and a step that is only logged on the other. -/
theorem Pipeline.inStep_record {ρ : Type} {es : List (Occurrence L)}
    (hes : ∀ w, P w → P (w.push es)) :
    ((watching P Q).beside ρ).InStep
      (pure () : Session (Note (Stage L)) Failure (ρ × σ) Unit) (Pipeline.record es) := by
  rintro s w ⟨hrest, hstop, hw⟩
  exact .answered ⟨hrest, hstop, hes w.2 hw⟩

theorem Refinement.inStep_record {es : List (Occurrence L)} (hes : ∀ w, P w → P (w.push es)) :
    (Refinement.lockstep (watching P Q) ω π).InStep (pure () : Refinement.Run L ω π σ Unit)
      (Refinement.record es) := by
  rintro s w ⟨hrest, hstop, hw⟩
  exact .answered ⟨hrest, hstop, hes w.stop hw⟩

/-- Polls and ticks are logged by the stop condition; nothing else that is logged matters. -/
def Keeps (P : Watched L σ → Prop) : Prop :=
  ∀ w e, e.stopCall? = none → P w → P (w.push [e])

theorem Pipeline.inStep_watched (hP : Keeps P) {pipeline : Pipeline L π σ}
    {pipeline' : Pipeline L π (Watched L σ)} (hp : pipeline.InStep (watching P Q) pipeline') :
    pipeline.InStep (watching P Q) pipeline'.watched := by
  intro p minimised
  have hpush (e : Occurrence L) (he : e.stopCall? = none) :=
    Pipeline.inStep_record (ρ := π) (Q := Q) fun w => hP w e he
  rw [← pure_bind () fun _ => pipeline.solve p minimised, ← bind_pure (pipeline.solve p minimised)]
  refine inStep_bind (hpush _ rfl) fun _ => inStep_bind (hp p minimised) fun v => ?_
  rw [← pure_bind () fun _ => (pure v : Session (Note (Stage L)) Failure (π × σ) (Verdict L))]
  exact inStep_bind (hpush _ rfl) fun _ => inStep_pure v

theorem Refinement.inStep_watchedSteps (hP : Keeps P) (oracle : Oracle L ω) :
    Steps.InStep (π := π) (watching P Q) (steps oracle) (watchedSteps oracle) := by
  have hpush (e : Occurrence L) (he : e.stopCall? = none) :=
    Refinement.inStep_record (ω := ω) (π := π) (Q := Q) fun w => hP w e he
  constructor
  · intro m
    show (lockstep _ ω π).InStep (reach m) _
    rw [← pure_bind () fun _ => (reach m : Run L ω π σ Unit)]
    exact inStep_bind (hpush _ rfl) fun _ => inStep_note _
  · intro q
    show (lockstep _ ω π).InStep (consult (oracle.ask q)) _
    rw [← pure_bind () fun _ => (consult (oracle.ask q) : Run L ω π σ q.Reply),
      ← bind_pure (consult (oracle.ask q))]
    refine inStep_bind (hpush _ rfl) fun _ => inStep_bind (inStep_consult _) fun reply => ?_
    rw [← pure_bind () fun _ => (pure reply : Run L ω π σ q.Reply)]
    exact inStep_bind (hpush _ rfl) fun _ => inStep_pure reply

/-- **A watched run is in lockstep with the loop itself.** -/
theorem Refinement.inStep_watch [StopCondition σ] (hk : (watching P Q).Steady) (hP : Keeps P)
    {pipeline : Pipeline L π σ} {pipeline' : Pipeline L π (Watched L σ)}
    (hp : pipeline.InStep (watching P Q) pipeline') (oracle : Oracle L ω) (rounds : Nat)
    (p : Problem L) : (lockstep (watching P Q) ω π).InStep (solve oracle pipeline rounds p)
      (watch oracle pipeline' rounds p) := by
  rw [solve_eq]
  exact (inStep_watchedSteps hP oracle).solve hk (Pipeline.inStep_watched hP hp)
    (Nat.le_refl rounds) (fun h => absurd h (Nat.lt_irrefl _)) p

end Watching

section Sealed

variable {L : Logic} {ω π σ : Type}

theorem Pipeline.inStep_sealed (pipeline : Pipeline L π σ) :
    pipeline.InStep (watching (fun _ => True) fun _ => True) pipeline.sealed := by
  rintro p minimised ⟨q, stop⟩ ⟨q', w⟩ ⟨rfl : q = q', rfl, -⟩
  exact agrees_of_state (pipeline.solve p minimised (q, w.stop)) ⟨rfl, rfl, trivial⟩
    ⟨rfl, rfl, trivial⟩

/-- What is left of a watched state without the log. -/
def Refinement.State.unwatched (s : State ω π (Watched L σ)) : State ω π σ :=
  { s with stop := s.stop.stop }

/-- The end of a run is that of the watched one, but for the log. -/
theorem Refinement.eq_of_agrees {P Q : Watched L σ → Prop} {ν α : Type}
    {o : Outcome ν Failure (State ω π σ) α} {o' : Outcome ν Failure (State ω π (Watched L σ)) α}
    (h : (lockstep (watching P Q) ω π).Agrees o o') :
    o = ⟨o'.answer, o'.state.unwatched, o'.notes⟩ := by
  have hstate (t : State ω π σ) (t' : State ω π (Watched L σ))
      (hrest : (t.oracle, t.pipeline, t.counters) = (t'.oracle, t'.pipeline, t'.counters))
      (hstop : t'.stop.stop = t.stop) : t = t'.unwatched := by
    obtain ⟨o, q, stop, c⟩ := t
    cases hrest
    cases hstop
    rfl
  exact Lockstep.eq_of_agrees (k := lockstep (watching P Q) ω π)
    (fun t t' ht => hstate t t' ht.1 ht.2.1) (fun t t' ht => hstate t t' ht.1 ht.2.1)
    (fun _ => id) h

/-- Whether the stop condition of a run has triggered can be seen from its end. -/
theorem Refinement.stop_of_agrees {P Q : Watched L σ → Prop} {ν α : Type}
    {o : Outcome ν Failure (State ω π σ) α} {o' : Outcome ν Failure (State ω π (Watched L σ)) α}
    (h : (lockstep (watching P Q) ω π).Agrees o o') : o'.state.stop.stop = o.state.stop ∧
      (((∃ phase, o.answer = .error (.exhausted phase)) ∧ Q o'.state.stop) ∨
        ((¬ ∃ phase, o.answer = .error (.exhausted phase)) ∧ P o'.state.stop)) := by
  cases h with
  | answered ht => exact ⟨ht.2.1, .inr ⟨nofun, ht.2.2⟩⟩
  | failed hne ht =>
      exact ⟨ht.2.1, .inr ⟨fun ⟨phase, he⟩ => hne phase (Except.error.inj he), ht.2.2⟩⟩
  | stopped ht => exact ⟨ht.2.1, .inl ⟨⟨_, rfl⟩, ht.2.2⟩⟩
  | cut hc _ => exact hc.elim

/-- The log changes nothing. -/
theorem Refinement.solve_eq_watch [StopCondition σ] {pipeline : Pipeline L π σ}
    {pipeline' : Pipeline L π (Watched L σ)}
    (hp : pipeline.InStep (watching (fun _ => True) fun _ => True) pipeline')
    (oracle : Oracle L ω) (rounds : Nat) (p : Problem L) (s : State ω π σ) :
    let r := (watch oracle pipeline' rounds p).run (s.unlogged L)
    (solve oracle pipeline rounds p).run s = ⟨r.answer, r.state.unwatched, r.notes⟩ := by
  exact eq_of_agrees (inStep_watch steady_watching_any (fun _ _ _ _ => trivial) hp oracle rounds p
    ⟨rfl, rfl, trivial⟩)

end Sealed

/-! ### What a session logs -/

namespace Session

variable {L : Logic} {ω π σ S T α β : Type}

/-- The session adds to its log; what it adds is as `Q` says, given the end of the session, and has
the milestones of its notes. -/
def Logs (log : S → List (Occurrence L)) (x : Session (Note (Milestone L)) Failure S α)
    (Q : Except Failure α → List (Occurrence L) → Prop) : Prop :=
  ∀ s, ∃ h, log (x s).state = log s ++ h ∧
    Occurrence.milestones h = Note.milestones (x s).notes ∧ Q (x s).answer h

variable {log : S → List (Occurrence L)} {Q Q' : Except Failure α → List (Occurrence L) → Prop}

theorem Logs.mono {x : Session (Note (Milestone L)) Failure S α} (hx : x.Logs log Q)
    (hQ : ∀ answer h, Q answer h → Q' answer h) : x.Logs log Q' := by
  intro s
  obtain ⟨h, hlog, hm, hq⟩ := hx s
  exact ⟨h, hlog, hm, hQ _ h hq⟩

theorem logs_pure {a : α} (h : Q (.ok a) []) :
    (pure a : Session (Note (Milestone L)) Failure S α).Logs log Q :=
  fun _ => ⟨[], (List.append_nil _).symm, rfl, h⟩

theorem logs_fail {e : Failure} (h : Q (.error e) []) :
    (fail e : Session (Note (Milestone L)) Failure S α).Logs log Q :=
  fun _ => ⟨[], (List.append_nil _).symm, rfl, h⟩

theorem logs_bind {x : Session (Note (Milestone L)) Failure S α}
    {f : α → Session (Note (Milestone L)) Failure S β}
    {Q : Except Failure β → List (Occurrence L) → Prop}
    (hx : x.Logs log fun answer h => match answer with
      | .ok a => (f a).Logs log fun answer' h' => Q answer' (h ++ h')
      | .error e => Q (.error e) h) : (x >>= f).Logs log Q := by
  intro s
  show ∃ h, log ((x s).andThen fun a t => f a t).state = log s ++ h ∧
    Occurrence.milestones h = Note.milestones ((x s).andThen fun a t => f a t).notes ∧
      Q ((x s).andThen fun a t => f a t).answer h
  obtain ⟨h, hlog, hm, hq⟩ := hx s
  generalize x s = o at hlog hm hq
  obtain ⟨answer, t, notes⟩ := o
  cases answer with
  | error e => exact ⟨h, hlog, hm, hq⟩
  | ok a =>
      obtain ⟨h', hlog', hm', hq'⟩ := hq t
      refine ⟨h ++ h', ?_, ?_, hq'⟩
      · rw [← List.append_assoc, ← hlog]
        exact hlog'
      · show _ = Note.milestones (notes ++ (f a t).notes)
        rw [Occurrence.milestones_append, hm, hm']
        exact (Note.milestones_append _ _).symm

end Session

/-- The session logs the milestones of its notes, and otherwise only what happens inside of a call
of a pipeline. -/
def Session.LogsInside {L : Logic} {ρ σ α : Type}
    (x : Session (Note (Stage L)) Failure (ρ × Watched L σ) α) : Prop :=
  ∀ s, ∃ h, (x s).state.2.log = s.2.log ++ h ∧
    Occurrence.milestones h = (Note.milestones (x s).notes).map Milestone.stage ∧
    ∀ e ∈ h, e.isInside = true

/-- All that a pipeline logs happens inside of its calls. -/
def Pipeline.LogsInside {L : Logic} {π σ : Type} (pipeline : Pipeline L π (Watched L σ)) : Prop :=
  ∀ p minimised, (pipeline.solve p minimised).LogsInside

theorem Pipeline.watched_solve {L : Logic} {π σ : Type} (pipeline : Pipeline L π (Watched L σ))
    (p : Problem L) (minimised : Bool) (s : π × Watched L σ) :
    pipeline.watched.solve p minimised s =
      (pipeline.solve p minimised (s.1, s.2.push [.called p minimised])).andThen fun v s' =>
        ⟨.ok v, (s'.1, s'.2.push [.decided p minimised v]), []⟩ := rfl

theorem Pipeline.logsInside_sealed {L : Logic} {π σ : Type} (pipeline : Pipeline L π σ) :
    pipeline.sealed.LogsInside := fun p minimised s =>
  ⟨stages (pipeline.solve p minimised (s.1, s.2.stop)).notes, rfl, milestones_stages _,
    fun _ => isInside_of_mem_stages⟩

namespace Refinement

variable {L : Logic} {ω π σ α : Type}

/-- What a watched run logs. -/
abbrev Logs (x : Run L ω π (Watched L σ) α) (Q : Except Failure α → List (Occurrence L) → Prop) :
    Prop := Session.Logs (fun s => s.stop.log) x Q

section Rules

variable {Q : Except Failure Unit → List (Occurrence L) → Prop}

theorem logs_reach {oracle : Oracle L ω} {m : Milestone L} (h : Q (.ok ()) [.reached m]) :
    Logs (((watchedSteps oracle).reach m) : Run L ω π (Watched L σ) Unit) Q :=
  fun _ => ⟨[.reached m], rfl, rfl, h⟩

theorem logs_count {f : Counters → Counters} (h : Q (.ok ()) []) :
    Logs (count f : Run L ω π (Watched L σ) Unit) Q :=
  fun _ => ⟨[], (List.append_nil _).symm, rfl, h⟩

theorem logs_remark {r : Remark} (h : Q (.ok ()) []) :
    Logs (Session.note (.remark r) : Run L ω π (Watched L σ) Unit) Q :=
  fun _ => ⟨[], (List.append_nil _).symm, rfl, h⟩

theorem logs_tick [StopCondition σ] (h : Q (.ok ()) [.ticked]) :
    Logs (stopping Session.tick : Run L ω π (Watched L σ) Unit) Q :=
  fun _ => ⟨[.ticked], rfl, rfl, h⟩

theorem logs_poll [StopCondition σ] {phase : Phase} (h : Q (.ok ()) [.polled false])
    (hstop : Q (.error (.exhausted phase)) [.polled true]) :
    Logs (stopping (Session.poll phase) : Run L ω π (Watched L σ) Unit) Q := by
  intro s
  have hpoll : StopCondition.poll s.stop = ((StopCondition.poll s.stop.stop).1,
    ⟨(StopCondition.poll s.stop.stop).2,
      s.stop.log ++ [.polled (StopCondition.poll s.stop.stop).1]⟩) := rfl
  show ∃ h, (Session.poll phase s.stop).state.log = s.stop.log ++ h ∧
    Occurrence.milestones h = Note.milestones (Session.poll phase s.stop).notes ∧
      Q (Session.poll phase s.stop).answer h
  unfold Session.poll
  rw [hpoll]
  cases (StopCondition.poll s.stop.stop).1 with
  | false => exact ⟨[.polled false], rfl, rfl, h⟩
  | true => exact ⟨[.polled true], rfl, rfl, hstop⟩

/-- An oracle leaves no notes. -/
theorem milestones_map_elim (notes : List Empty) :
    Note.milestones (notes.map (Empty.elim : Empty → Note (Milestone L))) = [] := by
  cases notes with
  | nil => rfl
  | cons n _ => exact n.elim

theorem logs_consult {oracle : Oracle L ω} {q : Question L}
    {Q : Except Failure q.Reply → List (Occurrence L) → Prop}
    (h : ∀ reply, Q (.ok reply) [.asked q, .replied q reply])
    (herror : ∀ e, Q (.error e) [.asked q]) :
    Logs (((watchedSteps oracle).consult q) : Run L ω π (Watched L σ) q.Reply) Q := by
  have hask : Logs (consult (oracle.ask q) : Run L ω π (Watched L σ) q.Reply) fun _ h => h = [] :=
    fun s => ⟨[], (List.append_nil _).symm, (milestones_map_elim _).symm, rfl⟩
  refine Session.logs_bind fun s => ⟨[.asked q], rfl, rfl, ?_⟩
  refine Session.logs_bind (hask.mono fun answer _ he => ?_)
  subst he
  cases answer with
  | error e => exact herror e
  | ok reply =>
      refine Session.logs_bind fun s => ⟨[.replied q reply], rfl, rfl, ?_⟩
      exact Session.logs_pure (h reply)

theorem logs_decide {pipeline : Pipeline L π (Watched L σ)} (hp : pipeline.LogsInside)
    {p : Problem L} {minimised : Bool} {Q : Except Failure (Verdict L) → List (Occurrence L) → Prop}
    (h : ∀ inside, (∀ e ∈ inside, e.isInside = true) → ∀ v,
      Q (.ok v) (.called p minimised :: inside ++ [.decided p minimised v]))
    (herror : ∀ inside, (∀ e ∈ inside, e.isInside = true) → ∀ e,
      Q (.error e) (.called p minimised :: inside)) :
    Logs (decide pipeline.watched p minimised : Run L ω π (Watched L σ) (Verdict L)) Q := by
  intro s
  obtain ⟨inside, hlog, hm, hinside⟩ :=
    hp p minimised (s.pipeline, s.stop.push [.called p minimised])
  have hrun := pipeline.watched_solve p minimised (s.pipeline, s.stop)
  unfold decide Session.within Session.mapNotes
  dsimp only
  rw [hrun]
  generalize pipeline.solve p minimised (s.pipeline, s.stop.push [.called p minimised]) = o at *
  obtain ⟨answer, t, notes⟩ := o
  have hlog' : t.2.log = s.stop.log ++ .called p minimised :: inside := by
    rw [hlog]
    exact List.append_assoc ..
  have hm' : Occurrence.milestones (.called p minimised :: inside) =
      Note.milestones (notes.map (Note.map Milestone.stage)) :=
    hm.trans (Note.milestones_map_map _ _).symm
  cases answer with
  | error e => exact ⟨.called p minimised :: inside, hlog', hm', herror inside hinside e⟩
  | ok v =>
      refine ⟨.called p minimised :: inside ++ [.decided p minimised v], ?_, ?_, ?_⟩
      · show t.2.log ++ _ = _
        rw [hlog', List.append_assoc]
      · show _ = Note.milestones ((notes ++ []).map (Note.map Milestone.stage))
        rw [List.append_nil, Occurrence.milestones_append, hm']
        exact List.append_nil _
      · exact h inside hinside v

end Rules

/-- **The history of a run is what it logs**: its milestones are those that the loop leaves in its
notes. -/
theorem history_of_logs [StopCondition σ] {oracle : Oracle L ω} {pipeline : Pipeline L π σ}
    {pipeline' : Pipeline L π (Watched L σ)}
    (hp : pipeline.InStep (watching (fun _ => True) fun _ => True) pipeline') {rounds : Nat}
    {p : Problem L} {Q : Except Failure (Verdict L) → List (Occurrence L) → Prop}
    (h : Logs (watch oracle pipeline' rounds p) Q) (s : State ω π σ) :
    let r := (solve oracle pipeline rounds p).run s
    Occurrence.milestones (history oracle pipeline' rounds p s) = Note.milestones r.notes ∧
      Q r.answer (history oracle pipeline' rounds p s) := by
  obtain ⟨h', hlog, hm, hq⟩ := h (s.unlogged L)
  have hhistory : history oracle pipeline' rounds p s = h' := hlog
  intro r
  have hr : r = _ := solve_eq_watch hp oracle rounds p s
  rw [hr, hhistory]
  exact ⟨hm, hq⟩

end Refinement

end ModelFinder
