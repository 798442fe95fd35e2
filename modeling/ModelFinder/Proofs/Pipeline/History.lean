import ModelFinder.Proofs.Refinement.History

/-!
# The history of a call of the pipeline

`Pipeline.observed` is the pipeline that translates a problem and solves it, with all that happens
inside of it in the log: the milestones of the translator, the calls of the back end, and the polls
and ticks of the pipeline, of the back end and of reductions.

The log changes nothing (`Pipeline.inStep_observed`), and what is in it happens inside of a call
(`Pipeline.logsInside_observed`).  For the built-in prover and for reductions the latter is a matter
of lockstep: all that they do to the log they do by polls, ticks and calls.
-/

namespace ModelFinder

open Lockstep StopCondition

variable {L : Logic} {τ β σ ρ α γ : Type}

/-- Calls of a back end are logged. -/
def Backend.watched (backend : Backend β (Watched L σ)) : Backend β (Watched L σ) where
  solve cnf := do
    Session.update fun s => (s.1, s.2.push [.resolving cnf])
    backend.solve cnf

namespace Pipeline

/-- Runs a session that does not log anything, and then logs its milestones. -/
def recording (x : Session (Note (Stage L)) Failure (ρ × Watched L σ) α) :
    Session (Note (Stage L)) Failure (ρ × Watched L σ) α := fun s =>
  let r := x s
  { r with state := (r.state.1, r.state.2.push (stages r.notes)) }

/-- Translates a problem and solves it, and logs all that happens. -/
def observed [StopCondition σ] (translator : Translator L τ) (backend : Backend β (Watched L σ))
    (options : SolverOptions) : Pipeline L (τ × β) (Watched L σ) where
  solve p minimised := do
    Session.within Prod.snd (fun stop s => (s.1, stop)) (Session.poll .solving)
    let translation ← recording (translate translator p)
    let cnf := translation.cnf
    recording (Session.note
      (.milestone (.solvingCnf translation.log.primary cnf.numVariables cnf.numClauses)))
    match ← decide backend.watched cnf with
    | .satisfiable assignment => return .satisfiable (translator.interpret translation assignment)
    | .unsatisfiable t =>
      Session.note (.remark (.refuted cnf.numClauses t.core.size))
      let t ← if minimised then minimise options backend.watched translation.log t else pure t
      let core ← Session.mapFailure .violation
        (Session.ofExcept (UnsatCore.ofTrace t translation.log))
      return .unsatisfiable core

/-! ### The log changes nothing -/

section InStep

variable {P Q : Watched L σ → Prop} {backend : Backend β σ} {backend' : Backend β (Watched L σ)}

theorem inStep_watched_backend (hP : ∀ w cnf, P w → P (w.push [.resolving cnf]))
    (hb : backend.InStep (watching P Q) backend') :
    backend.InStep (watching P Q) backend'.watched := by
  intro cnf
  rw [← pure_bind () fun _ => backend.solve cnf]
  refine inStep_bind ?_ fun _ => hb cnf
  rintro s w ⟨hrest, hstop, hw⟩
  exact .answered ⟨hrest, hstop, hP w.2 cnf hw⟩

/-- A session that can not give up may be recorded. -/
theorem inStep_recording (hP : ∀ w m, P w → P (w.push [.reached (.stage m)]))
    {x : Session (Note (Stage L)) Failure (ρ × σ) α}
    {y : Session (Note (Stage L)) Failure (ρ × Watched L σ) α}
    (h : ((watching P Q).beside ρ).InStep x y)
    (hx : ∀ s phase, (x s).answer ≠ .error (.exhausted phase)) :
    ((watching P Q).beside ρ).InStep x (recording y) := by
  have hpush (notes : List (Note (Stage L))) (w : Watched L σ) (hw : P w) :
      P (w.push (stages notes)) := by
    unfold stages
    induction Note.milestones notes generalizing w with
    | nil => simpa [Watched.push] using hw
    | cons m ms ih => simpa [Watched.push] using ih _ (hP w m hw)
  intro s w hs
  have hne := hx s
  have h' := h hs
  unfold recording
  dsimp only
  generalize x s = o at hne h'
  generalize y w = o' at h'
  cases h' with
  | @answered a t t' notes ht => exact .answered ⟨ht.1, ht.2.1, hpush notes t'.2 ht.2.2⟩
  | @failed e t t' notes hne' ht => exact .failed hne' ⟨ht.1, ht.2.1, hpush notes t'.2 ht.2.2⟩
  | stopped ht => exact absurd rfl (hne _)
  | cut hc _ => exact hc.elim

/-- **The log of a call changes nothing.** -/
theorem inStep_observed [StopCondition σ] (hk : (watching P Q).Steady) (hP : Keeps P)
    (hb : backend.InStep (watching P Q) backend') (translator : Translator L τ)
    (options : SolverOptions) : (translateAndSolve translator backend options).InStep
      (watching P Q) (observed translator backend' options) := by
  intro p minimised
  have hstage := fun w m => hP w (.reached (.stage m)) rfl
  have hb' := inStep_watched_backend (fun w cnf => hP w (.resolving cnf) rfl) hb
  have htranslate : ∀ s phase, (translate translator p s :
      Outcome _ _ ((τ × β) × σ) _).answer ≠ .error (.exhausted phase) := fun s phase =>
    mapFailure_ne_exhausted (fun _ _ h => by cases h) (translator.translate p) s.1.1 phase
  unfold translateAndSolve observed
  refine inStep_bind (inStep_poll hk .solving) fun _ => ?_
  refine inStep_bind (inStep_recording hstage (inStep_translate translator p) htranslate)
    fun tr => ?_
  refine inStep_bind (inStep_recording hstage (inStep_note _) fun _ _ => nofun) fun _ => ?_
  refine inStep_bind (inStep_decide hb' tr.cnf) fun o => ?_
  cases o with
  | satisfiable a => exact inStep_pure _
  | unsatisfiable t =>
      refine inStep_bind (inStep_note _) fun _ => ?_
      dsimp only
      split
      · refine inStep_bind (inStep_minimise hk hb' options tr.log t) fun t' => ?_
        exact inStep_bind (inStep_violation _) fun core => inStep_pure _
      · refine inStep_bind (inStep_pure t) fun t' => ?_
        exact inStep_bind (inStep_violation _) fun core => inStep_pure _

end InStep

/-! ### What a call logs -/

section LogsInside

/-- The log has grown, by what happens inside of a call, but by no milestone. -/
def Quiet (l : List (Occurrence L)) (w : Watched L σ) : Prop :=
  ∃ h, w.log = l ++ h ∧ Occurrence.milestones h = [] ∧ ∀ e ∈ h, e.isInside = true

theorem Quiet.push {l : List (Occurrence L)} {w : Watched L σ} {e : Occurrence L} (hw : Quiet l w)
    (he : Occurrence.milestones [e] = []) (hinside : e.isInside = true) :
    Quiet l (w.push [e]) := by
  obtain ⟨h, hlog, hm, hh⟩ := hw
  refine ⟨h ++ [e], ?_, ?_, ?_⟩
  · show w.log ++ [e] = _
    rw [hlog, List.append_assoc]
  · rw [Occurrence.milestones_append, hm, he, List.append_nil]
  · exact List.forall_mem_append.mpr ⟨hh, List.forall_mem_singleton.mpr hinside⟩

theorem steady_quiet [StopCondition σ] (l : List (Occurrence L)) :
    (watching (Quiet l) (Quiet l) : Lockstep σ (Watched L σ)).Steady :=
  steady_watching (fun w hw _ => (hw.push rfl rfl : Quiet l (poll w).2))
    (fun w hw _ => (hw.push rfl rfl : Quiet l (poll w).2))
    fun w hw => (hw.push rfl rfl : Quiet l (tick w))

/-- The prover logs its polls only. -/
theorem inStep_prover [StopCondition σ] (l : List (Occurrence L)) :
    (Prover.backend : Backend _ σ).InStep (watching (Quiet l) (Quiet l))
      (Prover.backend : Backend _ (Watched L σ)).watched :=
  inStep_watched_backend (fun _ _ hw => hw.push rfl rfl)
    (Prover.inStep_backend (steady_quiet l).toAlike)

variable {x : Session (Note (Stage L)) Failure (ρ × σ) α}
  {y : Session (Note (Stage L)) Failure (ρ × Watched L σ) α}

/-- A session without milestones whose log is quiet. -/
theorem logsInside_of_quiet
    (h : ∀ l, ((watching (Quiet l) (Quiet l)).beside ρ).InStep x y)
    (hm : ∀ s, Note.milestones (y s).notes = []) : y.LogsInside := by
  intro s
  have hquiet : Quiet s.2.log (y s).state.2 := by
    have hs : ((watching (Quiet s.2.log) (Quiet s.2.log)).beside ρ).running (s.1, s.2.stop) s :=
      ⟨rfl, rfl, [], (List.append_nil _).symm, rfl, nofun⟩
    have h' := h s.2.log hs
    generalize x (s.1, s.2.stop) = o at h'
    generalize y s = o' at h'
    cases h' with
    | answered ht => exact ht.2.2
    | failed _ ht => exact ht.2.2
    | stopped ht => exact ht.2.2
    | cut hc _ => exact hc.elim
  obtain ⟨h, hlog, hms, hinside⟩ := hquiet
  exact ⟨h, hlog, by rw [hms, hm]; rfl, hinside⟩

theorem logsInside_pure (a : α) :
    (pure a : Session (Note (Stage L)) Failure (ρ × Watched L σ) α).LogsInside :=
  fun _ => ⟨[], (List.append_nil _).symm, rfl, nofun⟩

theorem logsInside_remark (r : Remark) :
    (Session.note (.remark r) :
      Session (Note (Stage L)) Failure (ρ × Watched L σ) Unit).LogsInside :=
  fun _ => ⟨[], (List.append_nil _).symm, rfl, nofun⟩

theorem logsInside_violation (x : Except Violation α) :
    (Session.mapFailure .violation (Session.ofExcept x) :
      Session (Note (Stage L)) Failure (ρ × Watched L σ) α).LogsInside :=
  fun _ => ⟨[], (List.append_nil _).symm, rfl, nofun⟩

theorem logsInside_bind {f : α → Session (Note (Stage L)) Failure (ρ × Watched L σ) γ}
    (hy : y.LogsInside) (hf : ∀ a, (f a).LogsInside) : (y >>= f).LogsInside := by
  intro s
  show ∃ h, ((y s).andThen fun a t => f a t).state.2.log = s.2.log ++ h ∧
    Occurrence.milestones h =
      (Note.milestones ((y s).andThen fun a t => f a t).notes).map .stage ∧
    ∀ e ∈ h, e.isInside = true
  obtain ⟨h, hlog, hm, hinside⟩ := hy s
  generalize y s = o at hlog hm
  obtain ⟨answer, t, notes⟩ := o
  cases answer with
  | error e => exact ⟨h, hlog, hm, hinside⟩
  | ok a =>
      obtain ⟨h', hlog', hm', hinside'⟩ := hf a t
      refine ⟨h ++ h', ?_, ?_, List.forall_mem_append.mpr ⟨hinside, hinside'⟩⟩
      · rw [← List.append_assoc, ← hlog]
        exact hlog'
      · show _ = (Note.milestones (notes ++ (f a t).notes)).map Milestone.stage
        rw [Occurrence.milestones_append, hm, hm', ← List.map_append]
        exact congrArg _ (Note.milestones_append _ _).symm

theorem logsInside_poll [StopCondition σ] (phase : Phase) :
    (Session.within Prod.snd (fun stop s => (s.1, stop)) (Session.poll phase) :
      Session (Note (Stage L)) Failure (ρ × Watched L σ) Unit).LogsInside :=
  logsInside_of_quiet (fun l => inStep_poll (steady_quiet l) phase) fun s => by
    show Note.milestones (Session.poll phase s.2).notes = []
    unfold Session.poll
    split <;> rfl

theorem logsInside_recording (hy : ∀ s, (y s).state.2.log = s.2.log) :
    (recording y).LogsInside := fun s =>
  ⟨stages (y s).notes, congrArg (· ++ _) (hy s), milestones_stages _,
    fun _ => isInside_of_mem_stages⟩

theorem logsInside_decide [StopCondition σ] (cnf : Cnf) :
    (decide (Prover.backend : Backend _ (Watched L σ)).watched cnf :
      Run L τ Prover.Counters (Watched L σ) SatOutcome).LogsInside :=
  logsInside_of_quiet (fun l => inStep_decide (inStep_prover l) cnf) fun _ =>
    Note.milestones_map_remark _

theorem logsInside_minimise [StopCondition σ] (options : SolverOptions) (log : TranslationLog L)
    (t : Trace) :
    (minimise options (Prover.backend : Backend _ (Watched L σ)).watched log t :
      Run L τ Prover.Counters (Watched L σ) Trace).LogsInside :=
  logsInside_of_quiet (fun l => inStep_minimise (steady_quiet l) (inStep_prover l) options log t)
    fun s => by
    -- a reduction has no milestones of its own
    have hnone (notes : List (Note Empty)) : Note.milestones
        (notes.map (Note.map (Empty.elim : Empty → Stage L))) = [] := by
      have h : Note.milestones notes = [] := List.eq_nil_iff_forall_not_mem.mpr fun m => m.elim
      rw [Note.milestones_map_map, h]
      rfl
    obtain ⟨minimisation, distance⟩ := options
    cases minimisation with
    | recycling => exact hnone _
    | naive => exact hnone _
    | asFound => rfl

/-- **The log of a call is about this call.** -/
theorem logsInside_observed [StopCondition σ] (translator : Translator L τ)
    (options : SolverOptions) :
    (observed (σ := σ) translator Prover.backend options).LogsInside := by
  intro p minimised
  unfold observed
  refine logsInside_bind (logsInside_poll .solving) fun _ => ?_
  refine logsInside_bind (logsInside_recording fun _ => rfl) fun tr => ?_
  refine logsInside_bind (logsInside_recording fun _ => rfl) fun _ => ?_
  refine logsInside_bind (logsInside_decide tr.cnf) fun o => ?_
  cases o with
  | satisfiable a => exact logsInside_pure _
  | unsatisfiable t =>
      refine logsInside_bind (logsInside_remark _) fun _ => ?_
      dsimp only
      split
      · refine logsInside_bind (logsInside_minimise options tr.log t) fun t' => ?_
        exact logsInside_bind (logsInside_violation _) fun core => logsInside_pure _
      · refine logsInside_bind (logsInside_pure t) fun t' => ?_
        exact logsInside_bind (logsInside_violation _) fun core => logsInside_pure _

end LogsInside

end Pipeline

end ModelFinder
