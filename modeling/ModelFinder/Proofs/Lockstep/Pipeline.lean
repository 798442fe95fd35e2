import ModelFinder.Pipeline
import ModelFinder.Proofs.Lockstep

/-!
# The pipeline in lockstep

The prover, the reduction of cores and the pipeline consult their stop condition by polls and ticks
only, and give up as soon as a poll triggers.  So two runs of them under related stop conditions are
in lockstep: `Prover.inStep_backend` for the prover, `Reduction.inStep_minimiseCore` for reductions
and `Pipeline.inStep_translateAndSolve` for the pipeline.  The last two take back ends that are in
lockstep themselves (`Backend.InStep`).
-/

namespace ModelFinder

open Lockstep

variable {σ σ' : Type} {k : Lockstep σ σ'}

/-- States that consist of something in common and a stop condition. -/
def Lockstep.beside {σ σ' : Type} (k : Lockstep σ σ') (ρ : Type) : Lockstep (ρ × σ) (ρ × σ') :=
  k.along id id

/-- Two back ends that run in lockstep. -/
def Backend.InStep {β σ σ' : Type} (k : Lockstep σ σ') (backend : Backend β σ)
    (backend' : Backend β σ') : Prop :=
  ∀ cnf, (k.beside β).InStep (backend.solve cnf) (backend'.solve cnf)

/-- Two pipelines that run in lockstep. -/
def Pipeline.InStep {L : Logic} {π σ σ' : Type} (k : Lockstep σ σ') (pipeline : Pipeline L π σ)
    (pipeline' : Pipeline L π σ') : Prop :=
  ∀ p minimised, (k.beside π).InStep (pipeline.solve p minimised) (pipeline'.solve p minimised)

/-! ### The prover -/

namespace Prover.Search

/-- Searches with the same refutation and the same counters. -/
def lockstep {σ σ' : Type} (k : Lockstep σ σ') : Lockstep (State σ) (State σ') :=
  k.along (fun s => ((s.builder, s.counters), s.stop)) fun s => ((s.builder, s.counters), s.stop)

/-- A step that depends on the refutation alone. -/
theorem inStep_of_builder {α : Type} {x : Search σ α} {y : Search σ' α}
    (h : ∀ b c stop stop', k.running stop stop' →
      (lockstep k).Agrees (x ⟨b, c, stop⟩) (y ⟨b, c, stop'⟩)) : (lockstep k).InStep x y := by
  rintro ⟨b, c, stop⟩ ⟨b', c', stop'⟩ ⟨hrest, hs⟩
  cases hrest
  exact h b c stop stop' hs

theorem inStep_building {α : Type} (x : Trace.Builder.Action α) :
    (lockstep k).InStep (building x) (building x) := by
  refine inStep_of_builder fun b c stop stop' hs => ?_
  unfold building Session.within Session.mapFailure Session.mapNotes
  dsimp only
  cases (x b).answer with
  | ok r => exact .answered ⟨rfl, hs⟩
  | error e => exact .failed nofun ⟨rfl, hs⟩

theorem inStep_finish : (lockstep k).InStep finish finish := by
  refine inStep_of_builder fun b c stop stop' hs => ?_
  unfold finish
  dsimp only
  cases b.build with
  | ok t => exact .answered ⟨rfl, hs⟩
  | error e => exact .failed nofun ⟨rfl, hs⟩

theorem inStep_count (f : Counters → Counters) : (lockstep k).InStep (count f) (count f) :=
  inStep_of_builder fun _ _ _ _ hs => .answered ⟨rfl, hs⟩

theorem inStep_poll [StopCondition σ] [StopCondition σ'] (hk : k.Alike) :
    (lockstep k).InStep (poll : Search σ Unit) poll := by
  refine inStep_within (Lockstep.inStep_poll hk .solving) (fun _ _ hs => hs.2) ?_ fun _ h => h
  exact fun _ _ hs _ _ => ⟨fun h => ⟨hs.1, h⟩, fun h => ⟨hs.1, h⟩⟩

theorem inStep_explain (t : Trail) (c : TraceClause) :
    (lockstep k).InStep (explain t c) (explain t c) := by
  unfold explain
  split
  · exact inStep_pure c
  · exact inStep_bind (inStep_count _) fun _ => inStep_building _

theorem inStep_merge (v : Variable) (c d : TraceClause) :
    (lockstep k).InStep (merge v c d) (merge v c d) := by
  unfold merge
  refine inStep_bind (inStep_count _) fun _ => inStep_bind (inStep_building _) fun r => ?_
  exact inStep_bind (inStep_note _) fun _ => inStep_pure r

theorem inStep_assert (assertion : Assertion) (holds : Bool) :
    (lockstep k).InStep (assert assertion holds) (assert assertion holds) :=
  inStep_ofExcept fun phase h => by cases holds <;> cases h

/-- One node of the search tree, given the searches below it. -/
theorem inStep_node [StopCondition σ] [StopCondition σ'] (hk : k.Alike)
    {clauses : List TraceClause} {bound : Nat}
    (ih : ∀ m, bound = m + 1 → ∀ t,
      (lockstep k).InStep (search clauses m t) (search clauses m t)) (t : Trail) :
    (lockstep k).InStep (search clauses bound t) (search clauses bound t) := by
  unfold search
  refine inStep_bind (inStep_poll hk) fun _ => ?_
  split
  next conflict t' _ =>
    refine inStep_bind (inStep_count _) fun _ => ?_
    exact inStep_bind (inStep_explain t' conflict) fun c => inStep_pure _
  next t' _ =>
    split
    next v m _ =>
      refine inStep_bind (inStep_count _) fun _ => ?_
      refine inStep_bind (ih m rfl _) fun node => ?_
      cases node with
      | model values => exact inStep_pure _
      | refuted c =>
          dsimp only
          split
          · exact inStep_pure _
          · refine inStep_bind (ih m rfl _) fun node => ?_
            cases node with
            | model values => exact inStep_pure _
            | refuted d =>
                dsimp only
                split
                · exact inStep_pure _
                · exact inStep_bind (inStep_merge v c d) fun r => inStep_pure _
    next => exact inStep_pure _

theorem inStep_search [StopCondition σ] [StopCondition σ'] (hk : k.Alike)
    (clauses : List TraceClause) (bound : Nat) (t : Trail) :
    (lockstep k).InStep (search clauses bound t) (search clauses bound t) := by
  induction bound generalizing t with
  | zero => exact inStep_node hk (fun m h => absurd h (Nat.succ_ne_zero m).symm) t
  | succ n ih =>
      refine inStep_node hk (fun m h => ?_) t
      obtain rfl : n = m := Nat.succ.inj h
      exact ih

theorem inStep_addAxioms (cs : List (List Literal)) :
    (lockstep k).InStep (addAxioms cs) (addAxioms cs) := by
  induction cs with
  | nil => exact inStep_pure _
  | cons ls rest ih =>
      unfold addAxioms
      refine inStep_bind (inStep_building _) fun c => ?_
      split
      · exact inStep_pure _
      · exact inStep_bind ih fun _ => inStep_pure _

theorem inStep_answer [StopCondition σ] [StopCondition σ'] (hk : k.Alike) (cnf : Cnf) :
    (lockstep k).InStep (answer cnf) (answer cnf) := by
  unfold answer
  refine inStep_bind (inStep_addAxioms cnf.clauses) fun r => ?_
  split
  next c _ => exact inStep_bind (inStep_building _) fun _ => inStep_finish
  next clauses =>
    refine inStep_bind (inStep_search hk clauses _ _) fun node => ?_
    cases node with
    | model t => exact inStep_bind (inStep_assert _ _) fun _ => inStep_pure _
    | refuted c =>
        refine inStep_bind (inStep_assert _ _) fun _ => ?_
        -- what is read is the refutation, which both searches have in common
        refine inStep_read_bind fun s s' hs => ?_
        have hb : s.builder = s'.builder := congrArg (·.1) hs.1
        rw [hb]
        dsimp only
        split
        · exact inStep_bind (inStep_building _) (fun _ => inStep_finish) hs
        · exact inStep_bind (inStep_pure ()) (fun _ => inStep_finish) hs

end Prover.Search

/-- **The prover runs in lockstep with itself.** -/
theorem Prover.inStep_backend [StopCondition σ] [StopCondition σ'] (hk : k.Alike) :
    (Prover.backend : Backend Counters σ).InStep k Prover.backend := by
  intro cnf
  show (k.beside Counters).InStep (Prover.solve cnf) (Prover.solve cnf)
  refine inStep_within (Search.inStep_answer hk cnf) ?_ ?_ fun _ h => h
  · rintro ⟨c, stop⟩ ⟨c', stop'⟩ ⟨rfl, hs⟩
    exact ⟨rfl, hs⟩
  · intro _ _ _ s s'
    exact ⟨fun h => ⟨congrArg Prod.snd h.1, h.2⟩, fun h => ⟨congrArg Prod.snd h.1, h.2⟩⟩

/-! ### Reductions -/

/-- A broken promise is no reason to give up. -/
theorem Lockstep.inStep_violation {ν S S' α : Type} {k : Lockstep S S'} (x : Except Violation α) :
    k.InStep (Session.mapFailure Failure.violation (Session.ofExcept x) : Session ν Failure S α)
      (Session.mapFailure Failure.violation (Session.ofExcept x)) := by
  show k.InStep (Session.ofExcept (x.mapError .violation))
    (Session.ofExcept (x.mapError .violation))
  refine inStep_ofExcept fun phase => ?_
  cases x <;> exact nofun

namespace Reduction

variable {κ β : Type} {backend : Backend β σ} {backend' : Backend β σ'}

/-- Reductions with the same strategy and the same back end. -/
def lockstep {σ σ' : Type} (k : Lockstep σ σ') (κ β : Type) :
    Lockstep (State κ β σ) (State κ β σ') :=
  k.along (fun s => ((s.strategy, s.backend), s.stop)) fun s => ((s.strategy, s.backend), s.stop)

theorem inStep_propose (strategy : Strategy κ) (t : Trace) :
    (lockstep k κ β).InStep (propose strategy t) (propose strategy t) := by
  refine inStep_within_common (mapFailure_ne_exhausted (fun _ _ h => by cases h) _) ?_ ?_
  · exact fun s s' hs => congrArg (·.1) hs.1
  · exact fun s s' hs κ => ⟨Prod.ext rfl (congrArg (·.2) hs.1), hs.2⟩

theorem inStep_resolve (hb : backend.InStep k backend') (cnf : Cnf) :
    (lockstep k κ β).InStep (resolve backend cnf) (resolve backend' cnf) := by
  refine inStep_within (inStep_mapNotes (hb cnf) _) ?_ ?_ fun _ h => h
  · exact fun s s' hs => ⟨congrArg (·.2) hs.1, hs.2⟩
  · intro s s' hs r r'
    have hstrategy : s.strategy = s'.strategy := congrArg (·.1) hs.1
    exact ⟨fun h => ⟨Prod.ext hstrategy h.1, h.2⟩, fun h => ⟨Prod.ext hstrategy h.1, h.2⟩⟩

theorem inStep_stopping {α : Type} {x : Session (Note Empty) Failure σ α}
    {y : Session (Note Empty) Failure σ' α} (h : k.InStep x y) :
    (lockstep k κ β).InStep (stopping x) (stopping y) := by
  refine inStep_within h (fun _ _ hs => hs.2) ?_ fun _ h => h
  exact fun _ _ hs _ _ => ⟨fun h => ⟨hs.1, h⟩, fun h => ⟨hs.1, h⟩⟩

theorem inStep_attempt (hb : backend.InStep k backend') (t : Trace) (candidate : ClauseSet)
    (c : Counters) :
    (lockstep k κ β).InStep (attempt backend t candidate c) (attempt backend' t candidate c) := by
  unfold attempt
  refine inStep_bind (inStep_violation _) fun cnf => ?_
  refine inStep_bind (inStep_resolve hb cnf) fun o => ?_
  cases o with
  | satisfiable a => exact inStep_bind (inStep_note _) fun _ => inStep_pure _
  | unsatisfiable reduced =>
      refine inStep_bind (inStep_violation _) fun t' => ?_
      exact inStep_bind (inStep_note _) fun _ => inStep_pure _

theorem inStep_rounds [StopCondition σ] [StopCondition σ'] (hk : k.Steady)
    (hb : backend.InStep k backend') (strategy : Strategy κ) (n : Nat) (t : Trace) (c : Counters) :
    (lockstep k κ β).InStep (rounds strategy backend n t c) (rounds strategy backend' n t c) := by
  induction n generalizing t c with
  | zero => exact inStep_fail nofun
  | succ n ih =>
      unfold rounds
      refine inStep_bind (inStep_propose strategy t) fun candidate => ?_
      split
      · exact inStep_pure _
      · refine inStep_bind (inStep_stopping (inStep_poll hk.toAlike _)) fun _ => ?_
        refine inStep_bind (inStep_attempt hb t candidate c) fun r => ?_
        exact inStep_bind (inStep_stopping (inStep_tick hk)) fun _ => ih r.1 r.2

theorem inStep_forM_note {ν α S S' : Type} {k : Lockstep S S'} (f : α → ν) (as : List α) :
    k.InStep (as.forM fun a => (Session.note (f a) : Session ν Failure S Unit))
      (as.forM fun a => (Session.note (f a) : Session ν Failure S' Unit)) := by
  induction as with
  | nil => exact inStep_pure ()
  | cons a as ih => exact inStep_bind (inStep_note (f a)) fun _ => ih

/-- **Reductions run in lockstep** if their back ends do. -/
theorem inStep_minimiseCore [StopCondition σ] [StopCondition σ'] (hk : k.Steady)
    (hb : backend.InStep k backend') (strategy : Strategy κ) (t : Trace) : (lockstep k κ β).InStep
      (minimiseCore strategy backend t) (minimiseCore strategy backend' t) := by
  unfold minimiseCore
  refine inStep_read_bind fun s s' hs => ?_
  have hstrategy : s.strategy = s'.strategy := congrArg (·.1) hs.1
  rw [hstrategy]
  refine inStep_bind (inStep_rounds hk hb strategy _ t {}) (fun r => ?_) hs
  refine inStep_bind (inStep_note _) fun _ => ?_
  exact inStep_bind (inStep_forM_note Note.statistic _) fun _ => inStep_pure _

end Reduction

/-! ### The pipeline -/

namespace Pipeline

variable {L : Logic} {τ β : Type} {backend : Backend β σ} {backend' : Backend β σ'}

theorem inStep_translate (translator : Translator L τ) (p : Problem L) :
    (k.beside (τ × β)).InStep (translate translator p) (translate translator p) := by
  refine inStep_within_common (mapFailure_ne_exhausted (fun _ _ h => by cases h) _) ?_ ?_
  · exact fun s s' hs => congrArg (·.1) hs.1
  · exact fun s s' hs t => ⟨Prod.ext rfl (congrArg (·.2) hs.1), hs.2⟩

theorem inStep_decide (hb : backend.InStep k backend') (cnf : Cnf) :
    (k.beside (τ × β)).InStep (decide backend cnf : Run L τ β σ SatOutcome)
      (decide backend' cnf) := by
  refine inStep_within (inStep_mapNotes (hb cnf) _) ?_ ?_ fun _ h => h
  · exact fun s s' hs => ⟨congrArg (·.2) hs.1, hs.2⟩
  · intro s s' hs r r'
    have htranslator : s.1.1 = s'.1.1 := congrArg (·.1) hs.1
    exact ⟨fun h => ⟨Prod.ext htranslator h.1, h.2⟩, fun h => ⟨Prod.ext htranslator h.1, h.2⟩⟩

theorem inStep_minimiseWith [StopCondition σ] [StopCondition σ'] (hk : k.Steady)
    (hb : backend.InStep k backend') (strategy : Strategy RootPool) (log : TranslationLog L)
    (t : Trace) :
    (k.beside (τ × β)).InStep (minimiseWith strategy backend log t)
      (minimiseWith strategy backend' log t) := by
  refine inStep_within (inStep_mapNotes (Reduction.inStep_minimiseCore hk hb strategy t) _) ?_ ?_
    fun _ h => h
  · exact fun s s' hs => ⟨Prod.ext rfl (congrArg (·.2) hs.1), hs.2⟩
  · intro s s' hs r r'
    have htranslator : s.1.1 = s'.1.1 := congrArg (·.1) hs.1
    exact ⟨fun h => ⟨Prod.ext htranslator (congrArg (·.2) h.1), h.2⟩,
      fun h => ⟨Prod.ext htranslator (congrArg (·.2) h.1), h.2⟩⟩

theorem inStep_minimise [StopCondition σ] [StopCondition σ'] (hk : k.Steady)
    (hb : backend.InStep k backend') (options : SolverOptions) (log : TranslationLog L)
    (t : Trace) :
    (k.beside (τ × β)).InStep (minimise options backend log t)
      (minimise options backend' log t) := by
  unfold minimise
  cases options.minimisation with
  | recycling => exact inStep_minimiseWith hk hb _ log t
  | naive => exact inStep_minimiseWith hk hb _ log t
  | asFound => exact inStep_pure t

/-- A poll of the stop condition of a pipeline. -/
theorem inStep_poll [StopCondition σ] [StopCondition σ'] (hk : k.Steady) {ρ : Type}
    (phase : Phase) :
    (k.beside ρ).InStep
      (Session.within Prod.snd (fun stop s => (s.1, stop)) (Session.poll phase) :
        Session (Note (Stage L)) Failure (ρ × σ) Unit)
      (Session.within Prod.snd (fun stop s => (s.1, stop)) (Session.poll phase)) := by
  refine inStep_within (Lockstep.inStep_poll hk.toAlike phase) (fun _ _ hs => hs.2) ?_ fun _ h => h
  exact fun _ _ hs _ _ => ⟨fun h => ⟨hs.1, h⟩, fun h => ⟨hs.1, h⟩⟩

/-- **The pipeline runs in lockstep** if its back ends do. -/
theorem inStep_translateAndSolve [StopCondition σ] [StopCondition σ'] (hk : k.Steady)
    (hb : backend.InStep k backend') (translator : Translator L τ) (options : SolverOptions) :
    (translateAndSolve translator backend options).InStep k
      (translateAndSolve translator backend' options) := by
  intro p minimised
  unfold translateAndSolve
  refine inStep_bind (inStep_poll hk .solving) fun _ => ?_
  refine inStep_bind (inStep_translate translator p) fun tr => ?_
  refine inStep_bind (inStep_note _) fun _ => ?_
  refine inStep_bind (inStep_decide hb tr.cnf) fun o => ?_
  cases o with
  | satisfiable a => exact inStep_pure _
  | unsatisfiable t =>
      refine inStep_bind (inStep_note _) fun _ => ?_
      dsimp only
      split
      · refine inStep_bind (inStep_minimise hk hb options tr.log t) fun t' => ?_
        exact inStep_bind (inStep_violation _) fun core => inStep_pure _
      · refine inStep_bind (inStep_pure t) fun t' => ?_
        exact inStep_bind (inStep_violation _) fun core => inStep_pure _

end Pipeline

end ModelFinder
