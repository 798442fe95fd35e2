import ModelFinder.Pipeline
import ModelFinder.Proofs.Session.Accounts

/-!
# Iterations of reductions

A reduction makes one iteration for each candidate that it re-solves.  It polls its stop condition
before it starts with a candidate and ticks after it is done with it, so that no iteration is made
which is not left (`Reduction.covers_minimiseCore`).  What the pipeline does beside reductions makes
no iterations (`Pipeline.covers_translateAndSolve`).

Strategies do not speak for the reduction (`Strategy.Silent`).  A translator might leave remarks on
candidates, or announce calls of the back end; if it does not (`Translator.Silent`), the notes of the
pipeline tell of its iterations and of nothing else.
-/

namespace ModelFinder

open Books Session StopCondition

/-! ### Strategies -/

namespace Strategy

/-- The strategy does not speak for the reduction. -/
def Silent {κ : Type} (strategy : Strategy κ) : Prop :=
  ∀ t, (strategy.next t).KeepsTo (Remark.discretion κ)

theorem keepsTo_nextRoot
    {candidate : Trace → VariableSet → Session Remark Violation RootPool ClauseSet}
    (h : ∀ t others, (candidate t others).KeepsTo (Remark.discretion RootPool)) (t : Trace) :
    (nextRoot candidate t).KeepsTo (Remark.discretion RootPool) := by
  unfold nextRoot
  refine keepsTo_read.bind fun pool => ?_
  split
  · exact keepsTo_pure ∅
  · refine (keepsTo_update fun _ => trivial).bind fun _ => ?_
    split
    · exact h t _
    · exact keepsTo_pure ∅

theorem silent_recycling (distance : ResolutionDistance) : (recycling distance).Silent :=
  keepsTo_nextRoot fun _ _ => (keepsTo_ofExcept _).bind fun _ =>
    (keepsTo_note rfl).bind fun _ => keepsTo_pure _

theorem silent_naive : naive.Silent :=
  keepsTo_nextRoot fun _ _ => (keepsTo_ofExcept _).bind fun _ => keepsTo_pure _

end Strategy

variable {β σ : Type} {backend : Backend β σ} {script : Cnf → β × σ → List Call} {precise : Prop}

/-! ### Reductions -/

namespace Reduction

variable {κ : Type} {tally : Tally Empty}

/-- The books of a reduction. -/
def books (κ : Type) (backend : Backend β σ) (script : Cnf → β × σ → List Call)
    (tally : Tally Empty) (precise : Prop) : Books (State κ β σ) Empty β σ :=
  ⟨backend, script, tally, precise, fun s => (s.backend, s.stop)⟩

theorem stops : (books κ backend script tally precise).Stops State.stop
    (fun stop s => { s with stop }) :=
  ⟨fun _ => rfl, fun _ _ => rfl⟩

theorem calls : (books κ backend script tally precise).Calls (fun s => (s.backend, s.stop))
    (fun r s => { s with backend := r.1, stop := r.2 }) :=
  ⟨fun _ => rfl, fun _ _ => rfl⟩

theorem keepsTo_propose {strategy : Strategy κ} (h : strategy.Silent) (t : Trace) :
    (propose strategy t).KeepsTo (books κ backend script tally precise).silence := by
  refine fun s => ⟨rfl, fun n hn => ?_⟩
  obtain ⟨r, hr, rfl⟩ := List.mem_map.mp hn
  exact Tally.ignores_remark ((h t s.strategy).2 r hr)

variable [StopCondition σ]

/-- What is done with the answer to a candidate, up to the tick. -/
def settle (t : Trace) (candidate : ClauseSet) (k : Counters) :
    SatOutcome → Run κ β σ (Trace × Counters)
  | .satisfiable _ => do
    Session.note (.remark (.candidateSatisfiable candidate.size))
    stopping Session.tick
    return (t, k)
  | .unsatisfiable reduced => do
    let t ← expecting (t.splice candidate reduced)
    Session.note (.remark (.coreReduced t.core.size))
    stopping Session.tick
    return (t, { k with unsatisfiable := k.unsatisfiable + 1 })

theorem settles_settle (t : Trace) (candidate : ClauseSet) (k : Counters) (o : SatOutcome) :
    (books κ backend script tally precise).Settles (settle t candidate k o) := by
  cases o with
  | satisfiable => exact settles_candidate stops rfl _
  | unsatisfiable reduced =>
      exact Settles.ofExcept_bind (fun t => settles_candidate stops rfl _) _

/-- An attempt and the tick after it. -/
theorem attempt_tick (t : Trace) (candidate : ClauseSet) (k : Counters) :
    (do
      let r ← attempt backend t candidate k
      stopping Session.tick
      return r : Run κ β σ (Trace × Counters)) = (do
      let cnf ← expecting (t.toCnf candidate)
      resolve backend cnf >>= settle t candidate { k with candidates := k.candidates + 1 }) := by
  unfold attempt
  simp only [bind_assoc]
  refine bind_congr fun cnf => bind_congr fun o => ?_
  cases o <;> simp only [settle, bind_assoc, pure_bind]

theorem covers_attempt (hbackend : backend.Follows script) (t : Trace) (candidate : ClauseSet)
    (k : Counters) : (books κ backend script tally precise).Covers 1 (do
      let r ← attempt backend t candidate k
      stopping Session.tick
      return r) := by
  rw [attempt_tick]
  refine covers_silence_bind ((keepsTo_ofExcept _).mapFailure _) fun cnf => ?_
  exact covers_candidate calls hbackend cnf (settles_settle t candidate _)

theorem covers_rounds (hbackend : backend.Follows script) {strategy : Strategy κ}
    (hstrategy : strategy.Silent) (n : Nat) (t : Trace) (k : Counters) :
    (books κ backend script tally precise).Covers 0 (rounds strategy backend n t k) := by
  induction n generalizing t k with
  | zero => exact covers_of_silence (keepsTo_fail _)
  | succ n ih =>
      unfold rounds
      refine covers_silence_bind (keepsTo_propose hstrategy t) fun candidate => ?_
      split
      · exact covers_of_silence (keepsTo_pure _)
      · refine Covers.poll_bind stops ?_
        have hattempt : (books κ backend script tally precise).Covers 1 _ :=
          covers_attempt hbackend t candidate k
        have hround := hattempt.bind fun r => ih r.1 r.2
        simpa only [bind_assoc, pure_bind] using hround

/-- **A reduction makes no more iterations than are left**, one for each candidate. -/
theorem covers_minimiseCore (hbackend : backend.Follows script) {strategy : Strategy κ}
    (hstrategy : strategy.Silent) (t : Trace) :
    (books κ backend script tally precise).Covers 0 (minimiseCore strategy backend t) := by
  unfold minimiseCore
  refine covers_silence_bind keepsTo_read fun s => ?_
  refine (covers_rounds hbackend hstrategy _ t {}).bind fun r => ?_
  refine covers_silence_bind (keepsTo_note (Tally.counts_remark _)) fun _ => ?_
  have hstatistics : ∀ s : Statistic, (Session.note (.statistic s) : Run κ β σ Unit).KeepsTo
      (books κ backend script tally precise).silence := fun s =>
    keepsTo_note (Tally.counts_of_eq rfl rfl rfl)
  exact covers_silence_bind (KeepsTo.forM hstatistics _) fun _ => covers_of_silence (keepsTo_pure _)

end Reduction

/-! ### The pipeline -/

/-- Only the calls of the back end are counted; the pipeline makes no increments. -/
def Stage.tally (L : Logic) : Tally (Stage L) where
  increment _ := false
  announcement
    | .solvingCnf _ _ _ => true
    | _ => false

/-- The translator reports nothing that is counted. -/
def Translator.Silent {L : Logic} {τ : Type} (translator : Translator L τ) : Prop :=
  ∀ p t, ∀ n ∈ (translator.translate p t).notes, (Stage.tally L).Ignores True [n]

namespace Pipeline

variable {L : Logic} {τ : Type}

/-- The books of a pipeline with a translator. -/
def books (L : Logic) (τ : Type) (backend : Backend β σ) (script : Cnf → β × σ → List Call)
    (precise : Prop) : Books ((τ × β) × σ) (Stage L) β σ :=
  ⟨backend, script, Stage.tally L, precise, fun s => (s.1.2, s.2)⟩

theorem stops : (books L τ backend script precise).Stops Prod.snd (fun stop s => (s.1, stop)) :=
  ⟨fun _ => rfl, fun _ _ => rfl⟩

theorem calls : (books L τ backend script precise).Calls (fun s => (s.1.2, s.2))
    (fun r s => ((s.1.1, r.1), r.2)) :=
  ⟨fun _ => rfl, fun _ _ => rfl⟩

/-- A translator makes no increments, whatever it reports. -/
theorem keepsTo_translate {translator : Translator L τ} (h : precise → translator.Silent)
    (p : Problem L) :
    (translate translator p).KeepsTo (books L τ backend script precise).silence := by
  refine fun s => ⟨rfl, fun n hn => ⟨?_, Nat.zero_le _, Nat.zero_le _, fun hprecise => ?_⟩⟩
  · exact List.countP_eq_zero.mpr fun _ _ => Bool.false_ne_true
  · exact (h hprecise p s.1.1 n hn).eq_of_precise trivial

variable [StopCondition σ]

theorem covers_minimiseWith (hbackend : backend.Follows script) {strategy : Strategy RootPool}
    (hstrategy : strategy.Silent) (log : TranslationLog L) (t : Trace) :
    (books L τ backend script precise).Covers 0 (minimiseWith strategy backend log t) := by
  have h : (Reduction.books RootPool backend script ((Stage.tally L).comap Empty.elim)
      precise).Covers 0 _ := Reduction.covers_minimiseCore hbackend hstrategy t
  exact Covers.within (Covers.mapNotes h (B := ⟨backend, script, Stage.tally L, precise, _⟩)) rfl
    (fun _ => rfl) fun _ _ => rfl

theorem covers_minimise (hbackend : backend.Follows script) (options : SolverOptions)
    (log : TranslationLog L) (t : Trace) :
    (books L τ backend script precise).Covers 0 (minimise options backend log t) := by
  unfold minimise
  cases options.minimisation with
  | recycling => exact covers_minimiseWith hbackend (Strategy.silent_recycling _) log t
  | naive => exact covers_minimiseWith hbackend Strategy.silent_naive log t
  | asFound => exact covers_of_silence (keepsTo_pure t)

/-- **The pipeline makes no more iterations than are left**, all of them in reductions. -/
theorem covers_translateAndSolve (hbackend : backend.Follows script) {translator : Translator L τ}
    (htranslator : precise → translator.Silent) (options : SolverOptions) (p : Problem L)
    (minimised : Bool) :
    (books L τ backend script precise).Covers 0
      ((translateAndSolve translator backend options).solve p minimised) := by
  unfold translateAndSolve
  refine Covers.poll_bind stops (Covers.mono ?_ (Nat.zero_le 1))
  refine covers_silence_bind (keepsTo_translate htranslator p) fun tr => ?_
  dsimp only
  rw [← bind_assoc]
  refine (covers_announced calls hbackend rfl rfl tr.cnf).bind fun o => ?_
  cases o with
  | satisfiable => exact covers_of_silence (keepsTo_pure _)
  | unsatisfiable t =>
      refine covers_silence_bind (keepsTo_note (Tally.counts_remark _)) fun _ => ?_
      have hcore (t : Trace) : (books L τ backend script precise).Covers 0 (do
          let core ← Session.mapFailure .violation
            (Session.ofExcept (UnsatCore.ofTrace t tr.log))
          return Verdict.unsatisfiable core : Run L τ β σ (Verdict L)) :=
        covers_silence_bind ((keepsTo_ofExcept _).mapFailure _) fun core =>
          covers_of_silence (keepsTo_pure _)
      cases minimised with
      | true => exact (covers_minimise hbackend options tr.log t).bind hcore
      | false => exact covers_silence_bind (keepsTo_pure t) hcore

end Pipeline

end ModelFinder
