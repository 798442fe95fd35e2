import ModelFinder.Pipeline

/-!
# Formulas with higher-order quantification

A formula that quantifies over relations is not decided by one call of a first-order pipeline.  The
refinement loop solves a first-order candidate problem, checks the candidate it finds against the
meaning of the formula, and excludes a candidate that fails, either by strengthening the candidate
problem or by splitting the formula into cases, which are solved one level deeper.  The meaning of
formulas is in an `Oracle`.

The loop has no bound of its own: the stop condition is polled before every transition and told
about every increment.  To be a total function it takes a number of rounds, the most transitions
that may follow on each other; when they are used up it ends as `Failure.unfinished`.

Only the core that the loop answers is minimised: verification problems, and all cases of a split
but the last, are decided without.
-/

namespace ModelFinder

/-- How a refuted candidate is excluded: by a formula that strengthens the candidate problem, or by
cases of which one has a model if the formula has. -/
inductive Refinement (L : Logic) where
  | increment (formula : L.Formula)
  | split (choices : List (Problem L))

/-- What an oracle does when it is asked; it leaves no notes. -/
abbrev Consultation (ω α : Type) := Session Empty TranslationFailure ω α

/-- The higher-order meaning of a logic, with state `ω`.

* `candidateProblem p increments` is the first-order problem whose models are the candidates for
  `p`, given the increments so far.
* `verificationProblem p m` is the first-order problem that is unsatisfiable exactly when `m` is a
  model of `p`; a model of it is a counterexample.
* `refine p m c` excludes the candidate `m`, which `c` refutes. -/
structure Oracle (L : Logic) (ω : Type) where
  isHigherOrder : L.Formula → Bool
  candidateProblem : Problem L → List L.Formula → Consultation ω (Problem L)
  verificationProblem : Problem L → L.Model → Consultation ω (Problem L)
  refine : Problem L → L.Model → L.Model → Consultation ω (Refinement L)

namespace Oracle

/-- Why an oracle without higher-order meaning refuses every question. -/
def firstOrderFailure : TranslationFailure := ⟨"the formula has no higher-order quantification"⟩

/-- The oracle of a logic without higher-order quantification. -/
def firstOrder (L : Logic) : Oracle L Unit where
  isHigherOrder _ := false
  candidateProblem _ _ := Session.fail firstOrderFailure
  verificationProblem _ _ := Session.fail firstOrderFailure
  refine _ _ _ := Session.fail firstOrderFailure

end Oracle

/-! ### Milestones -/

/-- The place of a milestone: how deep splits are nested, and how many increments there are. -/
structure LoopStep where
  depth : Nat
  iteration : Nat
deriving DecidableEq

/-- The place after one more increment. -/
def LoopStep.next (place : LoopStep) : LoopStep := { place with iteration := place.iteration + 1 }

/-- What happens while a formula is solved. -/
inductive Milestone (L : Logic) where
  | stage (s : Stage L)
  | loopStart (place : LoopStep) (p : Problem L)
  | candidateFound (place : LoopStep) (candidate : L.Model)
  | verifying (place : LoopStep) (candidate : L.Model) (check : Problem L)
  | verified (place : LoopStep) (candidate : L.Model)
  | notVerified (place : LoopStep) (candidate counterexample : L.Model)
  | findingNext (place : LoopStep) (increment : L.Formula)
  | splitStart (place : LoopStep) (formula : L.Formula)
  | splitChoice (place : LoopStep) (choice : Problem L)
  | splitChoiceSat (place : LoopStep) (model : L.Model)
  | splitChoiceUnsat (place : LoopStep)
  | fixpointStart (place : LoopStep)
  | noSolution (place : LoopStep)
  | firstSolution (place : LoopStep) (model : L.Model)
  | incrementing (place : LoopStep) (increment : L.Formula)
  | incrementingOutcome (place : LoopStep) (outcome : Option L.Model)

/-- The log record of a milestone. -/
def Milestone.record {L : Logic} (w : L.Writing) : Milestone L → LogRecord
  | stage s => s.record w
  | loopStart a p => ⟨.info, s!"[{a.depth}] starting higher-order loop for {w.formula p.formula}"⟩
  | candidateFound a m => ⟨.info, s!"[{a.depth}:{a.iteration}] found candidate {w.model m}"⟩
  | verifying a _ p =>
    ⟨.info, s!"[{a.depth}:{a.iteration}] verifying candidate against {w.formula p.formula}"⟩
  | verified a _ => ⟨.info, s!"[{a.depth}:{a.iteration}] candidate verified"⟩
  | notVerified a _ c => ⟨.info, s!"[{a.depth}:{a.iteration}] candidate refuted by {w.model c}"⟩
  | findingNext a f =>
    ⟨.info, s!"[{a.depth}:{a.iteration}] searching the next candidate under {w.formula f}"⟩
  | splitStart a f => ⟨.info, s!"[{a.depth}] splitting {w.formula f}"⟩
  | splitChoice a p => ⟨.info, s!"[{a.depth}] trying choice {w.formula p.formula}"⟩
  | splitChoiceSat a _ => ⟨.info, s!"[{a.depth}] choice is satisfiable"⟩
  | splitChoiceUnsat a => ⟨.info, s!"[{a.depth}] choice is unsatisfiable"⟩
  | fixpointStart a => ⟨.debug, s!"[{a.depth}] starting fixpoint loop"⟩
  | noSolution a => ⟨.info, s!"[{a.depth}] no candidate exists"⟩
  | firstSolution a _ => ⟨.debug, s!"[{a.depth}] found the first candidate"⟩
  | incrementing a _ => ⟨.debug, s!"[{a.depth}:{a.iteration}] incrementing"⟩
  | incrementingOutcome a (some _) =>
    ⟨.debug, s!"[{a.depth}:{a.iteration}] increment is satisfiable"⟩
  | incrementingOutcome a none =>
    ⟨.debug, s!"[{a.depth}:{a.iteration}] increment is unsatisfiable"⟩

namespace Refinement

/-! ### The loop -/

/-- What the loop has done, in all sessions together. -/
structure Counters where
  candidateSearches : Nat := 0
  verifications : Nat := 0
  increments : Nat := 0
  splits : Nat := 0
  maxDepth : Nat := 0
deriving DecidableEq

/-- The statistics of the loop. -/
def Counters.statistics (k : Counters) : List Statistic :=
  (StatisticScope.ofSegments ["higher", "order"]).counters
    [("num_candidate_searches", k.candidateSearches), ("num_verifications", k.verifications),
      ("num_increments", k.increments), ("num_splits", k.splits), ("max_depth", k.maxDepth)]

/-- The state of the loop: the oracle, the pipeline, the stop condition and the counters. -/
structure State (ω π σ : Type) where
  oracle : ω
  pipeline : π
  stop : σ
  counters : Counters

/-- A run of the loop. -/
abbrev Run (L : Logic) (ω π σ α : Type) := Session (Note (Milestone L)) Failure (State ω π σ) α

/-- What does not change during a session: its problem, its depth, and whether the core it may
answer is minimised. -/
structure Task (L : Logic) where
  problem : Problem L
  depth : Nat
  minimised : Bool

/-- Where a session is. -/
inductive Position (L : Logic) where
  | searching
  | verifying (candidate : L.Model)
  | strengthening (increment : L.Formula)
  | splitting (choices : List (Problem L))

variable {L : Logic} {ω π σ : Type}

/-- Reports a milestone. -/
def reach (m : Milestone L) : Run L ω π σ Unit := Session.note (.milestone m)

/-- Changes the counters. -/
def count (f : Counters → Counters) : Run L ω π σ Unit :=
  Session.update fun s => { s with counters := f s.counters }

/-- Asks the oracle. -/
def consult {α : Type} (x : Consultation ω α) : Run L ω π σ α :=
  Session.within State.oracle (fun oracle s => { s with oracle })
    (x.mapNotes Empty.elim |>.mapFailure .translation)

/-- Asks the pipeline. -/
def decide (pipeline : Pipeline L π σ) (p : Problem L) (minimised : Bool) :
    Run L ω π σ (Verdict L) :=
  Session.within (fun s => (s.pipeline, s.stop)) (fun r s => { s with pipeline := r.1, stop := r.2 })
    ((pipeline.solve p minimised).mapNotes (Note.map Milestone.stage))

/-- Works on the stop condition. -/
def stopping {α : Type} (x : Session (Note (Milestone L)) Failure σ α) : Run L ω π σ α :=
  Session.within State.stop (fun stop s => { s with stop }) x

/-- Solves a problem: the pipeline decides a first-order one, and a session is started with `loop`
for any other. -/
def solveWith (oracle : Oracle L ω) (pipeline : Pipeline L π σ)
    (loop : Task L → LoopStep → Run L ω π σ (Verdict L)) (task : Task L) :
    Run L ω π σ (Verdict L) := do
  if !oracle.isHigherOrder task.problem.formula then
    decide pipeline task.problem task.minimised
  else
    count fun k => { k with maxDepth := max k.maxDepth task.depth }
    let place : LoopStep := ⟨task.depth, 0⟩
    reach (.loopStart place task.problem)
    reach (.fixpointStart place)
    loop task place

/-- Solves the cases of a split one after the other, up to one with a model.  If none has one, the
answer is the core of the last case, which is the only one that is minimised. -/
def tryChoices (solve : Task L → Run L ω π σ (Verdict L)) (task : Task L) (place : LoopStep) :
    List (Problem L) → Option (UnsatCore L) → Run L ω π σ (Verdict L)
  | [], none => Session.fail (.violation .emptySplit)
  | [], some core => return .unsatisfiable core
  | choice :: rest, _ => do
    reach (.splitChoice place choice)
    match ← solve ⟨choice, place.depth + 1, task.minimised && rest.isEmpty⟩ with
    | .satisfiable m =>
      reach (.splitChoiceSat place m)
      return .satisfiable m
    | .unsatisfiable core =>
      reach (.splitChoiceUnsat place)
      tryChoices solve task place rest (some core)

/-- Goes on with a session, for at most the given number of rounds.  Its place counts the increments
on its own. -/
def loop [StopCondition σ] (oracle : Oracle L ω) (pipeline : Pipeline L π σ) :
    Nat → Task L → LoopStep → List L.Formula → Position L → Run L ω π σ (Verdict L)
  | 0, _, _, _, _ => Session.fail .unfinished
  | rounds + 1, task, place, increments, position => do
    stopping (Session.poll .refinement)
    match position with
    | .searching =>
      count fun k => { k with candidateSearches := k.candidateSearches + 1 }
      let p ← consult (oracle.candidateProblem task.problem increments)
      match ← decide pipeline p task.minimised with
      | .unsatisfiable core =>
        reach (if increments.isEmpty then .noSolution place else .incrementingOutcome place none)
        return .unsatisfiable core
      | .satisfiable m =>
        reach (if increments.isEmpty then .firstSolution place m
          else .incrementingOutcome place (some m))
        reach (.candidateFound place m)
        loop oracle pipeline rounds task place increments (.verifying m)
    | .verifying m =>
      count fun k => { k with verifications := k.verifications + 1 }
      let check ← consult (oracle.verificationProblem task.problem m)
      reach (.verifying place m check)
      match ← decide pipeline check false with
      | .unsatisfiable _ =>
        reach (.verified place m)
        return .satisfiable m
      | .satisfiable counterexample =>
        reach (.notVerified place m counterexample)
        match ← consult (oracle.refine task.problem m counterexample) with
        | .increment f => loop oracle pipeline rounds task place increments (.strengthening f)
        | .split choices => loop oracle pipeline rounds task place increments (.splitting choices)
    | .strengthening f =>
      count fun k => { k with increments := k.increments + 1 }
      reach (.findingNext place f)
      reach (.incrementing place f)
      let increments := increments ++ [f]
      let place := place.next
      stopping Session.tick
      Session.note (.remark (.strengthened place.depth place.iteration))
      loop oracle pipeline rounds task place increments .searching
    | .splitting choices =>
      if choices.isEmpty then Session.fail (.violation .emptySplit)
      else
        count fun k => { k with splits := k.splits + 1 }
        reach (.splitStart place task.problem.formula)
        Session.note (.remark (.splitting choices.length place.depth))
        tryChoices
          (solveWith oracle pipeline fun t p => loop oracle pipeline rounds t p [] .searching)
          task place choices none

/-- Solves a problem; sessions have at most the given number of rounds. -/
def solve [StopCondition σ] (oracle : Oracle L ω) (pipeline : Pipeline L π σ) (rounds : Nat)
    (p : Problem L) : Run L ω π σ (Verdict L) :=
  solveWith oracle pipeline (fun t place => loop oracle pipeline rounds t place [] .searching)
    ⟨p, 0, true⟩

end Refinement

end ModelFinder
