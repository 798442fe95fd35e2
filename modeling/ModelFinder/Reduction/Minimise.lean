import ModelFinder.Backend
import ModelFinder.Reduction.Strategy
import ModelFinder.Trace.Splice

/-!
# Reducing the core of a refutation

`minimiseCore` re-solves the candidates of a strategy.  A candidate that turns out satisfiable is
dropped; the refutation of one that does not is spliced into the current refutation, which it
replaces.  The reduction is over when the strategy has no more candidates.
-/

namespace ModelFinder

namespace Reduction

/-- The state of a reduction: its strategy, the back end and the stop condition. -/
structure State (κ β σ : Type) where
  strategy : κ
  backend : β
  stop : σ

/-- A reduction; it has no milestones of its own. -/
abbrev Run (κ β σ α : Type) := Session (Note Empty) Failure (State κ β σ) α

/-- What a reduction has done. -/
structure Counters where
  candidates : Nat := 0
  unsatisfiable : Nat := 0
deriving DecidableEq

variable {κ β σ : Type}

/-- Asks the strategy for a candidate. -/
def propose (strategy : Strategy κ) (t : Trace) : Run κ β σ ClauseSet :=
  Session.within State.strategy (fun k s => { s with strategy := k })
    ((strategy.next t).mapNotes Note.remark |>.mapFailure .violation)

/-- Asks the back end. -/
def resolve (backend : Backend β σ) (cnf : Cnf) : Run κ β σ SatOutcome :=
  Session.within (fun s => (s.backend, s.stop)) (fun (b, stop) s => { s with backend := b, stop })
    ((backend.solve cnf).mapNotes Note.remark)

/-- Works on the stop condition. -/
def stopping {α : Type} (x : Session (Note Empty) Failure σ α) : Run κ β σ α :=
  Session.within State.stop (fun stop s => { s with stop }) x

/-- Something that may violate a promise. -/
def expecting {α : Type} (x : Except Violation α) : Run κ β σ α :=
  Session.mapFailure .violation (Session.ofExcept x)

/-- Re-solves one candidate; the answer is the refutation to go on with. -/
def attempt (backend : Backend β σ) (t : Trace) (candidate : ClauseSet) (k : Counters) :
    Run κ β σ (Trace × Counters) := do
  let k := { k with candidates := k.candidates + 1 }
  let cnf ← expecting (t.toCnf candidate)
  match ← resolve backend cnf with
  | .satisfiable _ =>
    Session.note (.remark (.candidateSatisfiable candidate.size))
    return (t, k)
  | .unsatisfiable reduced =>
    let t ← expecting (t.splice candidate reduced)
    Session.note (.remark (.coreReduced t.core.size))
    return (t, { k with unsatisfiable := k.unsatisfiable + 1 })

/-- Re-solves candidates until there are none, at most `rounds` of them. -/
def rounds [StopCondition σ] (strategy : Strategy κ) (backend : Backend β σ) :
    Nat → Trace → Counters → Run κ β σ (Trace × Counters)
  | 0, _, _ => Session.fail .unfinished
  | n + 1, t, k => do
    let candidate ← propose strategy t
    if candidate.isEmpty then return (t, k)
    stopping (Session.poll .reduction)
    let (t, k) ← attempt backend t candidate k
    stopping Session.tick
    rounds strategy backend n t k

/-- The statistics of a reduction, given the sizes of the first and the last core. -/
def Counters.statistics (k : Counters) (initial final : Nat) : List Statistic :=
  (StatisticScope.ofSegments ["core", "reduction"]).counters
    [("num_candidates", k.candidates), ("num_unsatisfiable_candidates", k.unsatisfiable),
      ("initial_core_size", initial), ("final_core_size", final)]

end Reduction

open Reduction in
/-- Reduces the core of a refutation as far as a strategy goes. -/
def minimiseCore {κ β σ : Type} [StopCondition σ] (strategy : Strategy κ) (backend : Backend β σ)
    (t : Trace) : Run κ β σ Trace := do
  let bound := strategy.remaining (← Session.read).strategy + 1
  let initial := t.core.size
  let (t, k) ← rounds strategy backend bound t {}
  let final := t.core.size
  Session.note (.remark (.reductionDone initial final k.candidates))
  (k.statistics initial final).forM fun s => Session.note (.statistic s)
  return t

end ModelFinder
