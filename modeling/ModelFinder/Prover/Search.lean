import ModelFinder.Journal
import ModelFinder.Prover.Trail
import ModelFinder.StopCondition

/-!
# Satisfiability by search, with refutations

`Prover.solve` decides a problem by trying values, the smallest undecided variable first and false
before true, after assigning whatever the clauses force.  Nothing is learned on the way, so a
refutation is a tree of resolutions: a falsified clause is resolved with the reasons of its forced
literals until only decisions are left, and the refutations of both values of a decision are
resolved on its variable.  A refutation that does not mention the decision refutes both values.

The clauses of the problem are the input clauses of the refutation, in order.
-/

namespace ModelFinder

/-- The answer to a satisfiability problem. -/
inductive SatOutcome where
  | satisfiable (model : Assignment)
  | unsatisfiable (refutation : Trace)
deriving DecidableEq

namespace Prover

/-- What the prover has done, over all its calls. -/
structure Counters where
  decisions : Nat := 0
  conflicts : Nat := 0
  resolvents : Nat := 0
deriving DecidableEq

/-- The statistics of the prover. -/
def Counters.statistics (c : Counters) : List Statistic :=
  (StatisticScope.ofSegments ["resolution", "prover"]).counters
    [("num_decisions", c.decisions), ("num_conflicts", c.conflicts),
      ("num_resolvents", c.resolvents)]

/-- The state of a search: the refutation so far, the counters and the stop condition. -/
structure State (σ : Type) where
  builder : Trace.Builder
  counters : Counters
  stop : σ

/-- A search with stop condition `σ`. -/
abbrev Search (σ α : Type) := Session Remark Failure (State σ) α

/-- What was found below a node of the search tree: values which satisfy all clauses, or a clause
which the decisions leading to the node falsify. -/
inductive Node where
  | model (values : Trail)
  | refuted (c : TraceClause)
deriving DecidableEq

namespace Search

variable {σ : Type}

/-- Works on the refutation. -/
def building {α : Type} (x : Trace.Builder.Action α) : Search σ α :=
  Session.within State.builder (fun builder s => { s with builder })
    (x.mapNotes Empty.elim |>.mapFailure .violation)

/-- Adds an input clause to the refutation. -/
def addAxiom (literals : List Literal) : Search σ TraceClause := building (.addAxiom literals)

/-- Adds a resolvent to the refutation. -/
def addResolvent (literals : List Literal) (antecedents : List Nat) : Search σ TraceClause :=
  building (.addResolvent literals antecedents)

/-- Finishes the refutation. -/
def finish : Search σ SatOutcome := fun s =>
  match s.builder.build with
  | .ok t => ⟨.ok (.unsatisfiable t), s, []⟩
  | .error e => ⟨.error (.violation e), s, []⟩

/-- Refuses to go on unless an assertion holds. -/
def assert (assertion : Assertion) (holds : Bool) : Search σ Unit :=
  Session.ofExcept ((Violation.assert assertion holds).mapError .violation)

/-- Changes the counters. -/
def count (f : Counters → Counters) : Search σ Unit :=
  Session.update fun s => { s with counters := f s.counters }

/-- Polls the stop condition. -/
def poll [StopCondition σ] : Search σ Unit :=
  Session.within State.stop (fun stop s => { s with stop }) (Session.poll .solving)

/-- Derives a clause that the decisions on the trail falsify from one that the trail falsifies. -/
def explain (trail : Trail) (conflict : TraceClause) : Search σ TraceClause := do
  match Trail.resolveBack trail.entries conflict.clause with
  | (_, []) => return conflict
  | (c, used) =>
    count fun k => { k with resolvents := k.resolvents + 1 }
    addResolvent c.literals (conflict.index :: used)

/-- Resolves the refutations of both values of a variable. -/
def merge (v : Variable) (c d : TraceClause) : Search σ TraceClause := do
  count fun k => { k with resolvents := k.resolvents + 1 }
  let others := (c.clause.literals ++ d.clause.literals).filter (·.var ≠ v)
  let r ← addResolvent others [c.index, d.index]
  Session.note (.resolvedOn v r.index)
  return r

/-- Searches below a node.  Every decision gives a value to a variable without one, so `bound`, the
number of decisions that may still be made, is enough if it is the number of those variables. -/
def search [StopCondition σ] (clauses : List TraceClause) (bound : Nat) (trail : Trail) :
    Search σ Node := do
  poll
  match trail.propagate clauses with
  | (some conflict, trail) =>
    count fun k => { k with conflicts := k.conflicts + 1 }
    return .refuted (← explain trail conflict)
  | (none, trail) =>
    match trail.firstUndecided?, bound with
    | some v, bound + 1 =>
      count fun k => { k with decisions := k.decisions + 1 }
      match ← search clauses bound (trail.assign ⟨v, false⟩ none) with
      | .model values => return .model values
      | .refuted c =>
        if !c.clause.contains ⟨v, true⟩ then return .refuted c
        match ← search clauses bound (trail.assign ⟨v, true⟩ none) with
        | .model values => return .model values
        | .refuted d =>
          if !d.clause.contains ⟨v, false⟩ then return .refuted d
          return .refuted (← merge v c d)
    | _, _ => return .model trail

/-- Adds the clauses of a problem to the refutation, up to the first empty one.  The answer is that
clause if there is one, and the clauses to search, which are those that are not tautologies. -/
def addAxioms : List (List Literal) → Search σ (Option TraceClause × List TraceClause)
  | [] => return (none, [])
  | literals :: rest => do
    let c ← addAxiom literals
    if c.clause.isEmpty then return (some c, [])
    let (empty, clauses) ← addAxioms rest
    return (empty, if c.clause.isTautology then clauses else c :: clauses)

/-- Decides a problem, starting from an empty refutation. -/
def answer [StopCondition σ] (cnf : Cnf) : Search σ SatOutcome := do
  match ← addAxioms cnf.clauses with
  | (some c, _) =>
    let _ ← addResolvent [] [c.index]
    finish
  | (none, clauses) =>
    match ← search clauses cnf.numVariables (.initial cnf.numVariables) with
    | .model trail =>
      assert .modelSatisfies (cnf.clauses.all fun ls => ls.any trail.assignment.satisfies)
      return .satisfiable trail.assignment
    | .refuted c =>
      assert .refutationEmpty c.clause.isEmpty
      if c.index + 1 ≠ (← Session.read).builder.size then
        let _ ← addResolvent [] [c.index]
      finish

end Search

/-- Decides a problem; the counters go on from earlier calls. -/
def solve {σ : Type} [StopCondition σ] (cnf : Cnf) :
    Session Remark Failure (Counters × σ) SatOutcome :=
  Session.within (fun (counters, stop) => (⟨.empty, counters, stop⟩ : State σ))
    (fun s _ => (s.counters, s.stop)) (Search.answer cnf)

end Prover

end ModelFinder
