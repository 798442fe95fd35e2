import ModelFinder.Trace

/-!
# Which clauses of a refutation belong together

The queries of this module take a set of positions and follow the antecedents of a trace:
`Trace.backwardReachable` to what a clause was derived from, `Trace.reachable` to what was derived
from it, `Trace.learnable` to what can be derived from a set alone.  Antecedents come before their
resolvent, so one pass over the clauses suffices each time.  `Trace.axiomsFor` selects the input
clauses that make up the encoding of given variables.

A set may hold positions past the end of the trace; they are kept and lead nowhere.
-/

namespace ModelFinder

namespace Trace

/-! ### Along the antecedents -/

/-- The clauses of a set and everything they were derived from, in one pass from the last clause
to the first. -/
def backwardReachable (t : Trace) (seed : ClauseSet) : ClauseSet :=
  t.clauses.toList.foldr
    (fun c reached => if reached.contains c.index then reached.insertAll c.antecedents else reached)
    seed

/-- The clauses of a set and everything derived from one of them. -/
def reachable (t : Trace) (seed : ClauseSet) : ClauseSet :=
  t.derived.foldl
    (fun reached c => if c.antecedents.any reached.contains then reached.insert c.index else reached)
    seed

/-- The input clauses the terminal clause is derived from. -/
def core (t : Trace) : ClauseSet := (t.backwardReachable (.ofList [t.terminal])).retain t.isAxiom

/-- The clauses of a set and every derived clause whose antecedents all lie in it. -/
def directlyLearnable (t : Trace) (set : ClauseSet) : ClauseSet :=
  t.derived.foldl
    (fun learned c => if c.antecedents.all set.contains then learned.insert c.index else learned)
    set

/-- The clauses of a set and everything that can be derived from them alone. -/
def learnable (t : Trace) (set : ClauseSet) : ClauseSet :=
  t.derived.foldl
    (fun learned c => if c.antecedents.all learned.contains then learned.insert c.index else learned)
    set

/-! ### By variables -/

/-- The input clauses with their largest variable, those with the larger variable first and
otherwise in the order of the trace.  An empty clause has no place here. -/
def byLargestVariable (t : Trace) : List (Variable × TraceClause) :=
  (t.inputs.filterMap fun c => c.clause.maxVariable?.map fun v => (v, c)).mergeSort
    fun a b => decide (b.1.index ≤ a.1.index)

/-- The input clauses which make up the encoding of the given variables: a clause is taken when its
largest variable is wanted, and its other variables are wanted from then on.  They are smaller, so
that going down by the largest variable sees every clause after all who may want it. -/
def axiomsFor (t : Trace) (wanted : VariableSet) : ClauseSet :=
  (t.byLargestVariable.foldl
    (fun (wanted, taken) (v, c) =>
      if wanted.contains v.index then (wanted.insertAll c.variableNumbers, taken.insert c.index)
      else (wanted, taken))
    (wanted, (∅ : ClauseSet))).2

/-- The variables of the unit clauses in the core.  An encoding asserts each top-level constraint
by a unit clause, so these are the constraints the refutation depends on. -/
def coreUnits (t : Trace) : VariableSet :=
  .ofList <| t.core.toList.filterMap fun i => do
    let c ← t.get? i
    if c.clause.size = 1 then c.clause.maxVariable?.map (·.index) else none

end Trace

end ModelFinder
