import ModelFinder.Trace.Reach
import ModelFinder.Translation

/-!
# Unsatisfiable cores

An `UnsatCore` names the top-level constraints that a refutation depends on: the roots whose unit
clause is in the core of the refutation, in the order in which the roots were recorded.
-/

namespace ModelFinder

/-- A refutation and the constraints it depends on. -/
structure UnsatCore (L : Logic) where
  trace : Trace
  rootVariables : List Variable
  roots : List L.Formula

namespace UnsatCore

variable {L : Logic}

/-- The core of a refutation.  A root that was first recorded as a declaration has no constraint,
and is refused if the refutation depends on it. -/
def ofTrace (t : Trace) (log : TranslationLog L) : Except Violation (UnsatCore L) := do
  let units := t.coreUnits
  let rootVariables := log.rootVars.filter fun v => units.contains v.index
  let roots ← rootVariables.mapM fun v =>
    match log.rootFormula? v with
    | some f => .ok f
    | none => .error (.conflictingOrigin v)
  return ⟨t, rootVariables, roots⟩

/-- The core written out. -/
def text (w : L.Writing) (core : UnsatCore L) : String :=
  let vars := ", ".intercalate (core.rootVariables.map fun v => s!"Variable({v.index})")
  let roots := ", ".intercalate (core.roots.map w.formula)
  s!"UnsatCore \x7b root_variables: [{vars}], roots: [{roots}], " ++
    s!"trace_size: {core.trace.size} \x7d"

end UnsatCore

end ModelFinder
