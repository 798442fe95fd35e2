import ModelFinder.SlotTable
import ModelFinder.Trace

/-!
# Re-solving a part of a refutation

`Trace.toCnf` turns some clauses of a trace into a problem of their own, in which derived clauses
are recycled as if they were given.  `Trace.splice` takes a refutation of that problem and puts the
derivations of the recycled clauses back, so that the result again starts from input clauses only.
-/

namespace ModelFinder

namespace Trace

/-- The clauses at the given positions as a problem, in increasing order of position. -/
def toCnf (t : Trace) (subset : ClauseSet) : Except Violation Cnf := do
  return ⟨0, ← subset.toList.mapM fun i => return (← t.get i).clause.literals⟩

/-- Adds the clause of `t` at position `old` to a trace under construction, in place of `reduced`,
which has to have the same literals.  Antecedents get the positions that `position` answers. -/
def recycle (t : Trace) (position : Nat → Except Violation Nat) (b : Builder) (old : Nat)
    (reduced : TraceClause) : Except Violation (TraceClause × Builder) := do
  let c ← t.get old
  unless reduced.clause.hasLiterals c.clause.literals do
    throw (.malformed (.axiomLiterals reduced.index old))
  if c.isAxiom then b.addAxiom c.clause.literals
  else b.addResolvent c.clause.literals (← c.antecedents.mapM position)

/-- A trace under construction, and for every position of another trace the one it has got in the
new trace. -/
structure Recycling where
  builder : Builder
  renamed : SlotTable (Option Nat)

namespace Recycling

/-- No position of `t` has got one. -/
def start (t : Trace) : Recycling := ⟨.empty, (SlotTable.ofList []).growTo t.terminal none⟩

/-- The position which the antecedent `a` of the clause at `old` has got. -/
def position (m : Recycling) (old a : Nat) : Except Violation Nat :=
  match m.renamed.get? a with
  | some (some k) => .ok k
  | some none => .error (.antecedentOutside old a)
  | none => .error (.noSuchClause a)

/-- Recycles the clause of `t` at `old`, and notes the position it gets. -/
def step (m : Recycling) (t : Trace) (old : Nat) (reduced : TraceClause) :
    Except Violation Recycling := do
  let (c, b) ← t.recycle (m.position old) m.builder old reduced
  match m.renamed.set? old (some c.index) with
  | some renamed => return ⟨b, renamed⟩
  | none => throw (.noSuchClause old)

end Recycling

/-- Expresses a refutation of `t.toCnf subset` by the clauses of `t`: first the clauses of the
subset, then the derived clauses of `reduced`, which keep their positions. -/
def splice (t : Trace) (subset : ClauseSet) (reduced : Trace) : Except Violation Trace := do
  unless reduced.numAxioms = subset.size do
    throw (.malformed (.axiomCount subset.size reduced.numAxioms))
  let m ← (subset.toList.zip reduced.clauses.toList).foldlM (fun m (old, c) => m.step t old c)
    (Recycling.start t)
  let b ← reduced.derived.foldlM
    (fun b c => return (← b.addResolvent c.clause.literals c.antecedents).2) m.builder
  let spliced ← b.build
  Violation.assert .axiomsKept (decide (spliced.numAxioms ≤ t.numAxioms))
  return spliced

end Trace

end ModelFinder
