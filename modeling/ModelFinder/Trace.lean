import ModelFinder.Cnf
import ModelFinder.Failure
import ModelFinder.IndexSet
import ModelFinder.Session

/-!
# Refutations by resolution

A `Trace` lists the clauses of a refutation.  Its input clauses come first and have no antecedents;
every other clause is a resolvent, which names the earlier clauses it was resolved from; the last
clause is empty and is called the terminal clause.

A trace is made by a `Trace.Builder`, which refuses additions of the wrong shape and hands out
positions in order, and is finished by `Trace.Builder.build`.  Whether a resolvent follows from its
antecedents is not the builder's business.  An addition is a `Trace.Builder.Action`, which works on
the builder in place.
-/

namespace ModelFinder

/-- A set of positions of a trace. -/
abbrev ClauseSet := IndexSet

/-- A set of variable numbers. -/
abbrev VariableSet := IndexSet

/-- A clause of a trace with its position and the positions it was resolved from. -/
structure TraceClause where
  index : Nat
  clause : Clause
  antecedents : List Nat
deriving DecidableEq

namespace TraceClause

/-- Whether the clause is an input clause, that is, has no antecedents. -/
def isAxiom (c : TraceClause) : Bool := c.antecedents.isEmpty

/-- The variable numbers of the clause. -/
def variableNumbers (c : TraceClause) : List Nat := c.clause.literals.map (·.var.index)

end TraceClause

/-- A refutation: its clauses in order, the first `numAxioms` of which are input clauses. -/
structure Trace where
  clauses : Array TraceClause
  numAxioms : Nat
deriving DecidableEq

namespace Trace

/-- The number of clauses. -/
def size (t : Trace) : Nat := t.clauses.size

/-- The number of derived clauses. -/
def numResolvents (t : Trace) : Nat := t.size - t.numAxioms

/-- The position of the last clause, which is the empty one. -/
def terminal (t : Trace) : Nat := t.size - 1

/-- The clause at a position, if there is one. -/
def get? (t : Trace) (i : Nat) : Option TraceClause := t.clauses[i]?

/-- The clause at a position; a position past the end is refused. -/
def get (t : Trace) (i : Nat) : Except Violation TraceClause :=
  match t.get? i with
  | some c => .ok c
  | none => .error (.noSuchClause i)

/-- The input clauses. -/
def inputs (t : Trace) : List TraceClause := t.clauses.toList.take t.numAxioms

/-- The derived clauses. -/
def derived (t : Trace) : List TraceClause := t.clauses.toList.drop t.numAxioms

/-- Whether the position belongs to an input clause. -/
def isAxiom (t : Trace) (i : Nat) : Bool := decide (i < t.numAxioms)

/-- The positions of the input clauses. -/
def axiomSet (t : Trace) : ClauseSet := .ofList (t.inputs.map (·.index))

/-- The positions of the derived clauses. -/
def resolventSet (t : Trace) : ClauseSet := .ofList (t.derived.map (·.index))

/-- The larger one of two variables that may be missing. -/
def largerVariable (v w : Option Variable) : Option Variable :=
  match v, w with
  | some v, some w => some (if v.index < w.index then w else v)
  | some v, none => some v
  | none, w => w

/-- The largest variable of any clause. -/
def maxVariable? (t : Trace) : Option Variable :=
  t.clauses.toList.foldl (fun v c => largerVariable v c.clause.maxVariable?) none

/-! ### Building a trace -/

/-- A trace under construction. -/
structure Builder where
  clauses : Array TraceClause
  numAxioms : Nat
deriving DecidableEq

namespace Builder

/-- The trace without clauses, from which every construction starts. -/
def empty : Builder := ⟨#[], 0⟩

instance : Inhabited Builder := ⟨empty⟩

/-- The number of clauses so far, which is also the next position. -/
def size (b : Builder) : Nat := b.clauses.size

/-- What is done with a builder.  There is a builder afterwards also when it fails. -/
abbrev Action (α : Type) := Session Empty Violation Builder α

namespace Action

/-- Appends a clause. -/
def push (literals : List Literal) (antecedents : List Nat) : Action TraceClause := do
  let b ← Session.read
  let c : TraceClause := ⟨b.size, .ofList literals, antecedents⟩
  Session.update fun b => { b with clauses := b.clauses.push c }
  return c

/-- Adds an input clause; none may follow a derived clause. -/
def addAxiom (literals : List Literal) : Action TraceClause := do
  let b ← Session.read
  if b.numAxioms < b.size then Session.fail (.axiomAfterResolvent b.size)
  else
    Session.update fun b => { b with numAxioms := b.numAxioms + 1 }
    push literals []

/-- Adds a derived clause; it needs antecedents, and all of them have to be there already. -/
def addResolvent (literals : List Literal) (antecedents : List Nat) : Action TraceClause := do
  let b ← Session.read
  if antecedents.isEmpty then Session.fail (.noAntecedents b.size)
  else
    match antecedents.find? fun a => decide (b.size ≤ a) with
    | some a => Session.fail (.antecedentNotBefore b.size a)
    | none => push literals antecedents

/-- What a successful action answers, and the builder it leaves.  That of a failed one is given
up. -/
def completed {α : Type} (x : Action α) (b : Builder) : Except Violation (α × Builder) :=
  let r := x.run b
  r.answer.map fun a => (a, r.state)

end Action

/-- The builder with one more input clause. -/
def addAxiom (b : Builder) (literals : List Literal) : Except Violation (TraceClause × Builder) :=
  (Action.addAxiom literals).completed b

/-- The builder with one more derived clause. -/
def addResolvent (b : Builder) (literals : List Literal) (antecedents : List Nat) :
    Except Violation (TraceClause × Builder) :=
  (Action.addResolvent literals antecedents).completed b

/-- Finishes the trace, which has to end with the empty clause. -/
def build (b : Builder) : Except Violation Trace :=
  match b.clauses.back? with
  | none => .error .emptyTrace
  | some c =>
    if c.clause.isEmpty then .ok ⟨b.clauses, b.numAxioms⟩ else .error (.missingTerminal c.index)

end Builder

/-- One addition to a trace under construction. -/
inductive Addition where
  | input (literals : List Literal)
  | resolvent (literals : List Literal) (antecedents : List Nat)
deriving DecidableEq

namespace Builder

/-- Makes an addition. -/
def Action.add : Addition → Action TraceClause
  | .input literals => Action.addAxiom literals
  | .resolvent literals antecedents => Action.addResolvent literals antecedents

/-- The builder with one more addition. -/
def add (b : Builder) (a : Addition) : Except Violation (TraceClause × Builder) :=
  (Action.add a).completed b

@[simp] theorem add_input (b : Builder) (literals : List Literal) :
    b.add (.input literals) = b.addAxiom literals := rfl

@[simp] theorem add_resolvent (b : Builder) (literals : List Literal) (antecedents : List Nat) :
    b.add (.resolvent literals antecedents) = b.addResolvent literals antecedents := rfl

/-- Tries to make an addition: the position it gets or why it is refused, and the builder
afterwards. -/
def attempt (b : Builder) (a : Addition) : Except Violation Nat × Builder :=
  let r := (Action.add a).run b
  (r.answer.map (·.index), r.state)

end Builder

/-- The trace made by a list of additions, all of which have to be allowed. -/
def ofAdditions (as : List Addition) : Except Violation Trace := do
  (← as.foldlM (fun b a => return (← b.add a).2) Builder.empty).build

end Trace

end ModelFinder
