import ModelFinder.Clause

/-!
# Problems in conjunctive normal form

A `Cnf` is a list of clauses, with the literals as they were given, over at least a declared
number of variables.  An `Assignment` gives a value to the first variables.
-/

namespace ModelFinder

/-- A conjunction of clauses over the variables `1, …, numVariables`. -/
structure Cnf where
  declared : Nat
  clauses : List (List Literal)
deriving DecidableEq

namespace Cnf

/-- The largest variable number in a list of literals, 0 if there is none. -/
def largestIn (ls : List Literal) : Nat := ls.foldl (fun n l => max n l.var.index) 0

/-- The number of variables: those declared, and more if a clause mentions a larger one. -/
def numVariables (cnf : Cnf) : Nat :=
  cnf.clauses.foldl (fun n ls => max n (largestIn ls)) cnf.declared

/-- The number of clauses. -/
def numClauses (cnf : Cnf) : Nat := cnf.clauses.length

end Cnf

/-- The values of the variables 1, 2, …, in this order. -/
structure Assignment where
  values : Array Bool
deriving DecidableEq

namespace Assignment

/-- The number of variables with a value. -/
def numVariables (a : Assignment) : Nat := a.values.size

/-- The value of a variable, if it has one. -/
def value? (a : Assignment) (v : Variable) : Option Bool := a.values[v.slot]?

/-- Whether the literal is true; a literal without a value is not. -/
def satisfies (a : Assignment) (l : Literal) : Bool := a.value? l.var == some l.positive

/-- The true literals, one for each variable with a value. -/
def trueLiterals (a : Assignment) : List Literal :=
  (List.range a.values.size).filterMap fun i => do
    let v ← Variable.ofSlot? i
    let s ← a.values[i]?
    return ⟨v, s⟩

end Assignment

end ModelFinder
