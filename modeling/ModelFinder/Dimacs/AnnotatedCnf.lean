/-!
# Annotated DIMACS instances

What a DIMACS file says: how many variables there are, the clauses as lists of codes, and which
variables are the roots of top-level constraints, possibly with a name.
-/

namespace ModelFinder.Dimacs

/-- A variable that asserts a top-level constraint, and the name of the constraint. -/
structure RootAnnotation where
  var : Nat
  name : Option String
deriving DecidableEq

/-- The content of a DIMACS file. -/
structure AnnotatedCnf where
  numVariables : Nat
  clauses : List (List Int)
  roots : List RootAnnotation
deriving DecidableEq

end ModelFinder.Dimacs
