import ModelFinder.Decimal

/-!
# Steps of the TraceCheck format

A TraceCheck text has one step a line: the number of the step, its literals and a 0, the numbers of
the steps it was resolved from and another 0.  A step without antecedents is an input clause.
`Step.line` writes a step; `Step.numbered` numbers the clauses of a list 1, 2, ….
-/

namespace ModelFinder.TraceCheck

/-- One line of a trace: a positive number, non-zero literal codes, positive antecedents. -/
structure Step where
  id : Nat
  literals : List Int
  antecedents : List Nat
deriving DecidableEq

namespace Step

/-- Whether the step is an input clause. -/
def isAxiom (s : Step) : Bool := s.antecedents.isEmpty

/-- Whether the step derives the empty clause. -/
def isEmptyClause (s : Step) : Bool := s.literals.isEmpty

/-- The line of a step, with one blank between two numbers. -/
def line (s : Step) : List UInt8 :=
  Decimal.digits s.id
    ++ s.literals.flatMap (fun l => 32 :: Decimal.signedDigits l) ++ [32, 48]
    ++ s.antecedents.flatMap (fun a => 32 :: Decimal.digits a) ++ [32, 48, 10]

/-- Numbers clauses and their antecedents in order, from 1. -/
def numbered (clauses : List (List Int × List Nat)) : List Step :=
  clauses.mapIdx fun i (literals, antecedents) => ⟨i + 1, literals, antecedents⟩

end Step

/-- The text of a list of steps. -/
def text (steps : List Step) : List UInt8 := steps.flatMap Step.line

end ModelFinder.TraceCheck
