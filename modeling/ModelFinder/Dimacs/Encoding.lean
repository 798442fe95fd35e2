import ModelFinder.Dimacs.AnnotatedCnf
import ModelFinder.Translation

/-!
# DIMACS instances as a modelling language

An instance is in conjunctive normal form already; what its translation adds is the log of roots.
The roots of an annotated instance are those it names, each of which may only occur in clauses of
which it is the largest variable.  In an instance without annotations every clause is a constraint
of its own: clause `C` gets a new variable `s`, and is translated to the unit clause `s` and the
clause `C ∨ ¬s`.
-/

namespace ModelFinder.Dimacs

/-- A whole instance, or one of its top-level constraints, told by its root. -/
inductive Constraint where
  | whole (content : AnnotatedCnf)
  | root (var : Variable) (name : String)
deriving DecidableEq

namespace Constraint

def text : Constraint → String
  | whole content =>
    s!"instance with {content.numVariables} variables and {content.clauses.length} clauses"
  | root v name => s!"{v.index} {name}"

end Constraint

/-- DIMACS instances as a logic: there are no relations to bound or declare, and a model is a list
of literals, one for each variable of the instance. -/
def logic : Logic := ⟨Constraint, Unit, List Literal, Unit, Unit⟩

/-- How constraints and models are written. -/
def writing : logic.Writing where
  formula := Constraint.text
  bounds _ := "()"
  model := Literal.joined
  declaration _ := "()"
  relation _ := "()"

namespace Encoding

/-- The literals of a list of codes. -/
def literals (codes : List Int) : Except TranslationFailure (List Literal) :=
  codes.mapM fun code =>
    match Literal.ofDimacs? code with
    | some l => .ok l
    | none => .error ⟨s!"{code} is not a valid literal"⟩

/-- The record of a root. -/
def record (v : Variable) (name : String) : TranslationRecord logic := ⟨v, .root (.root v name)⟩

/-! ### Without annotations -/

/-- The variable which guards the clause at position `i` of an instance with `n` variables. -/
def selector (n i : Nat) : Except TranslationFailure Variable :=
  match Variable.ofIndex? (n + i + 1) with
  | some v => .ok v
  | none => .error ⟨"too many clauses to guard"⟩

/-- The two clauses for the clause at position `i`, and the record of its root. -/
def guarded (n i : Nat) (codes : List Int) :
    Except TranslationFailure (List (List Literal) × TranslationRecord logic) := do
  let v ← selector n i
  let ls ← literals codes
  return ([[⟨v, true⟩], ls ++ [⟨v, false⟩]], record v s!"clause {i + 1}")

/-- Guards the clauses of an instance, which are at the positions from `i` on. -/
def guardedFrom (n : Nat) : Nat → List (List Int) →
    Except TranslationFailure (List (List Literal) × List (TranslationRecord logic))
  | _, [] => .ok ([], [])
  | i, codes :: rest => do
    let (clauses, record) ← guarded n i codes
    let (moreClauses, records) ← guardedFrom n (i + 1) rest
    return (clauses ++ moreClauses, record :: records)

/-! ### With annotations -/

/-- The largest variable of a clause, 0 if it is empty. -/
def largest (codes : List Int) : Nat := codes.foldl (fun n code => max n code.natAbs) 0

/-- Refuses a clause with a root that is not its largest variable: it would make the clauses of one
root depend on another root. -/
def checkRoots (roots : List RootAnnotation) (codes : List Int) : Except TranslationFailure Unit :=
  let misplaced (code : Int) : Bool :=
    code.natAbs != largest codes && roots.any fun root => root.var == code.natAbs
  match codes.find? misplaced with
  | some code =>
    .error ⟨s!"root variable {code.natAbs} occurs in a clause whose largest variable is " ++
      toString (largest codes)⟩
  | none => .ok ()

/-- Translates a clause of an annotated instance. -/
def clause (roots : List RootAnnotation) (codes : List Int) :
    Except TranslationFailure (List Literal) := do
  checkRoots roots codes
  literals codes

/-- Whether a clause of the instance consists of the root alone. -/
def isAsserted (clauses : List (List Int)) (root : RootAnnotation) : Bool :=
  clauses.any (· == [(root.var : Int)])

/-- The record of an annotation.  A root which is not asserted is remarked on. -/
def annotated (clauses : List (List Int)) (root : RootAnnotation) :
    Session (Note (Stage logic)) TranslationFailure Unit (TranslationRecord logic) := do
  match Variable.ofIndex? root.var with
  | none => Session.fail ⟨"a root variable cannot be 0"⟩
  | some v =>
    if !isAsserted clauses root then Session.note (.remark (.rootNotAsserted v))
    return record v (root.name.getD s!"root {root.var}")

/-! ### The translator -/

/-- Translates an instance. -/
def translate (content : AnnotatedCnf) :
    Session (Note (Stage logic)) TranslationFailure Unit (Translation logic) := do
  Session.note (.milestone .translatingToCnf)
  let n := content.numVariables
  if content.roots.isEmpty then
    let (clauses, records) ← Session.ofExcept (guardedFrom n 0 content.clauses)
    return ⟨⟨n, clauses⟩, .filled n records⟩
  else
    let clauses ← Session.ofExcept (content.clauses.mapM (clause content.roots))
    let records ← content.roots.mapM (annotated content.clauses)
    return ⟨⟨n, clauses⟩, .filled n records⟩

/-- The values of the variables of the instance; a variable without a value counts as false. -/
def interpret (translation : Translation logic) (values : Assignment) : List Literal :=
  (List.range translation.log.primary).filterMap fun i => do
    let v ← Variable.ofSlot? i
    return ⟨v, values.value? v == some true⟩

end Encoding

/-- The translator of DIMACS instances. -/
def translator : Translator logic Unit where
  translate p :=
    match p.formula with
    | .whole content => Encoding.translate content
    | .root _ _ => Session.fail ⟨"only complete instances can be translated"⟩
  interpret := Encoding.interpret

end ModelFinder.Dimacs
