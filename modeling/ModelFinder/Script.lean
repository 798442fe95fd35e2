import ModelFinder.Refinement

/-!
# A logic that follows a script

The library does not fix a modelling language.  The logic of this module is the smallest one that
exercises all of it: a formula is a list of clauses and of names of problems, and a `Script` says
what each name is translated to and how the refinement loop fares with it.  The bounds of a problem
are the number of its primary variables.
-/

namespace ModelFinder

namespace Script

/-- A part of a formula: a problem of the script by its name, or a clause. -/
inductive Part where
  | named (name : String)
  | clause (literals : List Literal)
deriving DecidableEq

/-- Parts are written as their name, or as their literals between brackets. -/
def Part.text : Part → String
  | named name => name
  | clause ls => s!"[{Literal.joined ls}]"

/-- A formula is the conjunction of its parts. -/
abbrev Formula := List Part

/-- The logic of scripts; declarations and relations are their names. -/
def logic : Logic := ⟨Formula, Nat, List Literal, String, String⟩

/-- How the values of the logic are written. -/
def writing : logic.Writing where
  formula parts := "+".intercalate (parts.map Part.text)
  bounds := Nat.repr
  model ls := s!"<{Literal.joined ls}>"
  declaration name := name
  relation name := name

/-! ### Scripts -/

/-- What a name is translated to: clauses and records, or a failure. -/
inductive Entry where
  | encoding (clauses : List (List Literal)) (records : List (TranslationRecord logic))
  | failure (reason : String)

/-- An answer of the oracle to the question for a verification problem: a formula, to which the
candidate's literals over some variables are added as unit clauses. -/
structure Check where
  formula : Formula
  fixed : List Variable

/-- An answer of the oracle to the question for a refinement.  `block` excludes the literals that
the candidate and the counterexample have over some variables. -/
inductive Remedy where
  | increment (formula : Formula)
  | split (choices : List (Problem logic))
  | block (candidate counterexample : List Variable)

/-- How the oracle meets formulas that start with a name: each question is answered by the next
entry of a list, and by the last one from then on.  An entry may be a failure. -/
structure Role where
  candidate : Except TranslationFailure Formula
  checks : List (Except TranslationFailure Check)
  remedies : List (Except TranslationFailure Remedy)

/-- The names that questions for checks and for remedies have been asked about, the last one
first. -/
structure History where
  checked : List String := []
  remedied : List String := []

end Script

open Script

/-- What the names of formulas stand for. -/
structure Script where
  entries : List (String × Entry)
  roles : List (String × Role)

namespace Script

/-! ### Translation -/

/-- Adds a part of a formula to a translation. -/
def addPart (script : Script) (t : Translation logic) :
    Part → Except TranslationFailure (Translation logic)
  | .clause ls => .ok { t with cnf.clauses := t.cnf.clauses ++ [ls] }
  | .named name =>
    match script.entries.lookup name with
    | none => .error ⟨s!"unknown problem {name}"⟩
    | some (.failure reason) => .error ⟨reason⟩
    | some (.encoding clauses records) =>
      .ok ⟨{ t.cnf with clauses := t.cnf.clauses ++ clauses }, t.log.recordAll records⟩

/-- The translator of a script.  A model consists of the literals of the primary variables. -/
def translator (script : Script) : Translator logic Unit where
  translate p := do
    Session.note (.milestone (.translatingToCircuit p.formula p.bounds))
    let parts : Formula := p.formula
    let n : Nat := p.bounds
    let t ← Session.ofExcept (parts.foldlM script.addPart ⟨⟨n, []⟩, .empty n⟩)
    Session.note (.milestone .translatingToCnf)
    return t
  interpret t values := values.trueLiterals.take t.log.primary

/-! ### The oracle -/

/-- The name a formula starts with, if its meaning is not first-order, and the role of that name. -/
def role? (script : Script) : Formula → Option (String × Role)
  | .named name :: _ => (script.roles.lookup name).map fun r => (name, r)
  | _ => none

/-- The answer to the question that is asked after `asked` others. -/
def answer {α : Type} (what name : String) (answers : List (Except TranslationFailure α))
    (asked : Nat) : Except TranslationFailure α :=
  match answers[asked]?.or answers.getLast? with
  | some a => a
  | none => .error ⟨s!"no {what} for {name}"⟩

/-- The literals that a model has over some variables, in the order of the variables. -/
def literalsOver (vs : List Variable) (m : List Literal) : List Literal :=
  vs.filterMap fun v => m.find? fun l => decide (l.var = v)

/-- The problem which a check amounts to for a candidate. -/
def Check.problem (c : Check) (bounds : Nat) (m : List Literal) : Problem logic :=
  ⟨c.formula ++ (literalsOver c.fixed m).map fun l => .clause [l], bounds⟩

/-- The refinement which a remedy amounts to for a candidate and a counterexample. -/
def Remedy.refinement (m c : List Literal) : Remedy → Refinement logic
  | increment f => .increment f
  | split choices => .split choices
  | block vs ws => .increment [Part.clause ((literalsOver vs m ++ literalsOver ws c).map (- ·))]

/-- Asks about a formula that has a role. -/
def asking {α : Type} (script : Script) (f : Formula)
    (ask : String → Role → Consultation History α) : Consultation History α :=
  match script.role? f with
  | some (name, r) => ask name r
  | none => Session.fail Oracle.firstOrderFailure

/-- The oracle of a script. -/
def oracle (script : Script) : Oracle logic History where
  isHigherOrder f := (script.role? f).isSome
  candidateProblem p increments := script.asking p.formula fun _ r => do
    let f ← Session.ofExcept r.candidate
    return ⟨f ++ List.flatten increments, p.bounds⟩
  verificationProblem p m := script.asking p.formula fun name r => do
    let asked := (← Session.read).checked
    Session.update fun h => { h with checked := name :: asked }
    let check ← Session.ofExcept (answer "verify" name r.checks (asked.count name))
    return check.problem p.bounds m
  refine p m c := script.asking p.formula fun name r => do
    let asked := (← Session.read).remedied
    Session.update fun h => { h with remedied := name :: asked }
    let remedy ← Session.ofExcept (answer "refine" name r.remedies (asked.count name))
    return remedy.refinement m c

end Script

end ModelFinder
