import ModelFinder.Refinement

/-!
# Milestones as data

An `Event` is a milestone taken apart: its name and its arguments, each of a `Kind`.  Nothing is
lost on the way: `Milestone.ofEvent?` puts a milestone together again (`Milestone.ofEvent?_event`),
and the arguments of a milestone are of the kinds that belong to its name
(`Milestone.kinds_event`).
-/

namespace ModelFinder

/-- An argument of a milestone. -/
inductive Argument (L : Logic) where
  | number (n : Nat)
  | classes (cs : List (List Nat))
  | formula (f : L.Formula)
  | bounds (b : L.Bounds)
  | model (m : L.Model)
  | outcome (m : Option L.Model)
  | declaration (d : L.Declaration)
  | relation (r : L.Relation)
  | context (ds : List L.Declaration)

/-- What an argument is. -/
inductive Kind where
  | number
  | classes
  | formula
  | bounds
  | model
  | outcome
  | declaration
  | relation
  | context
deriving DecidableEq

/-- The kind of an argument. -/
def Argument.kind {L : Logic} : Argument L → Kind
  | number _ => .number
  | classes _ => .classes
  | formula _ => .formula
  | bounds _ => .bounds
  | model _ => .model
  | outcome _ => .outcome
  | declaration _ => .declaration
  | relation _ => .relation
  | context _ => .context

/-- A milestone by its name and its arguments. -/
structure Event (L : Logic) where
  name : String
  arguments : List (Argument L)

namespace Event

/-- The kinds of the arguments that belong to a name. -/
def kinds? : String → Option (List Kind)
  | "detecting_symmetries" => some [.bounds]
  | "detected_symmetries" => some [.classes]
  | "generating_sbp" => some []
  | "skolemizing" => some [.declaration, .relation, .context]
  | "optimizing_bounds_and_formula" => some []
  | "translating_to_boolean" => some [.formula, .bounds]
  | "translating_to_cnf" => some []
  | "converting_to_nnf" => some []
  | "solving_cnf" => some [.number, .number, .number]
  | "hol_loop_start" => some [.number, .number, .formula, .bounds]
  | "hol_candidate_found" => some [.number, .number, .model]
  | "hol_verifying_candidate" => some [.number, .number, .model, .formula, .bounds]
  | "hol_candidate_verified" => some [.number, .number, .model]
  | "hol_candidate_not_verified" => some [.number, .number, .model, .model]
  | "hol_finding_next_candidate" => some [.number, .number, .formula]
  | "hol_split_start" => some [.number, .number, .formula]
  | "hol_split_choice" => some [.number, .number, .formula, .bounds]
  | "hol_split_choice_sat" => some [.number, .number, .model]
  | "hol_split_choice_unsat" => some [.number, .number]
  | "hol_fixpoint_start" => some [.number, .number]
  | "hol_fixpoint_no_solution" => some [.number, .number]
  | "hol_fixpoint_first_solution" => some [.number, .number, .model]
  | "hol_fixpoint_incrementing" => some [.number, .number, .formula]
  | "hol_fixpoint_incrementing_outcome" => some [.number, .number, .outcome]
  | _ => none

end Event

/-- A stage taken apart. -/
def Stage.event {L : Logic} : Stage L → Event L
  | detectingSymmetries b => ⟨"detecting_symmetries", [.bounds b]⟩
  | detectedSymmetries cs => ⟨"detected_symmetries", [.classes cs]⟩
  | breakingSymmetries => ⟨"generating_sbp", []⟩
  | skolemizing d r ds => ⟨"skolemizing", [.declaration d, .relation r, .context ds]⟩
  | optimizing => ⟨"optimizing_bounds_and_formula", []⟩
  | translatingToCircuit f b => ⟨"translating_to_boolean", [.formula f, .bounds b]⟩
  | translatingToCnf => ⟨"translating_to_cnf", []⟩
  | convertingToNegationNormalForm => ⟨"converting_to_nnf", []⟩
  | solvingCnf p v c => ⟨"solving_cnf", [.number p, .number v, .number c]⟩

namespace Milestone

variable {L : Logic}

/-- An event of the refinement loop, whose first arguments are its place. -/
def located (name : String) (a : LoopStep) (arguments : List (Argument L)) : Event L :=
  ⟨name, .number a.depth :: .number a.iteration :: arguments⟩

/-- A milestone taken apart. -/
def event : Milestone L → Event L
  | stage s => s.event
  | loopStart a p => located "hol_loop_start" a [.formula p.formula, .bounds p.bounds]
  | candidateFound a m => located "hol_candidate_found" a [.model m]
  | verifying a m p =>
    located "hol_verifying_candidate" a [.model m, .formula p.formula, .bounds p.bounds]
  | verified a m => located "hol_candidate_verified" a [.model m]
  | notVerified a m c => located "hol_candidate_not_verified" a [.model m, .model c]
  | findingNext a f => located "hol_finding_next_candidate" a [.formula f]
  | splitStart a f => located "hol_split_start" a [.formula f]
  | splitChoice a p => located "hol_split_choice" a [.formula p.formula, .bounds p.bounds]
  | splitChoiceSat a m => located "hol_split_choice_sat" a [.model m]
  | splitChoiceUnsat a => located "hol_split_choice_unsat" a []
  | fixpointStart a => located "hol_fixpoint_start" a []
  | noSolution a => located "hol_fixpoint_no_solution" a []
  | firstSolution a m => located "hol_fixpoint_first_solution" a [.model m]
  | incrementing a f => located "hol_fixpoint_incrementing" a [.formula f]
  | incrementingOutcome a m => located "hol_fixpoint_incrementing_outcome" a [.outcome m]

/-- The milestone that an event is made of. -/
def ofEvent? : Event L → Option (Milestone L)
  | ⟨"detecting_symmetries", [.bounds b]⟩ => some (.stage (.detectingSymmetries b))
  | ⟨"detected_symmetries", [.classes cs]⟩ => some (.stage (.detectedSymmetries cs))
  | ⟨"generating_sbp", []⟩ => some (.stage .breakingSymmetries)
  | ⟨"skolemizing", [.declaration d, .relation r, .context ds]⟩ =>
    some (.stage (.skolemizing d r ds))
  | ⟨"optimizing_bounds_and_formula", []⟩ => some (.stage .optimizing)
  | ⟨"translating_to_boolean", [.formula f, .bounds b]⟩ =>
    some (.stage (.translatingToCircuit f b))
  | ⟨"translating_to_cnf", []⟩ => some (.stage .translatingToCnf)
  | ⟨"converting_to_nnf", []⟩ => some (.stage .convertingToNegationNormalForm)
  | ⟨"solving_cnf", [.number p, .number v, .number c]⟩ => some (.stage (.solvingCnf p v c))
  | ⟨"hol_loop_start", [.number d, .number i, .formula f, .bounds b]⟩ =>
    some (.loopStart ⟨d, i⟩ ⟨f, b⟩)
  | ⟨"hol_candidate_found", [.number d, .number i, .model m]⟩ => some (.candidateFound ⟨d, i⟩ m)
  | ⟨"hol_verifying_candidate", [.number d, .number i, .model m, .formula f, .bounds b]⟩ =>
    some (.verifying ⟨d, i⟩ m ⟨f, b⟩)
  | ⟨"hol_candidate_verified", [.number d, .number i, .model m]⟩ => some (.verified ⟨d, i⟩ m)
  | ⟨"hol_candidate_not_verified", [.number d, .number i, .model m, .model c]⟩ =>
    some (.notVerified ⟨d, i⟩ m c)
  | ⟨"hol_finding_next_candidate", [.number d, .number i, .formula f]⟩ =>
    some (.findingNext ⟨d, i⟩ f)
  | ⟨"hol_split_start", [.number d, .number i, .formula f]⟩ => some (.splitStart ⟨d, i⟩ f)
  | ⟨"hol_split_choice", [.number d, .number i, .formula f, .bounds b]⟩ =>
    some (.splitChoice ⟨d, i⟩ ⟨f, b⟩)
  | ⟨"hol_split_choice_sat", [.number d, .number i, .model m]⟩ => some (.splitChoiceSat ⟨d, i⟩ m)
  | ⟨"hol_split_choice_unsat", [.number d, .number i]⟩ => some (.splitChoiceUnsat ⟨d, i⟩)
  | ⟨"hol_fixpoint_start", [.number d, .number i]⟩ => some (.fixpointStart ⟨d, i⟩)
  | ⟨"hol_fixpoint_no_solution", [.number d, .number i]⟩ => some (.noSolution ⟨d, i⟩)
  | ⟨"hol_fixpoint_first_solution", [.number d, .number i, .model m]⟩ =>
    some (.firstSolution ⟨d, i⟩ m)
  | ⟨"hol_fixpoint_incrementing", [.number d, .number i, .formula f]⟩ =>
    some (.incrementing ⟨d, i⟩ f)
  | ⟨"hol_fixpoint_incrementing_outcome", [.number d, .number i, .outcome m]⟩ =>
    some (.incrementingOutcome ⟨d, i⟩ m)
  | _ => none

theorem ofEvent?_event (m : Milestone L) : ofEvent? m.event = some m := by
  cases m with
  | stage s => cases s <;> rfl
  | _ => rfl

theorem kinds_event (m : Milestone L) :
    Event.kinds? m.event.name = some (m.event.arguments.map Argument.kind) := by
  cases m with
  | stage s => cases s <;> rfl
  | _ => rfl

end Milestone

end ModelFinder
