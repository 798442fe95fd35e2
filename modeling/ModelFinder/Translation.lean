import ModelFinder.Cnf
import ModelFinder.Journal
import ModelFinder.Session
import Std.Data.TreeMap

/-!
# Formulas and their translation

The library does not look into formulas.  A `Logic` names the types of a modelling language, and a
`Translator` turns a formula under some bounds into a `Translation`: a problem in conjunctive normal
form, and a `TranslationLog` that tells which part of the formula a variable stands for.

A variable that stands for a top-level constraint is a root.  The translator asserts every root by
a unit clause and defines it by clauses in which it is the largest variable, which is how a
refutation is traced back to constraints.
-/

namespace ModelFinder

/-- The types of a modelling language. -/
structure Logic where
  Formula : Type
  Bounds : Type
  Model : Type
  Declaration : Type
  Relation : Type

/-- How the values of a logic are written. -/
structure Logic.Writing (L : Logic) where
  formula : L.Formula → String
  bounds : L.Bounds → String
  model : L.Model → String
  declaration : L.Declaration → String
  relation : L.Relation → String

/-- A formula with the bounds of its relations. -/
structure Problem (L : Logic) where
  formula : L.Formula
  bounds : L.Bounds

/-! ### Milestones of a translation -/

/-- What happens while a first-order problem is translated and solved. -/
inductive Stage (L : Logic) where
  | detectingSymmetries (bounds : L.Bounds)
  | detectedSymmetries (classes : List (List Nat))
  | breakingSymmetries
  | skolemizing (declaration : L.Declaration) (skolem : L.Relation) (context : List L.Declaration)
  | optimizing
  | translatingToCircuit (formula : L.Formula) (bounds : L.Bounds)
  | translatingToCnf
  | convertingToNegationNormalForm
  | solvingCnf (primary total clauses : Nat)

/-- The log record of a stage. -/
def Stage.record {L : Logic} (w : L.Writing) : Stage L → LogRecord
  | detectingSymmetries _ => ⟨.debug, "detecting symmetries"⟩
  | detectedSymmetries classes => ⟨.debug, s!"detected {classes.length} symmetry classes"⟩
  | breakingSymmetries => ⟨.debug, "generating the symmetry breaking predicate"⟩
  | skolemizing d r context =>
    let names := ", ".intercalate (context.map w.declaration)
    ⟨.debug, s!"skolemizing {w.declaration d} as {w.relation r} in context [{names}]"⟩
  | optimizing => ⟨.debug, "optimizing bounds and formula"⟩
  | translatingToCircuit f _ => ⟨.debug, s!"translating {w.formula f} to a boolean circuit"⟩
  | translatingToCnf => ⟨.debug, "translating to CNF"⟩
  | convertingToNegationNormalForm => ⟨.debug, "converting to negation normal form"⟩
  | solvingCnf p v c =>
    ⟨.info, s!"solving CNF with {p} primary variables, {v} variables and {c} clauses"⟩

/-! ### The translation log -/

/-- What a variable stands for. -/
inductive Origin (L : Logic) where
  | declaration (d : L.Declaration)
  | root (f : L.Formula)

/-- A variable and what it stands for. -/
structure TranslationRecord (L : Logic) where
  var : Variable
  origin : Origin L

variable {L : Logic}

/-- Positions under variables. -/
abbrev VariableIndex := Std.TreeMap Variable Nat (compareOn Variable.index)

/-- The index leads every variable to the first of its records. -/
def VariableIndex.LeadsToFirst (index : VariableIndex) (records : List (TranslationRecord L)) :
    Prop :=
  ∀ v, index[v]? = records.findIdx? fun r => decide (r.var = v)

theorem compareOn_index_eq {v w : Variable} : compareOn Variable.index v w = .eq ↔ v = w := by
  rw [compareOn, Nat.compare_eq_eq]
  exact ⟨Variable.ext_index, congrArg _⟩

/-- The position of a record at the end is only entered for a variable that is not there yet. -/
theorem VariableIndex.LeadsToFirst.insertIfNew {index : VariableIndex}
    {records : List (TranslationRecord L)} (h : index.LeadsToFirst records) (v : Variable)
    (o : Origin L) :
    LeadsToFirst (index.insertIfNew v records.length) (records ++ [⟨v, o⟩]) := by
  intro w
  rw [Std.TreeMap.getElem?_insertIfNew, List.findIdx?_append, ← h w]
  simp only [compareOn_index_eq]
  by_cases hvw : v = w
  · subst hvw
    cases hfirst : index[v]? <;> simp [Std.TreeMap.mem_iff_isSome_getElem?, hfirst]
  · simp [hvw]

/-- What the variables stand for, in the order in which it was recorded, with an index.  The first
`primary` variables encode the relations. -/
structure TranslationLog (L : Logic) where
  primary : Nat
  records : List (TranslationRecord L)
  byVariable : VariableIndex
  leadsToFirst : byVariable.LeadsToFirst records

namespace TranslationLog

/-- A log without records. -/
def empty (primary : Nat) : TranslationLog L where
  primary
  records := []
  byVariable := ∅
  leadsToFirst _ := Std.TreeMap.getElem?_emptyc

/-- Records what a variable stands for, after everything that has been recorded before.  A variable
that is in the index stays where it is. -/
def record (log : TranslationLog L) (v : Variable) (o : Origin L) : TranslationLog L where
  primary := log.primary
  records := log.records ++ [⟨v, o⟩]
  byVariable := log.byVariable.insertIfNew v log.records.length
  leadsToFirst := log.leadsToFirst.insertIfNew v o

/-- The log after some more calls of `record`. -/
def recordAll (log : TranslationLog L) (calls : List (TranslationRecord L)) : TranslationLog L :=
  calls.foldl (fun log r => log.record r.var r.origin) log

/-- The log that some calls of `record` make, one after the other. -/
def filled (primary : Nat) (calls : List (TranslationRecord L)) : TranslationLog L :=
  (empty primary).recordAll calls

@[simp] theorem primary_recordAll (log : TranslationLog L) (calls : List (TranslationRecord L)) :
    (log.recordAll calls).primary = log.primary := by
  induction calls generalizing log with
  | nil => rfl
  | cons r calls ih => exact ih (log.record r.var r.origin)

/-- Recording keeps the order of the calls. -/
@[simp] theorem records_recordAll (log : TranslationLog L) (calls : List (TranslationRecord L)) :
    (log.recordAll calls).records = log.records ++ calls := by
  induction calls generalizing log with
  | nil => exact (List.append_nil _).symm
  | cons r calls ih => exact (ih (log.record r.var r.origin)).trans (List.append_assoc ..)

@[simp] theorem primary_filled (primary : Nat) (calls : List (TranslationRecord L)) :
    (filled primary calls).primary = primary := primary_recordAll ..

@[simp] theorem records_filled (primary : Nat) (calls : List (TranslationRecord L)) :
    (filled primary calls).records = calls := records_recordAll ..

/-- The variables of a list without repetitions, each where it occurs first. -/
def distinct : List Variable → List Variable
  | [] => []
  | v :: vs => v :: (distinct vs).filter (· ≠ v)

/-- The variables of the root records among some records, each once, in the order of their first
root record. -/
def rootVarsOf (records : List (TranslationRecord L)) : List Variable :=
  distinct <| records.filterMap fun r =>
    match r.origin with
    | .root _ => some r.var
    | .declaration _ => none

/-- The variables with a root record. -/
def rootVars (log : TranslationLog L) : List Variable := rootVarsOf log.records

/-- The formulas of all root records, in order. -/
def roots (log : TranslationLog L) : List L.Formula :=
  log.records.filterMap fun r =>
    match r.origin with
    | .root f => some f
    | .declaration _ => none

/-- What a variable stands for: the index knows the record to look at. -/
def origin? (log : TranslationLog L) (v : Variable) : Option (Origin L) :=
  log.byVariable[v]?.bind fun i => log.records[i]?.map (·.origin)

/-- The record that the index leads to is the first one of the variable. -/
theorem origin?_eq_find? (log : TranslationLog L) (v : Variable) :
    log.origin? v = (log.records.find? fun r => decide (r.var = v)).map (·.origin) := by
  rw [origin?, log.leadsToFirst v, List.find?_eq_bind_findIdx?_getElem?, Option.map_bind]
  rfl

/-- What a variable stands for; a variable without a record is refused. -/
def origin (log : TranslationLog L) (v : Variable) : Except Violation (Origin L) :=
  match log.origin? v with
  | some o => .ok o
  | none => .error (.unknownVariable v)

/-- The constraint a variable stands for, if it was first recorded as a root. -/
def rootFormula? (log : TranslationLog L) (v : Variable) : Option L.Formula :=
  match log.origin? v with
  | some (.root f) => some f
  | _ => none

/-- The log written out. -/
def text (w : L.Writing) (log : TranslationLog L) : String :=
  let origin : Origin L → String
    | .declaration d => s!"Declaration({w.declaration d})"
    | .root f => s!"Root({w.formula f})"
  let record (r : TranslationRecord L) : String :=
    s!"TranslationRecord \x7b variable: Variable({r.var.index}), origin: {origin r.origin} \x7d"
  let records := ", ".intercalate (log.records.map record)
  s!"TranslationLog \x7b records: [{records}], num_primary_variables: {log.primary} \x7d"

end TranslationLog

/-! ### Translators -/

/-- A problem in conjunctive normal form and what its variables stand for. -/
structure Translation (L : Logic) where
  cnf : Cnf
  log : TranslationLog L

/-- A translator with state `τ`; it reports the stages it goes through. -/
structure Translator (L : Logic) (τ : Type) where
  translate : Problem L → Session (Note (Stage L)) TranslationFailure τ (Translation L)
  interpret : Translation L → Assignment → L.Model

end ModelFinder
