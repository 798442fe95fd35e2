import ModelFinder.Casing
import ModelFinder.Failure

/-!
# What a session tells about itself

A session leaves three kinds of `Note`: the milestones it reaches, `Remark`s on its progress, and
the `Statistic`s of its parts.  A remark is a cause with its numbers; `Remark.record` says how it is
logged.  Statistics are written one a line, with their name in camel case.
-/

namespace ModelFinder

/-! ### Log records -/

/-- How severe a log record is. -/
inductive Level where
  | error
  | warn
  | info
  | debug
  | trace
deriving DecidableEq

namespace Level

/-- The most severe level has the smallest rank. -/
def rank : Level → Nat
  | error => 0
  | warn => 1
  | info => 2
  | debug => 3
  | trace => 4

/-- The name of a level in capitals. -/
def name : Level → String
  | error => "ERROR"
  | warn => "WARN"
  | info => "INFO"
  | debug => "DEBUG"
  | trace => "TRACE"

/-- The level with a name in small letters. -/
def ofName? : String → Option Level
  | "error" => some error
  | "warn" => some warn
  | "info" => some info
  | "debug" => some debug
  | "trace" => some trace
  | _ => none

end Level

/-- A line of a log. -/
structure LogRecord where
  level : Level
  text : String
deriving DecidableEq

/-- Whether a record is shown when everything up to a level is. -/
def LogRecord.shownAt (limit : Level) (r : LogRecord) : Bool := r.level.rank ≤ limit.rank

/-- What a part of a session has to say about its progress. -/
inductive Remark where
  | resolvedOn (pivot : Variable) (resolvent : Nat)
  | replaying (clauses : Nat)
  | proposing (clauses roots : Nat)
  | candidateSatisfiable (clauses : Nat)
  | coreReduced (axioms : Nat)
  | reductionDone (initial final rounds : Nat)
  | refuted (clauses core : Nat)
  | strengthened (depth increment : Nat)
  | splitting (cases depth : Nat)
  | exhausted (phase : Phase)
  | rootNotAsserted (root : Variable)
deriving DecidableEq

namespace Remark

/-- The log record of a remark. -/
def record : Remark → LogRecord
  | resolvedOn v r => ⟨.trace, s!"resolved on {v.text} into {clauseName r}"⟩
  | replaying n => ⟨.info, s!"replaying a refutation of {n} clauses"⟩
  | proposing n m => ⟨.debug, s!"proposing {n} clauses for {m} relevant roots"⟩
  | candidateSatisfiable n => ⟨.debug, s!"candidate of {n} clauses is satisfiable"⟩
  | coreReduced n => ⟨.debug, s!"reduced the core to {n} axioms"⟩
  | reductionDone a b k => ⟨.info, s!"core reduced from {a} to {b} axioms in {k} iterations"⟩
  | refuted n m => ⟨.debug, s!"refuted {n} clauses with a core of {m} axioms"⟩
  | strengthened d i =>
    ⟨.debug, s!"strengthened the candidate problem at depth {d} with increment {i}"⟩
  | splitting n d => ⟨.info, s!"splitting into {n} cases at depth {d}"⟩
  | exhausted phase => ⟨.info, s!"resources were exhausted during {phase.text}"⟩
  | rootNotAsserted v =>
    ⟨.warn, s!"root {v.text} is not asserted by a unit clause and will never be part of a core"⟩

end Remark

/-! ### Statistics -/

/-- A named value. -/
structure Statistic where
  name : String
  value : String
deriving DecidableEq

namespace Statistic

/-- The line of a statistic, after a lead-in. -/
def line (leadIn : String) (s : Statistic) : String := s!"{leadIn} {Casing.camel s.name}={s.value}"

end Statistic

/-- The name under which the statistics of a part are gathered. -/
structure StatisticScope where
  name : String := ""

namespace StatisticScope

/-- The scope whose name joins the given segments. -/
def ofSegments (segments : List String) : StatisticScope := ⟨"_".intercalate segments⟩

/-- The scope nested under a segment. -/
def nested (scope : StatisticScope) (segment : String) : StatisticScope :=
  ⟨scope.name ++ "_" ++ segment⟩

/-- The statistic with the name of the scope. -/
def statistic (scope : StatisticScope) (value : String) : Statistic := ⟨scope.name, value⟩

/-- A statistic for each named value, nested under its name. -/
def group (scope : StatisticScope) (values : List (String × String)) : List Statistic :=
  values.map fun (name, value) => (scope.nested name).statistic value

/-- A statistic for each named counter, nested under its name. -/
def counters (scope : StatisticScope) (values : List (String × Nat)) : List Statistic :=
  scope.group (values.map fun (name, n) => (name, toString n))

end StatisticScope

/-! ### Notes -/

/-- What a session leaves behind, with milestones of type `μ`. -/
inductive Note (μ : Type) where
  | milestone (m : μ)
  | remark (r : Remark)
  | statistic (s : Statistic)

namespace Note

/-- Rewrites milestones. -/
def map {μ μ' : Type} (f : μ → μ') : Note μ → Note μ'
  | milestone m => milestone (f m)
  | remark r => remark r
  | statistic s => statistic s

/-- The milestones among some notes, in order. -/
def milestones {μ : Type} (notes : List (Note μ)) : List μ :=
  notes.filterMap fun
    | milestone m => some m
    | _ => none

section Milestones

variable {μ μ' : Type}

@[simp] theorem milestones_append (notes more : List (Note μ)) :
    milestones (notes ++ more) = milestones notes ++ milestones more := List.filterMap_append

@[simp] theorem milestones_map_map (f : μ → μ') (notes : List (Note μ)) :
    milestones (notes.map (map f)) = (milestones notes).map f := by
  induction notes with
  | nil => rfl
  | cons n notes ih =>
      cases n with
      | milestone m => exact congrArg (f m :: ·) ih
      | remark r => exact ih
      | statistic s => exact ih

@[simp] theorem milestones_map_remark (rs : List Remark) :
    milestones (rs.map remark : List (Note μ)) = [] := by
  induction rs with
  | nil => rfl
  | cons r rs ih => exact ih

end Milestones

/-- The statistics among some notes, in order. -/
def statistics {μ : Type} (notes : List (Note μ)) : List Statistic :=
  notes.filterMap fun
    | statistic s => some s
    | _ => none

/-- The log records of some notes, in order, when milestones are logged by `write`. -/
def records {μ : Type} (write : μ → LogRecord) (notes : List (Note μ)) : List LogRecord :=
  notes.filterMap fun
    | milestone m => some (write m)
    | remark r => some r.record
    | statistic _ => none

end Note

end ModelFinder
