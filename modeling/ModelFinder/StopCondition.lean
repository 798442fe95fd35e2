import ModelFinder.Failure
import ModelFinder.Session

/-!
# When to give up

A session polls its stop condition at every phase boundary and tells it about every iteration it
has made; the condition answers whether the session should give up.  Conditions have a state of
their own, which counts polls or iterations.

`Composite` builds a condition out of others.  A condition may be optional: one that is there is
asked and told on behalf of the option, and one that is missing never triggers.  Both parts of a
pair are always polled, so a part sees the same calls whether it is alone or in company.
-/

namespace ModelFinder

/-- A condition with state `σ`: `poll` asks whether to give up, `tick` counts an iteration.  A
condition that does not say what it does with iterations ignores them. -/
class StopCondition (σ : Type) where
  poll : σ → Bool × σ
  tick : σ → σ := id

namespace Session

variable {ν σ : Type} [StopCondition σ]

/-- Polls the stop condition and fails if it says so. -/
def poll (phase : Phase) : Session ν Failure σ Unit := fun s =>
  match StopCondition.poll s with
  | (true, s') => ⟨.error (.exhausted phase), s', []⟩
  | (false, s') => ⟨.ok (), s', []⟩

/-- Tells the stop condition that an iteration has been made. -/
def tick : Session ν Failure σ Unit := update StopCondition.tick

end Session

/-! ### Single conditions -/

/-- The condition which never triggers. -/
inductive Indefinite where
  | indefinite

instance : StopCondition Indefinite where
  poll s := (false, s)

/-- Triggers once a number of iterations have been made. -/
structure IterationBudget where
  budget : Nat
  made : Nat := 0

namespace IterationBudget

/-- A budget of at least one iteration. -/
def ofNat (budget : Nat) : Except ConfigurationError IterationBudget :=
  if budget = 0 then .error .emptyBudget else .ok { budget }

instance : StopCondition IterationBudget where
  poll s := (decide (s.budget ≤ s.made), s)
  tick s := { s with made := s.made + 1 }

end IterationBudget

/-- Triggers from the deadline on.  The clock is read once, when the session starts. -/
structure Deadline where
  deadline : Nat
  now : Nat := 0

instance : StopCondition Deadline where
  poll s := (decide (s.deadline ≤ s.now), s)

/-- Counts polls and iterations, and triggers when more polls than the limit have been made. -/
structure PollLimit where
  limit : Option Nat
  polls : Nat := 0
  iterations : Nat := 0

instance : StopCondition PollLimit where
  poll s := (s.limit.any fun n => decide (n < s.polls + 1), { s with polls := s.polls + 1 })
  tick s := { s with iterations := s.iterations + 1 }

/-! ### Composite conditions -/

/-- A tree of conditions: a single one, an optional one that is there or missing, or two
together. -/
inductive Composite (σ : Type) where
  | single (condition : σ)
  | present (condition : Composite σ)
  | absent
  | either (first second : Composite σ)

namespace Composite

variable {σ : Type} [StopCondition σ]

/-- Polls every part; one that triggers is enough.  A missing condition never triggers. -/
def poll : Composite σ → Bool × Composite σ
  | single c => let (b, c) := StopCondition.poll c; (b, single c)
  | present c => let (b, c) := c.poll; (b, present c)
  | absent => (false, absent)
  | either c d =>
    let (b, c) := c.poll
    let (b', d) := d.poll
    (b || b', either c d)

/-- Tells every part about an iteration. -/
def tick : Composite σ → Composite σ
  | single c => single (StopCondition.tick c)
  | present c => present c.tick
  | absent => absent
  | either c d => either c.tick d.tick

instance : StopCondition (Composite σ) := ⟨poll, tick⟩

/-- The single conditions, from left to right. -/
def leaves : Composite σ → List σ
  | single c => [c]
  | present c => c.leaves
  | absent => []
  | either c d => c.leaves ++ d.leaves

end Composite

/-- The conditions of this module in one type. -/
inductive Condition where
  | indefinite (c : Indefinite)
  | budget (c : IterationBudget)
  | deadline (c : Deadline)
  | polls (c : PollLimit)

instance : StopCondition Condition where
  poll
    | .indefinite c => let (b, c) := StopCondition.poll c; (b, .indefinite c)
    | .budget c => let (b, c) := StopCondition.poll c; (b, .budget c)
    | .deadline c => let (b, c) := StopCondition.poll c; (b, .deadline c)
    | .polls c => let (b, c) := StopCondition.poll c; (b, .polls c)
  tick
    | .indefinite c => .indefinite (StopCondition.tick c)
    | .budget c => .budget (StopCondition.tick c)
    | .deadline c => .deadline (StopCondition.tick c)
    | .polls c => .polls (StopCondition.tick c)

end ModelFinder
