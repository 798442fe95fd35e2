import ModelFinder.Journal
import ModelFinder.Session
import ModelFinder.Trace.Reach
import ModelFinder.Translation

/-!
# Which part of a refutation to re-solve next

A `Strategy` proposes candidates: sets of clauses of a refutation that may already be
unsatisfiable.  The two strategies of this module drop one root at a time, in the order of a
`RootPool`; each root of the pool is tried once.

* `Strategy.recycling` proposes the input clauses of the remaining roots together with the
  resolvents that can be learned from them, up to a distance.
* `Strategy.naive` proposes the input clauses alone.
-/

namespace ModelFinder

/-- How many resolution steps away from the input clauses a recycled resolvent may be. -/
inductive ResolutionDistance where
  | bounded (steps : Nat)
  | unbounded
deriving DecidableEq

/-- The distance of a given number of steps, which must not be negative. -/
def ResolutionDistance.ofInt (steps : Int) : Except ConfigurationError ResolutionDistance :=
  if steps < 0 then .error (.negativeDistance steps) else .ok (.bounded steps.toNat)

/-- A source of candidates with state `κ`.  The empty set says that there are no more of them;
`remaining` bounds the number of those that are still to come. -/
structure Strategy (κ : Type) where
  next : Trace → Session Remark Violation κ ClauseSet
  remaining : κ → Nat

/-! ### The roots to try -/

/-- The root variables in the order in which they are tried; those before the cursor have been. -/
structure RootPool where
  roots : List Variable
  cursor : Nat
  cursor_le : cursor ≤ roots.length
deriving DecidableEq

namespace RootPool

/-- The pool of these variables, none of which has been tried. -/
def ofVariables (vs : List Variable) : RootPool := ⟨vs, 0, Nat.zero_le _⟩

/-- The pool of all roots of a log. -/
def ofLog {L : Logic} (log : TranslationLog L) : RootPool := .ofVariables log.rootVars

/-- The variables that have not been tried yet. -/
def remaining (pool : RootPool) : List Variable := pool.roots.drop pool.cursor

/-- Whether all variables have been tried. -/
def isExhausted (pool : RootPool) : Bool := decide (pool.roots.length ≤ pool.cursor)

/-- The pool when all variables have been tried. -/
def spent (pool : RootPool) : RootPool :=
  ⟨pool.roots, pool.roots.length, Nat.le_refl _⟩

/-- The pool after one more variable. -/
def skip (pool : RootPool) (h : pool.cursor < pool.roots.length) : RootPool :=
  ⟨pool.roots, pool.cursor + 1, h⟩

/-- Tries variables in turn, up to one that is relevant: the answer is the other relevant variables
and the rest of the pool.  If there are no others, or no variable is relevant, the pool is spent. -/
def consume (pool : RootPool) (relevant : VariableSet) : Option VariableSet × RootPool :=
  if h : pool.cursor < pool.roots.length then
    match relevant.removePresent pool.roots[pool.cursor].index with
    | (true, others) => if others.isEmpty then (none, pool.spent) else (some others, pool.skip h)
    | (false, relevant) => (pool.skip h).consume relevant
  else (none, pool.spent)
termination_by pool.roots.length - pool.cursor
decreasing_by exact Nat.sub_succ_lt_self _ _ h

@[simp] theorem remaining_ofLog {L : Logic} (log : TranslationLog L) :
    (ofLog log).remaining = log.rootVars := rfl

@[simp] theorem remaining_spent (pool : RootPool) : pool.spent.remaining = [] := List.drop_length

theorem remaining_eq_cons {pool : RootPool} (h : pool.cursor < pool.roots.length) :
    pool.remaining = pool.roots[pool.cursor] :: (pool.skip h).remaining :=
  List.drop_eq_getElem_cons h

theorem isExhausted_iff {pool : RootPool} : pool.isExhausted = true ↔ pool.remaining = [] := by
  rw [isExhausted, decide_eq_true_iff, remaining, List.drop_eq_nil_iff]

/-- A pool without variables to try is spent. -/
theorem spent_eq_self {pool : RootPool} (h : pool.remaining = []) : pool.spent = pool := by
  have hle := of_decide_eq_true (isExhausted_iff.mpr h)
  obtain ⟨roots, cursor, cursor_le⟩ := pool
  obtain rfl : cursor = roots.length := Nat.le_antisymm cursor_le hle
  rfl

end RootPool

namespace Strategy

/-! ### Candidates -/

/-- Refuses a candidate which is empty or reaches up to the terminal clause. -/
def checkCandidate (t : Trace) (candidate : ClauseSet) : Except Violation Unit :=
  if candidate.isEmpty then .error .emptyCandidate
  else if candidate.last?.any fun i => decide (t.terminal ≤ i) then
    .error (.terminalInCandidate t.terminal)
  else .ok ()

/-- Learns from a set step by step, until nothing is learned any more. -/
def learnWithin (t : Trace) : Nat → ClauseSet → ClauseSet
  | 0, set => set
  | n + 1, set =>
    let learned := t.directlyLearnable set
    if learned.size = set.size then set else learnWithin t n learned

/-- The input clauses of the relevant roots and the resolvents within a distance of them.  From as
many steps as there are resolvents on, the distance makes no difference. -/
def clausesFor (distance : ResolutionDistance) (t : Trace) (relevant : VariableSet) :
    Except Violation ClauseSet := do
  let inputs := t.axiomsFor relevant
  let clauses :=
    match distance with
    | .bounded d => if d < t.numResolvents then learnWithin t d inputs else t.learnable inputs
    | .unbounded => t.learnable inputs
  checkCandidate t clauses
  return clauses

/-- Tries the next root the refutation depends on, and proposes what `candidate` makes of the
others. -/
def nextRoot (candidate : Trace → VariableSet → Session Remark Violation RootPool ClauseSet)
    (t : Trace) : Session Remark Violation RootPool ClauseSet := do
  let pool ← Session.read
  if pool.isExhausted then return ∅
  let (others?, pool) := pool.consume t.coreUnits
  Session.update fun _ => pool
  match others? with
  | some others => candidate t others
  | none => return ∅

/-! ### The strategies -/

/-- Recycling core extraction. -/
def recycling (distance : ResolutionDistance) : Strategy RootPool where
  next := nextRoot fun t relevant => do
    let candidate ← Session.ofExcept (clausesFor distance t relevant)
    Session.note (.proposing candidate.size relevant.size)
    return candidate
  remaining pool := pool.remaining.length

/-- Naive core extraction. -/
def naive : Strategy RootPool where
  next := nextRoot fun t relevant => do
    let candidate := t.axiomsFor relevant
    Session.ofExcept (checkCandidate t candidate)
    return candidate
  remaining pool := pool.remaining.length

/-- Proposes the sets of a list in turn. -/
def listed : Strategy (List ClauseSet) where
  next _ := fun sets => ⟨.ok (sets.headD ∅), sets.tail, []⟩
  remaining sets := sets.length

end Strategy

end ModelFinder
