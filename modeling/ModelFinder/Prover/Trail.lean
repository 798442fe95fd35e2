import ModelFinder.Trace

/-!
# The trail of a search

A `Trail` holds the values that a search has given to the variables so far, together with the
order in which it gave them and the clause that forced each value.  A trail is a value: a search
that comes back to an earlier point goes on with the trail it had there.

`Trail.propagate` assigns the literals that the clauses force until nothing is forced any more or
a clause is falsified.
-/

namespace ModelFinder.Prover

/-- A literal which was made true; a decision has no clause which forced it. -/
structure Assigned where
  literal : Literal
  reason : Option TraceClause
deriving DecidableEq

/-- The values of the variables 1, 2, … and the assignments that led to them, the last one first. -/
structure Trail where
  values : Array (Option Bool)
  entries : List Assigned
deriving DecidableEq

/-- What a trail says about a clause. -/
inductive ClauseState where
  | satisfied
  | falsified
  | forced (l : Literal)
  | undetermined
deriving DecidableEq

namespace Trail

/-- The trail on which none of `n` variables has a value. -/
def initial (n : Nat) : Trail := ⟨Array.replicate n none, []⟩

/-- The truth of a literal, if its variable has a value. -/
def value? (t : Trail) (l : Literal) : Option Bool :=
  (t.values[l.var.slot]?.join).map (· == l.positive)

/-- Makes a literal true. -/
def assign (t : Trail) (l : Literal) (reason : Option TraceClause) : Trail :=
  ⟨t.values.setIfInBounds l.var.slot (some l.positive), ⟨l, reason⟩ :: t.entries⟩

/-- The number of variables without a value. -/
def undecided (t : Trail) : Nat := t.values.countP Option.isNone

/-- The first variable without a value. -/
def firstUndecided? (t : Trail) : Option Variable :=
  (t.values.findIdx? Option.isNone).bind Variable.ofSlot?

/-- The values, with false for every variable that has none. -/
def assignment (t : Trail) : Assignment := ⟨t.values.map (·.getD false)⟩

/-! ### Propagation -/

/-- The state of a clause: it is satisfied by a true literal, falsified if all literals are false,
and forces the only literal which is left if all others are false. -/
def state (t : Trail) (c : Clause) : ClauseState :=
  if c.literals.any fun l => t.value? l == some true then .satisfied
  else
    match c.literals.filter fun l => t.value? l == none with
    | [] => .falsified
    | [l] => .forced l
    | _ => .undetermined

/-- Goes through the clauses once, assigning what they force at that time, up to a falsified
clause. -/
def pass : List TraceClause → Trail → Option TraceClause × Trail
  | [], t => (none, t)
  | c :: cs, t =>
    match t.state c.clause with
    | .falsified => (some c, t)
    | .forced l => pass cs (t.assign l (some c))
    | _ => pass cs t

/-- Repeats passes while they assign something, at most `n` times more than once.  As every
assignment takes a variable without a value, the number of these is bound enough. -/
def propagateUpTo (clauses : List TraceClause) : Nat → Trail → Option TraceClause × Trail
  | 0, t => pass clauses t
  | n + 1, t =>
    match pass clauses t with
    | (some c, t') => (some c, t')
    | (none, t') =>
      if t'.entries.length = t.entries.length then (none, t') else propagateUpTo clauses n t'

/-- Assigns everything the clauses force, or stops at a clause which is falsified. -/
def propagate (clauses : List TraceClause) (t : Trail) : Option TraceClause × Trail :=
  propagateUpTo clauses t.undecided t

/-! ### Explaining a conflict -/

/-- Resolves forced literals out of a clause, going back along the trail; the result is the clause
that is left and the positions of the reasons in the order of their use. -/
def resolveBack : List Assigned → Clause → Clause × List Nat
  | [], c => (c, [])
  | ⟨l, some reason⟩ :: entries, c =>
    if c.contains (-l) then
      let (d, used) := resolveBack entries (c.resolve reason.clause l)
      (d, reason.index :: used)
    else resolveBack entries c
  | ⟨_, none⟩ :: entries, c => resolveBack entries c

end Trail

end ModelFinder.Prover
