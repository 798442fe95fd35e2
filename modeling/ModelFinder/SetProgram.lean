import ModelFinder.BitSet

/-!
# Programs over sets

A program works on any number of sets with names.  It makes sets, changes them and asks about them
(`SetCommand`), and `SetCommand.run` tells what it is answered.  How the sets are kept is left open
(`SetOperations`).
-/

namespace ModelFinder

/-- A step of a program over sets. -/
inductive SetCommand (ν : Type) where
  | new (a : ν)
  | withCapacity (a : ν) (capacity : Nat)
  | ofKeys (a : ν) (ks : List Nat)
  | extend (a : ν) (ks : List Nat)
  | insert (a : ν) (k : Nat)
  | remove (a : ν) (k : Nat)
  | clear (a : ν)
  | retain (a : ν) (keep : List Nat → Nat → Bool)
  | union (a b : ν)
  | intersect (a b : ν)
  | copy (a b : ν)
  | contains (a : ν) (k : Nat)
  | size (a : ν)
  | isEmpty (a : ν)
  | first (a : ν)
  | last (a : ν)
  | keys (a : ν)
  | isSubset (a b : ν)
  | equals (a b : ν)

/-- What a step is answered. -/
inductive SetReply where
  | done
  | flag (answer : Bool)
  | number (n : Nat)
  | key (k? : Option Nat)
  | keys (ks : List Nat)
deriving DecidableEq

/-- The operations of a type of sets. -/
structure SetOperations (S : Type) where
  empty : S
  withCapacity : Nat → S
  insertAll : S → List Nat → S
  insert : S → Nat → Bool × S
  remove : S → Nat → Bool × S
  clear : S → S
  retain : S → (List Nat → Nat → Bool) → List Nat × S
  union : S → S → S
  intersect : S → S → S
  contains : S → Nat → Bool
  size : S → Nat
  isEmpty : S → Bool
  first? : S → Option Nat
  last? : S → Option Nat
  toList : S → List Nat
  isSubset : S → S → Bool
  equals : S → S → Bool

/-- The operations on bits. -/
def BitSet.operations : SetOperations BitSet where
  empty := BitSet.empty
  withCapacity := BitSet.withCapacity
  insertAll := BitSet.insertAll
  insert := BitSet.insert
  remove := BitSet.remove
  clear := BitSet.clear
  retain := BitSet.retain
  union := BitSet.union
  intersect := BitSet.intersect
  contains := BitSet.contains
  size := BitSet.size
  isEmpty := BitSet.isEmpty
  first? := BitSet.first?
  last? := BitSet.last?
  toList := BitSet.toList
  isSubset := BitSet.isSubset
  equals := BitSet.equals

namespace SetCommand

variable {S ν : Type} [DecidableEq ν]

/-- The sets after one of them is replaced. -/
def assign (sets : ν → S) (a : ν) (s : S) : ν → S := fun b => if b = a then s else sets b

/-- One step of a program: the sets after it, and its answer. -/
def step (ops : SetOperations S) (sets : ν → S) : SetCommand ν → (ν → S) × SetReply
  | new a => (assign sets a ops.empty, .done)
  | withCapacity a n => (assign sets a (ops.withCapacity n), .done)
  | ofKeys a ks => (assign sets a (ops.insertAll ops.empty ks), .done)
  | extend a ks => (assign sets a (ops.insertAll (sets a) ks), .done)
  | insert a k =>
    let (isNew, s) := ops.insert (sets a) k
    (assign sets a s, .flag isNew)
  | remove a k =>
    let (present, s) := ops.remove (sets a) k
    (assign sets a s, .flag present)
  | clear a => (assign sets a (ops.clear (sets a)), .done)
  | retain a keep =>
    let (visited, s) := ops.retain (sets a) keep
    (assign sets a s, .keys visited)
  | union a b => (assign sets a (ops.union (sets a) (sets b)), .done)
  | intersect a b => (assign sets a (ops.intersect (sets a) (sets b)), .done)
  | copy a b => (assign sets a (sets b), .done)
  | contains a k => (sets, .flag (ops.contains (sets a) k))
  | size a => (sets, .number (ops.size (sets a)))
  | isEmpty a => (sets, .flag (ops.isEmpty (sets a)))
  | first a => (sets, .key (ops.first? (sets a)))
  | last a => (sets, .key (ops.last? (sets a)))
  | keys a => (sets, .keys (ops.toList (sets a)))
  | isSubset a b => (sets, .flag (ops.isSubset (sets a) (sets b)))
  | equals a b => (sets, .flag (ops.equals (sets a) (sets b)))

/-- The answers to a program that starts with some sets. -/
def run (ops : SetOperations S) (sets : ν → S) : List (SetCommand ν) → List SetReply
  | [] => []
  | command :: program =>
    let (sets, reply) := command.step ops sets
    reply :: run ops sets program

theorem run_cons {ops : SetOperations S} {sets : ν → S} {command : SetCommand ν}
    {program : List (SetCommand ν)} : run ops sets (command :: program) =
      (command.step ops sets).2 :: run ops (command.step ops sets).1 program := rfl

end SetCommand

end ModelFinder
