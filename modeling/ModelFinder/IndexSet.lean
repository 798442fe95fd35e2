import ModelFinder.Arranged

/-!
# Sets of numbers

An `IndexSet` is a finite set of numbers, kept as the list of its elements in increasing order.
The list is determined by the elements (`IndexSet.ext_mem`), so that equal sets are visited, shown
and compared in one way, whatever was done to make them.  Each operation comes with the elements of
its result.
-/

namespace ModelFinder

/-- A finite set of numbers: its elements in increasing order. -/
structure IndexSet where
  toList : List Nat
  increasing : toList.Pairwise (· < ·)
deriving DecidableEq

namespace IndexSet

instance : Membership Nat IndexSet := ⟨fun s k => k ∈ s.toList⟩

instance (k : Nat) (s : IndexSet) : Decidable (k ∈ s) :=
  inferInstanceAs (Decidable (k ∈ s.toList))

@[simp] theorem mem_toList {k : Nat} {s : IndexSet} : k ∈ s.toList ↔ k ∈ s := Iff.rfl

/-- Two sets with the same elements are the same set. -/
theorem ext_mem {s t : IndexSet} (h : ∀ k, k ∈ s ↔ k ∈ t) : s = t := by
  obtain ⟨xs, hxs⟩ := s
  obtain ⟨ys, hys⟩ := t
  obtain rfl : xs = ys := Arranged.eq_of_mem_iff hxs hys h
  rfl

/-! ### One set -/

/-- The set without elements. -/
def empty : IndexSet := ⟨[], .nil⟩

instance : EmptyCollection IndexSet := ⟨empty⟩

instance : Inhabited IndexSet := ⟨empty⟩

/-- The number of elements. -/
def size (s : IndexSet) : Nat := s.toList.length

/-- Whether the set has no elements. -/
def isEmpty (s : IndexSet) : Bool := s.toList.isEmpty

/-- Whether the number is an element. -/
def contains (s : IndexSet) (k : Nat) : Bool := decide (k ∈ s)

/-- The smallest element. -/
def first? (s : IndexSet) : Option Nat := s.toList.head?

/-- The largest element. -/
def last? (s : IndexSet) : Option Nat := s.toList.getLast?

/-- Adds an element. -/
def insert (s : IndexSet) (k : Nat) : IndexSet :=
  ⟨Arranged.place id k s.toList, Arranged.place_arranged s.increasing⟩

/-- Adds an element and tells whether it is new. -/
def insertNew (s : IndexSet) (k : Nat) : Bool × IndexSet := (!s.contains k, s.insert k)

/-- Keeps the elements for which `p` holds. -/
def retain (s : IndexSet) (p : Nat → Bool) : IndexSet :=
  ⟨s.toList.filter p, s.increasing.filter p⟩

/-- Removes an element. -/
def remove (s : IndexSet) (k : Nat) : IndexSet := s.retain (· ≠ k)

/-- Removes an element and tells whether it was there. -/
def removePresent (s : IndexSet) (k : Nat) : Bool × IndexSet := (s.contains k, s.remove k)

/-- Adds all numbers of a list. -/
def insertAll (s : IndexSet) (ks : List Nat) : IndexSet := ks.foldl insert s

/-- The set of the numbers of a list. -/
def ofList (ks : List Nat) : IndexSet := empty.insertAll ks

/-! ### Two sets -/

/-- Adds the elements of `t`. -/
def union (s t : IndexSet) : IndexSet := s.insertAll t.toList

/-- Keeps the elements which are also in `t`. -/
def intersect (s t : IndexSet) : IndexSet := s.retain t.contains

/-- Whether every element of `s` is one of `t`. -/
def isSubset (s t : IndexSet) : Bool := s.toList.all t.contains

/-- The elements between braces. -/
def text (s : IndexSet) : String := "\x7b" ++ ", ".intercalate (s.toList.map toString) ++ "\x7d"

/-! ### Elements -/

@[simp] theorem contains_eq_true {s : IndexSet} {k : Nat} : s.contains k = true ↔ k ∈ s :=
  decide_eq_true_iff

theorem not_isEmpty_iff {s : IndexSet} : ¬ s.isEmpty = true ↔ ∃ k, k ∈ s := by
  rw [isEmpty, List.isEmpty_iff]
  constructor
  · exact List.exists_mem_of_ne_nil s.toList
  · rintro ⟨k, hk⟩ hnil
    have hmem : k ∈ s.toList := hk
    rw [hnil] at hmem
    exact absurd hmem List.not_mem_nil

@[simp] theorem not_mem_empty {k : Nat} : k ∉ (∅ : IndexSet) := List.not_mem_nil

@[simp] theorem mem_insert {s : IndexSet} {j k : Nat} : j ∈ s.insert k ↔ j = k ∨ j ∈ s :=
  Arranged.mem_place fun h => h

@[simp] theorem mem_retain {s : IndexSet} {p : Nat → Bool} {k : Nat} :
    k ∈ s.retain p ↔ k ∈ s ∧ p k = true := List.mem_filter

@[simp] theorem mem_remove {s : IndexSet} {j k : Nat} : j ∈ s.remove k ↔ j ∈ s ∧ j ≠ k := by
  simp [remove]

@[simp] theorem mem_insertAll {s : IndexSet} {ks : List Nat} {j : Nat} :
    j ∈ s.insertAll ks ↔ j ∈ ks ∨ j ∈ s := by
  unfold insertAll
  induction ks generalizing s with
  | nil => simp
  | cons k ks ih => simp only [List.foldl_cons, ih, mem_insert, List.mem_cons]; grind

@[simp] theorem mem_ofList {ks : List Nat} {j : Nat} : j ∈ ofList ks ↔ j ∈ ks := by
  show j ∈ (∅ : IndexSet).insertAll ks ↔ j ∈ ks
  simp

@[simp] theorem mem_union {s t : IndexSet} {k : Nat} : k ∈ s.union t ↔ k ∈ s ∨ k ∈ t := by
  simp [union, or_comm]

@[simp] theorem mem_intersect {s t : IndexSet} {k : Nat} : k ∈ s.intersect t ↔ k ∈ s ∧ k ∈ t := by
  simp [intersect]

end IndexSet

end ModelFinder
