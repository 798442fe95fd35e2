/-!
# Sets of numbers as bits

A `BitSet` keeps a finite set of numbers as bits, 64 to a word, and the number of its elements
beside them.  There may be more words than the elements need.  Some operations keep the number up to
date step by step, and others count the bits again.

An iteration goes through the words and takes the lowest bit from what is left of a word
(`BitSet.next?`), so that it visits the elements in increasing order.
-/

namespace ModelFinder

/-! ### Words -/

/-- A word of 64 bits. -/
abbrev Word := BitVec 64

namespace Word

/-- The word with one bit only. -/
def bit (i : Nat) : Word := 1#64 <<< i

/-- Whether the word has a bit. -/
def has (w : Word) (i : Nat) : Bool := w &&& bit i != 0

/-- The number of bits. -/
def count (w : Word) : Nat := w.cpop.toNat

/-- The place of the lowest bit. -/
def lowest (w : Word) : Nat := w.ctz.toNat

/-- The place of the highest bit. -/
def highest (w : Word) : Nat := 63 - w.clz.toNat

/-- The word without its lowest bit. -/
def dropLowest (w : Word) : Word := w &&& (w - 1)

theorem dropLowest_lt {w : Word} (hw : w ≠ 0) : (dropLowest w).toNat < w.toNat := by
  have hpos : 0 < w.toNat := Nat.pos_of_ne_zero fun h => hw (BitVec.eq_of_toNat_eq h)
  have hpred : (w - 1).toNat = w.toNat - 1 :=
    BitVec.toNat_sub_of_le (BitVec.le_def.mpr hpos)
  have hle : (dropLowest w).toNat ≤ (w - 1).toNat := by
    rw [dropLowest, BitVec.toNat_and]
    exact Nat.and_le_right
  omega

end Word

/-- A finite set of numbers: its bits and the number of its elements. -/
structure BitSet where
  words : Array Word
  size : Nat

namespace BitSet

/-! ### One set -/

/-- The set without elements. -/
def empty : BitSet := ⟨#[], 0⟩

/-- The set without elements, with room for the numbers below `capacity`. -/
def withCapacity (capacity : Nat) : BitSet := ⟨.replicate ((capacity + 63) / 64) 0, 0⟩

/-- The word at a place, which is 0 beyond the last one. -/
def word (s : BitSet) (i : Nat) : Word := s.words.getD i 0

/-- Whether the set has no elements. -/
def isEmpty (s : BitSet) : Bool := s.size == 0

/-- Whether the number is an element. -/
def contains (s : BitSet) (k : Nat) : Bool := Word.has (s.word (k / 64)) (k % 64)

/-- The words with zeros behind them, so that there are at least `n`. -/
def growTo (words : Array Word) (n : Nat) : Array Word :=
  words ++ Array.replicate (n - words.size) 0

/-- Adds an element and tells whether it is new. -/
def insert (s : BitSet) (k : Nat) : Bool × BitSet :=
  let words := growTo s.words (k / 64 + 1)
  let w := words.getD (k / 64) 0
  let isNew := !Word.has w (k % 64)
  (isNew, ⟨words.setIfInBounds (k / 64) (w ||| Word.bit (k % 64)),
    if isNew then s.size + 1 else s.size⟩)

/-- Removes an element and tells whether it was there. -/
def remove (s : BitSet) (k : Nat) : Bool × BitSet :=
  match s.words[k / 64]? with
  | none => (false, s)
  | some w =>
    let present := Word.has w (k % 64)
    (present, ⟨s.words.setIfInBounds (k / 64) (w &&& ~~~Word.bit (k % 64)),
      if present then s.size - 1 else s.size⟩)

/-- Removes all elements, and keeps the room for them. -/
def clear (s : BitSet) : BitSet := ⟨s.words.map fun _ => 0, 0⟩

/-- Adds all numbers of a list. -/
def insertAll (s : BitSet) (ks : List Nat) : BitSet := ks.foldl (fun s k => (s.insert k).2) s

/-! ### Iteration -/

/-- Where an iteration is: in the word at a place, with the bits of it that are left. -/
structure Cursor where
  place : Nat
  left : Word

/-- In front of the first word. -/
def start (s : BitSet) : Cursor := ⟨0, s.word 0⟩

/-- The next element of an iteration, and how it goes on. -/
def next? (s : BitSet) (c : Cursor) : Option (Nat × Cursor) :=
  if c.left = 0 then
    if h : c.place + 1 < s.words.size then s.next? ⟨c.place + 1, s.words[c.place + 1]⟩ else none
  else some (c.place * 64 + Word.lowest c.left, ⟨c.place, Word.dropLowest c.left⟩)
termination_by s.words.size - c.place

/-- An iteration goes on in the same word with fewer bits, or in a later word. -/
theorem next?_advances {s : BitSet} {c c' : Cursor} {k : Nat} (h : s.next? c = some (k, c')) :
    c.place < c'.place ∧ c'.place < s.words.size ∨
      c'.place = c.place ∧ c'.left.toNat < c.left.toNat := by
  fun_induction next? s c with
  | case1 c hleft hlt ih =>
      have hih := ih h
      dsimp only at hih
      omega
  | case2 => cases h
  | case3 c hleft =>
      cases h
      exact .inr ⟨rfl, Word.dropLowest_lt hleft⟩

/-- The elements that are still to come. -/
def toListFrom (s : BitSet) (c : Cursor) : List Nat :=
  match _h : s.next? c with
  | none => []
  | some (k, c') => k :: s.toListFrom c'
termination_by (s.words.size - c.place, c.left.toNat)
decreasing_by
  rcases next?_advances _h with h | h
  · exact .left _ _ (by omega)
  · rw [h.1]
    exact .right _ h.2

/-- The elements in increasing order. -/
def toList (s : BitSet) : List Nat := s.toListFrom s.start

/-- The smallest element. -/
def first? (s : BitSet) : Option Nat := (s.next? s.start).map (·.1)

/-- The largest element. -/
def last? (s : BitSet) : Option Nat :=
  ((List.range s.words.size).reverse.find? fun i => s.word i != 0).map fun i =>
    i * 64 + Word.highest (s.word i)

/-- Asks about each element whether to keep it, where the answer may depend on those before, and
removes the others.  Tells what it has asked about. -/
def retain (s : BitSet) (keep : List Nat → Nat → Bool) : List Nat × BitSet :=
  let (visited, rejected) := s.toList.foldl
    (fun (visited, rejected) k =>
      (visited ++ [k], if keep visited k then rejected else rejected ++ [k])) ([], [])
  (visited, rejected.foldl (fun s k => (s.remove k).2) s)

/-! ### Two sets -/

/-- The number of bits of some words. -/
def count (words : Array Word) : Nat := words.foldl (fun n w => n + w.count) 0

/-- Adds the elements of `t`. -/
def union (s t : BitSet) : BitSet :=
  let words := (growTo s.words t.words.size).mapIdx fun i w => w ||| t.word i
  ⟨words, count words⟩

/-- Keeps the elements which are also in `t`. -/
def intersect (s t : BitSet) : BitSet :=
  let words := s.words.mapIdx fun i w => w &&& t.word i
  ⟨words, count words⟩

/-- Whether every element of `s` is one of `t`. -/
def isSubset (s t : BitSet) : Bool :=
  (List.range s.words.size).all fun i => s.word i &&& ~~~t.word i == 0

/-- Whether the sets have the same elements. -/
def equals (s t : BitSet) : Bool := s.size == t.size && s.isSubset t

end BitSet

end ModelFinder
