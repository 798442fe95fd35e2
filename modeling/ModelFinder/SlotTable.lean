/-!
# Tables with consecutive keys

A `SlotTable` holds values under the keys 0, 1, 2, … without gaps.  New keys are handed out in order
by `SlotTable.push`, and `SlotTable.growTo?` makes sure that a key is there, if there can be one.  A
key without a value is refused by `SlotTable.get?` and `SlotTable.set?`.  Keys are words of 64 bits.
-/

namespace ModelFinder

/-- Values under the keys below the number of values. -/
structure SlotTable (α : Type) where
  values : Array α
deriving DecidableEq

namespace SlotTable

variable {α : Type}

/-- The table of a list of values, the first of which has the key 0. -/
def ofList (values : List α) : SlotTable α := ⟨values.toArray⟩

/-- The values in the order of their keys. -/
def toList (t : SlotTable α) : List α := t.values.toList

/-- The number of values. -/
def size (t : SlotTable α) : Nat := t.values.size

/-- Whether the table has no values. -/
def isEmpty (t : SlotTable α) : Bool := t.values.isEmpty

/-- Adds a value under the next key and answers the key. -/
def push (t : SlotTable α) (a : α) : Nat × SlotTable α := (t.size, ⟨t.values.push a⟩)

/-- The value under a key. -/
def get? (t : SlotTable α) (k : Nat) : Option α := t.values[k]?

/-- Replaces the value under a key that is there. -/
def set? (t : SlotTable α) (k : Nat) (a : α) : Option (SlotTable α) :=
  if h : k < t.values.size then some ⟨t.values.set k a⟩ else none

/-- The value under the largest key. -/
def last? (t : SlotTable α) : Option α := t.values.back?

/-- All keys, in increasing order. -/
def keys (t : SlotTable α) : List Nat := List.range t.size

/-- Adds `fill` under new keys until `k` is one of the keys. -/
def growTo (t : SlotTable α) (k : Nat) (fill : α) : SlotTable α :=
  ⟨t.values ++ Array.replicate (k + 1 - t.values.size) fill⟩

/-- No table has more values: it takes less than 2⁶³ bytes, eight for each value. -/
def maxSize : Nat := 1152921504606846975

/-- The largest key, 2⁶⁴ - 1.  The size of a table that has it is no word any more. -/
def largestKey : Nat := 18446744073709551615

/-- Grows the table, unless it would get too large.  There is no size to grow to for the largest
key, and nothing changes. -/
def growTo? (t : SlotTable α) (k : Nat) (fill : α) : Option (SlotTable α) :=
  if k = largestKey then some t
  else if k < maxSize then some (t.growTo k fill)
  else none

/-! ### Through the list of values -/

@[simp] theorem toList_ofList (values : List α) : (ofList values).toList = values := by
  simp [ofList, toList]

@[simp] theorem toList_push (t : SlotTable α) (a : α) : (t.push a).2.toList = t.toList ++ [a] := by
  simp [push, toList]

theorem get?_eq_toList (t : SlotTable α) (k : Nat) : t.get? k = t.toList[k]? := by
  simp [get?, toList]

/-- A value that is there can be replaced, and no other value changes. -/
theorem exists_set?_eq_some {t : SlotTable α} {k : Nat} {b : α} (h : t.get? k = some b) (a : α) :
    ∃ t', t.set? k a = some t' ∧ ∀ j, t'.get? j = if k = j then some a else t.get? j := by
  obtain ⟨hlt, -⟩ := Array.getElem?_eq_some_iff.mp h
  exact ⟨_, dif_pos hlt, fun j => Array.getElem?_set hlt⟩

theorem toList_growTo (t : SlotTable α) (k : Nat) (fill : α) :
    (t.growTo k fill).toList = t.toList ++ List.replicate (k + 1 - t.size) fill := by
  simp [growTo, toList, size]

end SlotTable

end ModelFinder
