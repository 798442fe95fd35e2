import ModelFinder.IndexSet
import ModelFinder.Proofs.BitSet.Iteration
import ModelFinder.SetProgram

/-!
# Programs over finite sets

The mathematical finite sets offer the operations of a program over sets as well
(`SetOperations.finite`), and say what each of them should answer.  The operations of another type
of sets follow them if they give the same answers on sets that stand for the same finite set, and
again sets that stand for the same one (`SetOperations.Follows`).  Then each step of a program gives
the same answer, and so does a whole program (`SetOperations.Follows.run_eq`).

The operations on bits follow the finite sets, and so do those on lists in increasing order, which
the rest of the library works with (`SetCommand.run_eq_finite`).
-/

namespace ModelFinder

variable {S T ν : Type}

/-! ### Finite sets -/

/-- What the operations should answer. -/
def SetOperations.finite : SetOperations (Finset ℕ) where
  empty := ∅
  withCapacity _ := ∅
  insertAll A ks := A ∪ ks.toFinset
  insert A k := (decide (k ∉ A), Insert.insert k A)
  remove A k := (decide (k ∈ A), A.erase k)
  clear _ := ∅
  retain A keep := (A.sort, A.filter fun k => keep (A.filter (· < k)).sort k)
  union A B := A ∪ B
  intersect A B := A ∩ B
  contains A k := decide (k ∈ A)
  size A := A.card
  isEmpty A := decide (A = ∅)
  first? A := if h : A.Nonempty then some (A.min' h) else none
  last? A := if h : A.Nonempty then some (A.max' h) else none
  toList A := A.sort
  isSubset A B := decide (A ⊆ B)
  equals A B := decide (A = B)

/-! ### Following -/

/-- The operations of `ops` give the answers of `ops'` on related sets, and related sets again. -/
structure SetOperations.Follows (ops : SetOperations S) (ops' : SetOperations T)
    (R : S → T → Prop) : Prop where
  empty : R ops.empty ops'.empty
  withCapacity : ∀ n, R (ops.withCapacity n) (ops'.withCapacity n)
  insertAll : ∀ {s t}, R s t → ∀ ks, R (ops.insertAll s ks) (ops'.insertAll t ks)
  insert : ∀ {s t}, R s t → ∀ k,
    (ops.insert s k).1 = (ops'.insert t k).1 ∧ R (ops.insert s k).2 (ops'.insert t k).2
  remove : ∀ {s t}, R s t → ∀ k,
    (ops.remove s k).1 = (ops'.remove t k).1 ∧ R (ops.remove s k).2 (ops'.remove t k).2
  clear : ∀ {s t}, R s t → R (ops.clear s) (ops'.clear t)
  retain : ∀ {s t}, R s t → ∀ keep,
    (ops.retain s keep).1 = (ops'.retain t keep).1 ∧
      R (ops.retain s keep).2 (ops'.retain t keep).2
  union : ∀ {s t s' t'}, R s t → R s' t' → R (ops.union s s') (ops'.union t t')
  intersect : ∀ {s t s' t'}, R s t → R s' t' → R (ops.intersect s s') (ops'.intersect t t')
  contains : ∀ {s t}, R s t → ∀ k, ops.contains s k = ops'.contains t k
  size : ∀ {s t}, R s t → ops.size s = ops'.size t
  isEmpty : ∀ {s t}, R s t → ops.isEmpty s = ops'.isEmpty t
  first? : ∀ {s t}, R s t → ops.first? s = ops'.first? t
  last? : ∀ {s t}, R s t → ops.last? s = ops'.last? t
  toList : ∀ {s t}, R s t → ops.toList s = ops'.toList t
  isSubset : ∀ {s t s' t'}, R s t → R s' t' → ops.isSubset s s' = ops'.isSubset t t'
  equals : ∀ {s t s' t'}, R s t → R s' t' → ops.equals s s' = ops'.equals t t'

namespace SetOperations.Follows

open SetCommand (assign step run)

variable [DecidableEq ν] {ops : SetOperations S} {ops' : SetOperations T} {R : S → T → Prop}
  {sets : ν → S} {sets' : ν → T}

theorem assign (hsets : ∀ a, R (sets a) (sets' a)) {s : S} {t : T} (hst : R s t) (a b : ν) :
    R (SetCommand.assign sets a s b) (SetCommand.assign sets' a t b) := by
  unfold SetCommand.assign
  split
  next => exact hst
  next => exact hsets b

/-- **One step.** -/
theorem step (h : ops.Follows ops' R) (hsets : ∀ a, R (sets a) (sets' a))
    (command : SetCommand ν) :
    (command.step ops sets).2 = (command.step ops' sets').2 ∧
      ∀ a, R ((command.step ops sets).1 a) ((command.step ops' sets').1 a) := by
  cases command with
  | new a => exact ⟨rfl, assign hsets h.empty a⟩
  | withCapacity a n => exact ⟨rfl, assign hsets (h.withCapacity n) a⟩
  | ofKeys a ks => exact ⟨rfl, assign hsets (h.insertAll h.empty ks) a⟩
  | extend a ks => exact ⟨rfl, assign hsets (h.insertAll (hsets a) ks) a⟩
  | insert a k =>
      obtain ⟨hreply, hset⟩ := h.insert (hsets a) k
      exact ⟨congrArg SetReply.flag hreply, assign hsets hset a⟩
  | remove a k =>
      obtain ⟨hreply, hset⟩ := h.remove (hsets a) k
      exact ⟨congrArg SetReply.flag hreply, assign hsets hset a⟩
  | clear a => exact ⟨rfl, assign hsets (h.clear (hsets a)) a⟩
  | retain a keep =>
      obtain ⟨hreply, hset⟩ := h.retain (hsets a) keep
      exact ⟨congrArg SetReply.keys hreply, assign hsets hset a⟩
  | union a b => exact ⟨rfl, assign hsets (h.union (hsets a) (hsets b)) a⟩
  | intersect a b => exact ⟨rfl, assign hsets (h.intersect (hsets a) (hsets b)) a⟩
  | copy a b => exact ⟨rfl, assign hsets (hsets b) a⟩
  | contains a k => exact ⟨congrArg SetReply.flag (h.contains (hsets a) k), hsets⟩
  | size a => exact ⟨congrArg SetReply.number (h.size (hsets a)), hsets⟩
  | isEmpty a => exact ⟨congrArg SetReply.flag (h.isEmpty (hsets a)), hsets⟩
  | first a => exact ⟨congrArg SetReply.key (h.first? (hsets a)), hsets⟩
  | last a => exact ⟨congrArg SetReply.key (h.last? (hsets a)), hsets⟩
  | keys a => exact ⟨congrArg SetReply.keys (h.toList (hsets a)), hsets⟩
  | isSubset a b => exact ⟨congrArg SetReply.flag (h.isSubset (hsets a) (hsets b)), hsets⟩
  | equals a b => exact ⟨congrArg SetReply.flag (h.equals (hsets a) (hsets b)), hsets⟩

/-- **A whole program.** -/
theorem run_eq (h : ops.Follows ops' R) (hsets : ∀ a, R (sets a) (sets' a))
    (program : List (SetCommand ν)) : run ops sets program = run ops' sets' program := by
  induction program generalizing sets sets' with
  | nil => rfl
  | cons command program ih =>
      obtain ⟨hreply, hsets⟩ := h.step hsets command
      rw [SetCommand.run_cons, SetCommand.run_cons, hreply, ih hsets]

end SetOperations.Follows

/-! ### Bits -/

theorem BitSet.follows_finite : BitSet.operations.Follows .finite BitSet.Represents where
  empty := .empty
  withCapacity := .withCapacity
  insertAll h := h.insertAll
  insert h k := ⟨h.insert_fst k, h.insert k⟩
  remove h k := ⟨h.remove_fst k, h.remove k⟩
  clear _ := .clear _
  retain h := h.retain
  union h := h.union
  intersect h := h.intersect
  contains h := h.contains_eq
  size h := h.size_eq
  isEmpty h := h.isEmpty_eq
  first? h := h.first?_eq
  last? h := h.last?_eq
  toList h := h.toList_eq
  isSubset h := h.isSubset_eq
  equals h := h.equals_eq

/-! ### Lists in increasing order -/

namespace IndexSet

variable {s t : IndexSet} {A B : Finset ℕ}

/-- The operations on lists in increasing order. -/
def operations : SetOperations IndexSet where
  empty := empty
  withCapacity _ := empty
  insertAll := insertAll
  insert := insertNew
  remove := removePresent
  clear _ := empty
  retain s keep := (s.toList, s.retain fun k => keep (s.toList.filter (· < k)) k)
  union := union
  intersect := intersect
  contains := contains
  size := size
  isEmpty := isEmpty
  first? := first?
  last? := last?
  toList := toList
  isSubset := isSubset
  equals s t := s == t

/-- The list has the elements of the finite set. -/
def Represents (s : IndexSet) (A : Finset ℕ) : Prop := ∀ k, k ∈ s ↔ k ∈ A

namespace Represents

variable (hs : s.Represents A) (ht : t.Represents B)

include hs

theorem toList_eq : s.toList = A.sort := BitSet.eq_sort s.increasing hs

theorem contains_eq (k : Nat) : s.contains k = decide (k ∈ A) := by
  rw [contains, decide_eq_decide]
  exact hs k

theorem size_eq : s.size = A.card := by
  rw [size, hs.toList_eq, Finset.length_sort]

theorem isEmpty_eq : s.isEmpty = decide (A = ∅) := by
  rw [isEmpty, hs.toList_eq, Bool.eq_iff_iff, List.isEmpty_iff, ← List.length_eq_zero_iff,
    Finset.length_sort, Finset.card_eq_zero, decide_eq_true_iff]

theorem first?_eq : s.first? = if h : A.Nonempty then some (A.min' h) else none := by
  have hincreasing := s.increasing
  have hmem (k : Nat) : k ∈ s.toList ↔ k ∈ A := hs k
  rw [first?]
  cases hlist : s.toList with
  | nil =>
      rw [hlist] at hmem
      rw [dif_neg fun ⟨k, hk⟩ => List.not_mem_nil ((hmem k).mpr hk), List.head?_nil]
  | cons k ks =>
      rw [hlist] at hmem hincreasing
      have hk : k ∈ A := (hmem k).mp List.mem_cons_self
      have hmin : A.min' ⟨k, hk⟩ = k := (A.min'_eq_iff _ _).mpr ⟨hk, fun j hj => by
        rcases List.mem_cons.mp ((hmem j).mpr hj) with rfl | hj
        · exact Nat.le_refl _
        · exact ((List.pairwise_cons.mp hincreasing).1 j hj).le⟩
      rw [dif_pos ⟨k, hk⟩, hmin, List.head?_cons]

theorem last?_eq : s.last? = if h : A.Nonempty then some (A.max' h) else none := by
  have hincreasing := s.increasing
  have hmem (k : Nat) : k ∈ s.toList ↔ k ∈ A := hs k
  rw [last?]
  rcases List.eq_nil_or_concat s.toList with hlist | ⟨ks, k, hlist⟩
  · rw [hlist] at hmem
    rw [dif_neg fun ⟨k, hk⟩ => List.not_mem_nil ((hmem k).mpr hk), hlist, List.getLast?_nil]
  · rw [List.concat_eq_append] at hlist
    rw [hlist] at hmem hincreasing
    have hk : k ∈ A := (hmem k).mp (by simp)
    have hmax : A.max' ⟨k, hk⟩ = k := (A.max'_eq_iff _ _).mpr ⟨hk, fun j hj => by
      rcases List.mem_append.mp ((hmem j).mpr hj) with hj | hj
      · exact ((List.pairwise_append.mp hincreasing).2.2 j hj k List.mem_cons_self).le
      · exact (List.mem_singleton.mp hj).le⟩
    rw [dif_pos ⟨k, hk⟩, hmax, hlist, List.getLast?_concat]

theorem insertNew_fst (k : Nat) : (s.insertNew k).1 = decide (k ∉ A) := by
  rw [decide_not, ← hs.contains_eq]
  rfl

theorem insert (k : Nat) : (s.insert k).Represents (Insert.insert k A) := fun j => by
  rw [mem_insert, Finset.mem_insert, hs j]

theorem insertAll (ks : List Nat) : (s.insertAll ks).Represents (A ∪ ks.toFinset) := fun j => by
  rw [mem_insertAll, Finset.mem_union, List.mem_toFinset, hs j, or_comm]

theorem remove (k : Nat) : (s.remove k).Represents (A.erase k) := fun j => by
  rw [mem_remove, Finset.mem_erase, hs j, and_comm]

theorem retain (keep : List Nat → Nat → Bool) :
    (s.retain fun k => keep (s.toList.filter (· < k)) k).Represents
      (A.filter fun k => keep (A.filter (· < k)).sort k) := by
  intro k
  have hbelow : s.toList.filter (· < k) = (A.filter (· < k)).sort :=
    BitSet.eq_sort (s.increasing.filter _) fun j => by
      rw [List.mem_filter, decide_eq_true_iff, Finset.mem_filter]
      exact and_congr_left' (hs j)
  rw [mem_retain, hbelow, Finset.mem_filter, hs k]

include ht

theorem union : (s.union t).Represents (A ∪ B) := fun k => by
  rw [mem_union, Finset.mem_union, hs k, ht k]

theorem intersect : (s.intersect t).Represents (A ∩ B) := fun k => by
  rw [mem_intersect, Finset.mem_inter, hs k, ht k]

theorem isSubset_eq : s.isSubset t = decide (A ⊆ B) := by
  rw [isSubset, Bool.eq_iff_iff, List.all_eq_true, decide_eq_true_iff]
  simp only [contains_eq_true, mem_toList, hs _, ht _]
  exact Iff.rfl

theorem equals_eq : (s == t) = decide (A = B) := by
  rw [Bool.eq_iff_iff, beq_iff_eq, decide_eq_true_iff]
  constructor
  · rintro rfl
    ext k
    rw [← hs, ht]
  · rintro rfl
    exact ext_mem fun k => (hs k).trans (ht k).symm

end Represents

theorem represents_empty : Represents .empty ∅ := fun k =>
  iff_of_false not_mem_empty (Finset.notMem_empty k)

theorem follows_finite : operations.Follows .finite Represents where
  empty := represents_empty
  withCapacity _ := represents_empty
  insertAll h := h.insertAll
  insert h k := ⟨h.insertNew_fst k, h.insert k⟩
  remove h k := ⟨h.contains_eq k, h.remove k⟩
  clear _ := represents_empty
  retain h keep := ⟨h.toList_eq, h.retain keep⟩
  union h := h.union
  intersect h := h.intersect
  contains h := h.contains_eq
  size h := h.size_eq
  isEmpty h := h.isEmpty_eq
  first? h := h.first?_eq
  last? h := h.last?_eq
  toList h := h.toList_eq
  isSubset h := h.isSubset_eq
  equals h := h.equals_eq

end IndexSet

/-- **Programs over sets are answered as finite sets answer them**, whether the sets are kept as
bits or as lists. -/
theorem SetCommand.run_eq_finite [DecidableEq ν] (program : List (SetCommand ν)) :
    run BitSet.operations (fun _ => .empty) program = run .finite (fun _ => ∅) program ∧
      run IndexSet.operations (fun _ => .empty) program = run .finite (fun _ => ∅) program :=
  ⟨BitSet.follows_finite.run_eq (fun _ => .empty) program,
    IndexSet.follows_finite.run_eq (fun _ => IndexSet.represents_empty) program⟩

end ModelFinder
