import Mathlib.Data.Finset.Sort
import Mathlib.Data.Finset.Max
import ModelFinder.BitSet

/-!
# What the bits of a set stand for

A set of bits represents a finite set if its bits are those of the elements, and the number beside
them is the number of elements (`BitSet.Represents`).  How many words there are does not matter.

Each operation is told by the words of its result, and so by their bits (`BitSet.hasBit`).  The
number of elements is right where it is kept up to date, since the operation knows whether an
element is new, and where the bits are counted, since each word has its own share of them
(`BitSet.foldl_countP_blocks`).
-/

namespace ModelFinder

variable {w : Word} {s t : BitSet} {i j k n : Nat} {A B : Finset ℕ} {words : Array Word}

/-! ### Words -/

namespace Word

theorem getLsbD_bit : (bit i).getLsbD j = (decide (i < 64) && decide (i = j)) :=
  BitVec.getLsbD_twoPow i j

theorem has_eq_getLsbD (hi : i < 64) : has w i = w.getLsbD i := by
  rw [Bool.eq_iff_iff, has, bne_iff_ne]
  constructor
  · intro h
    by_contra hbit
    refine h (BitVec.eq_of_getLsbD_eq fun j _ => ?_)
    rw [BitVec.getLsbD_and, getLsbD_bit]
    by_cases hij : i = j
    · subst hij
      simp [hbit]
    · simp [hij]
  · intro hbit hzero
    have h : (w &&& bit i).getLsbD i = false := by rw [hzero]; exact BitVec.getLsbD_zero
    rw [BitVec.getLsbD_and, getLsbD_bit, hbit] at h
    simp [hi] at h

theorem and_not_eq_zero_iff {v : Word} :
    w &&& ~~~v = 0 ↔ ∀ i, w.getLsbD i = true → v.getLsbD i = true := by
  have hbit (i : Nat) (hi : i < 64) :
      (w &&& ~~~v).getLsbD i = (w.getLsbD i && !v.getLsbD i) := by
    rw [BitVec.getLsbD_and, BitVec.getLsbD_not, decide_eq_true hi, Bool.true_and]
  constructor
  · intro h i hw
    have hzero : (w &&& ~~~v).getLsbD i = false := by rw [h]; exact BitVec.getLsbD_zero
    rw [hbit i (BitVec.lt_of_getLsbD hw), hw, Bool.true_and] at hzero
    simpa using hzero
  · intro h
    refine BitVec.eq_of_getLsbD_eq fun i hi => ?_
    rw [hbit i hi]
    cases hw : w.getLsbD i with
    | false => simp
    | true => simp [h i hw]

/-- The number of bits is the number of places that have one. -/
theorem count_eq_countP (w : Word) : count w = (List.range 64).countP w.getLsbD := by
  have hrec (n : Nat) : w.cpopNatRec n 0 = (List.range n).countP w.getLsbD := by
    induction n with
    | zero => rfl
    | succ n ih =>
        rw [BitVec.cpopNatRec_succ, BitVec.cpopNatRec_add, ih, List.range_succ,
          List.countP_append, List.countP_singleton]
        cases w.getLsbD n <;> rfl
  rw [count, BitVec.toNat_cpop, hrec]

theorem lowest_lt (hw : w ≠ 0) : lowest w < 64 := by
  have h := BitVec.ctz_lt_iff_ne_zero.mpr hw
  rw [BitVec.lt_def] at h
  exact h

theorem getLsbD_lowest (hw : w ≠ 0) : w.getLsbD (lowest w) = true :=
  BitVec.getLsbD_true_ctz_of_ne_zero hw

theorem lowest_le (hi : w.getLsbD i = true) : lowest w ≤ i := by
  by_contra h
  rw [BitVec.getLsbD_false_of_lt_ctz (Nat.not_le.mp h)] at hi
  cases hi

theorem getLsbD_highest (hw : w ≠ 0) : w.getLsbD (highest w) = true :=
  BitVec.getLsbD_true_clz_of_ne_zero (by decide) hw

theorem le_highest (hi : w.getLsbD i = true) : i ≤ highest w := by
  by_contra h
  have hlt : w.toNat < 2 ^ i :=
    BitVec.toNat_lt_two_pow_sub_clz.trans_le (Nat.pow_le_pow_right (by decide) (by
      rw [highest] at h
      omega))
  rw [BitVec.getLsbD, Nat.testBit_lt_two_pow hlt] at hi
  cases hi

/-- A number that is not 0 has a factor, which is odd, above its lowest bit. -/
theorem exists_toNat_eq (hw : w ≠ 0) :
    ∃ q, w.toNat = 2 ^ (lowest w + 1) * q + 2 ^ lowest w := by
  refine ⟨w.toNat / 2 ^ (lowest w + 1), ?_⟩
  have hlow : w.toNat % 2 ^ (lowest w + 1) = 2 ^ lowest w := by
    refine Nat.eq_of_testBit_eq fun j => ?_
    have hlowest : w.toNat.testBit (lowest w) = true := getLsbD_lowest hw
    rw [Nat.testBit_mod_two_pow, Nat.testBit_two_pow]
    rcases lt_trichotomy j (lowest w) with hlt | rfl | hgt
    · have hfalse : w.toNat.testBit j = false := BitVec.getLsbD_false_of_lt_ctz hlt
      simp [hfalse, hlt.ne']
    · simp [hlowest]
    · simp [hgt.ne, Nat.not_lt.mpr hgt]
  rw [← hlow]
  exact (Nat.div_add_mod ..).symm

/-- Subtracting 1 turns around the bits up to the lowest one. -/
theorem getLsbD_sub_one (hw : w ≠ 0) :
    (w - 1).getLsbD i = if i ≤ lowest w then decide (i < lowest w) else w.getLsbD i := by
  obtain ⟨q, hq⟩ := exists_toNat_eq hw
  have hpos : 0 < 2 ^ lowest w := Nat.two_pow_pos _
  have hlt : 2 ^ lowest w < 2 ^ (lowest w + 1) := Nat.pow_lt_pow_succ (by decide)
  have hsub : (w - 1).toNat = 2 ^ (lowest w + 1) * q + (2 ^ lowest w - 1) := by
    have hle : 1 ≤ w := BitVec.le_def.mpr (by show 1 ≤ w.toNat; omega)
    rw [BitVec.toNat_sub_of_le hle, hq]
    exact Nat.add_sub_assoc hpos _
  rw [BitVec.getLsbD, BitVec.getLsbD, hsub, hq, Nat.testBit_two_pow_mul_add _ (by omega),
    Nat.testBit_two_pow_mul_add _ hlt, Nat.testBit_two_pow_sub_one]
  simp only [Nat.lt_succ_iff]
  split <;> rfl

theorem getLsbD_dropLowest (hw : w ≠ 0) :
    (dropLowest w).getLsbD i = (w.getLsbD i && decide (i ≠ lowest w)) := by
  rw [dropLowest, BitVec.getLsbD_and, getLsbD_sub_one hw]
  rcases lt_trichotomy i (lowest w) with hlt | rfl | hgt
  · have hfalse : w.getLsbD i = false := BitVec.getLsbD_false_of_lt_ctz hlt
    simp [hfalse]
  · simp
  · simp [hgt.ne', Nat.not_le.mpr hgt]

end Word

namespace BitSet

open Word (bit has)

/-! ### Words of a set -/

theorem word_of_le (hi : s.words.size ≤ i) : s.word i = 0 := by
  rw [word, Array.getD_eq_getD_getElem?, Array.getElem?_eq_none hi]
  rfl

theorem word_eq_getElem (hi : i < s.words.size) : s.word i = s.words[i] := by
  rw [word, Array.getD_eq_getD_getElem?, Array.getElem?_eq_getElem hi]
  rfl

@[simp] theorem word_empty : word empty i = 0 := rfl

@[simp] theorem word_withCapacity : (withCapacity n).word i = 0 := by
  rw [word, withCapacity, Array.getD_eq_getD_getElem?, Array.getElem?_replicate]
  split <;> rfl

@[simp] theorem word_clear : s.clear.word i = 0 := by
  rw [word, clear, Array.getD_eq_getD_getElem?, Array.getElem?_map]
  cases s.words[i]? <;> rfl

theorem getD_growTo : (growTo words n).getD i 0 = words.getD i 0 := by
  rw [growTo, Array.getD_eq_getD_getElem?, Array.getD_eq_getD_getElem?, Array.getElem?_append]
  split
  next => rfl
  next hi =>
    rw [Array.getElem?_replicate, Array.getElem?_eq_none (Nat.not_lt.mp hi)]
    split <;> rfl

theorem size_growTo : (growTo words n).size = max words.size n := by
  simp [growTo]
  omega

theorem getD_setIfInBounds (hi : i < words.size) :
    (words.setIfInBounds i w).getD j 0 = if j = i then w else words.getD j 0 := by
  rw [Array.getD_eq_getD_getElem?, Array.getD_eq_getD_getElem?, Array.getElem?_setIfInBounds]
  by_cases hij : i = j
  · subst hij
    simp [hi]
  · simp [hij, Ne.symm hij]

theorem word_insert : (s.insert k).2.word i =
    if i = k / 64 then s.word i ||| bit (k % 64) else s.word i := by
  have hlt : k / 64 < (growTo s.words (k / 64 + 1)).size := by
    rw [size_growTo]
    omega
  show ((growTo s.words (k / 64 + 1)).setIfInBounds (k / 64) _).getD i 0 = _
  rw [getD_setIfInBounds hlt, getD_growTo, getD_growTo]
  split
  next hi => rw [hi, word]
  next => rfl

theorem word_remove : (s.remove k).2.word i =
    if i = k / 64 then s.word i &&& ~~~bit (k % 64) else s.word i := by
  unfold remove
  split
  next hnone =>
    have hle : s.words.size ≤ k / 64 := Array.getElem?_eq_none_iff.mp hnone
    split
    next hi =>
      rw [hi, word_of_le hle]
      exact BitVec.zero_and.symm
    next => rfl
  next w hsome =>
    obtain ⟨hlt, rfl⟩ := Array.getElem?_eq_some_iff.mp hsome
    show (s.words.setIfInBounds (k / 64) _).getD i 0 = _
    rw [getD_setIfInBounds hlt]
    split
    next hi => rw [hi, word_eq_getElem hlt]
    next => rfl

@[simp] theorem word_union : (s.union t).word i = s.word i ||| t.word i := by
  show ((growTo s.words t.words.size).mapIdx fun i w => w ||| t.word i).getD i 0 = _
  rw [Array.getD_eq_getD_getElem?, Array.getElem?_mapIdx]
  have hgrown : (growTo s.words t.words.size).getD i 0 = s.word i := getD_growTo
  by_cases hi : i < (growTo s.words t.words.size).size
  · rw [Array.getElem?_eq_getElem hi, ← hgrown, Array.getD_eq_getD_getElem?,
      Array.getElem?_eq_getElem hi]
    rfl
  · rw [Array.getElem?_eq_none (Nat.not_lt.mp hi)]
    rw [size_growTo] at hi
    rw [word_of_le (by omega), word_of_le (by omega)]
    rfl

@[simp] theorem word_intersect : (s.intersect t).word i = s.word i &&& t.word i := by
  show (s.words.mapIdx fun i w => w &&& t.word i).getD i 0 = _
  rw [Array.getD_eq_getD_getElem?, Array.getElem?_mapIdx]
  by_cases hi : i < s.words.size
  · rw [word_eq_getElem hi, Array.getElem?_eq_getElem hi]
    rfl
  · rw [word_of_le (Nat.not_lt.mp hi), Array.getElem?_eq_none (Nat.not_lt.mp hi)]
    exact BitVec.zero_and.symm

/-! ### Bits -/

/-- Whether the set has the bit of a number. -/
def hasBit (s : BitSet) (k : Nat) : Bool := (s.word (k / 64)).getLsbD (k % 64)

theorem contains_eq_hasBit : s.contains k = s.hasBit k := Word.has_eq_getLsbD (by omega)

theorem hasBit_insert : (s.insert k).2.hasBit j = (decide (j = k) || s.hasBit j) := by
  rw [hasBit, word_insert]
  by_cases hword : j / 64 = k / 64
  · have hkj : k % 64 = j % 64 ↔ j = k := by omega
    rw [if_pos hword, BitVec.getLsbD_or, Word.getLsbD_bit, hasBit, Bool.or_comm]
    simp [hkj, Nat.mod_lt]
  · have hne : j ≠ k := fun h => hword (h ▸ rfl)
    simp [hword, hne, hasBit]

theorem hasBit_remove : (s.remove k).2.hasBit j = (s.hasBit j && !decide (j = k)) := by
  rw [hasBit, word_remove]
  by_cases hword : j / 64 = k / 64
  · have hkj : k % 64 = j % 64 ↔ j = k := by omega
    rw [if_pos hword, BitVec.getLsbD_and, BitVec.getLsbD_not, Word.getLsbD_bit, hasBit]
    simp [hkj, Nat.mod_lt]
  · have hne : j ≠ k := fun h => hword (h ▸ rfl)
    simp [hword, hne, hasBit]

theorem hasBit_union : (s.union t).hasBit k = (s.hasBit k || t.hasBit k) := by
  rw [hasBit, word_union, BitVec.getLsbD_or]
  rfl

theorem hasBit_intersect : (s.intersect t).hasBit k = (s.hasBit k && t.hasBit k) := by
  rw [hasBit, word_intersect, BitVec.getLsbD_and]
  rfl

theorem lt_of_hasBit (hk : s.hasBit k = true) : k < 64 * s.words.size := by
  by_contra h
  rw [hasBit, word_of_le (by omega)] at hk
  cases hk.symm.trans BitVec.getLsbD_zero

/-! ### Counting -/

/-- Bits are counted word by word. -/
theorem foldl_countP_blocks (p : Nat → Bool) (n : Nat) :
    (List.range n).foldl (fun k i => k + (List.range 64).countP fun j => p (64 * i + j)) 0 =
      (List.range (64 * n)).countP p := by
  induction n with
  | zero => rfl
  | succ n ih =>
      rw [List.range_succ (n := n), List.foldl_append, ih, Nat.mul_succ, List.range_add,
        List.countP_append, List.countP_map]
      rfl

theorem count_eq_countP (s : BitSet) :
    count s.words = (List.range (64 * s.words.size)).countP s.hasBit := by
  have hwords : s.words.toList = (List.range s.words.size).map s.word := by
    refine List.ext_getElem (by simp) fun i hi _ => ?_
    rw [List.getElem_map, List.getElem_range, word_eq_getElem (by simpa using hi),
      Array.getElem_toList]
  have hword (i : Nat) : (s.word i).count = (List.range 64).countP fun j =>
      s.hasBit (64 * i + j) := by
    rw [Word.count_eq_countP]
    refine List.countP_congr fun j hj => ?_
    rw [List.mem_range] at hj
    have hplace : (64 * i + j) / 64 = i ∧ (64 * i + j) % 64 = j := by omega
    rw [hasBit, hplace.1, hplace.2]
  rw [count, ← Array.foldl_toList, hwords, List.foldl_map, ← foldl_countP_blocks]
  simp only [hword]

/-! ### Sets -/

/-- The bits are those of the elements, and the number beside them is the number of elements. -/
structure Represents (s : BitSet) (A : Finset ℕ) : Prop where
  hasBit_iff : ∀ k, s.hasBit k = true ↔ k ∈ A
  size_eq : s.size = A.card

/-- The bits of a set are as many as its elements. -/
theorem count_eq_card (h : ∀ k, s.hasBit k = true ↔ k ∈ A) : count s.words = A.card := by
  have hA : A = ((List.range (64 * s.words.size)).filter s.hasBit).toFinset := by
    ext k
    rw [List.mem_toFinset, List.mem_filter, List.mem_range, h]
    exact ⟨fun hk => ⟨lt_of_hasBit ((h k).mpr hk), hk⟩, fun hk => hk.2⟩
  rw [count_eq_countP, hA, List.toFinset_card_of_nodup (List.nodup_range.filter _),
    List.countP_eq_length_filter]

namespace Represents

theorem empty : Represents .empty ∅ := ⟨fun k => by simp [hasBit], rfl⟩

theorem withCapacity (n : Nat) : Represents (.withCapacity n) ∅ := ⟨fun k => by simp [hasBit], rfl⟩

theorem clear (s : BitSet) : Represents s.clear ∅ := ⟨fun k => by simp [hasBit], rfl⟩

variable (hs : s.Represents A) (ht : t.Represents B)

include hs

theorem contains_eq (k : Nat) : s.contains k = decide (k ∈ A) := by
  rw [contains_eq_hasBit, Bool.eq_iff_iff, hs.hasBit_iff, decide_eq_true_iff]

theorem isEmpty_eq : s.isEmpty = decide (A = ∅) := by
  rw [isEmpty, hs.size_eq, Bool.eq_iff_iff, beq_iff_eq, Finset.card_eq_zero, decide_eq_true_iff]

theorem insert_fst (k : Nat) : (s.insert k).1 = decide (k ∉ A) := by
  have hword : (growTo s.words (k / 64 + 1)).getD (k / 64) 0 = s.word (k / 64) := getD_growTo
  show (!has ((growTo s.words (k / 64 + 1)).getD (k / 64) 0) (k % 64)) = _
  rw [hword, decide_not, ← hs.contains_eq k]
  rfl

theorem insert (k : Nat) : (s.insert k).2.Represents (Insert.insert k A) := by
  refine ⟨fun j => ?_, ?_⟩
  · rw [hasBit_insert, Bool.or_eq_true, decide_eq_true_iff, hs.hasBit_iff, Finset.mem_insert]
  · show (if (s.insert k).1 = true then s.size + 1 else s.size) = _
    rw [hs.insert_fst k, hs.size_eq]
    by_cases hk : k ∈ A
    · simp [hk]
    · simp [hk]

theorem remove_fst (k : Nat) : (s.remove k).1 = decide (k ∈ A) := by
  rw [← hs.contains_eq, contains]
  unfold remove
  split
  next hnone =>
    rw [word_of_le (Array.getElem?_eq_none_iff.mp hnone)]
    rw [has]
    simp
  next w hsome =>
    obtain ⟨hlt, rfl⟩ := Array.getElem?_eq_some_iff.mp hsome
    rw [word_eq_getElem hlt]

theorem remove (k : Nat) : (s.remove k).2.Represents (A.erase k) := by
  refine ⟨fun j => ?_, ?_⟩
  · rw [hasBit_remove, Bool.and_eq_true, hs.hasBit_iff, Finset.mem_erase, and_comm]
    simp
  · have hsize : (s.remove k).2.size = if (s.remove k).1 = true then s.size - 1 else s.size := by
      unfold BitSet.remove
      split <;> rfl
    rw [hsize, hs.remove_fst, hs.size_eq]
    by_cases hk : k ∈ A
    · simp [hk]
    · simp [hk]

theorem insertAll (ks : List Nat) : (s.insertAll ks).Represents (A ∪ ks.toFinset) := by
  induction ks generalizing s A with
  | nil => simpa [BitSet.insertAll] using hs
  | cons k ks ih =>
      rw [List.toFinset_cons, Finset.union_insert, ← Finset.insert_union]
      exact ih (hs.insert k)

theorem removeAll (ks : List Nat) :
    (ks.foldl (fun s k => (s.remove k).2) s).Represents (A \ ks.toFinset) := by
  induction ks generalizing s A with
  | nil => simpa using hs
  | cons k ks ih =>
      rw [List.toFinset_cons, Finset.sdiff_insert, ← Finset.erase_sdiff_comm]
      exact ih (hs.remove k)

include ht

theorem union : (s.union t).Represents (A ∪ B) := by
  have hbits (k : Nat) : (s.union t).hasBit k = true ↔ k ∈ A ∪ B := by
    rw [hasBit_union, Bool.or_eq_true, hs.hasBit_iff, ht.hasBit_iff, Finset.mem_union]
  exact ⟨hbits, count_eq_card hbits⟩

theorem intersect : (s.intersect t).Represents (A ∩ B) := by
  have hbits (k : Nat) : (s.intersect t).hasBit k = true ↔ k ∈ A ∩ B := by
    rw [hasBit_intersect, Bool.and_eq_true, hs.hasBit_iff, ht.hasBit_iff, Finset.mem_inter]
  exact ⟨hbits, count_eq_card hbits⟩

theorem isSubset_eq : s.isSubset t = decide (A ⊆ B) := by
  rw [Bool.eq_iff_iff, BitSet.isSubset, List.all_eq_true, decide_eq_true_iff]
  simp only [List.mem_range, beq_iff_eq, Word.and_not_eq_zero_iff]
  constructor
  · intro h k hk
    have hbit := (hs.hasBit_iff k).mpr hk
    have hlt := lt_of_hasBit hbit
    exact (ht.hasBit_iff k).mp (h (k / 64) (by omega) (k % 64) hbit)
  · intro h i _ j hj
    have hplace : (64 * i + j) / 64 = i ∧ (64 * i + j) % 64 = j := by
      have := BitVec.lt_of_getLsbD hj
      omega
    have hk : s.hasBit (64 * i + j) = true := by
      rw [hasBit, hplace.1, hplace.2]
      exact hj
    have hbit := (ht.hasBit_iff _).mpr (h ((hs.hasBit_iff _).mp hk))
    rw [hasBit, hplace.1, hplace.2] at hbit
    exact hbit

theorem equals_eq : s.equals t = decide (A = B) := by
  rw [equals, hs.isSubset_eq ht, hs.size_eq, ht.size_eq, Bool.eq_iff_iff, Bool.and_eq_true,
    beq_iff_eq, decide_eq_true_iff, decide_eq_true_iff]
  constructor
  · exact fun h => Finset.eq_of_subset_of_card_le h.2 h.1.ge
  · exact fun h => ⟨h ▸ rfl, h ▸ Finset.Subset.refl A⟩

end Represents

end BitSet

end ModelFinder
