import ModelFinder.Arranged
import ModelFinder.Proofs.BitSet

/-!
# What an iteration visits

At each moment of an iteration some elements are still ahead (`BitSet.Ahead`).  The next element is
the least of them, and afterwards all others are ahead.  So the elements are visited in increasing
order, each of them once, and what is asked about an element may depend on all those below it.

* `BitSet.Represents.toList_eq`, `BitSet.Represents.first?_eq`, `BitSet.Represents.last?_eq`
* `BitSet.Represents.retain`: which elements are kept.
-/

namespace ModelFinder

namespace BitSet

variable {s : BitSet} {c c' : Cursor} {k : Nat} {A : Finset ℕ}

/-! ### Elements ahead -/

/-- The number is still to come: its bit is left of the current word, or is in a later word. -/
def Ahead (s : BitSet) (c : Cursor) (k : Nat) : Prop :=
  k / 64 = c.place ∧ c.left.getLsbD (k % 64) = true ∨ c.place < k / 64 ∧ s.hasBit k = true

theorem ahead_start : s.Ahead s.start k ↔ s.hasBit k = true := by
  unfold Ahead start hasBit
  by_cases hk : k / 64 = 0
  · simp [hk]
  · simp [hk, Nat.pos_of_ne_zero hk]

/-- With no bits left of a word, the next word is to come. -/
theorem ahead_of_left_eq_zero (hleft : c.left = 0) (hlt : c.place + 1 < s.words.size) :
    s.Ahead c k ↔ s.Ahead ⟨c.place + 1, s.words[c.place + 1]⟩ k := by
  have hword : k / 64 = c.place + 1 →
      (s.hasBit k = true ↔ s.words[c.place + 1].getLsbD (k % 64) = true) := by
    intro hk
    rw [hasBit, hk, word_eq_getElem hlt]
  have hzero : c.left.getLsbD (k % 64) = false := by rw [hleft]; exact BitVec.getLsbD_zero
  simp only [Ahead, hzero, Bool.false_eq_true, and_false, false_or]
  rcases Nat.lt_trichotomy (k / 64) (c.place + 1) with h | h | h
  · simp [h.ne, Nat.not_lt.mpr h.le, Nat.not_lt.mpr (Nat.le_of_lt_succ h)]
  · simp [h, hword h]
  · simp [h.ne', h, Nat.lt_of_succ_lt h]

/-- The next element is the lowest bit that is left. -/
theorem ahead_of_left_ne_zero (hleft : c.left ≠ 0) :
    s.Ahead c k ↔ k = c.place * 64 + Word.lowest c.left ∨
      s.Ahead ⟨c.place, Word.dropLowest c.left⟩ k := by
  have hlt := Word.lowest_lt hleft
  have hlowest := Word.getLsbD_lowest hleft
  simp only [Ahead, Word.getLsbD_dropLowest hleft, Bool.and_eq_true, decide_eq_true_eq]
  by_cases hplace : k / 64 = c.place
  · by_cases hk : k % 64 = Word.lowest c.left
    · have heq : k = c.place * 64 + Word.lowest c.left := by omega
      exact iff_of_true (.inl ⟨hplace, hk ▸ hlowest⟩) (.inl heq)
    · have hne : k ≠ c.place * 64 + Word.lowest c.left := by omega
      simp [hplace, hk, hne]
  · have hne : k ≠ c.place * 64 + Word.lowest c.left := by omega
    simp [hplace, hne]

theorem lt_of_ahead_dropLowest (hleft : c.left ≠ 0)
    (hk : s.Ahead ⟨c.place, Word.dropLowest c.left⟩ k) :
    c.place * 64 + Word.lowest c.left < k := by
  have hlt := Word.lowest_lt hleft
  rcases hk with ⟨hplace, hbit⟩ | ⟨hplace, -⟩
  · rw [Word.getLsbD_dropLowest hleft, Bool.and_eq_true, decide_eq_true_iff] at hbit
    have hle := Word.lowest_le hbit.1
    dsimp only at hplace
    omega
  · dsimp only at hplace
    omega

theorem not_ahead_of_next?_eq_none (h : s.next? c = none) : ¬ s.Ahead c k := by
  fun_induction next? s c with
  | case1 c hleft hlt ih => exact fun hk => ih h ((ahead_of_left_eq_zero hleft hlt).mp hk)
  | case2 c hleft hge =>
      rintro (⟨-, hbit⟩ | ⟨hplace, hbit⟩)
      · rw [hleft] at hbit
        cases hbit.symm.trans BitVec.getLsbD_zero
      · have hlt := lt_of_hasBit hbit
        omega
  | case3 => cases h

theorem ahead_iff_of_next?_eq_some (h : s.next? c = some (k, c')) :
    (∀ j, s.Ahead c j ↔ j = k ∨ s.Ahead c' j) ∧ ∀ j, s.Ahead c' j → k < j := by
  fun_induction next? s c with
  | case1 c hleft hlt ih =>
      obtain ⟨hahead, hbelow⟩ := ih h
      exact ⟨fun j => (ahead_of_left_eq_zero hleft hlt).trans (hahead j), hbelow⟩
  | case2 => cases h
  | case3 c hleft =>
      cases h
      exact ⟨fun j => ahead_of_left_ne_zero hleft, fun j => lt_of_ahead_dropLowest hleft⟩

/-- An iteration visits all elements ahead, in increasing order. -/
theorem toListFrom_increasing (s : BitSet) (c : Cursor) :
    (s.toListFrom c).Pairwise (· < ·) ∧ ∀ k, k ∈ s.toListFrom c ↔ s.Ahead c k := by
  fun_induction toListFrom s c with
  | case1 c h => exact ⟨.nil, fun k => by simp [not_ahead_of_next?_eq_none h]⟩
  | case2 c k c' h ih =>
      obtain ⟨hahead, hbelow⟩ := ahead_iff_of_next?_eq_some h
      refine ⟨List.pairwise_cons.mpr ⟨fun j hj => hbelow j ((ih.2 j).mp hj), ih.1⟩, fun j => ?_⟩
      rw [List.mem_cons, ih.2, hahead]

/-! ### Sets -/

/-- The elements of a set are listed in one way. -/
theorem eq_sort {xs : List Nat} (hxs : xs.Pairwise (· < ·)) (h : ∀ k, k ∈ xs ↔ k ∈ A) :
    xs = A.sort := by
  have hranked : xs.Pairwise (id · < id ·) := hxs
  exact Arranged.eq_of_mem_iff hranked A.sortedLT_sort.pairwise fun k => by
    rw [h, Finset.mem_sort]

namespace Represents

variable (hs : s.Represents A)

include hs

theorem toList_eq : s.toList = A.sort := by
  obtain ⟨hincreasing, hmem⟩ := s.toListFrom_increasing s.start
  exact eq_sort hincreasing fun k => (hmem k).trans (ahead_start.trans (hs.hasBit_iff k))

theorem first?_eq : s.first? = if h : A.Nonempty then some (A.min' h) else none := by
  have hahead (k : Nat) : s.Ahead s.start k ↔ k ∈ A := ahead_start.trans (hs.hasBit_iff k)
  unfold first?
  cases hnext : s.next? s.start with
  | none =>
      have hempty : ¬ A.Nonempty := fun ⟨k, hk⟩ =>
        not_ahead_of_next?_eq_none hnext ((hahead k).mpr hk)
      rw [dif_neg hempty, Option.map_none]
  | some next =>
      obtain ⟨k, c⟩ := next
      obtain ⟨hiff, hbelow⟩ := ahead_iff_of_next?_eq_some hnext
      have hk : k ∈ A := (hahead k).mp ((hiff k).mpr (.inl rfl))
      have hmin : A.min' ⟨k, hk⟩ = k := (A.min'_eq_iff _ _).mpr ⟨hk, fun j hj => by
        rcases (hiff j).mp ((hahead j).mpr hj) with rfl | hj
        · exact Nat.le_refl _
        · exact (hbelow j hj).le⟩
      rw [dif_pos ⟨k, hk⟩, hmin, Option.map_some]

theorem last?_eq : s.last? = if h : A.Nonempty then some (A.max' h) else none := by
  have hword {k : Nat} (hk : k ∈ A) : k / 64 < s.words.size ∧ s.word (k / 64) ≠ 0 := by
    have hbit := (hs.hasBit_iff k).mpr hk
    refine ⟨by have := lt_of_hasBit hbit; omega, fun hzero => ?_⟩
    rw [hasBit, hzero] at hbit
    cases hbit.symm.trans BitVec.getLsbD_zero
  unfold last?
  cases hfind : (List.range s.words.size).reverse.find? fun i => s.word i != 0 with
  | none =>
      have hzero := List.find?_eq_none.mp hfind
      have hempty : ¬ A.Nonempty := by
        rintro ⟨k, hk⟩
        exact hzero (k / 64) (by simpa using (hword hk).1) (by simpa using (hword hk).2)
      rw [dif_neg hempty, Option.map_none]
  | some i =>
      obtain ⟨hi, later, earlier, hsplit, hlater⟩ := List.find?_eq_some_iff_append.mp hfind
      have hne : s.word i ≠ 0 := by simpa using hi
      have hplace : (i * 64 + Word.highest (s.word i)) / 64 = i ∧
          (i * 64 + Word.highest (s.word i)) % 64 = Word.highest (s.word i) := by
        rw [Word.highest]
        omega
      have hk : i * 64 + Word.highest (s.word i) ∈ A := by
        rw [← hs.hasBit_iff, hasBit, hplace.1, hplace.2]
        exact Word.getLsbD_highest hne
      have hle : ∀ j ∈ A, j ≤ i * 64 + Word.highest (s.word i) := by
        intro j hj
        obtain ⟨hlt, hj'⟩ := hword hj
        have hmem : j / 64 ∈ later ++ i :: earlier := hsplit ▸ by simpa using hlt
        rcases List.mem_append.mp hmem with hmem | hmem
        · exact absurd (hlater _ hmem) (by simpa using hj')
        rcases List.mem_cons.mp hmem with heq | hmem
        · have hbit := (hs.hasBit_iff j).mpr hj
          rw [hasBit, heq] at hbit
          have := Word.le_highest hbit
          omega
        · have hdecreasing : (later ++ i :: earlier).Pairwise (· > ·) :=
            hsplit ▸ List.pairwise_reverse.mpr List.pairwise_lt_range
          have hlt : j / 64 < i :=
            (List.pairwise_cons.mp (List.pairwise_append.mp hdecreasing).2.1).1 _ hmem
          omega
      have hmax : A.max' ⟨_, hk⟩ = i * 64 + Word.highest (s.word i) :=
        (A.max'_eq_iff _ _).mpr ⟨hk, hle⟩
      rw [dif_pos ⟨_, hk⟩, hmax, Option.map_some]

end Represents

/-! ### Keeping some elements -/

/-- What is asked about, and what is rejected, when elements are asked about in turn. -/
theorem exists_foldl_visit (keep : List Nat → Nat → Bool) (ks visited rejected : List Nat) :
    ∃ more, ks.foldl (fun (visited, rejected) k =>
        (visited ++ [k], if keep visited k then rejected else rejected ++ [k]))
        (visited, rejected) = (visited ++ ks, rejected ++ more) ∧
      ∀ k, k ∈ more ↔ ∃ before after, ks = before ++ k :: after ∧
        keep (visited ++ before) k = false := by
  induction ks generalizing visited rejected with
  | nil => exact ⟨[], by simp, by simp⟩
  | cons j ks ih =>
      obtain ⟨more, hfold, hmore⟩ :=
        ih (visited ++ [j]) (if keep visited j then rejected else rejected ++ [j])
      refine ⟨if keep visited j then more else j :: more, ?_, fun k => ?_⟩
      · rw [List.foldl_cons, hfold]
        cases keep visited j <;> simp
      · have hsplit : (∃ before after, j :: ks = before ++ k :: after ∧
              keep (visited ++ before) k = false) ↔
            j = k ∧ keep visited k = false ∨ k ∈ more := by
          rw [hmore]
          constructor
          · rintro ⟨before, after, heq, hkeep⟩
            cases before with
            | nil =>
                obtain ⟨rfl, -⟩ := List.cons.inj heq
                exact .inl ⟨rfl, by simpa using hkeep⟩
            | cons j' before =>
                obtain ⟨rfl, rfl⟩ := List.cons.inj heq
                exact .inr ⟨before, after, rfl, by simpa using hkeep⟩
          · rintro (⟨rfl, hkeep⟩ | ⟨before, after, rfl, hkeep⟩)
            · exact ⟨[], ks, rfl, by simpa using hkeep⟩
            · exact ⟨j :: before, after, rfl, by simpa using hkeep⟩
        rw [hsplit]
        cases hkeep : keep visited j with
        | true =>
            have hne : ¬ (j = k ∧ keep visited k = false) := by
              rintro ⟨rfl, h⟩
              cases hkeep.symm.trans h
            simp [hne]
        | false =>
            have hiff : (j = k ∧ keep visited k = false) ↔ k = j := by
              constructor
              · exact fun h => h.1.symm
              · rintro rfl
                exact ⟨rfl, hkeep⟩
            simp [hiff]

/-- What is in front of an element is what is below it. -/
theorem sort_eq_append {before after : List Nat} (h : A.sort = before ++ k :: after) :
    before = (A.filter (· < k)).sort := by
  have hincreasing : (before ++ k :: after).Pairwise (· < ·) := h ▸ A.sortedLT_sort.pairwise
  obtain ⟨hbefore, hafter, hcross⟩ := List.pairwise_append.mp hincreasing
  refine eq_sort hbefore fun j => ?_
  rw [Finset.mem_filter, ← Finset.mem_sort (· ≤ ·), h, List.mem_append, List.mem_cons]
  constructor
  · exact fun hj => ⟨.inl hj, hcross j hj k List.mem_cons_self⟩
  · rintro ⟨hj | rfl | hj, hlt⟩
    · exact hj
    · exact absurd hlt (Nat.lt_irrefl j)
    · exact absurd ((List.pairwise_cons.mp hafter).1 j hj) (Nat.not_lt.mpr hlt.le)

/-- **All elements are asked about in increasing order, and those that are accepted are kept.** -/
theorem Represents.retain (hs : s.Represents A) (keep : List Nat → Nat → Bool) :
    (s.retain keep).1 = A.sort ∧
      (s.retain keep).2.Represents (A.filter fun k => keep (A.filter (· < k)).sort k) := by
  obtain ⟨rejected, hfold, hrejected⟩ := exists_foldl_visit keep A.sort [] []
  have hretain : s.retain keep =
      (A.sort, rejected.foldl (fun s k => (s.remove k).2) s) := by
    rw [BitSet.retain, hs.toList_eq, hfold]
    rfl
  rw [hretain]
  refine ⟨rfl, ?_⟩
  have hkept : A.filter (fun k => keep (A.filter (· < k)).sort k) = A \ rejected.toFinset := by
    ext k
    rw [Finset.mem_filter, Finset.mem_sdiff, List.mem_toFinset, hrejected]
    refine and_congr_right fun hk => ?_
    obtain ⟨before, after, hsplit⟩ :=
      List.append_of_mem ((Finset.mem_sort (· ≤ ·)).mpr hk)
    constructor
    · rintro hkeep ⟨before', after', hsplit', hfalse⟩
      rw [List.nil_append, sort_eq_append hsplit', hkeep] at hfalse
      cases hfalse
    · intro h
      by_contra hkeep
      refine h ⟨before, after, hsplit, ?_⟩
      rw [List.nil_append, sort_eq_append hsplit]
      exact Bool.eq_false_iff.mpr hkeep
  rw [hkept]
  exact hs.removeAll rejected

end BitSet

end ModelFinder
