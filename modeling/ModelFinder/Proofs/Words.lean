import ModelFinder.Latin1

/-!
# Words of a text

The text formats of the library separate words by blanks, each format by blanks of its own.
`wordsBy` cuts a text there.  How long the blanks are makes no difference, so the texts with given
words are the ways to lay these words out.

* `wordsBy_append`, `wordsBy_blanks_append`: a word or blanks in front of a text.
* `exists_of_wordsBy_eq_cons`: where the first word of a text stands.
* `Latin1.words_eq`: the words of a line in Latin-1.
-/

namespace ModelFinder

/-- The words of a text: what stands between its blanks. -/
def wordsBy (blank : UInt8 → Bool) (text : List UInt8) : List (List UInt8) :=
  (text.splitOnP blank).filter (!·.isEmpty)

variable {p q : UInt8 → Bool} {b : UInt8} {s w gap rest xs ys : List UInt8} {ws : List (List UInt8)}

/-- A word has a byte, and no blanks. -/
structure IsWord (blank : UInt8 → Bool) (w : List UInt8) : Prop where
  ne_nil : w ≠ []
  not_blank : ∀ b ∈ w, blank b = false

/-- A text is over or goes on with a blank. -/
def AtBlank (blank : UInt8 → Bool) (s : List UInt8) : Prop := ∀ b ∈ s.head?, blank b = true

@[simp] theorem atBlank_nil : AtBlank p [] := by simp [AtBlank]

@[simp] theorem atBlank_cons : AtBlank p (b :: s) ↔ p b = true := by simp [AtBlank]

@[simp] theorem wordsBy_nil : wordsBy p [] = [] := rfl

theorem wordsBy_append_cons (hb : p b = true) :
    wordsBy p (xs ++ b :: ys) = wordsBy p xs ++ wordsBy p ys := by
  simp [wordsBy, List.splitOnP_append_cons, hb]

theorem wordsBy_cons_of_blank (hb : p b = true) : wordsBy p (b :: s) = wordsBy p s :=
  @wordsBy_append_cons p b [] s hb

theorem IsWord.wordsBy_eq (hw : IsWord p w) : wordsBy p w = [w] := by
  simp [wordsBy, List.splitOnP_eq_singleton hw.not_blank, hw.ne_nil]

/-- A word in front of a text that does not go on with it. -/
theorem wordsBy_append (hw : IsWord p w) (hrest : AtBlank p rest) :
    wordsBy p (w ++ rest) = w :: wordsBy p rest := by
  cases rest with
  | nil => simp [hw.wordsBy_eq]
  | cons b rest =>
      have hb := atBlank_cons.mp hrest
      rw [wordsBy_append_cons hb, hw.wordsBy_eq, wordsBy_cons_of_blank hb, List.singleton_append]

theorem wordsBy_blanks_append (hgap : ∀ b ∈ gap, p b = true) :
    wordsBy p (gap ++ s) = wordsBy p s := by
  induction gap with
  | nil => rfl
  | cons b gap ih =>
      obtain ⟨hb, hgap⟩ := List.forall_mem_cons.mp hgap
      rw [List.cons_append, wordsBy_cons_of_blank hb, ih hgap]

theorem wordsBy_append_blanks (hgap : ∀ b ∈ gap, p b = true) :
    wordsBy p (s ++ gap) = wordsBy p s := by
  cases gap with
  | nil => rw [List.append_nil]
  | cons b gap =>
      obtain ⟨hb, hgap⟩ := List.forall_mem_cons.mp hgap
      have hnil : wordsBy p gap = [] := by simpa using wordsBy_blanks_append (s := []) hgap
      rw [wordsBy_append_cons hb, hnil, List.append_nil]

/-- The first word of a text that starts with one: its bytes up to a blank. -/
theorem exists_word (hb : p b = false) :
    ∃ w rest, b :: s = w ++ rest ∧ IsWord p w ∧ AtBlank p rest := by
  refine ⟨(b :: s).takeWhile (!p ·), (b :: s).dropWhile (!p ·),
    List.takeWhile_append_dropWhile.symm, ⟨by simp [hb], fun c hc => ?_⟩, fun c hc => ?_⟩
  · simpa using List.all_eq_true.mp List.all_takeWhile c hc
  · have hhead := List.head?_dropWhile_not (!p ·) (b :: s)
    rw [Option.mem_def.mp hc] at hhead
    simpa using hhead

/-- The first word of a text stands after some blanks and goes on to another. -/
theorem exists_of_wordsBy_eq_cons (h : wordsBy p s = w :: ws) :
    ∃ gap rest, s = gap ++ (w ++ rest) ∧ (∀ b ∈ gap, p b = true) ∧ IsWord p w ∧ AtBlank p rest ∧
      wordsBy p rest = ws := by
  induction s with
  | nil => simp at h
  | cons b s ih =>
      cases hb : p b with
      | true =>
          rw [wordsBy_cons_of_blank hb] at h
          obtain ⟨gap, rest, rfl, hgap, hw, hrest, hws⟩ := ih h
          exact ⟨b :: gap, rest, rfl, List.forall_mem_cons.mpr ⟨hb, hgap⟩, hw, hrest, hws⟩
      | false =>
          obtain ⟨v, rest, heq, hv, hrest⟩ := exists_word (s := s) hb
          rw [heq, wordsBy_append hv hrest] at h
          obtain ⟨rfl, rfl⟩ := List.cons.inj h
          exact ⟨[], rest, heq, fun _ hc => absurd hc List.not_mem_nil, hv, hrest, rfl⟩

theorem isWord_of_mem_wordsBy (hw : w ∈ wordsBy p s) : IsWord p w := by
  induction hs : wordsBy p s generalizing s with
  | nil => simp [hs] at hw
  | cons v ws ih =>
      obtain ⟨gap, rest, -, -, hv, -, hrest⟩ := exists_of_wordsBy_eq_cons hs
      rw [hs] at hw
      rcases List.mem_cons.mp hw with rfl | hw
      · exact hv
      · exact ih (hrest ▸ hw) hrest

theorem wordsBy_eq_nil_iff : wordsBy p s = [] ↔ ∀ b ∈ s, p b = true := by
  constructor
  · intro h
    induction s with
    | nil => simp
    | cons b s ih =>
        cases hb : p b with
        | true => exact List.forall_mem_cons.mpr ⟨hb, ih (wordsBy_cons_of_blank hb ▸ h)⟩
        | false =>
            obtain ⟨w, rest, heq, hw, hrest⟩ := exists_word (s := s) hb
            rw [heq, wordsBy_append hw hrest] at h
            cases h
  · intro h
    simpa using wordsBy_blanks_append (s := []) h

/-- Every byte is a blank or belongs to a word. -/
theorem blank_or_mem_wordsBy (hb : b ∈ s) : p b = true ∨ ∃ w ∈ wordsBy p s, b ∈ w := by
  induction hs : wordsBy p s generalizing s with
  | nil => exact .inl (wordsBy_eq_nil_iff.mp hs b hb)
  | cons v ws ih =>
      obtain ⟨gap, rest, rfl, hgap, -, -, hrest⟩ := exists_of_wordsBy_eq_cons hs
      rw [List.mem_append, List.mem_append] at hb
      rcases hb with hb | hb | hb
      · exact .inl (hgap b hb)
      · exact .inr ⟨v, List.mem_cons_self, hb⟩
      · obtain hb | ⟨w, hw, hb⟩ := ih hb hrest
        · exact .inl hb
        · exact .inr ⟨w, List.mem_cons_of_mem v hw, hb⟩

theorem wordsBy_congr (h : ∀ b ∈ s, p b = q b) : wordsBy p s = wordsBy q s := by
  have hsplit : s.splitOnP p = s.splitOnP q := by
    induction s with
    | nil => rfl
    | cons b s ih =>
        obtain ⟨hb, h⟩ := List.forall_mem_cons.mp h
        rw [List.splitOnP_cons_eq_if_modifyHead, List.splitOnP_cons_eq_if_modifyHead, hb, ih h]
  rw [wordsBy, wordsBy, hsplit]

/-- What stands between separators holds none. -/
theorem not_mem_of_mem_splitOn {a : UInt8} {l : List UInt8} (h : l ∈ s.splitOn a) : a ∉ l := by
  induction s generalizing l with
  | nil =>
      rw [List.splitOn_nil, List.mem_singleton] at h
      rw [h]
      exact List.not_mem_nil
  | cons b s ih =>
      rw [List.splitOn_cons_eq_if_modifyHead] at h
      split at h
      next =>
        rcases List.mem_cons.mp h with rfl | h
        · exact List.not_mem_nil
        · exact ih h
      next hne =>
        cases hsplit : s.splitOn a with
        | nil => exact absurd hsplit (List.splitOn_ne_nil a s)
        | cons k ks =>
            rw [hsplit, List.modifyHead_cons] at h
            rcases List.mem_cons.mp h with rfl | h
            · have hba : a ≠ b := fun heq => hne (by simp [heq])
              simpa [hba] using ih (hsplit ▸ List.mem_cons_self)
            · exact ih (hsplit ▸ List.mem_cons_of_mem k h)

/-- The words of some lines. -/
theorem wordsBy_intercalate (hb : p b = true) (ls : List (List UInt8)) :
    wordsBy p ([b].intercalate ls) = ls.flatMap (wordsBy p) := by
  induction ls with
  | nil => rfl
  | cons l ls ih =>
      cases ls with
      | nil => simp
      | cons l' ls =>
          rw [List.intercalate_cons_of_ne_nil (List.cons_ne_nil l' ls), List.append_assoc,
            List.singleton_append, wordsBy_append_cons hb, ih]
          rfl

/-! ### Lines in Latin-1 -/

theorem Latin1.consWord_cut (hw : ∀ b ∈ w, Latin1.isBlank b = false) :
    Latin1.consWord (w ++ (Latin1.cut s).1) (Latin1.cut s).2 = wordsBy Latin1.isBlank (w ++ s) := by
  induction s generalizing w with
  | nil =>
      cases w with
      | nil => rfl
      | cons b w =>
          have hword : IsWord Latin1.isBlank (b :: w) := ⟨List.cons_ne_nil b w, hw⟩
          simp [Latin1.cut, Latin1.consWord, hword.wordsBy_eq]
  | cons b s ih =>
      cases hb : Latin1.isBlank b with
      | true =>
          rw [wordsBy_append_cons hb, ← List.nil_append s, ← ih (by simp)]
          cases w with
          | nil => simp [Latin1.cut, hb, Latin1.consWord]
          | cons c w =>
              have hword : IsWord Latin1.isBlank (c :: w) := ⟨List.cons_ne_nil c w, hw⟩
              simp [Latin1.cut, hb, Latin1.consWord, hword.wordsBy_eq]
      | false =>
          have hw' : ∀ c ∈ w ++ [b], Latin1.isBlank c = false := by
            simpa [or_imp, forall_and, hb] using hw
          have hcut := ih hw'
          rw [List.append_assoc, List.append_assoc] at hcut
          simpa [Latin1.cut, hb] using hcut

theorem Latin1.words_eq (s : List UInt8) : Latin1.words s = wordsBy Latin1.isBlank s := by
  simpa [Latin1.words] using Latin1.consWord_cut (w := []) (s := s) (by simp)

/-- A line is what is left of it after trimming, with white space at both ends. -/
theorem Latin1.exists_trim (s : List UInt8) :
    ∃ xs ys, s = xs ++ (Latin1.trim s ++ ys) ∧ (∀ b ∈ xs, Latin1.isBlank b = true) ∧
      ∀ b ∈ ys, Latin1.isBlank b = true := by
  refine ⟨s.takeWhile Latin1.isBlank,
    (((s.dropWhile Latin1.isBlank).reverse).takeWhile Latin1.isBlank).reverse, ?_, ?_, ?_⟩
  · rw [Latin1.trim, ← List.reverse_append, List.takeWhile_append_dropWhile, List.reverse_reverse,
      List.takeWhile_append_dropWhile]
  · exact List.all_eq_true.mp List.all_takeWhile
  · intro b hb
    exact List.all_eq_true.mp List.all_takeWhile b (List.mem_reverse.mp hb)

@[simp] theorem Latin1.words_trim (s : List UInt8) :
    Latin1.words (Latin1.trim s) = Latin1.words s := by
  obtain ⟨xs, ys, hs, hxs, hys⟩ := Latin1.exists_trim s
  have hwords : wordsBy Latin1.isBlank (xs ++ (Latin1.trim s ++ ys)) =
      wordsBy Latin1.isBlank (Latin1.trim s) := by
    rw [wordsBy_blanks_append hxs, wordsBy_append_blanks hys]
  rw [Latin1.words_eq, Latin1.words_eq, ← hwords, ← hs]

/-- Trimming keeps what stands in front of a word. -/
theorem Latin1.isPrefixOf_trim (hb : Latin1.isBlank b = false)
    (hrest : Latin1.words rest ≠ []) :
    (b :: xs).isPrefixOf (Latin1.trim (b :: xs ++ rest)) = true := by
  obtain ⟨as, ys, hs, has, hys⟩ := Latin1.exists_trim (b :: xs ++ rest)
  rw [List.isPrefixOf_iff_prefix]
  cases as with
  | cons a as =>
      rw [List.cons_append, List.cons_append] at hs
      rw [(List.cons.inj hs).1, has a List.mem_cons_self] at hb
      cases hb
  | nil =>
      rw [List.nil_append] at hs
      rcases List.append_eq_append_iff.mp hs with ⟨zs, htrim, -⟩ | ⟨zs, -, hys'⟩
      · exact ⟨zs, htrim.symm⟩
      · refine absurd ?_ hrest
        rw [Latin1.words_eq]
        exact wordsBy_eq_nil_iff.mpr fun c hc => hys c (hys' ▸ List.mem_append_right zs hc)

end ModelFinder
