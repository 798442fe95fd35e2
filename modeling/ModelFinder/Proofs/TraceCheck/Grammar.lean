import ModelFinder.Proofs.TraceCheck.Reader
import ModelFinder.Proofs.Words
import Mathlib.Data.List.Basic

/-!
# The grammar of the TraceCheck format

A line holds a step if its words are a number, the codes of the literals, a zero, the antecedents
and another zero (`SpellStep`).  The reader takes a number off a line exactly if the line goes on
with a word for it (`reads_unsigned`, `reads_code`), hence numbers up to a zero (`upToZero_of_list`,
`exists_list`) and a whole line (`line_eq_some_iff`).  A newline ends a line like a blank, so that
it can be taken for one as long as it is the last byte.

The lines of a source are what stands between its newlines (`lines_eq_terminated`), and a reader
that takes one step after the other tells the outcome of each line, whatever the other lines are
(`outcomes_eq`): `readSteps_grammar`.
-/

namespace ModelFinder.TraceCheck

open Decimal (isDigit digitValue value natural? integer? word64 half32 half64)

variable {α : Type} {s r w ds gap rest : List UInt8} {ws : List (List UInt8)} {b : UInt8}

/-! ### Words -/

/-- A word for a number of 64 bits. -/
def IsNumber (w : List UInt8) (n : Nat) : Prop := natural? w = some n ∧ n < word64

/-- A word for a code of 32 bits. -/
def IsCode (w : List UInt8) (c : Int) : Prop :=
  integer? w = some c ∧ -(half32 : Int) ≤ c ∧ c < half32

/-- Words for numbers other than 0, a word for 0, and the words after that. -/
inductive UpToZero [OfNat α 0] (For : List UInt8 → α → Prop) :
    List (List UInt8) → List α → List (List UInt8) → Prop
  | zero {w : List UInt8} {ws : List (List UInt8)} : For w 0 → UpToZero For (w :: ws) [] ws
  | cons {w : List UInt8} {ws rest : List (List UInt8)} {a : α} {as : List α} :
      For w a → a ≠ 0 → UpToZero For ws as rest → UpToZero For (w :: ws) (a :: as) rest

/-- The words for a step. -/
def SpellStep (ws : List (List UInt8)) (step : Step) : Prop :=
  ∃ w vs rest, ws = w :: vs ∧ (IsNumber w step.id ∧ step.id ≠ 0) ∧
    UpToZero IsCode vs step.literals rest ∧ UpToZero IsNumber rest step.antecedents []

/-- A line that is blank, or a comment. -/
def holdsNothing (line : List UInt8) : Bool :=
  match line.dropWhile isBlank with
  | [] => true
  | b :: _ => b == 99

/-- The bytes that end a word. -/
def endsWord (b : UInt8) : Bool := isBlank b || b == 10

/-! ### Numbers -/

/-- `number` takes a number off a line if the line goes on with a word for it. -/
structure Reads (number : List UInt8 → Except Fault (α × List UInt8))
    (For : List UInt8 → α → Prop) : Prop where
  eq_ok_iff : ∀ {s r : List UInt8} {a : α},
    number s = .ok (a, r) ↔ ∃ w, s = w ++ r ∧ For w a ∧ NoDigit r
  isWord : ∀ {w : List UInt8} {a : α}, For w a → IsWord endsWord w

theorem natural?_eq_some_iff {n : Nat} : natural? w = some n ↔ IsNumeral w ∧ value w = n := by
  rw [Decimal.natural?_eq_some_iff]
  exact and_congr_left' ⟨fun h => ⟨h.1, h.2⟩, fun h => ⟨h.1, h.2⟩⟩

theorem isNumber_iff {n : Nat} : IsNumber w n ↔ IsNumeral w ∧ value w = n ∧ n < word64 := by
  rw [IsNumber, natural?_eq_some_iff, and_assoc]

theorem moreDigits_eq_ok {left n m : Nat} (h : moreDigits left n s = .ok (m, r)) (hn : n < word64) :
    ∃ ds, s = ds ++ r ∧ (∀ b ∈ ds, isDigit b = true) ∧ NoDigit r ∧
      m = ds.foldl (fun n b => 10 * n + digitValue b) n ∧ m < word64 := by
  fun_induction moreDigits left n s with
  | case1 => cases h; exact ⟨[], rfl, by simp, by simp [NoDigit], rfl, hn⟩
  | case2 n b s hb m hm ih =>
      obtain ⟨ds, rfl, hds, hr, hm'⟩ := ih h hm
      exact ⟨b :: ds, rfl, List.forall_mem_cons.mpr ⟨hb, hds⟩, hr, hm'⟩
  | case3 => cases h
  | case4 n b s hb =>
      cases h
      exact ⟨[], rfl, by simp, noDigit_cons.mpr (by simpa using hb), rfl, hn⟩

theorem not_endsWord_of_isDigit (hb : isDigit b = true) : endsWord b = false := by
  rw [endsWord, isBlank_of_isDigit hb, Bool.false_or, beq_eq_false_iff_ne]
  exact Decimal.ne_of_isDigit hb (by decide)

theorem noDigit_of_atBlank (hr : AtBlank endsWord r) : NoDigit r := by
  intro b hb
  cases hdigit : isDigit b with
  | false => rfl
  | true =>
      have hend := hr b hb
      rw [not_endsWord_of_isDigit hdigit] at hend
      cases hend

theorem IsNumeral.isWord (hds : IsNumeral ds) : IsWord endsWord ds :=
  ⟨hds.ne_nil, fun b hb => not_endsWord_of_isDigit (hds.digits b hb)⟩

theorem reads_unsigned : Reads unsigned IsNumber where
  eq_ok_iff {s r n} := by
    constructor
    · intro h
      unfold unsigned at h
      split at h
      · cases h
      next b s =>
        split at h
        next hb =>
          have hlt : digitValue b < word64 := Nat.lt_trans (Decimal.digitValue_lt hb) (by decide)
          obtain ⟨ds, rfl, hds, hr, rfl, hn⟩ := moreDigits_eq_ok h hlt
          refine ⟨b :: ds, rfl, isNumber_iff.mpr ⟨⟨List.cons_ne_nil b ds, ?_⟩, ?_, hn⟩, hr⟩
          · exact List.forall_mem_cons.mpr ⟨hb, hds⟩
          · simp [value]
        next => cases h
    · rintro ⟨w, rfl, hw, hr⟩
      obtain ⟨hds, hvalue, hn⟩ := isNumber_iff.mp hw
      rw [unsigned_append hds hr (hvalue ▸ hn), hvalue]
  isWord hw := (isNumber_iff.mp hw).1.isWord

theorem magnitude_eq_ok_iff {n : Nat} :
    magnitude s = .ok (n, r) ↔
      ∃ ds, s = ds ++ r ∧ (IsNumeral ds ∧ value ds = n ∧ n < half64) ∧ NoDigit r := by
  constructor
  · intro h
    obtain ⟨⟨m, r'⟩, hm, h⟩ := bind_eq_ok.mp h
    obtain ⟨ds, rfl, hnumber, hr⟩ := reads_unsigned.eq_ok_iff.mp hm
    obtain ⟨hds, hvalue, -⟩ := isNumber_iff.mp hnumber
    dsimp only at h
    split at h
    next hlt => cases h; exact ⟨ds, rfl, ⟨hds, hvalue, hlt⟩, hr⟩
    next => cases h
  · rintro ⟨ds, rfl, ⟨hds, hvalue, hn⟩, hr⟩
    rw [magnitude_append hds hr (hvalue ▸ hn), hvalue]

/-- A word for an integer: a numeral, or a minus sign and a numeral. -/
theorem integer?_eq_some_iff {c : Int} : integer? w = some c ↔
    ∃ ds, IsNumeral ds ∧ (w = 45 :: ds ∧ c = -(value ds : Int) ∨ w = ds ∧ c = value ds) := by
  constructor
  · intro h
    rw [integer?] at h
    split at h
    next hminus =>
      obtain ⟨ds, rfl⟩ := List.head?_eq_some_iff.mp hminus
      obtain ⟨n, hn, rfl⟩ := Option.map_eq_some_iff.mp h
      obtain ⟨hds, hvalue⟩ := natural?_eq_some_iff.mp hn
      exact ⟨ds, hds, .inl ⟨rfl, by rw [← hvalue]; rfl⟩⟩
    next =>
      obtain ⟨n, hn, rfl⟩ := Option.map_eq_some_iff.mp h
      obtain ⟨hds, hvalue⟩ := natural?_eq_some_iff.mp hn
      exact ⟨w, hds, .inr ⟨rfl, by rw [hvalue]; rfl⟩⟩
  · rintro ⟨ds, hds, ⟨rfl, rfl⟩ | ⟨rfl, rfl⟩⟩
    · rw [integer?, List.head?_cons, if_pos rfl, List.tail_cons,
        natural?_eq_some_iff.mpr ⟨hds, rfl⟩]
      rfl
    · have hminus : w.head? ≠ some 45 := Decimal.head?_ne_of_isDigit hds.digits (by decide)
      rw [integer?, if_neg hminus, natural?_eq_some_iff.mpr ⟨hds, rfl⟩]
      rfl

theorem signed_eq_ok {c : Int} (h : signed s = .ok (c, r)) :
    ∃ w, s = w ++ r ∧ integer? w = some c ∧ NoDigit r := by
  unfold signed at h
  split at h
  next hminus =>
    obtain ⟨s, rfl⟩ := List.head?_eq_some_iff.mp hminus
    rw [List.tail_cons] at h
    cases hm : magnitude s with
    | error _ => rw [hm] at h; cases h
    | ok p =>
        rw [hm] at h
        cases h
        obtain ⟨ds, rfl, ⟨hds, hvalue, -⟩, hr⟩ := magnitude_eq_ok_iff.mp hm
        exact ⟨45 :: ds, rfl, integer?_eq_some_iff.mpr ⟨ds, hds, .inl ⟨rfl, by rw [hvalue]⟩⟩, hr⟩
  next =>
    cases hm : magnitude s with
    | error _ => rw [hm] at h; cases h
    | ok p =>
        rw [hm] at h
        cases h
        obtain ⟨ds, rfl, ⟨hds, hvalue, -⟩, hr⟩ := magnitude_eq_ok_iff.mp hm
        exact ⟨ds, rfl, integer?_eq_some_iff.mpr ⟨ds, hds, .inr ⟨rfl, by rw [hvalue]⟩⟩, hr⟩

theorem reads_code : Reads code IsCode where
  eq_ok_iff {s r c} := by
    constructor
    · intro h
      unfold code at h
      split at h
      · cases h
      obtain ⟨⟨c', r'⟩, hsigned, h⟩ := bind_eq_ok.mp h
      obtain ⟨w, rfl, hw, hr⟩ := signed_eq_ok hsigned
      dsimp only at h
      split at h
      next hrange => cases h; exact ⟨w, rfl, ⟨hw, hrange⟩, hr⟩
      next => cases h
    · rintro ⟨w, rfl, ⟨hinteger, hlow, hhigh⟩, hr⟩
      obtain ⟨ds, hds, ⟨rfl, rfl⟩ | ⟨rfl, rfl⟩⟩ := integer?_eq_some_iff.mp hinteger
      · exact code_minus_append hds hr (by omega)
      · exact code_append hds hr (by omega)
  isWord {w c} hw := by
    obtain ⟨ds, hds, ⟨rfl, -⟩ | ⟨rfl, -⟩⟩ := integer?_eq_some_iff.mp hw.1
    · refine ⟨List.cons_ne_nil _ _, List.forall_mem_cons.mpr ⟨by decide, hds.isWord.not_blank⟩⟩
    · exact hds.isWord

/-! ### Numbers up to a zero -/

/-- `list` takes numbers off a line, each after blanks, up to a zero. -/
def ReadsList [OfNat α 0] [DecidableEq α] (number : List UInt8 → Except Fault (α × List UInt8))
    (list : List UInt8 → Except Fault (List α × List UInt8)) : Prop :=
  ∀ s, list s = do
    let r ← separator s
    let (a, rest) ← number r
    if a = 0 then return ([], rest)
    let (as, rest) ← list rest
    return (a :: as, rest)

theorem readsList_literals : ReadsList code literals := by
  intro s
  rw [literals]
  split
  next e hs => rw [hs]; rfl
  next r hs =>
    rw [hs]
    split
    next e hc => simp only [bind, Except.bind, hc]
    next c rest hc =>
      simp only [bind, Except.bind, hc]
      split
      · rfl
      · cases literals rest <;> rfl

theorem readsList_antecedents : ReadsList unsigned antecedents := by
  intro s
  rw [antecedents]
  split
  next e hs => rw [hs]; rfl
  next r hs =>
    rw [hs]
    split
    next e ha => simp only [bind, Except.bind, ha]
    next a rest ha =>
      simp only [bind, Except.bind, ha]
      split
      · rfl
      · cases antecedents rest <;> rfl

theorem separator_eq_ok_iff :
    separator s = .ok r ↔ ∃ b s', s = b :: s' ∧ isBlank b = true ∧ r = skipBlanks s' := by
  constructor
  · intro h
    unfold separator at h
    split at h
    · cases h
    next b s =>
      split at h
      next hb => cases h; exact ⟨b, s, rfl, hb, rfl⟩
      next => cases h
  · rintro ⟨b, s', rfl, hb, rfl⟩
    rw [separator, if_pos hb]

theorem endsWord_of_isBlank (hb : isBlank b = true) : endsWord b = true := by simp [endsWord, hb]

/-- A newline is the last byte, if there is one. -/
def EndsLine (s : List UInt8) : Prop := 10 ∉ s.dropLast

theorem EndsLine.suffix (hs : EndsLine s) (h : r <:+ s) : EndsLine r := by
  obtain ⟨xs, rfl⟩ := h
  cases r with
  | nil => exact List.not_mem_nil
  | cons b r =>
      rw [EndsLine, List.dropLast_append_of_ne_nil (List.cons_ne_nil b r)] at hs
      exact fun hmem => hs (List.mem_append_right _ hmem)

theorem skipBlanks_append (hgap : ∀ b ∈ gap, isBlank b = true) (hw : IsWord endsWord w) :
    skipBlanks (gap ++ (w ++ rest)) = w ++ rest := by
  rw [skipBlanks, List.dropWhile_append_of_pos hgap]
  cases w with
  | nil => exact absurd rfl hw.ne_nil
  | cons b w =>
      have hb : isBlank b = false := by
        have hend := hw.not_blank b List.mem_cons_self
        simp only [endsWord, Bool.or_eq_false_iff] at hend
        exact hend.1
      exact skipBlanks_cons hb

/-- There is no newline in front of a word. -/
theorem EndsLine.isBlank_of_mem (hs : EndsLine (gap ++ (w ++ rest)))
    (hgap : ∀ b ∈ gap, endsWord b = true) (hw : w ≠ []) : ∀ b ∈ gap, isBlank b = true := by
  intro b hb
  have hmem : b ∈ (gap ++ (w ++ rest)).dropLast := by
    rw [List.dropLast_append_of_ne_nil (by simp [hw])]
    exact List.mem_append_left _ hb
  have hne : b ≠ 10 := fun heq => hs (heq ▸ hmem)
  simpa [endsWord, hne] using hgap b hb

theorem skipBlanks_suffix (s : List UInt8) : skipBlanks s <:+ s := List.dropWhile_suffix _

theorem wordsBy_skipBlanks : wordsBy endsWord (skipBlanks s) = wordsBy endsWord s := by
  conv_rhs => rw [← List.takeWhile_append_dropWhile (p := isBlank) (l := s)]
  refine (wordsBy_blanks_append fun b hb => ?_).symm
  exact endsWord_of_isBlank (List.all_eq_true.mp List.all_takeWhile b hb)

section UpToZero

variable [OfNat α 0] [DecidableEq α] {number : List UInt8 → Except Fault (α × List UInt8)}
  {list : List UInt8 → Except Fault (List α × List UInt8)} {For : List UInt8 → α → Prop}
  {as : List α} {a : α}

omit [OfNat α 0] [DecidableEq α] in
/-- A number that is taken off a line is the first word. -/
theorem word_of_number (hnumber : Reads number For) (hsep : separator s = .ok r)
    (hnum : number r = .ok (a, rest)) (hrest : AtBlank endsWord rest) :
    ∃ w, AtBlank endsWord s ∧ rest <:+ s ∧ For w a ∧
      wordsBy endsWord s = w :: wordsBy endsWord rest := by
  obtain ⟨b, s', rfl, hb, rfl⟩ := separator_eq_ok_iff.mp hsep
  obtain ⟨w, hskip, hw, -⟩ := hnumber.eq_ok_iff.mp hnum
  have hend := endsWord_of_isBlank hb
  refine ⟨w, atBlank_cons.mpr hend, ?_, hw, ?_⟩
  · have hsuffix : rest <:+ skipBlanks s' := hskip ▸ List.suffix_append w rest
    exact (hsuffix.trans (skipBlanks_suffix s')).trans (List.suffix_cons b s')
  · rw [wordsBy_cons_of_blank hend, ← wordsBy_skipBlanks, hskip,
      wordsBy_append (hnumber.isWord hw) hrest]

theorem upToZero_of_list (hnumber : Reads number For) (hlist : ReadsList number list)
    (h : list s = .ok (as, r)) (hr : AtBlank endsWord r) :
    AtBlank endsWord s ∧ r <:+ s ∧ UpToZero For (wordsBy endsWord s) as (wordsBy endsWord r) := by
  induction as generalizing s with
  | nil =>
      rw [hlist s] at h
      obtain ⟨s₁, hsep, h⟩ := bind_eq_ok.mp h
      obtain ⟨⟨a, rest⟩, hnum, h⟩ := bind_eq_ok.mp h
      dsimp only at h
      split at h
      next hzero =>
        cases h
        obtain ⟨w, hs, hsuffix, hw, hwords⟩ := word_of_number hnumber hsep hnum hr
        exact ⟨hs, hsuffix, hwords ▸ .zero (hzero ▸ hw)⟩
      next =>
        obtain ⟨_, -, h⟩ := bind_eq_ok.mp h
        cases h
  | cons a as ih =>
      rw [hlist s] at h
      obtain ⟨s₁, hsep, h⟩ := bind_eq_ok.mp h
      obtain ⟨⟨a', rest⟩, hnum, h⟩ := bind_eq_ok.mp h
      dsimp only at h
      split at h
      next => cases h
      next hne =>
        obtain ⟨⟨as', r'⟩, htail, h⟩ := bind_eq_ok.mp h
        cases h
        obtain ⟨hrest, hsuffix, hup⟩ := ih htail
        obtain ⟨w, hs, hsuffix', hw, hwords⟩ := word_of_number hnumber hsep hnum hrest
        exact ⟨hs, hsuffix.trans hsuffix', hwords ▸ .cons hw hne hup⟩

omit [OfNat α 0] [DecidableEq α] in
/-- The first word of a line is taken off it. -/
theorem number_of_word (hnumber : Reads number For) (hs : EndsLine s) (hblank : AtBlank endsWord s)
    (hwords : wordsBy endsWord s = w :: ws) (hw : For w a) :
    ∃ s₁ rest, separator s = .ok s₁ ∧ number s₁ = .ok (a, rest) ∧ wordsBy endsWord rest = ws ∧
      AtBlank endsWord rest ∧ EndsLine rest := by
  obtain ⟨gap, rest, rfl, hgap, hword, hrest, hrestwords⟩ := exists_of_wordsBy_eq_cons hwords
  cases gap with
  | nil =>
      cases w with
      | nil => exact absurd rfl hword.ne_nil
      | cons b w =>
          have hend := hword.not_blank b List.mem_cons_self
          rw [List.nil_append, List.cons_append, atBlank_cons, hend] at hblank
          cases hblank
  | cons b gap =>
      have hgap' := hs.isBlank_of_mem hgap hword.ne_nil
      have hnum := hnumber.eq_ok_iff.mpr ⟨w, rfl, hw, noDigit_of_atBlank hrest⟩
      refine ⟨w ++ rest, rest, ?_, hnum, hrestwords, hrest, hs.suffix ?_⟩
      · obtain ⟨hb, hgap'⟩ := List.forall_mem_cons.mp hgap'
        exact separator_eq_ok_iff.mpr ⟨b, _, rfl, hb, (skipBlanks_append hgap' hword).symm⟩
      · rw [← List.append_assoc]
        exact List.suffix_append _ rest

theorem exists_list (hnumber : Reads number For) (hlist : ReadsList number list)
    (h : UpToZero For (wordsBy endsWord s) as ws) (hs : EndsLine s) (hblank : AtBlank endsWord s) :
    ∃ r, list s = .ok (as, r) ∧ wordsBy endsWord r = ws ∧ AtBlank endsWord r ∧ EndsLine r := by
  generalize hwords : wordsBy endsWord s = vs at h
  induction h generalizing s with
  | zero hw =>
      obtain ⟨s₁, rest, hsep, hnum, hrest⟩ := number_of_word hnumber hs hblank hwords hw
      refine ⟨rest, ?_, hrest⟩
      rw [hlist s]
      exact bind_eq_ok.mpr ⟨_, hsep, bind_eq_ok.mpr ⟨_, hnum, if_pos rfl⟩⟩
  | cons hw ha _ ih =>
      obtain ⟨s₁, rest, hsep, hnum, hwords, hrest, hends⟩ :=
        number_of_word hnumber hs hblank hwords hw
      obtain ⟨r, htail, hr⟩ := ih hends hrest hwords
      refine ⟨r, ?_, hr⟩
      rw [hlist s]
      refine bind_eq_ok.mpr ⟨_, hsep, bind_eq_ok.mpr ⟨_, hnum, ?_⟩⟩
      dsimp only
      rw [if_neg ha, htail]
      rfl

end UpToZero

/-! ### Lines -/

theorem stepId_eq_ok_iff {n : Nat} : stepId s = .ok (n, r) ↔ unsigned s = .ok (n, r) ∧ n ≠ 0 := by
  constructor
  · intro h
    obtain ⟨⟨m, r'⟩, hm, h⟩ := bind_eq_ok.mp h
    dsimp only at h
    split at h
    next => cases h
    next hne => cases h; exact ⟨hm, hne⟩
  · rintro ⟨hn, hne⟩
    exact bind_eq_ok.mpr ⟨_, hn, if_neg hne⟩

theorem skipBlanks_eq_cons (h : skipBlanks s = b :: r) : isBlank b = false := by
  have hhead := List.head?_dropWhile_not isBlank s
  rw [show s.dropWhile isBlank = b :: r from h] at hhead
  simpa using hhead

theorem atBlank_of_finish (h : finish s = .ok ()) : AtBlank endsWord s := by
  cases s with
  | nil => exact atBlank_nil
  | cons b s =>
      rw [atBlank_cons]
      cases hb : isBlank b with
      | true => exact endsWord_of_isBlank hb
      | false =>
          rw [finish, skipBlanks_cons hb] at h
          dsimp only at h
          split at h
          next heq => rw [heq]; rfl
          next => cases h

theorem finish_eq_ok_iff (hs : EndsLine s) : finish s = .ok () ↔ wordsBy endsWord s = [] := by
  rw [← wordsBy_skipBlanks, finish]
  have hends := hs.suffix (skipBlanks_suffix s)
  cases hskip : skipBlanks s with
  | nil => simp
  | cons b r =>
      rw [hskip] at hends
      have hb := skipBlanks_eq_cons hskip
      constructor
      · intro h
        dsimp only at h
        split at h
        next heq =>
          -- the newline is the last byte
          cases r with
          | nil => exact wordsBy_eq_nil_iff.mpr (by simp [heq, endsWord])
          | cons c r => exact absurd (by simp [heq]) hends
        next => cases h
      · intro h
        have hend := wordsBy_eq_nil_iff.mp h b List.mem_cons_self
        have heq : b = 10 := by simpa [endsWord, hb] using hend
        exact if_pos heq

theorem line_eq_some_iff {step : Step} (hs : EndsLine s) :
    line s = .ok (some step) ↔ SpellStep (wordsBy endsWord s) step := by
  constructor
  · intro h
    rw [line] at h
    dsimp only at h
    split at h
    · cases h
    obtain ⟨⟨id, s₁⟩, hid, h⟩ := bind_eq_ok.mp h
    obtain ⟨⟨ls, s₂⟩, hls, h⟩ := bind_eq_ok.mp h
    obtain ⟨⟨as, s₃⟩, has, h⟩ := bind_eq_ok.mp h
    obtain ⟨⟨⟩, hfinish, h⟩ := bind_eq_ok.mp h
    cases h
    obtain ⟨hid, hne⟩ := stepId_eq_ok_iff.mp hid
    obtain ⟨w, hskip, hw, -⟩ := reads_unsigned.eq_ok_iff.mp hid
    obtain ⟨hs₂, hsuffix₃, hup₃⟩ :=
      upToZero_of_list reads_unsigned readsList_antecedents has (atBlank_of_finish hfinish)
    obtain ⟨hs₁, hsuffix₂, hup₂⟩ := upToZero_of_list reads_code readsList_literals hls hs₂
    have hsuffix₁ : s₁ <:+ s := by
      have hsuffix : s₁ <:+ skipBlanks s := hskip ▸ List.suffix_append w s₁
      exact hsuffix.trans (skipBlanks_suffix s)
    have hends₃ := hs.suffix ((hsuffix₃.trans hsuffix₂).trans hsuffix₁)
    rw [(finish_eq_ok_iff hends₃).mp hfinish] at hup₃
    refine ⟨w, _, _, ?_, ⟨hw, hne⟩, hup₂, hup₃⟩
    rw [← wordsBy_skipBlanks, hskip, wordsBy_append (reads_unsigned.isWord hw) hs₁]
  · rintro ⟨w, vs, rest, hwords, ⟨hw, hne⟩, hup₂, hup₃⟩
    obtain ⟨gap, s₁, rfl, hgap, hword, hs₁, rfl⟩ := exists_of_wordsBy_eq_cons hwords
    have hskip : skipBlanks (gap ++ (w ++ s₁)) = w ++ s₁ :=
      skipBlanks_append (hs.isBlank_of_mem hgap hword.ne_nil) hword
    have hends₁ : EndsLine s₁ := by
      refine hs.suffix ?_
      rw [← List.append_assoc]
      exact List.suffix_append _ s₁
    have hid : stepId (w ++ s₁) = .ok (step.id, s₁) :=
      stepId_eq_ok_iff.mpr
        ⟨reads_unsigned.eq_ok_iff.mpr ⟨w, rfl, hw, noDigit_of_atBlank hs₁⟩, hne⟩
    obtain ⟨s₂, hls, rfl, hs₂, hends₂⟩ := exists_list reads_code readsList_literals hup₂ hends₁ hs₁
    obtain ⟨s₃, has, hnil, -, hends₃⟩ :=
      exists_list reads_unsigned readsList_antecedents hup₃ hends₂ hs₂
    have hvoid : isVoid (w ++ s₁) = false := by
      obtain ⟨b, w', rfl, hb⟩ := (isNumber_iff.mp hw).1.exists_cons
      exact isVoid_of_isDigit hb
    have hfinish : finish s₃ = .ok () := (finish_eq_ok_iff hends₃).mpr hnil
    rw [line, hskip, hvoid]
    exact bind_eq_ok.mpr ⟨_, hid, bind_eq_ok.mpr ⟨_, hls, bind_eq_ok.mpr ⟨_, has,
      bind_eq_ok.mpr ⟨(), hfinish, rfl⟩⟩⟩⟩

theorem line_eq_none_iff : line s = .ok none ↔ isVoid (skipBlanks s) = true := by
  rw [line]
  dsimp only
  split
  next hvoid => simp [hvoid, pure, Except.pure]
  next hvoid =>
    refine iff_of_false (fun h => ?_) hvoid
    obtain ⟨_, -, h⟩ := bind_eq_ok.mp h
    obtain ⟨_, -, h⟩ := bind_eq_ok.mp h
    obtain ⟨_, -, h⟩ := bind_eq_ok.mp h
    obtain ⟨_, -, h⟩ := bind_eq_ok.mp h
    cases h

/-- The words of a line do not depend on its newline. -/
theorem wordsBy_endsWord {l e : List UInt8} (hl : 10 ∉ l) (he : e = [] ∨ e = [10]) :
    wordsBy endsWord (l ++ e) = wordsBy isBlank l := by
  have hgap : ∀ b ∈ e, endsWord b = true := by
    rcases he with rfl | rfl <;> simp [endsWord]
  rw [wordsBy_append_blanks hgap]
  refine wordsBy_congr fun b hb => ?_
  have hne : b ≠ 10 := fun heq => hl (heq ▸ hb)
  simp [endsWord, hne]

theorem isVoid_skipBlanks {l e : List UInt8} (hl : 10 ∉ l) (he : e = [] ∨ e = [10]) :
    isVoid (skipBlanks (l ++ e)) = holdsNothing l := by
  rw [holdsNothing, skipBlanks, List.dropWhile_append]
  cases hskip : l.dropWhile isBlank with
  | nil => rcases he with rfl | rfl <;> rfl
  | cons b r =>
      have hne : b ≠ 10 := by
        rintro rfl
        have hmem : 10 ∈ l.dropWhile isBlank := hskip ▸ List.mem_cons_self
        exact hl ((List.dropWhile_suffix _).subset hmem)
      simp [isVoid, hne]

/-- The outcome of a line, which may end with a newline. -/
theorem numberedLine_spec (n : Nat) {l e : List UInt8} (hl : 10 ∉ l) (he : e = [] ∨ e = [10]) :
    (numberedLine n (l ++ e) = none ↔ holdsNothing l = true) ∧
      (∀ step, numberedLine n (l ++ e) = some (.ok step) ↔ SpellStep (wordsBy isBlank l) step) ∧
      ∀ err, numberedLine n (l ++ e) = some (.error err) → err.lineNumber = n := by
  have hends : EndsLine (l ++ e) := by
    rcases he with rfl | rfl
    · rw [List.append_nil]
      exact fun hmem => hl (List.dropLast_subset l hmem)
    · rw [EndsLine, List.dropLast_concat]
      exact hl
  simp only [← isVoid_skipBlanks hl he, ← line_eq_none_iff, ← wordsBy_endsWord hl he,
    ← line_eq_some_iff hends]
  rw [numberedLine]
  cases hline : line (l ++ e) with
  | error f =>
      refine ⟨by simp, by simp, fun err h => ?_⟩
      cases h
      rfl
  | ok o => cases o <;> simp

/-! ### Lines of a source -/

/-- Lines with their newlines, of which the last does not need one. -/
def terminated : List (List UInt8) → List (List UInt8)
  | [] => []
  | [l] => if l.isEmpty then [] else [l]
  | l :: l' :: ls => (l ++ [10]) :: terminated (l' :: ls)

theorem terminated_cons {l : List UInt8} {ls : List (List UInt8)} (hls : ls ≠ []) :
    terminated (l :: ls) = (l ++ [10]) :: terminated ls := by
  cases ls with
  | nil => exact absurd rfl hls
  | cons l' ls => rfl

/-- The lines of a source are what stands between its newlines. -/
theorem lines_eq_terminated (source : List UInt8) :
    lines source = terminated (source.splitOn 10) := by
  suffices hcut : ∀ taken s,
      cut taken s = terminated ((s.splitOn 10).modifyHead (taken.reverse ++ ·)) by
    have h := hcut [] source
    cases hsplit : source.splitOn 10 with
    | nil => exact absurd hsplit (List.splitOn_ne_nil 10 source)
    | cons l ls => simpa [hsplit, lines] using h
  intro taken s
  induction s generalizing taken with
  | nil => simp [cut, terminated, List.splitOn_nil]
  | cons b s ih =>
      rw [cut, List.splitOn_cons_eq_if_modifyHead]
      split
      next heq =>
        have hb : (b == 10) = true := by simpa using heq
        rw [if_pos hb, List.modifyHead_cons, terminated_cons (List.splitOn_ne_nil 10 s), ih]
        cases hsplit : s.splitOn 10 with
        | nil => exact absurd hsplit (List.splitOn_ne_nil 10 s)
        | cons l ls => simp [heq]
      next hne =>
        have hb : ¬ (b == 10) = true := by simpa using hne
        rw [if_neg hb, ih, List.modifyHead_modifyHead]
        simp [Function.comp_def]

/-! ### One step after the other -/

theorem lines_eq_cons (hs : s ≠ []) : lines s = (firstLine s).1 :: lines (firstLine s).2 := by
  suffices hcut : ∀ taken, taken ≠ [] ∨ s ≠ [] →
      cut taken s = (taken.reverse ++ (firstLine s).1) :: lines (firstLine s).2 from
    hcut [] (.inr hs)
  clear hs
  induction s with
  | nil =>
      intro taken h
      have hne : taken ≠ [] := by simpa using h
      simp [cut, firstLine, lines, hne]
  | cons b s ih =>
      intro taken _
      rw [cut, firstLine]
      split
      · simp [lines]
      · rw [ih (b :: taken) (.inl (List.cons_ne_nil b taken))]
        simp

/-- The outcomes of lines, the first of which has a number. -/
def outcomesFrom (n : Nat) (ls : List (List UInt8)) : List (Except ReadError Step) :=
  (ls.zipIdx n).filterMap fun (l, n) => numberedLine n l

theorem outcomesFrom_cons {n : Nat} {l : List UInt8} {ls : List (List UInt8)} :
    outcomesFrom n (l :: ls) = (numberedLine n l).toList ++ outcomesFrom (n + 1) ls := by
  rw [outcomesFrom, List.zipIdx_cons, List.filterMap_cons]
  cases h : numberedLine n l <;> simp [h, outcomesFrom]

namespace Reader

variable {r r' : Reader} {step : Step} {e : ReadError}

theorem outcomes_of_none (h : r.nextStep = (.ok none, r')) : r.outcomes = [] := by
  rw [outcomes]
  split
  next => rfl
  next hstep => cases h.symm.trans hstep
  next hstep => cases h.symm.trans hstep

theorem outcomes_of_ok (h : r.nextStep = (.ok (some step), r')) :
    r.outcomes = .ok step :: r'.outcomes := by
  rw [outcomes]
  split
  next hstep => cases h.symm.trans hstep
  next hstep => cases h.symm.trans hstep; rfl
  next hstep => cases h.symm.trans hstep

theorem outcomes_of_error (h : r.nextStep = (.error e, r')) :
    r.outcomes = .error e :: r'.outcomes := by
  rw [outcomes]
  split
  next hstep => cases h.symm.trans hstep
  next hstep => cases h.symm.trans hstep
  next hstep => cases h.symm.trans hstep; rfl

theorem outcomes_congr (h : r.nextStep = r'.nextStep) : r.outcomes = r'.outcomes := by
  cases hstep : r'.nextStep with
  | mk a r'' =>
      rw [hstep] at h
      cases a with
      | error e => rw [outcomes_of_error h, outcomes_of_error hstep]
      | ok o =>
          cases o with
          | none => rw [outcomes_of_none h, outcomes_of_none hstep]
          | some step => rw [outcomes_of_ok h, outcomes_of_ok hstep]

/-- A line, and then what comes of the lines after it. -/
theorem outcomes_eq_append (h : r.rest ≠ []) : r.outcomes =
    (numberedLine (r.linesTaken + 1) (firstLine r.rest).1).toList ++ r.skipLine.outcomes := by
  cases hline : numberedLine (r.linesTaken + 1) (firstLine r.rest).1 with
  | none => exact outcomes_congr (by rw [nextStep, dif_neg h, hline])
  | some o =>
      cases o with
      | error e => exact outcomes_of_error (by rw [nextStep, dif_neg h, hline])
      | ok step => exact outcomes_of_ok (by rw [nextStep, dif_neg h, hline])

theorem outcomes_eq (r : Reader) : r.outcomes = outcomesFrom (r.linesTaken + 1) (lines r.rest) := by
  by_cases h : r.rest = []
  · have hnext : r.nextStep = (.ok none, r) := by rw [nextStep, dif_pos h]
    rw [outcomes_of_none hnext, h]
    rfl
  · rw [outcomes_eq_append h, lines_eq_cons h, outcomesFrom_cons, outcomes_eq r.skipLine]
    rfl
termination_by r.rest.length
decreasing_by exact length_firstLine_lt h

end Reader

theorem outcomesFrom_succ (n : Nat) (ls : List (List UInt8)) : outcomesFrom (n + 1) ls =
    (ls.zipIdx n).flatMap fun (l, i) => (numberedLine (i + 1) l).toList := by
  induction ls generalizing n with
  | nil => rfl
  | cons l ls ih => rw [outcomesFrom_cons, List.zipIdx_cons, List.flatMap_cons, ih (n + 1)]

theorem readSteps_eq_outcomesFrom (source : List UInt8) :
    readSteps source = outcomesFrom 1 (lines source) := by
  rw [readSteps, List.mapIdx_eq_zipIdx_map, outcomesFrom_succ 0]
  induction (lines source).zipIdx with
  | nil => rfl
  | cons l ls ih =>
      rw [List.map_cons, List.filterMap_cons, List.flatMap_cons, ih]
      obtain ⟨l, i⟩ := l
      cases hline : numberedLine (i + 1) l <;> simp [hline]

/-! ### Sources -/

/-- The result of a line with a number: the step its words spell, or a fault with its number. -/
def IsResult (l : List UInt8 × Nat) (o : Except ReadError Step) : Prop :=
  (∀ step, o = .ok step ↔ SpellStep (wordsBy isBlank l.1) step) ∧
    ∀ e, o = .error e → e.lineNumber = l.2

theorem forall₂_cons {n : Nat} {l e : List UInt8} {ls : List (List UInt8 × Nat)}
    {os : List (Except ReadError Step)} (hl : 10 ∉ l) (he : e = [] ∨ e = [10])
    (h : List.Forall₂ IsResult (ls.filter (!holdsNothing ·.1)) os) :
    List.Forall₂ IsResult (((l, n) :: ls).filter (!holdsNothing ·.1))
      ((numberedLine n (l ++ e)).toList ++ os) := by
  obtain ⟨hnone, hsome, herror⟩ := numberedLine_spec n hl he
  cases hline : numberedLine n (l ++ e) with
  | none =>
      rw [List.filter_cons_of_neg (by simp [hnone.mp hline])]
      exact h
  | some o =>
      rw [hline] at hnone hsome herror
      rw [List.filter_cons_of_pos (by simpa using hnone)]
      refine .cons ⟨fun step => ?_, fun err herr => herror err (congrArg some herr)⟩ h
      rw [← hsome step, Option.some_inj]

theorem forall₂_outcomesFrom {n : Nat} {ls : List (List UInt8)} (hls : ∀ l ∈ ls, 10 ∉ l) :
    List.Forall₂ IsResult ((ls.zipIdx n).filter (!holdsNothing ·.1))
      (outcomesFrom n (terminated ls)) := by
  induction ls generalizing n with
  | nil => exact .nil
  | cons l ls ih =>
      obtain ⟨hl, hls⟩ := List.forall_mem_cons.mp hls
      have h := ih (n := n + 1) hls
      rw [List.zipIdx_cons]
      cases ls with
      | nil =>
          cases l with
          | nil => exact .nil
          | cons b l =>
              have hlast := forall₂_cons (n := n) (e := []) hl (.inl rfl) h
              rwa [List.append_nil, ← outcomesFrom_cons] at hlast
      | cons l' ls =>
          rw [terminated_cons (List.cons_ne_nil l' ls), outcomesFrom_cons]
          exact forall₂_cons hl (.inr rfl) h

/-- The error of the same line after some other lines. -/
def ReadError.after (e : ReadError) (lines : Nat) : ReadError :=
  { e with lineNumber := lines + e.lineNumber }

theorem numberedLine_after (n k : Nat) : numberedLine (k + n) s =
    (numberedLine n s).map (·.mapError (·.after k)) := by
  rw [numberedLine, numberedLine]
  cases line s with
  | error f => rfl
  | ok o => cases o <;> rfl

theorem eq_append_of_mem_terminated {l : List UInt8} {ls : List (List UInt8)}
    (h : l ∈ terminated ls) : ∃ l' ∈ ls, l = l' ++ [10] ∨ l = l' ∧ l ≠ [] := by
  induction ls with
  | nil => simp [terminated] at h
  | cons k ls ih =>
      cases ls with
      | nil =>
          rw [terminated] at h
          split at h
          next => simp at h
          next hk =>
            obtain rfl := List.mem_singleton.mp h
            exact ⟨l, List.mem_cons_self, .inr ⟨rfl, by simpa using hk⟩⟩
      | cons k' ls =>
          rw [terminated_cons (List.cons_ne_nil k' ls)] at h
          rcases List.mem_cons.mp h with rfl | h
          · exact ⟨k, List.mem_cons_self, .inl rfl⟩
          · obtain ⟨l', hl', heq⟩ := ih h
            exact ⟨l', List.mem_cons_of_mem k hl', heq⟩

/-- A line of a source is the only line of its own. -/
theorem lines_of_mem {l source : List UInt8} (h : l ∈ lines source) : lines l = [l] := by
  rw [lines_eq_terminated] at h
  obtain ⟨l', hl', heq⟩ := eq_append_of_mem_terminated h
  have hnot : 10 ∉ l' := not_mem_of_mem_splitOn hl'
  rw [lines_eq_terminated]
  rcases heq with rfl | ⟨rfl, hne⟩
  · rw [List.splitOn_append_cons_self_of_not_mem hnot, List.splitOn_nil]
    rfl
  · rw [List.splitOn_eq_singleton hnot, terminated]
    simp [hne]

/-- **The grammar of the format.**  Taking one step after the other yields one result for each line
that is neither blank nor a comment, in order: the step that the words of the line spell, and if
they do not spell any a fault with the number of the line.  The result of a line is, but for this
number, the one of the line on its own. -/
theorem readSteps_grammar (source : List UInt8) :
    (Reader.start source).outcomes = readSteps source ∧
      List.Forall₂ IsResult (((source.splitOn 10).zipIdx 1).filter (!holdsNothing ·.1))
        (readSteps source) ∧
      readSteps source = (lines source).zipIdx.flatMap fun (l, i) =>
        (readSteps l).map (·.mapError (·.after i)) := by
  refine ⟨?_, ?_, ?_⟩
  · rw [Reader.outcomes_eq, readSteps_eq_outcomesFrom]
    rfl
  · rw [readSteps_eq_outcomesFrom, lines_eq_terminated]
    exact forall₂_outcomesFrom fun l hl => not_mem_of_mem_splitOn hl
  · rw [readSteps_eq_outcomesFrom, outcomesFrom_succ 0]
    refine List.flatMap_congr fun ⟨l, i⟩ hl => ?_
    have hmem : l ∈ lines source := (List.mem_zipIdx' hl).2 ▸ List.getElem_mem _
    dsimp only
    rw [readSteps_eq_outcomesFrom, lines_of_mem hmem, outcomesFrom_cons, numberedLine_after 1 i]
    cases numberedLine 1 l <;> rfl

end ModelFinder.TraceCheck
