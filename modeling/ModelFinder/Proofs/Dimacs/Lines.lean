import ModelFinder.Proofs.Dimacs.Reader
import ModelFinder.Proofs.Decimal
import ModelFinder.Proofs.Words

/-!
# A file line by line

The machine takes one byte at a time, but it starts every line in the same mode, so that a file can
be told line by line.  The first byte of a line that is not white space decides what the line is: a
header, a comment, or numbers.  A header or a comment is collected up to its end.

A line of numbers is cut at its white space, and moreover after each leading zero, since a zero ends
a clause at once (`tokens`).  After some bytes of such a line the tokens so far are the ones written
for the codes that have been read, and possibly a number that is not over (`State.Reads`).

What a state has read is a list of headers, roots and codes (`State.held`), and so is what some
lines hold (`Holds`).  The lines of a file that is read hold what has been read
(`holds_of_read`).
-/

namespace ModelFinder.Dimacs

open Decimal (isDigit signedDigits signed? half32 IsPlain)

variable {s t u : State} {b : UInt8} {l r w gap rest bytes taken : List UInt8} {code : Int}
  {codes : List Int}

/-! ### What has been read -/

/-- The codes of some clauses, each clause with a 0 at its end. -/
def codesOf (clauses : List (List Int)) : List Int := clauses.flatMap (· ++ [0])

/-- Clauses without zeros are what the codes are cut into at the zeros. -/
theorem splitOn_codesOf {clauses : List (List Int)} {clause : List Int} (hclause : 0 ∉ clause)
    (hclauses : ∀ c ∈ clauses, 0 ∉ c) :
    (codesOf clauses ++ clause).splitOn 0 = clauses ++ [clause] := by
  induction clauses with
  | nil => exact List.splitOn_eq_singleton hclause
  | cons c clauses ih =>
      obtain ⟨hc, hclauses⟩ := List.forall_mem_cons.mp hclauses
      have hcodes : codesOf (c :: clauses) ++ clause = c ++ 0 :: (codesOf clauses ++ clause) := by
        simp [codesOf]
      rw [hcodes, List.splitOn_append_cons_self_of_not_mem hc, ih hclauses, List.cons_append]

/-- Headers, roots and codes, in the order in which they are read. -/
@[ext]
structure Held where
  headers : List Header
  roots : List RootAnnotation
  codes : List Int

namespace Held

/-- What is read after something else. -/
instance : Append Held := ⟨fun x y => ⟨x.headers ++ y.headers, x.roots ++ y.roots,
  x.codes ++ y.codes⟩⟩

/-- Nothing at all. -/
def nothing : Held := ⟨[], [], []⟩

/-- Codes only. -/
def ofCodes (codes : List Int) : Held := ⟨[], [], codes⟩

variable {x y z : Held}

@[simp] theorem headers_append : (x ++ y).headers = x.headers ++ y.headers := rfl
@[simp] theorem roots_append : (x ++ y).roots = x.roots ++ y.roots := rfl
@[simp] theorem codes_append : (x ++ y).codes = x.codes ++ y.codes := rfl

@[simp] theorem append_nothing : x ++ nothing = x := by ext1 <;> simp [nothing]
@[simp] theorem nothing_append : nothing ++ x = x := by ext1 <;> simp [nothing]

@[simp] theorem ofCodes_append {xs ys : List Int} : ofCodes xs ++ ofCodes ys = ofCodes (xs ++ ys) :=
  rfl

theorem append_assoc : x ++ y ++ z = x ++ (y ++ z) := by ext1 <;> simp

end Held

namespace State

/-- All that has been read. -/
def held (s : State) : Held :=
  ⟨s.header.toList, s.roots.toList, codesOf s.clauses.toList ++ s.clause.toList⟩

/-- The clauses do not hold a 0. -/
structure Clean (s : State) : Prop where
  clause : 0 ∉ s.clause.toList
  clauses : ∀ c ∈ s.clauses.toList, 0 ∉ c

/-- `t` has read as much as `s` and then `x`. -/
structure Grows (s : State) (x : Held) (t : State) : Prop where
  held_eq : t.held = s.held ++ x
  clean : s.Clean → t.Clean

theorem clean_start : start.Clean := ⟨by simp [start], by simp [start]⟩

/-- Takes the code of a literal, or the 0 at the end of a clause. -/
def push (s : State) (code : Int) : State :=
  if code = 0 then
    { s with mode := .between, clause := #[], clauses := s.clauses.push s.clause.toList }
  else { s with mode := .between, clause := s.clause.push code }

@[simp] theorem mode_push : (s.push code).mode = .between := by
  unfold push
  split <;> rfl

@[simp] theorem header_push : (s.push code).header = s.header := by
  unfold push
  split <;> rfl

section grows

variable {x y : Held} {m : Mode}

theorem Grows.refl : s.Grows .nothing s := ⟨Held.append_nothing.symm, id⟩

theorem Grows.trans (h : s.Grows x t) (h' : t.Grows y u) : s.Grows (x ++ y) u :=
  ⟨by rw [h'.held_eq, h.held_eq, Held.append_assoc], h'.clean ∘ h.clean⟩

/-- The mode does not matter. -/
theorem Grows.in_mode (h : s.Grows x t) : s.Grows x { t with mode := m } :=
  ⟨h.held_eq, fun hs => ⟨(h.clean hs).clause, (h.clean hs).clauses⟩⟩

theorem Grows.of_mode (h : Grows { s with mode := m } x t) : s.Grows x t :=
  ⟨h.held_eq, fun hs => h.clean ⟨hs.clause, hs.clauses⟩⟩

theorem grows_push : s.Grows (.ofCodes [code]) (s.push code) := by
  unfold push
  split
  next hzero =>
    refine ⟨by ext1 <;> simp [held, codesOf, Held.ofCodes, hzero], fun hs => ⟨by simp, ?_⟩⟩
    intro c hc
    rw [Array.toList_push, List.mem_append, List.mem_singleton] at hc
    rcases hc with hc | rfl
    · exact hs.clauses c hc
    · exact hs.clause
  next hne =>
    refine ⟨by ext1 <;> simp [held, Held.ofCodes], fun hs => ⟨?_, hs.clauses⟩⟩
    simp only [Array.toList_push, List.mem_append, List.mem_singleton, not_or]
    exact ⟨hs.clause, fun heq => hne heq.symm⟩

end grows

/-! ### Numbers -/

/-- A number that is not 0 is taken if it is a code within the ranges. -/
theorem endNumber_eq_ok_iff (hplain : IsPlain taken.reverse) :
    s.endNumber taken = .ok u ↔ ∃ code, taken.reverse = signedDigits code ∧
      (-(half32 : Int) ≤ code ∧ code < half32) ∧ s.Admits code ∧ u = s.push code := by
  have hsigned (code : Int) : signed? half32 taken.reverse = some code ↔
      taken.reverse = signedDigits code ∧ -(half32 : Int) ≤ code ∧ code < half32 := by
    rw [Decimal.signed?_eq_some_iff (hplain.head?_ne (by decide) (by decide)) (by decide),
      hplain.integer?_eq_some_iff]
  have hpush {code : Int} (hword : taken.reverse = signedDigits code) :
      s.push code = { s with mode := .between, clause := s.clause.push code } :=
    if_neg (hplain.ne_zero hword)
  constructor
  · intro h
    unfold endNumber at h
    split at h
    · cases h
    · cases h
    next code header hcode hheader =>
      split at h
      · cases h
      next hle =>
        cases h
        obtain ⟨hword, hrange⟩ := (hsigned code).mp hcode
        exact ⟨code, hword, hrange, ⟨header, hheader, Nat.le_of_not_lt hle⟩, (hpush hword).symm⟩
  · rintro ⟨code, hword, hrange, ⟨header, hheader, hle⟩, rfl⟩
    rw [endNumber, (hsigned code).mpr ⟨hword, hrange⟩, hheader]
    dsimp only
    rw [if_neg (Nat.not_lt.mpr hle), hpush hword, hheader]

theorem endClause_eq_ok_iff : s.endClause = .ok u ↔ s.header ≠ none ∧ u = s.push 0 := by
  unfold endClause push
  cases s.header <;> simp [eq_comm]

end State

/-! ### Tokens -/

/-- Cuts a word after each leading zero. -/
def pieces (word : List UInt8) : List (List UInt8) :=
  match word with
  | [] => []
  | b :: word => if b = 48 then [48] :: pieces word else [b :: word]

/-- The pieces of the words of a line. -/
def tokens (line : List UInt8) : List (List UInt8) := (wordsBy State.isSpace line).flatMap pieces

@[simp] theorem tokens_nil : tokens [] = [] := rfl

theorem tokens_cons_of_space (hb : State.isSpace b = true) : tokens (b :: rest) = tokens rest := by
  rw [tokens, wordsBy_cons_of_blank hb, tokens]

@[simp] theorem pieces_zero_cons : pieces (48 :: w) = [48] :: pieces w := rfl

theorem pieces_of_head?_ne (hne : w ≠ []) (hzero : w.head? ≠ some 48) : pieces w = [w] := by
  cases w with
  | nil => exact absurd rfl hne
  | cons b w => exact if_neg fun hb => hzero (congrArg some hb)

/-- The end of a word in front of the rest of the line. -/
theorem tokens_append (hw : ∀ b ∈ w, State.isSpace b = false) (hrest : AtBlank State.isSpace rest) :
    tokens (w ++ rest) = pieces w ++ tokens rest := by
  cases w with
  | nil => rfl
  | cons b w => rw [tokens, wordsBy_append ⟨List.cons_ne_nil b w, hw⟩ hrest]; rfl

/-- A leading zero is a token of its own. -/
theorem tokens_zero_cons : tokens (48 :: rest) = [48] :: tokens rest := by
  -- The word that the zero starts may go on.
  obtain ⟨w, tail, hrest, hw, htail⟩ :=
    exists_word (p := State.isSpace) (b := 48) (s := rest) (by decide)
  obtain ⟨hnil, -⟩ | ⟨w, rfl, rfl⟩ := List.cons_eq_append_iff.mp hrest
  · exact absurd hnil hw.ne_nil
  · rw [hrest, tokens_append hw.not_blank htail, pieces_zero_cons,
      tokens_append (List.forall_mem_cons.mp hw.not_blank).2 htail, List.cons_append]

/-- The tokens of `01 -2`. -/
example : tokens [48, 49, 32, 45, 50] = [[48], [49], [45, 50]] := rfl

/-! ### What a line is -/

/-- The first byte of a line that is not white space. -/
def firstByte (line : List UInt8) : Option UInt8 := line.find? (!State.isSpace ·)

/-- Whether a line is a header. -/
def isHeaderLine (line : List UInt8) : Bool := firstByte line == some 112

/-- Whether a line is a comment. -/
def isCommentLine (line : List UInt8) : Bool := firstByte line == some 99

/-- Whether a line holds numbers. -/
def isNumberLine (line : List UInt8) : Bool :=
  firstByte line != some 112 && firstByte line != some 99

/-- What follows the first byte of a comment. -/
def commentOf (line : List UInt8) : List UInt8 := (line.dropWhile State.isSpace).tail

theorem firstByte_cons_of_space (hb : State.isSpace b = true) :
    firstByte (b :: rest) = firstByte rest :=
  List.find?_cons_of_neg (by simp [hb])

theorem firstByte_cons_of_ne (hb : State.isSpace b = false) : firstByte (b :: rest) = some b :=
  List.find?_cons_of_pos (by simp [hb])

/-! ### Lines of numbers -/

/-- The bytes taken of a number that is not over. -/
def Mode.pending : Mode → List (List UInt8)
  | .minus => [[45]]
  | .number taken => [taken.reverse]
  | _ => []

@[simp] theorem Mode.pending_lineStart : Mode.lineStart.pending = [] := rfl
@[simp] theorem Mode.pending_between : Mode.between.pending = [] := rfl
@[simp] theorem Mode.pending_minus : Mode.minus.pending = [[45]] := rfl
@[simp] theorem Mode.pending_number : (Mode.number taken).pending = [taken.reverse] := rfl

/-- The mode is one in which numbers are read. -/
inductive Mode.InNumbers : Mode → Prop
  | lineStart : InNumbers .lineStart
  | between : InNumbers .between
  | minus : InNumbers .minus
  | number {taken : List UInt8} (plain : IsPlain taken.reverse) : InNumbers (.number taken)

theorem isSpace_of_isDigit (hb : isDigit b = true) : State.isSpace b = false := by
  simp only [State.isSpace, Bool.or_eq_false_iff, beq_eq_false_iff_ne]
  refine ⟨⟨⟨⟨?_, ?_⟩, ?_⟩, ?_⟩, ?_⟩ <;> exact Decimal.ne_of_isDigit hb (by decide)

theorem isWord_of_isPlain (hw : IsPlain w) : IsWord State.isSpace w := by
  obtain ⟨ds, hds, hne, hdigits, -⟩ := hw.exists_digits
  have hspace : ∀ b ∈ ds, State.isSpace b = false := fun b hb => isSpace_of_isDigit (hdigits b hb)
  rcases hds with rfl | rfl
  · exact ⟨hne, hspace⟩
  · exact ⟨List.cons_ne_nil _ _, List.forall_mem_cons.mpr ⟨by decide, hspace⟩⟩

theorem tokens_plain_append (hw : IsPlain w) (hrest : AtBlank State.isSpace rest) :
    tokens (w ++ rest) = w :: tokens rest := by
  have hword := isWord_of_isPlain hw
  rw [tokens_append hword.not_blank hrest, pieces_of_head?_ne hword.ne_nil hw.head?_ne_zero,
    List.singleton_append]

namespace State

/-- Some bytes of a line of numbers: the tokens in front of what is left of the line are written for
the codes that are read, up to a number that is not over. -/
structure Reads (s : State) (bytes : List UInt8) (codes : List Int) (t : State) : Prop where
  mode : t.mode.InNumbers
  tokens_eq : ∀ rest, tokens (s.mode.pending.flatten ++ (bytes ++ rest)) =
    codes.map signedDigits ++ tokens (t.mode.pending.flatten ++ rest)
  grows : s.Grows (.ofCodes codes) t

theorem Reads.trans {more : List UInt8} {codes' : List Int} (h : s.Reads bytes codes t)
    (h' : t.Reads more codes' u) : s.Reads (bytes ++ more) (codes ++ codes') u := by
  refine ⟨h'.mode, fun rest => ?_, ?_⟩
  · rw [List.append_assoc, h.tokens_eq, h'.tokens_eq, List.map_append, List.append_assoc]
  · rw [← Held.ofCodes_append]
    exact h.grows.trans h'.grows

/-- White space where no number is pending. -/
theorem reads_space (hs : s.mode.InNumbers) (hpending : s.mode.pending = [])
    (hb : isSpace b = true) : s.Reads [b] [] s :=
  ⟨hs, fun rest => by simp [hpending, tokens_cons_of_space hb], Grows.refl⟩

/-- A byte that starts a number, or that is a number of its own. -/
theorem reads_startNumber (hs : s.mode.pending = []) (h : s.startNumber b = .ok t) :
    t.mode ≠ .lineStart ∧ ∃ codes, s.Reads [b] codes t := by
  unfold startNumber at h
  split at h
  next hzero =>
    obtain ⟨-, rfl⟩ := endClause_eq_ok_iff.mp h
    refine ⟨by simp, [0], ?_, fun rest => ?_, grows_push⟩
    · rw [mode_push]
      exact .between
    · rw [hs, hzero, mode_push]
      simpa using tokens_zero_cons
  next hzero =>
    split at h
    next hdigit =>
      cases h
      refine ⟨nofun, [], .number ⟨[b], .inl rfl, by simp, by simpa using hdigit, ?_⟩,
        fun rest => ?_, Grows.refl.in_mode⟩
      · simpa using hzero
      · simp [hs]
    next =>
      split at h
      next hminus =>
        cases h
        refine ⟨nofun, [], .minus, fun rest => ?_, Grows.refl.in_mode⟩
        simp [hs, hminus]
      next => cases h

/-- **One byte of a line of numbers.** -/
theorem reads_feed (hs : s.mode.InNumbers) (hb : b ≠ 10)
    (hstart : s.mode = .lineStart → b ≠ 112 ∧ b ≠ 99) (h : s.feed b = .ok t) :
    (t.mode = .lineStart → s.mode = .lineStart ∧ isSpace b = true) ∧
      ∃ codes, s.Reads [b] codes t := by
  unfold feed at h
  cases hmode : s.mode with
  | lineStart =>
      rw [hmode] at h
      dsimp only at h
      obtain ⟨hp, hc⟩ := hstart hmode
      rw [if_neg hp, if_neg hc] at h
      split at h
      next hspace =>
        cases h
        exact ⟨fun _ => ⟨rfl, hspace⟩, [], reads_space hs (by rw [hmode]; rfl) hspace⟩
      next =>
        obtain ⟨hne, hreads⟩ := reads_startNumber (by rw [hmode]; rfl) h
        exact ⟨fun heq => absurd heq hne, hreads⟩
  | between =>
      rw [hmode] at h
      dsimp only at h
      rw [if_neg hb] at h
      split at h
      next hspace =>
        cases h
        exact ⟨fun heq => absurd (hmode.symm.trans heq) nofun, [],
          reads_space hs (by rw [hmode]; rfl) hspace⟩
      next =>
        obtain ⟨hne, hreads⟩ := reads_startNumber (by rw [hmode]; rfl) h
        exact ⟨fun heq => absurd heq hne, hreads⟩
  | minus =>
      rw [hmode] at h
      dsimp only at h
      split at h
      next hdigit =>
        cases h
        rw [Bool.and_eq_true, bne_iff_ne] at hdigit
        refine ⟨nofun, [], .number ⟨[b], .inr rfl, by simp, by simpa using hdigit.1, ?_⟩,
          fun rest => ?_, Grows.refl.in_mode⟩
        · simpa using hdigit.2
        · simp [hmode]
      next => cases h
  | number taken =>
      rw [hmode] at h hs
      cases hs with | number hplain =>
      dsimp only at h
      split at h
      next hspace =>
        obtain ⟨u, hu, h⟩ := bind_eq_ok.mp h
        cases h
        obtain ⟨code, hword, -, -, rfl⟩ := (endNumber_eq_ok_iff hplain).mp hu
        refine ⟨by simp, [code], ?_, fun rest => ?_, grows_push⟩
        · rw [mode_push]
          exact .between
        · have htokens : tokens (taken.reverse ++ b :: rest) = taken.reverse :: tokens (b :: rest) :=
            tokens_plain_append hplain (atBlank_cons.mpr hspace)
          rw [tokens_cons_of_space hspace] at htokens
          simpa [hmode, hword] using htokens
      next =>
        split at h
        next hdigit =>
          cases h
          refine ⟨nofun, [], .number ?_, fun rest => by simp [hmode], Grows.refl.in_mode⟩
          rw [List.reverse_cons]
          exact hplain.append_digit hdigit
        next => cases h
  | header taken => rw [hmode] at hs; cases hs
  | comment taken => rw [hmode] at hs; cases hs

/-- **Some bytes of a line of numbers.** -/
theorem reads_feedAll (hs : s.mode.InNumbers) (hbytes : 10 ∉ bytes)
    (hstart : s.mode = .lineStart → isNumberLine bytes = true)
    (h : s.feedAll bytes = .ok t) : ∃ codes, s.Reads bytes codes t := by
  induction bytes generalizing s with
  | nil =>
      cases h
      exact ⟨[], hs, fun rest => by simp, Grows.refl⟩
  | cons b bytes ih =>
      obtain ⟨u, hu, h⟩ := feedAll_cons_eq_ok_iff.mp h
      rw [List.mem_cons, not_or] at hbytes
      have hb : s.mode = .lineStart → b ≠ 112 ∧ b ≠ 99 := by
        intro hmode
        cases hspace : isSpace b with
        | true => constructor <;> rintro rfl <;> cases hspace
        | false => simpa [isNumberLine, firstByte_cons_of_ne hspace] using hstart hmode
      obtain ⟨hline, x, hx⟩ := reads_feed hs (Ne.symm hbytes.1) hb hu
      have hrest : u.mode = .lineStart → isNumberLine bytes = true := by
        intro hmode
        obtain ⟨hmode, hspace⟩ := hline hmode
        simpa [isNumberLine, firstByte_cons_of_space hspace] using hstart hmode
      obtain ⟨y, hy⟩ := ih hx.mode hbytes.2 hrest h
      exact ⟨x ++ y, hx.trans hy⟩

/-! ### Lines that are collected -/

/-- White space where no number is pending is skipped. -/
theorem feedAll_spaces (hs : s.mode = .lineStart ∨ s.mode = .between)
    (hgap : ∀ b ∈ gap, isSpace b = true) (hbreak : 10 ∉ gap) : s.feedAll gap = .ok s := by
  induction gap with
  | nil => rfl
  | cons b gap ih =>
      obtain ⟨hb, hgap⟩ := List.forall_mem_cons.mp hgap
      rw [List.mem_cons, not_or] at hbreak
      have hfeed : s.feed b = .ok s := by
        rcases hs with hs | hs
        · rw [feed, hs]
          exact if_pos hb
        · rw [feed, hs]
          exact (if_neg (Ne.symm hbreak.1)).trans (if_pos hb)
      rw [feedAll_cons hfeed]
      exact ih hgap hbreak.2

/-- Bytes that are collected one by one. -/
theorem feedAll_taken {m : List UInt8 → Mode} {p : UInt8 → Prop}
    (hfeed : ∀ (s : State) (taken : List UInt8) (b : UInt8), s.mode = m taken → p b →
      s.feed b = .ok { s with mode := m (b :: taken) })
    (hs : s.mode = m taken) (hr : ∀ b ∈ r, p b) :
    s.feedAll r = .ok { s with mode := m (r.reverse ++ taken) } := by
  induction r generalizing s taken with
  | nil =>
      rw [List.reverse_nil, List.nil_append, ← hs]
      rfl
  | cons b r ih =>
      obtain ⟨hb, hr⟩ := List.forall_mem_cons.mp hr
      rw [feedAll_cons (hfeed s taken b hs hb), List.reverse_cons, List.append_assoc]
      exact ih rfl hr

/-- A header or a comment is collected up to the end of the line. -/
theorem feedAll_collected {m : List UInt8 → Mode} (hm : m = .header ∨ m = .comment)
    (hs : s.mode = m taken) (hr : 10 ∉ r) :
    s.feedAll r = .ok { s with mode := m (r.reverse ++ taken) } := by
  refine feedAll_taken (fun s taken b hs hb => ?_) hs fun b hb => ne_of_mem_of_not_mem hb hr
  rcases hm with rfl | rfl
  all_goals
    rw [feed, hs]
    exact if_neg hb

/-- A line that is collected from its first byte on. -/
theorem feedAll_collectedLine {m : List UInt8 → Mode} (hm : m = .header ∨ m = .comment)
    (hs : s.mode = .lineStart) (hgap : ∀ c ∈ gap, isSpace c = true)
    (hb : s.feed b = .ok { s with mode := m taken }) (hl : 10 ∉ gap ++ b :: r) :
    s.feedAll (gap ++ b :: r) = .ok { s with mode := m (r.reverse ++ taken) } := by
  rw [List.mem_append, List.mem_cons, not_or, not_or] at hl
  rw [feedAll_append (feedAll_spaces (.inl hs) hgap hl.1), feedAll_cons hb]
  exact feedAll_collected hm rfl hl.2.2

/-- A line is a gap and what follows its first byte. -/
theorem exists_of_firstByte_eq (h : firstByte l = some b) :
    ∃ gap r, l = gap ++ b :: r ∧ (∀ c ∈ gap, isSpace c = true) ∧ isSpace b = false := by
  obtain ⟨hb, gap, r, rfl, hgap⟩ := List.find?_eq_some_iff_append.mp h
  exact ⟨gap, r, rfl, by simpa using hgap, by simpa using hb⟩

theorem isBlank_of_isSpace (hb : isSpace b = true) : Latin1.isBlank b = true := by
  simp only [isSpace, Bool.or_eq_true, beq_iff_eq] at hb
  rcases hb with (((rfl | rfl) | rfl) | rfl) | rfl <;> decide

theorem trim_append (hgap : ∀ c ∈ gap, isSpace c = true) :
    Latin1.trim (gap ++ l) = Latin1.trim l := by
  rw [Latin1.trim, List.dropWhile_append_of_pos fun c hc => isBlank_of_isSpace (hgap c hc),
    Latin1.trim]

theorem commentOf_append (hgap : ∀ c ∈ gap, isSpace c = true) (hb : isSpace b = false) :
    commentOf (gap ++ b :: r) = r := by
  rw [commentOf, List.dropWhile_append_of_pos hgap, List.dropWhile_cons_of_neg (by simp [hb]),
    List.tail_cons]

theorem feedAll_headerLine (hs : s.mode = .lineStart) (hline : isHeaderLine l = true)
    (hl : 10 ∉ l) : ∃ taken, s.feedAll l = .ok { s with mode := .header taken } ∧
      Latin1.trim taken.reverse = Latin1.trim l := by
  obtain ⟨gap, r, rfl, hgap, -⟩ := exists_of_firstByte_eq (beq_iff_eq.mp hline)
  have hfeed : s.feed 112 = .ok { s with mode := .header [112] } := by rw [feed, hs]; rfl
  refine ⟨r.reverse ++ [112], feedAll_collectedLine (.inl rfl) hs hgap hfeed hl, ?_⟩
  rw [trim_append hgap, List.reverse_append, List.reverse_reverse]
  rfl

theorem feedAll_commentLine (hs : s.mode = .lineStart) (hline : isCommentLine l = true)
    (hl : 10 ∉ l) :
    s.feedAll l = .ok { s with mode := .comment (commentOf l).reverse } := by
  obtain ⟨gap, r, rfl, hgap, hspace⟩ := exists_of_firstByte_eq (beq_iff_eq.mp hline)
  have hfeed : s.feed 99 = .ok { s with mode := .comment [] } := by rw [feed, hs]; rfl
  rw [feedAll_collectedLine (.inr rfl) hs hgap hfeed hl, commentOf_append hgap hspace,
    List.append_nil]

/-! ### Ends of lines -/

/-- The state at the start of the next line. -/
def atStart (s : State) : State := { s with mode := .lineStart }

theorem grows_endHeader (h : s.endHeader taken = .ok u) :
    u.mode = .lineStart ∧ ∃ header, Header.ofLine (Latin1.trim taken.reverse) = .ok header ∧
      s.Grows ⟨[header], [], []⟩ u := by
  unfold endHeader at h
  cases hs : s.header with
  | some _ => rw [hs] at h; cases h
  | none =>
      rw [hs] at h
      obtain ⟨header, hheader, h⟩ := bind_eq_ok.mp h
      cases h
      refine ⟨rfl, header, hheader, ?_, fun hclean => ⟨hclean.clause, hclean.clauses⟩⟩
      ext1 <;> simp [held, hs]

theorem grows_endComment (h : s.endComment taken = .ok u) :
    u.mode = .lineStart ∧ ∃ root, RootAnnotation.ofComment taken.reverse = .ok root ∧
      s.Grows ⟨[], root.toList, []⟩ u := by
  obtain ⟨root, hroot, h⟩ := bind_eq_ok.mp h
  cases root with
  | none =>
      cases h
      exact ⟨rfl, none, hroot, Grows.refl.in_mode⟩
  | some r =>
      cases h
      refine ⟨rfl, some r, hroot, ?_, fun hclean => ⟨hclean.clause, hclean.clauses⟩⟩
      ext1 <;> simp [held]

/-- A line break ends a line in the way the end of a file does, but not after a minus sign. -/
theorem feed_newline_eq_ok_iff :
    s.feed 10 = .ok u ↔ s.mode ≠ .minus ∧ ∃ t, s.endLine = .ok t ∧ u = t.atStart := by
  have hstart {x : Except ReadError State} (hx : ∀ t, x = .ok t → t.mode = .lineStart) :
      x = .ok u ↔ ∃ t, x = .ok t ∧ u = t.atStart := by
    refine ⟨fun h => ⟨u, h, ?_⟩, fun ⟨t, ht, hu⟩ => ?_⟩
    · rw [atStart, ← hx u h]
    · rwa [hu, atStart, ← hx t ht]
  unfold feed endLine
  cases hmode : s.mode with
  | lineStart =>
      refine (hstart fun t ht => ?_).trans (and_iff_right nofun).symm
      cases ht
      exact hmode
  | header taken =>
      exact (hstart fun t ht => (grows_endHeader ht).1).trans (and_iff_right nofun).symm
  | comment taken =>
      exact (hstart fun t ht => (grows_endComment ht).1).trans (and_iff_right nofun).symm
  | minus => exact ⟨nofun, fun h => absurd rfl h.1⟩
  | number taken =>
      refine ⟨fun h => ?_, fun ⟨_, t, ht, hu⟩ => bind_eq_ok.mpr ⟨t, ht, hu ▸ rfl⟩⟩
      obtain ⟨t, ht, h⟩ := bind_eq_ok.mp h
      cases h
      exact ⟨nofun, t, ht, rfl⟩
  | between =>
      refine ⟨fun h => ⟨nofun, s, rfl, ?_⟩, fun ⟨_, t, ht, hu⟩ => ?_⟩
      · cases h
        rfl
      · cases ht
        rw [hu]
        rfl

/-- A number that is not over when the line ends, is over then; a minus sign is left over. -/
theorem grows_endLine (ht : t.mode.InNumbers) (h : t.endLine = .ok u) :
    ∃ codes rest, tokens t.mode.pending.flatten = codes.map signedDigits ++ rest ∧
      t.Grows (.ofCodes codes) u ∧ (rest = [] ∨ t.mode = .minus ∧ rest = [[45]]) := by
  unfold endLine at h
  cases hmode : t.mode with
  | lineStart =>
      rw [hmode] at h
      cases h
      exact ⟨[], [], rfl, Grows.refl, .inl rfl⟩
  | between =>
      rw [hmode] at h
      cases h
      exact ⟨[], [], rfl, Grows.refl, .inl rfl⟩
  | minus =>
      rw [hmode] at h
      cases h
      exact ⟨[], [[45]], rfl, Grows.refl, .inr ⟨rfl, rfl⟩⟩
  | number taken =>
      rw [hmode] at h ht
      cases ht with | number hplain =>
      obtain ⟨code, hword, -, -, rfl⟩ := (endNumber_eq_ok_iff hplain).mp h
      have htokens := tokens_plain_append hplain atBlank_nil
      refine ⟨[code], [], ?_, grows_push, .inl rfl⟩
      simpa [← hword] using htokens
  | header taken => rw [hmode] at ht; cases ht
  | comment taken => rw [hmode] at ht; cases ht

end State

/-! ### What lines hold -/

/-- Some lines hold the headers, roots and codes of `x`, and then the tokens `rest`. -/
structure Holds (lines : List (List UInt8)) (x : Held) (rest : List (List UInt8)) : Prop where
  headers : (lines.filter isHeaderLine).map (fun l => Header.ofLine (Latin1.trim l)) =
    x.headers.map .ok
  roots : ∃ found : List (Option RootAnnotation), x.roots = found.filterMap id ∧
    (lines.filter isCommentLine).map (fun l => RootAnnotation.ofComment (commentOf l)) =
      found.map .ok
  codes : (lines.filter isNumberLine).flatMap tokens = x.codes.map signedDigits ++ rest

theorem Holds.append {lines lines' : List (List UInt8)} {x y : Held} {rest : List (List UInt8)}
    (h : Holds lines x []) (h' : Holds lines' y rest) : Holds (lines ++ lines') (x ++ y) rest := by
  obtain ⟨found, hroots, hfound⟩ := h.roots
  obtain ⟨found', hroots', hfound'⟩ := h'.roots
  refine ⟨?_, ⟨found ++ found', ?_, ?_⟩, ?_⟩
  · simp [h.headers, h'.headers]
  · simp [hroots, hroots']
  · simp [hfound, hfound']
  · simp [h.codes, h'.codes]

theorem Holds.header {header : Header} (hline : isHeaderLine l = true)
    (h : Header.ofLine (Latin1.trim l) = .ok header) : Holds [l] ⟨[header], [], []⟩ [] := by
  have hbyte : firstByte l = some 112 := beq_iff_eq.mp hline
  refine ⟨?_, ⟨[], rfl, ?_⟩, ?_⟩
  · simp [hline, h]
  · simp [isCommentLine, hbyte]
  · simp [isNumberLine, hbyte]

theorem Holds.comment {root : Option RootAnnotation} (hline : isCommentLine l = true)
    (h : RootAnnotation.ofComment (commentOf l) = .ok root) :
    Holds [l] ⟨[], root.toList, []⟩ [] := by
  have hbyte : firstByte l = some 99 := beq_iff_eq.mp hline
  refine ⟨?_, ⟨[root], ?_, ?_⟩, ?_⟩
  · simp [isHeaderLine, hbyte]
  · cases root <;> rfl
  · simp [hline, h]
  · simp [isNumberLine, hbyte]

theorem Holds.numbers {rest : List (List UInt8)} (hline : isNumberLine l = true)
    (h : tokens l = codes.map signedDigits ++ rest) : Holds [l] (.ofCodes codes) rest := by
  have hbyte : firstByte l ≠ some 112 ∧ firstByte l ≠ some 99 := by
    simpa [isNumberLine] using hline
  refine ⟨?_, ⟨[], rfl, ?_⟩, ?_⟩
  · simp [isHeaderLine, hbyte, Held.ofCodes]
  · simp [isCommentLine, hbyte]
  · simpa [hline, Held.ofCodes] using h

/-- **One line.** -/
theorem holds_line (hs : s.mode = .lineStart) (hl : 10 ∉ l) (ht : s.feedAll l = .ok t)
    (hu : t.endLine = .ok u) : ∃ x rest, Holds [l] x rest ∧ s.Grows x u ∧
      (rest = [] ∨ t.mode = .minus ∧ rest = [[45]]) := by
  by_cases hheader : isHeaderLine l = true
  · obtain ⟨taken, hfeed, htrim⟩ := State.feedAll_headerLine hs hheader hl
    rw [hfeed] at ht
    cases ht
    obtain ⟨-, header, hofLine, hgrows⟩ := State.grows_endHeader hu
    rw [htrim] at hofLine
    exact ⟨_, [], .header hheader hofLine, hgrows.of_mode, .inl rfl⟩
  by_cases hcomment : isCommentLine l = true
  · have hfeed := State.feedAll_commentLine hs hcomment hl
    rw [hfeed] at ht
    cases ht
    obtain ⟨-, root, hofComment, hgrows⟩ := State.grows_endComment hu
    rw [List.reverse_reverse] at hofComment
    exact ⟨_, [], .comment hcomment hofComment, hgrows.of_mode, .inl rfl⟩
  have hnumber : isNumberLine l = true := by
    simpa [isNumberLine, isHeaderLine, isCommentLine] using And.intro hheader hcomment
  obtain ⟨x, hx⟩ := State.reads_feedAll (hs ▸ .lineStart) hl (fun _ => hnumber) ht
  obtain ⟨y, rest, hy, hgrows, hrest⟩ := State.grows_endLine hx.mode hu
  have htokens : tokens l = (x ++ y).map signedDigits ++ rest := by
    simpa [hs, hy] using hx.tokens_eq []
  have hxy := hx.grows.trans hgrows
  rw [Held.ofCodes_append] at hxy
  exact ⟨_, rest, .numbers hnumber htokens, hxy, hrest⟩

/-- **Some lines.** -/
theorem holds_lines {lines : List (List UInt8)} (hs : s.mode = .lineStart) (hne : lines ≠ [])
    (hlines : ∀ l ∈ lines, 10 ∉ l) (ht : s.feedAll ([10].intercalate lines) = .ok t)
    (hu : t.endLine = .ok u) : ∃ x rest, Holds lines x rest ∧ s.Grows x u ∧
      (rest = [] ∨ rest = [[45]]) := by
  induction lines generalizing s with
  | nil => exact absurd rfl hne
  | cons l lines ih =>
      obtain ⟨hl, hlines⟩ := List.forall_mem_cons.mp hlines
      cases lines with
      | nil =>
          obtain ⟨x, rest, hx, hgrows, hrest⟩ := holds_line hs hl (by simpa using ht) hu
          exact ⟨x, rest, hx, hgrows, hrest.imp_right And.right⟩
      | cons l' lines =>
          rw [List.intercalate_cons_of_ne_nil (List.cons_ne_nil l' lines), List.append_assoc,
            List.singleton_append] at ht
          obtain ⟨v, hv, ht⟩ := State.feedAll_append_eq_ok_iff.mp ht
          obtain ⟨v', hbreak, ht⟩ := State.feedAll_cons_eq_ok_iff.mp ht
          obtain ⟨hminus, w, hw, rfl⟩ := State.feed_newline_eq_ok_iff.mp hbreak
          obtain ⟨x, rest, hx, hgrows, rfl | hrest⟩ := holds_line hs hl hv hw
          · obtain ⟨y, rest, hy, hgrows', hrest⟩ :=
              ih rfl (List.cons_ne_nil l' lines) hlines ht
            exact ⟨x ++ y, rest, hx.append hy, hgrows.trans hgrows'.of_mode, hrest⟩
          · exact absurd hrest.1 hminus

/-! ### Files -/

/-- What a file with some content holds. -/
def heldBy (content : AnnotatedCnf) : Held :=
  ⟨[⟨content.numVariables, content.clauses.length⟩], content.roots, codesOf content.clauses⟩

theorem State.Contains.held_eq {content : AnnotatedCnf} (h : s.Contains content) :
    s.held = heldBy content := by
  ext1 <;> simp [State.held, heldBy, h.header_eq, h.clauses_eq, h.roots_eq, h.clause_eq]

/-- **The lines of a file that is read hold what is read.**  At most a minus sign at the end is left
over. -/
theorem holds_of_read {content : AnnotatedCnf} (h : read bytes = .ok content) :
    ∃ rest, Holds (bytes.splitOn 10) (heldBy content) rest ∧ (rest = [] ∨ rest = [[45]]) ∧
      ∀ c ∈ content.clauses, 0 ∉ c := by
  obtain ⟨s, t, hfeed, ht, hcontains⟩ := exists_of_read h
  have hbytes : [10].intercalate (bytes.splitOn 10) = bytes := List.intercalate_splitOn 10
  rw [← hbytes] at hfeed
  obtain ⟨x, rest, hx, hgrows, hrest⟩ := holds_lines (s := State.start) rfl
    (List.splitOn_ne_nil 10 bytes) (fun l => not_mem_of_mem_splitOn) hfeed ht
  have hheld : heldBy content = x := by
    rw [← hcontains.held_eq, hgrows.held_eq]
    exact Held.nothing_append
  refine ⟨rest, hheld ▸ hx, hrest, fun c hc => ?_⟩
  exact (hgrows.clean State.clean_start).clauses c (hcontains.clauses_eq ▸ hc)

end ModelFinder.Dimacs
