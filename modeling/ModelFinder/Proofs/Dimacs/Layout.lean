import ModelFinder.Proofs.Dimacs.Lines

/-!
# Every layout of a file is read

The same content has many layouts: white space may be of any kind and length, a clause may go on in
another line, and comments may stand between any two lines.  A `Layout` says what the lines of a
file are meant for, in which order, and `Line.Written` which texts a line may have.

A line adds what it is meant for (`feedAll_line`), so that the lines of a layout add up to the
content (`read_of_layout`).

* `feedAll_numbers`: a line of numbers, by induction on its numbers.
* `feedAll_lines`: some lines in turn, none of them a header.
* `read_of_layout`: any content is read from any of its layouts.
-/

namespace ModelFinder.Dimacs

open Decimal (isDigit digits signedDigits half32 word32 word64 IsPlain)

/-! ### Layouts -/

/-- What a line of a file is meant for. -/
inductive Line where
  | header
  | root (root : RootAnnotation)
  | comment
  | numbers (codes : List Int)

/-- A printable character other than the blank. -/
def isGraphic (b : UInt8) : Bool := 33 ≤ b && b ≤ 126

/-- The name that some words make up, separated by single blanks; no words make up no name. -/
def joined (words : List (List UInt8)) : Option String :=
  if words = [] then none else some (Latin1.text ([32].intercalate words))

/-- The texts that a line may have. -/
inductive Line.Written (h : Header) : Line → List UInt8 → Prop
  | header {gap rest : List UInt8} (spaces : ∀ b ∈ gap, State.isSpace b = true)
      (words : wordsBy State.isSpace rest = [digits h.numVariables, digits h.numClauses]) :
      Written h .header (gap ++ (headerStart ++ rest))
  | root {root : RootAnnotation} {gap rest : List UInt8} {name : List (List UInt8)}
      (spaces : ∀ b ∈ gap, State.isSpace b = true)
      (printable : ∀ b ∈ rest, (isGraphic b || State.isSpace b) = true)
      (words : wordsBy State.isSpace rest = rootWord :: digits root.var :: name)
      (name_eq : root.name = joined name) : Written h (.root root) (gap ++ 99 :: rest)
  | comment {gap rest : List UInt8} (spaces : ∀ b ∈ gap, State.isSpace b = true)
      (printable : ∀ b ∈ rest, (isGraphic b || State.isSpace b) = true)
      (not_root : (wordsBy State.isSpace rest).head? ≠ some rootWord) :
      Written h .comment (gap ++ 99 :: rest)
  | numbers {codes : List Int} {text : List UInt8}
      (words : wordsBy State.isSpace text = codes.map signedDigits) :
      Written h (.numbers codes) text

/-- The codes of a line. -/
def Line.codes : Line → List Int
  | .numbers codes => codes
  | _ => []

/-- The root of a line. -/
def Line.root? : Line → Option RootAnnotation
  | .root r => some r
  | _ => none

/-- Lines for some content: one header, before any codes, and the codes and the roots in their
order. -/
structure Layout (content : AnnotatedCnf) where
  before : List Line
  after : List Line
  no_header : ∀ line ∈ before ++ after, line ≠ .header
  no_codes : ∀ line ∈ before, line.codes = []
  codes_eq : (before ++ after).flatMap Line.codes = codesOf content.clauses
  roots_eq : (before ++ after).filterMap Line.root? = content.roots

/-- A file whose lines are written for those of the layout. -/
def Layout.Writes {content : AnnotatedCnf} (layout : Layout content) (bytes : List UInt8) : Prop :=
  List.Forall₂ (Line.Written ⟨content.numVariables, content.clauses.length⟩)
    (layout.before ++ .header :: layout.after) (bytes.splitOn 10)

/-- Content that the format has numbers for, and that a file may have. -/
structure AnnotatedCnf.Writable (content : AnnotatedCnf) : Prop where
  numVariables_lt : content.numVariables < word32
  numClauses_lt : content.clauses.length < word64
  codes : ∀ clause ∈ content.clauses, ∀ code ∈ clause, code ≠ 0 ∧
    (-(half32 : Int) ≤ code ∧ code < half32) ∧ code.natAbs ≤ content.numVariables
  roots : ∀ root ∈ content.roots, 1 ≤ root.var ∧ root.var ≤ content.numVariables

variable {s t u : State} {b : UInt8} {l r w gap rest text bytes taken : List UInt8} {code : Int}
  {codes : List Int} {content : AnnotatedCnf} {header : Header}

/-! ### Comments and headers -/

theorem isGraphic_of_isDigit (hb : isDigit b = true) : isGraphic b = true := by
  simp only [isDigit, isGraphic, Bool.and_eq_true, decide_eq_true_eq, UInt8.le_iff_toNat_le,
    UInt8.reduceToNat] at hb ⊢
  omega

theorem isSpace_eq_isBlank (hb : (isGraphic b || State.isSpace b) = true) :
    State.isSpace b = Latin1.isBlank b := by
  cases hspace : State.isSpace b with
  | true => exact (State.isBlank_of_isSpace hspace).symm
  | false =>
      rw [hspace, Bool.or_false, isGraphic, Bool.and_eq_true, decide_eq_true_eq,
        decide_eq_true_eq, UInt8.le_iff_toNat_le, UInt8.le_iff_toNat_le] at hb
      simp only [UInt8.reduceToNat] at hb
      rw [eq_comm, Latin1.isBlank]
      simp only [Bool.or_eq_false_iff, Bool.and_eq_false_iff, beq_eq_false_iff_ne,
        decide_eq_false_iff_not, UInt8.le_iff_toNat_le, ne_eq, ← UInt8.toNat_inj,
        UInt8.reduceToNat]
      omega

theorem words_of_printable (hrest : ∀ b ∈ rest, (isGraphic b || State.isSpace b) = true) :
    Latin1.words rest = wordsBy State.isSpace rest := by
  rw [Latin1.words_eq]
  exact (wordsBy_congr fun b hb => isSpace_eq_isBlank (hrest b hb)).symm

/-- Texts that are joined are the text of the joined words. -/
theorem intercalate_text (words : List (List UInt8)) :
    " ".intercalate (words.map Latin1.text) = Latin1.text ([32].intercalate words) := by
  rw [← String.toList_inj, String.toList_intercalate, List.map_map, Latin1.text,
    String.toList_ofList]
  induction words with
  | nil => rfl
  | cons w words ih =>
      cases words with
      | nil => simp [Latin1.text]
      | cons w' words =>
          rw [List.map_cons, List.map_cons,
            List.intercalate_cons_of_ne_nil (List.cons_ne_nil _ _), ← List.map_cons, ih,
            List.intercalate_cons_of_ne_nil (List.cons_ne_nil _ _)]
          simp [Latin1.text]

theorem nameOfWords_eq (words : List (List UInt8)) : nameOfWords words = joined words := by
  rw [nameOfWords, joined, intercalate_text]
  simp

/-- A comment that starts with `root`, a variable and a name. -/
theorem ofComment_root {root : RootAnnotation} {name : List (List UInt8)}
    (hrest : ∀ b ∈ rest, (isGraphic b || State.isSpace b) = true)
    (hwords : wordsBy State.isSpace rest = rootWord :: digits root.var :: name)
    (hname : root.name = joined name) (hpos : 1 ≤ root.var) (hvar : root.var < word32) :
    RootAnnotation.ofComment rest = .ok (some root) := by
  obtain ⟨var, _⟩ := root
  dsimp only at *
  obtain ⟨n, rfl⟩ := Nat.exists_eq_add_of_le' hpos
  unfold RootAnnotation.ofComment
  rw [words_of_printable hrest, hwords]
  dsimp only
  rw [if_neg (not_not.mpr rfl), Decimal.unsigned?_digits hvar, nameOfWords_eq, hname]

/-- A comment that starts with another word. -/
theorem ofComment_other (hrest : ∀ b ∈ rest, (isGraphic b || State.isSpace b) = true)
    (hwords : (wordsBy State.isSpace rest).head? ≠ some rootWord) :
    RootAnnotation.ofComment rest = .ok none := by
  unfold RootAnnotation.ofComment
  rw [words_of_printable hrest]
  split
  next => rfl
  next first _ heq =>
    rw [heq, List.head?_cons, Ne, Option.some_inj] at hwords
    exact if_pos hwords

theorem ofLine_headerStart (hn : header.numVariables < word32) (hm : header.numClauses < word64)
    (hwords : wordsBy State.isSpace rest = [digits header.numVariables, digits header.numClauses]) :
    Header.ofLine (Latin1.trim (headerStart ++ rest)) = .ok header := by
  have hprintable : ∀ b ∈ rest, (isGraphic b || State.isSpace b) = true := by
    intro b hb
    rcases blank_or_mem_wordsBy (p := State.isSpace) hb with hspace | ⟨w, hw, hbw⟩
    · rw [hspace, Bool.or_true]
    · have hdigit : isDigit b = true := by
        rw [hwords, List.mem_cons, List.mem_singleton] at hw
        rcases hw with rfl | rfl <;> exact Decimal.isDigit_of_mem_digits b hbw
      rw [isGraphic_of_isDigit hdigit, Bool.true_or]
  have hrest := (words_of_printable hprintable).trans hwords
  have hstart : headerStart.isPrefixOf (Latin1.trim (headerStart ++ rest)) = true :=
    Latin1.isPrefixOf_trim (by decide) (by simp [hrest])
  have hline : Latin1.words (headerStart ++ rest) =
      [[112], [99, 110, 102]] ++ Latin1.words rest := by
    rw [Latin1.words_eq, Latin1.words_eq]
    exact @wordsBy_append_cons Latin1.isBlank 32 [112, 32, 99, 110, 102] rest (by decide)
  simp [Header.ofLine, hstart, hline, hrest, Decimal.unsigned?_digits hn,
    Decimal.unsigned?_digits hm]

/-! ### Numbers -/

namespace State

/-- The first byte of a number where no number is pending. -/
theorem feed_eq_startNumber (hs : s.mode = .lineStart ∨ s.mode = .between)
    (hb : isDigit b = true ∨ b = 45) : s.feed b = s.startNumber b := by
  have hne : isSpace b = false ∧ b ≠ 10 ∧ b ≠ 112 ∧ b ≠ 99 := by
    rcases hb with hb | rfl
    · exact ⟨isSpace_of_isDigit hb, Decimal.ne_of_isDigit hb (by decide),
        Decimal.ne_of_isDigit hb (by decide), Decimal.ne_of_isDigit hb (by decide)⟩
    · decide
  obtain ⟨hspace, hbreak, hp, hc⟩ := hne
  rcases hs with hs | hs <;> simp [feed, hs, hspace, hbreak, hp, hc]

theorem feedAll_digits (hs : s.mode = .number taken) (hr : ∀ b ∈ r, isDigit b = true) :
    s.feedAll r = .ok { s with mode := .number (r.reverse ++ taken) } :=
  feedAll_taken (fun s taken b hs hb => by simp [feed, hs, isSpace_of_isDigit hb, hb]) hs hr

/-- A number is collected byte by byte. -/
theorem feedAll_plain (hs : s.mode = .lineStart ∨ s.mode = .between) (hw : IsPlain w) :
    s.feedAll w = .ok { s with mode := .number w.reverse } := by
  obtain ⟨ds, hds, hne, hdigits, hzero⟩ := hw.exists_digits
  obtain ⟨d, ds, rfl⟩ := List.exists_cons_of_ne_nil hne
  obtain ⟨hd, hdigits⟩ := List.forall_mem_cons.mp hdigits
  have hd0 : d ≠ 48 := fun h => hzero (congrArg some h)
  rcases hds with rfl | rfl
  · have hfeed : s.feed d = .ok { s with mode := .number [d] } := by
      rw [feed_eq_startNumber hs (.inl hd)]
      simp [startNumber, hd0, hd]
    rw [feedAll_cons hfeed, feedAll_digits rfl hdigits, List.reverse_cons]
  · have hminus : s.feed 45 = .ok { s with mode := .minus } := by
      rw [feed_eq_startNumber hs (.inr rfl)]
      rfl
    have hfeed : feed { s with mode := .minus } d = .ok { s with mode := .number [d, 45] } := by
      simp [feed, hd0, hd]
    rw [feedAll_cons hminus, feedAll_cons hfeed, feedAll_digits rfl hdigits]
    simp

theorem admits_push {c : Int} : (s.push code).Admits c ↔ s.Admits c := by
  simp [Admits]

/-- White space ends a number. -/
theorem feed_space_number (hcode : code ≠ 0) (hrange : -(half32 : Int) ≤ code ∧ code < half32)
    (hadmits : s.Admits code) (hb : isSpace b = true) :
    feed { s with mode := .number (signedDigits code).reverse } b =
      .ok (if b = 10 then (s.push code).atStart else s.push code) := by
  have hplain : IsPlain (signedDigits code).reverse.reverse := by
    rw [List.reverse_reverse]
    exact Decimal.isPlain_signedDigits hcode
  have hend : endNumber { s with mode := .number (signedDigits code).reverse }
      (signedDigits code).reverse = .ok (s.push code) := by
    refine (endNumber_eq_ok_iff hplain).mpr ⟨code, List.reverse_reverse _, hrange, hadmits, ?_⟩
    rw [push, push, if_neg hcode]
  rw [feed]
  dsimp only
  rw [if_pos hb, hend]
  rfl

theorem feed_newline (hs : s.mode = .lineStart ∨ s.mode = .between) :
    s.feed 10 = .ok s.atStart := by
  refine feed_newline_eq_ok_iff.mpr ⟨?_, s, ?_, rfl⟩
  · rcases hs with hs | hs <;> simp [hs]
  · rcases hs with hs | hs <;> simp [endLine, hs]

/-- A line of numbers, up to its end. -/
theorem feedAll_numbers (hs : s.mode = .lineStart ∨ s.mode = .between) (hl : 10 ∉ l)
    (hwords : wordsBy isSpace l = codes.map signedDigits)
    (hcodes : ∀ code ∈ codes, (-(half32 : Int) ≤ code ∧ code < half32) ∧ s.Admits code) :
    ∃ u, s.feedAll (l ++ [10]) = .ok u ∧ u.mode = .lineStart ∧ s.Grows (.ofCodes codes) u := by
  induction codes generalizing s l with
  | nil =>
      have hspaces := feedAll_spaces hs (wordsBy_eq_nil_iff.mp hwords) hl
      refine ⟨s.atStart, ?_, rfl, Grows.refl.in_mode⟩
      rw [feedAll_append hspaces, feedAll_cons (feed_newline hs)]
      rfl
  | cons code codes ih =>
      obtain ⟨gap, rest, rfl, hgap, -, hrest, hwords⟩ := exists_of_wordsBy_eq_cons hwords
      obtain ⟨⟨hrange, hadmits⟩, hcodes⟩ := List.forall_mem_cons.mp hcodes
      rw [List.mem_append, List.mem_append, not_or, not_or] at hl
      obtain ⟨hgap10, -, hrest10⟩ := hl
      rw [List.append_assoc, feedAll_append (feedAll_spaces hs hgap hgap10), List.append_assoc]
      -- The rest of the line, once the number has been taken.
      have hnext {rest : List UInt8} (hbreak : 10 ∉ rest)
          (hwords : wordsBy isSpace rest = codes.map signedDigits) :
          ∃ u, (s.push code).feedAll (rest ++ [10]) = .ok u ∧ u.mode = .lineStart ∧
            s.Grows (.ofCodes (code :: codes)) u := by
        obtain ⟨u, hfeed, hmode, hgrows⟩ := ih (s := s.push code) (.inr mode_push) hbreak hwords
          fun c hc => (hcodes c hc).imp_right admits_push.mpr
        exact ⟨u, hfeed, hmode, grows_push.trans hgrows⟩
      by_cases hzero : code = 0
      · have hfeed : s.feed 48 = .ok (s.push code) := by
          obtain ⟨header, hheader, -⟩ := hadmits
          rw [feed_eq_startNumber hs (.inl (by decide)), hzero]
          exact endClause_eq_ok_iff.mpr ⟨by simp [hheader], rfl⟩
        have hword : signedDigits code = [48] := by rw [hzero, Decimal.signedDigits_zero]
        rw [hword, List.singleton_append, feedAll_cons hfeed]
        exact hnext hrest10 hwords
      · rw [feedAll_append (feedAll_plain hs (Decimal.isPlain_signedDigits hzero))]
        cases rest with
        | nil =>
            have hfeed := feed_space_number (b := 10) hzero hrange hadmits (by decide)
            have hnil : codes = [] := by simpa using hwords.symm
            refine ⟨(s.push code).atStart, feedAll_cons hfeed, rfl, ?_⟩
            rw [hnil]
            exact grows_push.in_mode
        | cons b rest =>
            have hb := atBlank_cons.mp hrest
            rw [List.mem_cons, not_or] at hrest10
            rw [wordsBy_cons_of_blank hb] at hwords
            have hfeed := feed_space_number hzero hrange hadmits hb
            rw [if_neg (Ne.symm hrest10.1)] at hfeed
            rw [List.cons_append, feedAll_cons hfeed]
            exact hnext hrest10.2 hwords

theorem Grows.header_eq {x : Held} (h : s.Grows x t) (hx : x.headers = []) :
    t.header = s.header := by
  have heq : t.held.headers = s.held.headers ++ x.headers := by rw [h.held_eq, Held.headers_append]
  rw [hx, List.append_nil] at heq
  simpa [held] using congrArg List.head? heq

end State

/-! ### Lines -/

/-- What a line holds. -/
def Line.held (h : Header) : Line → Held
  | .header => ⟨[h], [], []⟩
  | .root r => ⟨[], [r], []⟩
  | .comment => .nothing
  | .numbers codes => .ofCodes codes

/-- A line may be read next. -/
def Line.Fits (s : State) : Line → Prop
  | .header => s.header = none
  | .root r => 1 ≤ r.var ∧ r.var < word32
  | .comment => True
  | .numbers codes => ∀ code ∈ codes, (-(half32 : Int) ≤ code ∧ code < half32) ∧ s.Admits code

theorem Line.Fits.congr {line : Line} (h : line.Fits s) (hheader : t.header = s.header) :
    line.Fits t := by
  cases line with
  | header => exact hheader.trans h
  | root => exact h
  | comment => trivial
  | numbers codes =>
      refine fun code hcode => ⟨(h code hcode).1, ?_⟩
      rw [State.Admits, hheader]
      exact (h code hcode).2

theorem firstByte_append (hgap : ∀ c ∈ gap, State.isSpace c = true)
    (hb : State.isSpace b = false) : firstByte (gap ++ b :: rest) = some b :=
  List.find?_eq_some_iff_append.mpr
    ⟨by simp [hb], gap, rest, rfl, fun c hc => by simp [hgap c hc]⟩

/-- A line break ends a header or a comment. -/
theorem feedAll_append_newline (ht : s.feedAll l = .ok t) (hmode : t.mode ≠ .minus)
    (hu : t.endLine = .ok u) : s.feedAll (l ++ [10]) = .ok u.atStart :=
  State.feedAll_append_eq_ok_iff.mpr ⟨t, ht,
    State.feedAll_cons (State.feed_newline_eq_ok_iff.mpr ⟨hmode, u, hu, rfl⟩)⟩

theorem feedAll_comment {root : Option RootAnnotation} (hs : s.mode = .lineStart)
    (hgap : ∀ c ∈ gap, State.isSpace c = true) (hl : 10 ∉ gap ++ 99 :: rest)
    (hroot : RootAnnotation.ofComment rest = .ok root) :
    ∃ u, s.feedAll (gap ++ 99 :: rest ++ [10]) = .ok u ∧ u.mode = .lineStart ∧
      s.Grows ⟨[], root.toList, []⟩ u := by
  have hline : isCommentLine (gap ++ 99 :: rest) = true :=
    beq_iff_eq.mpr (firstByte_append hgap (by decide))
  have hfeed := State.feedAll_commentLine hs hline hl
  rw [State.commentOf_append hgap (by decide)] at hfeed
  obtain ⟨u, hu⟩ : ∃ u, State.endComment { s with mode := .comment rest.reverse } rest.reverse =
      .ok u := by
    rw [State.endComment, List.reverse_reverse, hroot]
    cases root <;> exact ⟨_, rfl⟩
  obtain ⟨-, _, hroot', hgrows⟩ := State.grows_endComment hu
  rw [List.reverse_reverse, hroot] at hroot'
  cases hroot'
  exact ⟨u.atStart, feedAll_append_newline hfeed nofun hu, rfl, hgrows.of_mode.in_mode⟩

theorem feedAll_header (hs : s.mode = .lineStart) (hnone : s.header = none)
    (hgap : ∀ c ∈ gap, State.isSpace c = true) (hl : 10 ∉ gap ++ (headerStart ++ rest))
    (hheader : Header.ofLine (Latin1.trim (headerStart ++ rest)) = .ok header) :
    ∃ u, s.feedAll (gap ++ (headerStart ++ rest) ++ [10]) = .ok u ∧ u.mode = .lineStart ∧
      s.Grows ⟨[header], [], []⟩ u := by
  have hline : isHeaderLine (gap ++ (headerStart ++ rest)) = true :=
    beq_iff_eq.mpr (firstByte_append (b := 112) hgap (by decide))
  obtain ⟨taken, hfeed, htrim⟩ := State.feedAll_headerLine hs hline hl
  rw [State.trim_append hgap] at htrim
  obtain ⟨u, hu⟩ : ∃ u, State.endHeader { s with mode := .header taken } taken = .ok u := by
    rw [State.endHeader, htrim, hheader, hnone]
    exact ⟨_, rfl⟩
  obtain ⟨-, _, hheader', hgrows⟩ := State.grows_endHeader hu
  rw [htrim, hheader] at hheader'
  cases hheader'
  exact ⟨u.atStart, feedAll_append_newline hfeed nofun hu, rfl, hgrows.of_mode.in_mode⟩

/-- **One line.** -/
theorem feedAll_line {line : Line} (hs : s.mode = .lineStart) (htext : 10 ∉ text)
    (hn : header.numVariables < word32) (hm : header.numClauses < word64)
    (hwritten : line.Written header text) (hfits : line.Fits s) :
    ∃ u, s.feedAll (text ++ [10]) = .ok u ∧ u.mode = .lineStart ∧
      s.Grows (line.held header) u := by
  cases hwritten with
  | header spaces words =>
      exact feedAll_header hs hfits spaces htext (ofLine_headerStart hn hm words)
  | root spaces printable words name_eq =>
      exact feedAll_comment hs spaces htext
        (ofComment_root printable words name_eq hfits.1 hfits.2)
  | comment spaces printable not_root =>
      exact feedAll_comment hs spaces htext (ofComment_other printable not_root)
  | numbers words => exact State.feedAll_numbers (.inl hs) htext words hfits

/-- **Some lines, none of them a header**, in front of others. -/
theorem feedAll_lines {lines others : List Line} {texts : List (List UInt8)}
    (hs : s.mode = .lineStart) (htexts : ∀ text ∈ texts, 10 ∉ text)
    (hn : header.numVariables < word32) (hm : header.numClauses < word64)
    (hwritten : List.Forall₂ (Line.Written header) (lines ++ others) texts)
    (hlines : ∀ line ∈ lines, line ≠ .header ∧ line.Fits s) :
    ∃ u texts', s.feedAll (texts.flatMap (· ++ [10])) = u.feedAll (texts'.flatMap (· ++ [10])) ∧
      List.Forall₂ (Line.Written header) others texts' ∧ (∀ text ∈ texts', 10 ∉ text) ∧
      u.mode = .lineStart ∧
      s.Grows ⟨[], lines.filterMap Line.root?, lines.flatMap Line.codes⟩ u := by
  induction lines generalizing s texts with
  | nil => exact ⟨s, texts, rfl, hwritten, htexts, hs, State.Grows.refl⟩
  | cons line lines ih =>
      obtain ⟨hline, hlines⟩ := List.forall_mem_cons.mp hlines
      cases hwritten with
      | @cons _ text _ texts hwritten hrest =>
          obtain ⟨htext, htexts⟩ := List.forall_mem_cons.mp htexts
          obtain ⟨t, hfeed, hmode, hgrows⟩ := feedAll_line hs htext hn hm hwritten hline.2
          have hheld : line.held header = ⟨[], line.root?.toList, line.codes⟩ := by
            cases line with
            | header => exact absurd rfl hline.1
            | root | comment | numbers => rfl
          have hheader : t.header = s.header := hgrows.header_eq (by rw [hheld])
          obtain ⟨u, texts', heq, hothers, htexts', hmode', hgrows'⟩ :=
            ih hmode htexts hrest fun l hl => (hlines l hl).imp_right fun h => h.congr hheader
          refine ⟨u, texts', ?_, hothers, htexts', hmode', ?_⟩
          · rw [List.flatMap_cons, State.feedAll_append hfeed, heq]
          · have hroots : (line :: lines).filterMap Line.root? =
                line.root?.toList ++ lines.filterMap Line.root? := by
              rw [List.filterMap_cons]
              cases line.root? <;> rfl
            rw [hroots, List.flatMap_cons]
            rw [hheld] at hgrows
            exact hgrows.trans hgrows'

/-! ### Files -/

theorem flatMap_newline {texts : List (List UInt8)} (hne : texts ≠ []) :
    texts.flatMap (· ++ [10]) = [10].intercalate texts ++ [10] := by
  induction texts with
  | nil => exact absurd rfl hne
  | cons text texts ih =>
      cases texts with
      | nil => simp
      | cons text' texts =>
          rw [List.flatMap_cons, ih (List.cons_ne_nil _ _),
            List.intercalate_cons_of_ne_nil (List.cons_ne_nil _ _)]
          simp

/-- What has been read is the content, and nothing is missing. -/
theorem State.contains_of_held_eq (hheld : s.held = heldBy content) (hclean : s.Clean)
    (hclauses : ∀ c ∈ content.clauses, 0 ∉ c)
    (hroots : ∀ r ∈ content.roots, r.var ≤ content.numVariables) : s.Contains content := by
  have hcodes : (codesOf s.clauses.toList ++ s.clause.toList).splitOn 0 =
      (codesOf content.clauses ++ []).splitOn 0 := by
    rw [List.append_nil]
    exact congrArg (fun x => x.codes.splitOn 0) hheld
  rw [splitOn_codesOf hclean.clause hclean.clauses, splitOn_codesOf List.not_mem_nil hclauses]
    at hcodes
  obtain ⟨hclauses_eq, hclause⟩ := List.append_inj' hcodes rfl
  refine ⟨?_, ?_, hclauses_eq, ?_, hroots⟩
  · simpa [held, heldBy] using congrArg (fun x => x.headers.head?) hheld
  · simpa using hclause
  · exact congrArg Held.roots hheld

theorem State.finish_of_contains (ht : s.endLine = .ok t) (hcontains : t.Contains content) :
    s.finish = .ok content := by
  have hroots : (t.roots.find? fun root => decide (content.numVariables < root.var)) = none := by
    rw [Array.find?_eq_none]
    intro root hroot
    have hle := hcontains.roots_le root (hcontains.roots_eq ▸ Array.mem_toList_iff.mpr hroot)
    simpa using hle
  have hclause : t.clause.isEmpty = true := by rw [hcontains.clause_eq, Array.isEmpty_empty]
  have hcount : content.clauses.length = t.clauses.size := by
    rw [← hcontains.clauses_eq, Array.length_toList]
  refine bind_eq_ok.mpr ⟨t, ht, ?_⟩
  rw [hcontains.header_eq]
  dsimp only
  rw [if_pos hclause, if_pos hcount]
  simp only [hroots, hcontains.clauses_eq, hcontains.roots_eq]
  rfl

/-- The lines of a layout may be read: at first those without codes, and all of them after the
header. -/
theorem Layout.fits (layout : Layout content) (hcontent : content.Writable) {line : Line}
    (hline : line ∈ layout.before ++ layout.after)
    (hs : line.codes = [] ∨ s.header = some ⟨content.numVariables, content.clauses.length⟩) :
    line ≠ .header ∧ line.Fits s := by
  refine ⟨layout.no_header line hline, ?_⟩
  cases line with
  | header => exact absurd rfl (layout.no_header _ hline)
  | root r =>
      have hr : r ∈ content.roots := by
        rw [← layout.roots_eq]
        exact List.mem_filterMap.mpr ⟨_, hline, rfl⟩
      obtain ⟨hpos, hle⟩ := hcontent.roots r hr
      exact ⟨hpos, Nat.lt_of_le_of_lt hle hcontent.numVariables_lt⟩
  | comment => trivial
  | numbers codes =>
      intro code hcode
      have hheader := hs.resolve_left (List.ne_nil_of_mem hcode)
      have hmem : code ∈ codesOf content.clauses := by
        rw [← layout.codes_eq]
        exact List.mem_flatMap.mpr ⟨_, hline, hcode⟩
      obtain ⟨clause, hclause, hmem⟩ := List.mem_flatMap.mp hmem
      rcases List.mem_append.mp hmem with hmem | hmem
      · obtain ⟨-, hrange, hle⟩ := hcontent.codes clause hclause code hmem
        exact ⟨hrange, _, hheader, hle⟩
      · rw [List.mem_singleton.mp hmem]
        exact ⟨by decide, _, hheader, Nat.zero_le _⟩

/-- The lines of a layout hold the content: those in front of the header, the header, and the
others. -/
theorem Layout.exists_feedAll (layout : Layout content) (hcontent : content.Writable)
    (hwrites : layout.Writes bytes) :
    ∃ u, State.start.feedAll (bytes ++ [10]) = .ok u ∧ State.start.Grows (heldBy content) u := by
  have hn := hcontent.numVariables_lt
  have hm := hcontent.numClauses_lt
  have htexts : ∀ text ∈ bytes.splitOn 10, 10 ∉ text := fun text => not_mem_of_mem_splitOn
  obtain ⟨s, texts, hfeed, hwritten, htexts, hs, hbefore⟩ :=
    feedAll_lines (s := State.start) rfl htexts hn hm hwrites fun line hline =>
      layout.fits hcontent (List.mem_append_left _ hline) (.inl (layout.no_codes line hline))
  cases hwritten with | @cons _ text _ texts hheader hwritten =>
  obtain ⟨htext, htexts⟩ := List.forall_mem_cons.mp htexts
  obtain ⟨t, hfeed', ht, hgrows⟩ :=
    feedAll_line hs htext hn hm hheader (hbefore.header_eq rfl)
  have hnumbers : t.header = some ⟨content.numVariables, content.clauses.length⟩ := by
    simpa [State.held, State.start, Line.held] using
      congrArg (fun x => x.headers.head?) (hbefore.trans hgrows).held_eq
  rw [← List.append_nil layout.after] at hwritten
  obtain ⟨u, texts', hfeed'', hwritten, -, -, hafter⟩ :=
    feedAll_lines ht htexts hn hm hwritten fun line hline =>
      layout.fits hcontent (List.mem_append_right _ hline) (.inr hnumbers)
  cases hwritten
  have hbytes : (bytes.splitOn 10).flatMap (· ++ [10]) = bytes ++ [10] := by
    rw [flatMap_newline (List.splitOn_ne_nil 10 bytes), List.intercalate_splitOn]
  refine ⟨u, ?_, ?_⟩
  · rw [← hbytes, hfeed, List.flatMap_cons, State.feedAll_append hfeed', hfeed'']
    rfl
  · have hsum := (hbefore.trans hgrows).trans hafter
    refine ⟨hsum.held_eq.trans (congrArg (State.start.held ++ ·) ?_), hsum.clean⟩
    rw [heldBy, ← layout.codes_eq, ← layout.roots_eq]
    ext1 <;> simp [Line.held]

/-- A file is read if it would be read with another line break at its end. -/
theorem read_of_feedAll_newline (hu : State.start.feedAll (bytes ++ [10]) = .ok u)
    (hgrows : State.start.Grows (heldBy content) u)
    (hclauses : ∀ c ∈ content.clauses, 0 ∉ c)
    (hroots : ∀ r ∈ content.roots, r.var ≤ content.numVariables) : read bytes = .ok content := by
  obtain ⟨s, hs, hlast⟩ := State.feedAll_append_eq_ok_iff.mp hu
  obtain ⟨_, hlast, hnil⟩ := State.feedAll_cons_eq_ok_iff.mp hlast
  cases hnil
  obtain ⟨-, t, ht, rfl⟩ := State.feed_newline_eq_ok_iff.mp hlast
  have hheld : t.held = heldBy content := hgrows.held_eq.trans Held.nothing_append
  have hclean := hgrows.clean State.clean_start
  have hcontains : t.Contains content :=
    State.contains_of_held_eq hheld ⟨hclean.clause, hclean.clauses⟩ hclauses hroots
  exact read_eq_ok_iff.mpr ⟨s, hs, State.finish_of_contains ht hcontains⟩

/-- **Every content is read from every layout of it.** -/
theorem read_of_layout (hcontent : content.Writable) (layout : Layout content)
    (hwrites : layout.Writes bytes) : read bytes = .ok content := by
  obtain ⟨u, hu, hgrows⟩ := layout.exists_feedAll hcontent hwrites
  have hclauses : ∀ c ∈ content.clauses, 0 ∉ c :=
    fun c hc hzero => (hcontent.codes c hc 0 hzero).1 rfl
  exact read_of_feedAll_newline hu hgrows hclauses fun r hr => (hcontent.roots r hr).2

/-- A root in front of the header, a line that ends with a carriage return, a clause that a comment
interrupts, and no line break at the end. -/
theorem read_of_layout_interrupted :
    let bytes :=
      "c hi\n c root 2 a  b\np cnf 3 2\r\n1\t-2\nc\n0 3 0\nc root 3".toList.map (·.toNat.toUInt8)
    let content : AnnotatedCnf := ⟨3, [[1, -2], [3]], [⟨2, "a b"⟩, ⟨3, none⟩]⟩
    content.Writable ∧ (∃ layout : Layout content, layout.Writes bytes) ∧
      read bytes = .ok content := by
  intro bytes content
  have hwritable : content.Writable := by
    refine ⟨by decide, by decide, ?_, ?_⟩
    · simp [content, half32]
    · simp [content]
  let layout : Layout content :=
    ⟨[.comment, .root ⟨2, "a b"⟩],
      [.numbers [1, -2], .comment, .numbers [0, 3, 0], .root ⟨3, none⟩],
      by simp, by simp [Line.codes], rfl, rfl⟩
  have hlines : bytes.splitOn 10 = [
      [99, 32, 104, 105], [32, 99, 32, 114, 111, 111, 116, 32, 50, 32, 97, 32, 32, 98],
      [112, 32, 99, 110, 102, 32, 51, 32, 50, 13], [49, 9, 45, 50], [99],
      [48, 32, 51, 32, 48], [99, 32, 114, 111, 111, 116, 32, 51]] := rfl
  have htwo : digits 2 = [50] := Decimal.digits_of_lt (by decide)
  have hthree : digits 3 = [51] := Decimal.digits_of_lt (by decide)
  have hall {p : UInt8 → Bool} {l : List UInt8} : l.all p = true → ∀ b ∈ l, p b = true :=
    List.all_eq_true.mp
  have hwrites : layout.Writes bytes := by
    rw [Layout.Writes, hlines]
    refine .cons (@Line.Written.comment _ [] _ (hall rfl) (hall rfl) (by decide)) <|
      .cons (@Line.Written.root _ _ [32] _ [[97], [98]] (hall rfl) (hall rfl)
        (by rw [htwo]; rfl) rfl) <|
      .cons (@Line.Written.header _ [] _ (hall rfl) ?_) <|
      .cons (.numbers ?_) <|
      .cons (@Line.Written.comment _ [] _ (hall rfl) (hall rfl) (by decide)) <|
      .cons (.numbers ?_) <|
      .cons (@Line.Written.root _ _ [] _ [] (hall rfl) (hall rfl) (by rw [hthree]; rfl) rfl) .nil
    · change _ = [digits 3, digits 2]
      rw [hthree, htwo]
      rfl
    · simp [signedDigits, Decimal.digits_of_lt]
      rfl
    · simp [Decimal.signedDigits_of_nonneg, Decimal.digits_of_lt]
      rfl
  exact ⟨hwritable, ⟨layout, hwrites⟩, read_of_layout hwritable layout hwrites⟩

end ModelFinder.Dimacs
