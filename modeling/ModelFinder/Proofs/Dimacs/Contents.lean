import ModelFinder.Proofs.Dimacs.Lines

/-!
# What a file that is read looks like

A file that is read has one header line, its roots are the annotations of its comments, and its
clauses are what the other lines say.

What they say is almost what their words say.  There are two exceptions, and `clauses_of_read` tells
when there are none: a word that starts with a zero is cut after the zero, so that `02` is read as
the end of a clause and the number 2, and a minus sign at the end of the file is dropped.

* `clauses_of_read`: the clauses are what the words of the lines of numbers say.
* `readPieces_inRange`: pieces make no difference, and what is read stays within its range.
-/

namespace ModelFinder.Dimacs

open Decimal (isDigit natural? signedDigits integer?)

variable {bytes w : List UInt8} {content : AnnotatedCnf} {words rest : List (List UInt8)}
  {codes : List Int}

/-! ### Words and their pieces -/

/-- The words of the lines of numbers. -/
def numberWords (bytes : List UInt8) : List (List UInt8) :=
  wordsBy State.isSpace ([10].intercalate ((bytes.splitOn 10).filter isNumberLine))

/-- A word is a number of its own: an optional minus sign and digits, with no 0 in front of
others. -/
structure IsNumber (word : List UInt8) : Prop where
  integer : (integer? word).isSome
  zero : word.head? = some 48 → word = [48]

instance : Decidable (IsNumber w) :=
  decidable_of_iff ((integer? w).isSome ∧ (w.head? = some 48 → w = [48]))
    ⟨fun h => ⟨h.1, h.2⟩, fun h => ⟨h.1, h.2⟩⟩

theorem flatten_pieces : (pieces w).flatten = w := by
  induction w with
  | nil => rfl
  | cons b w ih =>
      by_cases hb : b = 48
      · rw [hb, pieces_zero_cons, List.flatten_cons, ih, List.singleton_append]
      · rw [pieces_of_head?_ne (List.cons_ne_nil b w) (by simpa using hb), List.flatten_singleton]

/-- A number of its own is not cut. -/
theorem IsNumber.pieces_eq (hw : IsNumber w) : pieces w = [w] := by
  by_cases hzero : w.head? = some 48
  · rw [hw.zero hzero]
    rfl
  · refine pieces_of_head?_ne ?_ hzero
    rintro rfl
    exact absurd hw.integer (by decide)

/-- Numbers of their own are not cut. -/
theorem flatMap_pieces_eq (hwords : ∀ w ∈ words, IsNumber w) : words.flatMap pieces = words := by
  induction words with
  | nil => rfl
  | cons w words ih =>
      obtain ⟨hw, hwords⟩ := List.forall_mem_cons.mp hwords
      rw [List.flatMap_cons, hw.pieces_eq, ih hwords, List.singleton_append]

/-- A word with a minus sign as a piece of its own is not a number. -/
theorem integer?_eq_none_of_mem_pieces (hw : [45] ∈ pieces w) : integer? w = none := by
  have hmem : 45 ∈ w := flatten_pieces (w := w) ▸ List.mem_flatten_of_mem hw (by simp)
  have hnatural : natural? w = none := by
    rw [Option.eq_none_iff_forall_ne_some]
    intro n hn
    have hdigit := (Decimal.natural?_eq_some_iff.mp hn).1.2 45 hmem
    exact absurd hdigit (by decide)
  by_cases hminus : w.head? = some 45
  · have hne : w ≠ [] := by
      rintro rfl
      cases hminus
    rw [pieces_of_head?_ne hne (by simp [hminus]), List.mem_singleton] at hw
    rw [← hw]
    rfl
  · rw [integer?, if_neg hminus, hnatural, Option.map_none]

/-- Words are not cut if they have as many pieces as there are words. -/
theorem pieces_eq_of_length_le (hwords : ∀ w ∈ words, w ≠ []) :
    words.length ≤ (words.flatMap pieces).length ∧
      ((words.flatMap pieces).length ≤ words.length → ∀ w ∈ words, pieces w = [w]) := by
  induction words with
  | nil => simp
  | cons w words ih =>
      obtain ⟨hw, hwords⟩ := List.forall_mem_cons.mp hwords
      obtain ⟨hle, hpieces⟩ := ih hwords
      have hpos : 0 < (pieces w).length := by
        rw [List.length_pos_iff]
        intro hnil
        exact hw (by rw [← flatten_pieces (w := w), hnil, List.flatten_nil])
      rw [List.flatMap_cons, List.length_append, List.length_cons]
      refine ⟨by omega, fun hlength => List.forall_mem_cons.mpr ⟨?_, hpieces (by omega)⟩⟩
      obtain ⟨v, hv⟩ := List.length_eq_one_iff.mp (show (pieces w).length = 1 by omega)
      rw [hv, ← flatten_pieces (w := w), hv, List.flatten_singleton]

/-- **When words say what their pieces say.** -/
theorem map_integer?_eq_iff (hwords : ∀ w ∈ words, w ≠ [])
    (hpieces : words.flatMap pieces = codes.map signedDigits ++ rest)
    (hrest : rest = [] ∨ rest = [[45]]) :
    words.map integer? = codes.map some ↔ ∀ w ∈ words, IsNumber w := by
  constructor
  · intro h
    have hinteger : ∀ w ∈ words, (integer? w).isSome := by
      intro w hw
      have hmem : integer? w ∈ codes.map some := h ▸ List.mem_map_of_mem hw
      obtain ⟨c, -, hc⟩ := List.mem_map.mp hmem
      rw [← hc, Option.isSome_some]
    have hnil : rest = [] := by
      refine hrest.resolve_right fun hminus => ?_
      have hmem : [45] ∈ words.flatMap pieces := by simp [hpieces, hminus]
      obtain ⟨w, hw, hpiece⟩ := List.mem_flatMap.mp hmem
      have hsome := hinteger w hw
      rw [integer?_eq_none_of_mem_pieces hpiece] at hsome
      cases hsome
    -- There are as many pieces as codes, and as many words.
    have hlength : (words.flatMap pieces).length ≤ words.length := by
      have hcount := congrArg List.length h
      rw [List.length_map, List.length_map] at hcount
      rw [hpieces, hnil, List.append_nil, List.length_map]
      exact Nat.le_of_eq hcount.symm
    intro w hw
    refine ⟨hinteger w hw, fun hzero => ?_⟩
    have hpiece := (pieces_eq_of_length_le hwords).2 hlength w hw
    obtain ⟨v, rfl⟩ := List.head?_eq_some_iff.mp hzero
    rw [pieces_zero_cons] at hpiece
    rw [(List.cons.inj hpiece).1]
  · intro h
    rw [flatMap_pieces_eq h] at hpieces
    have hnil : rest = [] := by
      refine hrest.resolve_right fun hminus => ?_
      have hmem : [45] ∈ words := by simp [hpieces, hminus]
      exact absurd (h [45] hmem).integer (by decide)
    simp [hpieces, hnil]

/-- **The clauses of a file that is read.**  The pieces of its words are written for the codes of the
clauses, each of which ends with a zero of its own; only a minus sign may be left over.  The words
themselves stand for the codes exactly if all of them are numbers of their own. -/
theorem clauses_of_read (h : read bytes = .ok content) :
    (∃ rest, (rest = [] ∨ rest = [[45]]) ∧
      (numberWords bytes).flatMap pieces =
        (codesOf content.clauses).map signedDigits ++ rest) ∧
    (∀ clause ∈ content.clauses, 0 ∉ clause) ∧
    ((numberWords bytes).map integer? = (codesOf content.clauses).map some ↔
      ∀ w ∈ numberWords bytes, IsNumber w) := by
  obtain ⟨rest, hholds, hrest, hclean⟩ := holds_of_read h
  have hpieces : (numberWords bytes).flatMap pieces =
      (codesOf content.clauses).map signedDigits ++ rest := by
    rw [numberWords, wordsBy_intercalate (by decide), List.flatMap_assoc]
    exact hholds.codes
  exact ⟨⟨rest, hrest, hpieces⟩, hclean,
    map_integer?_eq_iff (fun w hw => (isWord_of_mem_wordsBy hw).ne_nil) hpieces hrest⟩

/-- A clause that a comment interrupts. -/
theorem clauses_of_read_interrupted :
    let bytes := "p cnf 2 2\n1 -2 0 2\nc 1 0\n  0".toList.map (·.toNat.toUInt8)
    read bytes = .ok ⟨2, [[1, -2], [2]], []⟩ ∧
      (numberWords bytes).map integer? = [some 1, some (-2), some 0, some 2, some 0] := by
  intro bytes
  have hread : read bytes = .ok ⟨2, [[1, -2], [2]], []⟩ := rfl
  have hwords : numberWords bytes = [[49], [45, 50], [48], [50], [48]] := rfl
  obtain ⟨-, -, hiff⟩ := clauses_of_read hread
  refine ⟨hread, hiff.mpr ?_⟩
  rw [hwords]
  decide

/-- Two files that are read although their words say something else.  The word `02` is taken for a
zero, which ends a clause, and a two; and the minus sign in the other file is not a number. -/
theorem exists_read_malformed :
    (let bytes := "p cnf 2 2\n1 02 0\n".toList.map (·.toNat.toUInt8)
     read bytes = .ok ⟨2, [[1], [2]], []⟩ ∧
      (numberWords bytes).map integer? = [some 1, some 2, some 0]) ∧
    (let bytes := "p cnf 1 1\n1 0 -".toList.map (·.toNat.toUInt8)
     read bytes = .ok ⟨1, [[1]], []⟩ ∧
      (numberWords bytes).map integer? = [some 1, some 0, none]) :=
  ⟨⟨rfl, rfl⟩, rfl, rfl⟩

/-! ### The header and the roots -/

/-- A file that is read has one header line, which holds its numbers. -/
theorem exists_headerLine_of_read (h : read bytes = .ok content) :
    ∃ line, (bytes.splitOn 10).filter isHeaderLine = [line] ∧
      Header.ofLine (Latin1.trim line) = .ok ⟨content.numVariables, content.clauses.length⟩ := by
  obtain ⟨rest, hholds, -, -⟩ := holds_of_read h
  obtain ⟨line, hline, hheader⟩ := List.map_eq_singleton_iff.mp hholds.headers
  exact ⟨line, hline, hheader⟩

/-- The roots of a file are the annotations of its comments, and they stay within its range. -/
theorem roots_of_read (h : read bytes = .ok content) :
    (∃ found : List (Option RootAnnotation), content.roots = found.filterMap id ∧
      ((bytes.splitOn 10).filter isCommentLine).map
        (fun line => RootAnnotation.ofComment (commentOf line)) = found.map .ok) ∧
      ∀ root ∈ content.roots, 1 ≤ root.var ∧ root.var ≤ content.numVariables := by
  obtain ⟨rest, hholds, -, -⟩ := holds_of_read h
  obtain ⟨found, hroots, hfound⟩ := hholds.roots
  refine ⟨⟨found, hroots, hfound⟩, fun root hroot => ?_⟩
  obtain ⟨_, _, -, -, hcontains⟩ := exists_of_read h
  refine ⟨?_, hcontains.roots_le root hroot⟩
  have hmem : Except.ok (some root) ∈ found.map (Except.ok (ε := ReadError)) := by
    rw [show content.roots = found.filterMap id from hroots] at hroot
    obtain ⟨root?, hmem, rfl⟩ := List.mem_filterMap.mp hroot
    exact List.mem_map_of_mem hmem
  rw [← hfound] at hmem
  obtain ⟨line, -, hline⟩ := List.mem_map.mp hmem
  exact Nat.one_le_iff_ne_zero.mpr (State.var_ne_zero_of_ofComment hline)

/-- **What is read stays within its range, in whatever pieces it comes.**  There is one header; the
clauses are as many as it says and have no variables beyond those it declares, and the comments do
not annotate any others either. -/
theorem readPieces_inRange (pieces : List (List UInt8)) :
    readPieces pieces = read pieces.flatten ∧
    ∀ content, readPieces pieces = .ok content →
      (∃ line, (pieces.flatten.splitOn 10).filter isHeaderLine = [line] ∧
        Header.ofLine (Latin1.trim line) =
          .ok ⟨content.numVariables, content.clauses.length⟩) ∧
      (∀ clause ∈ content.clauses, ∀ code ∈ clause,
        code ≠ 0 ∧ code.natAbs ≤ content.numVariables) ∧
      (∃ found : List (Option RootAnnotation), content.roots = found.filterMap id ∧
        ((pieces.flatten.splitOn 10).filter isCommentLine).map
          (fun line => RootAnnotation.ofComment (commentOf line)) = found.map .ok) ∧
      ∀ root ∈ content.roots, 1 ≤ root.var ∧ root.var ≤ content.numVariables := by
  refine ⟨readPieces_eq_read pieces, fun content h => ?_⟩
  rw [readPieces_eq_read] at h
  obtain ⟨-, -, -, hclean⟩ := holds_of_read h
  refine ⟨exists_headerLine_of_read h, fun clause hclause code hcode => ⟨?_, ?_⟩, roots_of_read h⟩
  · rintro rfl
    exact hclean clause hclause hcode
  · exact natAbs_le_of_read h clause hclause code hcode

/-- A root in front of the header, and pieces that end within a word, within the header and within a
number. -/
theorem readPieces_inRange_root_first :
    let pieces := ["c ro", "ot 1 a\np cnf 2", "1 1\n-2", "1 0"].map
      (·.toList.map (·.toNat.toUInt8))
    let content : AnnotatedCnf := ⟨21, [[-21]], [⟨1, "a"⟩]⟩
    readPieces pieces = .ok content ∧ readPieces [pieces.flatten] = .ok content ∧
      (∀ clause ∈ content.clauses, ∀ code ∈ clause,
        code ≠ 0 ∧ code.natAbs ≤ content.numVariables) ∧
      ∀ root ∈ content.roots, 1 ≤ root.var ∧ root.var ≤ content.numVariables := by
  intro pieces content
  obtain ⟨heq, hread⟩ := readPieces_inRange pieces
  have hcontent : readPieces pieces = .ok content := rfl
  obtain ⟨-, hclauses, -, hroots⟩ := hread content hcontent
  exact ⟨hcontent, heq ▸ hcontent, hclauses, hroots⟩

end ModelFinder.Dimacs
