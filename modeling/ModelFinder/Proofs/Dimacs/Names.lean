import Mathlib.Data.List.Forall2
import ModelFinder.Proofs.Dimacs.Contents
import ModelFinder.Proofs.Text

/-!
# Names of roots in a text

A comment line of a text annotates a root if its words say so (`Annotates`).  The reader takes every
byte of a character as a character, so what it keeps is the annotation of the line that is read in
this way.  The name of the line itself is kept only if the line is in ASCII: what is in front of a
name always is, so two lines with the same name have the same characters above that range.

* `annotates_map_charOf_iff`: the annotation that is kept for a line.
* `annotates_byteWise_iff`: which names come through.
* `roots_of_read_text`: the roots of a text that is read.
-/

namespace ModelFinder.Dimacs

variable {bytes comment numeral : List UInt8} {line : List Char} {v n bound : Nat}
  {name : Option String} {names : List (List Char)} {root : RootAnnotation}

/-! ### Annotations -/

/-- Some words, separated by single blanks; no words make up no name. -/
def nameOf (names : List (List Char)) : Option String :=
  if names.isEmpty then none else some (" ".intercalate (names.map String.ofList))

/-- Whether the character is white space in front of a comment. -/
def isGap (c : Char) : Bool := c == ' ' || c == '\t' || c == '\n' || c == '\x0c' || c == '\r'

/-- The line is a comment whose words are `root`, a variable, and those of a name. -/
def Annotates (line : List Char) (v : Nat) (names : List (List Char)) : Prop :=
  ∃ gap comment numeral, line = gap ++ 'c' :: comment ∧ (∀ c ∈ gap, isGap c = true) ∧
    textWords comment = "root".toList :: numeral :: names ∧
    Decimal.unsigned? Decimal.word32 (utf8 numeral) = some v ∧ 1 ≤ v

theorem nameOf_map_charOf (words : List (List UInt8)) :
    nameOf (words.map (·.map charOf)) = nameOfWords words := by
  rw [nameOf, nameOfWords, List.isEmpty_map, List.map_map]
  rfl

theorem high_intercalate (names : List (List Char)) :
    high (" ".intercalate (names.map String.ofList)).toList = high names.flatten := by
  rw [String.toList_intercalate, List.map_map]
  have hid : String.toList ∘ String.ofList = id := funext fun l => String.toList_ofList
  rw [hid, List.map_id]
  induction names with
  | nil => rfl
  | cons name names ih =>
      cases names with
      | nil => simp
      | cons name' names =>
          rw [List.intercalate_cons_of_ne_nil (List.cons_ne_nil _ _), List.append_assoc,
            List.flatten_cons, high_append, high_append, high_append, ih,
            high_eq_nil (by decide : IsAscii " ".toList), List.nil_append]

/-- A name tells its characters above the ASCII range. -/
theorem high_flatten_eq_of_nameOf_eq {names' : List (List Char)}
    (h : nameOf names = nameOf names') : high names.flatten = high names'.flatten := by
  unfold nameOf at h
  cases names with
  | nil => cases names' with
    | nil => rfl
    | cons name' names' => cases h
  | cons name names => cases names' with
    | nil => cases h
    | cons name' names' =>
        rw [← high_intercalate, ← high_intercalate]
        exact congrArg (fun s => high s.toList) (Option.some.inj h)

/-! ### Numerals and gaps -/

/-- A numeral is in ASCII. -/
theorem lt_of_unsigned?_eq_some (h : Decimal.unsigned? bound numeral = some n) :
    ∀ b ∈ numeral, b.toNat < 128 := by
  have hdigits {ds : List UInt8} {m : Nat} (hds : Decimal.natural? ds = some m) :
      ∀ b ∈ ds, b.toNat < 128 := by
    intro b hb
    have hdigit := (Decimal.natural?_eq_some_iff.mp hds).1.2 b hb
    simp only [Decimal.isDigit, Bool.and_eq_true, decide_eq_true_eq, UInt8.le_iff_toNat_le,
      UInt8.reduceToNat] at hdigit
    omega
  obtain ⟨m, hm, -⟩ := Option.bind_eq_some_iff.mp h
  by_cases hplus : numeral.head? = some 43
  · obtain ⟨ds, rfl⟩ := List.head?_eq_some_iff.mp hplus
    exact List.forall_mem_cons.mpr ⟨by decide, hdigits hm⟩
  · rw [if_neg hplus] at hm
    exact hdigits hm

theorem unsigned?_utf8_map_charOf :
    Decimal.unsigned? bound (utf8 (numeral.map charOf)) = some n ↔
      Decimal.unsigned? bound numeral = some n := by
  constructor
  · intro h
    have hascii := isAscii_of_utf8 (lt_of_unsigned?_eq_some h)
    rw [utf8_map_charOf fun b hb => toNat_charOf b ▸ hascii _ (List.mem_map_of_mem hb)] at h
    exact h
  · intro h
    rw [utf8_map_charOf (lt_of_unsigned?_eq_some h)]
    exact h

theorem isGap_charOf (b : UInt8) : isGap (charOf b) = State.isSpace b := by
  have hcode (c : Char) : charOf b = c ↔ b.toNat = c.toNat := by
    rw [← Char.toNat_inj, toNat_charOf]
  rw [Bool.eq_iff_iff]
  simp [isGap, State.isSpace, hcode, ← UInt8.toNat_inj]

/-- What stands in front of the names is in ASCII. -/
theorem Annotates.high_eq (h : Annotates line v names) : high line = high names.flatten := by
  obtain ⟨gap, comment, numeral, rfl, hgap, hwords, hnumeral, -⟩ := h
  have hgapAscii : IsAscii gap := by
    intro c hc
    have := hgap c hc
    simp only [isGap, Bool.or_eq_true, beq_iff_eq] at this
    rcases this with (((rfl | rfl) | rfl) | rfl) | rfl <;> decide
  rw [high_append, high_eq_nil hgapAscii, List.nil_append, high_cons_of_neg (by decide),
    ← high_flatten_textWords, hwords, List.flatten_cons, List.flatten_cons, high_append,
    high_append, high_eq_nil (by decide : IsAscii "root".toList),
    high_eq_nil (isAscii_of_utf8 (lt_of_unsigned?_eq_some hnumeral)), List.nil_append,
    List.nil_append]

/-! ### Lines -/

theorem ofComment_eq_some_iff : RootAnnotation.ofComment comment = .ok (some ⟨v, name⟩) ↔
    ∃ numeral words, Latin1.words comment = rootWord :: numeral :: words ∧
      Decimal.unsigned? Decimal.word32 numeral = some v ∧ 1 ≤ v ∧ name = nameOfWords words := by
  unfold RootAnnotation.ofComment
  constructor
  · intro h
    split at h
    next => cases h
    next first words hwords =>
      split at h
      next => cases h
      next hfirst =>
        rw [not_ne_iff.mp hfirst] at hwords
        split at h
        next => cases h
        next numeral rest =>
          split at h
          next n hn =>
            cases h
            exact ⟨numeral, rest, hwords, hn, Nat.succ_pos n, rfl⟩
          next => cases h
  · rintro ⟨numeral, words, hwords, hnumeral, hpos, rfl⟩
    obtain ⟨n, rfl⟩ := Nat.exists_eq_add_of_le' hpos
    rw [hwords]
    dsimp only
    rw [if_neg (not_not.mpr rfl), hnumeral]

theorem State.firstByte_append {gap : List UInt8} {b : UInt8}
    (hgap : ∀ c ∈ gap, State.isSpace c = true) (hb : State.isSpace b = false) :
    firstByte (gap ++ b :: bytes) = some b :=
  List.find?_eq_some_iff_append.mpr ⟨by simp [hb], gap, bytes, rfl, fun c hc => by simp [hgap c hc]⟩

/-- What a line is kept as. -/
def annotationOf (line : List UInt8) : Option RootAnnotation :=
  if isCommentLine line then
    match RootAnnotation.ofComment (commentOf line) with
    | .ok root? => root?
    | .error _ => none
  else none

theorem annotationOf_eq_some_iff : annotationOf bytes = some root ↔
    isCommentLine bytes = true ∧ RootAnnotation.ofComment (commentOf bytes) = .ok (some root) := by
  unfold annotationOf
  cases isCommentLine bytes <;> cases RootAnnotation.ofComment (commentOf bytes) <;> simp

/-- The annotation that is kept is that of the line whose characters are the bytes. -/
theorem annotates_map_charOf_iff :
    (∃ names, Annotates (bytes.map charOf) v names ∧ name = nameOf names) ↔
      isCommentLine bytes = true ∧
        RootAnnotation.ofComment (commentOf bytes) = .ok (some ⟨v, name⟩) := by
  rw [ofComment_eq_some_iff]
  constructor
  · rintro ⟨names, ⟨gap, comment, numeral, hline, hgap, hwords, hnumeral, hpos⟩, rfl⟩
    obtain ⟨gap, rest, rfl, rfl, hrest⟩ := List.map_eq_append_iff.mp hline
    obtain ⟨b, comment, rfl, hb, rfl⟩ := List.map_eq_cons_iff.mp hrest
    obtain rfl : b = 99 := charOf_inj hb
    have hspaces : ∀ b ∈ gap, State.isSpace b = true := fun b hb =>
      isGap_charOf b ▸ hgap _ (List.mem_map_of_mem hb)
    rw [textWords_map_charOf] at hwords
    obtain ⟨first, words, hfirst, hroot, hwords⟩ := List.map_eq_cons_iff.mp hwords
    obtain ⟨numeral, words, rfl, rfl, rfl⟩ := List.map_eq_cons_iff.mp hwords
    obtain rfl : first = rootWord :=
      (List.map_inj_right fun _ _ => charOf_inj).mp (hroot.trans rfl)
    refine ⟨?_, numeral, words, ?_, unsigned?_utf8_map_charOf.mp hnumeral, hpos,
      nameOf_map_charOf words⟩
    · exact beq_iff_eq.mpr (State.firstByte_append hspaces (by decide))
    · rw [State.commentOf_append hspaces (by decide)]
      exact hfirst
  · rintro ⟨hline, numeral, words, hwords, hnumeral, hpos, rfl⟩
    obtain ⟨gap, comment, rfl, hgap, hspace⟩ := State.exists_of_firstByte_eq (beq_iff_eq.mp hline)
    rw [State.commentOf_append hgap hspace] at hwords
    refine ⟨words.map (·.map charOf), ⟨gap.map charOf, comment.map charOf, numeral.map charOf,
      ?_, ?_, ?_, unsigned?_utf8_map_charOf.mpr hnumeral, hpos⟩, (nameOf_map_charOf words).symm⟩
    · rw [List.map_append]
      rfl
    · intro c hc
      obtain ⟨b, hb, rfl⟩ := List.mem_map.mp hc
      rw [isGap_charOf, hgap b hb]
    · rw [textWords_map_charOf, hwords]
      rfl

/-- **Which names come through.** -/
theorem annotates_byteWise_iff (h : Annotates line v names) :
    (∃ names', Annotates (byteWise line) v names' ∧ nameOf names = nameOf names') ↔
      IsAscii line := by
  constructor
  · rintro ⟨names', h', hname⟩
    apply isAscii_of_high_byteWise_eq
    rw [h'.high_eq, h.high_eq, high_flatten_eq_of_nameOf_eq hname]
  · intro hascii
    exact ⟨names, (byteWise_eq_self hascii).symm ▸ h, rfl⟩

/-! ### Files -/

theorem roots_eq_filterMap_annotationOf {content : AnnotatedCnf} (h : read bytes = .ok content) :
    content.roots = (bytes.splitOn 10).filterMap annotationOf := by
  obtain ⟨⟨found, hroots, hfound⟩, -⟩ := roots_of_read h
  rw [hroots]
  clear hroots
  generalize bytes.splitOn 10 = lines at hfound ⊢
  induction lines generalizing found with
  | nil => cases found <;> simp_all
  | cons line lines ih =>
      cases hline : isCommentLine line with
      | false =>
          have hnone : annotationOf line = none := by simp [annotationOf, hline]
          rw [List.filter_cons_of_neg (by simp [hline])] at hfound
          rw [List.filterMap_cons_none hnone, ih found hfound]
      | true =>
          rw [List.filter_cons_of_pos hline, List.map_cons] at hfound
          obtain ⟨root?, found, rfl, hroot, hrest⟩ := List.map_eq_cons_iff.mp hfound.symm
          have hsome : annotationOf line = root? := by
            rw [annotationOf, if_pos hline, ← hroot]
          rw [List.filterMap_cons, List.filterMap_cons, hsome, ih found hrest.symm]
          rfl

/-- **The names of the roots of a text.**  The annotation that is kept for a line is the one of the
line in which each byte is taken as a character.  If the line annotates a root, then this root is
kept with its name, to the character, exactly if the line is in ASCII.  Pieces make no difference,
not even if one ends within a character. -/
theorem roots_of_read_text {text : String} {pieces : List (List UInt8)} {content : AnnotatedCnf}
    (hpieces : pieces.flatten = text.toUTF8.data.toList) (h : readPieces pieces = .ok content) :
    ∃ found : List (Option RootAnnotation), content.roots = found.filterMap id ∧
      List.Forall₂ (fun line root? =>
          (∀ v name, root? = some ⟨v, name⟩ ↔
            ∃ names, Annotates (byteWise line) v names ∧ name = nameOf names) ∧
          ∀ v names, Annotates line v names →
            (root? = some ⟨v, nameOf names⟩ ↔ IsAscii line))
        (text.toList.splitOn '\n') found := by
  rw [readPieces_eq_read, hpieces, toList_toUTF8] at h
  refine ⟨(text.toList.splitOn '\n').map fun line => annotationOf (utf8 line), ?_, ?_⟩
  · rw [roots_eq_filterMap_annotationOf h, splitOn_utf8, List.filterMap_map, List.filterMap_map]
    rfl
  · rw [List.forall₂_map_right_iff, List.forall₂_same]
    intro line _
    have hkept (v : Nat) (name : Option String) : annotationOf (utf8 line) = some ⟨v, name⟩ ↔
        ∃ names, Annotates (byteWise line) v names ∧ name = nameOf names :=
      annotationOf_eq_some_iff.trans annotates_map_charOf_iff.symm
    exact ⟨hkept, fun v names h => (hkept v _).trans (annotates_byteWise_iff h)⟩

/-- A name in ASCII and one that is not, in pieces one of which ends within a character. -/
theorem roots_of_read_text_two_names :
    let text := "c root 2 größe\np cnf 2 1\n\tc root 1  big \tone \n1 2 0"
    let pieces := [text.toUTF8.data.toList.take 12, text.toUTF8.data.toList.drop 12]
    let content : AnnotatedCnf := ⟨2, [[1, 2]], [⟨2, "grÃ¶Ã\x9fe"⟩, ⟨1, "big one"⟩]⟩
    pieces.flatten = text.toUTF8.data.toList ∧ readPieces pieces = .ok content ∧
      ∃ found : List (Option RootAnnotation), content.roots = found.filterMap id ∧
        found[0]? ≠ some (some ⟨2, "größe"⟩) ∧ found[2]? = some (some ⟨1, "big one"⟩) := by
  intro text pieces content
  have hpieces : pieces.flatten = text.toUTF8.data.toList := by simp [pieces]
  have hread : readPieces pieces = .ok content := rfl
  have hsplit : text.toList.splitOn '\n' = ["c root 2 größe".toList, "p cnf 2 1".toList,
      "\tc root 1  big \tone ".toList, "1 2 0".toList] := by decide
  obtain ⟨found, hroots, hlines⟩ := roots_of_read_text hpieces hread
  rw [hsplit] at hlines
  obtain ⟨first, found, ⟨-, hfirst⟩, hrest, rfl⟩ := List.forall₂_cons_left_iff.mp hlines
  obtain ⟨second, found, -, hrest', rfl⟩ := List.forall₂_cons_left_iff.mp hrest
  obtain ⟨third, found, ⟨-, hthird⟩, -, rfl⟩ := List.forall₂_cons_left_iff.mp hrest'
  refine ⟨hpieces, hread, _, hroots, fun h => ?_, congrArg some ?_⟩
  · have hannotates : Annotates "c root 2 größe".toList 2 ["größe".toList] :=
      ⟨[], " root 2 größe".toList, ['2'], rfl, by simp, by decide, rfl, by decide⟩
    exact absurd ((hfirst 2 _ hannotates).mp (Option.some.inj h)) (by decide)
  · have hannotates :
        Annotates "\tc root 1  big \tone ".toList 1 ["big".toList, "one".toList] :=
      ⟨['\t'], " root 1  big \tone ".toList, ['1'], rfl, by simp [isGap], by decide, rfl, by decide⟩
    exact (hthird 1 _ hannotates).mpr (by decide)

/-- A text whose name is lost: each of its two bytes is kept as a character. -/
theorem exists_read_other_name :
    let text := "p cnf 1 1\nc root 1 é\n1 0\n"
    let line := "c root 1 é".toList
    line ∈ text.toList.splitOn '\n' ∧ Annotates line 1 ["é".toList] ∧
      ∃ content, readPieces [text.toUTF8.data.toList] = .ok content ∧
        content.roots = [⟨1, "Ã©"⟩] ∧ (⟨1, nameOf ["é".toList]⟩ : RootAnnotation) ∉ content.roots :=
  ⟨by decide, ⟨[], " root 1 é".toList, ['1'], rfl, by simp, by decide, rfl, by decide⟩,
    ⟨1, [[1]], [⟨1, "Ã©"⟩]⟩, rfl, rfl, by decide⟩

end ModelFinder.Dimacs
