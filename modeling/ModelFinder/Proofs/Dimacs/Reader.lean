import ModelFinder.Dimacs.Reader
import ModelFinder.Proofs.Attempts

/-!
# What a read file contains

Whatever byte the reader takes, what it has read grows in one of five ways (`State.Advances`): not
at all, by the header, by a root, by the code of a literal or by the end of a clause.  Codes are
compared with the header when they are taken, and there is only one header, so all of them stay
within its range.

* `advances_feed`, `advances_endLine`: how what has been read grows.
* `InRange.advances`: codes stay within the range of the header.
* `readPieces_eq_read`: how a file is cut into pieces makes no difference.
* `natAbs_le_of_read`: no variable of a file that is read exceeds the number it declares.
-/

namespace ModelFinder.Dimacs

namespace State

variable {s t : State}

/-! ### Some bytes in turn -/

section feedAll

variable {u : State} {b : UInt8} {l r : List UInt8}

theorem feedAll_append_eq_ok_iff :
    s.feedAll (l ++ r) = .ok u ↔ ∃ t, s.feedAll l = .ok t ∧ t.feedAll r = .ok u := by
  rw [feedAll, List.foldlM_append]
  exact bind_eq_ok

theorem feedAll_cons_eq_ok_iff :
    s.feedAll (b :: r) = .ok u ↔ ∃ t, s.feed b = .ok t ∧ t.feedAll r = .ok u := by
  rw [feedAll, List.foldlM_cons]
  exact bind_eq_ok

theorem feedAll_append (h : s.feedAll l = .ok t) : s.feedAll (l ++ r) = t.feedAll r := by
  rw [feedAll, List.foldlM_append]
  exact congrArg (· >>= fun t => t.feedAll r) h

theorem feedAll_cons (h : s.feed b = .ok t) : s.feedAll (b :: r) = t.feedAll r := by
  rw [feedAll, List.foldlM_cons, h]
  rfl

end feedAll

/-! ### How what has been read grows -/

/-- `t` is what has been read after `s`, in any mode. -/
inductive Advances (s : State) : State → Prop
  | skip (m : Mode) : Advances s { s with mode := m }
  | header (m : Mode) {h : Header} (first : s.header = none) :
      Advances s { s with mode := m, header := some h }
  | root (m : Mode) {r : RootAnnotation} (var_ne_zero : r.var ≠ 0) :
      Advances s { s with mode := m, roots := s.roots.push r }
  | code (m : Mode) {h : Header} {code : Int} (header_eq : s.header = some h)
      (le : code.natAbs ≤ h.numVariables) :
      Advances s { s with mode := m, clause := s.clause.push code }
  | clause (m : Mode) {h : Header} (header_eq : s.header = some h) :
      Advances s { s with mode := m, clause := #[], clauses := s.clauses.push s.clause.toList }

/-- The mode does not matter. -/
theorem Advances.in_mode (h : Advances s t) (m : Mode) : Advances s { t with mode := m } := by
  cases h with
  | skip => exact .skip m
  | header _ first => exact .header m first
  | root _ var_ne_zero => exact .root m var_ne_zero
  | code _ header_eq le => exact .code m header_eq le
  | clause _ header_eq => exact .clause m header_eq

theorem advances_endHeader {taken : List UInt8} (h : s.endHeader taken = .ok t) :
    Advances s t := by
  unfold endHeader at h
  cases hs : s.header with
  | some _ => rw [hs] at h; cases h
  | none =>
      rw [hs] at h
      obtain ⟨_, -, h⟩ := bind_eq_ok.mp h
      cases h
      exact .header _ hs

/-- A root is never the variable 0. -/
theorem var_ne_zero_of_ofComment {comment : List UInt8} {r : RootAnnotation}
    (h : RootAnnotation.ofComment comment = .ok (some r)) : r.var ≠ 0 := by
  unfold RootAnnotation.ofComment at h
  split at h
  · cases h
  · split at h
    · cases h
    · split at h
      · cases h
      · split at h
        · cases h
          exact Nat.succ_ne_zero _
        · cases h

theorem advances_endComment {taken : List UInt8} (h : s.endComment taken = .ok t) :
    Advances s t := by
  obtain ⟨root, hr, h⟩ := bind_eq_ok.mp h
  cases root with
  | none => cases h; exact .skip _
  | some r => cases h; exact .root _ (var_ne_zero_of_ofComment hr)

theorem advances_endNumber {taken : List UInt8} (h : s.endNumber taken = .ok t) :
    Advances s t := by
  unfold endNumber at h
  split at h
  · cases h
  · cases h
  next code header hcode hheader =>
      split at h
      · cases h
      next hle =>
          cases h
          exact .code _ hheader (Nat.le_of_not_lt hle)

theorem advances_endClause (h : s.endClause = .ok t) : Advances s t := by
  unfold endClause at h
  split at h
  next => cases h
  next hs =>
      cases h
      cases hheader : s.header with
      | none => rw [hheader] at hs; exact absurd rfl hs
      | some header => rw [← hheader]; exact .clause _ hheader

theorem advances_startNumber {b : UInt8} (h : s.startNumber b = .ok t) : Advances s t := by
  unfold startNumber at h
  split at h
  · exact advances_endClause h
  · split at h
    · cases h; exact .skip _
    · split at h
      · cases h; exact .skip _
      · cases h

/-- **Each byte makes what has been read grow in one of the five ways.** -/
theorem advances_feed {b : UInt8} (h : s.feed b = .ok t) : Advances s t := by
  unfold feed at h
  split at h
  case h_1 =>
      split at h
      · cases h; exact .skip _
      · split at h
        · cases h; exact .skip _
        · split at h
          · cases h; exact .skip _
          · exact advances_startNumber h
  case h_2 =>
      split at h
      · exact advances_endHeader h
      · cases h; exact .skip _
  case h_3 =>
      split at h
      · exact advances_endComment h
      · cases h; exact .skip _
  case h_4 =>
      split at h
      · cases h; exact .skip _
      · cases h
  case h_5 taken _ =>
      split at h
      · obtain ⟨u, hu, h⟩ := bind_eq_ok.mp h
        cases h
        split
        · exact (advances_endNumber hu).in_mode _
        · exact advances_endNumber hu
      · split at h
        · cases h; exact .skip _
        · cases h
  case h_6 =>
      split at h
      · cases h; exact .skip _
      · split at h
        · cases h; exact .skip s.mode
        · exact advances_startNumber h

theorem advances_endLine (h : s.endLine = .ok t) : Advances s t := by
  unfold endLine at h
  split at h
  · exact advances_endHeader h
  · exact advances_endComment h
  · exact advances_endNumber h
  · cases h; exact .skip s.mode

/-! ### The range of the header -/

/-- The header has been read, and the code is within its range. -/
def Admits (s : State) (code : Int) : Prop :=
  ∃ h, s.header = some h ∧ code.natAbs ≤ h.numVariables

/-- All codes read so far are within the range of the header. -/
structure InRange (s : State) : Prop where
  clause : ∀ code ∈ s.clause, s.Admits code
  clauses : ∀ codes ∈ s.clauses, ∀ code ∈ codes, s.Admits code

theorem inRange_start : InRange start :=
  ⟨fun _ h => absurd h (Array.not_mem_empty _), fun _ h => absurd h (Array.not_mem_empty _)⟩

theorem InRange.advances (hs : InRange s) (h : Advances s t) : InRange t := by
  cases h with
  | skip => exact ⟨hs.clause, hs.clauses⟩
  | header _ first =>
      -- Nothing can have been read before the header.
      have hnone : ∀ code, ¬ s.Admits code := by
        rintro code ⟨h, hh, -⟩
        rw [first] at hh
        cases hh
      exact ⟨fun code hc => absurd (hs.clause code hc) (hnone code),
        fun codes hcs code hc => absurd (hs.clauses codes hcs code hc) (hnone code)⟩
  | root => exact ⟨hs.clause, hs.clauses⟩
  | code _ header_eq le =>
      refine ⟨fun code hc => ?_, hs.clauses⟩
      rcases Array.mem_push.mp hc with hc | rfl
      · exact hs.clause code hc
      · exact ⟨_, header_eq, le⟩
  | clause =>
      refine ⟨fun code hc => absurd hc (Array.not_mem_empty _), fun codes hcs code hc => ?_⟩
      rcases Array.mem_push.mp hcs with hcs | rfl
      · exact hs.clauses codes hcs code hc
      · exact hs.clause code (Array.mem_toList_iff.mp hc)

theorem InRange.feedAll {bytes : List UInt8} (hs : InRange s) (h : s.feedAll bytes = .ok t) :
    InRange t := by
  induction bytes generalizing s with
  | nil => cases h; exact hs
  | cons b bytes ih =>
      obtain ⟨u, hu, h⟩ := feedAll_cons_eq_ok_iff.mp h
      exact ih (hs.advances (advances_feed hu)) h

end State

/-! ### Files -/

/-- What is left of the state when a file ends. -/
structure State.Contains (s : State) (content : AnnotatedCnf) : Prop where
  header_eq : s.header = some ⟨content.numVariables, content.clauses.length⟩
  clause_eq : s.clause = #[]
  clauses_eq : s.clauses.toList = content.clauses
  roots_eq : s.roots.toList = content.roots
  roots_le : ∀ r ∈ content.roots, r.var ≤ content.numVariables

/-- A file ends with its last line. -/
theorem State.contains_of_finish {s : State} {content : AnnotatedCnf}
    (h : s.finish = .ok content) : ∃ t, s.endLine = .ok t ∧ t.Contains content := by
  obtain ⟨t, ht, h⟩ := bind_eq_ok.mp h
  refine ⟨t, ht, ?_⟩
  cases hheader : t.header with
  | none => rw [hheader] at h; cases h
  | some header =>
      rw [hheader] at h
      dsimp only at h
      split at h
      case isFalse => cases h
      case isTrue hclause =>
      split at h
      case isFalse => cases h
      case isTrue hcount =>
      split at h
      case h_1 => cases h
      case h_2 hroots =>
      cases h
      refine ⟨?_, Array.isEmpty_iff.mp hclause, rfl, rfl, fun r hr => ?_⟩
      · rw [hheader, Array.length_toList, ← hcount]
      · have hle := Array.find?_eq_none.mp hroots r (Array.mem_toList_iff.mp hr)
        simpa using hle

theorem State.foldlM_feedAll (s : State) (pieces : List (List UInt8)) :
    pieces.foldlM State.feedAll s = s.feedAll pieces.flatten := by
  induction pieces generalizing s with
  | nil => rfl
  | cons piece pieces ih =>
      rw [List.foldlM_cons, List.flatten_cons, State.feedAll, State.feedAll, List.foldlM_append]
      exact congrArg _ (funext ih)

theorem readPieces_eq (pieces : List (List UInt8)) :
    readPieces pieces = State.start.feedAll pieces.flatten >>= State.finish := by
  rw [readPieces, State.foldlM_feedAll]

/-- How a file is cut into pieces makes no difference. -/
theorem readPieces_eq_read (pieces : List (List UInt8)) :
    readPieces pieces = read pieces.flatten := by
  rw [read, readPieces_eq, readPieces_eq, List.flatten_singleton]

theorem read_eq_ok_iff {bytes : List UInt8} {content : AnnotatedCnf} :
    read bytes = .ok content ↔
      ∃ s, State.start.feedAll bytes = .ok s ∧ s.finish = .ok content := by
  rw [read, readPieces_eq, List.flatten_singleton, bind_eq_ok]

theorem exists_of_read {bytes : List UInt8} {content : AnnotatedCnf}
    (h : read bytes = .ok content) :
    ∃ s t, State.start.feedAll bytes = .ok s ∧ s.endLine = .ok t ∧ t.Contains content := by
  obtain ⟨s, hfeed, h⟩ := read_eq_ok_iff.mp h
  obtain ⟨t, ht, hcontains⟩ := State.contains_of_finish h
  exact ⟨s, t, hfeed, ht, hcontains⟩

/-- **The variables of a file are those that it declares.** -/
theorem natAbs_le_of_read {bytes : List UInt8} {content : AnnotatedCnf}
    (h : read bytes = .ok content) :
    ∀ codes ∈ content.clauses, ∀ code ∈ codes, code.natAbs ≤ content.numVariables := by
  obtain ⟨s, t, hfeed, ht, hcontains⟩ := exists_of_read h
  have hrange := (State.inRange_start.feedAll hfeed).advances (State.advances_endLine ht)
  intro codes hcodes code hcode
  rw [← hcontains.clauses_eq, Array.mem_toList_iff] at hcodes
  obtain ⟨header, hheader, hle⟩ := hrange.clauses codes hcodes code hcode
  obtain rfl := Option.some.inj (hheader.symm.trans hcontains.header_eq)
  exact hle

end ModelFinder.Dimacs
