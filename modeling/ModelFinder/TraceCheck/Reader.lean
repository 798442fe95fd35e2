import ModelFinder.TraceCheck.Step

/-!
# Reading the TraceCheck format

A source is cut into lines after every newline byte.  Lines which are blank or start with `c` hold
no step; every other line holds one step or is faulty, on its own, whatever the other lines are
(`readSteps`).  `readAll` stops at the first fault.

A line is read from left to right.  What is left of it is passed along, so that the position of a
fault is told by how many bytes were left there.
-/

namespace ModelFinder.TraceCheck

/-- What a line should have gone on with. -/
inductive Expected where
  | blank
  | digit
deriving DecidableEq

/-- What is wrong with a line. -/
inductive Reason where
  | lineEnd (expected : Expected)
  | notBlank (byte : UInt8)
  | notDigit
  | zeroId
  | overflow
  | literalRange (code : Int)
  | implicitLiterals
  | trailing
deriving DecidableEq

namespace Reason

def message : Reason → String
  | lineEnd .blank => "unexpected input: expected whitespace - got EOL"
  | lineEnd .digit => "unexpected input: expected digit - got EOL"
  | notBlank b =>
    if b < 128 then s!"expected whitespace. got '{Char.ofNat b.toNat}'" else "expected whitespace"
  | notDigit => "unexpected input: expected digit"
  | zeroId => "unexpected input: step ids must be non-zero"
  | overflow => "integer overflow"
  | literalRange code => s!"literal {code} is out of range"
  | implicitLiterals => "implicit resolvent literals ('*') are not supported"
  | trailing => "unexpected input after the terminating 0"

end Reason

/-- A fault with the number of bytes that were left where it starts, and its width. -/
structure Fault where
  reason : Reason
  left : Nat
  width : Nat
deriving DecidableEq

/-- A faulty line: its number, counted from 1, and the first and last position of the fault. -/
structure ReadError where
  lineNumber : Nat
  reason : Reason
  start : Nat
  stop : Nat
deriving DecidableEq

namespace ReadError

def message (e : ReadError) : String :=
  s!"failed to parse trace line {e.lineNumber} ({e.start}, {e.stop}): {e.reason.message}"

end ReadError

/-! ### Tokens -/

/-- Blanks separate the numbers of a line. -/
def isBlank (b : UInt8) : Bool := b == 32 || b == 9 || b == 13

/-- What is left after leading blanks. -/
def skipBlanks (s : List UInt8) : List UInt8 := s.dropWhile isBlank

/-- Passes at least one blank. -/
def separator : List UInt8 → Except Fault (List UInt8)
  | [] => .error ⟨.lineEnd .blank, 0, 1⟩
  | b :: s => if isBlank b then .ok (skipBlanks s) else .error ⟨.notBlank b, s.length + 1, 1⟩

/-- Goes on with the digits of a number below 2⁶⁴, of which `n` has been read; the number started
with `left` bytes left. -/
def moreDigits (left n : Nat) : List UInt8 → Except Fault (Nat × List UInt8)
  | [] => .ok (n, [])
  | b :: s =>
    if Decimal.isDigit b then
      let m := 10 * n + Decimal.digitValue b
      if m < Decimal.word64 then moreDigits left m s else .error ⟨.overflow, left, left - s.length⟩
    else .ok (n, b :: s)

/-- Reads a number below 2⁶⁴, which has at least one digit. -/
def unsigned : List UInt8 → Except Fault (Nat × List UInt8)
  | [] => .error ⟨.lineEnd .digit, 0, 1⟩
  | b :: s =>
    if Decimal.isDigit b then moreDigits (s.length + 1) (Decimal.digitValue b) s
    else .error ⟨.notDigit, s.length + 1, 1⟩

/-- Reads the magnitude of a signed number, which has to be below 2⁶³. -/
def magnitude (s : List UInt8) : Except Fault (Nat × List UInt8) := do
  let (n, r) ← unsigned s
  if n < Decimal.half64 then return (n, r) else throw ⟨.overflow, s.length, s.length - r.length⟩

/-- Reads a number with an optional minus sign. -/
def signed (s : List UInt8) : Except Fault (Int × List UInt8) :=
  if s.head? = some 45 then (magnitude s.tail).map fun (n, r) => (-(n : Int), r)
  else (magnitude s).map fun (n, r) => ((n : Int), r)

/-- Reads the code of a literal or a 0; codes have 32 bits. -/
def code (s : List UInt8) : Except Fault (Int × List UInt8) := do
  if s.head? = some 42 then throw ⟨.implicitLiterals, s.length, 1⟩
  let (c, r) ← signed s
  if -(Decimal.half32 : Int) ≤ c ∧ c < Decimal.half32 then return (c, r)
  else throw ⟨.literalRange c, s.length, s.length - r.length⟩

/-! ### Every token takes something off the line -/

theorem length_skipBlanks_le (s : List UInt8) : (skipBlanks s).length ≤ s.length := by
  induction s with
  | nil => simp [skipBlanks]
  | cons b s ih =>
      unfold skipBlanks at ih ⊢
      rw [List.dropWhile_cons]
      split
      · exact Nat.le_succ_of_le ih
      · exact Nat.le_refl _

theorem length_separator {s r : List UInt8} (h : separator s = .ok r) : r.length < s.length := by
  unfold separator at h
  split at h
  next => cases h
  next b s =>
    split at h
    next =>
      cases h
      exact Nat.lt_succ_of_le (length_skipBlanks_le s)
    next => cases h

theorem length_moreDigits {left n m : Nat} {s r : List UInt8}
    (h : moreDigits left n s = .ok (m, r)) : r.length ≤ s.length := by
  fun_induction moreDigits left n s with
  | case1 => cases h; exact Nat.le_refl _
  | case2 _ _ _ _ _ _ ih => exact Nat.le_succ_of_le (ih h)
  | case3 => cases h
  | case4 => cases h; exact Nat.le_refl _

theorem length_unsigned {n : Nat} {s r : List UInt8} (h : unsigned s = .ok (n, r)) :
    r.length < s.length := by
  unfold unsigned at h
  split at h
  next => cases h
  next b s =>
    split at h
    next => exact Nat.lt_succ_of_le (length_moreDigits h)
    next => cases h

theorem length_magnitude {n : Nat} {s r : List UInt8} (h : magnitude s = .ok (n, r)) :
    r.length < s.length := by
  unfold magnitude at h
  cases hu : unsigned s with
  | error e => rw [hu] at h; cases h
  | ok p =>
      rw [hu] at h
      simp only [bind, Except.bind] at h
      split at h
      next => cases h; exact length_unsigned hu
      next => cases h

theorem length_signed {c : Int} {s r : List UInt8} (h : signed s = .ok (c, r)) :
    r.length < s.length := by
  unfold signed at h
  split at h
  next =>
    cases hm : magnitude s.tail with
    | error e => rw [hm] at h; cases h
    | ok p =>
        rw [hm] at h; cases h
        have := length_magnitude hm
        rw [List.length_tail] at this
        omega
  next =>
    cases hm : magnitude s with
    | error e => rw [hm] at h; cases h
    | ok p => rw [hm] at h; cases h; exact length_magnitude hm

theorem length_code {c : Int} {s r : List UInt8} (h : code s = .ok (c, r)) :
    r.length < s.length := by
  unfold code at h
  split at h
  next => cases h
  next =>
    cases hs : signed s with
    | error e => rw [hs] at h; cases h
    | ok p =>
        rw [hs] at h
        simp only [bind, Except.bind, pure, Except.pure] at h
        split at h
        next => cases h; exact length_signed hs
        next => cases h

/-! ### Lines -/

/-- Reads the literals of a step up to their 0. -/
def literals (s : List UInt8) : Except Fault (List Int × List UInt8) :=
  match _hs : separator s with
  | .error e => .error e
  | .ok r =>
    match _hr : code r with
    | .error e => .error e
    | .ok (c, rest) =>
      if c = 0 then .ok ([], rest)
      else (literals rest).map fun (cs, rest) => (c :: cs, rest)
termination_by s.length
decreasing_by
  have := length_separator _hs
  have := length_code _hr
  omega

/-- Reads the antecedents of a step up to their 0. -/
def antecedents (s : List UInt8) : Except Fault (List Nat × List UInt8) :=
  match _hs : separator s with
  | .error e => .error e
  | .ok r =>
    match _hr : unsigned r with
    | .error e => .error e
    | .ok (a, rest) =>
      if a = 0 then .ok ([], rest)
      else (antecedents rest).map fun (as, rest) => (a :: as, rest)
termination_by s.length
decreasing_by
  have := length_separator _hs
  have := length_unsigned _hr
  omega

/-- Reads the number of a step, which is not 0. -/
def stepId (s : List UInt8) : Except Fault (Nat × List UInt8) := do
  let (n, r) ← unsigned s
  if n = 0 then throw ⟨.zeroId, s.length, s.length - r.length⟩ else return (n, r)

/-- Checks that nothing but blanks is left of a line. -/
def finish (s : List UInt8) : Except Fault Unit :=
  match skipBlanks s with
  | [] => .ok ()
  | b :: r => if b = 10 then .ok () else .error ⟨.trailing, r.length + 1, 1⟩

/-- Whether a line, without its leading blanks, holds no step: it is over or a comment. -/
def isVoid (s : List UInt8) : Bool := s.isEmpty || s.head? == some 10 || s.head? == some 99

/-- Reads a line, if it holds a step. -/
def line (bytes : List UInt8) : Except Fault (Option Step) := do
  let s := skipBlanks bytes
  if isVoid s then return none
  let (id, s) ← stepId s
  let (ls, s) ← literals s
  let (as, s) ← antecedents s
  finish s
  return some ⟨id, ls, as⟩

/-! ### Sources -/

/-- Cuts a source after every newline; `taken` is the line so far, last byte first. -/
def cut (taken : List UInt8) : List UInt8 → List (List UInt8)
  | [] => if taken.isEmpty then [] else [taken.reverse]
  | b :: s => if b = 10 then (b :: taken).reverse :: cut [] s else cut (b :: taken) s

/-- The lines of a source, each with its newline. -/
def lines (source : List UInt8) : List (List UInt8) := cut [] source

/-- Reads the line with the given number. -/
def numberedLine (number : Nat) (bytes : List UInt8) : Option (Except ReadError Step) :=
  match line bytes with
  | .ok none => none
  | .ok (some step) => some (.ok step)
  | .error f =>
    let start := bytes.length - f.left
    some (.error ⟨number, f.reason, start, start + f.width⟩)

/-- The outcome of every line which is not void, in order. -/
def readSteps (source : List UInt8) : List (Except ReadError Step) :=
  ((lines source).mapIdx fun i bytes => numberedLine (i + 1) bytes).filterMap id

/-- All steps of a source, or the first fault. -/
def readAll (source : List UInt8) : Except ReadError (List Step) := (readSteps source).mapM id

/-! ### One step after the other -/

/-- The first line of a source, with its newline, and what comes after it. -/
def firstLine : List UInt8 → List UInt8 × List UInt8
  | [] => ([], [])
  | b :: s =>
    if b = 10 then ([b], s)
    else
      let (bytes, rest) := firstLine s
      (b :: bytes, rest)

theorem length_firstLine_le (s : List UInt8) : (firstLine s).2.length ≤ s.length := by
  fun_induction firstLine s with
  | case1 => exact Nat.le_refl _
  | case2 => exact Nat.le_succ _
  | case3 b s _ bytes rest _ ih => exact Nat.le_succ_of_le (by simpa [*] using ih)

theorem length_firstLine_lt {s : List UInt8} (hs : s ≠ []) : (firstLine s).2.length < s.length := by
  cases s with
  | nil => exact absurd rfl hs
  | cons b s =>
      rw [firstLine]
      split
      · exact Nat.lt_succ_self _
      · exact Nat.lt_succ_of_le (length_firstLine_le s)

/-- A source from which some lines have been taken. -/
structure Reader where
  rest : List UInt8
  linesTaken : Nat

namespace Reader

/-- No line has been taken. -/
def start (source : List UInt8) : Reader := ⟨source, 0⟩

/-- The next line has been taken. -/
def skipLine (r : Reader) : Reader := ⟨(firstLine r.rest).2, r.linesTaken + 1⟩

/-- Takes lines up to one which is not void.  There is no step when the source is over; a faulty
line has been taken as well. -/
def nextStep (r : Reader) : Except ReadError (Option Step) × Reader :=
  if _hr : r.rest = [] then (.ok none, r)
  else
    match numberedLine (r.linesTaken + 1) (firstLine r.rest).1 with
    | none => r.skipLine.nextStep
    | some (.ok step) => (.ok (some step), r.skipLine)
    | some (.error e) => (.error e, r.skipLine)
termination_by r.rest.length
decreasing_by exact length_firstLine_lt _hr

theorem length_nextStep {r r' : Reader} {a : Except ReadError (Option Step)}
    (h : r.nextStep = (a, r')) (ha : a ≠ .ok none) : r'.rest.length < r.rest.length := by
  fun_induction nextStep r with
  | case1 => cases h; exact absurd rfl ha
  | case2 r hr _ ih => exact Nat.lt_trans (ih h) (length_firstLine_lt hr)
  | case3 r hr => cases h; exact length_firstLine_lt hr
  | case4 r hr => cases h; exact length_firstLine_lt hr

/-- What comes of taking steps until there are none, going on after faults. -/
def outcomes (r : Reader) : List (Except ReadError Step) :=
  match _h : r.nextStep with
  | (.ok none, _) => []
  | (.ok (some step), r') => .ok step :: r'.outcomes
  | (.error e, r') => .error e :: r'.outcomes
termination_by r.rest.length
decreasing_by all_goals exact length_nextStep _h (by simp)

end Reader

end ModelFinder.TraceCheck
