import ModelFinder.TraceCheck.Writer
import ModelFinder.Proofs.TraceCheck.Reader

/-!
# A written text is read back

The reader takes off a line exactly what `Step.line` put there, one number at a time
(`literals_written`, `antecedents_written`), so the line of a step whose numbers are in range holds
that step (`line_written`).  A newline stands at the end of every line and nowhere else in it, so
the lines of a text are the lines of its steps (`lines_text`) and `readAll_text` has every step
back.  What a writer wrote is such a text (`bytes_logAll`): `readAll_logAll`.
-/

namespace ModelFinder.TraceCheck

open Decimal (isDigit digits signedDigits word64 half32)

variable {rest : List UInt8} {s : Step} {steps : List Step}

/-! ### The numbers of a step -/

/-- Literals and antecedents a text can hold: codes of 32 bits and numbers of 64, none of them 0. -/
def Writable (request : List Int × List Nat) : Prop :=
  (∀ l ∈ request.1, l ≠ 0 ∧ -(half32 : Int) ≤ l ∧ l < half32)
    ∧ ∀ a ∈ request.2, 0 < a ∧ a < word64

/-- A step a text can hold. -/
structure Step.InRange (s : Step) : Prop where
  id : 0 < s.id ∧ s.id < word64
  writable : Writable (s.literals, s.antecedents)

/-- Numbers, each after a blank, and the 0 after them. -/
def numbers {α : Type} (write : α → List UInt8) (ns : List α) : List UInt8 :=
  ns.flatMap (fun n => 32 :: write n) ++ [32, 48]

theorem line_eq_numbers :
    s.line = digits s.id ++ (numbers signedDigits s.literals
      ++ (numbers digits s.antecedents ++ [10])) := by
  simp [Step.line, numbers]

theorem numbers_cons {α : Type} {write : α → List UInt8} {n : α} {ns : List α} :
    numbers write (n :: ns) ++ rest = 32 :: (write n ++ (numbers write ns ++ rest)) := by
  simp [numbers]

/-- Numbers start with a blank. -/
theorem noDigit_numbers {α : Type} {write : α → List UInt8} {ns : List α} :
    NoDigit (numbers write ns ++ rest) := by
  cases ns with
  | nil => exact noDigit_cons.mpr (by decide)
  | cons n ns => rw [numbers_cons]; exact noDigit_cons.mpr (by decide)

theorem isNumeral_zero : IsNumeral [48] :=
  ⟨List.cons_ne_nil _ _, List.forall_mem_singleton.mpr (by decide)⟩

theorem literals_written {ls : List Int}
    (hls : ∀ l ∈ ls, l ≠ 0 ∧ -(half32 : Int) ≤ l ∧ l < half32) (hrest : NoDigit rest) :
    literals (numbers signedDigits ls ++ rest) = .ok (ls, rest) := by
  induction ls with
  | nil =>
      have hzero : code ([48] ++ rest) = .ok (0, rest) :=
        code_append isNumeral_zero hrest (by decide)
      exact literals_of_code rfl hzero
  | cons l ls ih =>
      obtain ⟨⟨hne, hlow, hhigh⟩, hls⟩ := List.forall_mem_cons.mp hls
      rw [numbers_cons]
      have hsep : separator (32 :: (signedDigits l ++ (numbers signedDigits ls ++ rest)))
          = .ok (signedDigits l ++ (numbers signedDigits ls ++ rest)) :=
        congrArg Except.ok (skipBlanks_signedDigits l)
      rw [literals_of_code hsep (code_signedDigits hlow hhigh noDigit_numbers), if_neg hne, ih hls]
      rfl

theorem antecedents_written {as : List Nat} (has : ∀ a ∈ as, 0 < a ∧ a < word64)
    (hrest : NoDigit rest) : antecedents (numbers digits as ++ rest) = .ok (as, rest) := by
  induction as with
  | nil =>
      have hzero : unsigned ([48] ++ rest) = .ok (0, rest) :=
        unsigned_append isNumeral_zero hrest (by decide)
      exact antecedents_of_unsigned rfl hzero
  | cons a as ih =>
      obtain ⟨⟨hpos, hlt⟩, has⟩ := List.forall_mem_cons.mp has
      rw [numbers_cons]
      have hsep : separator (32 :: (digits a ++ (numbers digits as ++ rest)))
          = .ok (digits a ++ (numbers digits as ++ rest)) :=
        congrArg Except.ok (skipBlanks_digits a)
      rw [antecedents_of_unsigned hsep (unsigned_digits hlt noDigit_numbers),
        if_neg (Nat.ne_of_gt hpos), ih has]
      rfl

/-! ### Lines -/

theorem line_written (hs : s.InRange) : line s.line = .ok (some s) := by
  have hid : stepId s.line = .ok (s.id, numbers signedDigits s.literals
      ++ (numbers digits s.antecedents ++ [10])) := by
    rw [line_eq_numbers, stepId, unsigned_digits hs.id.2 noDigit_numbers]
    exact if_neg (Nat.ne_of_gt hs.id.1)
  have hskip : skipBlanks s.line = s.line := by rw [line_eq_numbers, skipBlanks_digits]
  have hvoid : isVoid s.line = false := by
    obtain ⟨b, ds, hds, hb⟩ := (isNumeral_digits s.id).exists_cons
    rw [line_eq_numbers, hds]
    exact isVoid_of_isDigit hb
  rw [line, hskip, hvoid, hid]
  simp only [bind, Except.bind]
  rw [literals_written hs.writable.1 noDigit_numbers]
  simp only
  rw [antecedents_written hs.writable.2 (noDigit_cons.mpr (by decide))]
  rfl

/-! ### Texts -/

theorem newline_notMem_numbers {α : Type} {write : α → List UInt8} (hwrite : ∀ n, 10 ∉ write n)
    {ns : List α} : 10 ∉ numbers write ns := by
  simp [numbers, hwrite]

theorem newline_notMem_digits (n : Nat) : 10 ∉ digits n :=
  fun h => absurd (Decimal.isDigit_of_mem_digits 10 h) (by decide)

theorem newline_notMem_signedDigits (c : Int) : 10 ∉ signedDigits c := by
  rw [signedDigits]
  split <;> simp [newline_notMem_digits]

/-- A newline ends the line of a step, and there is no other in it. -/
theorem exists_line_eq (s : Step) : ∃ body, s.line = body ++ [10] ∧ 10 ∉ body := by
  refine ⟨digits s.id ++ (numbers signedDigits s.literals ++ numbers digits s.antecedents), ?_, ?_⟩
  · simp [line_eq_numbers]
  · simp only [List.mem_append, not_or]
    exact ⟨newline_notMem_digits _, newline_notMem_numbers newline_notMem_signedDigits,
      newline_notMem_numbers newline_notMem_digits⟩

theorem cut_append {taken body : List UInt8} (hbody : 10 ∉ body) :
    cut taken (body ++ 10 :: rest) = (taken.reverse ++ (body ++ [10])) :: cut [] rest := by
  induction body generalizing taken with
  | nil => simp [cut]
  | cons b body ih =>
      obtain ⟨hb, hbody⟩ := not_or.mp (mt List.mem_cons.mpr hbody)
      rw [List.cons_append, cut, if_neg (Ne.symm hb), ih hbody]
      simp

theorem lines_text : lines (text steps) = steps.map Step.line := by
  induction steps with
  | nil => rfl
  | cons s steps ih =>
      obtain ⟨body, hbody, hnewline⟩ := exists_line_eq s
      have hcut : lines (s.line ++ text steps) = s.line :: lines (text steps) := by
        rw [hbody, List.append_assoc]
        exact cut_append hnewline
      rw [List.map_cons, ← ih, ← hcut]
      rfl

theorem readSteps_text (h : ∀ s ∈ steps, s.InRange) : readSteps (text steps) = steps.map .ok := by
  have hlines : (steps.map Step.line).mapIdx (fun i bytes => numberedLine (i + 1) bytes)
      = (steps.map Except.ok).map some := by
    refine List.ext_getElem (by simp) fun i hi _ => ?_
    have hi : i < steps.length := by simpa using hi
    simp [numberedLine, line_written (h steps[i] (List.getElem_mem hi))]
  rw [readSteps, lines_text, hlines, List.filterMap_map]
  exact List.filterMap_some

theorem readAll_text (h : ∀ s ∈ steps, s.InRange) : readAll (text steps) = .ok steps := by
  rw [readAll, readSteps_text h, mapM_eq_ok, List.map_id]

/-! ### Writers -/

/-- Numbers clauses and their antecedents in order, from `n`. -/
def numberedFrom (n : Nat) : List (List Int × List Nat) → List Step
  | [] => []
  | (literals, antecedents) :: requests => ⟨n, literals, antecedents⟩ :: numberedFrom (n + 1) requests

variable {requests : List (List Int × List Nat)}

theorem numbered_eq_numberedFrom : Step.numbered requests = numberedFrom 1 requests := by
  suffices h : ∀ n, requests.mapIdx (fun i r => (⟨i + n, r.1, r.2⟩ : Step)) = numberedFrom n requests
    from h 1
  induction requests with
  | nil => exact fun _ => rfl
  | cons r requests ih =>
      intro n
      rw [List.mapIdx_cons, numberedFrom, ← ih (n + 1), Nat.zero_add]
      simp only [Nat.add_right_comm, Nat.add_assoc]

theorem ids_numberedFrom (n : Nat) :
    (numberedFrom n requests).map (·.id) = List.range' n requests.length := by
  induction requests generalizing n with
  | nil => rfl
  | cons r requests ih => simp [numberedFrom, ih, List.range'_succ]

theorem requests_numberedFrom (n : Nat) :
    (numberedFrom n requests).map (fun s => (s.literals, s.antecedents)) = requests := by
  induction requests generalizing n with
  | nil => rfl
  | cons r requests ih => simp [numberedFrom, ih]

theorem inRange_numberedFrom {n : Nat} (hpos : 0 < n) (hlt : n + requests.length ≤ word64)
    (hr : ∀ r ∈ requests, Writable r) : ∀ s ∈ numberedFrom n requests, s.InRange := by
  induction requests generalizing n with
  | nil => exact fun s hs => absurd hs List.not_mem_nil
  | cons r requests ih =>
      rw [List.length_cons] at hlt
      obtain ⟨hwritable, hr⟩ := List.forall_mem_cons.mp hr
      have hid : n < word64 := by omega
      exact List.forall_mem_cons.mpr ⟨⟨⟨hpos, hid⟩, hwritable⟩,
        ih (Nat.succ_pos n) (by omega) hr⟩

namespace Writer

variable {w : Writer}

/-- A writer that has used up its numbers writes nothing more. -/
theorem logAll_of_exhausted (hw : word64 ≤ w.nextId + 1) :
    w.logAll requests = (List.replicate requests.length (.error .numbersExhausted), w) := by
  induction requests with
  | nil => rfl
  | cons r requests ih =>
      have hlog : w.log r.1 r.2 = .error .numbersExhausted := if_neg (Nat.not_lt.mpr hw)
      rw [logAll, hlog, ih]
      rfl

/-- A writer numbers and writes the requests for which it has numbers, and refuses the others. -/
theorem logAll_eq {left : Nat} (hleft : w.nextId + left + 1 = word64) :
    w.logAll requests =
      let steps := numberedFrom w.nextId (requests.take left)
      (steps.map (fun s => .ok s.id)
          ++ List.replicate (requests.length - left) (.error .numbersExhausted),
        ⟨w.nextId + steps.length, w.bytes ++ text steps⟩) := by
  induction requests generalizing w left with
  | nil => simp [logAll, numberedFrom, text]
  | cons r requests ih =>
      cases left with
      | zero =>
          rw [logAll_of_exhausted (by omega)]
          simp [numberedFrom, text]
      | succ left =>
          have hlog : w.log r.1 r.2
              = .ok (w.nextId, ⟨w.nextId + 1, w.bytes ++ Step.line ⟨w.nextId, r.1, r.2⟩⟩) :=
            if_pos (by omega)
          have hleft' : (w.nextId + 1) + left + 1 = word64 := by omega
          rw [logAll, hlog]
          simp only
          rw [ih hleft']
          simp [numberedFrom, text, Nat.add_assoc, Nat.add_comm]

end Writer

/-- **Round trip.**  A writer is asked for any clauses, each with any antecedents; it writes those
for which it has numbers, refuses the others, and reading its text gives the written clauses back,
in order, with the same literals and antecedents, numbered as the writer answered. -/
theorem readAll_logAll (requests : List (List Int × List Nat)) (h : ∀ r ∈ requests, Writable r) :
    ∃ steps, readAll (Writer.start.logAll requests).2.bytes = .ok steps
      ∧ steps.map (·.id) = List.range' 1 (min requests.length Writer.capacity)
      ∧ steps.map (fun s => (s.literals, s.antecedents)) = requests.take Writer.capacity
      ∧ (Writer.start.logAll requests).1 = steps.map (fun s => .ok s.id)
          ++ List.replicate (requests.length - Writer.capacity) (.error .numbersExhausted) := by
  have hcapacity : 1 + Writer.capacity + 1 = word64 := by decide
  have hlog : Writer.start.logAll requests = _ := Writer.logAll_eq hcapacity
  have hlength : 1 + (requests.take Writer.capacity).length ≤ word64 := by
    rw [List.length_take]
    omega
  have hrange := inRange_numberedFrom Nat.one_pos hlength fun r hr => h r (List.mem_of_mem_take hr)
  refine ⟨numberedFrom 1 (requests.take Writer.capacity), ?_, ?_, requests_numberedFrom 1, ?_⟩
  · rw [hlog]
    exact readAll_text hrange
  · rw [ids_numberedFrom, List.length_take, Nat.min_comm]
  · rw [hlog]
    rfl

/-- Three requests with the extreme numbers: an input clause, the empty input clause, and an empty
resolvent of the last number there is and the first. -/
theorem readAll_logAll_extremes :
    let requests := [([-2147483648, 2147483647], []), ([], []), ([], [18446744073709551615, 1])]
    (∀ r ∈ requests, Writable r)
      ∧ ∃ steps, readAll (Writer.start.logAll requests).2.bytes = .ok steps
        ∧ steps.map (·.id) = [1, 2, 3]
        ∧ steps.map (fun s => (s.literals, s.antecedents)) = requests := by
  intro requests
  have h : ∀ r ∈ requests, Writable r := by simp [requests, Writable, half32, word64]
  obtain ⟨steps, hread, hids, hrequests, -⟩ := readAll_logAll requests h
  have hfit : requests.length ≤ Writer.capacity := by decide
  rw [Nat.min_eq_left hfit] at hids
  rw [List.take_of_length_le hfit] at hrequests
  exact ⟨h, steps, hread, hids, hrequests⟩

end ModelFinder.TraceCheck
