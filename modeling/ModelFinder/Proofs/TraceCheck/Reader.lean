import ModelFinder.TraceCheck.Reader
import ModelFinder.Proofs.Attempts
import ModelFinder.Proofs.Decimal

/-!
# Numbers on a line

A number is read digit by digit, and its value only grows on the way; so if the value of all its
digits is in range, none of the checks on the way refuses it, and the reader takes exactly the
digits off the line (`unsigned_append`, `code_append`, `code_minus_append`).  What `Decimal.digits`
and `Decimal.signedDigits` write is read back that way (`unsigned_digits`, `code_signedDigits`).

The step from numbers to the literals and antecedents of a line is `literals_of_code` and
`antecedents_of_unsigned`: what the line goes on with after its first number.
-/

namespace ModelFinder

namespace TraceCheck

open Decimal (isDigit digitValue value digits signedDigits word64 half32 half64)

variable {ds rest s r : List UInt8}

/-- What is left of a line does not go on with a digit. -/
def NoDigit (s : List UInt8) : Prop := ∀ b ∈ s.head?, isDigit b = false

@[simp] theorem noDigit_cons {b : UInt8} : NoDigit (b :: s) ↔ isDigit b = false := by
  simp [NoDigit]

/-- A number as it stands on a line: one digit or more, and nothing else. -/
structure IsNumeral (ds : List UInt8) : Prop where
  ne_nil : ds ≠ []
  digits : ∀ b ∈ ds, isDigit b = true

theorem isNumeral_digits (n : Nat) : IsNumeral (digits n) :=
  ⟨Decimal.digits_ne_nil n, Decimal.isDigit_of_mem_digits⟩

namespace IsNumeral

theorem exists_cons (h : IsNumeral ds) : ∃ b ds', ds = b :: ds' ∧ isDigit b = true := by
  cases ds with
  | nil => exact absurd rfl h.ne_nil
  | cons b ds' => exact ⟨b, ds', rfl, h.digits b List.mem_cons_self⟩

/-- A numeral does not start with any other byte. -/
theorem head?_ne (h : IsNumeral ds) {c : UInt8} (hc : isDigit c = false) :
    (ds ++ rest).head? ≠ some c := by
  obtain ⟨b, ds', rfl, hb⟩ := h.exists_cons
  intro heq
  rw [List.cons_append, List.head?_cons, Option.some_inj] at heq
  rw [heq, hc] at hb
  exact Bool.false_ne_true hb

end IsNumeral

/-! ### Numbers -/

theorem moreDigits_append {left n : Nat} (hds : ∀ b ∈ ds, isDigit b = true) (hrest : NoDigit rest)
    (hn : ds.foldl (fun n b => 10 * n + digitValue b) n < word64) :
    moreDigits left n (ds ++ rest)
      = .ok (ds.foldl (fun n b => 10 * n + digitValue b) n, rest) := by
  induction ds generalizing n with
  | nil =>
      cases rest with
      | nil => rfl
      | cons b rest => simp [moreDigits, noDigit_cons.mp hrest]
  | cons b ds ih =>
      have hlt : 10 * n + digitValue b < word64 := Nat.lt_of_le_of_lt (Decimal.le_foldl _) hn
      rw [List.cons_append, moreDigits, if_pos (hds b List.mem_cons_self)]
      simp only [hlt, if_true]
      exact ih (fun c hc => hds c (List.mem_cons_of_mem b hc)) hn

theorem unsigned_append (hds : IsNumeral ds) (hrest : NoDigit rest) (hv : value ds < word64) :
    unsigned (ds ++ rest) = .ok (value ds, rest) := by
  obtain ⟨b, ds', rfl, hb⟩ := hds.exists_cons
  have hvalue : value (b :: ds') = ds'.foldl (fun n b => 10 * n + digitValue b) (digitValue b) := by
    simp [value]
  rw [hvalue] at hv ⊢
  rw [List.cons_append, unsigned, if_pos hb]
  exact moreDigits_append (fun c hc => hds.digits c (List.mem_cons_of_mem b hc)) hrest hv

theorem magnitude_append (hds : IsNumeral ds) (hrest : NoDigit rest) (hv : value ds < half64) :
    magnitude (ds ++ rest) = .ok (value ds, rest) := by
  rw [magnitude, unsigned_append hds hrest (Nat.lt_trans hv (by decide))]
  exact if_pos hv

theorem code_of_signed {c : Int} (hs : signed s = .ok (c, r)) (hstar : s.head? ≠ some 42)
    (hlow : -(half32 : Int) ≤ c) (hhigh : c < half32) : code s = .ok (c, r) := by
  rw [code, if_neg hstar, hs]
  exact if_pos ⟨hlow, hhigh⟩

theorem code_append (hds : IsNumeral ds) (hrest : NoDigit rest) (hv : value ds < half32) :
    code (ds ++ rest) = .ok ((value ds : Int), rest) := by
  have hsigned : signed (ds ++ rest) = .ok ((value ds : Int), rest) := by
    rw [signed, if_neg (hds.head?_ne (by decide)),
      magnitude_append hds hrest (Nat.lt_trans hv (by decide))]
    rfl
  exact code_of_signed hsigned (hds.head?_ne (by decide)) (by omega) (by omega)

theorem code_minus_append (hds : IsNumeral ds) (hrest : NoDigit rest) (hv : value ds ≤ half32) :
    code (45 :: ds ++ rest) = .ok (-(value ds : Int), rest) := by
  have hsigned : signed (45 :: ds ++ rest) = .ok (-(value ds : Int), rest) := by
    rw [signed, List.cons_append, List.head?_cons, if_pos rfl, List.tail_cons,
      magnitude_append hds hrest (Nat.lt_of_le_of_lt hv (by decide))]
    rfl
  have hpos : 0 < half32 := by decide
  exact code_of_signed hsigned (by simp) (by omega) (by omega)

/-! ### Written numbers -/

theorem unsigned_digits {n : Nat} (hn : n < word64) (hrest : NoDigit rest) :
    unsigned (digits n ++ rest) = .ok (n, rest) := by
  have h := unsigned_append (isNumeral_digits n) hrest (by rwa [Decimal.value_digits])
  rwa [Decimal.value_digits] at h

theorem code_signedDigits {c : Int} (hlow : -(half32 : Int) ≤ c) (hhigh : c < half32)
    (hrest : NoDigit rest) : code (signedDigits c ++ rest) = .ok (c, rest) := by
  have hvalue : value (digits c.natAbs) = c.natAbs := Decimal.value_digits _
  rw [signedDigits]
  split
  next hneg =>
    rw [code_minus_append (isNumeral_digits _) hrest (by omega), hvalue]
    congr 2
    omega
  next hpos =>
    rw [code_append (isNumeral_digits _) hrest (by omega), hvalue]
    congr 2
    omega

/-! ### Blanks -/

theorem isBlank_of_isDigit {b : UInt8} (hb : isDigit b = true) : isBlank b = false := by
  cases hblank : isBlank b with
  | false => rfl
  | true =>
      simp only [isBlank, Bool.or_eq_true, beq_iff_eq] at hblank
      obtain (rfl | rfl) | rfl := hblank <;> exact absurd hb (by decide)

theorem skipBlanks_cons {b : UInt8} (hb : isBlank b = false) : skipBlanks (b :: s) = b :: s := by
  simp [skipBlanks, hb]

theorem skipBlanks_digits (n : Nat) : skipBlanks (digits n ++ rest) = digits n ++ rest := by
  obtain ⟨b, ds, hds, hb⟩ := (isNumeral_digits n).exists_cons
  rw [hds, List.cons_append]
  exact skipBlanks_cons (isBlank_of_isDigit hb)

theorem skipBlanks_signedDigits (c : Int) :
    skipBlanks (signedDigits c ++ rest) = signedDigits c ++ rest := by
  rw [signedDigits]
  split
  next => exact skipBlanks_cons (by decide)
  next => exact skipBlanks_digits _

theorem isVoid_of_isDigit {b : UInt8} (hb : isDigit b = true) : isVoid (b :: rest) = false := by
  cases hvoid : isVoid (b :: rest) with
  | false => rfl
  | true =>
      simp only [isVoid, List.isEmpty_cons, List.head?_cons, Bool.false_or, Bool.or_eq_true,
        beq_iff_eq, Option.some_inj] at hvoid
      obtain rfl | rfl := hvoid <;> exact absurd hb (by decide)

/-! ### Literals and antecedents -/

theorem literals_of_code {c : Int} (hs : separator s = .ok r) (hc : code r = .ok (c, rest)) :
    literals s = if c = 0 then .ok ([], rest)
      else (literals rest).map fun (cs, rest) => (c :: cs, rest) := by
  rw [literals]
  split
  next e he => rw [hs] at he; cases he
  next r' hr' =>
    cases hs.symm.trans hr'
    split
    next e he => rw [hc] at he; cases he
    next c' rest' hc' => cases hc.symm.trans hc'; rfl

theorem antecedents_of_unsigned {a : Nat} (hs : separator s = .ok r)
    (ha : unsigned r = .ok (a, rest)) :
    antecedents s = if a = 0 then .ok ([], rest)
      else (antecedents rest).map fun (as, rest) => (a :: as, rest) := by
  rw [antecedents]
  split
  next e he => rw [hs] at he; cases he
  next r' hr' =>
    cases hs.symm.trans hr'
    split
    next e he => rw [ha] at he; cases he
    next a' rest' ha' => cases ha.symm.trans ha'; rfl

end TraceCheck

end ModelFinder
