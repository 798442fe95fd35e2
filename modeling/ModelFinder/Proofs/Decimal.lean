import ModelFinder.Decimal
import Mathlib.Data.List.Induction

/-!
# Decimal words

A word may stand for an integer: digits, after an optional minus sign (`Decimal.integer?`).  Leading
zeros make no difference to the value, so an integer has many words; `Decimal.signedDigits` writes
the one that does not have any.

* `digits_value`: digits without a leading zero are the ones written for their value.
* `IsPlain.signed?_eq_some_iff`: a word without leading zeros is read as the integer it is
  written for.
* `integer?_signedDigits`: what is written is read back.
-/

namespace ModelFinder.Decimal

variable {ds w : List UInt8} {b : UInt8} {n bound : Nat} {c : Int}

/-- Reading on does not make a number smaller. -/
theorem le_foldl (n : Nat) : n ≤ ds.foldl (fun n b => 10 * n + digitValue b) n := by
  induction ds generalizing n with
  | nil => exact Nat.le_refl n
  | cons b ds ih => exact Nat.le_trans (by omega) (ih (10 * n + digitValue b))

theorem value_concat (d : UInt8) : value (ds ++ [d]) = 10 * value ds + digitValue d := by
  simp [value]

/-! ### Digits -/

theorem ne_of_isDigit {c : UInt8} (hb : isDigit b = true) (hc : isDigit c = false) : b ≠ c := by
  rintro rfl
  simp [hb] at hc

theorem digitValue_lt (hb : isDigit b = true) : digitValue b < 10 := by
  simp only [isDigit, Bool.and_eq_true, decide_eq_true_eq, UInt8.le_iff_toNat_le] at hb
  simp only [digitValue, UInt8.reduceToNat] at hb ⊢
  omega

theorem digit_digitValue (hb : isDigit b = true) : digit (digitValue b) = b := by
  simp only [isDigit, Bool.and_eq_true, decide_eq_true_eq, UInt8.le_iff_toNat_le] at hb
  have hcode : 48 + (b.toNat - 48) = b.toNat := by
    simp only [UInt8.reduceToNat] at hb
    omega
  rw [digit, digitValue, hcode, UInt8.ofNat_toNat]

theorem digits_of_lt (hn : n < 10) : digits n = [digit n] := by rw [digits, if_pos hn]

theorem digits_ne_nil (n : Nat) : digits n ≠ [] := by
  rw [digits]
  split <;> simp

/-- A number other than 0 is written without a leading zero. -/
theorem head?_digits (hn : n ≠ 0) : (digits n).head? ≠ some 48 := by
  fun_induction digits n with
  | case1 n hlt =>
      intro h
      have hvalue := digitValue_digit hlt
      rw [Option.some.inj h] at hvalue
      exact hn hvalue.symm
  | case2 n hle ih =>
      have hhead : (digits (n / 10)).head? ≠ some 48 := ih (by omega)
      cases hds : digits (n / 10) with
      | nil => exact absurd hds (digits_ne_nil _)
      | cons b ds => rwa [hds] at hhead

/-- Digits without a leading zero are the ones written for their value, which is not 0. -/
theorem digits_value (hne : ds ≠ []) (hds : ∀ b ∈ ds, isDigit b = true)
    (hzero : ds.head? ≠ some 48) : 0 < value ds ∧ digits (value ds) = ds := by
  induction ds using List.reverseRecOn with
  | nil => exact absurd rfl hne
  | append_singleton ds d ih =>
      have hd : isDigit d = true := hds d (by simp)
      have hlt := digitValue_lt hd
      cases ds with
      | nil =>
          have hvalue : value ([] ++ [d]) = digitValue d := by simp [value]
          have hpos : digitValue d ≠ 0 := by
            intro h0
            apply hzero
            rw [List.nil_append, List.head?_cons, ← digit_digitValue hd, h0]
            rfl
          rw [hvalue, digits, if_pos hlt, digit_digitValue hd]
          exact ⟨Nat.pos_of_ne_zero hpos, rfl⟩
      | cons b ds =>
          obtain ⟨hpos, heq⟩ := ih (List.cons_ne_nil b ds)
            (fun c hc => hds c (List.mem_append_left _ hc)) hzero
          have hvalue : value (b :: ds ++ [d]) = 10 * value (b :: ds) + digitValue d :=
            value_concat d
          refine ⟨by omega, ?_⟩
          have hdiv : (10 * value (b :: ds) + digitValue d) / 10 = value (b :: ds) := by omega
          have hmod : (10 * value (b :: ds) + digitValue d) % 10 = digitValue d := by omega
          rw [digits, if_neg (by omega), hvalue, hdiv, hmod, heq, digit_digitValue hd]

/-! ### Words for integers -/

/-- The integer a word stands for: one digit or more, after an optional minus sign. -/
def integer? (word : List UInt8) : Option Int :=
  if word.head? = some 45 then (natural? word.tail).map fun n => -Int.ofNat n
  else (natural? word).map Int.ofNat

theorem natural?_eq_some_iff :
    natural? w = some n ↔ (w ≠ [] ∧ ∀ b ∈ w, isDigit b = true) ∧ value w = n := by
  simp [natural?]

theorem natural?_digits (n : Nat) : natural? (digits n) = some n :=
  natural?_eq_some_iff.mpr ⟨⟨digits_ne_nil n, isDigit_of_mem_digits⟩, value_digits n⟩

/-- Digits do not start with any other byte. -/
theorem head?_ne_of_isDigit (hds : ∀ b ∈ ds, isDigit b = true) (hb : isDigit b = false) :
    ds.head? ≠ some b := by
  intro h
  exact ne_of_isDigit (hds b (List.mem_of_head? h)) hb rfl

theorem head?_digits_ne (hb : isDigit b = false) : (digits n).head? ≠ some b :=
  head?_ne_of_isDigit isDigit_of_mem_digits hb

theorem unsigned?_digits (hn : n < bound) : unsigned? bound (digits n) = some n := by
  rw [unsigned?, if_neg (head?_digits_ne (by decide)), natural?_digits]
  exact if_pos hn

theorem signedDigits_of_neg (hc : c < 0) : signedDigits c = 45 :: digits c.natAbs := if_pos hc

theorem signedDigits_of_nonneg (hc : 0 ≤ c) : signedDigits c = digits c.natAbs :=
  if_neg (Int.not_lt.mpr hc)

/-- What is written is read back. -/
@[simp] theorem integer?_signedDigits (c : Int) : integer? (signedDigits c) = some c := by
  by_cases hneg : c < 0
  · have hc : -Int.ofNat c.natAbs = c := by simp only [Int.ofNat_eq_natCast]; omega
    rw [signedDigits_of_neg hneg, integer?, List.head?_cons, if_pos rfl, List.tail_cons,
      natural?_digits, Option.map_some, hc]
  · have hc : Int.ofNat c.natAbs = c := by simp only [Int.ofNat_eq_natCast]; omega
    rw [signedDigits_of_nonneg (Int.not_lt.mp hneg), integer?, if_neg (head?_digits_ne (by decide)),
      natural?_digits, Option.map_some, hc]

/-- A word for an integer other than 0 that has no leading zero. -/
structure IsPlain (w : List UInt8) : Prop where
  exists_digits : ∃ ds, (w = ds ∨ w = 45 :: ds) ∧ ds ≠ [] ∧ (∀ b ∈ ds, isDigit b = true) ∧
    ds.head? ≠ some 48

theorem isPlain_signedDigits (hc : c ≠ 0) : IsPlain (signedDigits c) := by
  refine ⟨digits c.natAbs, ?_, digits_ne_nil _, isDigit_of_mem_digits, head?_digits (by omega)⟩
  by_cases hneg : c < 0
  · exact .inr (signedDigits_of_neg hneg)
  · exact .inl (signedDigits_of_nonneg (Int.not_lt.mp hneg))

@[simp] theorem signedDigits_zero : signedDigits 0 = [48] := by
  rw [signedDigits_of_nonneg (Int.le_refl 0), Int.natAbs_zero, digits]
  rfl

/-- A word without leading zeros is the one written for its integer. -/
theorem IsPlain.integer?_eq_some_iff (hw : IsPlain w) :
    integer? w = some c ↔ w = signedDigits c := by
  constructor
  · intro h
    obtain ⟨ds, hds, hne, hdigits, hzero⟩ := hw.exists_digits
    obtain ⟨hpos, hvalue⟩ := digits_value hne hdigits hzero
    have hnatural : natural? ds = some (value ds) := natural?_eq_some_iff.mpr ⟨⟨hne, hdigits⟩, rfl⟩
    rcases hds with rfl | rfl
    · rw [integer?, if_neg (head?_ne_of_isDigit hdigits (by decide)), hnatural,
        Option.map_some, Option.some_inj, Int.ofNat_eq_natCast] at h
      rw [← h, signedDigits_of_nonneg (Int.natCast_nonneg _), Int.natAbs_natCast, hvalue]
    · rw [integer?, List.head?_cons, if_pos rfl, List.tail_cons, hnatural,
        Option.map_some, Option.some_inj, Int.ofNat_eq_natCast] at h
      rw [← h, signedDigits_of_neg (by omega), Int.natAbs_neg, Int.natAbs_natCast, hvalue]
  · rintro rfl
    exact integer?_signedDigits c

/-- A word is in range if its integer is; a plus sign would be allowed as well. -/
theorem signed?_eq_some_iff (hplus : w.head? ≠ some 43) (hbound : 0 < bound) :
    signed? bound w = some c ↔ integer? w = some c ∧ -(bound : Int) ≤ c ∧ c < bound := by
  rw [signed?, integer?]
  split
  · cases natural? w.tail with
    | none => simp
    | some n =>
        simp only [Option.bind_eq_bind, Option.bind_some, Option.map_some, Option.some_inj,
          Int.ofNat_eq_natCast]
        split
        · simp only [Option.some_inj]
          omega
        · simp only [reduceCtorEq, false_iff]
          omega
  · rw [unsigned?, if_neg hplus]
    cases natural? w with
    | none => simp
    | some n =>
        simp only [Option.bind_eq_bind, Option.bind_some, Option.map_some, Option.some_inj,
          Int.ofNat_eq_natCast]
        split
        · simp only [Option.map_some, Option.some_inj, Int.ofNat_eq_natCast]
          omega
        · simp only [Option.map_none, reduceCtorEq, false_iff]
          omega

theorem IsPlain.head?_ne (hw : IsPlain w) (hb : isDigit b = false) (hminus : b ≠ 45) :
    w.head? ≠ some b := by
  obtain ⟨ds, rfl | rfl, -, hdigits, -⟩ := hw.exists_digits
  · exact head?_ne_of_isDigit hdigits hb
  · rw [List.head?_cons, Ne, Option.some_inj]
    exact fun h => hminus h.symm

/-- A plain word may go on with any digit. -/
theorem IsPlain.append_digit (hw : IsPlain w) (hb : isDigit b = true) : IsPlain (w ++ [b]) := by
  obtain ⟨ds, hds, hne, hdigits, hzero⟩ := hw.exists_digits
  refine ⟨ds ++ [b], ?_, by simp, ?_, ?_⟩
  · rcases hds with rfl | rfl
    · exact .inl rfl
    · exact .inr rfl
  · simpa [or_imp, forall_and, hb] using hdigits
  · obtain ⟨d, ds, rfl⟩ := List.exists_cons_of_ne_nil hne
    exact hzero

theorem IsPlain.head?_ne_zero (hw : IsPlain w) : w.head? ≠ some 48 := by
  obtain ⟨ds, rfl | rfl, -, -, hzero⟩ := hw.exists_digits
  · exact hzero
  · simp

theorem IsPlain.ne_zero (hw : IsPlain w) (h : w = signedDigits c) : c ≠ 0 := by
  rintro rfl
  rw [signedDigits_zero] at h
  exact hw.head?_ne_zero (congrArg List.head? h)

end ModelFinder.Decimal
