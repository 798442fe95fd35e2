/-!
# Decimal numbers as bytes

Both text formats of the library write numbers in decimal ASCII digits.  `Decimal.digits` writes a
number without leading zeros and `Decimal.value` reads digits back (`Decimal.value_digits`);
`Decimal.unsigned?` and `Decimal.signed?` read a whole word with an optional sign and a range.
-/

namespace ModelFinder

namespace Decimal

/-- Whether the byte is one of the digits 0 to 9. -/
def isDigit (b : UInt8) : Bool := 48 ≤ b && b ≤ 57

/-- The number a digit stands for. -/
def digitValue (b : UInt8) : Nat := b.toNat - 48

/-- The digit for a number below 10. -/
def digit (n : Nat) : UInt8 := UInt8.ofNat (48 + n)

/-- The digits of a number, the most significant first. -/
def digits (n : Nat) : List UInt8 :=
  if n < 10 then [digit n] else digits (n / 10) ++ [digit (n % 10)]
termination_by n

/-- The digits of an integer, after a minus sign if it is negative. -/
def signedDigits (n : Int) : List UInt8 :=
  if n < 0 then 45 :: digits n.natAbs else digits n.natAbs

/-- The number a list of digits stands for. -/
def value (ds : List UInt8) : Nat := ds.foldl (fun n b => 10 * n + digitValue b) 0

theorem digitValue_digit {n : Nat} (h : n < 10) : digitValue (digit n) = n :=
  (by decide : ∀ m : Fin 10, digitValue (digit m) = m) ⟨n, h⟩

theorem isDigit_digit {n : Nat} (h : n < 10) : isDigit (digit n) = true :=
  (by decide : ∀ m : Fin 10, isDigit (digit m) = true) ⟨n, h⟩

theorem isDigit_of_mem_digits {n : Nat} : ∀ b ∈ digits n, isDigit b = true := by
  fun_induction digits n with
  | case1 n h => simpa using isDigit_digit h
  | case2 n h ih =>
      intro b hb
      rcases List.mem_append.mp hb with hb | hb
      · exact ih b hb
      · rw [List.mem_singleton.mp hb]
        exact isDigit_digit (Nat.mod_lt _ (by omega))

@[simp] theorem value_digits (n : Nat) : value (digits n) = n := by
  fun_induction digits n with
  | case1 n h => simpa [value] using digitValue_digit h
  | case2 n h ih =>
      have hd := digitValue_digit (Nat.mod_lt n (show 10 > 0 by omega))
      simp only [value, List.foldl_append, List.foldl_cons, List.foldl_nil] at ih ⊢
      rw [ih, hd]
      omega

/-! ### Ranges -/

/-- Unsigned numbers of 32 bits are below this bound. -/
def word32 : Nat := 4294967296

/-- Unsigned numbers of 64 bits are below this bound. -/
def word64 : Nat := 18446744073709551616

/-- Signed numbers of 32 bits go from minus this bound up to one less than it. -/
def half32 : Nat := 2147483648

/-- Signed numbers of 64 bits go from minus this bound up to one less than it. -/
def half64 : Nat := 9223372036854775808

/-! ### Whole words -/

/-- The number a word of digits stands for; the empty word is refused, and so is any other byte. -/
def natural? (word : List UInt8) : Option Nat :=
  if !word.isEmpty && word.all isDigit then some (value word) else none

/-- A word of digits, after an optional plus sign, for a number below `bound`. -/
def unsigned? (bound : Nat) (word : List UInt8) : Option Nat := do
  let n ← natural? (if word.head? = some 43 then word.tail else word)
  if n < bound then some n else none

/-- A word of digits, after an optional sign, for a number from `-bound` up to `bound - 1`. -/
def signed? (bound : Nat) (word : List UInt8) : Option Int :=
  if word.head? = some 45 then do
    let n ← natural? word.tail
    if n ≤ bound then some (-(n : Int)) else none
  else (unsigned? bound word).map Int.ofNat

end Decimal

end ModelFinder
