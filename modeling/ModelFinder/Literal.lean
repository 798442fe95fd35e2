/-!
# Variables and literals

A `Variable` is a number from 1 to `Variable.maxIndex`; a `Literal` is a variable with a sign.
Written as an integer code, a positive literal is the number of its variable and a negative one is
minus that number (`Literal.toDimacs`), so that every code but 0 and those out of range names
exactly one literal (`Literal.ofDimacs?_eq_some_iff`).

Two orders are in use.  Literals compare by their code; inside a clause they are arranged by their
`Literal.rank`, that is by variable, the negative literal before the positive one.
-/

namespace ModelFinder

/-- A boolean variable, numbered from 1; its negative has to fit a signed 32-bit code. -/
structure Variable where
  index : Nat
  one_le : 1 ≤ index
  le_max : index ≤ 2147483647
deriving DecidableEq

namespace Variable

/-- The largest variable. -/
def maxIndex : Nat := 2147483647

/-- The variable with the given number, if there is one. -/
def ofIndex? (n : Nat) : Option Variable :=
  if h : 1 ≤ n ∧ n ≤ maxIndex then some ⟨n, h.1, h.2⟩ else none

/-- The position of the variable in a table which starts with variable 1. -/
def slot (v : Variable) : Nat := v.index - 1

/-- The variable at a position of a table which starts with variable 1. -/
def ofSlot? (n : Nat) : Option Variable := ofIndex? (n + 1)

theorem ext_index {v w : Variable} (h : v.index = w.index) : v = w := by
  cases v; cases w; cases h; rfl

@[simp] theorem ofIndex?_index (v : Variable) : ofIndex? v.index = some v :=
  dif_pos ⟨v.one_le, v.le_max⟩

theorem ofIndex?_of_le {n : Nat} (h : 1 ≤ n) (h' : n ≤ maxIndex) :
    ofIndex? n = some ⟨n, h, h'⟩ := dif_pos ⟨h, h'⟩

theorem ofIndex?_eq_some_iff {n : Nat} {v : Variable} : ofIndex? n = some v ↔ v.index = n := by
  constructor
  · intro h
    unfold ofIndex? at h
    split at h
    · cases h; rfl
    · cases h
  · rintro rfl; exact ofIndex?_index v

@[simp] theorem ofSlot?_slot (v : Variable) : ofSlot? v.slot = some v := by
  have := v.one_le
  rw [ofSlot?, ofIndex?_eq_some_iff, slot]; omega

/-- Variables are written with a leading `x`. -/
def text (v : Variable) : String := s!"x{v.index}"

end Variable

/-- A variable or its negation. -/
structure Literal where
  var : Variable
  positive : Bool
deriving DecidableEq

namespace Literal

/-- The opposite literal of the same variable. -/
def neg (l : Literal) : Literal := ⟨l.var, !l.positive⟩

instance : Neg Literal := ⟨neg⟩

@[simp] theorem neg_var (l : Literal) : (-l).var = l.var := rfl

@[simp] theorem neg_positive (l : Literal) : (-l).positive = !l.positive := rfl

@[simp] theorem neg_neg (l : Literal) : - -l = l := by
  cases l; simp [Neg.neg, neg]

/-- The signed number of a literal. -/
def toDimacs (l : Literal) : Int :=
  if l.positive then l.var.index else -(l.var.index : Int)

/-- The literal with the given code; there is none for 0 and for codes out of range. -/
def ofDimacs? (code : Int) : Option Literal :=
  (Variable.ofIndex? code.natAbs).map fun v => ⟨v, decide (0 < code)⟩

@[simp] theorem ofDimacs?_toDimacs (l : Literal) : ofDimacs? l.toDimacs = some l := by
  obtain ⟨v, s⟩ := l
  have := v.one_le
  cases s with
  | false =>
      simp [ofDimacs?, toDimacs]
  | true =>
      have hpos : 0 < v.index := by omega
      simp [ofDimacs?, toDimacs, hpos]

theorem ofDimacs?_eq_some_iff {code : Int} {l : Literal} :
    ofDimacs? code = some l ↔ l.toDimacs = code := by
  constructor
  · intro h
    obtain ⟨v, hv, rfl⟩ := Option.map_eq_some_iff.mp h
    rw [Variable.ofIndex?_eq_some_iff] at hv
    have := v.one_le
    unfold toDimacs
    by_cases hc : 0 < code
    · simp only [hc, decide_true, if_true]; omega
    · simp only [hc, decide_false, Bool.false_eq_true, if_false]; omega
  · rintro rfl; exact ofDimacs?_toDimacs l

/-- Literals compare by their code. -/
instance : Ord Literal := ⟨fun l k => compare l.toDimacs k.toDimacs⟩

/-- The place of a literal in the arrangement of a clause: by variable, negative before positive. -/
def rank (l : Literal) : Nat := 2 * l.var.index + l.positive.toNat

theorem rank_injective {l k : Literal} (h : l.rank = k.rank) : l = k := by
  obtain ⟨v, s⟩ := l
  obtain ⟨w, t⟩ := k
  have hs := Bool.toNat_le s
  have ht := Bool.toNat_le t
  simp only [rank] at h
  obtain rfl : v = w := Variable.ext_index (by omega)
  have hst : s.toNat = t.toNat := by omega
  cases s <;> cases t <;> simp_all

/-- Literals are written as their code. -/
def text (l : Literal) : String := toString l.toDimacs

/-- The codes of a list of literals, separated by blanks. -/
def joined (ls : List Literal) : String := " ".intercalate (ls.map text)

end Literal

end ModelFinder
