import ModelFinder.Arranged
import ModelFinder.Literal

/-!
# Clauses in normal form

A `Clause` lists its literals once each and in the order of their rank, so that it is determined
by its members (`Clause.ext_mem`).  `Clause.ofList` arranges any list of literals
(`Clause.mem_ofList`), and `Clause.resolve` is the resolution of two clauses on a literal
(`Clause.mem_resolve`).
-/

namespace ModelFinder

/-- A disjunction of literals, without repetitions and arranged by rank. -/
structure Clause where
  literals : List Literal
  sorted : literals.Pairwise (·.rank < ·.rank)
deriving DecidableEq

namespace Clause

instance : Membership Literal Clause := ⟨fun c l => l ∈ c.literals⟩

instance (l : Literal) (c : Clause) : Decidable (l ∈ c) :=
  inferInstanceAs (Decidable (l ∈ c.literals))

theorem mem_def {l : Literal} {c : Clause} : l ∈ c ↔ l ∈ c.literals := Iff.rfl

/-- The clause which holds the given literals. -/
def ofList (ls : List Literal) : Clause :=
  ⟨ls.foldr (Arranged.place Literal.rank) [], Arranged.foldr_place_arranged ls⟩

@[simp] theorem mem_ofList {x : Literal} {ls : List Literal} : x ∈ ofList ls ↔ x ∈ ls :=
  Arranged.mem_foldr_place Literal.rank_injective

/-- Two clauses with the same members are the same clause. -/
theorem ext_mem {c d : Clause} (h : ∀ x, x ∈ c ↔ x ∈ d) : c = d := by
  obtain ⟨cs, hc⟩ := c
  obtain ⟨ds, hd⟩ := d
  obtain rfl : cs = ds := Arranged.eq_of_mem_iff hc hd h
  rfl

/-! ### Queries -/

/-- The clause without literals, which nothing satisfies. -/
def empty : Clause := ⟨[], .nil⟩

/-- Whether the clause has no literals. -/
def isEmpty (c : Clause) : Bool := c.literals.isEmpty

/-- The number of literals. -/
def size (c : Clause) : Nat := c.literals.length

/-- Whether the literal is one of the clause. -/
def contains (c : Clause) (l : Literal) : Bool :=
  Arranged.search Literal.rank l.rank c.literals.length c.literals

/-- Whether the clause has the given literals and no others, however they are listed. -/
def hasLiterals (c : Clause) (ls : List Literal) : Bool :=
  decide (c.literals = (ofList ls).literals)

/-- The largest variable of the clause; the empty clause has none. -/
def maxVariable? (c : Clause) : Option Variable := c.literals.getLast?.map (·.var)

/-- Whether the clause holds a literal together with its negation. -/
def isTautology (c : Clause) : Bool := c.literals.any fun l => c.contains (-l)

/-! ### Resolution -/

/-- The literals of both clauses, but for the pivot: `-p` is dropped from `c` and `p` from `d`. -/
def resolve (c d : Clause) (p : Literal) : Clause :=
  ofList (c.literals.filter (· ≠ -p) ++ d.literals.filter (· ≠ p))

theorem mem_resolve {x p : Literal} {c d : Clause} :
    x ∈ c.resolve d p ↔ (x ∈ c ∧ x ≠ -p) ∨ (x ∈ d ∧ x ≠ p) := by
  rw [resolve, mem_ofList]
  simp [mem_def]

end Clause

end ModelFinder
