/-!
# Classes of characters

A class of characters holds the ranges of their code points, in ascending order.  The order is part
of the type, so that `contains` may stop at the first range beyond a character.
-/

namespace ModelFinder.Casing

/-- The code points from a first to a last one. -/
structure CodeRange where
  first : Nat
  last : Nat

namespace CodeRange

/-- Whether ranges are in ascending order, without overlap, and start at a code point or later. -/
def ascendingFrom : Nat → List CodeRange → Bool
  | _, [] => true
  | low, r :: rs => low ≤ r.first && r.first ≤ r.last && ascendingFrom (r.last + 1) rs

/-- Whether one of some ascending ranges holds a code point. -/
def anyHolds : List CodeRange → Nat → Bool
  | [], _ => false
  | r :: rs, n => if n < r.first then false else n ≤ r.last || anyHolds rs n

end CodeRange

/-- A class of characters. -/
structure CharClass where
  ranges : List CodeRange
  ascending : CodeRange.ascendingFrom 0 ranges = true

namespace CharClass

/-- Whether a character belongs to a class. -/
def contains (cl : CharClass) (c : Char) : Bool := CodeRange.anyHolds cl.ranges c.toNat

end CharClass

end ModelFinder.Casing
