import ModelFinder.Proofs.Satisfaction

/-!
# Chains of resolution steps

Two clauses resolve when exactly one literal of the first is negated in the second
(`Clause.resolvent?`).  A chain starts from a clause and resolves it with one clause after the
other (`Clause.chain?`).

* `Clause.resolvent?_eq_some`: clauses which clash in one literal have the resolvent on it.
* `Clause.satisfies_of_chain?`: what satisfies the clauses of a chain satisfies its result.
-/

namespace ModelFinder

namespace Clause

/-- The literals of `c` whose negation is in `d`. -/
def pivots (c d : Clause) : List Literal := c.literals.filter fun l => d.contains (-l)

/-- The resolvent of two clauses that have exactly one pivot. -/
def resolvent? (c d : Clause) : Option Clause :=
  match c.pivots d with
  | [p] => some (c.resolve d (-p))
  | _ => none

/-- Resolves the first clause with the others, one after the other. -/
def chain? : List Clause → Option Clause
  | [] => none
  | c :: cs => cs.foldlM resolvent? c

theorem mem_pivots {l : Literal} {c d : Clause} : l ∈ c.pivots d ↔ l ∈ c ∧ -l ∈ d := by
  rw [pivots, List.mem_filter, contains_iff, mem_literals]

/-- A list without repetitions that has one member only. -/
theorem eq_singleton_of_forall {α : Type} {a : α} {as : List α} (hnodup : as.Nodup) (ha : a ∈ as)
    (h : ∀ b ∈ as, b = a) : as = [a] := by
  match as, hnodup, ha, h with
  | [b], _, _, h => rw [h b List.mem_cons_self]
  | b :: c :: as, hnodup, _, h =>
      have hbc : b = c := (h b (by simp)).trans (h c (by simp)).symm
      simp [hbc] at hnodup

/-- Two clauses that clash in one literal only have the resolvent on it. -/
theorem resolvent?_eq_some {c d : Clause} {p : Literal} (hc : -p ∈ c) (hd : p ∈ d)
    (h : ∀ l ∈ d, -l ∈ c → l = p) : c.resolvent? d = some (c.resolve d p) := by
  have hpivots : c.pivots d = [-p] := by
    refine eq_singleton_of_forall (c.nodup_literals.filter _) ?_ fun l hl => ?_
    · rw [mem_pivots, Literal.neg_neg]
      exact ⟨hc, hd⟩
    · obtain ⟨hlc, hld⟩ := mem_pivots.mp hl
      rw [← h (-l) hld (by rwa [Literal.neg_neg]), Literal.neg_neg]
  rw [resolvent?, hpivots]
  simp only [Literal.neg_neg]

theorem satisfies_of_resolvent? {f : Valuation} {c d e : Clause} (h : c.resolvent? d = some e)
    (hc : f.Satisfies c.literals) (hd : f.Satisfies d.literals) : f.Satisfies e.literals := by
  unfold resolvent? at h
  split at h
  next p _ =>
    cases h
    exact Valuation.satisfies_resolve (-p) hc hd
  next => cases h

theorem satisfies_of_foldlM {f : Valuation} {c e : Clause} {ds : List Clause}
    (h : ds.foldlM resolvent? c = some e) (hc : f.Satisfies c.literals)
    (hds : ∀ d ∈ ds, f.Satisfies d.literals) : f.Satisfies e.literals := by
  induction ds generalizing c with
  | nil => cases h; exact hc
  | cons d ds ih =>
      obtain ⟨r, hr, h⟩ := Option.bind_eq_some_iff.mp h
      refine ih h (satisfies_of_resolvent? hr hc (hds d List.mem_cons_self)) ?_
      exact fun x hx => hds x (List.mem_cons_of_mem d hx)

/-- **Chains are sound.** -/
theorem satisfies_of_chain? {f : Valuation} {e : Clause} {cs : List Clause}
    (h : chain? cs = some e) (hcs : ∀ c ∈ cs, f.Satisfies c.literals) :
    f.Satisfies e.literals := by
  cases cs with
  | nil => cases h
  | cons c cs =>
      exact satisfies_of_foldlM h (hcs c List.mem_cons_self) fun d hd =>
        hcs d (List.mem_cons_of_mem c hd)

end Clause

end ModelFinder
