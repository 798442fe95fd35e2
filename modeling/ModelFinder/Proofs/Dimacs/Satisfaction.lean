import ModelFinder.Dimacs.Encoding
import ModelFinder.Proofs.Literal
import ModelFinder.Proofs.Satisfaction

/-!
# Satisfaction of an instance

The clauses of a DIMACS instance are lists of codes, and values for the numbers of variables make a
code true or false (`Values.Makes`).  Values of numbers and valuations of variables say the same
about literals and their codes (`Values.satisfies_valuation_iff`, `Values.exists_valuation_eq`).

What the solver answers is a list of literals, which has to name every variable once and to make a
literal of each clause true (`AnnotatedCnf.IsSolvedBy`).
-/

namespace ModelFinder

namespace Dimacs

/-- A value for the number of every variable. -/
abbrev Values := Nat → Bool

namespace Values

variable {β : Values}

/-- The values make the literal with this code true. -/
def Makes (β : Values) (code : Int) : Prop := β code.natAbs = decide (0 < code)

/-- The values make one of the codes true. -/
def Satisfies (β : Values) (codes : List Int) : Prop := ∃ code ∈ codes, β.Makes code

/-- The values as a valuation. -/
def valuation (β : Values) : Valuation := fun v => β v.index

/-- Every valuation is that of some values. -/
theorem exists_valuation_eq (f : Valuation) : ∃ β : Values, β.valuation = f := by
  refine ⟨fun n => ((Variable.ofIndex? n).map f).getD false, funext fun v => ?_⟩
  simp [valuation]

theorem makes_toDimacs_iff {l : Literal} : β.Makes l.toDimacs ↔ β.valuation.Makes l := by
  unfold Makes
  rw [l.natAbs_toDimacs, l.decide_toDimacs_pos]
  exact Iff.rfl

theorem satisfies_valuation_iff {ls : List Literal} :
    β.valuation.Satisfies ls ↔ β.Satisfies (ls.map (·.toDimacs)) := by
  unfold Satisfies
  constructor
  · rintro ⟨l, hl, hf⟩
    exact ⟨l.toDimacs, List.mem_map_of_mem hl, makes_toDimacs_iff.mpr hf⟩
  · rintro ⟨code, hcode, hf⟩
    obtain ⟨l, hl, rfl⟩ := List.mem_map.mp hcode
    exact ⟨l, hl, makes_toDimacs_iff.mp hf⟩

end Values

namespace AnnotatedCnf

/-- Some values satisfy every clause. -/
def Satisfiable (content : AnnotatedCnf) : Prop :=
  ∃ β : Values, ∀ codes ∈ content.clauses, β.Satisfies codes

/-- Some values satisfy the clauses at these positions. -/
def SatisfiableAt (content : AnnotatedCnf) (positions : List Nat) : Prop :=
  ∃ β : Values, ∀ i ∈ positions, ∀ codes, content.clauses[i]? = some codes → β.Satisfies codes

/-- No clause mentions a variable that is not declared. -/
def InRange (content : AnnotatedCnf) : Prop :=
  ∀ codes ∈ content.clauses, ∀ code ∈ codes, code.natAbs ≤ content.numVariables

/-- The literals are one for each variable, in order, and make a literal of every clause true. -/
structure IsSolvedBy (content : AnnotatedCnf) (model : List Literal) : Prop where
  variables_eq : model.map (·.var.index) = List.range' 1 content.numVariables
  satisfies : ∀ codes ∈ content.clauses, ∃ l ∈ model, l.toDimacs ∈ codes

end AnnotatedCnf

namespace Encoding

/-- A list of codes has literals exactly if each code has one. -/
theorem literals_eq_ok {codes : List Int} {ls : List Literal} :
    literals codes = .ok ls ↔ ls.map (·.toDimacs) = codes := by
  have hsome : literals codes = .ok ls ↔ codes.map Literal.ofDimacs? = ls.map some :=
    mapM_eq_ok_iff_map_some fun code l => by cases Literal.ofDimacs? code <;> simp
  rw [hsome, Literal.map_ofDimacs?_eq_iff]

end Encoding

end Dimacs

end ModelFinder
