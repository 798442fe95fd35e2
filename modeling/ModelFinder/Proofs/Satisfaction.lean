import ModelFinder.Cnf

/-!
# Satisfaction

A `Valuation` gives a value to every variable, and satisfies a clause when it makes one of its
literals true.  A problem is satisfiable when some valuation satisfies all of its clauses
(`Cnf.Satisfiable`).  An `Assignment` has values for the first variables only; what it satisfies is
satisfied by every valuation which extends it (`Assignment.makes_valuation`), and the clauses of a
problem mention no variable past its number of variables (`Cnf.index_le_numVariables`).

* `Valuation.satisfies_ofList`: arranging the literals of a clause does not change its meaning.
* `Valuation.satisfies_resolve`: what satisfies two clauses satisfies their resolvent.
-/

namespace ModelFinder

/-- A value for every variable. -/
abbrev Valuation := Variable → Bool

namespace Valuation

/-- The valuation makes the literal true. -/
def Makes (f : Valuation) (l : Literal) : Prop := f l.var = l.positive

/-- The valuation makes one of the literals true. -/
def Satisfies (f : Valuation) (ls : List Literal) : Prop := ∃ l ∈ ls, f.Makes l

/-- The valuation satisfies every clause. -/
def Models (f : Valuation) (cs : List (List Literal)) : Prop := ∀ ls ∈ cs, f.Satisfies ls

theorem makes_neg {f : Valuation} {l : Literal} : f.Makes (-l) ↔ ¬ f.Makes l := by
  simp only [Makes, Literal.neg_var, Literal.neg_positive]
  cases f l.var <;> cases l.positive <;> simp

theorem not_satisfies_nil {f : Valuation} : ¬ f.Satisfies [] := by
  rintro ⟨l, hl, -⟩
  exact absurd hl List.not_mem_nil

theorem Satisfies.mono {f : Valuation} {ls ks : List Literal} (h : f.Satisfies ls)
    (hsub : ∀ l ∈ ls, l ∈ ks) : f.Satisfies ks := by
  obtain ⟨l, hl, hf⟩ := h
  exact ⟨l, hsub l hl, hf⟩

theorem satisfies_ofList {f : Valuation} {ls : List Literal} :
    f.Satisfies (Clause.ofList ls).literals ↔ f.Satisfies ls :=
  ⟨fun h => h.mono fun _ => Clause.mem_ofList.mp, fun h => h.mono fun _ => Clause.mem_ofList.mpr⟩

/-- **Resolution is sound.**  What satisfies two clauses satisfies their resolvent on a literal. -/
theorem satisfies_resolve {f : Valuation} {c d : Clause} (p : Literal)
    (hc : f.Satisfies c.literals) (hd : f.Satisfies d.literals) :
    f.Satisfies (c.resolve d p).literals := by
  by_cases hp : f.Makes p
  · obtain ⟨l, hl, hf⟩ := hc
    refine ⟨l, Clause.mem_resolve.mpr (.inl ⟨hl, ?_⟩), hf⟩
    rintro rfl
    exact makes_neg.mp hf hp
  · obtain ⟨l, hl, hf⟩ := hd
    refine ⟨l, Clause.mem_resolve.mpr (.inr ⟨hl, ?_⟩), hf⟩
    rintro rfl
    exact hp hf

end Valuation

/-! ### Clauses -/

namespace Clause

theorem mem_literals {l : Literal} {c : Clause} : l ∈ c.literals ↔ l ∈ c := Iff.rfl

theorem contains_iff {l : Literal} {c : Clause} : c.contains l = true ↔ l ∈ c := by
  rw [contains, Arranged.search_eq_true_iff c.sorted (Nat.le_refl _)]
  constructor
  · rintro ⟨k, hk, hrank⟩
    exact Literal.rank_injective hrank ▸ hk
  · exact fun hl => ⟨l, hl, rfl⟩

theorem isEmpty_iff {c : Clause} : c.isEmpty = true ↔ c = empty := by
  rw [isEmpty, List.isEmpty_iff]
  exact ⟨fun h => ext_mem fun x => by rw [mem_def, h]; exact Iff.rfl, fun h => h ▸ rfl⟩

/-- No literal is listed twice. -/
theorem nodup_literals (c : Clause) : c.literals.Nodup :=
  c.sorted.imp fun {_ _} h e => absurd h (by rw [e]; exact Nat.lt_irrefl _)

theorem ofList_literals (c : Clause) : ofList c.literals = c := ext_mem fun _ => mem_ofList

theorem hasLiterals_iff {c : Clause} {ls : List Literal} :
    c.hasLiterals ls = true ↔ c = ofList ls := by
  rw [hasLiterals, decide_eq_true_iff]
  exact ⟨fun h => ext_mem fun x => by rw [mem_def, h]; exact Iff.rfl, fun h => congrArg _ h⟩

theorem hasLiterals_literals_iff {c d : Clause} : c.hasLiterals d.literals = true ↔ c = d := by
  rw [hasLiterals_iff, ofList_literals]

theorem ofList_eq_empty {ls : List Literal} : ofList ls = empty ↔ ls = [] := by
  constructor
  · intro h
    refine List.eq_nil_iff_forall_not_mem.mpr fun l hl => ?_
    exact absurd (h ▸ mem_ofList.mpr hl : l ∈ empty) List.not_mem_nil
  · rintro rfl; rfl

end Clause

/-! ### Problems -/

namespace Cnf

/-- Some valuation satisfies every clause. -/
def Satisfiable (cnf : Cnf) : Prop := ∃ f : Valuation, f.Models cnf.clauses

/-- The largest size in a list is at least the one it starts from and at least every other. -/
theorem le_foldl_max {α : Type} (size : α → Nat) (as : List α) (n : Nat) :
    n ≤ as.foldl (fun n a => max n (size a)) n ∧
      ∀ a ∈ as, size a ≤ as.foldl (fun n a => max n (size a)) n := by
  induction as generalizing n with
  | nil => exact ⟨Nat.le_refl n, fun a ha => absurd ha List.not_mem_nil⟩
  | cons b as ih =>
      obtain ⟨hn, has⟩ := ih (max n (size b))
      refine ⟨Nat.le_trans (Nat.le_max_left n (size b)) hn, fun a ha => ?_⟩
      rcases List.mem_cons.mp ha with rfl | ha
      · exact Nat.le_trans (Nat.le_max_right n (size a)) hn
      · exact has a ha

/-- A clause mentions only variables which are counted. -/
theorem index_le_numVariables {cnf : Cnf} {ls : List Literal} (hls : ls ∈ cnf.clauses)
    {l : Literal} (hl : l ∈ ls) : l.var.index ≤ cnf.numVariables :=
  Nat.le_trans ((le_foldl_max (fun l : Literal => l.var.index) ls 0).2 l hl)
    ((le_foldl_max largestIn cnf.clauses cnf.declared).2 ls hls)

end Cnf

namespace Assignment

/-- The valuation which extends an assignment by false. -/
def valuation (a : Assignment) : Valuation := fun v => (a.value? v).getD false

theorem makes_valuation {a : Assignment} {l : Literal} (h : a.satisfies l = true) :
    a.valuation.Makes l := by
  have hv : a.value? l.var = some l.positive := by simpa [satisfies] using h
  show (a.value? l.var).getD false = l.positive
  rw [hv, Option.getD_some]

/-- An assignment that makes a literal of every clause true comes from a model of the clauses. -/
theorem models_valuation {a : Assignment} {cs : List (List Literal)}
    (h : ∀ ls ∈ cs, ∃ l ∈ ls, a.satisfies l = true) : a.valuation.Models cs := fun ls hls =>
  let ⟨l, hl, ha⟩ := h ls hls
  ⟨l, hl, makes_valuation ha⟩

end Assignment

end ModelFinder
