import ModelFinder.Proofs.Prover.Answer
import ModelFinder.Proofs.Reduction.Candidate
import ModelFinder.Proofs.Trace.Splice

/-!
# What a reduction keeps

A variable is defined by the clauses whose largest variable it is, and the definition of a root
involves the root and all variables in the definitions of variables that it involves
(`Setting.Involves`).

A reduction goes from one refutation of a problem to another.  All of them are proofs from clauses
of the problem, and they have the definition of every variable that the roots asserted by the core
involve (`Reduction.Invariant`).

A root is necessary when something satisfies all that the other roots asserted by the core involve
(`Reduction.Necessary`).  Every root which has been tried is necessary or not asserted any more
(`Reduction.Tried`):

* `tried_of_satisfiable`: the values that satisfy a candidate make the root that was dropped
  necessary.
* `Replaces.invariant`, `Replaces.tried`: a refutation of a candidate asserts no further roots, so
  what was necessary stays so.
* `tried_of_spent`: when the pool is spent, all roots that the core asserts are necessary.
-/

namespace ModelFinder.Reduction

/-- The problem that is refuted: its clauses, and the roots of its top-level constraints. -/
structure Setting where
  clauses : List Clause
  roots : List Variable

/-- The roots, and the variables in the definition of every variable they involve. -/
inductive Setting.Involves (P : Setting) (R : Variable → Prop) : Variable → Prop
  | root {v : Variable} (root : R v) : Involves P R v
  | clause {v : Variable} {c : Clause} {l : Literal} (involved : Involves P R v)
      (given : c ∈ P.clauses) (largest : c.maxVariable? = some v) (mem : l ∈ c) :
      Involves P R l.var

/-- A root occurs in a clause only as its largest variable. -/
def Setting.RootsLargest (P : Setting) : Prop :=
  ∀ v ∈ P.roots, ∀ c ∈ P.clauses, ∀ l ∈ c, l.var = v → c.maxVariable? = some v

/-- A root whose variable is among some units. -/
def Setting.Asserted (P : Setting) (units : VariableSet) (v : Variable) : Prop :=
  v ∈ P.roots ∧ v.index ∈ units

/-- What a reduction keeps of the refutation. -/
structure Invariant (P : Setting) (t : Trace) : Prop where
  wellFormed : t.WellFormed
  isProof : t.IsProof
  endsEmpty : t.EndsEmpty
  given : ∀ c ∈ t.inputs, c.clause ∈ P.clauses
  complete : ∀ v, P.Involves (P.Asserted t.coreUnits) v → ∀ c ∈ P.clauses,
    c.maxVariable? = some v → ∃ d ∈ t.inputs, d.clause = c
  eq_terminal : (∃ n, n ∈ t.coreUnits) → ∀ ⦃i c⦄, t.get? i = some c → c.clause = .empty →
    i = t.terminal

/-- Something satisfies the definitions of all that the other roots among some units involve. -/
def Necessary (P : Setting) (units : VariableSet) (u : Variable) : Prop :=
  ∃ f : Valuation, ∀ w, P.Involves (fun r => P.Asserted units r ∧ r ≠ u) w →
    ∀ c ∈ P.clauses, c.maxVariable? = some w → f.Satisfies c.literals

/-- Every root that the core asserts is still to be tried or is necessary. -/
def Tried (P : Setting) (t : Trace) (pool : List Variable) : Prop :=
  ∀ u ∈ P.roots, u.index ∈ t.coreUnits → u ∈ pool ∨ Necessary P t.coreUnits u

theorem Setting.Involves.mono {P : Setting} {R R' : Variable → Prop} {w : Variable}
    (h : P.Involves R w) (hR : ∀ v, R v → R' v) : P.Involves R' w := by
  induction h with
  | root hr => exact .root (hR _ hr)
  | clause _ given largest mem ih => exact .clause ih given largest mem

/-- Nothing is involved if there is no root. -/
theorem Setting.Involves.exists_root {P : Setting} {R : Variable → Prop} {w : Variable}
    (h : P.Involves R w) : ∃ v, R v := by
  induction h with
  | root hr => exact ⟨_, hr⟩
  | clause _ _ _ _ ih => exact ih

theorem Necessary.mono {P : Setting} {units units' : VariableSet} {u : Variable}
    (h : Necessary P units u) (hsub : ∀ w, P.Asserted units' w → P.Asserted units w) :
    Necessary P units' u := by
  obtain ⟨f, hf⟩ := h
  exact ⟨f, fun w hw => hf w (hw.mono fun r hr => ⟨hsub r hr.1, hr.2⟩)⟩

section Steps

variable {P : Setting} {t t' : Trace} {pool rest : List Variable} {v : Variable}
  {candidate : ClauseSet}

/-- Roots that are the largest variables of their clauses are so in all that is given by them. -/
theorem Setting.RootsLargest.largestOnly (h : P.RootsLargest)
    (hgiven : ∀ c ∈ t.inputs, c.clause ∈ P.clauses) (hv : v ∈ P.roots) :
    t.LargestOnly v.index := by
  intro c hc hn
  obtain ⟨l, hl, hlv⟩ := List.mem_map.mp hn
  have hvar : l.var = v := Variable.ext_index hlv
  exact ⟨v, h v hv c.clause (hgiven c hc) l hl hvar, rfl⟩

theorem Invariant.largestOnly (h : Invariant P t) (hroots : P.RootsLargest) (hv : v ∈ P.roots) :
    t.LargestOnly v.index := hroots.largestOnly h.given hv

theorem Invariant.isRefutation (h : Invariant P t) : t.IsRefutation :=
  ⟨h.wellFormed, h.isProof.isSound, h.endsEmpty⟩

/-- What has a refutation has no model. -/
theorem Invariant.not_satisfies (h : Invariant P t) (f : Valuation) :
    ¬ ∀ c ∈ P.clauses, f.Satisfies c.literals := fun hf =>
  h.isRefutation.not_forall_inputs f fun c hc => hf _ (h.given c hc)

/-- The first refutation of a problem. -/
theorem invariant_of_refutes {cs : List (List Literal)} {roots : List Variable}
    (h : Prover.Refutes cs t) : Invariant ⟨cs.map .ofList, roots⟩ t := by
  have hunits : [] ∈ cs → ∀ n, n ∉ t.coreUnits := by
    intro hmem n hn
    obtain ⟨i, hi, c, v, hc, hsize, -⟩ := Trace.mem_coreUnits.mp hn
    obtain ⟨d, hd, hempty⟩ := h.core_empty hmem i hi
    obtain rfl := Option.some.inj (hc.symm.trans hd)
    rw [hempty] at hsize
    cases hsize
  have hno : ∀ {n}, n ∈ t.coreUnits → [] ∉ cs := fun hn hmem => hunits hmem _ hn
  refine ⟨h.wellFormed, h.isProof, h.endsEmpty, fun c hc => ?_, fun v hv c hc _ => ?_,
    fun ⟨n, hn⟩ => h.eq_terminal (hno hn)⟩
  · have hmem : c.clause ∈ t.inputs.map (·.clause) := List.mem_map_of_mem hc
    rw [h.inputs_eq] at hmem
    obtain ⟨ls, hls, he⟩ := List.mem_map.mp hmem
    exact List.mem_map.mpr ⟨ls, (Prover.throughEmpty_initial cs).mem hls, he⟩
  · obtain ⟨r, -, hr⟩ := hv.exists_root
    have hmem : c ∈ t.inputs.map (·.clause) := by
      rw [h.inputs_eq, Prover.throughEmpty_of_not_mem (hno hr)]
      exact hc
    exact List.mem_map.mp hmem

/-- Nothing has been tried in the beginning. -/
theorem tried_roots (P : Setting) (t : Trace) : Tried P t P.roots := fun _ hu _ => .inl hu

/-- When the pool is spent, every root that is asserted is necessary. -/
theorem tried_of_spent (h : Tried P t pool) (hspent : RootPool.Spent pool t.coreUnits) :
    Tried P t [] := by
  intro u hu hunit
  rcases h u hu hunit with hpool | hnec
  · rcases hspent with hnone | ⟨v, -, honly⟩
    · exact absurd hunit (hnone u hpool)
    · -- the root is the only variable that is asserted, so there are no definitions to satisfy
      refine .inr ⟨fun _ => false, fun w hw => ?_⟩
      obtain ⟨r, ⟨-, hr⟩, hne⟩ := hw.exists_root
      exact absurd (Variable.ext_index ((honly _ hr).trans (honly _ hunit).symm)) hne
  · exact .inr hnec

/-! ### A candidate -/

/-- A candidate which was learned from the encoding of all units but one. -/
structure Dropping (t : Trace) (v : Variable) (candidate : ClauseSet) : Prop where
  learns : t.Learns (t.axiomsFor (t.coreUnits.remove v.index)) candidate
  lt_terminal : ∀ i ∈ candidate, i < t.terminal

theorem Dropping.closed (h : Dropping t v candidate) (ht : t.WellFormed) :
    t.Closed (· ∈ candidate) :=
  h.learns.closed (Trace.closed_of_lt_numAxioms ht fun _ => Trace.lt_of_mem_axiomsFor ht)

theorem Dropping.lt_size (h : Dropping t v candidate) : ∀ i ∈ candidate, i < t.size := by
  intro i hi
  have hlt : i < t.size - 1 := h.lt_terminal i hi
  omega

/-- What asserted roots involve is in their encoding, as all of its clauses are there. -/
theorem Invariant.wants_of_involves (hinv : Invariant P t) {R : Variable → Prop}
    {seed : VariableSet} (hR : ∀ r, R r → P.Asserted t.coreUnits r ∧ r.index ∈ seed)
    {w : Variable} (hw : P.Involves R w) : t.Wants seed w.index := by
  induction hw with
  | root hr => exact .seed (hR _ hr).2
  | clause involved given largest mem ih =>
      obtain ⟨d, hd, rfl⟩ := hinv.complete _ (involved.mono fun r hr => (hR r hr).1) _ given largest
      exact .clause ih hd largest (List.mem_map_of_mem mem)

/-- The definitions of all that the other roots involve are in the candidate. -/
theorem Dropping.exists_mem (h : Dropping t v candidate) (hinv : Invariant P t) {w : Variable}
    (hw : P.Involves (fun r => P.Asserted t.coreUnits r ∧ r ≠ v) w) {c : Clause}
    (hc : c ∈ P.clauses) (hmax : c.maxVariable? = some w) :
    ∃ d ∈ t.inputs, d.index ∈ candidate ∧ d.clause = c := by
  obtain ⟨d, hd, rfl⟩ := hinv.complete w (hw.mono fun _ hr => hr.1) c hc hmax
  have hwants : t.Wants (t.coreUnits.remove v.index) w.index :=
    hinv.wants_of_involves (fun r hr => ⟨hr.1, IndexSet.mem_remove.mpr
      ⟨hr.1.2, fun e => hr.2 (Variable.ext_index e)⟩⟩) hw
  refine ⟨d, hd, h.learns.subset _ ?_, rfl⟩
  exact Trace.mem_axiomsFor.mpr ⟨d, w, hd, rfl, hmax, hwants⟩

/-- The root that was dropped is necessary if something satisfies the candidate. -/
theorem tried_of_satisfiable (hinv : Invariant P t) (h : Tried P t pool)
    (hnext : RootPool.Next pool t.coreUnits v rest) (hdrop : Dropping t v candidate)
    {f : Valuation} (hf : ∀ i ∈ candidate, ∀ c, t.get? i = some c → f.Satisfies c.clause.literals) :
    Tried P t rest := by
  intro u hu hunit
  rcases h u hu hunit with hpool | hnec
  · rcases hnext.eq_or_mem u hpool hunit with rfl | hrest
    · refine .inr ⟨f, fun w hw c hc hmax => ?_⟩
      obtain ⟨d, hd, hmem, rfl⟩ := hdrop.exists_mem hinv hw hc hmax
      obtain ⟨i, -, hget⟩ := Trace.mem_inputs_iff.mp hd
      exact hf d.index hmem d (hinv.wellFormed.get?_index hget)
    · exact .inl hrest
  · exact .inr hnec

/-- A refutation that takes the place of another one: its input clauses are those of a candidate. -/
structure Replaces (t : Trace) (candidate : ClauseSet) (t' : Trace) : Prop where
  wellFormed : t'.WellFormed
  isProof : t'.IsProof
  endsEmpty : t'.EndsEmpty
  inputs_iff : ∀ c, (∃ d ∈ t'.inputs, d.clause = c) ↔
    ∃ d ∈ t.inputs, d.index ∈ candidate ∧ d.clause = c
  eq_terminal : ∀ ⦃i c⦄, t'.get? i = some c → c.clause = .empty → i = t'.terminal

/-- The roots that the new refutation asserts are asserted by the old one, and are not the one that
was dropped. -/
theorem Replaces.of_asserted (h : Replaces t candidate t') (hinv : Invariant P t)
    (hroots : P.RootsLargest) (hdrop : Dropping t v candidate) {w : Variable}
    (h' : P.Asserted t'.coreUnits w) : P.Asserted t.coreUnits w ∧ w ≠ v := by
  obtain ⟨hw, hunit⟩ := h'
  obtain ⟨i, hi, c, u, hget, -, hmax, hindex⟩ := Trace.mem_coreUnits.mp hunit
  have hc := Trace.mem_inputs_iff.mpr ⟨i, (Trace.mem_core.mp hi).2, hget⟩
  obtain ⟨d, hd, hmem, he⟩ := (h.inputs_iff c.clause).mp ⟨c, hc, rfl⟩
  obtain ⟨⟨l, hl, hlu⟩, -⟩ := Clause.maxVariable?_eq_some hmax
  have hn : w.index ∈ d.variableNumbers := by
    rw [← hindex, ← hlu]
    exact List.mem_map_of_mem (he ▸ hl)
  obtain ⟨hunit', hne⟩ := IndexSet.mem_remove.mp
    (Strategy.mem_of_learns hinv.wellFormed hdrop.learns hd hmem (hinv.largestOnly hroots hw) hn)
  exact ⟨⟨hw, hunit'⟩, fun e => hne (congrArg Variable.index e)⟩

theorem Replaces.invariant (h : Replaces t candidate t') (hinv : Invariant P t)
    (hroots : P.RootsLargest) (hdrop : Dropping t v candidate) : Invariant P t' := by
  refine ⟨h.wellFormed, h.isProof, h.endsEmpty, fun c hc => ?_, fun w hw c hc hmax => ?_,
    fun _ => h.eq_terminal⟩
  · obtain ⟨d, hd, -, he⟩ := (h.inputs_iff c.clause).mp ⟨c, hc, rfl⟩
    exact he ▸ hinv.given d hd
  · have hw' := hw.mono fun r hr => h.of_asserted hinv hroots hdrop hr
    exact (h.inputs_iff c).mpr (hdrop.exists_mem hinv hw' hc hmax)

theorem Replaces.tried (h : Replaces t candidate t') (hinv : Invariant P t)
    (hroots : P.RootsLargest) (hdrop : Dropping t v candidate) (htried : Tried P t pool)
    (hnext : RootPool.Next pool t.coreUnits v rest) : Tried P t' rest := by
  intro u hu hunit
  obtain ⟨⟨-, hunit'⟩, hne⟩ := h.of_asserted hinv hroots hdrop ⟨hu, hunit⟩
  rcases htried u hu hunit' with hpool | hnec
  · exact .inl ((hnext.eq_or_mem u hpool hunit').resolve_left hne)
  · exact .inr (hnec.mono fun w hw => (h.of_asserted hinv hroots hdrop hw).1)

end Steps

end ModelFinder.Reduction
