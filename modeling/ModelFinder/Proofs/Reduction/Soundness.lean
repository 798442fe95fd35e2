import ModelFinder.Proofs.Backend
import ModelFinder.Proofs.Reduction.Rounds
import ModelFinder.Proofs.Trace.Splice

/-!
# Reductions preserve refutations

With a sound back end, whatever sets a strategy proposes and whenever the stop condition triggers,
a reduction goes from one refutation to another whose input clauses are some of those before
(`Trace.Reduces`).  One candidate does, whatever becomes of it (`Continues.reduces`), so any number
of rounds do (`ends_rounds_of_continues`), and with them the whole reduction (`minimiseCore_sound`).

What a reduction starts from need not be a refutation.  Whatever it is, its input clauses are those
of the problem in the end if they were so before (`Continues.isFrom`).
-/

namespace ModelFinder

/-- A refutation whose input clauses are some of those of `t`, in the same order. -/
structure Trace.Reduces (t t' : Trace) : Prop where
  isRefutation : t'.IsRefutation
  sublist : (t'.inputs.map (·.clause)).Sublist (t.inputs.map (·.clause))

namespace Trace.Reduces

variable {t t₁ t' : Trace}

theorem refl (h : t.IsRefutation) : t.Reduces t := ⟨h, .refl _⟩

theorem trans (h : t.Reduces t₁) (h' : t₁.Reduces t') : t.Reduces t' :=
  ⟨h'.isRefutation, h'.sublist.trans h.sublist⟩

theorem isFrom (h : t.Reduces t') {cnf : Cnf} (ht : t.IsFrom cnf) : t'.IsFrom cnf := by
  intro c hc
  obtain ⟨d, hd, he⟩ := List.mem_map.mp (h.sublist.mem (List.mem_map_of_mem hc))
  exact he ▸ ht d hd

/-- A sound refutation of a part is spliced into a reduced one. -/
theorem of_splice (ht : t.IsRefutation) {subset : ClauseSet} {cnf : Cnf}
    (hcnf : t.toCnf subset = .ok cnf) {reduced : Trace} (hr : reduced.IsRefutation)
    (hsplice : t.splice subset reduced = .ok t') : t.Reduces t' := by
  obtain ⟨cs, hcs, -⟩ := exists_members_of_toCnf ht.wellFormed hcnf
  obtain ⟨hwf, hsound, hends, -, hinputs⟩ :=
    of_splice_eq_ok ht.wellFormed ht.isSound hcs hr.wellFormed hr.isSound hsplice
  refine ⟨⟨hwf, hsound, hends⟩, ?_⟩
  rw [hinputs]
  exact List.filter_sublist.map _

end Trace.Reduces

/-- The input clauses of what is spliced are in the part that was solved again. -/
theorem Trace.inputs_of_splice {t t' reduced : Trace} (ht : t.WellFormed) {subset : ClauseSet}
    {cnf : Cnf} (hcnf : t.toCnf subset = .ok cnf) (hr : reduced.WellFormed)
    (hsplice : t.splice subset reduced = .ok t') : t'.WellFormed ∧
      ∀ c ∈ t'.inputs, ∃ d ∈ t.inputs, d.index ∈ subset ∧ d.clause = c.clause := by
  obtain ⟨cs, hcs, -⟩ := exists_members_of_toCnf ht hcnf
  obtain ⟨hwf, -, -, -, hinputs⟩ :=
    of_splice_eq_ok ht ht.justifiedBy hcs hr hr.justifiedBy hsplice
  refine ⟨hwf, fun c hc => ?_⟩
  have hmem := List.mem_map_of_mem (f := (·.clause)) hc
  rw [hinputs] at hmem
  obtain ⟨d, hd, he⟩ := List.mem_map.mp hmem
  obtain ⟨hd, hin⟩ := List.mem_filter.mp hd
  exact ⟨d, hd, IndexSet.contains_eq_true.mp hin, he⟩

namespace Reduction

open Session

variable {κ β σ : Type} {J : β → Prop} {backend : Backend β σ} {s : State κ β σ} {t t' : Trace}

/-! ### Single steps -/

theorem ends_expecting_of_forall {α : Type} {x : Except Violation α}
    {Q : α → State κ β σ → Prop} (h : ∀ a, x = .ok a → Q a s) :
    (expecting x).Ends s Q fun _ _ => True :=
  ends_expecting_iff.mpr ⟨h, fun _ _ => trivial⟩

theorem ends_resolve_of_sound (hb : backend.Sound J) (hJ : J s.backend) (cnf : Cnf) :
    (resolve backend cnf : Run κ β σ SatOutcome).Ends s
      (fun o s' => o.IsSoundFor cnf ∧ s'.strategy = s.strategy ∧ J s'.backend)
      fun _ _ => True := by
  unfold resolve
  rw [ends_within, ends_mapNotes]
  exact (hb cnf s.backend s.stop hJ).mono (fun o r hr => ⟨hr.1, rfl, hr.2⟩) fun _ _ he => he

/-- The stop condition is no business of the strategy or of the back end. -/
theorem ends_stopping {α : Type} (x : Session (Note Empty) Failure σ α) :
    (stopping x : Run κ β σ α).Ends s
      (fun _ s' => s'.strategy = s.strategy ∧ s'.backend = s.backend) fun _ _ => True := by
  unfold stopping Ends
  split
  · exact ⟨rfl, rfl⟩
  · trivial

/-- Only the strategy makes a proposal. -/
theorem ends_propose_next (strategy : Strategy κ) (t : Trace) :
    (propose strategy t : Run κ β σ ClauseSet).Ends s
      (fun c s' => (strategy.next t).Answers s.strategy c s'.strategy ∧ s'.backend = s.backend)
      fun _ _ => True := by
  unfold propose
  rw [ends_within, ends_mapFailure, ends_mapNotes]
  exact ends_of_forall_answers fun _ _ h => ⟨h, rfl⟩

/-! ### Candidates -/

/-- What becomes of a refutation: it is kept, or a refutation of the candidate is spliced into it and
counted. -/
def Continues (t : Trace) (candidate : ClauseSet) (k : Counters) (r : Trace × Counters) : Prop :=
  r.1 = t ∧ r.2.unsatisfiable = k.unsatisfiable ∨
    (∃ cnf reduced, t.toCnf candidate = .ok cnf ∧ reduced.IsRefutation ∧
      t.splice candidate reduced = .ok r.1) ∧ r.2.unsatisfiable = k.unsatisfiable + 1

theorem ends_attempt_continues (hb : backend.Sound J) (hJ : J s.backend) (candidate : ClauseSet)
    (k : Counters) : (attempt backend t candidate k).Ends s
      (fun r s' => Continues t candidate k r ∧ s'.strategy = s.strategy ∧ J s'.backend)
      fun _ _ => True := by
  unfold attempt
  rw [ends_bind]
  refine ends_expecting_of_forall fun cnf hcnf => ?_
  rw [ends_bind]
  refine (ends_resolve_of_sound hb hJ cnf).mono (fun o s' ⟨ho, hstrategy, hJ'⟩ => ?_)
    fun _ _ he => he
  cases o with
  | satisfiable a =>
      rw [ends_bind, ends_note, ends_pure]
      exact ⟨.inl ⟨rfl, rfl⟩, hstrategy, hJ'⟩
  | unsatisfiable reduced =>
      rw [ends_bind]
      refine ends_expecting_of_forall fun t' hsplice => ?_
      rw [ends_bind, ends_note, ends_pure]
      exact ⟨.inr ⟨⟨cnf, reduced, hcnf, ho.1, hsplice⟩, rfl⟩, hstrategy, hJ'⟩

/-- Re-solving one candidate reduces the refutation, if it does not fail. -/
theorem Continues.reduces {candidate : ClauseSet} {k : Counters} {r : Trace × Counters}
    (h : Continues t candidate k r) (ht : t.IsRefutation) : t.Reduces r.1 := by
  rcases h with ⟨rfl, -⟩ | ⟨⟨cnf, reduced, hcnf, hr, hsplice⟩, -⟩
  · exact .refl ht
  · exact .of_splice ht hcnf hr hsplice

/-- Re-solving one candidate makes no input clauses, even if what it starts from proves nothing. -/
theorem Continues.isFrom {candidate : ClauseSet} {k : Counters} {r : Trace × Counters}
    (h : Continues t candidate k r) {cnf : Cnf} (ht : t.WellFormed ∧ t.IsFrom cnf) :
    r.1.WellFormed ∧ r.1.IsFrom cnf := by
  rcases h with ⟨he, -⟩ | ⟨⟨part, reduced, hpart, hr, hsplice⟩, -⟩
  · exact he ▸ ht
  · obtain ⟨hwf, hinputs⟩ := Trace.inputs_of_splice ht.1 hpart hr.wellFormed hsplice
    refine ⟨hwf, fun c hc => ?_⟩
    obtain ⟨d, hd, -, he⟩ := hinputs c hc
    exact he ▸ ht.2 d hd

variable [StopCondition σ] {P : Trace → Prop}

/-- **Any number of rounds** keep what every candidate keeps, if they do not fail. -/
theorem ends_rounds_of_continues
    (hP : ∀ {t candidate k r}, Continues t candidate k r → P t → P r.1) (strategy : Strategy κ)
    (hb : backend.Sound J) (n : Nat) (k : Counters) (hJ : J s.backend) (ht : P t) :
    (rounds strategy backend n t k).Ends s (fun r _ => P r.1) fun _ _ => True := by
  induction n generalizing t s k with
  | zero => exact trivial
  | succ n ih =>
      rw [ends_rounds_succ]
      refine (ends_propose_next strategy t).mono (fun c s₁ ⟨_, hs₁⟩ => ?_) fun _ _ he => he
      split
      · exact ht
      · refine (ends_stopping _).mono (fun _ s₂ ⟨_, hs₂⟩ => ?_) fun _ _ he => he
        have hJ₂ : J s₂.backend := by rwa [hs₂, hs₁]
        refine (ends_attempt_continues hb hJ₂ c k).mono
          (fun ⟨t', k'⟩ s₃ ⟨hcontinues, _, hJ₃⟩ => ?_) fun _ _ he => he
        exact ih k' hJ₃ (hP hcontinues ht)

theorem ends_minimiseCore_of_continues
    (hP : ∀ {t candidate k r}, Continues t candidate k r → P t → P r.1) (strategy : Strategy κ)
    (hb : backend.Sound J) (hJ : J s.backend) (ht : P t) :
    (minimiseCore strategy backend t).Ends s (fun t' _ => P t') fun _ _ => True :=
  ends_minimiseCore_of_rounds (ends_rounds_of_continues hP strategy hb _ {} hJ ht)

theorem ends_minimiseCore_of_sound (strategy : Strategy κ) (hb : backend.Sound J)
    (hJ : J s.backend) (ht : t.IsRefutation) :
    (minimiseCore strategy backend t).Ends s (fun t' _ => t.Reduces t') fun _ _ => True :=
  ends_minimiseCore_of_continues (P := t.Reduces)
    (fun hcontinues ht' => ht'.trans (hcontinues.reduces ht'.isRefutation)) strategy hb hJ
    (.refl ht)

/-- **Reductions preserve refutations.**  Whatever a strategy proposes to a sound back end and
whenever the stop condition triggers, what a reduction of a refutation answers is a refutation, and
its input clauses are some of those before, in the same order.  So nothing satisfies these. -/
theorem minimiseCore_sound (strategy : Strategy κ) (hb : backend.Sound J) (hJ : J s.backend)
    (ht : t.IsRefutation) (h : ((minimiseCore strategy backend t).run s).answer = .ok t') :
    t'.WellFormed ∧ t'.IsSound ∧ t'.EndsEmpty ∧
      (t'.inputs.map (·.clause)).Sublist (t.inputs.map (·.clause)) ∧
      ∀ f : Valuation, ¬ ∀ c ∈ t'.inputs, f.Satisfies c.clause.literals := by
  obtain ⟨hr, hsublist⟩ := (ends_minimiseCore_of_sound strategy hb hJ ht).of_answer h
  exact ⟨hr.wellFormed, hr.isSound, hr.endsEmpty, hsublist, hr.not_forall_inputs⟩

/-- The four clauses over two variables and one over a third.  A candidate of the four and the first
resolvent of their refutation, which is recycled, leaves the fifth clause out. -/
theorem minimiseCore_sound_recycled :
    ∃ t t', ((Prover.solve ⟨3, [[1, 2], [1, -2], [-1, 2], [-1, -2], [3]].map
        (·.filterMap Literal.ofDimacs?)⟩).run
          (({} : Prover.Counters), Indefinite.indefinite)).answer = .ok (.unsatisfiable t) ∧
      (Prover.backend : Backend Prover.Counters Indefinite).Sound (fun _ => True) ∧
      t.IsRefutation ∧
      ((minimiseCore Strategy.listed Prover.backend t).run
        ⟨[.ofList [0, 1, 2, 3, 5]], {}, Indefinite.indefinite⟩).answer = .ok t' ∧
      t'.IsSound ∧ t'.EndsEmpty ∧ t.numAxioms = 5 ∧ t'.numAxioms = 4 ∧ t'.numResolvents = 2 := by
  have hrun : (match ((Prover.solve ⟨3, [[1, 2], [1, -2], [-1, 2], [-1, -2], [3]].map
        (·.filterMap Literal.ofDimacs?)⟩).run
          (({} : Prover.Counters), Indefinite.indefinite)).answer with
      | .ok (.unsatisfiable t) => match ((minimiseCore Strategy.listed Prover.backend t).run
            ⟨[.ofList [0, 1, 2, 3, 5]], {}, Indefinite.indefinite⟩).answer with
          | .ok t' => decide (t.numAxioms = 5 ∧ t'.numAxioms = 4 ∧ t'.numResolvents = 2)
          | .error _ => false
      | _ => false) = true := by decide +kernel
  split at hrun
  next t ht =>
    split at hrun
    next t' ht' =>
      have href : t.IsRefutation := ((Prover.sound_backend _ _ _ trivial).of_answer ht).1.1
      obtain ⟨-, hsound, hends, -, -⟩ :=
        minimiseCore_sound Strategy.listed Prover.sound_backend trivial href ht'
      exact ⟨t, t', ht, Prover.sound_backend, href, ht', hsound, hends, of_decide_eq_true hrun⟩
    next => cases hrun
  next => cases hrun

end Reduction

end ModelFinder
