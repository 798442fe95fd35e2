import ModelFinder.Proofs.Prover.Refuting
import ModelFinder.Proofs.Reduction.Removal

/-!
# One empty clause

If a problem has no empty clause, the prover refutes it with a trace that has only one, at its end
(`Trace.OneEmpty`).  The root of the search finds it, and nothing is added to the trace any more.

Reductions keep to that.  A candidate ends before the terminal clause, so that none of its clauses
is empty and the problem made of it is again one without an empty clause.  Its refutation therefore
has one empty clause, and what is spliced has the clauses of this refutation
(`Trace.oneEmpty_of_splice`).  This holds of each round, and so of any number of them.
-/

namespace ModelFinder

open Session

/-! ### Traces with one empty clause -/

namespace Trace

variable {t t' reduced : Trace} {candidate : ClauseSet}

/-- The terminal clause is empty, and no other clause is. -/
structure OneEmpty (t : Trace) : Prop where
  wellFormed : t.WellFormed
  endsEmpty : t.EndsEmpty
  eq_terminal : ∀ ⦃i c⦄, t.get? i = some c → c.clause = .empty → i = t.terminal

/-- No clause before the terminal one is empty. -/
theorem OneEmpty.ne_empty (h : t.OneEmpty) (hlt : ∀ i ∈ candidate, i < t.terminal) :
    ∀ i ∈ candidate, ∀ c, t.get? i = some c → c.clause ≠ .empty :=
  fun i hi _ hc hempty => Nat.ne_of_lt (hlt i hi) (h.eq_terminal hc hempty)

/-- The problem made of clauses before the terminal one has no empty clause. -/
theorem OneEmpty.exists_toCnf (h : t.OneEmpty) (hlt : ∀ i ∈ candidate, i < t.terminal) :
    ∃ part, t.toCnf candidate = .ok part ∧ [] ∉ part.clauses := by
  have hsize : ∀ i ∈ candidate, i < t.size := fun i hi =>
    Nat.lt_of_lt_of_le (hlt i hi) (Nat.sub_le _ _)
  obtain ⟨cs, hcs⟩ := exists_members h.wellFormed hsize
  exact ⟨_, toCnf_eq_ok hcs, hcs.not_mem_literals (h.ne_empty hlt)⟩

/-- What is spliced has the clauses of the refutation of the candidate. -/
theorem oneEmpty_of_splice (ht : t.WellFormed) {part : Cnf} (hpart : t.toCnf candidate = .ok part)
    (hr : reduced.OneEmpty) (hsplice : t.splice candidate reduced = .ok t') : t'.OneEmpty := by
  obtain ⟨cs, hcs, -⟩ := exists_members_of_toCnf ht hpart
  obtain ⟨hwf, -, hends, hclauses, -⟩ := of_splice_eq_ok ht ht.justifiedBy hcs hr.wellFormed
    hr.wellFormed.justifiedBy hsplice
  exact ⟨hwf, hends, eq_terminal_of_clauseList_eq hclauses hr.eq_terminal⟩

end Trace

/-! ### Back ends -/

section Backends

variable {β σ : Type} [StopCondition σ]

/-- From the states in which `J` holds, the back end refutes problems without an empty clause by
traces with one. -/
def Backend.ClosesOnce (backend : Backend β σ) (J : β → Prop) : Prop :=
  ∀ (cnf : Cnf) (b : β) (stop : σ), [] ∉ cnf.clauses → J b → (backend.solve cnf).Ends (b, stop)
    (fun o s => (∀ t, o = .unsatisfiable t → t.OneEmpty) ∧ J s.1) fun _ _ => True

theorem Prover.Refutes.oneEmpty {cs : List (List Literal)} {t : Trace} (h : Refutes cs t)
    (hno : [] ∉ cs) : t.OneEmpty := ⟨h.wellFormed, h.endsEmpty, h.eq_terminal hno⟩

theorem Prover.closesOnce_backend :
    (Prover.backend : Backend Counters σ).ClosesOnce fun _ => True := by
  intro cnf k stop hno _
  refine (ends_solve cnf k stop).mono (fun o s ⟨ho, _⟩ => ⟨fun t e => ?_, trivial⟩)
    fun _ _ _ => trivial
  subst e
  exact Refutes.oneEmpty ho hno

/-- A back end in a state from which it searches: the prover is in one at any time, and a replay
when it has nothing left to replay. -/
inductive Backend.Searches : {β : Type} → Backend β σ → β → Prop
  | prover (k : Prover.Counters) : Searches Prover.backend k
  | replay {r : Replay} (spent : r.refutation = none) : Searches Replay.backend r

theorem Backend.closesOnce_searches {backend : Backend β σ} :
    backend.ClosesOnce backend.Searches := by
  intro cnf b stop hno hb
  cases hb with
  | prover k =>
      refine (Prover.closesOnce_backend cnf k stop hno trivial).mono (fun o s h => ?_)
        fun _ _ he => he
      exact ⟨h.1, .prover _⟩
  | @replay r spent =>
      refine (Replay.ends_solve_spent spent).mpr ?_
      refine (Prover.closesOnce_backend cnf r.prover stop hno trivial).mono (fun o s h => ?_)
        fun _ _ he => he
      exact ⟨h.1, .replay rfl⟩

end Backends

/-! ### Rounds -/

namespace Reduction

variable {κ β σ : Type} {J : β → Prop} {backend : Backend β σ} {strategy : Strategy κ}
  {s : State κ β σ} {t : Trace} {candidate : ClauseSet} {x y : Config κ β σ} [StopCondition σ]

omit [StopCondition σ] in
theorem ends_attempt_oneEmpty (hb : backend.ClosesOnce J) (hJ : J s.backend) (ht : t.OneEmpty)
    (hlt : ∀ i ∈ candidate, i < t.terminal) (k : Counters) : (attempt backend t candidate k).Ends s
      (fun r s' => r.1.OneEmpty ∧ J s'.backend) fun _ _ => True := by
  obtain ⟨part, hpart, hno⟩ := ht.exists_toCnf hlt
  unfold attempt
  rw [ends_bind]
  refine ends_expecting_of_forall fun part' hpart' => ?_
  obtain rfl : part = part' := Except.ok.inj (hpart.symm.trans hpart')
  rw [ends_bind]
  unfold resolve
  rw [ends_within, ends_mapNotes]
  refine (hb part s.backend s.stop hno hJ).mono (fun o r ⟨ho, hJ'⟩ => ?_) fun _ _ he => he
  cases o with
  | satisfiable a => exact ⟨ht, hJ'⟩
  | unsatisfiable reduced =>
      rw [ends_bind]
      refine ends_expecting_of_forall fun t' hsplice => ?_
      exact ⟨Trace.oneEmpty_of_splice ht.wellFormed hpart (ho reduced rfl) hsplice, hJ'⟩

/-- **One round** keeps to one empty clause. -/
theorem Round.oneEmpty (hstrategy : strategy.StaysBelow) (hb : backend.ClosesOnce J)
    (h : Round strategy backend x candidate y) (hJ : J x.state.backend) (hx : x.trace.OneEmpty) :
    y.trace.OneEmpty ∧ J y.state.backend := by
  cases h with
  | @intro t t' k k' s s₁ s₂ s₃ _ proposed nonempty polled attempted =>
      obtain ⟨hnext, hbackend₁⟩ := proposed.ends_iff.mp (ends_propose_next strategy t)
      obtain ⟨-, hbackend₂⟩ := polled.ends_iff.mp (ends_stopping _)
      have hJ₂ : J s₂.backend := by rwa [hbackend₂, hbackend₁]
      exact attempted.ends_iff.mp (ends_attempt_oneEmpty hb hJ₂ hx (hstrategy.lt_terminal hnext) k)

/-- Any number of rounds. -/
theorem oneEmpty_of_course (hstrategy : strategy.StaysBelow) (hb : backend.ClosesOnce J)
    (h : Course strategy backend x y) (hJ : J x.state.backend) (hx : x.trace.OneEmpty) :
    y.trace.OneEmpty ∧ J y.state.backend := by
  induction h with
  | refl => exact ⟨hx, hJ⟩
  | tail _ hround ih =>
      obtain ⟨candidate, hround⟩ := hround
      exact hround.oneEmpty hstrategy hb ih.2 ih.1

/-- **The only empty clause of a refutation is its end.**  If the prover refutes a problem without
an empty clause,

* the clause that it finds at the root of the search is the empty clause, and it is the last one of
  the trace already, so that none is added any more;
* the terminal clause of the trace is empty, and no other clause is;
* a strategy that drops one root after the other reduces it to traces of this kind only, wherever
  the reduction stands and wherever it ends, and whatever the strategy proposes there has no empty
  clause, and makes a problem without one. -/
theorem oneEmpty_of_solve {σ' : Type} [StopCondition σ'] {cnf : Cnf} (hno : [] ∉ cnf.clauses)
    {k : Prover.Counters} {stop : σ'}
    (hsolve : ((Prover.solve cnf).run (k, stop)).answer = .ok (.unsatisfiable t)) :
    (∃ clauses s₁ c s₂,
      (Prover.Search.addAxioms cnf.clauses).Answers ⟨.empty, k, stop⟩ (none, clauses) s₁ ∧
      (Prover.Search.search clauses cnf.numVariables (.initial cnf.numVariables)).Answers s₁
        (.refuted c) s₂ ∧
      c.clause = .empty ∧ c.index + 1 = s₂.builder.size ∧ t = s₂.builder.trace) ∧
    t.OneEmpty ∧
    ∀ {β σ : Type} [StopCondition σ] (backend : Backend β σ) {strategy : Strategy RootPool},
      strategy.IsRootwise → ∀ start : State RootPool β σ, backend.Searches start.backend →
      (∀ x, Course strategy backend ⟨t, {}, start⟩ x → x.trace.OneEmpty ∧
        ∀ pool candidate rest, (strategy.next x.trace).Answers pool candidate rest →
          (∀ i ∈ candidate, ∀ c, x.trace.get? i = some c → c.clause ≠ .empty) ∧
          ∃ part, x.trace.toCnf candidate = .ok part ∧ [] ∉ part.clauses) ∧
      ∀ t', ((minimiseCore strategy backend t).run start).answer = .ok t' → t'.OneEmpty := by
  have href : Prover.Refutes cnf.clauses t :=
    ((Prover.ends_solve cnf k stop).of_answer hsolve).1
  have ht : t.OneEmpty := href.oneEmpty hno
  refine ⟨?_, ht, fun backend strategy hrootwise start hstart => ?_⟩
  · obtain ⟨s₂, hconcludes, -⟩ := Prover.concludes_of_solve ⟨hsolve, rfl⟩
    cases hconcludes with
    | given added closed =>
        exact absurd (Prover.given_of_addAxioms rfl added).1 hno
    | searched added refuted empty last => exact ⟨_, _, _, _, added, refuted, empty, last, rfl⟩
  · obtain ⟨distance, hscans⟩ := hrootwise.exists_scans
    have hcourse : ∀ x, Course strategy backend ⟨t, {}, start⟩ x → x.trace.OneEmpty := fun x hx =>
      (oneEmpty_of_course hscans.staysBelow Backend.closesOnce_searches hx hstart ht).1
    refine ⟨fun x hx => ⟨hcourse x hx, fun pool candidate rest hnext => ?_⟩, fun t' ht' => ?_⟩
    · have hlt := hscans.staysBelow.lt_terminal hnext
      exact ⟨(hcourse x hx).ne_empty hlt, (hcourse x hx).exists_toCnf hlt⟩
    · obtain ⟨z, hz, rfl⟩ := exists_course_of_answer ht' .refl
      exact hcourse z hz

/-- The refutation that goes the roundabout way, and the one after the first round. -/
theorem oneEmpty_of_solve_detour :
    [] ∉ detour.clauses ∧ roundabout.OneEmpty ∧
    ∃ candidate y, Round (.recycling .unbounded) Prover.backend detourStart candidate y ∧
      Adopted detourStart y ∧ y.trace.OneEmpty := by
  have hno : [] ∉ detour.clauses := by decide +kernel
  have hsolve : ((Prover.solve detour).run (({} : Prover.Counters), Indefinite.indefinite)).answer =
      .ok (.unsatisfiable roundabout) := by cbv
  obtain ⟨-, hone, hreduction⟩ := oneEmpty_of_solve hno hsolve
  obtain ⟨hcourse, -⟩ := hreduction Prover.backend (.recycling .unbounded) detourStart.state
    (.prover _)
  obtain ⟨candidate, y, hround, hadopted⟩ := exists_round_detour
  exact ⟨hno, hone, candidate, y, hround, hadopted, (hcourse y (.single ⟨candidate, hround⟩)).1⟩

end Reduction

end ModelFinder
