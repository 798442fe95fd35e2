import ModelFinder.Proofs.Backend
import ModelFinder.Proofs.Reduction.Invariant
import ModelFinder.Proofs.Reduction.Rounds

/-!
# Reductions reach a minimal core

With a reliable back end and a strategy that tries one root after the other, a reduction can not
fail: no candidate is refused, every refutation of a candidate can be spliced, and the rounds
suffice (`ends_rounds`).  In the end all roots that the core asserts are necessary
(`ends_minimiseCore`).
-/

namespace ModelFinder.Reduction

open Session StopCondition

variable {β σ : Type} [StopCondition σ] {J : β → Prop} {s : State RootPool β σ}
  {E : Failure → State RootPool β σ → Prop} {P : Setting} {t t' : Trace} {v : Variable}
  {candidate : ClauseSet}

/-- The back end is in a state in which it is reliable, and the stop condition never triggers. -/
def Ready (J : β → Prop) (s : State RootPool β σ) : Prop := J s.backend ∧ NeverTriggers s.stop

/-! ### Single steps -/

omit [StopCondition σ] in
theorem ends_expecting {α : Type} {x : Except Violation α} {a : α}
    {Q : α → State RootPool β σ → Prop} (h : x = .ok a) (ha : Q a s) : (expecting x).Ends s Q E :=
  ends_expecting_iff.mpr ⟨fun _ hb => Except.ok.inj (h.symm.trans hb) ▸ ha,
    fun _ he => absurd (h.symm.trans he) nofun⟩

theorem ends_resolve {backend : Backend β σ} (hb : backend.Reliable J) (hs : Ready J s)
    (cnf : Cnf) : (resolve backend cnf).Ends s
      (fun o s' => Prover.Decides cnf o ∧ s'.strategy = s.strategy ∧ Ready J s')
      fun _ _ => False := by
  unfold resolve
  rw [ends_within, ends_mapNotes]
  refine (hb cnf s.backend s.stop hs.1 hs.2).mono (fun o r hr => ?_) fun _ _ he => he
  exact ⟨hr.1, rfl, hr.2⟩

theorem ends_stopping_poll {phase : Phase} (hs : Ready J s) :
    (stopping (Session.poll phase)).Ends s
      (fun _ s' => s'.strategy = s.strategy ∧ Ready J s') fun _ _ => False := by
  unfold stopping
  rw [ends_within]
  refine Session.ends_poll.mono (fun _ stop hstop => ?_) fun _ _ he => he.2 hs.2
  subst hstop
  exact ⟨rfl, hs.1, hs.2.poll⟩

theorem ends_propose {strategy : Strategy RootPool} (hk : strategy.TriesRoots)
    (ht : t.WellFormed) (hlargest : ∀ v ∈ s.strategy.remaining, t.LargestOnly v.index)
    (hs : Ready J s) : (propose strategy t).Ends s
      (fun c s' => Strategy.Proposal t s.strategy.remaining c s'.strategy.remaining ∧ Ready J s')
      fun _ _ => False := by
  unfold propose
  rw [ends_within, ends_mapFailure, ends_mapNotes]
  exact (hk.2 t s.strategy ht hlargest).mono (fun c pool hc => ⟨hc, hs⟩) fun _ _ he => he

/-! ### One candidate -/

/-- No clause of a candidate is empty: the only empty clause is the terminal one. -/
theorem Dropping.nil_not_mem (h : Dropping t v candidate) (hinv : Invariant P t)
    (hunits : ∃ n, n ∈ t.coreUnits) {cs : List TraceClause} (hcs : t.Members candidate cs) :
    [] ∉ cs.map (·.clause.literals) :=
  hcs.not_mem_literals fun i hi _ hget hempty =>
    Nat.ne_of_lt (h.lt_terminal i hi) (hinv.eq_terminal hunits hget hempty)

/-- The refutation of a candidate is spliced into one that takes the place of the old one. -/
theorem exists_splice (hinv : Invariant P t) (hunits : ∃ n, n ∈ t.coreUnits)
    (hdrop : Dropping t v candidate) {cs : List TraceClause} (hcs : t.Members candidate cs)
    {reduced : Trace} (hr : Prover.Refutes (cs.map (·.clause.literals)) reduced) :
    ∃ t', t.splice candidate reduced = .ok t' ∧ Replaces t candidate t' := by
  have hno := hdrop.nil_not_mem hinv hunits hcs
  have hinputs : reduced.inputs.map (·.clause) = cs.map (·.clause) := by
    rw [hr.inputs_eq, Prover.throughEmpty_of_not_mem hno, List.map_map]
    exact List.map_congr_left fun c _ => Clause.ofList_literals c.clause
  have hp := Trace.isProof_iff_justifiedBy.mp hinv.isProof
  have hrp := Trace.isProof_iff_justifiedBy.mp hr.isProof
  obtain ⟨t', hsplice⟩ := Trace.exists_splice_eq_ok hinv.wellFormed hp
    (hdrop.closed hinv.wellFormed) hcs hr.wellFormed hrp hr.endsEmpty hinputs
  obtain ⟨hwf, hp', hends, hlist, hins⟩ :=
    Trace.of_splice_eq_ok hinv.wellFormed hp hcs hr.wellFormed hrp hsplice
  refine ⟨t', hsplice, hwf, hp', hends, fun c => ?_, fun i c hi hc => ?_⟩
  · rw [← List.mem_map, hins, List.mem_map]
    simp only [List.mem_filter, IndexSet.contains_eq_true, and_assoc]
  · -- the two refutations have the same clauses, at the same positions
    have hsize : t'.size = reduced.size := by
      rw [← Trace.length_clauseList, hlist, Trace.length_clauseList]
    have hclause : reduced.clauseList[i]? = some .empty := by
      rw [← hlist, Trace.getElem?_clauseList, hi, ← hc]
      rfl
    rw [Trace.getElem?_clauseList] at hclause
    obtain ⟨d, hd, hempty⟩ := Option.map_eq_some_iff.mp hclause
    rw [hr.eq_terminal hno hd hempty, Trace.terminal, Trace.terminal, hsize]

/-- A candidate is satisfied by something, or refuted. -/
theorem ends_attempt {backend : Backend β σ} (hb : backend.Reliable J) (hs : Ready J s)
    (hinv : Invariant P t) (hunits : ∃ n, n ∈ t.coreUnits) (hdrop : Dropping t v candidate)
    (k : Counters) : (attempt backend t candidate k).Ends s
      (fun r s' => ((r.1 = t ∧ ∃ f : Valuation, ∀ i ∈ candidate, ∀ c, t.get? i = some c →
          f.Satisfies c.clause.literals) ∨ Replaces t candidate r.1) ∧
        s'.strategy = s.strategy ∧ Ready J s') fun _ _ => False := by
  obtain ⟨cs, hcs⟩ := Trace.exists_members hinv.wellFormed hdrop.lt_size
  unfold attempt
  rw [ends_bind]
  refine ends_expecting (Trace.toCnf_eq_ok hcs) ?_
  rw [ends_bind]
  refine (ends_resolve hb hs _).mono (fun o s' ⟨ho, hs'⟩ => ?_) fun _ _ he => he
  cases o with
  | satisfiable a =>
      rw [ends_bind, ends_note, ends_pure]
      refine ⟨.inl ⟨rfl, a.valuation, fun i hi c hc => ?_⟩, hs'⟩
      have hmem := ((hcs.mem_iff hc).mp hi).1
      exact Assignment.models_valuation (Prover.Solves.satisfies ho) _ (List.mem_map_of_mem hmem)
  | unsatisfiable reduced =>
      obtain ⟨t', hsplice, hreplaces⟩ := exists_splice hinv hunits hdrop hcs ho
      rw [ends_bind]
      refine ends_expecting hsplice ?_
      rw [ends_bind, ends_note, ends_pure]
      exact ⟨.inr hreplaces, hs'⟩

/-! ### All candidates -/

/-- **No round fails**, and there are enough of them.  The rounds are over when each root that the
core asserts is necessary. -/
theorem ends_rounds {strategy : Strategy RootPool} {backend : Backend β σ}
    (hk : strategy.TriesRoots) (hb : backend.Reliable J) (hroots : P.RootsLargest) (n : Nat)
    (k : Counters) (hs : Ready J s) (hn : s.strategy.remaining.length < n) (hinv : Invariant P t)
    (hpool : ∀ v ∈ s.strategy.remaining, v ∈ P.roots)
    (htried : Tried P t s.strategy.remaining) :
    (rounds strategy backend n t k).Ends s
      (fun r s' => Invariant P r.1 ∧ Tried P r.1 [] ∧ Ready J s') fun _ _ => False := by
  induction n generalizing t s k with
  | zero => exact absurd hn (Nat.not_lt_zero _)
  | succ n ih =>
      have hlargest : ∀ v ∈ s.strategy.remaining, t.LargestOnly v.index := fun v hv =>
        hinv.largestOnly hroots (hpool v hv)
      rw [ends_rounds_succ]
      refine (ends_propose hk hinv.wellFormed hlargest hs).mono (fun c s₁ ⟨hc, hs₁⟩ => ?_)
        fun _ _ he => he
      generalize hrest : s₁.strategy.remaining = rest at hc
      cases hc with
      | none hspent => exact ⟨hinv, tried_of_spent htried hspent, hs₁⟩
      | @dropping v _ _ hnext hne hlearns hlt =>
          have hdrop : Dropping t v c := ⟨hlearns, hlt⟩
          rw [if_neg (IndexSet.not_isEmpty_iff.mpr hne)]
          refine (ends_stopping_poll hs₁).mono (fun _ s₂ ⟨hstrategy₂, hs₂⟩ => ?_) fun _ _ he => he
          refine (ends_attempt hb hs₂ hinv ⟨_, hnext.present⟩ hdrop k).mono
            (fun ⟨t', k'⟩ s₃ ⟨ht', hstrategy₃, hs₃⟩ => ?_) fun _ _ he => he
          -- the next round has a pool without this root, and the old refutation or a new one
          have hrest₃ : s₃.strategy.remaining = rest := by rw [hstrategy₃, hstrategy₂, hrest]
          have hstep : Invariant P t' ∧ Tried P t' rest := by
            rcases ht' with ⟨rfl, f, hf⟩ | hreplaces
            · exact ⟨hinv, tried_of_satisfiable hinv htried hnext hdrop hf⟩
            · exact ⟨hreplaces.invariant hinv hroots hdrop,
                hreplaces.tried hinv hroots hdrop htried hnext⟩
          refine ih (s := { s₃ with stop := StopCondition.tick s₃.stop }) k' ⟨hs₃.1, hs₃.2.tick⟩ ?_
            hstep.1 ?_ ?_
          · show s₃.strategy.remaining.length < n
            rw [hrest₃]
            exact Nat.lt_of_lt_of_le hnext.length_lt (Nat.le_of_lt_succ hn)
          · show ∀ v ∈ s₃.strategy.remaining, v ∈ P.roots
            rw [hrest₃]
            exact fun w hw => hpool w (hnext.rest_subset w hw)
          · show Tried P t' s₃.strategy.remaining
            rw [hrest₃]
            exact hstep.2

/-- **A reduction ends with a minimal core.** -/
theorem ends_minimiseCore {strategy : Strategy RootPool} {backend : Backend β σ}
    (hk : strategy.TriesRoots) (hb : backend.Reliable J) (hroots : P.RootsLargest)
    (hs : Ready J s) (hinv : Invariant P t) (hpool : s.strategy.remaining = P.roots) :
    (minimiseCore strategy backend t).Ends s
      (fun t' s' => Invariant P t' ∧ Tried P t' [] ∧ Ready J s') fun _ _ => False := by
  refine ends_minimiseCore_of_rounds (ends_rounds hk hb hroots _ {} hs ?_ hinv ?_ ?_)
  · rw [hk.1]
    exact Nat.lt_succ_self _
  · rw [hpool]
    exact fun _ => id
  · rw [hpool]
    exact tried_roots P t

end ModelFinder.Reduction
