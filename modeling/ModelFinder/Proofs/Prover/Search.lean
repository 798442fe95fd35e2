import ModelFinder.Proofs.Prover.Exploration
import ModelFinder.Proofs.Session

/-!
# The search of the prover

The recursion of the prover explores a search tree, and what can end it early is the stop condition
alone: the bound on decisions is never reached, and no addition to the trace is refused.

* `ends_explain`, `ends_merge`: the additions which a search makes to the trace are accepted.
* `searches`: a search below a valid trail explores it (`Explores`), if the bound is at least the
  number of variables without a value.
-/

namespace ModelFinder.Prover.Search

open Session StopCondition
open Trace (Builder)

variable {σ : Type} {s : State σ} {b : Builder} {c : TraceClause} {ls : List Literal}
  {E : Failure → State σ → Prop}

/-! ### Single steps -/

theorem ends_building {α : Type} {x : Builder.Action α} {Q : α → State σ → Prop} :
    (building x).Ends s Q E ↔ x.Ends s.builder (fun a b => Q a { s with builder := b })
      fun e b => E (.violation e) { s with builder := b } := by
  unfold building
  rw [ends_within, ends_mapFailure, ends_mapNotes]

/-- An action that succeeds on the refutation. -/
theorem ends_building_of_completed {α : Type} {x : Builder.Action α} {a : α}
    {Q : α → State σ → Prop} (h : x.completed s.builder = .ok (a, b)) :
    (building x).Ends s Q E ↔ Q a { s with builder := b } := by
  obtain ⟨hanswer, rfl⟩ := Builder.Action.completed_eq_ok.mp h
  exact ends_building.trans (Answers.ends_iff ⟨hanswer, rfl⟩)

theorem ends_addAxiom {Q : TraceClause → State σ → Prop}
    (h : s.builder.addAxiom ls = .ok (c, b)) :
    (addAxiom ls).Ends s Q E ↔ Q c { s with builder := b } := ends_building_of_completed h

theorem ends_addResolvent {Q : TraceClause → State σ → Prop} {as : List Nat}
    (h : s.builder.addResolvent ls as = .ok (c, b)) :
    (addResolvent ls as).Ends s Q E ↔ Q c { s with builder := b } := ends_building_of_completed h

theorem ends_finish {Q : SatOutcome → State σ → Prop} {t : Trace}
    (h : s.builder.build = .ok t) : finish.Ends s Q E ↔ Q (.unsatisfiable t) s := by
  unfold Ends finish
  rw [h]

theorem ends_assert {α : Type} {assertion : Assertion} {holds : Bool} {x : Unit → Search σ α}
    {Q : α → State σ → Prop} (h : holds = true) :
    (assert assertion holds >>= x).Ends s Q E ↔ (x ()).Ends s Q E := by
  subst h
  exact ends_bind

/-- Counting changes neither the refutation nor the stop condition. -/
theorem ends_count {f : Counters → Counters} {Q : Unit → State σ → Prop}
    (h : ∀ s', s'.builder = s.builder → s'.stop = s.stop → Q () s') : (count f).Ends s Q E :=
  h _ rfl rfl

/-- The failure of a session whose stop condition has triggered while it was solving. -/
def GivesUp [StopCondition σ] (s : σ) (e : Failure) : Prop :=
  e = .exhausted .solving ∧ ¬ NeverTriggers s

theorem ends_poll [StopCondition σ] : (poll : Search σ Unit).Ends s
    (fun _ s' => s'.builder = s.builder ∧ (NeverTriggers s.stop → NeverTriggers s'.stop))
    fun e _ => GivesUp s.stop e := by
  unfold poll
  rw [ends_within]
  refine Session.ends_poll.mono (fun _ t ht => ⟨rfl, fun hn => ?_⟩) fun _ _ he => he
  subst ht
  exact hn.poll

/-- A conflict is explained, if its clause and the reasons are there. -/
theorem ends_explain {t : Trail} {x : TraceClause}
    (h : ∀ a ∈ x.index :: (Trail.resolveBack t.entries x.clause).2, a < s.builder.size) :
    (explain t x).Ends s
      (fun c s' => Explains t s.builder x c s'.builder ∧ s'.stop = s.stop) E := by
  unfold explain
  split
  next hback => exact ⟨.self (by rw [hback]), rfl⟩
  next c used hne hback =>
    rw [hback] at h
    obtain ⟨d, b, hadd⟩ := Builder.exists_addResolvent c.literals (List.cons_ne_nil _ _) h
    rw [ends_bind]
    refine ends_count fun s' hs' hstop => ?_
    rw [← hs'] at hadd ⊢
    refine (ends_addResolvent hadd).mpr ⟨.resolvent ?_ ?_, hstop⟩
    · rw [hback]; exact hne
    · rw [hback]; exact hadd

/-- The refutations of both values of a variable are merged, if they are there. -/
theorem ends_merge {v : Variable} {d : TraceClause} (hc : c.index < s.builder.size)
    (hd : d.index < s.builder.size) :
    (merge v c d).Ends s (fun r s' => s.builder.addResolvent (others v c d) [c.index, d.index] =
      .ok (r, s'.builder) ∧ s'.stop = s.stop) E := by
  have hlt : ∀ a ∈ [c.index, d.index], a < s.builder.size := by simp [hc, hd]
  obtain ⟨r, b, hadd⟩ := Builder.exists_addResolvent (others v c d) (List.cons_ne_nil _ _) hlt
  unfold merge
  rw [ends_bind]
  refine ends_count fun s' hs' hstop => ?_
  rw [← hs'] at hadd ⊢
  rw [ends_bind]
  refine (ends_addResolvent hadd).mpr ?_
  rw [ends_bind, ends_note, ends_pure]
  exact ⟨hadd, hstop⟩

/-! ### The recursion -/

section Recursion

variable [StopCondition σ] {clauses : List TraceClause} {n : Nat} {t : Trail}

/-- A search with a bound explores what is below its trail, or gives up. -/
def Searches (clauses : List TraceClause) (n bound : Nat) (t : Trail) (s : State σ) : Prop :=
  t.Valid clauses n → t.undecided ≤ bound → Supports clauses s.builder → NoneEmpty s.builder →
    (search clauses bound t).Ends s
      (fun node s' => Explores clauses t s.builder node s'.builder ∧
        (NeverTriggers s.stop → NeverTriggers s'.stop)) fun e _ => GivesUp s.stop e

/-- A node at which propagation stops. -/
theorem ends_conflict {t' : Trail} {x : TraceClause} {f : Counters → Counters}
    (hr : Trail.InRange clauses n) (ht : t.Valid clauses n) (hb : Supports clauses s.builder)
    (stopped : t.propagate clauses = (some x, t')) :
    (do count f; return .refuted (← explain t' x) : Search σ Node).Ends s
      (fun node s' => Explores clauses t s.builder node s'.builder ∧
        (NeverTriggers s.stop → NeverTriggers s'.stop)) E := by
  have hf := Trail.forces_propagate stopped
  obtain ⟨hx, hfalse⟩ := Trail.state_of_propagate_eq_some stopped
  rw [ends_bind]
  refine ends_count fun s₁ hb₁ hstop₁ => ?_
  rw [← hb₁] at hb ⊢
  rw [← hstop₁, ends_bind]
  refine (ends_explain (lt_size_of_falsified (hf.valid hr ht) hb hx hfalse)).mono
    (fun c s' hexp => ?_) fun _ _ he => he
  exact ⟨.conflict stopped hexp.1, fun h => hexp.2 ▸ h⟩

/-- The search below a decision has one variable less to decide. -/
theorem ends_below {m : Nat} {t' : Trail} {v : Variable} (hr : Trail.InRange clauses n)
    (ih : ∀ t (s : State σ), Searches clauses n m t s) (ht : t.Valid clauses n)
    (hbound : t.undecided ≤ m + 1) (quiet : t.propagate clauses = (none, t'))
    (next : t'.firstUndecided? = some v) (b : Bool) (hb : Supports clauses s.builder)
    (hne : NoneEmpty s.builder) :
    (search clauses m (t'.assign ⟨v, b⟩ none)).Ends s
      (fun node s' => Explores clauses (t'.assign ⟨v, b⟩ none) s.builder node s'.builder ∧
        (NeverTriggers s.stop → NeverTriggers s'.stop)) fun e _ => GivesUp s.stop e := by
  have hlt := undecided_decision_lt hr ht quiet next b
  have hle := Nat.le_of_lt_succ (Nat.lt_of_lt_of_le hlt hbound)
  exact ih _ s (valid_decision hr ht quiet next b) hle hb hne

/-- One node of the search tree, given the searches below it. -/
theorem searches_node {bound : Nat} (hr : Trail.InRange clauses n)
    (ih : ∀ m, bound = m + 1 → ∀ t (s : State σ), Searches clauses n m t s) :
    Searches clauses n bound t s := by
  intro ht hbound hb hne
  unfold search
  rw [ends_bind]
  refine ends_poll.mono (fun _ s₁ ⟨hb₁, hstop₁⟩ => ?_) fun _ _ he => he
  rw [← hb₁] at hb hne ⊢
  split
  next x t' stopped =>
    exact (ends_conflict hr ht hb stopped).mono (fun _ _ h => ⟨h.1, h.2 ∘ hstop₁⟩) fun _ _ he => he
  next t' quiet =>
    split
    next v m next =>
      rw [ends_bind]
      refine ends_count fun s₀ hb₀ hstop₀ => ?_
      rw [← hb₀] at hb hne ⊢
      rw [← hstop₀] at hstop₁
      rw [ends_bind]
      refine (ends_below hr (ih m rfl) ht hbound quiet next false hb hne).mono
        (fun node s₂ ⟨hexp, hstop₂⟩ => ?_) fun _ _ he => ⟨he.1, he.2 ∘ hstop₁⟩
      split
      next values => exact ⟨.firstModel quiet next hexp, hstop₂ ∘ hstop₁⟩
      next c =>
        split
        next hnot =>
          -- the refutation does not depend on the decision, so it is one of the node
          rw [Bool.not_eq_true', ← Bool.not_eq_true, Clause.contains_iff] at hnot
          exact ⟨.firstRefuted quiet next hexp hnot, hstop₂ ∘ hstop₁⟩
        next hused =>
          rw [Bool.not_eq_true', Bool.not_eq_false, Clause.contains_iff] at hused
          obtain ⟨hb₂, -, hc, -, honly⟩ :=
            hexp.found hr (valid_decision hr ht quiet next false) hb hne
          have hne₂ := honly.noneEmpty (ne_empty_of_mem hused)
          rw [ends_bind]
          refine (ends_below hr (ih m rfl) ht hbound quiet next true hb₂ hne₂).mono
            (fun node s₃ ⟨hexp', hstop₃⟩ => ?_) fun _ _ he => ⟨he.1, he.2 ∘ hstop₂ ∘ hstop₁⟩
          split
          next values =>
            exact ⟨.secondModel quiet next hexp hused hexp', hstop₃ ∘ hstop₂ ∘ hstop₁⟩
          next d =>
            obtain ⟨-, hgrows, hd, -, -⟩ :=
              hexp'.found hr (valid_decision hr ht quiet next true) hb₂ hne₂
            split
            next hnot =>
              rw [Bool.not_eq_true', ← Bool.not_eq_true, Clause.contains_iff] at hnot
              exact ⟨.secondRefuted quiet next hexp hused hexp' hnot, hstop₃ ∘ hstop₂ ∘ hstop₁⟩
            next hused' =>
              -- both refutations depend on their decision, and the trace still has the first one
              rw [Bool.not_eq_true', Bool.not_eq_false, Clause.contains_iff] at hused'
              rw [ends_bind]
              refine (ends_merge (Trace.get?_lt (hgrows.get? hc)) (Trace.get?_lt hd)).mono
                (fun r s₄ ⟨hadd, hstop₄⟩ => ?_) fun _ _ he => he
              exact ⟨.merged quiet next hexp hused hexp' hused' hadd,
                hstop₄ ▸ hstop₃ ∘ hstop₂ ∘ hstop₁⟩
    next bound _ _ hno =>
      -- the bound is at least the number of variables that are left, so there is none if it is zero
      cases hnext : t'.firstUndecided? with
      | none => exact ⟨.model quiet hnext, hstop₁⟩
      | some v =>
          have hlt := undecided_decision_lt hr ht quiet hnext true
          obtain ⟨m, rfl⟩ := Nat.exists_eq_succ_of_ne_zero
            (Nat.ne_of_gt (Nat.lt_of_lt_of_le (Nat.zero_lt_of_lt hlt) hbound))
          exact absurd rfl (hno v m hnext)

/-- **A search explores what is below its trail**, if the bound is at least the number of variables
without a value. -/
theorem searches (hr : Trail.InRange clauses n) (bound : Nat) (t : Trail) (s : State σ) :
    Searches clauses n bound t s := by
  induction bound generalizing t s with
  | zero => exact searches_node hr fun m h => absurd h (Nat.succ_ne_zero m).symm
  | succ k ih =>
      refine searches_node hr fun m h => ?_
      obtain rfl : k = m := Nat.succ.inj h
      exact ih

end Recursion

end ModelFinder.Prover.Search
