import ModelFinder.Proofs.Backend
import ModelFinder.Proofs.Pipeline.Completion
import ModelFinder.Proofs.Pipeline.History
import ModelFinder.Proofs.Reduction.Draining
import ModelFinder.Proofs.Reduction.Rounds

/-!
# Reductions converge

A round of a reduction that calls the back end has taken a root from the pool before it does, so
there are no more calls than roots.  To speak of calls at all, the reduction is run with a log
beside its stop condition, into which the back end writes each problem that it is given
(`Backend.sealed`, `Backend.watched`); the log changes nothing (`Reduction.eq_watched`).

The same measure bounds iterations.  A round starts with no more roots than iterations are left, and
takes a root before it polls, so that an iteration is left whenever a poll is made, be it by the
reduction or by a back end that makes no iterations of its own (`Backend.Frugal`).  The prover is
such a back end: under a budget that is not used up it runs in lockstep with itself under no limit
at all (`Prover.frugal_backend`).

* `Reduction.conserves_calls`: what rounds keep of the calls, whatever the back end is.
* `Reduction.conserves_budget`: no poll triggers while there is an iteration for every root.
-/

namespace ModelFinder

open Lockstep Session

variable {L : Logic} {κ β σ : Type}

/-! ### Calls of a back end -/

namespace Occurrence

/-- The problems that a back end was called with. -/
def problems (h : List (Occurrence L)) : List Cnf :=
  h.filterMap fun
    | resolving cnf => some cnf
    | _ => none

@[simp] theorem problems_append (h h' : List (Occurrence L)) :
    problems (h ++ h') = problems h ++ problems h' := List.filterMap_append

variable [StopCondition σ]

theorem problems_poll (w : Watched L σ) : problems (StopCondition.poll w).2.log = problems w.log :=
  (problems_append _ _).trans (List.append_nil _)

theorem problems_tick (w : Watched L σ) : problems (StopCondition.tick w).log = problems w.log :=
  (problems_append _ _).trans (List.append_nil _)

end Occurrence

/-- A back end that writes nothing into the log. -/
def Backend.sealed (backend : Backend β σ) : Backend β (Watched L σ) where
  solve cnf := Session.within (fun s => (s.1, s.2.stop))
    (fun r s => (r.1, { s.2 with stop := r.2 })) (backend.solve cnf)

theorem Backend.inStep_sealed (backend : Backend β σ) :
    backend.InStep (watching (fun _ : Watched L σ => True) fun _ => True) backend.sealed := by
  rintro cnf ⟨b, stop⟩ ⟨b', w⟩ ⟨rfl : b = b', rfl, -⟩
  exact agrees_of_state (backend.solve cnf (b, w.stop)) ⟨rfl, rfl, trivial⟩ ⟨rfl, rfl, trivial⟩

/-- Every call is logged, also one that fails, and nothing else is. -/
theorem Backend.ends_watched_sealed (backend : Backend β σ) (cnf : Cnf) (s : β × Watched L σ) :
    (backend.sealed.watched.solve cnf).Ends s
      (fun _ s' => s'.2.log = s.2.log ++ [.resolving cnf])
      fun _ s' => s'.2.log = s.2.log ++ [.resolving cnf] := by
  unfold watched
  rw [ends_bind, ends_update]
  unfold Backend.sealed
  rw [ends_within]
  unfold Ends
  split
  · exact rfl
  · exact rfl

namespace Reduction

variable {strategy : Strategy κ} [StopCondition σ]

/-- What is left of a watched state without the log. -/
def State.unwatched (s : State κ β (Watched L σ)) : State κ β σ := { s with stop := s.stop.stop }

/-- The log changes nothing. -/
theorem eq_watched (strategy : Strategy κ) (backend : Backend β σ) (t : Trace) (k : κ) (b : β)
    (stop : σ) :
    let o := (minimiseCore strategy backend.sealed.watched t).run
      ⟨k, b, (⟨stop, []⟩ : Watched L σ)⟩
    (minimiseCore strategy backend t).run ⟨k, b, stop⟩ =
      ⟨o.answer, o.state.unwatched, o.notes⟩ := by
  have hstate (s : State κ β σ) (s' : State κ β (Watched L σ))
      (hrest : (s.strategy, s.backend) = (s'.strategy, s'.backend))
      (hstop : s'.stop.stop = s.stop) : s = s'.unwatched := by
    obtain ⟨k, b, stop⟩ := s
    cases hrest
    cases hstop
    rfl
  have hb : backend.InStep (watching (fun _ : Watched L σ => True) fun _ => True)
      backend.sealed.watched :=
    Pipeline.inStep_watched_backend (fun _ _ _ => trivial) backend.inStep_sealed
  exact Lockstep.eq_of_agrees (k := lockstep (watching (fun _ => True) fun _ => True) κ β)
    (fun s s' hs => hstate s s' hs.1 hs.2.1) (fun s s' hs => hstate s s' hs.1 hs.2.1) (fun _ => id)
    (inStep_minimiseCore steady_watching_any hb strategy t ⟨rfl, rfl, trivial⟩)

/-- **The calls of a back end**, together with the candidates that may still come, are no more than
there were candidates at the start. -/
theorem conserves_calls (backend : Backend β σ) (bound : Nat) :
    Conserves backend.sealed.watched
      (fun m (w : Watched L σ) => (Occurrence.problems w.log).length + m ≤ bound)
      fun _ w => (Occurrence.problems w.log).length ≤ bound where
  weaken hle h := Nat.le_trans (Nat.add_le_add_left hle _) h
  poll {m w} h := by
    rw [ends_poll_iff, Occurrence.problems_poll]
    exact ⟨fun _ => h, fun _ => Nat.le_of_add_right_le h⟩
  solve {m w} cnf b h := by
    have hcall {log : List (Occurrence L)} (hlog : log = w.log ++ [.resolving cnf]) :
        (Occurrence.problems log).length + m ≤ bound := by
      rw [hlog, Occurrence.problems_append, List.length_append, Nat.add_right_comm]
      exact h
    refine (backend.ends_watched_sealed cnf (b, w)).mono (fun o r hr => ?_) fun e r hr => ?_
    · rw [Occurrence.problems_tick]
      exact hcall hr
    · exact Nat.le_of_add_right_le (hcall hr)
  violation {m w} cause h := by
    rw [Occurrence.problems_tick, or_self] at h
    exact Nat.le_of_add_right_le h

end Reduction

/-! ### Iterations -/

/-- A back end that makes no iterations, and does not fail while there are any left. -/
def Backend.Frugal (backend : Backend β IterationBudget) : Prop :=
  ∀ cnf b budget, budget.made < budget.budget →
    (backend.solve cnf).Ends (b, budget) (fun _ r => r.2 = budget) fun _ _ => False

/-- Polls of a budget, in which there is something left, and polls of no limit at all. -/
def Lockstep.unlimited (budget : IterationBudget) : Lockstep IterationBudget Indefinite where
  running s _ := s = budget
  stopped _ _ := False
  cuts _ := False

theorem Lockstep.alike_unlimited {budget : IterationBudget} (h : budget.made < budget.budget) :
    (unlimited budget).Alike where
  poll := by
    rintro _ _ rfl
    exact .inl ⟨decide_eq_false (Nat.not_le_of_lt h), rfl, rfl⟩

theorem Prover.frugal_backend : (Prover.backend : Backend Counters IterationBudget).Frugal := by
  intro cnf k budget hlt
  have hagrees := Prover.inStep_backend (alike_unlimited hlt) cnf
    (show ((unlimited budget).beside Counters).running (k, budget) (k, .indefinite) from ⟨rfl, rfl⟩)
  have hends := Prover.reliable_backend cnf k Indefinite.indefinite trivial
    (StopCondition.neverTriggers_indefinite _)
  unfold Ends at hends ⊢
  generalize Prover.backend.solve cnf (k, budget) = o at hagrees ⊢
  generalize Prover.backend.solve cnf (k, Indefinite.indefinite) = o' at hagrees hends
  cases hagrees with
  | answered hs => exact hs.2
  | failed => exact hends
  | stopped hs => exact hs.2
  | cut hcuts => exact hcuts

namespace Reduction

/-- **A budget with an iteration for each candidate** is not used up before a poll. -/
theorem conserves_budget {backend : Backend β IterationBudget} (hb : backend.Frugal) :
    Conserves backend (fun m budget => budget.made + m ≤ budget.budget)
      fun e _ => ∃ cause, e = .violation cause where
  weaken hle h := Nat.le_trans (Nat.add_le_add_left hle _) h
  poll {m budget} h := by
    have hlt := Nat.lt_of_lt_of_le (Nat.lt_add_of_pos_right m.succ_pos) h
    exact ends_poll_iff.mpr ⟨fun _ => h, fun htriggers =>
      absurd (of_decide_eq_true htriggers) (Nat.not_le_of_lt hlt)⟩
  solve {m budget} cnf b h := by
    have hlt := Nat.lt_of_lt_of_le (Nat.lt_add_of_pos_right m.succ_pos) h
    refine (hb cnf b budget hlt).mono (fun o r hr => ?_) fun _ _ he => he.elim
    rw [hr]
    show budget.made + 1 + m ≤ budget.budget
    rwa [Nat.add_assoc, Nat.add_comm 1]
  violation cause _ := ⟨cause, rfl⟩

/-! ### Reductions by roots -/

/-- **Reductions converge.**  From the roots of a log, whatever the refutation, the back end and the
stop condition are, a reduction calls the back end at most once for each of these roots; and if all
calls come to an end, so does the reduction.  With the prover and a fresh budget of an iteration for
each root, and at least one, it answers or finds a promise broken: it does not give up, be it
between two calls or during one. -/
theorem minimiseCore_converges (log : TranslationLog L) {strategy : Strategy RootPool}
    (h : strategy.IsRootwise) (t : Trace) :
    (∀ {β σ : Type} [StopCondition σ] (backend : Backend β σ) (b : β) (stop : σ),
      let o := (minimiseCore strategy backend t).run ⟨.ofLog log, b, stop⟩
      let w := (minimiseCore strategy backend.sealed.watched t).run
        ⟨.ofLog log, b, (⟨stop, []⟩ : Watched L σ)⟩
      o = ⟨w.answer, w.state.unwatched, w.notes⟩ ∧
        (Occurrence.problems w.state.stop.log).length ≤ log.rootVars.length ∧
        (backend.Finishes → o.answer ≠ .error .unfinished)) ∧
    ∀ n, max log.rootVars.length 1 ≤ n → ∃ budget, IterationBudget.ofNat n = .ok budget ∧
      ∀ k : Prover.Counters,
        let o := (minimiseCore strategy Prover.backend t).run ⟨.ofLog log, k, budget⟩
        (∃ t', o.answer = .ok t') ∨ ∃ cause, o.answer = .error (.violation cause) := by
  obtain ⟨distance, hscans⟩ := h.exists_scans
  have hshrinks := hscans.shrinks
  have hremaining : strategy.remaining (.ofLog log) = log.rootVars.length := hscans.remaining _
  constructor
  · intro β σ _ backend b stop o w
    have hcalls : (Occurrence.problems w.state.stop.log).length ≤ log.rootVars.length := by
      have hends := (conserves_calls backend log.rootVars.length).ends_minimiseCore hshrinks t
        (s := ⟨.ofLog log, b, (⟨stop, []⟩ : Watched L σ)⟩)
          (by rw [hremaining]; exact Nat.le_of_eq (Nat.zero_add _))
      exact hends.state
    refine ⟨eq_watched strategy backend t _ b stop, hcalls, fun hb hanswer => ?_⟩
    exact (finishes_minimiseCore hshrinks hb t).of_failure hanswer rfl
  · intro n hn
    obtain ⟨hroots, hpos⟩ := Nat.max_le.mp hn
    refine ⟨⟨n, 0⟩, if_neg (Nat.ne_of_gt hpos), ?_⟩
    intro k o
    have hends := (conserves_budget Prover.frugal_backend).ends_minimiseCore hshrinks t
      (s := ⟨.ofLog log, k, ⟨n, 0⟩⟩) (by rw [hremaining, Nat.zero_add]; exact hroots)
    cases hanswer : o.answer with
    | ok t' => exact .inl ⟨t', rfl⟩
    | error e =>
        obtain ⟨cause, rfl⟩ := hends.of_failure hanswer
        exact .inr ⟨cause, rfl⟩

/-- Three roots take three iterations: two are not enough. -/
theorem minimiseCore_converges_three_roots :
    let log := Strategy.logOf [1, 2, 3]
    let run (budget : IterationBudget) (k : Prover.Counters) :=
      (minimiseCore (.recycling (.bounded 0)) Prover.backend Strategy.threeRoots).run
        ⟨RootPool.ofLog log, k, budget⟩
    max log.rootVars.length 1 ≤ 3 ∧
      (∃ budget, IterationBudget.ofNat 3 = .ok budget ∧ ∀ k : Prover.Counters,
        (∃ t', (run budget k).answer = .ok t') ∨
          ∃ cause, (run budget k).answer = .error (.violation cause)) ∧
      (run ⟨2, 0⟩ {}).answer = .error (.exhausted .reduction) := by
  intro log run
  have hroots : max log.rootVars.length 1 ≤ 3 := by cbv
  have htwo : (run ⟨2, 0⟩ {}).answer = .error (.exhausted .reduction) := by cbv
  have hconverges := minimiseCore_converges log (.recycling (.bounded 0)) Strategy.threeRoots
  exact ⟨hroots, hconverges.2 3 hroots, htwo⟩

end Reduction

end ModelFinder
