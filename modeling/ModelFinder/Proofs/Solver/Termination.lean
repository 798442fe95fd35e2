import ModelFinder.Proofs.Pipeline.History
import ModelFinder.Proofs.Refinement.Completion
import ModelFinder.Proofs.Refinement.Cores
import ModelFinder.Proofs.Solver

/-!
# A limit on polls ends a session

An oracle may refine and split forever, and then only the stop condition ends a session.  With a
limit on polls it always does (`Solver.solve_pollLimit`): the polls are used up after so many rounds
at most, and what the session does between two polls comes to an end.

What happens in a session is its `Solver.history`, with the polls, the calls of the back end and of
the oracle, and the milestones.  While no poll has triggered the session `GoesOn`, and when one has
it `HasStopped`: nothing has happened since.  Under any stop condition a session is in the one state
or in the other (`Solver.goesOn_or_hasStopped`), which is a matter of lockstep.
-/

namespace ModelFinder

open Lockstep StopCondition

variable {L : Logic} {ω τ σ : Type} [StopCondition σ]

/-! ### Polls in a history -/

namespace Watched

/-- The stop condition has seen the calls that are logged, and at most so many of its polls have
been made after those that it lets pass. -/
structure Counts (stop : σ) (extra : Nat) (w : Watched L σ) : Prop where
  stop_eq : w.stop = (Occurrence.stopCalls w.log).foldl step stop
  polls_le : ∀ n, TriggersAfter n stop → (Occurrence.stopCalls w.log).count .poll ≤ n + extra

/-- No poll has triggered. -/
structure GoesOn (stop : σ) (w : Watched L σ) : Prop where
  not_triggered : .polled true ∉ w.log
  counts : w.Counts stop 0

/-- A poll has triggered, and nothing has happened since. -/
structure HasStopped (stop : σ) (w : Watched L σ) : Prop where
  triggered : ∃ before, w.log = before ++ [.polled true] ∧ .polled true ∉ before
  counts : w.Counts stop 1

variable {stop : σ} {extra extra' : Nat} {w : Watched L σ}

theorem goesOn_start (stop : σ) : GoesOn stop (⟨stop, []⟩ : Watched L σ) :=
  ⟨List.not_mem_nil, rfl, fun _ _ => Nat.zero_le _⟩

/-- One more call of the stop condition, which is logged. -/
theorem Counts.call (h : w.Counts stop extra) {e : Occurrence L} {c : Call}
    (he : e.stopCall? = some c) (hpolls : ∀ n, TriggersAfter n stop →
      (Occurrence.stopCalls w.log).count .poll + [c].count .poll ≤ n + extra') :
    Counts stop extra' ⟨step w.stop c, w.log ++ [e]⟩ where
  stop_eq := by
    rw [Occurrence.stopCalls_concat, he, List.foldl_append, ← h.stop_eq]
    rfl
  polls_le n hn := by
    rw [Occurrence.stopCalls_concat, he, List.count_append]
    exact hpolls n hn

/-- A poll that does not trigger is one of those that the stop condition lets pass. -/
theorem GoesOn.poll (h : GoesOn stop w) (hpoll : (StopCondition.poll w.stop).1 = false) :
    GoesOn stop ⟨step w.stop .poll, w.log ++ [.polled false]⟩ := by
  refine ⟨by simpa using h.not_triggered, h.counts.call rfl fun n hn => ?_⟩
  refine Nat.lt_of_not_le fun hle => ?_
  have htriggers := hn _ hle
  rw [← h.counts.stop_eq, hpoll] at htriggers
  cases htriggers

theorem GoesOn.stopped (h : GoesOn stop w) :
    HasStopped stop ⟨step w.stop .poll, w.log ++ [.polled true]⟩ :=
  ⟨⟨w.log, rfl, h.not_triggered⟩,
    h.counts.call rfl fun n hn => Nat.succ_le_succ (h.counts.polls_le n hn)⟩

theorem GoesOn.tick (h : GoesOn stop w) : GoesOn stop ⟨step w.stop .tick, w.log ++ [.ticked]⟩ :=
  ⟨by simpa using h.not_triggered, h.counts.call rfl h.counts.polls_le⟩

/-- Nothing that is not a poll or a tick matters. -/
theorem keeps_goesOn (stop : σ) : Keeps (L := L) (GoesOn stop) := by
  intro w e he h
  have hcalls : Occurrence.stopCalls (w.push [e]).log = Occurrence.stopCalls w.log := by
    show Occurrence.stopCalls (w.log ++ [e]) = _
    rw [Occurrence.stopCalls_concat, he, Option.toList_none, List.append_nil]
  have hnot : .polled true ∉ (w.push [e]).log := fun hmem => by
    rcases List.mem_append.mp hmem with hmem | hmem
    · exact h.not_triggered hmem
    · rw [← List.mem_singleton.mp hmem] at he
      cases he
  refine ⟨hnot, ?_, ?_⟩
  · rw [hcalls]
    exact h.counts.stop_eq
  · rw [hcalls]
    exact h.counts.polls_le

theorem HasStopped.mem (h : HasStopped stop w) : .polled true ∈ w.log := by
  obtain ⟨before, hbefore, -⟩ := h.triggered
  rw [hbefore]
  exact List.mem_append_right before List.mem_cons_self

/-- Nothing comes after a poll that has triggered. -/
theorem HasStopped.eq_nil (h : HasStopped stop w) {before after : List (Occurrence L)}
    (hlog : w.log = before ++ .polled true :: after) : after = [] := by
  obtain ⟨before', hbefore', hnot⟩ := h.triggered
  rcases List.append_eq_append_iff.mp (hbefore'.symm.trans hlog) with ⟨es, -, hes⟩ | ⟨es, hes, heq⟩
  · have hlength := congrArg List.length hes
    simp only [List.length_append, List.length_cons, List.length_nil] at hlength
    exact List.length_eq_zero_iff.mp (by omega)
  · cases es with
    | nil => exact (List.cons.inj heq).2
    | cons e es =>
        -- the poll would be among those that have not triggered
        rw [hes, (List.cons.inj heq).1] at hnot
        exact absurd (List.mem_append_right before List.mem_cons_self) hnot

theorem steady_goesOn (stop : σ) :
    (watching (L := L) (GoesOn stop) (HasStopped stop)).Steady := by
  have hpoll {b : Bool} {w : Watched L σ} (hb : (poll w).1 = b) :
      (poll w).2 = ⟨step w.stop .poll, w.log ++ [.polled b]⟩ := by
    rw [← hb]
    rfl
  refine steady_watching (fun w h hb => ?_) (fun w h hb => ?_) fun w h => h.tick
  · rw [hpoll hb]
    exact h.poll hb
  · rw [hpoll hb]
    exact h.stopped

end Watched

namespace Solver

/-! ### Sessions -/

section Sessions

variable (translator : Translator L τ) (oracle : Oracle L ω) (options : SolverOptions)
  (f : Problem L)

/-- All that happens in a session of a solver with the built-in prover. -/
def history (rounds : Nat) (s : SolverState ω τ Prover.Counters σ) : List (Occurrence L) :=
  Refinement.history oracle (Pipeline.observed translator Prover.backend options) rounds f (start s)

/-- The milestones of a session are those of its history. -/
theorem milestones_history (rounds : Nat) (s : SolverState ω τ Prover.Counters σ) :
    Occurrence.milestones (history translator oracle options f rounds s) =
      Note.milestones (((withProver translator oracle options).solve rounds f).run s).notes := by
  have hp := Pipeline.inStep_observed (L := L) (σ := σ) steady_watching_any
    (fun _ _ _ _ => trivial) (Prover.inStep_backend steady_watching_any.toAlike) translator options
  have hlogs : Refinement.Logs (Refinement.watch (ω := ω) oracle
      (Pipeline.observed (σ := σ) translator Prover.backend options) rounds f)
      (Refinement.Spends true .initial []) :=
    Refinement.spends_watch (Pipeline.logsInside_observed translator options) rounds f
  have hrun := (Refinement.history_of_logs hp hlogs (start s)).1
  unfold Session.run at *
  rw [solve_eq_finish, milestones_finish]
  exact hrun

/-- A session goes on until a poll triggers, and then it has stopped. -/
theorem goesOn_or_hasStopped (rounds : Nat) (s : SolverState ω τ Prover.Counters σ) :
    let r := ((withProver translator oracle options).solve rounds f).run s
    let w : Watched L σ := ⟨r.state.stop, history translator oracle options f rounds s⟩
    (r.answer = .ok .unknown ∧ w.HasStopped s.stop) ∨
      (r.answer ≠ .ok .unknown ∧ w.GoesOn s.stop) := by
  intro r w
  have hk := Watched.steady_goesOn (L := L) s.stop
  have hkeeps := Watched.keeps_goesOn (L := L) s.stop
  have hp := Pipeline.inStep_observed hk hkeeps (Prover.inStep_backend hk.toAlike) translator options
  have hstart : (Refinement.lockstep (watching (Watched.GoesOn s.stop) (Watched.HasStopped s.stop))
      ω (τ × Prover.Counters)).running (start s) ((start s).unlogged L) :=
    ⟨rfl, rfl, Watched.goesOn_start s.stop⟩
  obtain ⟨hstop, h⟩ := Refinement.stop_of_agrees
    (Refinement.inStep_watch hk hkeeps hp oracle rounds f hstart)
  -- what is logged in the end, and the stop condition of the run itself
  have hw : w = ((Refinement.watch oracle (Pipeline.observed translator Prover.backend options)
      rounds f).run ((start s).unlogged L)).state.stop := by
    have hfinish : r.state.stop = _ := congrArg SolverState.stop (finish_state _ _)
    show (⟨r.state.stop, _⟩ : Watched L σ) = _
    rw [hfinish]
    exact congrArg (Watched.mk · _) hstop.symm
  have hunknown : r.answer = .ok .unknown ↔ _ := finish_answer_eq_unknown_iff _ _
  rw [hw]
  exact h.imp (And.imp_left hunknown.mpr) (And.imp_left (mt hunknown.mp))

/-- With a stop condition that triggers after fewer polls than there are rounds, the rounds are not
used up. -/
theorem solve_finishes {s : SolverState ω τ Prover.Counters σ} {n rounds : Nat}
    (hn : TriggersAfter n s.stop) (hlt : n < rounds) :
    (((withProver translator oracle options).solve rounds f).run s).answer
      ≠ .error .unfinished := by
  have hp := Pipeline.finishes_translateAndSolve (σ := σ) translator options
  have h : Refinement.Finishes n (Refinement.solve oracle
      (Pipeline.translateAndSolve translator Prover.backend options) rounds f) (start s) :=
    Refinement.ends_solve_of_triggersAfter hp hn hlt f
  refine mt (finish_answer_eq_unfinished_iff _ _).mp fun hunfinished => ?_
  exact Session.Ends.of_failure h hunfinished rfl

end Sessions

/-- **A limit on polls ends every session**, whatever its oracle and its translator do, and with any
options.  More rounds than one for each poll make no difference, and there is at most one poll past
the limit.  In the history of the session, which has its polls and its milestones, nothing comes
after a poll that triggers, and there is one exactly if the session answers that it does not
know. -/
theorem solve_pollLimit (translator : Translator L τ) (oracle : Oracle L ω)
    (options : SolverOptions) (f : Problem L) (limit more : Nat) (o : ω) (t : τ)
    (c : Prover.Counters) :
    let solver := withProver translator oracle options
    let s : SolverState ω τ Prover.Counters PollLimit := ⟨o, t, c, { limit := some limit }⟩
    let r := (solver.solve (limit + 1 + more) f).run s
    let h := history translator oracle options f (limit + 1 + more) s
    r.answer ≠ .error .unfinished ∧ r = (solver.solve (limit + 1) f).run s ∧
      r.state.stop.polls ≤ limit + 1 ∧
      (Occurrence.stopCalls h).count .poll = r.state.stop.polls ∧
      Occurrence.milestones h = Note.milestones r.notes ∧
      (r.answer = .ok .unknown ↔ .polled true ∈ h) ∧
      ∀ before after, h = before ++ .polled true :: after → after = [] := by
  intro solver s r h
  have hlimit : TriggersAfter limit s.stop := triggersAfter_pollLimit limit
  have hfinished {rounds : Nat} (hlt : limit < rounds) :=
    solve_finishes translator oracle options f hlimit hlt
  have hsame : r = (solver.solve (limit + 1) f).run s := by
    have hrun := Refinement.solve_eq_of_le (Nat.le_add_right (limit + 1) more)
      (mt (finish_answer_eq_unfinished_iff (oracle.isHigherOrder f.formula) _).mpr
        (hfinished (Nat.lt_succ_self limit)))
    exact congrArg (finish (oracle.isHigherOrder f.formula)) hrun
  have hends := goesOn_or_hasStopped translator oracle options f (limit + 1 + more) s
  have hstop (extra : Nat) (hcounts : Watched.Counts s.stop extra ⟨r.state.stop, h⟩) :
      r.state.stop.polls ≤ limit + extra ∧
        (Occurrence.stopCalls h).count .poll = r.state.stop.polls := by
    have hpolls : r.state.stop.polls = 0 + (Occurrence.stopCalls h).count .poll := by
      have heq : r.state.stop = _ := hcounts.stop_eq
      rw [heq, foldl_step_pollLimit]
    rw [hpolls, Nat.zero_add]
    exact ⟨hcounts.polls_le limit hlimit, rfl⟩
  refine ⟨hfinished (by omega), hsame, ?_⟩
  rcases hends with ⟨hunknown, hstopped⟩ | ⟨hknown, hgoes⟩
  · obtain ⟨hle, hcount⟩ := hstop 1 hstopped.counts
    exact ⟨hle, hcount, milestones_history .., iff_of_true hunknown hstopped.mem,
      fun before after hsplit => hstopped.eq_nil hsplit⟩
  · obtain ⟨hle, hcount⟩ := hstop 0 hgoes.counts
    have hnot : .polled true ∉ h := hgoes.not_triggered
    refine ⟨Nat.le_succ_of_le hle, hcount, milestones_history .., iff_of_false hknown hnot,
      fun before after hsplit => absurd ?_ hnot⟩
    rw [hsplit]
    exact List.mem_append_right before List.mem_cons_self

end Solver

end ModelFinder
