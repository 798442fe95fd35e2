import ModelFinder.Proofs.Refinement.Soundness
import ModelFinder.Proofs.Refinement.Steps
import ModelFinder.Proofs.Solver

/-!
# What a limit on polls changes

A session with a limit on the number of polls (`limited`) and one with a larger limit, or with none,
run in lockstep until the smaller limit is reached (`steady_limits`).  So the smaller limit changes
nothing but completion (`Solver.solve_limits`): a session that comes to an end under it comes to the
same end under the larger one, and one that gives up has reached milestones which the other reaches
as well.  The other conditions that a session may be under are the same in both; they may be
anything.
-/

namespace ModelFinder

open Lockstep StopCondition

/-- A stop condition that triggers once more polls than a limit have been made, beside other
conditions. -/
def limited (limit : Option Nat) (polls iterations : Nat) (rest : Composite Condition) :
    Composite Condition := .either (.single (.polls ⟨limit, polls, iterations⟩)) rest

section Limited

variable {limit : Option Nat} {polls iterations : Nat} {rest : Composite Condition}

theorem poll_limited : poll (limited limit polls iterations rest) =
    (limit.any (fun n => decide (n < polls + 1)) || (poll rest).1,
      limited limit (polls + 1) iterations (poll rest).2) := rfl

theorem tick_limited : tick (limited limit polls iterations rest) =
    limited limit polls (iterations + 1) (tick rest) := rfl

end Limited

/-- Two conditions with different limits and the same counts.  The run under the smaller limit may
end alone, when it is reached. -/
def Lockstep.limits (p : Nat) (q : Option Nat) :
    Lockstep (Composite Condition) (Composite Condition) where
  running s s' := ∃ polls iterations rest,
    s = limited (some p) polls iterations rest ∧ s' = limited q polls iterations rest
  stopped _ _ := False
  cuts e := (∃ phase, e = .exhausted phase) ∨ e = .unfinished

/-- As long as the smaller limit does not trigger, the larger one does not either. -/
theorem steady_limits {p : Nat} {q : Option Nat} (hq : ∀ m ∈ q, p ≤ m) :
    (limits p q).Steady where
  poll := by
    rintro _ _ ⟨polls, iterations, rest, rfl, rfl⟩
    cases hpoll : (poll (limited (some p) polls iterations rest)).1 with
    | true => exact .inr (.inr ⟨rfl, fun phase => .inl ⟨phase, rfl⟩⟩)
    | false =>
        refine .inl ⟨rfl, ?_, polls + 1, iterations, (poll rest).2, rfl, rfl⟩
        simp only [poll_limited, Bool.or_eq_false_iff] at hpoll ⊢
        refine ⟨?_, hpoll.2⟩
        cases q with
        | none => rfl
        | some m =>
            have hpm : p ≤ m := hq m rfl
            have hp : ¬ p < polls + 1 := of_decide_eq_false hpoll.1
            exact decide_eq_false (by omega)
  tick := by
    rintro _ _ ⟨polls, iterations, rest, rfl, rfl⟩
    exact ⟨polls, iterations + 1, tick rest, tick_limited, tick_limited⟩

/-- The same parts under a limit on polls, beside the stop condition that is there. -/
def SolverState.limitedTo {ω τ β : Type} (limit : Option Nat)
    (s : SolverState ω τ β (Composite Condition)) : SolverState ω τ β (Composite Condition) :=
  { s with stop := limited limit 0 0 s.stop }

namespace Solver

variable {L : Logic} {ω τ β σ : Type}

/-- The stop condition of a run makes no difference to the rest of what a session makes of it. -/
theorem finish_of_stop (h : Bool) (answer : Except Failure (Verdict L))
    (s : Refinement.State ω (τ × β) σ) (stop : σ) (notes : List (Note (Milestone L))) :
    finish h ⟨answer, { s with stop }, notes⟩ =
      { finish h ⟨answer, s, notes⟩ with
        state := { (finish h ⟨answer, s, notes⟩).state with stop } } := by
  rcases answer with (_ | _ | _ | _ | _) | (_ | _) <;> rfl

/-- How sessions end whose runs are in lockstep. -/
theorem finish_limits {p : Nat} {q : Option Nat} {h : Bool}
    {r r' : Outcome (Note (Milestone L)) Failure
      (Refinement.State ω (τ × β) (Composite Condition)) (Verdict L)}
    (hr : (Refinement.lockstep (limits p q) ω (τ × β)).Agrees r r')
    (hfinished : (finish h r).answer ≠ .error .unfinished) :
    ((finish h r).answer ≠ .ok .unknown → ∃ polls iterations rest,
      (finish h r).state.stop = limited (some p) polls iterations rest ∧
        finish h r' = ⟨(finish h r).answer,
          { (finish h r).state with stop := limited q polls iterations rest },
          (finish h r).notes⟩) ∧
      ((finish h r).answer = .ok .unknown →
        Note.milestones (finish h r).notes <+: Note.milestones (finish h r').notes) := by
  have hsame {answer : Except Failure (Verdict L)} {notes : List (Note (Milestone L))}
      {s s' : Refinement.State ω (τ × β) (Composite Condition)}
      (hs : (Refinement.lockstep (limits p q) ω (τ × β)).running s s') :
      ∃ polls iterations rest,
        (finish h ⟨answer, s, notes⟩).state.stop = limited (some p) polls iterations rest ∧
          finish h ⟨answer, s', notes⟩ = ⟨(finish h ⟨answer, s, notes⟩).answer,
            { (finish h ⟨answer, s, notes⟩).state with
              stop := limited q polls iterations rest },
            (finish h ⟨answer, s, notes⟩).notes⟩ := by
    obtain ⟨o, π, stop, c⟩ := s
    obtain ⟨o', π', stop', c'⟩ := s'
    obtain ⟨hrest, polls, iterations, rest, rfl, rfl⟩ := hs
    cases hrest
    exact ⟨polls, iterations, rest, by simp, finish_of_stop h answer ⟨o, π, _, c⟩ _ notes⟩
  cases hr with
  | answered hs => exact ⟨fun _ => hsame hs, fun _ => by simp⟩
  | failed _ hs => exact ⟨fun _ => hsame hs, fun _ => by simp⟩
  | stopped hs => exact hs.2.elim
  | cut hc he =>
      rcases hc with ⟨phase, rfl⟩ | rfl
      · refine ⟨fun hknown => absurd rfl hknown, fun _ => ?_⟩
        rw [milestones_finish, milestones_finish]
        exact he.filterMap _
      · exact absurd rfl hfinished

/-- **A limit on polls changes nothing but completion.**  If a session comes to an end under a
limit, it comes to the same end under a larger one and under none, with the same notes and the same
numbers of polls and iterations; if it gives up, the milestones it has reached come first under a
larger one as well. -/
theorem solve_limits {p : Nat} {q : Option Nat} (hq : ∀ m ∈ q, p ≤ m) {n n' : Nat} (hle : n ≤ n')
    (translator : Translator L τ) (oracle : Oracle L ω) (options : SolverOptions) (f : Problem L)
    (s : SolverState ω τ Prover.Counters (Composite Condition)) :
    let r := ((withProver translator oracle options).solve n f).run (s.limitedTo (some p))
    let r' := ((withProver translator oracle options).solve n' f).run (s.limitedTo q)
    r.answer ≠ .error .unfinished →
      (r.answer ≠ .ok .unknown → ∃ polls iterations rest,
        r.state.stop = limited (some p) polls iterations rest ∧
          r' = ⟨r.answer, { r.state with stop := limited q polls iterations rest }, r.notes⟩) ∧
        (r.answer = .ok .unknown → Note.milestones r.notes <+: Note.milestones r'.notes) := by
  intro r r' hfinished
  have hk := steady_limits hq
  have hp := Pipeline.inStep_translateAndSolve hk (Prover.inStep_backend hk.toAlike) translator
    options
  have hs : (Refinement.lockstep (limits p q) ω (τ × Prover.Counters)).running
      (start (s.limitedTo (some p))) (start (s.limitedTo q)) := ⟨rfl, 0, 0, s.stop, rfl, rfl⟩
  have h := Refinement.inStep_solve hk hp oracle hle (fun _ => .inr rfl) f hs
  exact finish_limits h hfinished

end Solver

/-! ### Lists with one number -/

namespace Refinement.Wanted

/-- The variable that stands for a list. -/
def listed : Variable := ⟨1, by decide, by decide⟩

/-- A list is one constraint, which its variable stands for.  It is asserted, and contradicted if
the list is empty; otherwise its first number is a model. -/
def translator : Translator logic Unit where
  translate p := pure
    { cnf := ⟨1, if (numbers p.formula).isEmpty then [[⟨listed, true⟩], [⟨listed, false⟩]]
        else [[⟨listed, true⟩]]⟩
      log := .filled 0 [⟨listed, .root p.formula⟩] }
  interpret tr _ := (tr.log.roots.flatMap numbers).headD 0

/-- The search for the only number of a list. -/
def session (limit : Option Nat) (ns : List Nat) :
    Outcome (Note (Milestone logic)) Failure
      (SolverState Unit Unit Prover.Counters (Composite Condition)) (Solution logic) :=
  ((Solver.withProver translator exclusion {}).solve 20 ⟨only ns, ()⟩).run
    (SolverState.limitedTo limit ⟨(), (), {}, .absent⟩)

/-- Whether 20 polls are enough to find out that neither 1 nor 2 is the only number of their list,
and 7 are not. -/
def needsPolls : Bool :=
  match (session (some 20) [1, 2]).answer, (session (some 7) [1, 2]).answer with
  | .ok (.unsatisfiable _), .ok .unknown => true
  | _, _ => false

end Refinement.Wanted

open Refinement.Wanted in
/-- That neither 1 nor 2 is the only number of their list is found out with 20 polls, and then also
without a limit; with 7 it is not. -/
theorem Solver.solve_limits_only_number :
    (∃ core polls iterations rest, (session (some 20) [1, 2]).answer = .ok (.unsatisfiable core) ∧
      (session (some 20) [1, 2]).state.stop = limited (some 20) polls iterations rest ∧
        session none [1, 2] = ⟨.ok (.unsatisfiable core),
          { (session (some 20) [1, 2]).state with stop := limited none polls iterations rest },
          (session (some 20) [1, 2]).notes⟩) ∧
      (session (some 7) [1, 2]).answer = .ok .unknown ∧
        Note.milestones (session (some 7) [1, 2]).notes <+:
          Note.milestones (session none [1, 2]).notes := by
  have hlimits (p : Nat) (hfinished : (session (some p) [1, 2]).answer ≠ .error .unfinished) :=
    solve_limits (p := p) (q := none) (fun _ h => by cases h) (Nat.le_refl 20)
      Refinement.Wanted.translator exclusion {} ⟨.only [1, 2], ()⟩ ⟨(), (), {}, .absent⟩ hfinished
  have hrun : needsPolls = true := by decide +kernel
  unfold needsPolls at hrun
  split at hrun
  next core hunsat hunknown =>
    have hfinished : (session (some 20) [1, 2]).answer ≠ .error .unfinished := fun h => by
      cases hunsat.symm.trans h
    have hknown : (session (some 20) [1, 2]).answer ≠ .ok .unknown := fun h => by
      cases hunsat.symm.trans h
    have hfinished' : (session (some 7) [1, 2]).answer ≠ .error .unfinished := fun h => by
      cases hunknown.symm.trans h
    obtain ⟨polls, iterations, rest, hstop, hnone⟩ := (hlimits 20 hfinished).1 hknown
    refine ⟨⟨core, polls, iterations, rest, hunsat, hstop, ?_⟩, hunknown,
      (hlimits 7 hfinished').2 hunknown⟩
    rw [← hunsat]
    exact hnone
  next => cases hrun

end ModelFinder
