import Mathlib.Logic.Relation
import ModelFinder.Proofs.Reduction.Soundness

/-!
# The course of a reduction

Between two rounds a reduction stands somewhere: it has a refutation, it has counted candidates, and
it is in a state (`Reduction.Config`).  A round that proposes a candidate and comes through leads
from there to the next place (`Reduction.Round`), and any number of rounds make up a course.

* `Round.ends_rounds`: after a round there is one round less to make.
* `Round.continues`: all that a round does with a sound back end.
* `exists_course_of_answer`: wherever a reduction stands, its answer is a later refutation.
-/

namespace ModelFinder.Reduction

open Session

variable {κ β σ : Type}

/-- Where a reduction stands between two rounds. -/
structure Config (κ β σ : Type) where
  trace : Trace
  counters : Counters
  state : State κ β σ

/-- A round: the strategy proposes a candidate, the stop condition does not trigger, and the
candidate is re-solved. -/
inductive Round [StopCondition σ] (strategy : Strategy κ) (backend : Backend β σ) :
    Config κ β σ → ClauseSet → Config κ β σ → Prop
  | intro {t t' : Trace} {k k' : Counters} {s s₁ s₂ s₃ : State κ β σ} {candidate : ClauseSet}
      (proposed : (propose strategy t).Answers s candidate s₁)
      (nonempty : candidate.isEmpty = false)
      (polled : (stopping (Session.poll .reduction)).Answers s₁ () s₂)
      (attempted : (attempt backend t candidate k).Answers s₂ (t', k') s₃) :
      Round strategy backend ⟨t, k, s⟩ candidate
        ⟨t', k', { s₃ with stop := StopCondition.tick s₃.stop }⟩

/-- Any number of rounds. -/
abbrev Course [StopCondition σ] (strategy : Strategy κ) (backend : Backend β σ) :
    Config κ β σ → Config κ β σ → Prop :=
  Relation.ReflTransGen fun x y => ∃ candidate, Round strategy backend x candidate y

/-- The candidate of the round was refuted, and counted so. -/
def Adopted (x y : Config κ β σ) : Prop :=
  y.counters.unsatisfiable = x.counters.unsatisfiable + 1

section Rounds

variable [StopCondition σ] {strategy : Strategy κ} {backend : Backend β σ} {x y : Config κ β σ}
  {candidate : ClauseSet} {t t' : Trace} {n : Nat}

/-- After a round there is one round less to make. -/
theorem Round.ends_rounds (h : Round strategy backend x candidate y)
    {Q : Trace × Counters → State κ β σ → Prop} {E : Failure → State κ β σ → Prop} :
    (rounds strategy backend (n + 1) x.trace x.counters).Ends x.state Q E ↔
      (rounds strategy backend n y.trace y.counters).Ends y.state Q E := by
  cases h with
  | intro proposed nonempty polled attempted =>
      rw [ends_rounds_succ, proposed.ends_iff, if_neg (by rw [nonempty]; exact Bool.false_ne_true),
        polled.ends_iff, attempted.ends_iff]

/-- **All that a round does**: it takes a candidate from the strategy, and keeps the refutation or
splices one of the candidate into it. -/
theorem Round.continues {J : β → Prop} (hb : backend.Sound J) (hJ : J x.state.backend)
    (h : Round strategy backend x candidate y) : candidate.isEmpty = false ∧
      (strategy.next x.trace).Answers x.state.strategy candidate y.state.strategy ∧
      Continues x.trace candidate x.counters (y.trace, y.counters) ∧ J y.state.backend := by
  cases h with
  | @intro t t' k k' s s₁ s₂ s₃ _ proposed nonempty polled attempted =>
      obtain ⟨hnext, hbackend₁⟩ := proposed.ends_iff.mp (ends_propose_next strategy t)
      obtain ⟨hstrategy₂, hbackend₂⟩ := polled.ends_iff.mp (ends_stopping _)
      have hJ₂ : J s₂.backend := by rwa [hbackend₂, hbackend₁]
      obtain ⟨hcontinues, hstrategy₃, hJ₃⟩ :=
        attempted.ends_iff.mp (ends_attempt_continues hb hJ₂ candidate k)
      refine ⟨nonempty, ?_, hcontinues, hJ₃⟩
      show (strategy.next t).Answers s.strategy candidate s₃.strategy
      rw [hstrategy₃, hstrategy₂]
      exact hnext

/-- So many rounds come to an end from there, with this refutation. -/
def EndsWith (strategy : Strategy κ) (backend : Backend β σ) (n : Nat) (x : Config κ β σ)
    (t' : Trace) : Prop :=
  (rounds strategy backend n x.trace x.counters).Ends x.state (fun r _ => r.1 = t') fun _ _ => False

theorem EndsWith.of_course (h : EndsWith strategy backend n x t')
    (hcourse : Course strategy backend x y) : ∃ m, EndsWith strategy backend m y t' := by
  induction hcourse with
  | refl => exact ⟨n, h⟩
  | tail _ hround ih =>
      obtain ⟨candidate, hround⟩ := hround
      obtain ⟨m, hm⟩ := ih
      cases m with
      | zero => exact hm.elim
      | succ m => exact ⟨m, hround.ends_rounds.mp hm⟩

/-- Where rounds end there is no candidate any more. -/
theorem EndsWith.exists_course (h : EndsWith strategy backend n x t') :
    ∃ z, Course strategy backend x z ∧ z.trace = t' := by
  induction n generalizing x with
  | zero => exact h.elim
  | succ n ih =>
      have hends := ends_rounds_succ.mp h
      obtain ⟨candidate, hproposed, hrest⟩ := hends.exists_answer
      split at hrest
      next => exact ⟨x, .refl, hrest⟩
      next hne =>
        obtain ⟨⟨⟩, hpolled, hrest⟩ := hrest.exists_answer
        obtain ⟨⟨t₁, k₁⟩, hattempted, hrest⟩ := hrest.exists_answer
        have hround := Round.intro (k := x.counters) ⟨hproposed, rfl⟩ (Bool.not_eq_true _ ▸ hne)
          ⟨hpolled, rfl⟩ ⟨hattempted, rfl⟩
        obtain ⟨z, hz, rfl⟩ := ih (x := ⟨t₁, k₁, _⟩) hrest
        exact ⟨z, hz.head ⟨candidate, hround⟩, rfl⟩

/-- **The answer of a reduction is a later refutation**, wherever it stands. -/
theorem exists_course_of_answer {s : State κ β σ}
    (h : ((minimiseCore strategy backend t).run s).answer = .ok t')
    (hcourse : Course strategy backend ⟨t, {}, s⟩ x) :
    ∃ z, Course strategy backend x z ∧ z.trace = t' := by
  have hends : (minimiseCore strategy backend t).Ends s
      (fun a _ => ∃ n, EndsWith strategy backend n ⟨t, {}, s⟩ a) fun _ _ => True := by
    refine ends_minimiseCore_of_rounds (ends_of_forall_answers fun r s' hr => ?_)
    exact ⟨_, hr.ends_iff.mpr rfl⟩
  obtain ⟨n, hn⟩ := hends.of_answer h
  obtain ⟨m, hm⟩ := hn.of_course hcourse
  exact hm.exists_course

end Rounds

end ModelFinder.Reduction
