import ModelFinder.Proofs.Session

/-!
# Iteration budgets

A stop condition that holds a budget of `n` iterations, alone or among other conditions (`Holds`),
triggers once `n` iterations have been made, whatever else it is asked or told (`SpentAfter`).  So a
poll that does not trigger says that there is an iteration left to make.
-/

namespace ModelFinder

namespace StopCondition

section SpentAfter

variable {σ : Type} [StopCondition σ] {n : Nat} {s : σ}

/-- Once so many iterations have been made, all polls trigger. -/
def SpentAfter (n : Nat) (s : σ) : Prop :=
  ∀ calls : List Call, n ≤ calls.count .tick → (poll (calls.foldl step s)).1 = true

/-- The iterations that are left. -/
theorem SpentAfter.foldl (h : SpentAfter n s) (calls : List Call) :
    SpentAfter (n - calls.count .tick) (calls.foldl step s) := by
  intro more hmore
  rw [← List.foldl_append]
  refine h (calls ++ more) ?_
  rw [List.count_append]
  omega

/-- A poll that does not trigger leaves an iteration to make. -/
theorem SpentAfter.pos_of_poll (h : SpentAfter n s) (hpoll : (poll s).1 = false) : 0 < n := by
  refine Nat.pos_of_ne_zero fun hn => ?_
  exact Bool.false_ne_true (hpoll.symm.trans (h [] (Nat.le_of_eq hn)))

end SpentAfter

/-- Conditions that behave as an iteration budget does. -/
structure Embeds {σ : Type} [StopCondition σ] (e : IterationBudget → σ) : Prop where
  poll : ∀ b, poll (e b) = ((poll b).1, e (StopCondition.poll b).2)
  tick : ∀ b, tick (e b) = e (StopCondition.tick b)

theorem embeds_id : Embeds (id : IterationBudget → IterationBudget) := ⟨fun _ => rfl, fun _ => rfl⟩

theorem embeds_budget : Embeds Condition.budget := ⟨fun _ => rfl, fun _ => rfl⟩

/-- The condition is a budget, or a budget is one of its parts. -/
inductive Holds (b : IterationBudget) : {σ : Type} → [StopCondition σ] → σ → Prop
  | budget {σ : Type} [StopCondition σ] {e : IterationBudget → σ} (embeds : Embeds e) :
      Holds b (e b)
  | single {σ : Type} [StopCondition σ] {c : σ} (h : Holds b c) : Holds b (Composite.single c)
  | present {σ : Type} [StopCondition σ] {c : Composite σ} (h : Holds b c) :
      Holds b (Composite.present c)
  | first {σ : Type} [StopCondition σ] {c d : Composite σ} (h : Holds b c) :
      Holds b (Composite.either c d)
  | second {σ : Type} [StopCondition σ] {c d : Composite σ} (h : Holds b d) :
      Holds b (Composite.either c d)

section Parts

variable {σ : Type} [StopCondition σ]

theorem foldl_step_embeds {e : IterationBudget → σ} (he : Embeds e) (b : IterationBudget)
    (calls : List Call) :
    calls.foldl step (e b) = e { b with made := b.made + calls.count .tick } := by
  induction calls generalizing b with
  | nil => rfl
  | cons c calls ih =>
      rw [List.foldl_cons]
      cases c with
      | poll =>
          show calls.foldl step (poll (e b)).2 = _
          rw [he.poll, List.count_cons_of_ne (by decide)]
          exact ih b
      | tick =>
          show calls.foldl step (tick (e b)) = _
          rw [he.tick, List.count_cons_self, ih, Nat.add_comm _ 1, ← Nat.add_assoc]
          rfl

theorem foldl_step_single (c : σ) (calls : List Call) :
    calls.foldl step (Composite.single c) = .single (calls.foldl step c) := by
  induction calls generalizing c with
  | nil => rfl
  | cons call calls ih => cases call <;> exact ih _

theorem foldl_step_present (c : Composite σ) (calls : List Call) :
    calls.foldl step (Composite.present c) = .present (calls.foldl step c) := by
  induction calls generalizing c with
  | nil => rfl
  | cons call calls ih => cases call <;> exact ih _

theorem foldl_step_either (c d : Composite σ) (calls : List Call) :
    calls.foldl step (Composite.either c d) =
      .either (calls.foldl step c) (calls.foldl step d) := by
  induction calls generalizing c d with
  | nil => rfl
  | cons call calls ih => cases call <;> exact ih _ _

/-- A condition that holds a fresh budget triggers once that is used up. -/
theorem Holds.spentAfter {n : Nat} {b : IterationBudget} (hb : IterationBudget.ofNat n = .ok b)
    {s : σ} (h : Holds b s) : SpentAfter n s := by
  intro calls hcalls
  induction h with
  | budget he =>
      rw [foldl_step_embeds he, he.poll]
      unfold IterationBudget.ofNat at hb
      split at hb
      · cases hb
      · cases hb
        exact decide_eq_true (Nat.le_trans hcalls (Nat.le_add_left _ _))
  | single _ ih => rw [foldl_step_single]; exact ih
  | present _ ih => rw [foldl_step_present]; exact ih
  | first _ ih => rw [foldl_step_either]; exact Bool.or_eq_true_iff.mpr (.inl ih)
  | second _ ih => rw [foldl_step_either]; exact Bool.or_eq_true_iff.mpr (.inr ih)

end Parts

end StopCondition

end ModelFinder
