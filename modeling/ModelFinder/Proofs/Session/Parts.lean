import ModelFinder.Proofs.Session

/-!
# Conditions and their parts

A combined condition passes on all calls to all of its parts, whatever these answer.  So each of
them comes to the state in which the same calls leave it when it is alone
(`Composite.leaves_foldl_step`), and a poll triggers exactly if it triggers for one of them
(`Composite.answers_iff`).  An optional condition that is there has the leaves of the condition, and
one that is missing has none, so the leaves of a tree are the conditions that are there.

Any type of conditions may be that of the leaves.  To have leaves of several types, these are put
into one; and to see which calls reach a leaf, it keeps them (`StopCondition.Recorded`).
-/

namespace ModelFinder

namespace StopCondition

variable {σ : Type} [StopCondition σ]

/-- What a condition answers to the polls among some calls, in order. -/
def answers (s : σ) : List Call → List Bool
  | [] => []
  | .poll :: calls => (poll s).1 :: answers (poll s).2 calls
  | .tick :: calls => answers (tick s) calls

theorem length_answers (s : σ) (calls : List Call) :
    (answers s calls).length = calls.count .poll := by
  induction calls generalizing s with
  | nil => rfl
  | cons call calls ih =>
      cases call with
      | poll => rw [answers, List.length_cons, ih, List.count_cons_self]
      | tick => rw [answers, ih, List.count_cons_of_ne (by decide)]

/-! ### Conditions that keep the calls they receive -/

/-- A condition, and the calls that it has received. -/
structure Recorded (σ : Type) where
  condition : σ
  received : List Call := []

namespace Recorded

/-- The record makes no difference to the condition. -/
instance : StopCondition (Recorded σ) where
  poll r := ((poll r.condition).1, ⟨(poll r.condition).2, r.received ++ [.poll]⟩)
  tick r := ⟨tick r.condition, r.received ++ [.tick]⟩

theorem step_eq (r : Recorded σ) (call : Call) :
    step r call = ⟨step r.condition call, r.received ++ [call]⟩ := by
  cases call <;> rfl

theorem foldl_step (r : Recorded σ) (calls : List Call) :
    calls.foldl step r = ⟨calls.foldl step r.condition, r.received ++ calls⟩ := by
  induction calls generalizing r with
  | nil => rw [List.append_nil]; rfl
  | cons call calls ih =>
      rw [List.foldl_cons, step_eq, ih, List.foldl_cons, List.append_assoc, List.singleton_append]

end Recorded

/-! ### Conditions of several types -/

section Several

variable {ι : Type} {σ : ι → Type} [∀ i, StopCondition (σ i)]

/-- Conditions of several types in one; each behaves as it does in its own. -/
instance : StopCondition ((i : ι) × σ i) where
  poll l := let (b, s) := poll l.2; (b, ⟨l.1, s⟩)
  tick l := ⟨l.1, tick l.2⟩

theorem step_mk (i : ι) (s : σ i) (call : Call) :
    step (⟨i, s⟩ : (i : ι) × σ i) call = ⟨i, step s call⟩ := by
  cases call <;> rfl

theorem foldl_step_mk (i : ι) (s : σ i) (calls : List Call) :
    calls.foldl step (⟨i, s⟩ : (i : ι) × σ i) = ⟨i, calls.foldl step s⟩ := by
  induction calls generalizing s with
  | nil => rfl
  | cons call calls ih => rw [List.foldl_cons, step_mk, ih, List.foldl_cons]

theorem answers_mk (i : ι) (s : σ i) (calls : List Call) :
    answers (⟨i, s⟩ : (i : ι) × σ i) calls = answers s calls := by
  induction calls generalizing s with
  | nil => rfl
  | cons call calls ih =>
      cases call with
      | poll => exact congrArg ((poll s).1 :: ·) (ih (poll s).2)
      | tick => exact ih (tick s)

end Several

end StopCondition

namespace Composite

open StopCondition

variable {σ τ : Type}

/-- Replaces every single condition. -/
def map (f : σ → τ) : Composite σ → Composite τ
  | single c => single (f c)
  | present c => present (c.map f)
  | absent => absent
  | either c d => either (c.map f) (d.map f)

theorem leaves_map (f : σ → τ) (c : Composite σ) : (c.map f).leaves = c.leaves.map f := by
  induction c with
  | single c => rfl
  | present c ih => exact ih
  | absent => rfl
  | either c d ihc ihd => rw [map, leaves, leaves, ihc, ihd, List.map_append]

/-- All leaves start a record. -/
def recorded {ι : Type} {σ : ι → Type} (c : Composite ((i : ι) × σ i)) :
    Composite ((i : ι) × Recorded (σ i)) := c.map fun l => ⟨l.1, { condition := l.2 }⟩

variable [StopCondition σ]

/-- One call reaches all leaves. -/
theorem leaves_step (c : Composite σ) (call : Call) :
    (step c call).leaves = c.leaves.map fun l => step l call := by
  induction c with
  | single c => cases call <;> rfl
  | present c ih => cases call <;> exact ih
  | absent => cases call <;> rfl
  | either c d ihc ihd =>
      have hstep : step (either c d) call = either (step c call) (step d call) := by
        cases call <;> rfl
      rw [hstep, leaves, leaves, ihc, ihd, List.map_append]

/-- All calls reach all leaves. -/
theorem leaves_foldl_step (c : Composite σ) (calls : List Call) :
    (calls.foldl step c).leaves = c.leaves.map fun l => calls.foldl step l := by
  induction calls generalizing c with
  | nil => exact (List.map_id _).symm
  | cons call calls ih =>
      rw [List.foldl_cons, ih, leaves_step, List.map_map]
      rfl

/-- A poll triggers if it triggers for a leaf. -/
theorem poll_eq_any (c : Composite σ) :
    (StopCondition.poll c).1 = c.leaves.any fun l => (StopCondition.poll l).1 := by
  induction c with
  | single c => exact (Bool.or_false _).symm
  | present c ih => exact ih
  | absent => rfl
  | either c d ihc ihd =>
      rw [leaves, List.any_append, ← ihc, ← ihd]
      rfl

/-- A poll triggers if it triggers for a leaf that has received the same calls alone. -/
theorem answers_iff (c : Composite σ) (calls : List Call) (k : Nat) :
    (answers c calls)[k]? = some true ↔ ∃ l ∈ c.leaves, (answers l calls)[k]? = some true := by
  induction calls generalizing c k with
  | nil => simp [answers]
  | cons call calls ih =>
      -- what the leaves answer later is what those of the next state answer
      have hlater (k : Nat) : (answers (step c call) calls)[k]? = some true ↔
          ∃ l ∈ c.leaves, (answers (step l call) calls)[k]? = some true := by
        rw [ih, leaves_step]
        constructor
        · rintro ⟨_, hmem, h⟩
          obtain ⟨l, hl, rfl⟩ := List.mem_map.mp hmem
          exact ⟨l, hl, h⟩
        · rintro ⟨l, hl, h⟩
          exact ⟨step l call, List.mem_map_of_mem hl, h⟩
      cases call with
      | tick => exact hlater k
      | poll =>
          cases k with
          | succ k => exact hlater k
          | zero =>
              simp only [answers, List.getElem?_cons_zero, Option.some_inj, poll_eq_any,
                List.any_eq_true]

/-- **Combined conditions do not starve their parts.**  In a tree of conditions of any types, every
one that is there comes to the state in which the same calls leave it when it is alone.  If it keeps
a record, it has received all of the calls, in order, whatever it and the others have answered.  The
tree gives as many answers as there are polls, and so does each of its conditions alone; and an
answer of the tree is true exactly if that of one of the conditions is. -/
theorem serves_every_leaf {ι : Type} {σ : ι → Type} [∀ i, StopCondition (σ i)]
    (c : Composite ((i : ι) × σ i)) (calls : List Call) :
    (calls.foldl step c).leaves = c.leaves.map (fun l => ⟨l.1, calls.foldl step l.2⟩) ∧
    (calls.foldl step c.recorded).leaves =
      c.leaves.map (fun l => ⟨l.1, { condition := calls.foldl step l.2, received := calls }⟩) ∧
    (answers c calls).length = calls.count .poll ∧
    (∀ l ∈ c.leaves, (answers l.2 calls).length = calls.count .poll) ∧
    ∀ k : Nat, (answers c calls)[k]? = some true ↔
      ∃ l ∈ c.leaves, (answers l.2 calls)[k]? = some true := by
  refine ⟨?_, ?_, length_answers c calls, fun l _ => length_answers l.2 calls, fun k => ?_⟩
  · rw [leaves_foldl_step]
    exact List.map_congr_left fun l _ => foldl_step_mk l.1 l.2 calls
  · rw [leaves_foldl_step, recorded, leaves_map, List.map_map]
    refine List.map_congr_left fun l _ => ?_
    rw [Function.comp_apply, foldl_step_mk, Recorded.foldl_step, List.nil_append]
  · rw [answers_iff]
    exact exists_congr fun l => and_congr_right fun _ => by rw [answers_mk l.1 l.2 calls]

/-- A limit of one poll triggers at the second one; the optional budget beside it counts on. -/
example : answers (.either (.single (.polls ⟨some 1, 0, 0⟩))
    (.either .absent (.present (.single (.budget ⟨2, 0⟩)))) : Composite Condition)
      [.poll, .tick, .poll, .tick, .poll] = [false, true, true] := rfl

end Composite

end ModelFinder
