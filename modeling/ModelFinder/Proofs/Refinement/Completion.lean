import ModelFinder.Proofs.Pipeline.Completion
import ModelFinder.Proofs.Refinement.Soundness

/-!
# Limits end the loop

An oracle may refine and split forever.  But every round of the loop begins with a poll
(`finishes_round`), and so a stop condition that triggers after so many polls ends the loop, if the
calls of its pipeline come to an end themselves (`ends_solve_of_triggersAfter`).  What decreases is
the number of polls that are left: it bounds the rounds of a session, together with the depth to
which splits are nested.
-/

namespace ModelFinder.Refinement

open Session StopCondition

variable {L : Logic} {ω π σ : Type} [StopCondition σ] {oracle : Oracle L ω}
  {pipeline : Pipeline L π σ} {s : State ω π σ} {n : Nat}

/-- The loop comes to an end, with at most so many polls left. -/
def Finishes {α : Type} (n : Nat) (x : Run L ω π σ α) (s : State ω π σ) : Prop :=
  x.Ends s (fun _ s' => TriggersAfter n s'.stop) WithinRounds

/-! ### Single steps -/

section Steps

omit [StopCondition σ] in
/-- The oracle has nothing to do with the stop condition. -/
theorem ends_consult_stop {α : Type} (x : Consultation ω α) :
    (consult x : Run L ω π σ α).Ends s (fun _ s' => s'.stop = s.stop) WithinRounds := by
  unfold consult
  rw [ends_within, ends_mapFailure, ends_mapNotes]
  exact (ends_of_forall_answers fun _ _ _ => trivial).mono (fun _ _ _ => rfl)
    fun _ _ _ => withinRounds_translation

theorem finishes_decide (hp : pipeline.Finishes) (hn : TriggersAfter n s.stop) (p : Problem L)
    (minimised : Bool) : Finishes n (decide pipeline p minimised) s := by
  unfold Finishes decide
  rw [ends_within, ends_mapNotes]
  exact hp p minimised (s.pipeline, s.stop) n hn

/-- A round can only be begun with a poll that is left. -/
theorem ends_poll_left (hn : TriggersAfter n s.stop) (phase : Phase) :
    (stopping (Session.poll phase) : Run L ω π σ Unit).Ends s
      (fun _ s' => ∃ m, n = m + 1 ∧ TriggersAfter m s'.stop) WithinRounds := by
  unfold stopping
  rw [ends_within]
  unfold Session.Ends Session.poll
  rcases h : StopCondition.poll s.stop with ⟨triggered, stop⟩
  cases triggered with
  | true => exact withinRounds_exhausted
  | false =>
      have hleft := hn.exists_of_poll (congrArg Prod.fst h)
      rw [h] at hleft
      exact hleft

end Steps

/-! ### Sessions -/

theorem finishes_solveWith (hp : pipeline.Finishes)
    {loop : Task L → LoopStep → Run L ω π σ (Verdict L)} {task : Task L}
    (hloop : ∀ (place : LoopStep) (s : State ω π σ), TriggersAfter n s.stop →
      Finishes n (loop task place) s)
    (hn : TriggersAfter n s.stop) : Finishes n (solveWith oracle pipeline loop task) s := by
  unfold solveWith
  split
  · exact finishes_decide hp hn task.problem task.minimised
  · exact hloop _ { s with counters := _ } hn

/-- There are finitely many cases, and each of them comes to an end. -/
theorem finishes_tryChoices {solve : Task L → Run L ω π σ (Verdict L)} {task : Task L}
    {place : LoopStep}
    (hsolve : ∀ (s : State ω π σ) (t : Task L), TriggersAfter n s.stop → Finishes n (solve t) s)
    (choices : List (Problem L)) (core? : Option (UnsatCore L)) (hn : TriggersAfter n s.stop) :
    Finishes n (tryChoices solve task place choices core?) s := by
  induction choices generalizing s core? with
  | nil =>
      cases core? with
      | none => exact ends_fail.mpr withinRounds_violation
      | some core => exact hn
  | cons choice rest ih =>
      unfold Finishes tryChoices
      rw [ends_bind, ends_reach, ends_bind]
      refine (hsolve s _ hn).mono (fun v s' hn' => ?_) fun _ _ he => he
      cases v with
      | satisfiable m => exact hn'
      | unsatisfiable core => exact ih (some core) hn'

/-! ### The loop -/

section Loop

variable {rounds : Nat} {task : Task L} {place : LoopStep} {increments : List L.Formula}

/-- From every position, a session of so many rounds comes to an end, if fewer polls are left. -/
def FinishesWithin (oracle : Oracle L ω) (pipeline : Pipeline L π σ) (rounds : Nat) : Prop :=
  ∀ (task : Task L) (place : LoopStep) (increments : List L.Formula) (position : Position L)
    (s : State ω π σ) (n : Nat), n < rounds → TriggersAfter n s.stop →
    Finishes n (loop oracle pipeline rounds task place increments position) s

/-- **A round takes a poll**, and what it does after that has one poll less. -/
theorem finishes_round {α : Type} {phase : Phase} {x : Run L ω π σ α} (hlt : n < rounds + 1)
    (hn : TriggersAfter n s.stop)
    (hx : ∀ m s', m < rounds → TriggersAfter m s'.stop → Finishes m x s') :
    Finishes n (stopping (Session.poll phase) >>= fun _ => x) s := by
  unfold Finishes
  rw [ends_bind]
  refine (ends_poll_left hn phase).mono (fun _ s₁ h => ?_) fun _ _ he => he
  obtain ⟨m, rfl, hn₁⟩ := h
  exact Ends.mono (hx m s₁ (Nat.lt_of_succ_lt_succ hlt) hn₁) (fun _ _ h => h.mono (Nat.le_succ m))
    fun _ _ he => he

theorem finishes_searching (hp : pipeline.Finishes) (ih : FinishesWithin oracle pipeline rounds)
    (hlt : n < rounds + 1) (hn : TriggersAfter n s.stop) :
    Finishes n (loop oracle pipeline (rounds + 1) task place increments .searching) s := by
  unfold loop
  refine finishes_round hlt hn fun k s₁ hlt₁ hn₁ => ?_
  unfold Finishes
  rw [ends_bind, ends_count, ends_bind]
  refine (ends_consult_stop _).mono (fun q s₂ hs₂ => ?_) fun _ _ he => he
  rw [ends_bind]
  refine Ends.mono (finishes_decide hp (hs₂ ▸ hn₁) q task.minimised) (fun v s₃ hn₃ => ?_)
    fun _ _ he => he
  cases v with
  | unsatisfiable core => exact hn₃
  | satisfiable m => exact ih task place increments (.verifying m) s₃ k hlt₁ hn₃

theorem finishes_verifying (hp : pipeline.Finishes) (ih : FinishesWithin oracle pipeline rounds)
    {m : L.Model} (hlt : n < rounds + 1) (hn : TriggersAfter n s.stop) :
    Finishes n (loop oracle pipeline (rounds + 1) task place increments (.verifying m)) s := by
  unfold loop
  refine finishes_round hlt hn fun k s₁ hlt₁ hn₁ => ?_
  unfold Finishes
  rw [ends_bind, ends_count, ends_bind]
  refine (ends_consult_stop _).mono (fun check s₂ hs₂ => ?_) fun _ _ he => he
  rw [ends_bind, ends_reach, ends_bind]
  refine Ends.mono (finishes_decide hp (hs₂ ▸ hn₁) check false) (fun v s₃ hn₃ => ?_)
    fun _ _ he => he
  cases v with
  | unsatisfiable core => exact hn₃
  | satisfiable c =>
      dsimp only
      rw [ends_bind, ends_reach, ends_bind]
      refine (ends_consult_stop _).mono (fun r s₄ hs₄ => ?_) fun _ _ he => he
      rw [← hs₄] at hn₃
      cases r with
      | increment f => exact ih task place increments (.strengthening f) s₄ k hlt₁ hn₃
      | split choices => exact ih task place increments (.splitting choices) s₄ k hlt₁ hn₃

theorem finishes_strengthening (ih : FinishesWithin oracle pipeline rounds) {f : L.Formula}
    (hlt : n < rounds + 1) (hn : TriggersAfter n s.stop) :
    Finishes n (loop oracle pipeline (rounds + 1) task place increments (.strengthening f)) s := by
  unfold loop
  refine finishes_round hlt hn fun k s₁ hlt₁ hn₁ => ?_
  unfold Finishes
  rw [ends_bind, ends_count, ends_bind, ends_reach, ends_bind, ends_reach, ends_bind]
  exact ih task place.next (increments ++ [f]) .searching { s₁ with counters := _, stop := _ } k hlt₁
    (hn₁.step .tick)

theorem finishes_splitting (hp : pipeline.Finishes) (ih : FinishesWithin oracle pipeline rounds)
    {choices : List (Problem L)} (hlt : n < rounds + 1) (hn : TriggersAfter n s.stop) :
    Finishes n (loop oracle pipeline (rounds + 1) task place increments (.splitting choices)) s := by
  unfold loop
  refine finishes_round hlt hn fun k s₁ hlt₁ hn₁ => ?_
  unfold Finishes
  dsimp only
  split
  · exact ends_fail.mpr withinRounds_violation
  · rw [ends_bind, ends_count, ends_bind, ends_reach, ends_bind, ends_note]
    refine finishes_tryChoices (fun s t hn => ?_) choices none hn₁
    exact finishes_solveWith hp (fun place s hn => ih t place [] .searching s k hlt₁ hn) hn

/-- **The rounds are not used up** as long as there are more of them than polls. -/
theorem finishesWithin (hp : pipeline.Finishes) (rounds : Nat) :
    FinishesWithin oracle pipeline rounds := by
  induction rounds with
  | zero => exact fun _ _ _ _ _ n hlt => absurd hlt (Nat.not_lt_zero n)
  | succ rounds ih =>
      intro task place increments position s n hlt hn
      cases position with
      | searching => exact finishes_searching hp ih hlt hn
      | verifying m => exact finishes_verifying hp ih hlt hn
      | strengthening f => exact finishes_strengthening ih hlt hn
      | splitting choices => exact finishes_splitting hp ih hlt hn

end Loop

/-- **A limit ends the loop**, whatever the oracle does: if there are more rounds than polls without
a trigger, they are not used up. -/
theorem ends_solve_of_triggersAfter (hp : pipeline.Finishes) (hn : TriggersAfter n s.stop)
    {rounds : Nat} (hlt : n < rounds) (p : Problem L) :
    Finishes n (solve oracle pipeline rounds p) s :=
  finishes_solveWith hp
    (fun place s hn => finishesWithin hp rounds _ place [] .searching s n hlt hn) hn

end ModelFinder.Refinement
