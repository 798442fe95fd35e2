import ModelFinder.Proofs.Pipeline.Iterations
import ModelFinder.Refinement

/-!
# Iterations of the refinement loop

The loop polls its stop condition before every transition, and makes an iteration with each
increment.  The sessions for the cases of a split and the reductions inside of candidate problems
have the same stop condition and polls of their own, so that all of them together make no more
iterations than are left (`covers_solve`).
-/

namespace ModelFinder

open Books Session StopCondition

/-- The increments of the loop are counted, and the calls of the back end that its pipeline
announces. -/
def Milestone.tally (L : Logic) : Tally (Milestone L) where
  increment
    | .incrementing _ _ => true
    | _ => false
  announcement
    | .stage s => (Stage.tally L).announcement s
    | _ => false

namespace Refinement

variable {L : Logic} {ω τ β σ : Type} {backend : Backend β σ} {script : Cnf → β × σ → List Call}
  {precise : Prop}

/-- The books of the loop over a pipeline with a translator and a back end. -/
def books (L : Logic) (ω τ : Type) (backend : Backend β σ) (script : Cnf → β × σ → List Call)
    (precise : Prop) : Books (State ω (τ × β) σ) (Milestone L) β σ :=
  ⟨backend, script, Milestone.tally L, precise, fun s => (s.pipeline.2, s.stop)⟩

theorem stops :
    (books L ω τ backend script precise).Stops State.stop (fun stop s => { s with stop }) :=
  ⟨fun _ => rfl, fun _ _ => rfl⟩

/-! ### What is not counted -/

theorem keepsTo_count (f : Counters → Counters) :
    (count f : Run L ω (τ × β) σ Unit).KeepsTo (books L ω τ backend script precise).silence :=
  keepsTo_update fun _ => rfl

theorem keepsTo_reach {m : Milestone L} (hincrement : (Milestone.tally L).increment m = false)
    (hannounce : (Milestone.tally L).announcement m = false) :
    (reach m : Run L ω (τ × β) σ Unit).KeepsTo (books L ω τ backend script precise).silence := by
  refine keepsTo_note ?_
  have hcounts : (Milestone.tally L).Counts precise [.milestone m] _ _ 0 := Tally.counts_milestone m
  show (Milestone.tally L).Ignores precise [.milestone m]
  simpa [hincrement, hannounce] using hcounts

theorem keepsTo_consult {α : Type} (x : Consultation ω α) :
    (consult x : Run L ω (τ × β) σ α).KeepsTo (books L ω τ backend script precise).silence := by
  refine fun s => ⟨rfl, fun n hn => ?_⟩
  obtain ⟨e, -, -⟩ := List.mem_map.mp hn
  exact e.elim

/-! ### The loop -/

variable [StopCondition σ] {oracle : Oracle L ω} {pipeline : Pipeline L (τ × β) σ}

theorem covers_tryChoices {solve : Task L → Run L ω (τ × β) σ (Verdict L)}
    (hsolve : ∀ t, (books L ω τ backend script precise).Covers 0 (solve t)) (task : Task L)
    (place : LoopStep) (choices : List (Problem L)) (core? : Option (UnsatCore L)) :
    (books L ω τ backend script precise).Covers 0 (tryChoices solve task place choices core?) := by
  induction choices generalizing core? with
  | nil =>
      cases core? with
      | none => exact covers_of_silence (keepsTo_fail _)
      | some core => exact covers_of_silence (keepsTo_pure _)
  | cons choice rest ih =>
      unfold tryChoices
      refine covers_silence_bind (keepsTo_reach rfl rfl) fun _ => ?_
      refine (hsolve _).bind fun v => ?_
      cases v with
      | satisfiable m =>
          exact covers_silence_bind (keepsTo_reach rfl rfl) fun _ =>
            covers_of_silence (keepsTo_pure _)
      | unsatisfiable core =>
          exact covers_silence_bind (keepsTo_reach rfl rfl) fun _ => ih (some core)

/-- An increment uses up the iteration that the poll before it left. -/
theorem covers_incrementing {α : Type} {x : Run L ω (τ × β) σ α}
    (hx : (books L ω τ backend script precise).Covers 0 x) (place : LoopStep) (f : L.Formula) :
    (books L ω τ backend script precise).Covers 1 (do
      reach (.incrementing place f)
      stopping Session.tick
      x) := by
  have hstops : (books L ω τ backend script precise).Stops State.stop
      (fun stop s => { s with stop }) := stops
  have htick := covers_increment hstops (m := .incrementing place f) rfl rfl
  have h := htick.bind fun _ => hx
  rwa [bind_assoc] at h

section Loop

variable (hpipeline : ∀ p minimised,
  (Pipeline.books L τ backend script precise).Covers 0 (pipeline.solve p minimised))
include hpipeline

theorem covers_decide (p : Problem L) (minimised : Bool) :
    (books L ω τ backend script precise).Covers 0 (decide pipeline p minimised) := by
  have h := Covers.mapNotes (f := Milestone.stage) (hpipeline p minimised)
    (B := ⟨backend, script, Milestone.tally L, precise, _⟩)
  exact h.within rfl (fun _ => rfl) fun _ _ => rfl

theorem covers_solveWith {loop : Task L → LoopStep → Run L ω (τ × β) σ (Verdict L)}
    (hloop : ∀ t place, (books L ω τ backend script precise).Covers 0 (loop t place))
    (task : Task L) :
    (books L ω τ backend script precise).Covers 0 (solveWith oracle pipeline loop task) := by
  unfold solveWith
  split
  · exact covers_decide hpipeline _ _
  · refine covers_silence_bind (keepsTo_count _) fun _ => ?_
    refine covers_silence_bind (keepsTo_reach rfl rfl) fun _ => ?_
    exact covers_silence_bind (keepsTo_reach rfl rfl) fun _ => hloop task _

variable {rounds : Nat} {task : Task L} {place : LoopStep} {increments : List L.Formula}
  (ih : ∀ task place increments position, (books L ω τ backend script precise).Covers 0
    (loop oracle pipeline rounds task place increments position))
include ih

theorem covers_searching : (books L ω τ backend script precise).Covers 0
    (loop oracle pipeline (rounds + 1) task place increments .searching) := by
  unfold loop
  refine Covers.poll_bind stops (Covers.mono ?_ (Nat.zero_le 1))
  refine covers_silence_bind (keepsTo_count _) fun _ => ?_
  refine covers_silence_bind (keepsTo_consult _) fun p => ?_
  refine (covers_decide hpipeline p _).bind fun v => ?_
  cases v with
  | unsatisfiable core =>
      refine covers_silence_bind (keepsTo_reach ?_ ?_) fun _ => covers_of_silence (keepsTo_pure _)
      · split <;> rfl
      · split <;> rfl
  | satisfiable m =>
      refine covers_silence_bind (keepsTo_reach ?_ ?_) fun _ => ?_
      · split <;> rfl
      · split <;> rfl
      · exact covers_silence_bind (keepsTo_reach rfl rfl) fun _ => ih _ _ _ _

theorem covers_verifying (m : L.Model) : (books L ω τ backend script precise).Covers 0
    (loop oracle pipeline (rounds + 1) task place increments (.verifying m)) := by
  unfold loop
  refine Covers.poll_bind stops (Covers.mono ?_ (Nat.zero_le 1))
  refine covers_silence_bind (keepsTo_count _) fun _ => ?_
  refine covers_silence_bind (keepsTo_consult _) fun check => ?_
  refine covers_silence_bind (keepsTo_reach rfl rfl) fun _ => ?_
  refine (covers_decide hpipeline check _).bind fun v => ?_
  cases v with
  | unsatisfiable =>
      exact covers_silence_bind (keepsTo_reach rfl rfl) fun _ => covers_of_silence (keepsTo_pure _)
  | satisfiable c =>
      refine covers_silence_bind (keepsTo_reach rfl rfl) fun _ => ?_
      refine covers_silence_bind (keepsTo_consult _) fun r => ?_
      cases r with
      | increment f => exact ih _ _ _ _
      | split choices => exact ih _ _ _ _

omit hpipeline in
/-- The only transition that makes an iteration itself, right after its own poll. -/
theorem covers_strengthening (f : L.Formula) : (books L ω τ backend script precise).Covers 0
    (loop oracle pipeline (rounds + 1) task place increments (.strengthening f)) := by
  unfold loop
  refine Covers.poll_bind stops ?_
  refine covers_silence_bind (keepsTo_count _) fun _ => ?_
  refine covers_silence_bind (keepsTo_reach rfl rfl) fun _ => ?_
  refine covers_incrementing ?_ _ f
  exact covers_silence_bind (keepsTo_note (Tally.ignores_remark rfl)) fun _ => ih _ _ _ _

theorem covers_splitting (choices : List (Problem L)) :
    (books L ω τ backend script precise).Covers 0
      (loop oracle pipeline (rounds + 1) task place increments (.splitting choices)) := by
  unfold loop
  refine Covers.poll_bind stops (Covers.mono ?_ (Nat.zero_le 1))
  dsimp only
  split
  · exact covers_of_silence (keepsTo_fail _)
  · refine covers_silence_bind (keepsTo_count _) fun _ => ?_
    refine covers_silence_bind (keepsTo_reach rfl rfl) fun _ => ?_
    refine covers_silence_bind (keepsTo_note (Tally.ignores_remark rfl)) fun _ => ?_
    refine covers_tryChoices ?_ task _ choices none
    exact covers_solveWith hpipeline fun t place => ih t place [] .searching

omit ih in
/-- **A session makes no more iterations than are left**, from whatever position it goes on. -/
theorem covers_loop (rounds : Nat) (task : Task L) (place : LoopStep)
    (increments : List L.Formula) (position : Position L) :
    (books L ω τ backend script precise).Covers 0
      (loop oracle pipeline rounds task place increments position) := by
  induction rounds generalizing task place increments position with
  | zero => exact covers_of_silence (keepsTo_fail _)
  | succ rounds ih =>
      cases position with
      | searching => exact covers_searching hpipeline ih
      | verifying m => exact covers_verifying hpipeline ih m
      | strengthening f => exact covers_strengthening ih f
      | splitting choices => exact covers_splitting hpipeline ih choices

omit ih in
/-- **The loop makes no more iterations than are left**, in all sessions and reductions together. -/
theorem covers_solve (rounds : Nat) (p : Problem L) :
    (books L ω τ backend script precise).Covers 0 (solve oracle pipeline rounds p) :=
  covers_solveWith hpipeline (fun t place => covers_loop hpipeline rounds t place [] .searching) _

end Loop

end Refinement

end ModelFinder
