import ModelFinder.Proofs.Lockstep.Pipeline
import ModelFinder.Refinement

/-!
# The loop over given steps

`Refinement.Steps` are two of the steps of the refinement loop, how it reaches a milestone and how
it asks the oracle, and `Steps.solve` is the loop over such steps.  With the steps of the loop
itself it is the loop itself (`solve_eq`); with others it is the loop as seen by someone who watches
the steps.

Two loops whose steps, stop conditions and pipelines are in lockstep are in lockstep themselves
(`Steps.inStep_solve`, `inStep_solve`).  They may even have different numbers of rounds, if the
first may end alone when its rounds are used up.  So the number of rounds makes no difference to a
loop that does not use them up (`solve_eq_of_le`).
-/

namespace ModelFinder

/-- A question to an oracle. -/
inductive Question (L : Logic) where
  | candidate (p : Problem L) (increments : List L.Formula)
  | verification (p : Problem L) (candidate : L.Model)
  | refinement (p : Problem L) (candidate counterexample : L.Model)

/-- What a question is answered with. -/
abbrev Question.Reply {L : Logic} : Question L → Type
  | candidate .. => Problem L
  | verification .. => Problem L
  | refinement .. => Refinement L

/-- Asks an oracle a question. -/
def Oracle.ask {L : Logic} {ω : Type} (oracle : Oracle L ω) :
    (q : Question L) → Consultation ω q.Reply
  | .candidate p increments => oracle.candidateProblem p increments
  | .verification p m => oracle.verificationProblem p m
  | .refinement p m c => oracle.refine p m c

namespace Refinement

variable {L : Logic} {ω π σ σ' : Type}

/-- How a milestone is reached and how the oracle is asked. -/
structure Steps (L : Logic) (ω π σ : Type) where
  reach : Milestone L → Run L ω π σ Unit
  consult : (q : Question L) → Run L ω π σ q.Reply

/-- The steps of the loop itself. -/
def steps (oracle : Oracle L ω) : Steps L ω π σ := ⟨reach, fun q => consult (oracle.ask q)⟩

namespace Steps

/-! ### The loop -/

section Definitions

variable (st : Steps L ω π σ) (isHigherOrder : L.Formula → Bool) (pipeline : Pipeline L π σ)

/-- Solves a problem with the pipeline, or in a session of its own. -/
def solveWith (loop : Task L → LoopStep → Run L ω π σ (Verdict L)) (task : Task L) :
    Run L ω π σ (Verdict L) := do
  if !isHigherOrder task.problem.formula then
    decide pipeline task.problem task.minimised
  else
    count fun k => { k with maxDepth := max k.maxDepth task.depth }
    let place : LoopStep := ⟨task.depth, 0⟩
    st.reach (.loopStart place task.problem)
    st.reach (.fixpointStart place)
    loop task place

/-- Solves the cases of a split one after the other, up to one with a model. -/
def tryChoices (solve : Task L → Run L ω π σ (Verdict L)) (task : Task L) (place : LoopStep) :
    List (Problem L) → Option (UnsatCore L) → Run L ω π σ (Verdict L)
  | [], none => Session.fail (.violation .emptySplit)
  | [], some core => return .unsatisfiable core
  | choice :: rest, _ => do
    st.reach (.splitChoice place choice)
    match ← solve ⟨choice, place.depth + 1, task.minimised && rest.isEmpty⟩ with
    | .satisfiable m =>
      st.reach (.splitChoiceSat place m)
      return .satisfiable m
    | .unsatisfiable core =>
      st.reach (.splitChoiceUnsat place)
      tryChoices solve task place rest (some core)

/-- Goes on with a session, for at most the given number of rounds. -/
def loop [StopCondition σ] :
    Nat → Task L → LoopStep → List L.Formula → Position L → Run L ω π σ (Verdict L)
  | 0, _, _, _, _ => Session.fail .unfinished
  | rounds + 1, task, place, increments, position => do
    stopping (Session.poll .refinement)
    match position with
    | .searching =>
      count fun k => { k with candidateSearches := k.candidateSearches + 1 }
      let p ← st.consult (.candidate task.problem increments)
      match ← decide pipeline p task.minimised with
      | .unsatisfiable core =>
        st.reach (if increments.isEmpty then .noSolution place else .incrementingOutcome place none)
        return .unsatisfiable core
      | .satisfiable m =>
        st.reach (if increments.isEmpty then .firstSolution place m
          else .incrementingOutcome place (some m))
        st.reach (.candidateFound place m)
        loop rounds task place increments (.verifying m)
    | .verifying m =>
      count fun k => { k with verifications := k.verifications + 1 }
      let check ← st.consult (.verification task.problem m)
      st.reach (.verifying place m check)
      match ← decide pipeline check false with
      | .unsatisfiable _ =>
        st.reach (.verified place m)
        return .satisfiable m
      | .satisfiable counterexample =>
        st.reach (.notVerified place m counterexample)
        match ← st.consult (.refinement task.problem m counterexample) with
        | .increment f => loop rounds task place increments (.strengthening f)
        | .split choices => loop rounds task place increments (.splitting choices)
    | .strengthening f =>
      count fun k => { k with increments := k.increments + 1 }
      st.reach (.findingNext place f)
      st.reach (.incrementing place f)
      let increments := increments ++ [f]
      let place := place.next
      stopping Session.tick
      Session.note (.remark (.strengthened place.depth place.iteration))
      loop rounds task place increments .searching
    | .splitting choices =>
      if choices.isEmpty then Session.fail (.violation .emptySplit)
      else
        count fun k => { k with splits := k.splits + 1 }
        st.reach (.splitStart place task.problem.formula)
        Session.note (.remark (.splitting choices.length place.depth))
        st.tryChoices (st.solveWith isHigherOrder pipeline fun t p => loop rounds t p [] .searching)
          task place choices none

/-- Solves a problem; sessions have at most the given number of rounds. -/
def solve [StopCondition σ] (rounds : Nat) (p : Problem L) : Run L ω π σ (Verdict L) :=
  st.solveWith isHigherOrder pipeline
    (fun t place => st.loop isHigherOrder pipeline rounds t place [] .searching) ⟨p, 0, true⟩

end Definitions

end Steps

section OwnSteps

variable (oracle : Oracle L ω) (pipeline : Pipeline L π σ)

theorem tryChoices_eq (solve : Task L → Run L ω π σ (Verdict L)) (task : Task L)
    (place : LoopStep) (choices : List (Problem L)) (core? : Option (UnsatCore L)) :
    tryChoices solve task place choices core? =
      (steps oracle).tryChoices solve task place choices core? := by
  induction choices generalizing core? with
  | nil => cases core? <;> rfl
  | cons choice rest ih =>
      unfold tryChoices Steps.tryChoices
      simp only [ih]
      rfl

theorem loop_eq [StopCondition σ] (rounds : Nat) (task : Task L) (place : LoopStep)
    (increments : List L.Formula) (position : Position L) :
    loop oracle pipeline rounds task place increments position =
      (steps oracle).loop oracle.isHigherOrder pipeline rounds task place increments position := by
  induction rounds generalizing task place increments position with
  | zero => rfl
  | succ rounds ih =>
      unfold loop Steps.loop
      refine bind_congr fun _ => ?_
      cases position with
      | searching =>
          refine bind_congr fun _ => bind_congr fun q => bind_congr fun v => ?_
          cases v with
          | satisfiable m => exact bind_congr fun _ => bind_congr fun _ => ih ..
          | unsatisfiable core => rfl
      | verifying m =>
          refine bind_congr fun _ => bind_congr fun q => bind_congr fun _ => bind_congr fun v => ?_
          cases v with
          | satisfiable c =>
              refine bind_congr fun _ => bind_congr fun r => ?_
              cases r <;> exact ih ..
          | unsatisfiable core => rfl
      | strengthening f =>
          refine bind_congr fun _ => bind_congr fun _ => bind_congr fun _ => bind_congr fun _ => ?_
          exact bind_congr fun _ => ih ..
      | splitting choices =>
          simp only [ih, tryChoices_eq oracle]
          rfl

/-- **The loop is the one over its own steps.** -/
theorem solve_eq [StopCondition σ] (rounds : Nat) (p : Problem L) :
    solve oracle pipeline rounds p =
      (steps oracle).solve oracle.isHigherOrder pipeline rounds p := by
  unfold solve Steps.solve
  simp only [loop_eq]
  rfl

end OwnSteps

/-! ### Loops in lockstep -/

open Lockstep

/-- Loops with the same oracle, the same pipeline and the same counters. -/
def lockstep {σ σ' : Type} (k : Lockstep σ σ') (ω π : Type) :
    Lockstep (State ω π σ) (State ω π σ') :=
  k.along (fun s => ((s.oracle, s.pipeline, s.counters), s.stop))
    fun s => ((s.oracle, s.pipeline, s.counters), s.stop)

section

variable {k : Lockstep σ σ'} {α : Type}

theorem inStep_consult (x : Consultation ω α) :
    (lockstep k ω π).InStep (consult x : Run L ω π σ α) (consult x : Run L ω π σ' α) := by
  refine inStep_within_common (mapFailure_ne_exhausted (fun _ _ h => by cases h) _) ?_ ?_
  · exact fun s s' hs => congrArg (·.1) hs.1
  · exact fun s s' hs o => ⟨Prod.ext rfl (congrArg (·.2) hs.1), hs.2⟩

theorem inStep_count (f : Counters → Counters) :
    (lockstep k ω π).InStep (count f : Run L ω π σ Unit) (count f : Run L ω π σ' Unit) := by
  refine inStep_update fun s s' hs => ⟨?_, hs.2⟩
  exact congrArg (fun c : ω × π × Counters => (c.1, c.2.1, f c.2.2)) hs.1

theorem inStep_stopping {x : Session (Note (Milestone L)) Failure σ α}
    {y : Session (Note (Milestone L)) Failure σ' α} (h : k.InStep x y) :
    (lockstep k ω π).InStep (stopping x) (stopping y) := by
  refine inStep_within h (fun _ _ hs => hs.2) ?_ fun _ h => h
  exact fun _ _ hs _ _ => ⟨fun h => ⟨hs.1, h⟩, fun h => ⟨hs.1, h⟩⟩

theorem inStep_decide {pipeline : Pipeline L π σ} {pipeline' : Pipeline L π σ'}
    (hp : pipeline.InStep k pipeline') (p : Problem L) (minimised : Bool) :
    (lockstep k ω π).InStep (decide pipeline p minimised) (decide pipeline' p minimised) := by
  refine inStep_within (inStep_mapNotes (hp p minimised) _) ?_ ?_ fun _ h => h
  · exact fun s s' hs => ⟨congrArg (·.2.1) hs.1, hs.2⟩
  · intro s s' hs r r'
    have hput (h : r.1 = r'.1) : (s.oracle, r.1, s.counters) = (s'.oracle, r'.1, s'.counters) := by
      rw [h]
      exact congrArg (fun c : ω × π × Counters => (c.1, r'.1, c.2.2)) hs.1
    exact ⟨fun h => ⟨hput h.1, h.2⟩, fun h => ⟨hput h.1, h.2⟩⟩

end

/-- Steps in lockstep. -/
structure Steps.InStep (k : Lockstep σ σ') (st : Steps L ω π σ) (st' : Steps L ω π σ') : Prop where
  reach : ∀ m, (lockstep k ω π).InStep (st.reach m) (st'.reach m)
  consult : ∀ q, (lockstep k ω π).InStep (st.consult q) (st'.consult q)

theorem inStep_steps (k : Lockstep σ σ') (oracle : Oracle L ω) :
    Steps.InStep (π := π) k (steps oracle) (steps oracle) :=
  ⟨fun m => inStep_note (Note.milestone m), fun q => inStep_consult (oracle.ask q)⟩

namespace Steps.InStep

variable {k : Lockstep σ σ'} {st : Steps L ω π σ} {st' : Steps L ω π σ'}
  {isHigherOrder : L.Formula → Bool} {pipeline : Pipeline L π σ} {pipeline' : Pipeline L π σ'}

theorem solveWith (hs : st.InStep k st') (hp : pipeline.InStep k pipeline')
    {loop : Task L → LoopStep → Run L ω π σ (Verdict L)}
    {loop' : Task L → LoopStep → Run L ω π σ' (Verdict L)}
    (hloop : ∀ task place, (lockstep k ω π).InStep (loop task place) (loop' task place))
    (task : Task L) :
    (lockstep k ω π).InStep (st.solveWith isHigherOrder pipeline loop task)
      (st'.solveWith isHigherOrder pipeline' loop' task) := by
  unfold Steps.solveWith
  split
  · exact inStep_decide hp task.problem task.minimised
  · refine inStep_bind (inStep_count _) fun _ => ?_
    refine inStep_bind (hs.reach _) fun _ => inStep_bind (hs.reach _) fun _ => ?_
    exact hloop task _

theorem tryChoices (hs : st.InStep k st') {solve : Task L → Run L ω π σ (Verdict L)}
    {solve' : Task L → Run L ω π σ' (Verdict L)}
    (hsolve : ∀ task, (lockstep k ω π).InStep (solve task) (solve' task)) (task : Task L)
    (place : LoopStep) (choices : List (Problem L)) (core? : Option (UnsatCore L)) :
    (lockstep k ω π).InStep (st.tryChoices solve task place choices core?)
      (st'.tryChoices solve' task place choices core?) := by
  induction choices generalizing core? with
  | nil =>
      cases core? with
      | none => exact inStep_fail nofun
      | some core => exact inStep_pure _
  | cons choice rest ih =>
      unfold Steps.tryChoices
      refine inStep_bind (hs.reach _) fun _ => inStep_bind (hsolve _) fun v => ?_
      cases v with
      | satisfiable m => exact inStep_bind (hs.reach _) fun _ => inStep_pure _
      | unsatisfiable core => exact inStep_bind (hs.reach _) fun _ => ih (some core)

/-- The loop; it may be cut when its rounds are used up, if the other has more of them. -/
theorem loop [StopCondition σ] [StopCondition σ'] (hk : k.Steady) (hs : st.InStep k st')
    (hp : pipeline.InStep k pipeline') {n n' : Nat} (hle : n ≤ n')
    (hcuts : n < n' → k.cuts .unfinished) (task : Task L) (place : LoopStep)
    (increments : List L.Formula) (position : Position L) : (lockstep k ω π).InStep
      (st.loop isHigherOrder pipeline n task place increments position)
      (st'.loop isHigherOrder pipeline' n' task place increments position) := by
  induction n generalizing n' task place increments position with
  | zero =>
      rcases Nat.eq_zero_or_pos n' with rfl | hpos
      · exact inStep_fail nofun
      · exact fun _ _ _ => .cut (hcuts hpos) List.nil_prefix
  | succ n ih =>
      obtain ⟨n', rfl⟩ := Nat.exists_eq_succ_of_ne_zero (Nat.ne_zero_of_lt hle)
      replace ih := fun task place increments position =>
        ih (Nat.le_of_succ_le_succ hle) (fun h => hcuts (Nat.succ_lt_succ h)) task place increments
          position
      unfold Steps.loop
      refine inStep_bind (inStep_stopping (inStep_poll hk.toAlike _)) fun _ => ?_
      cases position with
      | searching =>
          refine inStep_bind (inStep_count _) fun _ => inStep_bind (hs.consult _) fun q => ?_
          refine inStep_bind (inStep_decide hp q task.minimised) fun v => ?_
          cases v with
          | unsatisfiable core => exact inStep_bind (hs.reach _) fun _ => inStep_pure _
          | satisfiable m =>
              exact inStep_bind (hs.reach _) fun _ => inStep_bind (hs.reach _) fun _ => ih ..
      | verifying m =>
          refine inStep_bind (inStep_count _) fun _ => inStep_bind (hs.consult _) fun q => ?_
          refine inStep_bind (hs.reach _) fun _ => ?_
          refine inStep_bind (inStep_decide hp q false) fun v => ?_
          cases v with
          | unsatisfiable core => exact inStep_bind (hs.reach _) fun _ => inStep_pure _
          | satisfiable c =>
              refine inStep_bind (hs.reach _) fun _ => inStep_bind (hs.consult _) fun r => ?_
              cases r <;> exact ih ..
      | strengthening f =>
          refine inStep_bind (inStep_count _) fun _ => inStep_bind (hs.reach _) fun _ => ?_
          refine inStep_bind (hs.reach _) fun _ => ?_
          refine inStep_bind (inStep_stopping (inStep_tick hk)) fun _ => ?_
          exact inStep_bind (inStep_note _) fun _ => ih ..
      | splitting choices =>
          dsimp only
          split
          · exact inStep_fail nofun
          · refine inStep_bind (inStep_count _) fun _ => inStep_bind (hs.reach _) fun _ => ?_
            refine inStep_bind (inStep_note _) fun _ => ?_
            exact hs.tryChoices (fun t => hs.solveWith hp (fun t p => ih t p [] .searching) t) ..

theorem solve [StopCondition σ] [StopCondition σ'] (hk : k.Steady) (hs : st.InStep k st')
    (hp : pipeline.InStep k pipeline') {n n' : Nat} (hle : n ≤ n')
    (hcuts : n < n' → k.cuts .unfinished) (p : Problem L) : (lockstep k ω π).InStep
      (st.solve isHigherOrder pipeline n p) (st'.solve isHigherOrder pipeline' n' p) :=
  hs.solveWith hp (fun t place => hs.loop hk hp hle hcuts t place [] .searching) _

end Steps.InStep

/-- **Two loops are in lockstep** if their stop conditions and their pipelines are. -/
theorem inStep_solve [StopCondition σ] [StopCondition σ'] {k : Lockstep σ σ'} (hk : k.Steady)
    {pipeline : Pipeline L π σ} {pipeline' : Pipeline L π σ'} (hp : pipeline.InStep k pipeline')
    (oracle : Oracle L ω) {n n' : Nat} (hle : n ≤ n') (hcuts : n < n' → k.cuts .unfinished)
    (p : Problem L) : (lockstep k ω π).InStep (solve oracle pipeline n p)
      (solve oracle pipeline' n' p) := by
  rw [solve_eq, solve_eq]
  exact (inStep_steps k oracle).solve hk hp hle hcuts p

/-- More rounds than a run has used make no difference. -/
theorem solve_eq_of_le [StopCondition σ] {oracle : Oracle L ω} {pipeline : Pipeline L π σ}
    {n n' : Nat} (hle : n ≤ n') {p : Problem L} {s : State ω π σ}
    (hfinished : ((solve oracle pipeline n p).run s).answer ≠ .error .unfinished) :
    (solve oracle pipeline n' p).run s = (solve oracle pipeline n p).run s := by
  let k : Lockstep σ σ := .keeping (fun _ => True) (· = .unfinished)
  have hk : k.Steady := steady_keeping (fun _ _ => trivial) fun _ _ => trivial
  have hp : pipeline.InStep k pipeline := fun q minimised => inStep_self _ fun s s' hs =>
    ⟨Prod.ext hs.1 hs.2.1, fun t => ⟨⟨rfl, rfl, trivial⟩, ⟨rfl, rfl, trivial⟩⟩⟩
  have hs : (lockstep k ω π).running s s := ⟨rfl, rfl, trivial⟩
  have h := inStep_solve hk hp oracle hle (fun _ => rfl) p hs
  unfold Session.run at *
  generalize solve oracle pipeline n p s = o at h hfinished ⊢
  generalize solve oracle pipeline n' p s = o' at h ⊢
  have hstate {t t' : State ω π σ} (ht : (lockstep k ω π).running t t') : t' = t := by
    obtain ⟨o, q, stop, c⟩ := t
    obtain ⟨o', q', stop', c'⟩ := t'
    obtain ⟨hrest, rfl, -⟩ := ht
    cases hrest
    rfl
  cases h with
  | answered ht => rw [hstate ht]
  | failed _ ht => rw [hstate ht]
  | stopped ht => rw [hstate ht]
  | cut hc _ => exact absurd (congrArg Except.error hc) hfinished

end Refinement

end ModelFinder
