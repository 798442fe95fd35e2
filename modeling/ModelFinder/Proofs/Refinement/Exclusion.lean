import ModelFinder.Proofs.Pipeline.Completion
import ModelFinder.Proofs.Refinement.Cores
import ModelFinder.Proofs.Refinement.Courses
import ModelFinder.Proofs.Refinement.Soundness
import Mathlib.Data.List.Nodup
import Mathlib.Data.List.Perm.Subperm

/-!
# No candidate is found twice

The loop has no bound of its own.  An oracle gives it one that *excludes* the candidates it refutes
(`Oracle.Excludes`): the increment it returns for a candidate does not allow it, and the models of a
candidate problem are allowed by all increments.  As a session puts every increment to those it has
and gives all of them to every search, a refuted candidate stays excluded to its end.  So the
candidates of a session are pairwise different, and where there are only so many candidates for a
problem, a session has only so many searches and transitions, and comes to an end if it has more
rounds than that (`solve_never_repeats`).

A session has three kinds of transitions and makes one of each for a candidate, so that its position
tells how many it can have made (`Position.left`) and which of its candidates are excluded
(`Position.Bars`).  Each kind of position has a lemma for one round (`keepsBounds_searching`, …),
and a run of any length keeps the bounds (`keepsBoundsWithin`).
-/

namespace ModelFinder

variable {L : Logic} {ω π σ : Type} {Models : Problem L → L.Model → Prop}
  {Allows : L.Formula → L.Model → Prop}

/-! ### Oracles that exclude -/

namespace Oracle

/-- Models of a candidate problem are allowed by all increments, and the increment for a refuted
candidate does not allow it. -/
structure Excludes (oracle : Oracle L ω) (Models : Problem L → L.Model → Prop)
    (Allows : L.Formula → L.Model → Prop) : Prop where
  candidate : ∀ {p q : Problem L} {increments : List L.Formula} {o o' : ω},
    (oracle.candidateProblem p increments).Answers o q o' →
    ∀ m, Models q m → ∀ f ∈ increments, Allows f m
  increment : ∀ {p : Problem L} {m c : L.Model} {f : L.Formula} {o o' : ω},
    (oracle.refine p m c).Answers o (.increment f) o' → ¬ Allows f m

/-- The model is one of a candidate problem for `p`, under some increments. -/
def Proposes (oracle : Oracle L ω) (Models : Problem L → L.Model → Prop) (p : Problem L)
    (m : L.Model) : Prop :=
  ∃ increments q o o', (oracle.candidateProblem p increments).Answers o q o' ∧ Models q m

/-- The problems that an oracle poses. -/
inductive Poses (oracle : Oracle L ω) : Problem L → Prop
  | candidate {p q : Problem L} {increments : List L.Formula} {o o' : ω}
      (asked : (oracle.candidateProblem p increments).Answers o q o') : Poses oracle q
  | verification {p check : Problem L} {m : L.Model} {o o' : ω}
      (asked : (oracle.verificationProblem p m).Answers o check o') : Poses oracle check

end Oracle

/-- From the states in which `J` holds, the models that are answered to first-order problems, and to
those that the oracle poses, are right. -/
def Pipeline.Finds (pipeline : Pipeline L π σ) (oracle : Oracle L ω)
    (Models : Problem L → L.Model → Prop) (J : π → Prop) : Prop :=
  ∀ (p : Problem L) (minimised : Bool) (s : π) (stop : σ),
    oracle.IsFirstOrder p ∨ oracle.Poses p → J s →
    (pipeline.solve p minimised).Ends (s, stop)
      (fun v r => (∀ m, v = .satisfiable m → Models p m) ∧ J r.1) fun _ _ => True

/-- A pipeline that decides first-order problems is right about models, if the oracle poses no
others. -/
theorem Pipeline.Decides.finds {oracle : Oracle L ω} {pipeline : Pipeline L π σ} {J : π → Prop}
    (hp : pipeline.Decides oracle Models J) (hposes : ∀ p, oracle.Poses p → oracle.IsFirstOrder p) :
    pipeline.Finds oracle Models J := by
  intro p minimised s stop hask hJ
  refine (hp p minimised s stop (hask.elim id (hposes p)) hJ).mono (fun v r h => ⟨?_, h.2⟩)
    fun _ _ he => he
  rintro m rfl
  exact h.1

/-- Calls of the pipeline do not use up rounds. -/
def Pipeline.Returns (pipeline : Pipeline L π σ) : Prop :=
  ∀ p minimised s, (pipeline.solve p minimised).Ends s (fun _ _ => True) WithinRounds

theorem Pipeline.ends_of_returns (pipeline : Pipeline L π σ) (p : Problem L) (minimised : Bool)
    (s : π × σ) : (pipeline.solve p minimised).Ends s (fun _ _ => True)
      fun e _ => pipeline.Returns → e ≠ .unfinished := by
  unfold Session.Ends
  split
  next => trivial
  next e he => exact fun h => (h p minimised s).of_failure he

namespace Refinement

/-! ### Bounds -/

namespace Course

variable {oracle : Oracle L ω} {c : Course L}

/-- The candidates are different ones; there is a search for each of them and another one, and there
are three transitions for each of them and another one. -/
structure Bounded (oracle : Oracle L ω) (Models : Problem L → L.Model → Prop) (c : Course L) :
    Prop where
  nodup : c.candidates.Nodup
  proposed : ∀ m ∈ c.candidates, oracle.Proposes Models c.problem m
  searches : c.searches ≤ c.candidates.length + 1
  transitions : c.transitions ≤ 3 * c.candidates.length + 1

/-- Between two transitions, every search has found a candidate, all candidates are known to be
barred, and so many transitions are left up to the next search and with it. -/
structure Stands (oracle : Oracle L ω) (Models : Problem L → L.Model → Prop)
    (barred : L.Model → Prop) (left : Nat) (c : Course L) : Prop where
  nodup : c.candidates.Nodup
  proposed : ∀ m ∈ c.candidates, oracle.Proposes Models c.problem m
  barred : ∀ m ∈ c.candidates, barred m
  searches : c.searches ≤ c.candidates.length
  transitions : c.transitions + left ≤ 3 * c.candidates.length + 1

variable {barred barred' : L.Model → Prop} {left : Nat}

theorem stands_start (depth : Nat) (p : Problem L) :
    (start depth p).Stands oracle Models barred 1 :=
  ⟨List.nodup_nil, List.forall_mem_nil _, List.forall_mem_nil _, Nat.le_refl _, Nat.le_refl _⟩

theorem Stands.bounded (h : c.Stands oracle Models barred left) : c.Bounded oracle Models :=
  ⟨h.nodup, h.proposed, Nat.le_succ_of_le h.searches, Nat.le_of_add_right_le h.transitions⟩

theorem Stands.weaken (h : c.Stands oracle Models barred left)
    (hb : ∀ m, barred m → barred' m) : c.Stands oracle Models barred' left :=
  ⟨h.nodup, h.proposed, fun m hm => hb m (h.barred m hm), h.searches, h.transitions⟩

theorem Stands.moved (h : c.Stands oracle Models barred (left + 1)) :
    c.moved.Stands oracle Models barred left where
  nodup := h.nodup
  proposed := h.proposed
  barred := h.barred
  searches := h.searches
  transitions := by
    have := h.transitions
    show c.transitions + 1 + left ≤ 3 * c.candidates.length + 1
    omega

/-- Every search has found a candidate but for the last one. -/
theorem Stands.bounded_searched (h : c.Stands oracle Models barred left) :
    c.searched.Bounded oracle Models :=
  ⟨h.nodup, h.proposed, Nat.succ_le_succ h.searches, h.bounded.transitions⟩

/-- A candidate that is not barred is none of those found before. -/
theorem Stands.found (h : c.Stands oracle Models barred left) {m : L.Model}
    (hproposed : oracle.Proposes Models c.problem m) (hm : ¬ barred m) :
    (c.searched.found m).Stands oracle Models (fun m' => barred m' ∨ m' = m) (left + 3) where
  nodup := by
    show (c.candidates ++ [m]).Nodup
    rw [← List.concat_eq_append]
    exact List.Nodup.concat (fun hmem => hm (h.barred m hmem)) h.nodup
  proposed := List.forall_mem_append.mpr
    ⟨h.proposed, List.forall_mem_singleton.mpr hproposed⟩
  barred := List.forall_mem_append.mpr
    ⟨fun a ha => .inl (h.barred a ha), List.forall_mem_singleton.mpr (.inr rfl)⟩
  searches := by
    show c.searches + 1 ≤ (c.candidates ++ [m]).length
    rw [List.length_append]
    exact Nat.succ_le_succ h.searches
  transitions := by
    show c.transitions + (left + 3) ≤ 3 * (c.candidates ++ [m]).length + 1
    have := h.transitions
    rw [List.length_append, List.length_singleton]
    omega

/-- Among so many candidates, different ones are not more. -/
theorem Bounded.within (h : c.Bounded oracle Models) {instances : List L.Model}
    (hall : ∀ m, oracle.Proposes Models c.problem m → m ∈ instances) :
    c.searches ≤ instances.length + 1 ∧ c.transitions ≤ 3 * instances.length + 1 := by
  have hlength : c.candidates.length ≤ instances.length :=
    (List.subperm_of_subset h.nodup fun m hm => hall m (h.proposed m hm)).length_le
  have hsearches := h.searches
  have htransitions := h.transitions
  omega

end Course

/-! ### Calls of the pipeline -/

open Session Oracle

variable {oracle : Oracle L ω} {pipeline : Pipeline L π σ} {J : π → Prop}
  {s : State ω π (Watched L σ)} {E : Failure → State ω π (Watched L σ) → Prop}

/-- The oracle and the loop put no other problems to the pipeline than those for which it is
right. -/
theorem ends_watched_decide (hp : pipeline.Finds oracle Models J) {p : Problem L}
    (hask : oracle.IsFirstOrder p ∨ oracle.Poses p) (hJ : J s.pipeline) (minimised : Bool)
    {Q : Verdict L → State ω π (Watched L σ) → Prop}
    (h : ∀ v (t : State ω π (Watched L σ)), (∀ m, v = .satisfiable m → Models p m) →
      J t.pipeline → t.courses = s.courses → Q v t)
    (he : ∀ e (t : State ω π (Watched L σ)), (pipeline.Returns → e ≠ .unfinished) →
      t.courses = s.courses → E e t) :
    (decide pipeline.sealed.watched p minimised : Run L ω π (Watched L σ) (Verdict L)).Ends s
      Q E := by
  have hcalled : Refinement.courses (s.stop.log ++ [.called p minimised]) = s.courses :=
    courses_push s [.called p minimised]
  unfold decide Pipeline.watched
  rw [ends_within, ends_mapNotes, ends_bind, ends_pipeline_record, ends_bind]
  have hsolve : (pipeline.solve p minimised).Ends (s.pipeline, s.stop.stop)
      (fun v r => (∀ m, v = .satisfiable m → Models p m) ∧ J r.1)
      fun e _ => pipeline.Returns → e ≠ .unfinished :=
    Ends.mono ((hp p minimised s.pipeline s.stop.stop hask hJ).and
      (pipeline.ends_of_returns p minimised _)) (fun _ _ h => h.1) fun _ _ h => h.2
  refine (ends_sealed hsolve).mono (fun v r hr => ?_)
    fun e r hr => he e _ hr.1 (hr.2.trans hcalled)
  obtain ⟨⟨hm, hJ'⟩, hr⟩ := hr
  refine h v { s with pipeline := r.1, stop := r.2.push [.decided p minimised v] } hm hJ' ?_
  exact (courses_append ..).trans (hr.trans hcalled)

/-! ### Sessions -/

/-- All sessions are within their bounds. -/
def InBounds (oracle : Oracle L ω) (Models : Problem L → L.Model → Prop) (cs : List (Course L)) :
    Prop := ∀ c ∈ cs, c.Bounded oracle Models

theorem inBounds_of_eq_cons {c : Course L} {cs earlier : List (Course L)} (hcs : cs = c :: earlier)
    (hc : c.Bounded oracle Models) (hearlier : InBounds oracle Models earlier) :
    InBounds oracle Models cs := by
  rw [hcs]
  exact List.forall_mem_cons.mpr ⟨hc, hearlier⟩

/-- The run leaves all sessions within their bounds, and does not leave the states of the pipeline
unless it fails as `E` says. -/
def KeepsBounds (oracle : Oracle L ω) (Models : Problem L → L.Model → Prop) (J : π → Prop)
    (E : Failure → State ω π (Watched L σ) → Prop) (x : Run L ω π (Watched L σ) (Verdict L))
    (s : State ω π (Watched L σ)) : Prop :=
  x.Ends s (fun _ t => InBounds oracle Models t.courses ∧ J t.pipeline) E

/-- A failure leaves all sessions within their bounds. -/
def FailsInBounds (oracle : Oracle L ω) (Models : Problem L → L.Model → Prop) (_ : Failure)
    (t : State ω π (Watched L σ)) : Prop := InBounds oracle Models t.courses

/-- A session has split. -/
def HasSplit (t : State ω π (Watched L σ)) : Prop :=
  ∃ place f, .reached (.splitStart place f) ∈ t.stop.log

/-- Failures leave all sessions within their bounds.  Rounds are only used up by a session that has
begun `n` transitions, or after a split. -/
structure FailsWithin (oracle : Oracle L ω) (pipeline : Pipeline L π σ)
    (Models : Problem L → L.Model → Prop) (n : Nat) (p : Problem L) (e : Failure)
    (t : State ω π (Watched L σ)) : Prop where
  inBounds : InBounds oracle Models t.courses
  unfinished : pipeline.Returns → e = .unfinished →
    HasSplit t ∨ ∃ c ∈ t.courses, c.problem = p ∧ n ≤ c.transitions

theorem FailsWithin.of_withinRounds {n : Nat} {p : Problem L} {e : Failure}
    {t : State ω π (Watched L σ)} (ht : InBounds oracle Models t.courses)
    (he : pipeline.Returns → WithinRounds e t) :
    FailsWithin oracle pipeline Models n p e t := ⟨ht, fun hr h => absurd h (he hr)⟩

/-- A session is started for a problem that is not first-order. -/
theorem keepsBounds_solveWith (hp : pipeline.Finds oracle Models J)
    {loop : Task L → LoopStep → Run L ω π (Watched L σ) (Verdict L)} {task : Task L} {n : Nat}
    (hloop : ∀ t : State ω π (Watched L σ),
      t.courses = .start task.depth task.problem :: s.courses → J t.pipeline →
      KeepsBounds oracle Models J (FailsWithin oracle pipeline Models n task.problem)
        (loop task ⟨task.depth, 0⟩) t)
    (hs : InBounds oracle Models s.courses) (hJ : J s.pipeline) :
    KeepsBounds oracle Models J (FailsWithin oracle pipeline Models n task.problem)
      ((watchedSteps oracle).solveWith oracle.isHigherOrder pipeline.sealed.watched loop task)
      s := by
  unfold KeepsBounds Steps.solveWith
  cases hfirst : oracle.isHigherOrder task.problem.formula with
  | false =>
      refine ends_watched_decide hp (.inl hfirst) hJ task.minimised (fun v t _ hJ' ht => ?_)
        fun e t he ht => ?_
      · exact ⟨ht ▸ hs, hJ'⟩
      · exact .of_withinRounds (ht ▸ hs) he
  | true =>
      show (count _ >>= _).Ends s _ _
      rw [ends_bind, ends_count, ends_bind]
      refine ends_watched_reach fun s₁ hp₁ hs₁ => ?_
      rw [ends_bind]
      refine ends_watched_reach fun s₂ hp₂ hs₂ => ?_
      exact hloop s₂ (hs₂.trans hs₁) (by rwa [hp₂, hp₁])

/-- The cases of a split, one after the other. -/
theorem keepsBounds_tryChoices {solve : Task L → Run L ω π (Watched L σ) (Verdict L)}
    (hsolve : ∀ (s : State ω π (Watched L σ)) (t : Task L), InBounds oracle Models s.courses →
      J s.pipeline → KeepsBounds oracle Models J (FailsInBounds oracle Models) (solve t) s)
    (task : Task L) (place : LoopStep) (choices : List (Problem L)) (core? : Option (UnsatCore L))
    (hs : InBounds oracle Models s.courses) (hJ : J s.pipeline) :
    KeepsBounds oracle Models J (FailsInBounds oracle Models)
      ((watchedSteps oracle).tryChoices solve task place choices core?) s := by
  induction choices generalizing s core? with
  | nil =>
      cases core? with
      | none => exact hs
      | some core => exact ⟨hs, hJ⟩
  | cons choice rest ih =>
      unfold KeepsBounds Steps.tryChoices
      rw [ends_bind]
      refine ends_watched_reach fun s₁ hp₁ hs₁ => ?_
      rw [ends_bind]
      refine (hsolve s₁ _ (hs₁ ▸ hs) (hp₁ ▸ hJ)).mono (fun v s₂ h => ?_) fun _ _ he => he
      obtain ⟨hs₂, hJ₂⟩ := h
      cases v with
      | satisfiable m =>
          dsimp only
          rw [ends_bind]
          exact ends_watched_reach fun s₃ hp₃ hs₃ => ⟨hs₃ ▸ hs₂, hp₃ ▸ hJ₂⟩
      | unsatisfiable core =>
          dsimp only
          rw [ends_bind]
          exact ends_watched_reach fun s₃ hp₃ hs₃ => ih (some core) (hs₃ ▸ hs₂) (hp₃ ▸ hJ₂)

/-! ### The loop -/

/-- Which candidates of a session are known to be excluded. -/
def Position.Bars (Allows : L.Formula → L.Model → Prop) (increments : List L.Formula) :
    Position L → L.Model → Prop
  | .searching, m => ∃ f ∈ increments, ¬ Allows f m
  | .verifying candidate, m => (∃ f ∈ increments, ¬ Allows f m) ∨ m = candidate
  | .strengthening f, m => ∃ g ∈ increments ++ [f], ¬ Allows g m
  | .splitting _, _ => True

/-- How many transitions a session can begin at most, up to the next search and with it. -/
def Position.left : Position L → Nat
  | .searching => 1
  | .verifying _ => 3
  | .strengthening _ => 2
  | .splitting _ => 2

/-- What a session has done fits its position, and its rounds, of which there were `n`. -/
structure OnCourse (oracle : Oracle L ω) (Models : Problem L → L.Model → Prop)
    (Allows : L.Formula → L.Model → Prop) (n rounds : Nat) (task : Task L) (place : LoopStep)
    (increments : List L.Formula) (position : Position L) (c : Course L) : Prop where
  depth : c.depth = place.depth
  problem : c.problem = task.problem
  stands : c.Stands oracle Models (position.Bars Allows increments) position.left
  rounds : n ≤ rounds + c.transitions

section Loop

variable [StopCondition σ] {n rounds : Nat} {task : Task L} {place : LoopStep}
  {increments : List L.Formula} {c : Course L} {earlier : List (Course L)}

/-- From every position, a session of so many rounds keeps the bounds. -/
def KeepsBoundsWithin (oracle : Oracle L ω) (pipeline : Pipeline L π σ)
    (Models : Problem L → L.Model → Prop) (Allows : L.Formula → L.Model → Prop) (J : π → Prop)
    (rounds : Nat) : Prop :=
  ∀ {n : Nat} {task : Task L} {place : LoopStep} {increments : List L.Formula}
    {position : Position L} {s : State ω π (Watched L σ)} {c : Course L}
    {earlier : List (Course L)}, s.courses = c :: earlier → InBounds oracle Models earlier →
    OnCourse oracle Models Allows n rounds task place increments position c → J s.pipeline →
    KeepsBounds oracle Models J (FailsWithin oracle pipeline Models n task.problem)
      ((watchedSteps oracle).loop oracle.isHigherOrder pipeline.sealed.watched rounds task place
        increments position) s

/-- Every transition is begun with a poll. -/
theorem keepsBounds_begin {phase : Phase} {x : Run L ω π (Watched L σ) (Verdict L)}
    {barred : L.Model → Prop} {left : Nat} {p : Problem L} (hs : s.courses = c :: earlier)
    (hearlier : InBounds oracle Models earlier)
    (hc : c.Stands oracle Models barred (left + 1))
    (hx : ∀ t : State ω π (Watched L σ), t.courses = c.moved :: earlier →
      t.pipeline = s.pipeline →
      KeepsBounds oracle Models J (FailsWithin oracle pipeline Models n p) x t) :
    KeepsBounds oracle Models J (FailsWithin oracle pipeline Models n p)
      (stopping (Session.poll phase) >>= fun _ => x) s := by
  unfold KeepsBounds
  rw [ends_bind]
  refine ends_watched_poll (fun t hp ht => ?_) fun t ht => ?_
  · exact hx t (ht.trans (congrArg _ hs)) hp
  · refine .of_withinRounds ?_ fun _ => withinRounds_exhausted
    exact inBounds_of_eq_cons (ht.trans (congrArg _ hs)) hc.moved.bounded hearlier

/-- A round takes a transition. -/
theorem rounds_moved (hn : n ≤ rounds + 1 + c.transitions) :
    n ≤ rounds + c.moved.transitions := by
  show n ≤ rounds + (c.transitions + 1)
  omega

/-- A candidate that is found is allowed by all increments, and so it is none of those that have
been found before. -/
theorem keepsBounds_searching (ho : oracle.Excludes Models Allows)
    (hp : pipeline.Finds oracle Models J)
    (ih : KeepsBoundsWithin oracle pipeline Models Allows J rounds)
    (hs : s.courses = c :: earlier) (hearlier : InBounds oracle Models earlier)
    (hc : OnCourse oracle Models Allows n (rounds + 1) task place increments .searching c)
    (hJ : J s.pipeline) :
    KeepsBounds oracle Models J (FailsWithin oracle pipeline Models n task.problem)
      ((watchedSteps oracle).loop oracle.isHigherOrder pipeline.sealed.watched (rounds + 1) task
        place increments .searching) s := by
  unfold Steps.loop
  refine keepsBounds_begin hs hearlier hc.stands fun s₁ hs₁ hp₁ => ?_
  have hstands := hc.stands.moved
  unfold KeepsBounds
  rw [ends_bind, ends_count, ends_bind]
  -- one more search than candidates
  have hsearched {t : State ω π (Watched L σ)} (ht : t.courses = c.moved.searched :: earlier) :
      InBounds oracle Models t.courses :=
    inBounds_of_eq_cons ht hstands.bounded_searched hearlier
  have hask (t : State ω π (Watched L σ)) (ht : t.courses = Course.step
      (State.courses { s₁ with counters := _ }) (.asked (.candidate task.problem increments))) :
      t.courses = c.moved.searched :: earlier :=
    ht.trans (congrArg (List.modifyHead Course.searched) hs₁)
  refine ends_watched_consult (fun q s₂ o o' hq hp₂ hs₂ => ?_)
    fun cause t ht => .of_withinRounds (hsearched (hask t ht)) fun _ => withinRounds_translation
  replace hs₂ := hask s₂ hs₂
  rw [ends_bind]
  have hJ₂ : J s₂.pipeline := by rwa [hp₂, hp₁]
  refine ends_watched_decide hp (.inr (.candidate hq)) hJ₂ task.minimised
    (fun v s₃ hv hJ₃ hs₃ => ?_) fun e t he ht => .of_withinRounds (hsearched (ht.trans hs₂)) he
  rw [hs₂] at hs₃
  cases v with
  | unsatisfiable core =>
      dsimp only
      rw [ends_bind]
      refine ends_watched_reach fun t hpt ht => ⟨?_, hpt ▸ hJ₃⟩
      exact hsearched (ht.trans (hs₃ ▸ step_outcome increments _ none _))
  | satisfiable m =>
      dsimp only
      rw [ends_bind]
      refine ends_watched_reach fun s₄ hp₄ hs₄ => ?_
      rw [ends_bind]
      refine ends_watched_reach fun s₅ hp₅ hs₅ => ?_
      have hm : Models q m := hv m rfl
      have hfound : s₅.courses = c.moved.searched.found m :: earlier := by
        rw [hs₅, hs₄, step_outcome increments _ (some m), hs₃]
        exact if_pos hc.depth
      refine ih hfound hearlier ⟨hc.depth, hc.problem, ?_, rounds_moved hc.rounds⟩
        (by rwa [hp₅, hp₄])
      have hproposed : oracle.Proposes Models c.problem m :=
        ⟨increments, q, o, o', hc.problem ▸ hq, hm⟩
      refine hstands.found hproposed ?_
      rintro ⟨f, hf, hnot⟩
      exact hnot (ho.candidate hq m hm f hf)

/-- A candidate that is refuted is excluded by the increment that is returned for it. -/
theorem keepsBounds_verifying (ho : oracle.Excludes Models Allows)
    (hp : pipeline.Finds oracle Models J)
    (ih : KeepsBoundsWithin oracle pipeline Models Allows J rounds) {m : L.Model}
    (hs : s.courses = c :: earlier) (hearlier : InBounds oracle Models earlier)
    (hc : OnCourse oracle Models Allows n (rounds + 1) task place increments (.verifying m) c)
    (hJ : J s.pipeline) :
    KeepsBounds oracle Models J (FailsWithin oracle pipeline Models n task.problem)
      ((watchedSteps oracle).loop oracle.isHigherOrder pipeline.sealed.watched (rounds + 1) task
        place increments (.verifying m)) s := by
  unfold Steps.loop
  refine keepsBounds_begin hs hearlier hc.stands fun s₁ hs₁ hp₁ => ?_
  have hstands := hc.stands.moved
  have hrounds := rounds_moved hc.rounds
  have hbounds {t : State ω π (Watched L σ)} (ht : t.courses = s₁.courses) :
      InBounds oracle Models t.courses :=
    inBounds_of_eq_cons (ht.trans hs₁) hstands.bounded hearlier
  unfold KeepsBounds
  rw [ends_bind, ends_count, ends_bind]
  refine ends_watched_consult (fun check s₂ o o' hq hp₂ hs₂ => ?_)
    fun cause t ht => .of_withinRounds (hbounds ht) fun _ => withinRounds_translation
  rw [ends_bind]
  refine ends_watched_reach fun s₃ hp₃ hs₃ => ?_
  rw [ends_bind]
  have hJ₃ : J s₃.pipeline := by rwa [hp₃, hp₂, hp₁]
  have hs₃' : s₃.courses = s₁.courses := hs₃.trans hs₂
  refine ends_watched_decide hp (.inr (.verification hq)) hJ₃ false (fun v s₄ _ hJ₄ hs₄ => ?_)
    fun e t he ht => .of_withinRounds (hbounds (ht.trans hs₃')) he
  cases v with
  | unsatisfiable core =>
      dsimp only
      rw [ends_bind]
      exact ends_watched_reach fun t hpt ht => ⟨hbounds (ht.trans (hs₄.trans hs₃')), hpt ▸ hJ₄⟩
  | satisfiable counterexample =>
      dsimp only
      rw [ends_bind]
      refine ends_watched_reach fun s₅ hp₅ hs₅ => ?_
      rw [ends_bind]
      have hs₅' : s₅.courses = s₁.courses := hs₅.trans (hs₄.trans hs₃')
      refine ends_watched_consult (fun r s₆ o o' hr hp₆ hs₆ => ?_)
        fun cause t ht => .of_withinRounds (hbounds (ht.trans hs₅'))
          fun _ => withinRounds_translation
      have hJ₆ : J s₆.pipeline := by rwa [hp₆, hp₅]
      have hs₆' : s₆.courses = c.moved :: earlier := (hs₆.trans hs₅').trans hs₁
      cases r with
      | increment f =>
          refine ih hs₆' hearlier ⟨hc.depth, hc.problem, ?_, hrounds⟩ hJ₆
          refine hstands.weaken fun m' hm' => ?_
          rcases hm' with ⟨g, hg, hnot⟩ | rfl
          · exact ⟨g, List.mem_append_left _ hg, hnot⟩
          · exact ⟨f, List.mem_append_right _ List.mem_cons_self, ho.increment hr⟩
      | split choices =>
          refine ih hs₆' hearlier ⟨hc.depth, hc.problem, ?_, hrounds⟩ hJ₆
          exact hstands.weaken fun _ _ => trivial

/-- The increments of a session become more only, so that what they exclude stays excluded. -/
theorem keepsBounds_strengthening
    (ih : KeepsBoundsWithin oracle pipeline Models Allows J rounds) {f : L.Formula}
    (hs : s.courses = c :: earlier) (hearlier : InBounds oracle Models earlier)
    (hc : OnCourse oracle Models Allows n (rounds + 1) task place increments (.strengthening f) c)
    (hJ : J s.pipeline) :
    KeepsBounds oracle Models J (FailsWithin oracle pipeline Models n task.problem)
      ((watchedSteps oracle).loop oracle.isHigherOrder pipeline.sealed.watched (rounds + 1) task
        place increments (.strengthening f)) s := by
  unfold Steps.loop
  refine keepsBounds_begin hs hearlier hc.stands fun s₁ hs₁ hp₁ => ?_
  unfold KeepsBounds
  rw [ends_bind, ends_count, ends_bind]
  refine ends_watched_reach fun s₂ hp₂ hs₂ => ?_
  rw [ends_bind]
  refine ends_watched_reach fun s₃ hp₃ hs₃ => ?_
  rw [ends_bind]
  refine ends_watched_tick fun s₄ hp₄ hs₄ => ?_
  rw [ends_bind, ends_note]
  have hs₄' : s₄.courses = c.moved :: earlier := hs₄.trans (hs₃.trans (hs₂.trans hs₁))
  have hJ₄ : J s₄.pipeline := by rwa [hp₄, hp₃, hp₂, hp₁]
  exact ih hs₄' hearlier
    ⟨hc.depth, hc.problem, hc.stands.moved, rounds_moved hc.rounds⟩ hJ₄

/-- A problem is solved in a session of its own, with rounds of its own. -/
theorem keepsBounds_session (hp : pipeline.Finds oracle Models J)
    (ih : KeepsBoundsWithin oracle pipeline Models Allows J rounds) (task : Task L)
    (hn : n ≤ rounds) (hs : InBounds oracle Models s.courses) (hJ : J s.pipeline) :
    KeepsBounds oracle Models J (FailsWithin oracle pipeline Models n task.problem)
      ((watchedSteps oracle).solveWith oracle.isHigherOrder pipeline.sealed.watched
        (fun t place => (watchedSteps oracle).loop oracle.isHigherOrder pipeline.sealed.watched
          rounds t place [] .searching) task) s :=
  keepsBounds_solveWith hp
    (fun _ ht hJ => ih ht hs ⟨rfl, rfl, Course.stands_start _ _, hn⟩ hJ) hs hJ

/-- What is in the log stays there, whatever the cases of a split do. -/
theorem ends_tryChoices_log (task : Task L) (place : LoopStep) (choice : Problem L)
    (rest : List (Problem L)) (s : State ω π (Watched L σ)) :
    ((watchedSteps oracle).tryChoices ((watchedSteps oracle).solveWith oracle.isHigherOrder
      pipeline.sealed.watched fun t place => (watchedSteps oracle).loop oracle.isHigherOrder
        pipeline.sealed.watched rounds t place [] .searching) task place (choice :: rest) none).Ends
      s
      (fun _ t => s.stop.log <+: t.stop.log) fun _ t => s.stop.log <+: t.stop.log := by
  have hsealed := pipeline.logsInside_sealed
  have hnone : task.minimised = true → ∀ n ∈ ([] : List Nat), n = 0 :=
    fun _ => List.forall_mem_nil _
  have hcase (t : Task L) (outer : List Nat) (ht : t.minimised = true → ∀ n ∈ outer, n = 0) :
      Logs ((watchedSteps oracle).solveWith oracle.isHigherOrder pipeline.sealed.watched
        (fun t place => (watchedSteps oracle).loop oracle.isHigherOrder pipeline.sealed.watched
          rounds t place [] .searching) t : Run L ω π (Watched L σ) (Verdict L))
        (Spends t.minimised ⟨outer, false⟩ outer) :=
    spends_solveWith hsealed ht fun place =>
      spendsWithin hsealed rounds t place [] .searching outer ht
  obtain ⟨h, hlog, -⟩ := spends_tryChoices hcase hnone choice rest none s
  unfold Session.Ends
  split <;> exact ⟨h, hlog.symm⟩

/-- The cases of a split are sessions of their own. -/
theorem keepsBounds_splitting (hp : pipeline.Finds oracle Models J)
    (ih : KeepsBoundsWithin oracle pipeline Models Allows J rounds) {choices : List (Problem L)}
    (hs : s.courses = c :: earlier) (hearlier : InBounds oracle Models earlier)
    (hc : OnCourse oracle Models Allows n (rounds + 1) task place increments (.splitting choices) c)
    (hJ : J s.pipeline) :
    KeepsBounds oracle Models J (FailsWithin oracle pipeline Models n task.problem)
      ((watchedSteps oracle).loop oracle.isHigherOrder pipeline.sealed.watched (rounds + 1) task
        place increments (.splitting choices)) s := by
  unfold Steps.loop
  refine keepsBounds_begin hs hearlier hc.stands fun s₁ hs₁ hp₁ => ?_
  have hbounds : InBounds oracle Models s₁.courses :=
    inBounds_of_eq_cons hs₁ hc.stands.moved.bounded hearlier
  cases choices with
  | nil => exact .of_withinRounds hbounds fun _ => withinRounds_violation
  | cons choice rest =>
      show (count _ >>= _).Ends s₁ _ _
      rw [ends_bind, ends_count, ends_bind]
      refine ends_watched_reach_mem fun s₂ hp₂ hs₂ hmem => ?_
      rw [ends_bind, ends_note]
      have hJ₂ : J s₂.pipeline := by rwa [hp₂, hp₁]
      have hcases := keepsBounds_tryChoices (fun s t hs hJ => Ends.mono
        (keepsBounds_session hp ih t (Nat.zero_le rounds) hs hJ) (fun _ _ h => h)
        fun _ _ he => he.inBounds) task place (choice :: rest) none
        (hs₂ ▸ hbounds) hJ₂
      refine Ends.mono (hcases.and (ends_tryChoices_log task _ choice rest s₂))
        (fun _ _ h => h.1) fun e t h => ⟨h.1, fun _ _ => ?_⟩
      exact .inl ⟨_, _, h.2.subset hmem⟩

/-- **A run keeps the bounds of its sessions**, after any number of rounds. -/
theorem keepsBoundsWithin (ho : oracle.Excludes Models Allows)
    (hp : pipeline.Finds oracle Models J) (rounds : Nat) :
    KeepsBoundsWithin oracle pipeline Models Allows J rounds := by
  induction rounds with
  | zero =>
      intro n task place increments position s c earlier hs hearlier hc _
      have hmem : c ∈ s.courses := hs ▸ List.mem_cons_self
      have hn : n ≤ c.transitions := Nat.zero_add c.transitions ▸ hc.rounds
      refine ⟨inBounds_of_eq_cons hs hc.stands.bounded hearlier, fun _ _ => .inr ?_⟩
      exact ⟨c, hmem, hc.problem, hn⟩
  | succ rounds ih =>
      intro n task place increments position s c earlier hs hearlier hc hJ
      cases position with
      | searching => exact keepsBounds_searching ho hp ih hs hearlier hc hJ
      | verifying m => exact keepsBounds_verifying ho hp ih hs hearlier hc hJ
      | strengthening f => exact keepsBounds_strengthening ih hs hearlier hc hJ
      | splitting choices => exact keepsBounds_splitting hp ih hs hearlier hc hJ

/-- **No candidate is found twice** by a session whose oracle excludes candidates and whose pipeline
is right about models.  So if there are only so many candidates for its problem, a session searches
for one at most once more than that, before it ends or splits, and it begins at most three
transitions for each of them and another one; with more rounds than that, they are not used up
unless there is a split. -/
theorem solve_never_repeats {s : State ω π σ} (ho : oracle.Excludes Models Allows)
    (hp : pipeline.Finds oracle Models J) (hJ : J s.pipeline) (rounds : Nat) (p : Problem L) :
    let r := (solve oracle pipeline rounds p).run s
    let h := history oracle pipeline.sealed rounds p s
    Occurrence.milestones h = Note.milestones r.notes ∧
      (∀ c ∈ courses h, c.candidates.Nodup ∧
        ∀ instances : List L.Model, (∀ m, oracle.Proposes Models c.problem m → m ∈ instances) →
          c.searches ≤ instances.length + 1 ∧ c.transitions ≤ 3 * instances.length + 1) ∧
      ∀ instances : List L.Model, (∀ m, oracle.Proposes Models p m → m ∈ instances) →
        3 * instances.length + 1 < rounds → pipeline.Returns → r.answer = .error .unfinished →
          ∃ place f, .splitStart place f ∈ Note.milestones r.notes := by
  intro r h
  have hlogs : Logs (watch (ω := ω) oracle pipeline.sealed rounds p) fun _ _ => True :=
    (spends_watch pipeline.logsInside_sealed rounds p).mono fun _ _ _ => trivial
  have hmilestones : Occurrence.milestones h = Note.milestones r.notes :=
    (history_of_logs (Pipeline.inStep_sealed pipeline) hlogs s).1
  have hkeeps : KeepsBounds oracle Models J (FailsWithin oracle pipeline Models rounds p)
      (watch oracle pipeline.sealed rounds p) (s.unlogged L) :=
    keepsBounds_session hp (keepsBoundsWithin ho hp rounds) ⟨p, 0, true⟩ (Nat.le_refl rounds)
      (List.forall_mem_nil _) hJ
  have hbounds : InBounds oracle Models (courses h) :=
    (hkeeps.mono (fun _ _ ht => ht.1) fun _ _ ht => ht.inBounds).state
  refine ⟨hmilestones, fun c hc => ⟨(hbounds c hc).nodup, fun _ hall => (hbounds c hc).within hall⟩,
    fun instances hall hrounds hreturns hanswer => ?_⟩
  have hr : r.answer = ((watch oracle pipeline.sealed rounds p).run (s.unlogged L)).answer :=
    congrArg Outcome.answer (solve_eq_watch (Pipeline.inStep_sealed pipeline) oracle rounds p s)
  rcases (hkeeps.of_failure (hr.symm.trans hanswer)).unfinished hreturns rfl with hsplit | hspent
  · obtain ⟨place, f, hmem⟩ := hsplit
    refine ⟨place, f, hmilestones ▸ ?_⟩
    exact List.mem_filterMap.mpr ⟨_, hmem, rfl⟩
  · obtain ⟨c, hc, rfl, hn⟩ := hspent
    have htransitions := ((hbounds c hc).within hall).2
    omega

end Loop

/-! ### Lists with one number -/

namespace Wanted

/-- A candidate is allowed by all increments, and an increment leaves out the one it excludes. -/
theorem excludes_exclusion : exclusion.Excludes IsModel fun f n => admits f n = true where
  candidate h n hn f hf := by
    cases h.1
    have hmem := (List.mem_filter.mp (admits_any.mp hn)).2
    exact List.all_eq_true.mp hmem f hf
  increment {p n c f o o'} h := by
    have hf : f = any (p.formula.numbers.filter (· ≠ n)) := by
      obtain ⟨w, _⟩ := p
      cases w with
      | any ns => cases h.1; rfl
      | only ns => cases h.1; rfl
      | either ns ns' => cases h.1
    rw [hf, admits_any]
    simp

theorem finds_selection : selection.Finds exclusion IsModel fun _ => True := by
  refine decides_selection.finds fun p hposes => ?_
  cases hposes with
  | candidate asked => cases asked.1; rfl
  | verification asked => exact (verification_exact asked).1

end Wanted

/-- Of `1, 3` and `2`, the first list is left after both of its numbers have been found, with one
more search: there can not be more. -/
theorem solve_never_repeats_two_lists :
    let h := history Wanted.exclusion Wanted.selection.sealed 10 ⟨.either [1, 3] [2], ()⟩
      ⟨(), (), .indefinite, {}⟩
    ((courses h).map fun c => ((c.candidates : List Nat), c.searches, c.transitions)) =
        [([2], 1, 2), ([1, 3], 3, 7), ([1], 1, 3)] ∧
      ∀ c ∈ courses h, c.candidates.Nodup ∧ ∀ instances : List Nat,
        (∀ n, Wanted.exclusion.Proposes Wanted.IsModel c.problem n → n ∈ instances) →
          c.searches ≤ instances.length + 1 ∧ c.transitions ≤ 3 * instances.length + 1 :=
  ⟨by decide +kernel, (solve_never_repeats Wanted.excludes_exclusion Wanted.finds_selection trivial
    10 _).2.1⟩

end Refinement

end ModelFinder
