import ModelFinder.Proofs.Refinement.History
import Mathlib.Data.List.Basic

/-!
# The sessions of a history

A history is told by the sessions in it: `courses` has for each of them a `Course`, with the
candidates that it has found and the numbers of its searches and transitions.  A session is started
with its first milestone, and what happens afterwards belongs to the session that was started last;
a candidate belongs to the last session of its depth.

What a step of a watched run adds to the sessions is told by one rule for each kind of step
(`ends_watched_reach`, `ends_watched_consult`, …), so that a proof about them follows the text of
the loop.
-/

namespace ModelFinder.Refinement

variable {L : Logic} {ω π σ : Type}

/-! ### The sessions of a history -/

/-- What a session has done: the candidates it has found, in order, how often it has searched for
one, and how many transitions it has begun. -/
structure Course (L : Logic) where
  depth : Nat
  problem : Problem L
  candidates : List L.Model
  searches : Nat
  transitions : Nat

namespace Course

/-- A session is started. -/
def start (depth : Nat) (p : Problem L) : Course L := ⟨depth, p, [], 0, 0⟩

/-- A candidate is found. -/
def found (m : L.Model) (c : Course L) : Course L := { c with candidates := c.candidates ++ [m] }

/-- A candidate is searched for. -/
def searched (c : Course L) : Course L := { c with searches := c.searches + 1 }

/-- A transition is begun. -/
def moved (c : Course L) : Course L := { c with transitions := c.transitions + 1 }

/-- A candidate is found by the last session of its depth. -/
def foundAt (depth : Nat) (m : L.Model) : List (Course L) → List (Course L)
  | [] => []
  | c :: earlier =>
    if c.depth = depth then c.found m :: earlier else c :: foundAt depth m earlier

/-- What an occurrence adds to the sessions, the last of which is the first in the list. -/
def step (cs : List (Course L)) : Occurrence L → List (Course L)
  | .reached (.loopStart place p) => start place.depth p :: cs
  | .reached (.candidateFound place m) => foundAt place.depth m cs
  | .asked (.candidate ..) => cs.modifyHead searched
  | .polled _ => cs.modifyHead moved
  | _ => cs

end Course

/-- The sessions of a history, the last one first. -/
def courses (h : List (Occurrence L)) : List (Course L) := h.foldl Course.step []

theorem courses_append (h h' : List (Occurrence L)) :
    courses (h ++ h') = h'.foldl Course.step (courses h) := List.foldl_append

/-- What happens inside of a call of a sealed pipeline is no matter of sessions. -/
theorem foldl_step_stages (cs : List (Course L)) (notes : List (Note (Stage L))) :
    (Pipeline.stages notes).foldl Course.step cs = cs := by
  unfold Pipeline.stages
  rw [List.foldl_map]
  exact List.foldl_fixed' (fun _ => rfl) _

/-- How a search has ended is no matter of sessions. -/
theorem step_outcome (increments : List L.Formula) (place : LoopStep) (m? : Option L.Model)
    (cs : List (Course L)) : Course.step cs (.reached (match m? with
      | none => if increments.isEmpty then .noSolution place else .incrementingOutcome place none
      | some m => if increments.isEmpty then .firstSolution place m
          else .incrementingOutcome place (some m))) = cs := by
  cases m? <;> dsimp only <;> split <;> rfl

/-! ### Steps of a watched run -/

open Session

variable {oracle : Oracle L ω} {pipeline : Pipeline L π σ} {s : State ω π (Watched L σ)}
  {E : Failure → State ω π (Watched L σ) → Prop}

/-- The sessions that a watched run has started. -/
def State.courses (s : State ω π (Watched L σ)) : List (Course L) :=
  Refinement.courses s.stop.log

/-- Writing into the log adds to the sessions. -/
theorem courses_push (s : State ω π (Watched L σ)) (es : List (Occurrence L)) :
    State.courses { s with stop := s.stop.push es } = es.foldl Course.step s.courses :=
  courses_append ..

@[simp] theorem ends_record {es : List (Occurrence L)}
    {Q : Unit → State ω π (Watched L σ) → Prop} :
    (record es).Ends s Q E ↔ Q () { s with stop := s.stop.push es } := Iff.rfl

@[simp] theorem ends_pipeline_record {es : List (Occurrence L)} {r : π × Watched L σ}
    {Q : Unit → π × Watched L σ → Prop} {E : Failure → π × Watched L σ → Prop} :
    (Pipeline.record es).Ends r Q E ↔ Q () (r.1, r.2.push es) := Iff.rfl

theorem ends_watched_reach_mem {m : Milestone L} {Q : Unit → State ω π (Watched L σ) → Prop}
    (h : ∀ t : State ω π (Watched L σ), t.pipeline = s.pipeline →
      t.courses = Course.step s.courses (.reached m) → .reached m ∈ t.stop.log → Q () t) :
    ((watchedSteps oracle).reach m).Ends s Q E :=
  h { s with stop := s.stop.push [.reached m] } rfl (courses_push s _)
    (List.mem_append_right _ List.mem_cons_self)

theorem ends_watched_reach {m : Milestone L} {Q : Unit → State ω π (Watched L σ) → Prop}
    (h : ∀ t : State ω π (Watched L σ), t.pipeline = s.pipeline →
      t.courses = Course.step s.courses (.reached m) → Q () t) :
    ((watchedSteps oracle).reach m).Ends s Q E :=
  ends_watched_reach_mem fun t hp ht _ => h t hp ht

theorem ends_watched_consult {q : Question L} {Q : q.Reply → State ω π (Watched L σ) → Prop}
    (h : ∀ reply (t : State ω π (Watched L σ)) o o', (oracle.ask q).Answers o reply o' →
      t.pipeline = s.pipeline → t.courses = Course.step s.courses (.asked q) → Q reply t)
    (he : ∀ cause (t : State ω π (Watched L σ)),
      t.courses = Course.step s.courses (.asked q) → E (.translation cause) t) :
    ((watchedSteps oracle).consult q).Ends s Q E := by
  unfold watchedSteps consult
  dsimp only
  rw [ends_bind, ends_record, ends_bind, ends_within, ends_mapFailure, ends_mapNotes]
  refine (ends_of_forall_answers fun reply o ha => ?_).mono (fun _ _ hq => hq) fun e o _ =>
    he _ _ (courses_push s [.asked q])
  refine h reply { s with oracle := o, stop := (s.stop.push [.asked q]).push [.replied q reply] }
    s.oracle o ha rfl ?_
  show Refinement.courses ((s.stop.log ++ [.asked q]) ++ [.replied q reply]) = _
  rw [courses_append, courses_append]
  rfl

/-- A sealed pipeline ends as the pipeline itself. -/
theorem ends_sealed {p : Problem L} {minimised : Bool} {r : π × Watched L σ}
    {Q : Verdict L → π × σ → Prop} {E : Failure → Prop}
    (h : (pipeline.solve p minimised).Ends (r.1, r.2.stop) Q fun e _ => E e) :
    (pipeline.sealed.solve p minimised).Ends r
      (fun v r' => Q v (r'.1, r'.2.stop) ∧
        Refinement.courses r'.2.log = Refinement.courses r.2.log)
      fun e r' => E e ∧ Refinement.courses r'.2.log = Refinement.courses r.2.log := by
  have hlog (notes : List (Note (Stage L))) :
      Refinement.courses (r.2.log ++ Pipeline.stages notes) = Refinement.courses r.2.log :=
    (courses_append ..).trans (foldl_step_stages _ notes)
  unfold Pipeline.sealed
  unfold Session.Ends at h ⊢
  dsimp only
  split at h
  · exact ⟨h, hlog _⟩
  · exact ⟨h, hlog _⟩

variable [StopCondition σ]

theorem ends_watched_poll {phase : Phase} {Q : Unit → State ω π (Watched L σ) → Prop}
    (h : ∀ t : State ω π (Watched L σ), t.pipeline = s.pipeline →
      t.courses = s.courses.modifyHead Course.moved → Q () t)
    (he : ∀ t : State ω π (Watched L σ),
      t.courses = s.courses.modifyHead Course.moved → E (.exhausted phase) t) :
    (stopping (Session.poll phase) : Run L ω π (Watched L σ) Unit).Ends s Q E := by
  have hpoll : Refinement.courses (StopCondition.poll s.stop).2.log =
      s.courses.modifyHead Course.moved := courses_append ..
  unfold stopping
  rw [ends_within, ends_poll_iff]
  exact ⟨fun _ => h { s with stop := (StopCondition.poll s.stop).2 } rfl hpoll,
    fun _ => he { s with stop := (StopCondition.poll s.stop).2 } hpoll⟩

theorem ends_watched_tick {Q : Unit → State ω π (Watched L σ) → Prop}
    (h : ∀ t : State ω π (Watched L σ), t.pipeline = s.pipeline → t.courses = s.courses → Q () t) :
    (stopping Session.tick : Run L ω π (Watched L σ) Unit).Ends s Q E :=
  h { s with stop := StopCondition.tick s.stop } rfl (courses_append ..)

end ModelFinder.Refinement
