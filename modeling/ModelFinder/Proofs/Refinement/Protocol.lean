import ModelFinder.Proofs.Refinement.History

/-!
# The protocol of the loop

The milestones of the refinement loop, and what it asks its oracle between them, follow a grammar.
`Refinement.Word` says which words belong to a `Stretch` of a run, and with which outcome: all of a
problem, a session from a position on, or the cases of a split.  In round `k` of a session, `k`
being the number of increments that the oracle has returned in it, every milestone has the depth of
the session and the iteration `k`, and the candidate problem that is asked for has these increments.
A session counts its iterations apart from its increments; that they agree is an invariant of its
rounds (`IsPlaceOf`).

The history of a run that answers is a word whose outcome is the answer; that of a run which ends
with a failure is the beginning of a word (`solve_protocol`).
-/

namespace ModelFinder

variable {L : Logic} {ω π σ : Type}

/-- The model of a verdict, if it has one. -/
def Verdict.model? : Verdict L → Option L.Model
  | satisfiable m => some m
  | unsatisfiable _ => none

/-- What the search for a candidate has led to: in round 0 the first candidate or none, later the
outcome of an increment. -/
def Milestone.outcome (place : LoopStep) (candidate? : Option L.Model) : Milestone L :=
  match place.iteration, candidate? with
  | 0, none => .noSolution place
  | 0, some m => .firstSolution place m
  | _ + 1, _ => .incrementingOutcome place candidate?

/-- Whether something belongs to the protocol of the loop: a milestone of its own, a question, or a
reply.  A split without cases is refused, and is not counted as a reply. -/
def Occurrence.isProtocol : Occurrence L → Bool
  | asked _ => true
  | replied (.refinement ..) (Refinement.split []) => false
  | replied _ _ => true
  | reached (.stage _) => false
  | reached _ => true
  | _ => false

namespace Occurrence

variable {q : Question L} {p : Problem L} {m c : L.Model} {f : L.Formula} {b : Bool}
  {v : Verdict L}

@[simp] theorem isProtocol_polled : (polled b : Occurrence L).isProtocol = false := rfl

@[simp] theorem isProtocol_ticked : (ticked : Occurrence L).isProtocol = false := rfl

@[simp] theorem isProtocol_called : (called p b).isProtocol = false := rfl

@[simp] theorem isProtocol_decided : (decided p b v).isProtocol = false := rfl

@[simp] theorem isProtocol_asked : (asked q).isProtocol = true := rfl

@[simp] theorem isProtocol_candidate {increments : List L.Formula} {reply : Problem L} :
    (replied (.candidate p increments) reply).isProtocol = true := rfl

@[simp] theorem isProtocol_verification {reply : Problem L} :
    (replied (.verification p m) reply).isProtocol = true := rfl

@[simp] theorem isProtocol_increment :
    (replied (.refinement p m c) (Refinement.increment f)).isProtocol = true := rfl

@[simp] theorem isProtocol_split {choice : Problem L} {choices : List (Problem L)} :
    (replied (.refinement p m c) (Refinement.split (choice :: choices))).isProtocol = true := rfl

@[simp] theorem isProtocol_split_nil :
    (replied (.refinement p m c) (Refinement.split [])).isProtocol = false := rfl

@[simp] theorem isProtocol_reached {m : Milestone L} (hm : ∀ s, m ≠ .stage s) :
    (reached m).isProtocol = true := by
  cases m with
  | stage s => exact absurd rfl (hm s)
  | _ => rfl

@[simp] theorem isProtocol_outcome {place : LoopStep} {m? : Option L.Model} :
    (reached (.outcome place m?)).isProtocol = true := by
  obtain ⟨depth, _ | k⟩ := place <;> cases m? <;> rfl

end Occurrence

namespace Refinement

/-! ### The grammar -/

/-- A part of a run. -/
inductive Stretch (L : Logic) where
  | problem (p : Problem L) (depth : Nat)
  | session (p : Problem L) (depth : Nat) (increments : List L.Formula) (position : Position L)
  | choices (place : LoopStep) (choices : List (Problem L))

/-- The words of a stretch and their outcomes.  A first-order problem has no protocol. -/
inductive Word (isHigherOrder : L.Formula → Bool) :
    Stretch L → List (Occurrence L) → Option L.Model → Prop
  | firstOrder {p : Problem L} {depth : Nat} {outcome : Option L.Model}
      (first_order : isHigherOrder p.formula = false) :
      Word isHigherOrder (.problem p depth) [] outcome
  | session {p : Problem L} {depth : Nat} {w : List (Occurrence L)} {outcome : Option L.Model}
      (higher_order : isHigherOrder p.formula = true)
      (rounds : Word isHigherOrder (.session p depth [] .searching) w outcome) :
      Word isHigherOrder (.problem p depth)
        (.reached (.loopStart ⟨depth, 0⟩ p) :: .reached (.fixpointStart ⟨depth, 0⟩) :: w) outcome
  | exhausted {p q : Problem L} {depth : Nat} {increments : List L.Formula} :
      Word isHigherOrder (.session p depth increments .searching)
        [.asked (.candidate p increments), .replied (.candidate p increments) q,
          .reached (.outcome ⟨depth, increments.length⟩ none)] none
  | candidate {p q : Problem L} {depth : Nat} {increments : List L.Formula} {m : L.Model}
      {w : List (Occurrence L)} {outcome : Option L.Model}
      (rest : Word isHigherOrder (.session p depth increments (.verifying m)) w outcome) :
      Word isHigherOrder (.session p depth increments .searching)
        (.asked (.candidate p increments) :: .replied (.candidate p increments) q ::
          .reached (.outcome ⟨depth, increments.length⟩ (some m)) ::
          .reached (.candidateFound ⟨depth, increments.length⟩ m) :: w) outcome
  | verified {p q : Problem L} {depth : Nat} {increments : List L.Formula} {m : L.Model} :
      Word isHigherOrder (.session p depth increments (.verifying m))
        [.asked (.verification p m), .replied (.verification p m) q,
          .reached (.verifying ⟨depth, increments.length⟩ m q),
          .reached (.verified ⟨depth, increments.length⟩ m)] (some m)
  | refuted {p q : Problem L} {depth : Nat} {increments : List L.Formula}
      {m c : L.Model} {f : L.Formula} {w : List (Occurrence L)}
      {outcome : Option L.Model}
      (rest : Word isHigherOrder (.session p depth increments (.strengthening f)) w outcome) :
      Word isHigherOrder (.session p depth increments (.verifying m))
        (.asked (.verification p m) :: .replied (.verification p m) q ::
          .reached (.verifying ⟨depth, increments.length⟩ m q) ::
          .reached (.notVerified ⟨depth, increments.length⟩ m c) ::
          .asked (.refinement p m c) ::
          .replied (.refinement p m c) (Refinement.increment f) :: w) outcome
  | split {p q choice : Problem L} {depth : Nat} {increments : List L.Formula}
      {m c : L.Model} {choices : List (Problem L)} {w : List (Occurrence L)}
      {outcome : Option L.Model}
      (rest : Word isHigherOrder
        (.session p depth increments (.splitting (choice :: choices))) w outcome) :
      Word isHigherOrder (.session p depth increments (.verifying m))
        (.asked (.verification p m) :: .replied (.verification p m) q ::
          .reached (.verifying ⟨depth, increments.length⟩ m q) ::
          .reached (.notVerified ⟨depth, increments.length⟩ m c) ::
          .asked (.refinement p m c) ::
          .replied (.refinement p m c) (Refinement.split (choice :: choices)) :: w)
        outcome
  | strengthened {p : Problem L} {depth : Nat} {increments : List L.Formula} {f : L.Formula}
      {w : List (Occurrence L)} {outcome : Option L.Model}
      (rest : Word isHigherOrder (.session p depth (increments ++ [f]) .searching) w outcome) :
      Word isHigherOrder (.session p depth increments (.strengthening f))
        (.reached (.findingNext ⟨depth, increments.length⟩ f) ::
          .reached (.incrementing ⟨depth, increments.length⟩ f) :: w) outcome
  | splitting {p : Problem L} {depth : Nat} {increments : List L.Formula}
      {choices : List (Problem L)} {w : List (Occurrence L)} {outcome : Option L.Model}
      (rest : Word isHigherOrder (.choices ⟨depth, increments.length⟩ choices) w outcome) :
      Word isHigherOrder (.session p depth increments (.splitting choices))
        (.reached (.splitStart ⟨depth, increments.length⟩ p.formula) :: w) outcome
  | satChoice {place : LoopStep} {choice : Problem L} {rest : List (Problem L)} {m : L.Model}
      {w : List (Occurrence L)}
      (nested : Word isHigherOrder (.problem choice (place.depth + 1)) w (some m)) :
      Word isHigherOrder (.choices place (choice :: rest))
        (.reached (.splitChoice place choice) :: w ++ [.reached (.splitChoiceSat place m)])
        (some m)
  | unsatChoice {place : LoopStep} {choice : Problem L} {rest : List (Problem L)}
      {w v : List (Occurrence L)} {outcome : Option L.Model}
      (nested : Word isHigherOrder (.problem choice (place.depth + 1)) w none)
      (others : Word isHigherOrder (.choices place rest) v outcome) :
      Word isHigherOrder (.choices place (choice :: rest))
        (.reached (.splitChoice place choice) :: w ++ .reached (.splitChoiceUnsat place) :: v)
        outcome
  | noChoice {place : LoopStep} : Word isHigherOrder (.choices place []) [] none

section Words

variable (isHigherOrder : L.Formula → Bool)

theorem exists_word_problem (p : Problem L) (depth : Nat) :
    ∃ w, Word isHigherOrder (.problem p depth) w none := by
  cases h : isHigherOrder p.formula with
  | false => exact ⟨[], .firstOrder h⟩
  | true => exact ⟨_, .session h (.exhausted (q := p))⟩

theorem exists_word_choices (place : LoopStep) (choices : List (Problem L)) :
    ∃ w, Word isHigherOrder (.choices place choices) w none := by
  induction choices with
  | nil => exact ⟨[], .noChoice⟩
  | cons choice rest ih =>
      obtain ⟨w, hw⟩ := exists_word_problem isHigherOrder choice (place.depth + 1)
      obtain ⟨v, hv⟩ := ih
      exact ⟨_, .unsatChoice hw hv⟩

/-- From every position there is a word, so that a run which is stopped has stopped within one. -/
theorem exists_word_session (p : Problem L) (depth : Nat) (increments : List L.Formula)
    (position : Position L) :
    ∃ w outcome, Word isHigherOrder (.session p depth increments position) w outcome := by
  cases position with
  | searching => exact ⟨_, _, .exhausted (q := p)⟩
  | verifying m => exact ⟨_, _, .verified (q := p)⟩
  | strengthening f => exact ⟨_, _, .strengthened (.exhausted (q := p))⟩
  | splitting choices =>
      obtain ⟨w, hw⟩ := exists_word_choices isHigherOrder ⟨depth, increments.length⟩ choices
      exact ⟨_, _, .splitting hw⟩

end Words

/-! ### What a run spells -/

/-- What belongs to the protocol in a history. -/
def protocol (h : List (Occurrence L)) : List (Occurrence L) := h.filter (·.isProtocol)

@[simp] theorem protocol_append (h h' : List (Occurrence L)) :
    protocol (h ++ h') = protocol h ++ protocol h' := List.filter_append ..

@[simp] theorem protocol_nil : protocol ([] : List (Occurrence L)) = [] := rfl

theorem protocol_cons (e : Occurrence L) (h : List (Occurrence L)) :
    protocol (e :: h) = if e.isProtocol then e :: protocol h else protocol h := List.filter_cons

/-- Of what happens inside of a call of the pipeline, nothing belongs to the protocol. -/
theorem protocol_inside {inside : List (Occurrence L)}
    (hinside : ∀ e ∈ inside, e.isInside = true) : protocol inside = [] := by
  refine List.filter_eq_nil_iff.mpr fun e he => ?_
  have h := hinside e he
  cases e with
  | reached m => cases m <;> simp_all [Occurrence.isInside, Occurrence.isProtocol]
  | _ => simp_all [Occurrence.isInside, Occurrence.isProtocol]

/-- The history is a word, whose outcome is the answer, or a failure has cut it short. -/
def Spells (W : List (Occurrence L) → Option L.Model → Prop) (answer : Except Failure (Verdict L))
    (h : List (Occurrence L)) : Prop :=
  match answer with
  | .ok v => W (protocol h) v.model?
  | .error _ => ∃ w outcome, W w outcome ∧ protocol h <+: w

namespace Spells

variable {W W' : List (Occurrence L) → Option L.Model → Prop} {h h' : List (Occurrence L)}
  {answer : Except Failure (Verdict L)}

/-- What comes before a word of one stretch makes it a word of another. -/
theorem append (hW : ∀ w outcome, W' w outcome → W (protocol h ++ w) outcome)
    (hs : Spells W' answer h') : Spells W answer (h ++ h') := by
  cases answer with
  | ok v =>
      show W (protocol (h ++ h')) v.model?
      rw [protocol_append]
      exact hW _ _ hs
  | error e =>
      obtain ⟨w, outcome, hw, hbegins⟩ := hs
      refine ⟨_, outcome, hW w outcome hw, ?_⟩
      rw [protocol_append]
      exact (List.prefix_append_right_inj _).mpr hbegins

/-- A failure on the way to a word. -/
theorem failed {e : Failure} {w : List (Occurrence L)} {outcome : Option L.Model}
    (hw : W w outcome) (hbegins : protocol h <+: w) : Spells W (.error e) h :=
  ⟨w, outcome, hw, hbegins⟩

end Spells

/-! ### Places

A session keeps up its place and its increments separately.  That the place counts the increments
holds at the start, and every round keeps it. -/

/-- The place is at the depth of the session, with one iteration for every increment. -/
structure IsPlaceOf (place : LoopStep) (task : Task L) (increments : List L.Formula) : Prop where
  depth_eq : place.depth = task.depth
  iteration_eq : place.iteration = increments.length

namespace IsPlaceOf

variable {place : LoopStep} {task : Task L} {increments : List L.Formula}

theorem start (task : Task L) : IsPlaceOf ⟨task.depth, 0⟩ task [] := ⟨rfl, rfl⟩

/-- Another increment is another iteration. -/
theorem next (h : IsPlaceOf place task increments) (f : L.Formula) :
    IsPlaceOf place.next task (increments ++ [f]) where
  depth_eq := h.depth_eq
  iteration_eq := by
    rw [List.length_append, List.length_singleton, ← h.iteration_eq]
    rfl

theorem eq (h : IsPlaceOf place task increments) : place = ⟨task.depth, increments.length⟩ := by
  rw [← h.depth_eq, ← h.iteration_eq]

/-- The loop asks its increments whether this is the first round, and the grammar asks the place. -/
theorem outcome_none (h : IsPlaceOf place task increments) :
    (if increments.isEmpty then .noSolution place else .incrementingOutcome place none) =
      (.outcome place none : Milestone L) := by
  obtain rfl := h.eq
  cases increments <;> rfl

theorem outcome_some (h : IsPlaceOf place task increments) (m : L.Model) :
    (if increments.isEmpty then .firstSolution place m else .incrementingOutcome place (some m)) =
      (.outcome place (some m) : Milestone L) := by
  obtain rfl := h.eq
  cases increments <;> rfl

end IsPlaceOf

/-! ### The loop -/

section Loop

variable [StopCondition σ] {oracle : Oracle L ω} {pipeline : Pipeline L π (Watched L σ)}

/-- Any position but an empty split, which is refused. -/
def Position.IsProper : Position L → Prop
  | .splitting choices => choices ≠ []
  | _ => True

/-- A session of so many rounds spells a word, from every proper position with the place that belongs
to it. -/
def SpellsWithin (oracle : Oracle L ω) (pipeline : Pipeline L π (Watched L σ)) (rounds : Nat) :
    Prop :=
  ∀ {task : Task L} {place : LoopStep} {increments : List L.Formula} (position : Position L),
    IsPlaceOf place task increments → position.IsProper →
    Logs ((watchedSteps oracle).loop oracle.isHigherOrder pipeline.watched rounds task place
      increments position) (Spells (Word oracle.isHigherOrder
        (.session task.problem task.depth increments position)))

variable {rounds : Nat} {task : Task L} {place : LoopStep} {increments : List L.Formula}

theorem logs_searching (hp : pipeline.LogsInside) (ih : SpellsWithin oracle pipeline rounds)
    (hplace : IsPlaceOf place task increments) :
    Logs ((watchedSteps oracle).loop oracle.isHigherOrder pipeline.watched (rounds + 1) task
      place increments .searching) (Spells (Word oracle.isHigherOrder
        (.session task.problem task.depth increments .searching))) := by
  obtain rfl := hplace.eq
  unfold Steps.loop
  refine Session.logs_bind (logs_poll ?_ (.failed (.exhausted (q := task.problem)) ?_))
  · refine Session.logs_bind (logs_count ?_)
    refine Session.logs_bind (logs_consult (fun q => ?_)
      fun e => .failed (.exhausted (q := task.problem)) ?_)
    · refine Session.logs_bind (logs_decide hp (fun inside hinside v => ?_)
        fun inside hinside e => .failed (.exhausted (q := q)) ?_)
      · have hcall := protocol_inside hinside
        cases v with
        | unsatisfiable core =>
            dsimp only
            rw [hplace.outcome_none]
            refine Session.logs_bind (logs_reach (Session.logs_pure ?_))
            show Word _ _ _ none
            simp [protocol_cons, hcall, Word.exhausted]
        | satisfiable m =>
            dsimp only
            rw [hplace.outcome_some]
            refine Session.logs_bind (logs_reach (Session.logs_bind (logs_reach ?_)))
            refine (ih (.verifying m) hplace trivial).mono fun answer h hs => ?_
            simp only [← List.append_assoc]
            refine hs.append fun w outcome hw => ?_
            simpa [protocol_cons, hcall] using hw.candidate
      · have hcall := protocol_inside hinside
        simp [protocol_cons, hcall]
    · simp [protocol_cons]
  · simp [protocol_cons]

/-- A loop that is refused an empty split does nothing that belongs to the protocol. -/
theorem logs_splitting_nil (task : Task L) (place : LoopStep) (increments : List L.Formula) :
    Logs ((watchedSteps oracle).loop oracle.isHigherOrder pipeline.watched rounds task place
      increments (.splitting [])) fun answer h => (∃ e, answer = .error e) ∧ protocol h = [] := by
  cases rounds with
  | zero => exact Session.logs_fail ⟨⟨_, rfl⟩, rfl⟩
  | succ rounds =>
      unfold Steps.loop
      refine Session.logs_bind (logs_poll (Session.logs_fail ⟨⟨_, rfl⟩, ?_⟩) ⟨⟨_, rfl⟩, ?_⟩)
      · simp [protocol_cons]
      · simp [protocol_cons]

theorem logs_verifying (hp : pipeline.LogsInside) (ih : SpellsWithin oracle pipeline rounds)
    (hplace : IsPlaceOf place task increments) (m : L.Model) :
    Logs ((watchedSteps oracle).loop oracle.isHigherOrder pipeline.watched (rounds + 1) task
      place increments (.verifying m)) (Spells (Word oracle.isHigherOrder
        (.session task.problem task.depth increments (.verifying m)))) := by
  obtain rfl := hplace.eq
  unfold Steps.loop
  refine Session.logs_bind (logs_poll ?_ (.failed (.verified (q := task.problem)) ?_))
  · refine Session.logs_bind (logs_count ?_)
    refine Session.logs_bind (logs_consult (fun check => ?_)
      fun e => .failed (.verified (q := task.problem)) ?_)
    · refine Session.logs_bind (logs_reach ?_)
      refine Session.logs_bind (logs_decide hp (fun inside hinside v => ?_)
        fun inside hinside e => .failed (.verified (q := check)) ?_)
      · have hcall := protocol_inside hinside
        cases v with
        | unsatisfiable core =>
            refine Session.logs_bind (logs_reach (Session.logs_pure ?_))
            show Word _ _ _ (some m)
            simp [protocol_cons, hcall, Word.verified]
        | satisfiable c =>
            -- a run that stops here might have gone on with any increment
            obtain ⟨w, outcome, hw⟩ := exists_word_session oracle.isHigherOrder task.problem
              task.depth increments (.strengthening task.problem.formula)
            have hword := hw.refuted (q := check) (m := m) (c := c)
            refine Session.logs_bind (logs_reach ?_)
            refine Session.logs_bind (logs_consult (fun r => ?_) fun e => .failed hword ?_)
            · cases r with
              | increment f =>
                  refine (ih (.strengthening f) hplace trivial).mono fun answer h hs => ?_
                  simp only [← List.append_assoc]
                  refine hs.append fun w outcome hw => ?_
                  simpa [protocol_cons, hcall] using hw.refuted
              | split choices =>
                  cases choices with
                  | nil =>
                      refine (logs_splitting_nil task _ increments).mono fun answer h hs => ?_
                      obtain ⟨⟨e, rfl⟩, hnone⟩ := hs
                      refine .failed hword ?_
                      simp [protocol_cons, hcall, hnone]
                  | cons choice choices =>
                      have hne := List.cons_ne_nil choice choices
                      refine (ih (.splitting (choice :: choices)) hplace hne).mono
                        fun answer h hs => ?_
                      simp only [← List.append_assoc]
                      refine hs.append fun w outcome hw => ?_
                      simpa [protocol_cons, hcall] using hw.split
            · simp [protocol_cons, hcall]
      · have hcall := protocol_inside hinside
        simp [protocol_cons, hcall]
    · simp [protocol_cons]
  · simp [protocol_cons]

/-- The next round has one increment more and is one iteration later. -/
theorem logs_strengthening (ih : SpellsWithin oracle pipeline rounds)
    (hplace : IsPlaceOf place task increments) (f : L.Formula) :
    Logs ((watchedSteps oracle).loop oracle.isHigherOrder pipeline.watched (rounds + 1) task
      place increments (.strengthening f)) (Spells (Word oracle.isHigherOrder
        (.session task.problem task.depth increments (.strengthening f)))) := by
  unfold Steps.loop
  refine Session.logs_bind (logs_poll ?_
    (.failed (.strengthened (.exhausted (q := task.problem))) ?_))
  · refine Session.logs_bind (logs_count ?_)
    refine Session.logs_bind (logs_reach (Session.logs_bind (logs_reach ?_)))
    refine Session.logs_bind (logs_tick (Session.logs_bind (logs_remark ?_)))
    refine (ih .searching (hplace.next f) trivial).mono fun answer h hs => ?_
    simp only [← List.append_assoc]
    refine hs.append fun w outcome hw => ?_
    obtain rfl := hplace.eq
    simpa [protocol_cons] using hw.strengthened
  · simp [protocol_cons]

omit [StopCondition σ] in
/-- A problem spells a word if the loop does. -/
theorem logs_solveWith (hp : pipeline.LogsInside)
    {loop : Task L → LoopStep → Run L ω π (Watched L σ) (Verdict L)} {task : Task L}
    (hloop : Logs (loop task ⟨task.depth, 0⟩) (Spells (Word oracle.isHigherOrder
      (.session task.problem task.depth [] .searching)))) :
    Logs ((watchedSteps oracle).solveWith oracle.isHigherOrder pipeline.watched loop task)
      (Spells (Word oracle.isHigherOrder (.problem task.problem task.depth))) := by
  unfold Steps.solveWith
  cases hfirst : oracle.isHigherOrder task.problem.formula with
  | false =>
      have hword : Word oracle.isHigherOrder (.problem task.problem task.depth) [] none :=
        .firstOrder hfirst
      refine logs_decide hp (fun inside hinside v => ?_) fun inside hinside e => .failed hword ?_
      · show Word _ _ _ v.model?
        simp [protocol_cons, protocol_inside hinside, Word.firstOrder hfirst]
      · simp [protocol_cons, protocol_inside hinside]
  | true =>
      refine Session.logs_bind (logs_count ?_)
      refine Session.logs_bind (logs_reach (Session.logs_bind (logs_reach ?_)))
      refine hloop.mono fun answer h hs => ?_
      simp only [← List.append_assoc]
      refine hs.append fun w outcome hw => ?_
      simpa [protocol_cons] using hw.session hfirst

/-- A word of the first case is the beginning of one of all cases. -/
theorem exists_word_of_first {isHigherOrder : L.Formula → Bool} (place : LoopStep)
    {choice : Problem L} {w : List (Occurrence L)} {outcome : Option L.Model}
    (h : Word isHigherOrder (.problem choice (place.depth + 1)) w outcome)
    (rest : List (Problem L)) : ∃ v outcome, Word isHigherOrder (.choices place (choice :: rest))
      (.reached (.splitChoice place choice) :: w ++ v) outcome := by
  cases outcome with
  | none =>
      obtain ⟨v, hv⟩ := exists_word_choices isHigherOrder place rest
      exact ⟨_, none, .unsatChoice h hv⟩
  | some m => exact ⟨_, some m, .satChoice h⟩

omit [StopCondition σ] in
theorem logs_tryChoices {solve : Task L → Run L ω π (Watched L σ) (Verdict L)} {task : Task L}
    {place : LoopStep} {choices : List (Problem L)}
    (hsolve : ∀ t : Task L, Logs (solve t)
      (Spells (Word oracle.isHigherOrder (.problem t.problem t.depth))))
    (core? : Option (UnsatCore L)) :
    Logs ((watchedSteps oracle).tryChoices solve task place choices core?)
      (Spells (Word oracle.isHigherOrder (.choices place choices))) := by
  induction choices generalizing core? with
  | nil =>
      cases core? with
      | none => exact Session.logs_fail (.failed .noChoice List.nil_prefix)
      | some core => exact Session.logs_pure Word.noChoice
  | cons choice rest ih =>
      unfold Steps.tryChoices
      refine Session.logs_bind (logs_reach ?_)
      refine Session.logs_bind ((hsolve _).mono fun answer h hs => ?_)
      cases answer with
      | error e =>
          obtain ⟨w, outcome, hw, hbegins⟩ := hs
          obtain ⟨v, outcome', hv⟩ := exists_word_of_first place hw rest
          refine .failed hv ?_
          simpa [protocol_cons] using hbegins.trans (List.prefix_append w v)
      | ok v =>
          cases v with
          | satisfiable m =>
              refine Session.logs_bind (logs_reach (Session.logs_pure ?_))
              show Word _ _ _ (some m)
              have hword : Word oracle.isHigherOrder
                (.choices place (choice :: rest)) _ _ := .satChoice hs
              simpa [protocol_cons] using hword
          | unsatisfiable core =>
              refine Session.logs_bind (logs_reach ?_)
              refine (ih (some core)).mono fun answer h' hs' => ?_
              simp only [← List.append_assoc]
              refine hs'.append fun w outcome hw => ?_
              have hword : Word oracle.isHigherOrder
                (.choices place (choice :: rest)) _ _ := .unsatChoice hs hw
              simpa [protocol_cons] using hword

theorem logs_splitting (hp : pipeline.LogsInside) (ih : SpellsWithin oracle pipeline rounds)
    (hplace : IsPlaceOf place task increments) {choices : List (Problem L)}
    (hne : choices ≠ []) :
    Logs ((watchedSteps oracle).loop oracle.isHigherOrder pipeline.watched (rounds + 1) task
      place increments (.splitting choices)) (Spells (Word oracle.isHigherOrder
        (.session task.problem task.depth increments (.splitting choices)))) := by
  obtain ⟨w, outcome, hw⟩ := exists_word_session oracle.isHigherOrder task.problem task.depth
    increments (.splitting choices)
  obtain rfl := hplace.eq
  unfold Steps.loop
  refine Session.logs_bind (logs_poll ?_ (.failed hw ?_))
  · dsimp only
    rw [if_neg fun h => hne (List.isEmpty_iff.mp h)]
    refine Session.logs_bind (logs_count ?_)
    refine Session.logs_bind (logs_reach (Session.logs_bind (logs_remark ?_)))
    refine Session.Logs.mono
      (logs_tryChoices (fun t => logs_solveWith hp (ih .searching (.start t) trivial)) none)
      fun answer h hs => ?_
    simp only [← List.append_assoc]
    refine hs.append fun w outcome hw => ?_
    simpa [protocol_cons] using hw.splitting
  · simp [protocol_cons]

/-- **The loop keeps to the protocol**, for any number of rounds. -/
theorem spellsWithin (hp : pipeline.LogsInside) (rounds : Nat) :
    SpellsWithin oracle pipeline rounds := by
  induction rounds with
  | zero =>
      intro task place increments position _ hne
      obtain ⟨w, outcome, hw⟩ := exists_word_session oracle.isHigherOrder task.problem task.depth
        increments position
      exact Session.logs_fail (.failed hw List.nil_prefix)
  | succ rounds ih =>
      intro task place increments position hplace hne
      cases position with
      | searching => exact logs_searching hp ih hplace
      | verifying m => exact logs_verifying hp ih hplace m
      | strengthening f => exact logs_strengthening ih hplace f
      | splitting choices => exact logs_splitting hp ih hplace hne

end Loop

/-- **The loop keeps to the protocol.**  The milestones of the history of a run are those that the
run leaves.  If it answers, the history spells a word of the grammar whose outcome is the answer;
if it is ended by a failure, the history spells the beginning of a word. -/
theorem solve_protocol [StopCondition σ] (oracle : Oracle L ω) (pipeline : Pipeline L π σ)
    (rounds : Nat) (p : Problem L) (s : State ω π σ) :
    let r := (solve oracle pipeline rounds p).run s
    let h := history oracle pipeline.sealed rounds p s
    Occurrence.milestones h = Note.milestones r.notes ∧
      match r.answer with
      | .ok v => Word oracle.isHigherOrder (.problem p 0) (protocol h) v.model?
      | .error _ => ∃ w outcome,
          Word oracle.isHigherOrder (.problem p 0) w outcome ∧ protocol h <+: w := by
  have hp := pipeline.logsInside_sealed
  exact history_of_logs (Pipeline.inStep_sealed pipeline) (logs_solveWith hp
    (spellsWithin hp rounds .searching (.start ⟨p, 0, true⟩) trivial)) s

end Refinement

end ModelFinder
