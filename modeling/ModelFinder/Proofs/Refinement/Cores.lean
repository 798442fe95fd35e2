import ModelFinder.Proofs.Refinement.History

/-!
# Which cores are minimised

A reduction is spent on a call of the pipeline if a minimised core is asked for and the problem
turns out unsatisfiable.  In a run of the refinement loop that happens at most once, and then the
run ends with the core of this call; no run ends with another core (`solve_cores`).

So no reduction is spent on a verification problem, nor on a case of a split that is not the last
one, however deep splits are nested.  For these a minimised core is not even asked for: `Standing`
keeps count of the cases that are still to come in the splits that a history has entered and not
left, and a minimised core is only asked for at the last case of each of them (`Sparing`).
-/

namespace ModelFinder

variable {L : Logic} {ω π σ : Type}

/-- The cores on which a reduction has been spent, in the order of the calls. -/
def minimisedCores (h : List (Occurrence L)) : List (UnsatCore L) :=
  h.filterMap fun
    | .decided _ true (.unsatisfiable core) => some core
    | _ => none

namespace Refinement

/-! ### Where a history stands -/

/-- How many cases are still to come in each split that has been entered and not been left, the
innermost first, and whether a candidate is being verified. -/
structure Standing where
  remaining : List Nat
  verifying : Bool

namespace Standing

/-- Nothing has happened yet. -/
def initial : Standing := ⟨[], false⟩

/-- A split is entered with the reply of the oracle that asks for it, and it is left with the last
of its cases or with one that has a model. -/
def step (st : Standing) : Occurrence L → Standing
  | .replied (.refinement ..) (Refinement.split choices) =>
    { st with remaining := choices.length :: st.remaining }
  | .reached (.splitChoice ..) =>
    match st.remaining with
    | n :: outer => { st with remaining := (n - 1) :: outer }
    | [] => st
  | .reached (.splitChoiceUnsat _) =>
    match st.remaining with
    | 0 :: outer => { st with remaining := outer }
    | _ => st
  | .reached (.splitChoiceSat ..) => { st with remaining := st.remaining.tail }
  | .reached (.verifying ..) => { st with verifying := true }
  | .decided .. => { st with verifying := false }
  | _ => st

/-- Where a history leads to. -/
def after (st : Standing) (h : List (Occurrence L)) : Standing := h.foldl step st

/-- No candidate is being verified, and all splits are at their last case. -/
def AtLast (st : Standing) : Prop := st.verifying = false ∧ ∀ n ∈ st.remaining, n = 0

end Standing

/-- Minimised cores are only asked for at the last case of all splits. -/
def Sparing (st : Standing) : List (Occurrence L) → Prop
  | [] => True
  | e :: h => (∀ p, e = .called p true → st.AtLast) ∧ Sparing (st.step e) h

theorem sparing_append {st : Standing} {h h' : List (Occurrence L)} :
    Sparing st (h ++ h') ↔ Sparing st h ∧ Sparing (st.after h) h' := by
  induction h generalizing st with
  | nil => exact ⟨fun h => ⟨trivial, h⟩, fun h => h.2⟩
  | cons e h ih => exact (and_congr_right' ih).trans and_assoc.symm

theorem Sparing.atLast {st : Standing} {before later : List (Occurrence L)} {p : Problem L}
    (h : Sparing st (before ++ .called p true :: later)) : (st.after before).AtLast :=
  (sparing_append.mp h).2.1 p rfl

/-! ### Parts of a history -/

/-- A part of a history that leads from one standing to another, without a reduction. -/
structure Passes (st : Standing) (h : List (Occurrence L)) (st' : Standing) : Prop where
  cores : minimisedCores h = []
  sparing : Sparing st h
  leads : st.after h = st'

/-- A part of a history that ends with an answer or a failure: the core that is answered is the one
on which a reduction was spent, if there was to be one, and all splits that were entered have been
left. -/
structure Spends (minimised : Bool) (st : Standing) (outer : List Nat)
    (answer : Except Failure (Verdict L)) (h : List (Occurrence L)) : Prop where
  cores : minimisedCores h = match answer with
    | .ok (.unsatisfiable core) => if minimised then [core] else []
    | _ => []
  sparing : Sparing st h
  leaves : ∀ v, answer = .ok v → st.after h = ⟨outer, false⟩

section Parts

variable {st st' st'' : Standing} {h h' : List (Occurrence L)} {outer : List Nat}
  {b : Bool} {answer : Except Failure (Verdict L)}

theorem Passes.append (hp : Passes st h st') (hp' : Passes st' h' st'') :
    Passes st (h ++ h') st'' where
  cores := by
    unfold minimisedCores
    rw [List.filterMap_append]
    exact List.append_eq_nil_iff.mpr ⟨hp.cores, hp'.cores⟩
  sparing := sparing_append.mpr ⟨hp.sparing, hp.leads ▸ hp'.sparing⟩
  leads := by
    unfold Standing.after
    rw [List.foldl_append]
    exact (congrArg (h'.foldl Standing.step) hp.leads).trans hp'.leads

theorem Passes.spends (hp : Passes st h st') (hs : Spends b st' outer answer h') :
    Spends b st outer answer (h ++ h') where
  cores := by
    unfold minimisedCores
    rw [List.filterMap_append]
    exact (congrArg (· ++ _) hp.cores).trans hs.cores
  sparing := sparing_append.mpr ⟨hp.sparing, hp.leads ▸ hs.sparing⟩
  leaves v hv := by
    unfold Standing.after
    rw [List.foldl_append]
    exact (congrArg (h'.foldl Standing.step) hp.leads).trans (hs.leaves v hv)

theorem Passes.failed (hp : Passes st h st') (e : Failure) :
    Spends b st outer (.error e) h := ⟨hp.cores, hp.sparing, nofun⟩

/-- What a failure leaves behind does not matter. -/
theorem Spends.failed {b' : Bool} {outer' : List Nat} {e : Failure}
    (hs : Spends b st outer (.error e) h) : Spends b' st outer' (.error e) h :=
  ⟨hs.cores, hs.sparing, nofun⟩

theorem Passes.satisfiable (hp : Passes st h ⟨outer, false⟩) (m : L.Model) :
    Spends b st outer (.ok (.satisfiable m)) h :=
  ⟨hp.cores, hp.sparing, fun _ _ => hp.leads⟩

theorem passes_nil : Passes st ([] : List (Occurrence L)) st := ⟨rfl, trivial, rfl⟩

/-- Nothing that happens inside of a call matters. -/
theorem passes_inside {inside : List (Occurrence L)}
    (hinside : ∀ e ∈ inside, e.isInside = true) : Passes st inside st := by
  induction inside with
  | nil => exact passes_nil
  | cons e inside ih =>
      have he := hinside e List.mem_cons_self
      have hstep : Passes st [e] st := by
        cases e with
        | reached m =>
            cases m with
            | stage s => exact ⟨rfl, ⟨nofun, trivial⟩, rfl⟩
            | _ => cases he
        | polled b => exact ⟨rfl, ⟨nofun, trivial⟩, rfl⟩
        | ticked => exact ⟨rfl, ⟨nofun, trivial⟩, rfl⟩
        | resolving cnf => exact ⟨rfl, ⟨nofun, trivial⟩, rfl⟩
        | _ => cases he
      exact hstep.append (ih fun e he => hinside e (List.mem_cons_of_mem _ he))

theorem passes_reached {m : Milestone L} : Passes st [.reached m] (st.step (.reached m)) :=
  ⟨rfl, ⟨nofun, trivial⟩, rfl⟩

theorem passes_polled {triggered : Bool} : Passes (L := L) st [.polled triggered] st :=
  ⟨rfl, ⟨nofun, trivial⟩, rfl⟩

theorem passes_ticked : Passes (L := L) st [.ticked] st := ⟨rfl, ⟨nofun, trivial⟩, rfl⟩

theorem passes_asked {q : Question L} : Passes st [.asked q] st := ⟨rfl, ⟨nofun, trivial⟩, rfl⟩

theorem passes_replied {q : Question L} {reply : q.Reply} :
    Passes st [.replied q reply] (st.step (.replied q reply)) := ⟨rfl, ⟨nofun, trivial⟩, rfl⟩

theorem passes_called {p : Problem L} (hb : b = true → st.AtLast) :
    Passes st [.called p b] st := by
  refine ⟨rfl, ⟨fun q hq => ?_, trivial⟩, rfl⟩
  cases hq
  exact hb rfl

/-- A call that does not ask for a minimised core. -/
theorem passes_called_plain {p : Problem L} : Passes st [.called p false] st :=
  passes_called fun h => absurd h Bool.false_ne_true

/-- A call that does not spend a reduction. -/
theorem passes_call {p : Problem L} {v : Verdict L} {inside : List (Occurrence L)}
    (hinside : ∀ e ∈ inside, e.isInside = true) (hb : b = true → st.AtLast)
    (hv : b = false ∨ ∃ m, v = .satisfiable m) :
    Passes st (.called p b :: inside ++ [.decided p b v])
      { st with verifying := false } := by
  refine ((passes_called hb).append (passes_inside hinside)).append ⟨?_, ⟨nofun, trivial⟩, rfl⟩
  rcases hv with rfl | ⟨m, rfl⟩
  · rfl
  · cases b <;> rfl

/-- A call whose verdict is the answer. -/
theorem spends_call {p : Problem L} {v : Verdict L} {inside : List (Occurrence L)}
    (hinside : ∀ e ∈ inside, e.isInside = true) (hb : b = true → ∀ n ∈ outer, n = 0) :
    Spends b ⟨outer, false⟩ outer (.ok v)
      (.called p b :: inside ++ [.decided p b v]) := by
  have hcall : Passes ⟨outer, false⟩ (.called p b :: inside) ⟨outer, false⟩ :=
    (passes_called fun h => ⟨rfl, hb h⟩).append (passes_inside hinside)
  refine hcall.spends ⟨?_, ⟨nofun, trivial⟩, fun _ _ => rfl⟩
  cases v with
  | satisfiable m => cases b <;> rfl
  | unsatisfiable core => cases b <;> rfl

/-- What follows on an answer. -/
theorem Spends.append {v : Verdict L} {outer' : List Nat}
    (hs : Spends b st outer (.ok v) h) (hp : Passes ⟨outer, false⟩ h' ⟨outer', false⟩) :
    Spends b st outer' (.ok v) (h ++ h') where
  cores := by
    unfold minimisedCores
    rw [List.filterMap_append]
    exact (congrArg (_ ++ ·) hp.cores).trans ((List.append_nil _).trans hs.cores)
  sparing := sparing_append.mpr ⟨hs.sparing, (hs.leaves v rfl) ▸ hp.sparing⟩
  leaves _ _ := by
    unfold Standing.after
    rw [List.foldl_append]
    exact (congrArg (h'.foldl Standing.step) (hs.leaves v rfl)).trans hp.leads

/-- An answer without a minimised core is a part without a reduction. -/
theorem Spends.passes {v : Verdict L} (hs : Spends false st outer (.ok v) h) :
    Passes st h ⟨outer, false⟩ where
  cores := by
    cases v with
    | satisfiable m => exact hs.cores
    | unsatisfiable core => exact hs.cores
  sparing := hs.sparing
  leads := hs.leaves v rfl

end Parts

/-! ### The loop -/

section Loop

variable [StopCondition σ] {oracle : Oracle L ω} {pipeline : Pipeline L π (Watched L σ)}
  {rounds : Nat} {outer : List Nat}

/-- Where a session is: a split that it is about to go through has been entered. -/
def Standing.entry (outer : List Nat) : Position L → Standing
  | .splitting choices => ⟨choices.length :: outer, false⟩
  | _ => ⟨outer, false⟩

/-- From every position, a session of so many rounds spends no reduction but on the core that it
answers, and only if it is at the last case of all splits around it. -/
def SpendsWithin (oracle : Oracle L ω) (pipeline : Pipeline L π (Watched L σ)) (rounds : Nat) :
    Prop :=
  ∀ (task : Task L) (place : LoopStep) (increments : List L.Formula) (position : Position L)
    (outer : List Nat), (task.minimised = true → ∀ n ∈ outer, n = 0) →
    Logs ((watchedSteps oracle).loop oracle.isHigherOrder pipeline.watched rounds task place
      increments position) (Spends task.minimised (.entry outer position) outer)

theorem spends_searching (hp : pipeline.LogsInside) (ih : SpendsWithin oracle pipeline rounds)
    (task : Task L) (place : LoopStep) (increments : List L.Formula)
    (houter : task.minimised = true → ∀ n ∈ outer, n = 0) :
    Logs ((watchedSteps oracle).loop oracle.isHigherOrder pipeline.watched (rounds + 1) task
      place increments .searching) (Spends task.minimised ⟨outer, false⟩ outer) := by
  unfold Steps.loop
  refine Session.logs_bind (logs_poll ?_ (passes_polled.failed _))
  refine Session.logs_bind (logs_count ?_)
  refine Session.logs_bind (logs_consult (fun q => ?_)
    fun e => (passes_polled.append passes_asked).failed e)
  have hasked : Passes ⟨outer, false⟩ [.polled false, .asked (.candidate task.problem increments),
      .replied (.candidate task.problem increments) q] ⟨outer, false⟩ :=
    passes_polled.append (passes_asked.append passes_replied)
  refine Session.logs_bind (logs_decide hp (fun inside hinside v => ?_)
    fun inside hinside e => ?_)
  · cases v with
    | unsatisfiable core =>
        refine Session.logs_bind (logs_reach (Session.logs_pure ?_))
        refine hasked.spends ((spends_call hinside houter).append ?_)
        cases increments <;> exact passes_reached
    | satisfiable m =>
        have hcall : Passes ⟨outer, false⟩ (.called q task.minimised :: inside ++
            [.decided q task.minimised (.satisfiable m)]) ⟨outer, false⟩ :=
          passes_call hinside (fun h => ⟨rfl, houter h⟩) (.inr ⟨m, rfl⟩)
        have hfound : Passes ⟨outer, false⟩ [
            .reached (if increments.isEmpty then .firstSolution place m
              else .incrementingOutcome place (some m)),
            .reached (.candidateFound place m)] ⟨outer, false⟩ := by
          cases increments <;> exact passes_reached.append passes_reached
        refine Session.logs_bind (logs_reach (Session.logs_bind (logs_reach ?_)))
        refine (ih task place increments (.verifying m) outer houter).mono fun answer h hs => ?_
        exact hasked.spends (hcall.spends (hfound.spends hs))
  · exact (hasked.append ((passes_called fun h => ⟨rfl, houter h⟩).append
      (passes_inside hinside))).failed e

theorem spends_verifying (hp : pipeline.LogsInside) (ih : SpendsWithin oracle pipeline rounds)
    (task : Task L) (place : LoopStep) (increments : List L.Formula) (m : L.Model)
    (houter : task.minimised = true → ∀ n ∈ outer, n = 0) :
    Logs ((watchedSteps oracle).loop oracle.isHigherOrder pipeline.watched (rounds + 1) task
      place increments (.verifying m)) (Spends task.minimised ⟨outer, false⟩ outer) := by
  unfold Steps.loop
  refine Session.logs_bind (logs_poll ?_ (passes_polled.failed _))
  refine Session.logs_bind (logs_count ?_)
  refine Session.logs_bind (logs_consult (fun check => ?_)
    fun e => (passes_polled.append passes_asked).failed e)
  refine Session.logs_bind (logs_reach ?_)
  have hasked : Passes ⟨outer, false⟩ [.polled false, .asked (.verification task.problem m),
      .replied (.verification task.problem m) check,
      .reached (.verifying place m check)] ⟨outer, true⟩ :=
    passes_polled.append (passes_asked.append (passes_replied.append passes_reached))
  refine Session.logs_bind (logs_decide hp (fun inside hinside v => ?_)
    fun inside hinside e => ?_)
  · have hcall := hasked.append
      (passes_call (b := false) (p := check) (v := v) hinside
        (fun h => absurd h Bool.false_ne_true) (.inl rfl))
    cases v with
    | unsatisfiable core =>
        refine Session.logs_bind (logs_reach (Session.logs_pure ?_))
        exact (hcall.append passes_reached).satisfiable m
    | satisfiable c =>
        refine Session.logs_bind (logs_reach ?_)
        refine Session.logs_bind (logs_consult (fun r => ?_)
          fun e => (hcall.append (passes_reached.append passes_asked)).failed e)
        cases r with
        | increment f =>
            have hreply : Passes ⟨outer, false⟩ [
                .reached (.notVerified place m c),
                .asked (.refinement task.problem m c),
                .replied (.refinement task.problem m c) (Refinement.increment f)] ⟨outer, false⟩ :=
              passes_reached.append (passes_asked.append passes_replied)
            have hrest := ih task place increments (.strengthening f) outer houter
            refine hrest.mono fun answer h hs => ?_
            exact hcall.spends (hreply.spends hs)
        | split choices =>
            have hreply : Passes ⟨outer, false⟩ [
                .reached (.notVerified place m c),
                .asked (.refinement task.problem m c),
                .replied (.refinement task.problem m c) (Refinement.split choices)]
                ⟨choices.length :: outer, false⟩ :=
              passes_reached.append (passes_asked.append passes_replied)
            refine (ih task place increments (.splitting choices) outer houter).mono
              fun answer h hs => ?_
            exact hcall.spends (hreply.spends hs)
  · exact (hasked.append (passes_called_plain.append (passes_inside hinside))).failed e

theorem spends_strengthening (ih : SpendsWithin oracle pipeline rounds) (task : Task L)
    (place : LoopStep) (increments : List L.Formula) (f : L.Formula)
    (houter : task.minimised = true → ∀ n ∈ outer, n = 0) :
    Logs ((watchedSteps oracle).loop oracle.isHigherOrder pipeline.watched (rounds + 1) task
      place increments (.strengthening f)) (Spends task.minimised ⟨outer, false⟩ outer) := by
  unfold Steps.loop
  refine Session.logs_bind (logs_poll ?_ (passes_polled.failed _))
  refine Session.logs_bind (logs_count ?_)
  refine Session.logs_bind (logs_reach (Session.logs_bind (logs_reach ?_)))
  refine Session.logs_bind (logs_tick (Session.logs_bind (logs_remark ?_)))
  refine (ih task place.next (increments ++ [f]) .searching outer houter).mono fun answer h hs => ?_
  have hround : Passes ⟨outer, false⟩ [.polled false,
      .reached (.findingNext place f),
      .reached (.incrementing place f), .ticked] ⟨outer, false⟩ :=
    passes_polled.append (passes_reached.append (passes_reached.append passes_ticked))
  exact hround.spends hs

omit [StopCondition σ] in
/-- A problem spends what the loop spends on it, or what the call of the pipeline does. -/
theorem spends_solveWith (hp : pipeline.LogsInside)
    {loop : Task L → LoopStep → Run L ω π (Watched L σ) (Verdict L)} {task : Task L}
    (houter : task.minimised = true → ∀ n ∈ outer, n = 0)
    (hloop : ∀ place, Logs (loop task place) (Spends task.minimised ⟨outer, false⟩ outer)) :
    Logs ((watchedSteps oracle).solveWith oracle.isHigherOrder pipeline.watched loop task)
      (Spends task.minimised ⟨outer, false⟩ outer) := by
  unfold Steps.solveWith
  split
  · refine logs_decide hp (fun inside hinside v => spends_call hinside houter)
      fun inside hinside e => ?_
    exact ((passes_called fun h => ⟨rfl, houter h⟩).append (passes_inside hinside)).failed e
  · refine Session.logs_bind (logs_count ?_)
    refine Session.logs_bind (logs_reach (Session.logs_bind (logs_reach ?_)))
    exact (hloop _).mono fun answer h hs => (passes_reached.append passes_reached).spends hs

omit [StopCondition σ] in
/-- The cases of a split: only the last one may spend a reduction. -/
theorem spends_tryChoices {solve : Task L → Run L ω π (Watched L σ) (Verdict L)} {task : Task L}
    {place : LoopStep}
    (hsolve : ∀ (t : Task L) (outer : List Nat), (t.minimised = true → ∀ n ∈ outer, n = 0) →
      Logs (solve t) (Spends t.minimised ⟨outer, false⟩ outer))
    (houter : task.minimised = true → ∀ n ∈ outer, n = 0) (choice : Problem L)
    (rest : List (Problem L)) (core? : Option (UnsatCore L)) :
    Logs ((watchedSteps oracle).tryChoices solve task place (choice :: rest) core?)
      (Spends task.minimised ⟨(choice :: rest).length :: outer, false⟩ outer) := by
  induction rest generalizing choice core? with
  | nil =>
      unfold Steps.tryChoices
      refine Session.logs_bind (logs_reach ?_)
      have hchoice : Passes ⟨1 :: outer, false⟩ [.reached (.splitChoice place choice)]
        ⟨0 :: outer, false⟩ := passes_reached
      have hlast : (task.minimised && ([] : List (Problem L)).isEmpty) = task.minimised :=
        Bool.and_true _
      rw [hlast]
      have hsolved := hsolve ⟨choice, place.depth + 1, task.minimised⟩ (0 :: outer)
        fun hb => List.forall_mem_cons.mpr ⟨rfl, houter hb⟩
      refine Session.logs_bind (hsolved.mono fun answer h hs => ?_)
      cases answer with
      | error e =>
          exact hchoice.spends hs.failed
      | ok v =>
          cases v with
          | satisfiable m =>
              refine Session.logs_bind (logs_reach (Session.logs_pure ?_))
              exact hchoice.spends (hs.append passes_reached)
          | unsatisfiable core =>
              refine Session.logs_bind (logs_reach (Session.logs_pure ?_))
              exact hchoice.spends (hs.append passes_reached)
  | cons next rest ih =>
      unfold Steps.tryChoices
      refine Session.logs_bind (logs_reach ?_)
      have hchoice : Passes ⟨(choice :: next :: rest).length :: outer, false⟩
        [.reached (.splitChoice place choice)] ⟨(next :: rest).length :: outer, false⟩ :=
        passes_reached
      have hearlier : (task.minimised && (next :: rest).isEmpty) = false := Bool.and_false _
      rw [hearlier]
      have hsolved := hsolve ⟨choice, place.depth + 1, false⟩ ((next :: rest).length :: outer)
        fun h => absurd h Bool.false_ne_true
      refine Session.logs_bind (hsolved.mono fun answer h hs => ?_)
      cases answer with
      | error e =>
          exact hchoice.spends hs.failed
      | ok v =>
          cases v with
          | satisfiable m =>
              refine Session.logs_bind (logs_reach (Session.logs_pure ?_))
              exact (hchoice.append (hs.passes.append passes_reached)).satisfiable m
          | unsatisfiable core =>
              refine Session.logs_bind (logs_reach ?_)
              refine (ih next (some core)).mono fun answer h' hs' => ?_
              exact hchoice.spends (hs.passes.spends (passes_reached.spends hs'))

theorem spends_splitting (hp : pipeline.LogsInside) (ih : SpendsWithin oracle pipeline rounds)
    (task : Task L) (place : LoopStep) (increments : List L.Formula) (choices : List (Problem L))
    (houter : task.minimised = true → ∀ n ∈ outer, n = 0) :
    Logs ((watchedSteps oracle).loop oracle.isHigherOrder pipeline.watched (rounds + 1) task
      place increments (.splitting choices))
      (Spends task.minimised ⟨choices.length :: outer, false⟩ outer) := by
  unfold Steps.loop
  refine Session.logs_bind (logs_poll ?_ (passes_polled.failed _))
  cases choices with
  | nil => exact Session.logs_fail (passes_polled.failed _)
  | cons choice rest =>
      refine Session.logs_bind (logs_count ?_)
      refine Session.logs_bind (logs_reach (Session.logs_bind (logs_remark ?_)))
      refine Session.Logs.mono (spends_tryChoices (fun t outer ht => spends_solveWith hp ht
        fun p => ih t p [] .searching outer ht) houter choice rest none) fun answer h hs => ?_
      exact passes_polled.spends (passes_reached.spends hs)

/-- **A reduction is spent on the core that is answered only**, after any number of rounds. -/
theorem spendsWithin (hp : pipeline.LogsInside) (rounds : Nat) :
    SpendsWithin oracle pipeline rounds := by
  induction rounds with
  | zero => exact fun _ _ _ _ _ _ => Session.logs_fail (passes_nil.failed _)
  | succ rounds ih =>
      intro task place increments position outer houter
      cases position with
      | searching => exact spends_searching hp ih task place increments houter
      | verifying m => exact spends_verifying hp ih task place increments m houter
      | strengthening f => exact spends_strengthening ih task place increments f houter
      | splitting choices => exact spends_splitting hp ih task place increments choices houter

/-- A run spends a reduction on the core that it answers, and on no other. -/
theorem spends_watch (hp : pipeline.LogsInside) (rounds : Nat) (p : Problem L) :
    Logs (watch (ω := ω) oracle pipeline rounds p) (Spends true .initial []) :=
  have hnone : true = true → ∀ n ∈ ([] : List Nat), n = 0 := fun _ => List.forall_mem_nil _
  spends_solveWith hp hnone fun place =>
    spendsWithin hp rounds ⟨p, 0, true⟩ place [] .searching [] hnone

end Loop

/-- **Exactly the core that is answered is minimised.**  A run that answers a core has spent one
reduction, on this core; every other run has spent none.  A minimised core has not been asked for
while a candidate was verified, nor at a case of a split that was not the last one. -/
theorem solve_cores [StopCondition σ] (oracle : Oracle L ω) (pipeline : Pipeline L π σ)
    (rounds : Nat) (p : Problem L) (s : State ω π σ) :
    let r := (solve oracle pipeline rounds p).run s
    let h := history oracle pipeline.sealed rounds p s
    (minimisedCores h = match r.answer with
      | .ok (.unsatisfiable core) => [core]
      | _ => []) ∧
      ∀ before q later, h = before ++ .called q true :: later →
        (Standing.initial.after before).AtLast := by
  intro r h
  have hlogs : Logs (watch (ω := ω) oracle pipeline.sealed rounds p) (Spends true .initial []) :=
    spends_watch pipeline.logsInside_sealed rounds p
  have hspends : Spends true .initial [] r.answer h :=
    (history_of_logs (Pipeline.inStep_sealed pipeline) hlogs s).2
  exact ⟨hspends.cores, fun before q later hh => (hh ▸ hspends.sparing).atLast⟩

end Refinement

end ModelFinder
