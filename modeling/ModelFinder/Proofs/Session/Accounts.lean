import ModelFinder.Proofs.Session.Budgets
import ModelFinder.Proofs.Session.Conduct
import ModelFinder.Proofs.Session.Tallies

/-!
# Accounts of iterations

An account of a session (`Books.Account`) sets the ticks that its stop condition was told against
the increments that were made and the candidates of reductions that have been re-solved.  A candidate
is paid for when its re-solving starts and ticks when that is over, so that the two numbers differ by
one if the session fails in between, and only then.  The ticks that the back end makes of its own are
kept apart.

The notes of a session tell of all that was done.  A part from outside, such as a translator, may
leave notes of the same kinds; the account holds all the same, but only if there are none of them are
its numbers those that the notes tell of.

`B.Covers k x` says that the session `x` can be accounted for whenever `k` iterations are left.  A
poll in front of a session gives it one iteration to spend (`Covers.poll_bind`); what follows after
that has been spent needs a poll of its own (`Covers.bind`).
-/

namespace ModelFinder

open StopCondition

/-! ### Accounts -/

/-- What the accounts of sessions with state `S` are about: the back end that is called and the calls
it makes of its stop condition, the milestones that are counted, whether notes are precise, and where
in a state the back end and the stop condition are. -/
structure Books (S μ β σ : Type) where
  backend : Backend β σ
  script : Cnf → β × σ → List Call
  tally : Tally μ
  precise : Prop
  view : S → β × σ

namespace Books

/-- What notes tell of, in the sense of the books. -/
abbrev Counts {S μ β σ : Type} (B : Books S μ β σ) (notes : List (Note μ))
    (increments called settled : Nat) : Prop :=
  B.tally.Counts B.precise notes increments called settled

/-- None of the notes has to be counted. -/
abbrev Ignores {S μ β σ : Type} (B : Books S μ β σ) (notes : List (Note μ)) : Prop :=
  B.tally.Ignores B.precise notes

variable {S R μ μ' β σ ε ε' α γ : Type} {B : Books S μ β σ}

/-- What a session may do without being counted. -/
def silence (B : Books S μ β σ) : Conduct (Note μ) S where
  moves s t := B.view t = B.view s
  notes n := B.Ignores [n]
  refl _ := rfl
  trans h h' := h'.trans h

/-! ### Sessions that are accounted for -/

section Accounts

variable [StopCondition σ]

/-- The account of a session that has come from `s`, with `n` iterations left to spend, to the end
`o`.  So many calls were announced, so many candidates were started and settled, and the back end made
so many ticks of its own. -/
structure Account (B : Books S μ β σ) (n : Nat) (s : S) (o : Outcome (Note μ) ε S α)
    (called started settled own : Nat) : Prop where
  counts : B.Counts o.notes (B.tally.increments o.notes) called settled
  ticks : ∃ calls : List Call, (B.view o.state).2 = calls.foldl step (B.view s).2 ∧
    calls.count .tick = B.tally.increments o.notes + settled + own
  serves : B.backend.Serves B.script (B.view s).1 (called + started) own (B.view o.state).1
  completed : settled ≤ started
  pending : started ≤ settled + 1
  answered : ∀ a, o.answer = .ok a → started = settled
  affordable : B.tally.increments o.notes + started ≤ n

/-- An account with a given number of increments. -/
theorem Account.of_counts {n called started settled own i : Nat} {s : S}
    {o : Outcome (Note μ) ε S α} (hnotes : B.Counts o.notes i called settled) (calls : List Call)
    (hcalls : (B.view o.state).2 = calls.foldl step (B.view s).2)
    (hticks : calls.count .tick = i + settled + own)
    (hserves : B.backend.Serves B.script (B.view s).1 (called + started) own (B.view o.state).1)
    (hcompleted : settled ≤ started) (hpending : started ≤ settled + 1)
    (hanswered : ∀ x, o.answer = .ok x → started = settled) (haffordable : i + started ≤ n) :
    B.Account n s o called started settled own := by
  obtain rfl := hnotes.increments
  exact ⟨hnotes, ⟨calls, hcalls, hticks⟩, hserves, hcompleted, hpending, hanswered, haffordable⟩

/-- Nothing is counted as long as the stop condition is only polled. -/
theorem Account.of_polls {n k : Nat} {s : S} {o : Outcome (Note μ) ε S α}
    (hview : B.view o.state = ((B.view s).1, (List.replicate k Call.poll).foldl step (B.view s).2))
    (hnotes : B.Ignores o.notes) : B.Account n s o 0 0 0 0 := by
  refine .of_counts hnotes _ (congrArg Prod.snd hview) ?_ ?_ (Nat.le_refl 0) (Nat.zero_le 1)
    (fun _ _ => rfl) (Nat.zero_le n)
  · rw [List.count_replicate]
    rfl
  · rw [hview]
    exact .refl

/-- Accounts of sessions that follow on each other. -/
theorem Account.trans {n called started settled own called' started' settled' own' : Nat} {s t : S}
    {a : α} {notes : List (Note μ)} {o : Outcome (Note μ) ε S γ}
    (h : B.Account n s (⟨.ok a, t, notes⟩ : Outcome _ ε S α) called started settled own)
    (h' : B.Account (n - (B.tally.increments notes + settled + own)) t o
      called' started' settled' own') :
    B.Account n s ⟨o.answer, o.state, notes ++ o.notes⟩ (called + called') (started + started')
      (settled + settled') (own + own') where
  counts := by
    rw [Tally.increments_append]
    exact Tally.counts_append h.counts h'.counts
  ticks := by
    obtain ⟨calls, hcalls, hticks⟩ := h.ticks
    obtain ⟨calls', hcalls', hticks'⟩ := h'.ticks
    refine ⟨calls ++ calls', by rw [List.foldl_append, ← hcalls, ← hcalls'], ?_⟩
    simp only [List.count_append, hticks, hticks', Tally.increments_append]
    omega
  serves := by
    have hboth := h.serves.trans h'.serves
    rwa [Nat.add_add_add_comm] at hboth
  completed := Nat.add_le_add h.completed h'.completed
  pending := by
    have hanswered : started = settled := h.answered a rfl
    have hpending := h'.pending
    omega
  answered b hb := by
    rw [h.answered a rfl, h'.answered b hb]
  affordable := by
    -- no candidate is pending after an answer, so what was started has been taken off
    have hanswered : started = settled := h.answered a rfl
    have hle : B.tally.increments notes + started ≤ n := h.affordable
    have hle' := h'.affordable
    simp only [Tally.increments_append]
    omega

/-- From every state with `k` iterations left, the session can be accounted for. -/
def Covers (B : Books S μ β σ) (k : Nat) (x : Session (Note μ) ε S α) : Prop :=
  ∀ s n, SpentAfter n (B.view s).2 → k ≤ n →
    ∃ called started settled own, B.Account n s (x s) called started settled own

variable {k : Nat} {x : Session (Note μ) ε S α} {f : α → Session (Note μ) ε S γ}

theorem Covers.mono {k' : Nat} (h : B.Covers k x) (hle : k ≤ k') : B.Covers k' x :=
  fun s n hs hn => h s n hs (Nat.le_trans hle hn)

theorem account_of_silence (hx : x.KeepsTo B.silence) (n : Nat) (s : S) :
    B.Account n s (x s) 0 0 0 0 :=
  .of_polls (k := 0) (hx s).1 (Tally.ignores_of_forall (hx s).2)

theorem covers_of_silence (hx : x.KeepsTo B.silence) : B.Covers k x :=
  fun s n _ _ => ⟨0, 0, 0, 0, account_of_silence hx n s⟩

/-- What is left to spend after an account. -/
theorem Account.spentAfter {n called started settled own : Nat} {s : S}
    {o : Outcome (Note μ) ε S α} (h : B.Account n s o called started settled own)
    (hs : SpentAfter n (B.view s).2) :
    SpentAfter (n - (B.tally.increments o.notes + settled + own))
      (B.view o.state).2 := by
  obtain ⟨calls, hcalls, hticks⟩ := h.ticks
  rw [hcalls, ← hticks]
  exact hs.foldl calls

/-- What follows an answer is accounted for with what is left to spend; a failure ends the account. -/
theorem Account.andThen {n called started settled own : Nat} {s : S} {o : Outcome (Note μ) ε S α}
    {f : α → S → Outcome (Note μ) ε S γ} (h : B.Account n s o called started settled own)
    (hf : ∀ a, o.answer = .ok a → ∃ called' started' settled' own',
      B.Account (n - (B.tally.increments o.notes + settled + own)) o.state (f a o.state)
        called' started' settled' own') :
    ∃ called started settled own, B.Account n s (o.andThen f) called started settled own := by
  obtain ⟨answer, t, notes⟩ := o
  cases answer with
  | error e =>
      exact ⟨called, started, settled, own, h.counts, h.ticks, h.serves, h.completed, h.pending,
        nofun, h.affordable⟩
  | ok a =>
      obtain ⟨called', started', settled', own', h'⟩ := hf a rfl
      exact ⟨_, _, _, _, h.trans h'⟩

/-- What follows has to do without the iterations that were left. -/
theorem Covers.bind (hx : B.Covers k x) (hf : ∀ a, B.Covers 0 (f a)) : B.Covers k (x >>= f) := by
  intro s n hs hk
  obtain ⟨called, started, settled, own, h⟩ := hx s n hs hk
  exact h.andThen (f := fun a t => f a t) fun a _ => hf a _ _ (h.spentAfter hs) (Nat.zero_le _)

/-- What is not counted leaves the iterations to what follows. -/
theorem covers_silence_bind (hx : x.KeepsTo B.silence) (hf : ∀ a, B.Covers k (f a)) :
    B.Covers k (x >>= f) := by
  intro s n hs hk
  have h := account_of_silence hx n s
  refine h.andThen (f := fun a t => f a t) fun a _ => hf a _ _ (h.spentAfter hs) ?_
  rwa [h.counts.increments, (Tally.ignores_of_forall (hx s).2).increments]

/-- Sessions on a part of the state which has the back end and the stop condition. -/
theorem Covers.within {B' : Books R μ β σ} {part : R → S} {put : S → R → R} (h : B.Covers k x)
    (hbooks : (B'.backend, B'.script, B'.tally, B'.precise) =
      (B.backend, B.script, B.tally, B.precise))
    (hpart : ∀ r, B'.view r = B.view (part r)) (hput : ∀ s r, B'.view (put s r) = B.view s) :
    B'.Covers k (Session.within part put x) := by
  obtain ⟨backend, script, tally, precise, view⟩ := B'
  cases hbooks
  intro r n hs hk
  have hview : view r = B.view (part r) := hpart r
  have hview' : view (put (x (part r)).state r) = B.view (x (part r)).state := hput _ r
  obtain ⟨called, started, settled, own, h⟩ := h (part r) n (by rwa [← hview]) hk
  refine ⟨called, started, settled, own, h.counts, ?_, ?_, h.completed, h.pending, h.answered,
    h.affordable⟩
  · show ∃ calls : List Call, (view (put (x (part r)).state r)).2 = calls.foldl step (view r).2 ∧ _
    rw [hview', hview]
    exact h.ticks
  · show B.backend.Serves B.script (view r).1 _ own (view (put (x (part r)).state r)).1
    rw [hview', hview]
    exact h.serves

/-- The books of sessions whose milestones become others. -/
def comap (B : Books S μ' β σ) (f : μ → μ') : Books S μ β σ := { B with tally := B.tally.comap f }

theorem Covers.mapNotes {B : Books S μ' β σ} {f : μ → μ'} (h : (B.comap f).Covers k x) :
    B.Covers k (x.mapNotes (Note.map f)) := by
  intro s n hs hk
  obtain ⟨called, started, settled, own, h⟩ := h s n hs hk
  obtain ⟨calls, hcalls, hticks⟩ := h.ticks
  have hannouncements : B.tally.announcements ((x s).notes.map (Note.map f)) =
      (B.tally.comap f).announcements (x s).notes := Tally.announcements_map_map ..
  have hcandidates : Note.candidates ((x s).notes.map (Note.map f)) = Note.candidates (x s).notes :=
    Note.candidates_map_map ..
  have hnotes : B.Counts ((x s).notes.map (Note.map f))
      ((B.tally.comap f).increments (x s).notes) called settled :=
    ⟨Tally.increments_map_map .., hannouncements ▸ h.counts.called_le,
      hcandidates ▸ h.counts.settled_le, by
        rw [hannouncements, hcandidates]
        exact h.counts.eq_of_precise⟩
  exact ⟨called, started, settled, own, .of_counts hnotes calls hcalls hticks h.serves h.completed
    h.pending h.answered h.affordable⟩

/-! ### What is paid for -/

/-- Where the stop condition is in a state. -/
structure Stops (B : Books S μ β σ) (part : S → σ) (put : σ → S → S) : Prop where
  part : ∀ s, part s = (B.view s).2
  put : ∀ c s, B.view (put c s) = ((B.view s).1, c)

/-- Where the back end and the stop condition are in a state. -/
structure Calls (B : Books S μ β σ) (part : S → β × σ) (put : β × σ → S → S) : Prop where
  part : ∀ s, part s = B.view s
  put : ∀ r s, B.view (put r s) = r

/-- A poll that does not trigger leaves an iteration to spend. -/
theorem Covers.poll_bind {part : S → σ} {put : σ → S → S} (h : B.Stops part put) {phase : Phase}
    {f : Unit → Session (Note μ) Failure S α} (hf : B.Covers 1 (f ())) :
    B.Covers 0 (Session.within part put (Session.poll phase) >>= f) := by
  intro s n hs _
  have hleft : (StopCondition.poll (part s)).1 = false → 0 < n := by
    rw [h.part]
    exact hs.pos_of_poll
  have hpoll (answer : Except Failure Unit) : B.Account n s
      ⟨answer, put (StopCondition.poll (part s)).2 s, []⟩ 0 0 0 0 :=
    .of_polls (k := 1) (by rw [h.put, h.part]; rfl) Tally.ignores_nil
  show ∃ called started settled own, B.Account n s
    (Outcome.andThen ⟨(Session.poll phase (part s)).answer, put (Session.poll phase (part s)).state s,
      (Session.poll phase (part s)).notes⟩ fun a t => f a t) called started settled own
  unfold Session.poll
  generalize StopCondition.poll (part s) = p at hpoll hleft
  obtain ⟨b, c⟩ := p
  cases b with
  | true => exact (hpoll _).andThen nofun
  | false =>
      exact (hpoll (.ok ())).andThen fun _ _ =>
        hf _ _ ((hpoll (.ok ())).spentAfter hs) (hleft rfl)

/-- An increment ticks. -/
theorem covers_increment {part : S → σ} {put : σ → S → S} (h : B.Stops part put) {m : μ}
    (hincrement : B.tally.increment m = true) (hannounce : B.tally.announcement m = false) :
    B.Covers 1 (do
      Session.note (.milestone m)
      Session.within part put Session.tick : Session (Note μ) Failure S Unit) := by
  intro s n _ hn
  have hview : B.view (put (StopCondition.tick (part s)) s) =
      ((B.view s).1, StopCondition.tick (B.view s).2) := by rw [h.put, h.part]
  have hnotes : B.Counts [.milestone m] 1 0 0 := by
    have hcounts : B.Counts [.milestone m] _ _ 0 := Tally.counts_milestone m
    simpa [hincrement, hannounce] using hcounts
  refine ⟨0, 0, 0, 0, .of_counts hnotes [.tick] (congrArg Prod.snd hview) rfl ?_ (Nat.le_refl 0)
    (Nat.zero_le 1) (fun _ _ => rfl) hn⟩
  show B.backend.Serves B.script _ 0 0 (B.view (put (StopCondition.tick (part s)) s)).1
  rw [hview]
  exact .refl

section Resolving

variable {part : S → β × σ} {put : β × σ → S → S}

/-- Asks the back end. -/
def ask (B : Books S μ β σ) (part : S → β × σ) (put : β × σ → S → S) (cnf : Cnf) :
    Session (Note μ) Failure S SatOutcome :=
  Session.within part put ((B.backend.solve cnf).mapNotes Note.remark)

/-- What a call of the back end does. -/
theorem ask_spec (h : B.Calls part put) (hbackend : B.backend.Follows B.script) (cnf : Cnf) (s : S) :
    (B.view (B.ask part put cnf s).state).2 = (B.script cnf (B.view s)).foldl step (B.view s).2 ∧
      B.backend.Serves B.script (B.view s).1 1 ((B.script cnf (B.view s)).count .tick)
        (B.view (B.ask part put cnf s).state).1 ∧
      B.Ignores (B.ask part put cnf s).notes := by
  have hstate : B.view (B.ask part put cnf s).state = (B.backend.solve cnf (B.view s)).state := by
    show B.view (put (B.backend.solve cnf (part s)).state s) = _
    rw [h.put, h.part]
  refine ⟨?_, ?_, Tally.ignores_map_remark (hbackend.notes cnf _).2⟩
  · rw [hstate, hbackend.stop]
  · have hserves := (Backend.Serves.refl : B.backend.Serves B.script _ 0 0 (B.view s).1).call cnf
    rw [hstate]
    rwa [Nat.zero_add, Nat.zero_add] at hserves

/-- A call of the back end that is announced is no candidate. -/
theorem covers_announced (h : B.Calls part put) (hbackend : B.backend.Follows B.script) {m : μ}
    (hincrement : B.tally.increment m = false) (hannounce : B.tally.announcement m = true)
    (cnf : Cnf) :
    B.Covers 0 (do
      Session.note (.milestone m)
      B.ask part put cnf : Session (Note μ) Failure S SatOutcome) := by
  intro s n _ _
  obtain ⟨hstop, hserves, hnotes⟩ := ask_spec h hbackend cnf s
  have hmilestone : B.Counts [.milestone m] 0 1 0 := by
    have hcounts : B.Counts [.milestone m] _ _ 0 := Tally.counts_milestone m
    simpa [hincrement, hannounce] using hcounts
  show ∃ called started settled own, B.Account n s
    ⟨(B.ask part put cnf s).answer, (B.ask part put cnf s).state,
      [.milestone m] ++ (B.ask part put cnf s).notes⟩ called started settled own
  generalize B.ask part put cnf s = o at hstop hserves hnotes
  exact ⟨_, 0, _, _, .of_counts (Tally.counts_append hmilestone hnotes) _ hstop (Nat.zero_add _).symm
    hserves (Nat.le_refl 0) (Nat.zero_le 1) (fun _ _ => rfl) (Nat.zero_le n)⟩

/-- The session settles a candidate which has been re-solved: it leaves a remark and ticks, or it
fails and does neither. -/
def Settles (B : Books S μ β σ) (y : Session (Note μ) Failure S α) : Prop :=
  ∀ s, (∃ e, (y s).answer = .error e ∧ B.view (y s).state = B.view s ∧ B.Ignores (y s).notes) ∨
    B.view (y s).state = ((B.view s).1, StopCondition.tick (B.view s).2) ∧ B.Counts (y s).notes 0 0 1

theorem settles_candidate {part : S → σ} {put : σ → S → S} (h : B.Stops part put) {r : Remark}
    (hr : r.isCandidate = true) (a : α) :
    B.Settles (do
      Session.note (.remark r)
      Session.within part put Session.tick
      return a : Session (Note μ) Failure S α) := by
  refine fun s => .inr ⟨?_, ?_⟩
  · show B.view (put (StopCondition.tick (part s)) s) = _
    rw [h.put, h.part]
  · show B.Counts [.remark r] 0 0 1
    have hcounts : B.Counts [.remark r] 0 0 _ := Tally.counts_remark r
    simpa [hr] using hcounts

/-- What can fail may come before the remark. -/
theorem Settles.ofExcept_bind {f : α → Session (Note μ) Failure S γ} (hf : ∀ a, B.Settles (f a))
    {fail : ε → Failure} (x : Except ε α) :
    B.Settles (Session.mapFailure fail (Session.ofExcept x) >>= f) := by
  cases x with
  | error e => exact fun s => .inl ⟨fail e, rfl, rfl, Tally.ignores_nil⟩
  | ok a => exact fun s => hf a s

/-- Re-solving a candidate takes one iteration. -/
theorem covers_candidate (h : B.Calls part put) (hbackend : B.backend.Follows B.script) (cnf : Cnf)
    {y : SatOutcome → Session (Note μ) Failure S α} (hy : ∀ o, B.Settles (y o)) :
    B.Covers 1 (B.ask part put cnf >>= y) := by
  intro s n _ hn
  obtain ⟨hstop, hserves, hnotes⟩ := ask_spec h hbackend cnf s
  show ∃ called started settled own, B.Account n s
    ((B.ask part put cnf s).andThen fun o t => y o t) called started settled own
  generalize B.ask part put cnf s = o at hstop hserves hnotes
  obtain ⟨answer, t, notes⟩ := o
  -- the candidate was started; it is settled if neither the back end nor what follows fails
  cases answer with
  | error e =>
      exact ⟨0, 1, 0, (B.script cnf (B.view s)).count .tick, .of_counts hnotes _ hstop
        (Nat.zero_add _).symm hserves (Nat.zero_le 1) (Nat.le_refl 1) nofun hn⟩
  | ok o =>
      show ∃ called started settled own, B.Account n s
        ⟨(y o t).answer, (y o t).state, notes ++ (y o t).notes⟩ called started settled own
      rcases hy o t with ⟨e, he, hview, hmore⟩ | ⟨hview, hmore⟩
      · rw [he]
        refine ⟨_, 1, _, (B.script cnf (B.view s)).count .tick,
          .of_counts (Tally.counts_append hnotes hmore) _ ?_ (Nat.zero_add _).symm ?_
            (Nat.zero_le 1) (Nat.le_refl 1) nofun hn⟩
        · exact (congrArg Prod.snd hview).trans hstop
        · exact (congrArg Prod.fst hview).symm ▸ hserves
      · refine ⟨_, 1, _, (B.script cnf (B.view s)).count .tick,
          .of_counts (Tally.counts_append hnotes hmore)
            (B.script cnf (B.view s) ++ [.tick]) ?_ ?_ ?_ (Nat.le_refl 1) (Nat.le_succ 1)
            (fun _ _ => rfl) hn⟩
        · rw [List.foldl_append, ← hstop]
          exact congrArg Prod.snd hview
        · rw [List.count_append, Nat.add_comm]
          rfl
        · exact (congrArg Prod.fst hview).symm ▸ hserves

end Resolving

end Accounts

end Books

end ModelFinder
