import ModelFinder.Proofs.Attempts
import ModelFinder.StopCondition

/-!
# How sessions end

`x.Ends s Q E` says how the session `x` ends from the state `s`: it answers, and `Q` holds of the
answer and of the state reached, or it fails, and `E` holds of the failure and of the state
reached.  There is one rule for each way in which sessions are built (`ends_bind`, `ends_within`,
…), so that a proof about a session follows its text.  A session which can not fail answers
(`Ends.exists_answer`).

Without a state, what a session answers is told by the answers of its parts (`answer_bind`,
`answer_mapM`), and what it notes by their notes (`notes_bind`, `mem_notes_mapM`).

A stop condition which no sequence of calls ever triggers is said to never trigger
(`StopCondition.NeverTriggers`); a poll of it is no reason to give up (`ends_poll`).  One that
triggers after so many polls (`StopCondition.TriggersAfter`) lets a session make progress only as
long as there are polls left.
-/

namespace ModelFinder

namespace Session

variable {ν ν' ε ε' σ τ α β : Type}

/-- From `s`, the session answers as `Q` says or fails as `E` says. -/
def Ends (x : Session ν ε σ α) (s : σ) (Q : α → σ → Prop) (E : ε → σ → Prop) : Prop :=
  match (x s).answer with
  | .ok a => Q a (x s).state
  | .error e => E e (x s).state

theorem Ends.mono {x : Session ν ε σ α} {s : σ} {Q Q' : α → σ → Prop} {E E' : ε → σ → Prop}
    (h : x.Ends s Q E) (hQ : ∀ a t, Q a t → Q' a t) (hE : ∀ e t, E e t → E' e t) :
    x.Ends s Q' E' := by
  unfold Ends at *
  split at h
  · exact hQ _ _ h
  · exact hE _ _ h

/-- A session that has no failure to end with answers. -/
theorem Ends.exists_answer {x : Session ν ε σ α} {s : σ} {Q : α → σ → Prop}
    (h : x.Ends s Q fun _ _ => False) : ∃ a, (x s).answer = .ok a ∧ Q a (x s).state := by
  unfold Ends at h
  split at h
  next a e => exact ⟨a, e, h⟩
  next => exact h.elim

theorem Ends.and {x : Session ν ε σ α} {s : σ} {Q Q' : α → σ → Prop} {E E' : ε → σ → Prop}
    (h : x.Ends s Q E) (h' : x.Ends s Q' E') :
    x.Ends s (fun a t => Q a t ∧ Q' a t) fun e t => E e t ∧ E' e t := by
  unfold Ends at *
  split at h
  next a e => exact ⟨h, by rwa [e] at h'⟩
  next a e => exact ⟨h, by rwa [e] at h'⟩

/-- What `Q` says, of an answer that is known. -/
theorem Ends.of_answer {x : Session ν ε σ α} {s : σ} {Q : α → σ → Prop} {E : ε → σ → Prop} {a : α}
    (h : x.Ends s Q E) (e : (x s).answer = .ok a) : Q a (x s).state := by
  unfold Ends at h
  rwa [e] at h

/-- What `E` says, of a failure that is known. -/
theorem Ends.of_failure {x : Session ν ε σ α} {s : σ} {Q : α → σ → Prop} {E : ε → σ → Prop} {e : ε}
    (h : x.Ends s Q E) (he : (x s).answer = .error e) : E e (x s).state := by
  unfold Ends at h
  rwa [he] at h

/-- What holds of the state that is reached, one way or another. -/
theorem Ends.state {x : Session ν ε σ α} {s : σ} {P : σ → Prop}
    (h : x.Ends s (fun _ => P) fun _ => P) : P (x s).state := by
  unfold Ends at h
  split at h <;> exact h

/-- From `s`, the session answers `a` and reaches `t`. -/
def Answers (x : Session ν ε σ α) (s : σ) (a : α) (t : σ) : Prop :=
  (x s).answer = .ok a ∧ (x s).state = t

/-- A session whose answer is known ends in one way. -/
theorem Answers.ends_iff {x : Session ν ε σ α} {s t : σ} {a : α} {Q : α → σ → Prop}
    {E : ε → σ → Prop} (h : x.Answers s a t) : x.Ends s Q E ↔ Q a t := by
  obtain ⟨ha, rfl⟩ := h
  unfold Ends
  rw [ha]

theorem Answers.unique {x : Session ν ε σ α} {s t t' : σ} {a a' : α} (h : x.Answers s a t)
    (h' : x.Answers s a' t') : a = a' ∧ t = t' :=
  ⟨Except.ok.inj (h.1.symm.trans h'.1), h.2.symm.trans h'.2⟩

/-- From `s`, the session fails with `e` and reaches `t`. -/
def Fails (x : Session ν ε σ α) (s : σ) (e : ε) (t : σ) : Prop :=
  (x s).answer = .error e ∧ (x s).state = t

theorem answers_pure (a : α) (s : σ) : (pure a : Session ν ε σ α).Answers s a s := ⟨rfl, rfl⟩

/-- A session answers or fails as it does. -/
theorem ends_self (x : Session ν ε σ α) (s : σ) : x.Ends s (x.Answers s) (x.Fails s) := by
  unfold Ends
  split
  next e => exact ⟨e, rfl⟩
  next e => exact ⟨e, rfl⟩

/-- After an answer, a session ends as its continuation does. -/
theorem Answers.bind_ends {x : Session ν ε σ α} {s t : σ} {a : α} (hx : x.Answers s a t)
    (f : α → Session ν ε σ β) :
    ((x >>= f) s).answer = (f a t).answer ∧ ((x >>= f) s).state = (f a t).state := by
  obtain ⟨ha, rfl⟩ := hx
  have hrun : (x >>= f) s = (x s).andThen fun a t => f a t := rfl
  rw [hrun]
  generalize x s = o at ha ⊢
  obtain ⟨answer, t, notes⟩ := o
  obtain rfl : answer = .ok a := ha
  exact ⟨rfl, rfl⟩

theorem Answers.bind {x : Session ν ε σ α} {f : α → Session ν ε σ β} {s t u : σ} {a : α} {b : β}
    (hx : x.Answers s a t) (hf : (f a).Answers t b u) : (x >>= f).Answers s b u :=
  ⟨(hx.bind_ends f).1.trans hf.1, (hx.bind_ends f).2.trans hf.2⟩

theorem Answers.bind_fails {x : Session ν ε σ α} {f : α → Session ν ε σ β} {s t u : σ} {a : α}
    {e : ε} (hx : x.Answers s a t) (hf : (f a).Fails t e u) : (x >>= f).Fails s e u :=
  ⟨(hx.bind_ends f).1.trans hf.1, (hx.bind_ends f).2.trans hf.2⟩

/-- What fails does not get to its continuation. -/
theorem Fails.bind {x : Session ν ε σ α} {s t : σ} {e : ε} (hx : x.Fails s e t)
    (f : α → Session ν ε σ β) : (x >>= f).Fails s e t := by
  obtain ⟨he, rfl⟩ := hx
  have hrun : (x >>= f) s = (x s).andThen fun a t => f a t := rfl
  unfold Fails
  rw [hrun]
  generalize x s = o at he ⊢
  obtain ⟨answer, t, notes⟩ := o
  obtain rfl : answer = .error e := he
  exact ⟨rfl, rfl⟩

/-- What holds of whatever is answered; nothing is said about failures. -/
theorem ends_of_forall_answers {x : Session ν ε σ α} {s : σ} {Q : α → σ → Prop}
    (h : ∀ a t, x.Answers s a t → Q a t) : x.Ends s Q fun _ _ => True := by
  unfold Ends
  split
  next a e => exact h a _ ⟨e, rfl⟩
  next => trivial

/-! ### One rule for each way of building a session -/

section Rules

variable {s : σ} {Q : α → σ → Prop} {E : ε → σ → Prop}

@[simp] theorem ends_pure {a : α} : (pure a : Session ν ε σ α).Ends s Q E ↔ Q a s := Iff.rfl

@[simp] theorem ends_bind {x : Session ν ε σ α} {f : α → Session ν ε σ β} {Q : β → σ → Prop} :
    (x >>= f).Ends s Q E ↔ x.Ends s (fun a t => (f a).Ends t Q E) E := by
  have hrun : (x >>= f) s = (x s).andThen fun a t => f a t := rfl
  unfold Ends
  rw [hrun]
  obtain ⟨answer, t, notes⟩ := x s
  cases answer <;> rfl

@[simp] theorem ends_read {Q : σ → σ → Prop} :
    (read : Session ν ε σ σ).Ends s Q E ↔ Q s s := Iff.rfl

@[simp] theorem ends_update {f : σ → σ} {Q : Unit → σ → Prop} :
    (update f : Session ν ε σ Unit).Ends s Q E ↔ Q () (f s) := Iff.rfl

@[simp] theorem ends_note {n : ν} {Q : Unit → σ → Prop} :
    (note n : Session ν ε σ Unit).Ends s Q E ↔ Q () s := Iff.rfl

@[simp] theorem ends_fail {e : ε} : (fail e : Session ν ε σ α).Ends s Q E ↔ E e s := Iff.rfl

@[simp] theorem ends_ite {p : Prop} [Decidable p] {x y : Session ν ε σ α} :
    (if p then x else y).Ends s Q E ↔ if p then x.Ends s Q E else y.Ends s Q E := by
  split <;> exact Iff.rfl

@[simp] theorem ends_ofExcept_ok {a : α} :
    (ofExcept (.ok a) : Session ν ε σ α).Ends s Q E ↔ Q a s := Iff.rfl

@[simp] theorem ends_ofExcept_error {e : ε} :
    (ofExcept (.error e) : Session ν ε σ α).Ends s Q E ↔ E e s := Iff.rfl

@[simp] theorem ends_within {part : σ → τ} {put : τ → σ → σ} {x : Session ν ε τ α} :
    (within part put x).Ends s Q E ↔
      x.Ends (part s) (fun a t => Q a (put t s)) fun e t => E e (put t s) := Iff.rfl

@[simp] theorem ends_mapNotes {f : ν → ν'} {x : Session ν ε σ α} :
    (x.mapNotes f).Ends s Q E ↔ x.Ends s Q E := Iff.rfl

@[simp] theorem ends_mapFailure {f : ε → ε'} {x : Session ν ε σ α} {E : ε' → σ → Prop} :
    (x.mapFailure f).Ends s Q E ↔ x.Ends s Q fun e t => E (f e) t := by
  unfold Ends mapFailure
  dsimp only
  cases (x s).answer with
  | ok a => exact Iff.rfl
  | error e => exact Iff.rfl

/-- Notes left one after the other change nothing else. -/
@[simp] theorem ends_forM_note {f : α → ν} {as : List α} {Q : Unit → σ → Prop} :
    (as.forM fun a => (note (f a) : Session ν ε σ Unit)).Ends s Q E ↔ Q () s := by
  induction as with
  | nil => exact Iff.rfl
  | cons a as ih =>
      show ((note (f a) : Session ν ε σ Unit) >>= fun _ =>
        as.forM fun a => (note (f a) : Session ν ε σ Unit)).Ends s Q E ↔ Q () s
      simp only [ends_bind, ends_note, ih]

/-- The answers of a session that is run for every member of a list. -/
theorem ends_mapM {f : α → Session ν ε σ β} {R : α → β → Prop} {as : List α}
    (h : ∀ a ∈ as, ∀ t, (f a).Ends t (fun b _ => R a b) E) :
    (as.mapM f).Ends s (fun bs _ => ∀ b ∈ bs, ∃ a ∈ as, R a b) E := by
  induction as generalizing s with
  | nil => exact fun b hb => absurd hb List.not_mem_nil
  | cons a as ih =>
      have has := fun b hb => h b (List.mem_cons_of_mem a hb)
      simp only [List.mapM_cons, ends_bind, ends_pure]
      refine (h a List.mem_cons_self s).mono (fun b t hb => ?_) fun _ _ he => he
      refine (ih has).mono (fun bs _ hbs c hc => ?_) fun _ _ he => he
      rcases List.mem_cons.mp hc with rfl | hc
      · exact ⟨a, List.mem_cons_self, hb⟩
      · obtain ⟨d, hd, hR⟩ := hbs c hc
        exact ⟨d, List.mem_cons_of_mem a hd, hR⟩

end Rules

/-! ### Sessions without a state -/

/-- Without a state, the answer of a session is that of its parts. -/
theorem answer_bind (x : Session ν ε Unit α) (f : α → Session ν ε Unit β) :
    ((x >>= f) ()).answer = (x ()).answer >>= fun a => (f a ()).answer := by
  show ((x ()).andThen fun a t => f a t).answer = _
  obtain ⟨answer, t, notes⟩ := x ()
  cases answer <;> rfl

theorem answer_mapM (f : α → Session ν ε Unit β) (as : List α) :
    ((as.mapM f) ()).answer = as.mapM fun a => (f a ()).answer := by
  induction as with
  | nil => rfl
  | cons a as ih =>
      simp only [List.mapM_cons, answer_bind, ih]
      rfl

theorem notes_bind {x : Session ν ε Unit α} {a : α} (h : (x ()).answer = .ok a)
    (f : α → Session ν ε Unit β) : ((x >>= f) ()).notes = (x ()).notes ++ (f a ()).notes := by
  show ((x ()).andThen fun a t => f a t).notes = _
  generalize x () = o at h ⊢
  obtain ⟨answer, t, notes⟩ := o
  obtain rfl : answer = .ok a := h
  rfl

/-- Sessions that all answer leave the notes of all of them. -/
theorem mem_notes_mapM {f : α → Session ν ε Unit β} {as : List α} {bs : List β}
    (h : ((as.mapM f) ()).answer = .ok bs) {n : ν} :
    n ∈ ((as.mapM f) ()).notes ↔ ∃ a ∈ as, n ∈ (f a ()).notes := by
  induction as generalizing bs with
  | nil => simp [pure]
  | cons a as ih =>
      rw [answer_mapM, List.mapM_cons] at h
      obtain ⟨b, hb, h⟩ := bind_eq_ok.mp h
      obtain ⟨bs', hbs, -⟩ := bind_eq_ok.mp h
      rw [← answer_mapM] at hbs
      rw [List.mapM_cons, notes_bind hb, notes_bind hbs, List.mem_append, List.mem_append, ih hbs]
      simp [pure]

end Session

namespace StopCondition

/-- What is done to a stop condition: it is asked whether to give up, or told about an iteration. -/
inductive Call where
  | poll
  | tick
deriving DecidableEq

variable {σ : Type} [StopCondition σ]

/-- The state after one call. -/
def step (s : σ) : Call → σ
  | .poll => (poll s).2
  | .tick => tick s

/-- No poll triggers, whatever calls have been made before it. -/
def NeverTriggers (s : σ) : Prop := ∀ calls : List Call, (poll (calls.foldl step s)).1 = false

theorem NeverTriggers.poll_eq {s : σ} (h : NeverTriggers s) : (poll s).1 = false := h []

theorem NeverTriggers.step {s : σ} (h : NeverTriggers s) (c : Call) :
    NeverTriggers (step s c) := fun calls => h (c :: calls)

theorem NeverTriggers.poll {s : σ} (h : NeverTriggers s) : NeverTriggers (poll s).2 :=
  h.step .poll

theorem NeverTriggers.tick {s : σ} (h : NeverTriggers s) : NeverTriggers (tick s) :=
  h.step .tick

theorem neverTriggers_indefinite (s : Indefinite) : NeverTriggers s := fun _ => rfl

/-- Once so many polls have been made, all further ones trigger. -/
def TriggersAfter (n : Nat) (s : σ) : Prop :=
  ∀ calls : List Call, n ≤ calls.count .poll → (poll (calls.foldl step s)).1 = true

theorem TriggersAfter.mono {m n : Nat} {s : σ} (h : TriggersAfter m s) (hle : m ≤ n) :
    TriggersAfter n s := fun calls hcalls => h calls (Nat.le_trans hle hcalls)

theorem TriggersAfter.step {n : Nat} {s : σ} (h : TriggersAfter n s) (c : Call) :
    TriggersAfter n (step s c) := fun calls hcalls =>
  h (c :: calls) (Nat.le_trans hcalls List.count_le_count_cons)

/-- A poll uses up one of those that are left. -/
theorem TriggersAfter.poll {n : Nat} {s : σ} (h : TriggersAfter (n + 1) s) :
    TriggersAfter n (poll s).2 := fun calls hcalls =>
  h (.poll :: calls) (by rw [List.count_cons_self]; exact Nat.succ_le_succ hcalls)

/-- A poll that does not trigger is one of those that are left. -/
theorem TriggersAfter.exists_of_poll {n : Nat} {s : σ} (h : TriggersAfter n s)
    (hpoll : (StopCondition.poll s).1 = false) :
    ∃ m, n = m + 1 ∧ TriggersAfter m (StopCondition.poll s).2 := by
  cases n with
  | zero => exact absurd ((h [] (Nat.zero_le _)).symm.trans hpoll) nofun
  | succ m => exact ⟨m, rfl, h.poll⟩

theorem foldl_step_pollLimit (s : PollLimit) (calls : List Call) :
    calls.foldl step s =
      ⟨s.limit, s.polls + calls.count .poll, s.iterations + calls.count .tick⟩ := by
  induction calls generalizing s with
  | nil => rfl
  | cons c calls ih =>
      rw [List.foldl_cons, ih]
      cases c with
      | poll =>
          show (⟨s.limit, s.polls + 1 + _, s.iterations + _⟩ : PollLimit) = _
          simp [Nat.add_assoc, Nat.add_comm 1]
      | tick =>
          show (⟨s.limit, s.polls + _, s.iterations + 1 + _⟩ : PollLimit) = _
          simp [Nat.add_assoc, Nat.add_comm 1]

/-- A limit on polls triggers once so many of them have been made. -/
theorem triggersAfter_pollLimit (limit : Nat) :
    TriggersAfter limit (⟨some limit, 0, 0⟩ : PollLimit) := by
  intro calls hcalls
  rw [foldl_step_pollLimit]
  have hlt : limit < 0 + calls.count .poll + 1 := by omega
  exact decide_eq_true hlt

end StopCondition

namespace Session

variable {ν σ : Type} [StopCondition σ] {phase : Phase} {s : σ}

theorem ends_poll_iff {Q : Unit → σ → Prop} {E : Failure → σ → Prop} :
    (poll phase : Session ν Failure σ Unit).Ends s Q E ↔
      ((StopCondition.poll s).1 = false → Q () (StopCondition.poll s).2) ∧
        ((StopCondition.poll s).1 = true → E (.exhausted phase) (StopCondition.poll s).2) := by
  unfold Ends poll
  obtain ⟨b, t⟩ := StopCondition.poll s
  cases b with
  | false => exact ⟨fun h => ⟨fun _ => h, nofun⟩, fun h => h.1 rfl⟩
  | true => exact ⟨fun h => ⟨nofun, fun _ => h⟩, fun h => h.2 rfl⟩

/-- A poll ends a session only if the stop condition may trigger. -/
theorem ends_poll : (poll phase : Session ν Failure σ Unit).Ends s
    (fun _ t => t = (StopCondition.poll s).2)
    fun e _ => e = .exhausted phase ∧ ¬ StopCondition.NeverTriggers s :=
  ends_poll_iff.mpr ⟨fun _ => rfl, fun h =>
    ⟨rfl, fun hn => Bool.false_ne_true (hn.poll_eq.symm.trans h)⟩⟩

end Session

end ModelFinder
