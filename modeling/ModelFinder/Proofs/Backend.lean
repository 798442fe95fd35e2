import ModelFinder.Backend
import ModelFinder.Proofs.Attempts
import ModelFinder.Proofs.Prover.Answer

/-!
# Reliable and sound back ends

A back end is reliable in some of its states when it decides every problem from them, without fail
and without leaving them, as long as the stop condition never triggers (`Backend.Reliable`).  The
prover is reliable in all of its states, and the replay of a refutation when it has none left.

A back end is sound in some of its states when every refutation that it answers from them is one,
from clauses of the problem, and it does not leave them (`Backend.Sound`).  It may fail at any time,
and nothing is asked of the problems that it calls satisfiable.  The prover is sound in all of its
states, and the replay of a refutation if that is sound.
-/

namespace ModelFinder

open Session StopCondition

variable {β σ : Type} [StopCondition σ]

/-- From the states in which `J` holds, the back end decides every problem. -/
def Backend.Reliable (backend : Backend β σ) (J : β → Prop) : Prop :=
  ∀ (cnf : Cnf) (b : β) (stop : σ), J b → NeverTriggers stop →
    (backend.solve cnf).Ends (b, stop)
      (fun o s => Prover.Decides cnf o ∧ J s.1 ∧ NeverTriggers s.2) fun _ _ => False

theorem Prover.reliable_backend : (Prover.backend : Backend Counters σ).Reliable fun _ => True := by
  intro cnf k stop _ hstop
  refine (Prover.ends_solve cnf k stop).mono (fun o s ⟨ho, hs⟩ => ?_) fun e s ⟨_, hn⟩ => ?_
  · exact ⟨ho, trivial, hs hstop⟩
  · exact hn hstop

omit [StopCondition σ] in
theorem Replay.ends_take {r : Replay} {stop : σ} {Q : Option Trace → Replay × σ → Prop}
    {E : Failure → Replay × σ → Prop} :
    take.Ends (r, stop) Q E ↔ Q r.refutation ({ r with refutation := none }, stop) := Iff.rfl

/-- The input clauses of a trace are clauses of the problem. -/
def Trace.IsFrom (t : Trace) (cnf : Cnf) : Prop :=
  ∀ c ∈ t.inputs, ∃ ls ∈ cnf.clauses, c.clause = .ofList ls

/-- A refutation is one from clauses of the problem. -/
def SatOutcome.IsSoundFor (cnf : Cnf) : SatOutcome → Prop
  | .satisfiable _ => True
  | .unsatisfiable t => t.IsRefutation ∧ t.IsFrom cnf

/-- From the states in which `J` holds, the back end only answers refutations that are sound. -/
def Backend.Sound (backend : Backend β σ) (J : β → Prop) : Prop :=
  ∀ (cnf : Cnf) (b : β) (stop : σ), J b →
    (backend.solve cnf).Ends (b, stop) (fun o s => o.IsSoundFor cnf ∧ J s.1) fun _ _ => True

theorem Prover.isSoundFor_of_decides {cnf : Cnf} {o : SatOutcome} (h : Prover.Decides cnf o) :
    o.IsSoundFor cnf := by
  cases o with
  | satisfiable => exact trivial
  | unsatisfiable t => exact ⟨Refutes.isRefutation h, Refutes.given h⟩

theorem Prover.sound_backend : (Prover.backend : Backend Counters σ).Sound fun _ => True := by
  intro cnf k stop _
  refine (Prover.ends_solve cnf k stop).mono (fun o s ⟨ho, _⟩ => ?_) fun _ _ _ => trivial
  exact ⟨isSoundFor_of_decides ho, trivial⟩

/-- When there is nothing left to replay, the prover is asked. -/
theorem Replay.ends_solve_spent {r : Replay} (spent : r.refutation = none) {cnf : Cnf} {stop : σ}
    {Q : SatOutcome → Replay × σ → Prop} {E : Failure → Replay × σ → Prop} :
    (Replay.solve cnf).Ends (r, stop) Q E ↔ (Prover.solve cnf).Ends (r.prover, stop)
      (fun o s => Q o (⟨none, s.1⟩, s.2)) fun e s => E e (⟨none, s.1⟩, s.2) := by
  unfold Replay.solve
  rw [ends_bind, Replay.ends_take, spent]
  show (Session.within _ _ (Prover.solve cnf)).Ends _ _ _ ↔ _
  rw [ends_within]

theorem Replay.reliable_backend :
    (Replay.backend : Backend Replay σ).Reliable fun r => r.refutation = none := by
  intro cnf r stop hr hstop
  refine (Replay.ends_solve_spent hr).mpr ?_
  refine (Prover.reliable_backend cnf r.prover stop trivial hstop).mono (fun o s hs => ?_)
    fun _ _ he => he
  exact ⟨hs.1, rfl, hs.2.2⟩

theorem Replay.checkAxiom_eq_ok_iff {c : TraceClause} {ls : List Literal} :
    checkAxiom c ls = .ok () ↔ c.clause = .ofList ls := by
  rw [← Clause.hasLiterals_iff, checkAxiom]
  split
  next h => exact iff_of_true rfl h
  next h => exact iff_of_false nofun h

/-- A refutation fits a problem if it has as many input clauses, and the clauses at each position
are the same. -/
theorem Replay.checkAxioms_eq_ok_iff {t : Trace} {cnf : Cnf} : checkAxioms t cnf = .ok () ↔
    t.numAxioms = cnf.numClauses ∧ ∀ (i : Nat) (c : TraceClause) (ls : List Literal),
      t.get? i = some c → cnf.clauses[i]? = some ls → c.clause = .ofList ls := by
  have hpair {i : Nat} {c : TraceClause} {ls : List Literal} :
      (t.clauses.toList.zip cnf.clauses)[i]? = some (c, ls) ↔
        t.get? i = some c ∧ cnf.clauses[i]? = some ls := by
    rw [List.getElem?_zip_eq_some, Array.getElem?_toList]
    exact Iff.rfl
  unfold checkAxioms
  split
  next hsize =>
    rw [and_iff_right hsize]
    refine forM_eq_ok.trans ⟨fun h i c ls hc hls => ?_, fun h r hr => ?_⟩
    · exact checkAxiom_eq_ok_iff.mp (h _ (List.mem_of_getElem? (hpair.mpr ⟨hc, hls⟩)))
    · obtain ⟨i, hi⟩ := List.mem_iff_getElem?.mp hr
      obtain ⟨hc, hls⟩ := hpair.mp hi
      exact checkAxiom_eq_ok_iff.mpr (h i r.1 r.2 hc hls)
  next hsize => exact iff_of_false nofun fun h => hsize h.1

/-- What is replayed is made of clauses of the problem. -/
theorem Replay.isFrom_of_checkAxioms {t : Trace} {cnf : Cnf} (h : checkAxioms t cnf = .ok ()) :
    t.IsFrom cnf := by
  obtain ⟨hsize, hsame⟩ := checkAxioms_eq_ok_iff.mp h
  intro c hc
  obtain ⟨i, hlt, hget⟩ := Trace.mem_inputs_iff.mp hc
  have hi : i < cnf.clauses.length := Nat.lt_of_lt_of_eq hlt hsize
  exact ⟨_, List.getElem_mem hi, hsame i c _ hget (List.getElem?_eq_getElem hi)⟩

/-- **What a replay answers** is the refutation that it was given, if the problem has its input
clauses, or what the prover finds, if it was given none.  There is nothing to replay afterwards. -/
theorem Replay.ends_solve {P : Trace → Prop} {r : Replay} (hr : ∀ t, r.refutation = some t → P t)
    (cnf : Cnf) (stop : σ) : (Replay.solve cnf).Ends (r, stop)
      (fun o s => (∀ t, o = .unsatisfiable t → (P t ∨ t.IsRefutation) ∧ t.IsFrom cnf) ∧
        s.1.refutation = none) fun _ _ => True := by
  cases h : r.refutation with
  | some t =>
      unfold Replay.solve
      rw [ends_bind, Replay.ends_take, h]
      show (Session.mapFailure Failure.violation (Session.ofExcept _) >>= fun _ => _).Ends _ _ _
      rw [ends_bind, ends_mapFailure]
      cases hcheck : checkAxioms t cnf with
      | error => exact trivial
      | ok =>
          rw [ends_ofExcept_ok, ends_bind, ends_note, ends_pure]
          refine ⟨fun t' e => ?_, rfl⟩
          cases e
          exact ⟨.inl (hr t h), isFrom_of_checkAxioms hcheck⟩
  | none =>
      rw [Replay.ends_solve_spent h]
      refine (Prover.sound_backend cnf r.prover stop trivial).mono
        (fun o s hs => ⟨fun t e => ?_, rfl⟩) fun _ _ he => he
      subst e
      exact ⟨.inr hs.1.1, hs.1.2⟩

theorem Replay.sound_backend : (Replay.backend : Backend Replay σ).Sound
    fun r => ∀ t, r.refutation = some t → t.IsRefutation := by
  intro cnf r stop hr
  refine (Replay.ends_solve hr cnf stop).mono (fun o s ⟨ho, hnone⟩ => ⟨?_, fun t h => ?_⟩)
    fun _ _ he => he
  · cases o with
    | satisfiable => exact trivial
    | unsatisfiable t => exact ⟨(ho t rfl).1.elim id id, (ho t rfl).2⟩
  · rw [hnone] at h
    cases h

/-- A replay that is not sound still has clauses of the problem, and is over with the first call. -/
theorem Replay.ends_solve_wellFormed {r : Replay}
    (hr : ∀ t, r.refutation = some t → t.WellFormed) (cnf : Cnf) (stop : σ) :
    (Replay.solve cnf).Ends (r, stop)
      (fun o s => (∀ t, o = .unsatisfiable t → t.WellFormed ∧ t.IsFrom cnf) ∧
        ∀ t, s.1.refutation = some t → t.IsRefutation) fun _ _ => True := by
  refine (Replay.ends_solve hr cnf stop).mono (fun o s ho => ⟨fun t e => ?_, fun t h => ?_⟩)
    fun _ _ he => he
  · obtain ⟨hwf, hfrom⟩ := ho.1 t e
    exact ⟨hwf.elim id Trace.IsRefutation.wellFormed, hfrom⟩
  · rw [ho.2] at h
    cases h

end ModelFinder
