import ModelFinder.Backend
import ModelFinder.Proofs.Session.Tallies

/-!
# What the prover does with its stop condition

The prover polls its stop condition and does nothing else with it, and so does the replay of a
refutation, which leaves most of its calls to the prover.  So neither of them makes iterations
(`Prover.onlyPolls_backend`, `Replay.onlyPolls_backend`).
-/

namespace ModelFinder

open Session StopCondition

variable {σ : Type} [StopCondition σ]

/-- A back end whose script has polls only. -/
def Backend.OnlyPolls {β : Type} (backend : Backend β σ) : Prop :=
  ∃ script : Cnf → β × σ → List Call, backend.Follows script ∧ ∀ cnf s, Call.tick ∉ script cnf s

/-- The stop condition is polled, and nothing is said of candidates. -/
def polling {S : Type} (stop : S → σ) : Conduct Remark S where
  moves s t := ∃ k, stop t = (List.replicate k Call.poll).foldl step (stop s)
  notes r := r.isCandidate = false
  refl _ := ⟨0, rfl⟩
  trans := by
    rintro s t u ⟨k, hk⟩ ⟨m, hm⟩
    refine ⟨k + m, ?_⟩
    rw [hm, hk, ← List.foldl_append, List.replicate_append_replicate]

/-- A back end that keeps to polling has a script of polls. -/
theorem Backend.onlyPolls_of_keepsTo {β : Type} {backend : Backend β σ}
    (h : ∀ cnf, (backend.solve cnf).KeepsTo (polling Prod.snd)) : backend.OnlyPolls := by
  refine ⟨fun cnf s => List.replicate (h cnf s).1.choose .poll, ⟨?_, ?_⟩, ?_⟩
  · exact fun cnf s => (h cnf s).1.choose_spec
  · exact fun cnf s => ⟨trivial, (h cnf s).2⟩
  · exact fun cnf s hmem => Call.noConfusion (List.eq_of_mem_replicate hmem)

namespace Prover

namespace Search

variable {α : Type} {x : Search σ α}

theorem keepsTo_of_stop (hstop : ∀ s, (x s).state.stop = s.stop) (hnotes : ∀ s, (x s).notes = []) :
    x.KeepsTo (polling State.stop) :=
  keepsTo_of_noteless (fun s => ⟨0, hstop s⟩) hnotes

theorem keepsTo_building (x : Trace.Builder.Action α) :
    (building x : Search σ α).KeepsTo (polling State.stop) := by
  refine keepsTo_of_stop (fun s => rfl) fun s => List.eq_nil_iff_forall_not_mem.mpr fun n hn => ?_
  obtain ⟨e, -⟩ := List.mem_map.mp hn
  exact e.elim

theorem keepsTo_finish : (finish : Search σ SatOutcome).KeepsTo (polling State.stop) := by
  refine keepsTo_of_stop (fun s => ?_) fun s => ?_ <;> unfold finish <;> split <;> rfl

theorem keepsTo_count (f : Counters → Counters) :
    (count f : Search σ Unit).KeepsTo (polling State.stop) :=
  keepsTo_update fun _ => ⟨0, rfl⟩

theorem keepsTo_poll : (poll : Search σ Unit).KeepsTo (polling State.stop) := by
  refine keepsTo_of_noteless (fun s => ⟨1, ?_⟩) fun s => ?_
  · show (Session.poll .solving s.stop).state = (StopCondition.poll s.stop).2
    unfold Session.poll
    split <;> next h => rw [h]
  · show (Session.poll .solving s.stop).notes = []
    unfold Session.poll
    split <;> rfl

theorem keepsTo_explain (t : Trail) (c : TraceClause) :
    (explain t c : Search σ TraceClause).KeepsTo (polling State.stop) := by
  unfold explain
  split
  · exact keepsTo_pure c
  · exact (keepsTo_count _).bind fun _ => keepsTo_building _

theorem keepsTo_merge (v : Variable) (c d : TraceClause) :
    (merge v c d : Search σ TraceClause).KeepsTo (polling State.stop) := by
  unfold merge
  refine (keepsTo_count _).bind fun _ => (keepsTo_building _).bind fun r => ?_
  exact (keepsTo_note rfl).bind fun _ => keepsTo_pure r

/-- One node of the search tree, given the searches below it. -/
theorem keepsTo_node {clauses : List TraceClause} {bound : Nat}
    (ih : ∀ m, bound = m + 1 → ∀ t, (search clauses m t : Search σ Node).KeepsTo (polling State.stop))
    (t : Trail) : (search clauses bound t : Search σ Node).KeepsTo (polling State.stop) := by
  unfold search
  refine keepsTo_poll.bind fun _ => ?_
  split
  next conflict t' _ =>
    refine (keepsTo_count _).bind fun _ => ?_
    exact (keepsTo_explain t' conflict).bind fun c => keepsTo_pure _
  next t' _ =>
    split
    next v m _ =>
      refine (keepsTo_count _).bind fun _ => (ih m rfl _).bind fun node => ?_
      cases node with
      | model values => exact keepsTo_pure _
      | refuted c =>
          dsimp only
          split
          · exact keepsTo_pure _
          · refine (ih m rfl _).bind fun node => ?_
            cases node with
            | model values => exact keepsTo_pure _
            | refuted d =>
                dsimp only
                split
                · exact keepsTo_pure _
                · exact (keepsTo_merge v c d).bind fun r => keepsTo_pure _
    next => exact keepsTo_pure _

theorem keepsTo_search (clauses : List TraceClause) (bound : Nat) (t : Trail) :
    (search clauses bound t : Search σ Node).KeepsTo (polling State.stop) := by
  induction bound generalizing t with
  | zero => exact keepsTo_node (fun m h => absurd h (Nat.succ_ne_zero m).symm) t
  | succ n ih =>
      refine keepsTo_node (fun m h => ?_) t
      obtain rfl : n = m := Nat.succ.inj h
      exact ih

theorem keepsTo_addAxioms (cs : List (List Literal)) :
    (addAxioms cs : Search σ _).KeepsTo (polling State.stop) := by
  induction cs with
  | nil => exact keepsTo_pure _
  | cons ls rest ih =>
      unfold addAxioms
      refine (keepsTo_building _).bind fun c => ?_
      split
      · exact keepsTo_pure _
      · exact ih.bind fun _ => keepsTo_pure _

theorem keepsTo_answer (cnf : Cnf) :
    (answer cnf : Search σ SatOutcome).KeepsTo (polling State.stop) := by
  unfold answer
  refine (keepsTo_addAxioms cnf.clauses).bind fun r => ?_
  split
  next c _ => exact (keepsTo_building _).bind fun _ => keepsTo_finish
  next clauses =>
    refine (keepsTo_search clauses _ _).bind fun node => ?_
    cases node with
    | model t => exact (keepsTo_ofExcept _).bind fun _ => keepsTo_pure _
    | refuted c =>
        refine (keepsTo_ofExcept _).bind fun _ => keepsTo_read.bind fun s => ?_
        dsimp only
        split
        · exact (keepsTo_building _).bind fun _ => keepsTo_finish
        · exact (keepsTo_pure ()).bind fun _ => keepsTo_finish

end Search

theorem keepsTo_solve (cnf : Cnf) :
    (solve cnf : Session Remark Failure (Counters × σ) SatOutcome).KeepsTo (polling Prod.snd) :=
  (Search.keepsTo_answer cnf).within (fun _ _ h => h) fun _ h => h

/-- **The prover only polls.** -/
theorem onlyPolls_backend : (backend : Backend Counters σ).OnlyPolls :=
  Backend.onlyPolls_of_keepsTo keepsTo_solve

end Prover

/-- **The replay of a refutation only polls.** -/
theorem Replay.onlyPolls_backend : (backend : Backend Replay σ).OnlyPolls := by
  refine Backend.onlyPolls_of_keepsTo fun cnf => ?_
  show (Replay.solve cnf).KeepsTo (polling Prod.snd)
  unfold Replay.solve
  have htake : (take : Session Remark Failure (Replay × σ) (Option Trace)).KeepsTo
      (polling Prod.snd) := keepsTo_of_noteless (fun _ => ⟨0, rfl⟩) fun _ => rfl
  refine htake.bind fun t? => ?_
  cases t? with
  | some t =>
      refine ((keepsTo_ofExcept _).mapFailure _).bind fun _ => ?_
      exact (keepsTo_note rfl).bind fun _ => keepsTo_pure _
  | none => exact (Prover.keepsTo_solve cnf).within (fun _ _ h => h) fun _ h => h

end ModelFinder
