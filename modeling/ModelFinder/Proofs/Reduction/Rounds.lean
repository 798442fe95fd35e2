import ModelFinder.Proofs.Reduction.Candidate
import ModelFinder.Reduction.Minimise

/-!
# Rounds of reductions

A reduction goes on from round to round as long as its strategy has candidates
(`Reduction.ends_rounds_succ`), and every candidate is one of those that were still to come
(`Strategy.Shrinks`).  So there are enough rounds, and what is left to do is at most the number of
candidates that are still to come.

`Reduction.Conserves` says that a round keeps an invariant, which may mention that number and the
stop condition.  An invariant that rounds keep holds when a reduction has come to its end, one way
or another (`Reduction.Conserves.ends_minimiseCore`).
-/

namespace ModelFinder

open Session

/-! ### Candidates that are still to come -/

namespace Strategy

variable {κ : Type}

/-- Every candidate is one of those that were still to come. -/
def Shrinks (strategy : Strategy κ) : Prop :=
  ∀ t k, (strategy.next t).Ends k
    (fun c k' => c.isEmpty = true ∨ strategy.remaining k' < strategy.remaining k) fun _ _ => True

theorem Scans.shrinks {strategy : Strategy RootPool} {distance : ResolutionDistance}
    (h : strategy.Scans distance) : strategy.Shrinks := by
  intro t pool
  refine h.ends_next (fun _ => .inl rfl) fun v rest hnext _ => ?_
  refine ⟨fun _ _ => .inr ?_, fun _ _ => trivial⟩
  rw [h.remaining, h.remaining]
  exact hnext.length_lt

end Strategy

/-! ### What rounds keep -/

namespace Reduction

variable {κ β σ : Type} {strategy : Strategy κ} {backend : Backend β σ} {s : State κ β σ}

/-- An answer or a broken promise, and nothing happens to the state. -/
theorem ends_expecting_iff {α : Type} {x : Except Violation α} {Q : α → State κ β σ → Prop}
    {E : Failure → State κ β σ → Prop} : (expecting x).Ends s Q E ↔
      (∀ a, x = .ok a → Q a s) ∧ ∀ cause, x = .error cause → E (.violation cause) s := by
  unfold expecting
  rw [ends_mapFailure]
  cases x with
  | ok a => exact ⟨fun h => ⟨fun _ ha => Except.ok.inj ha ▸ h, nofun⟩, fun h => h.1 a rfl⟩
  | error e => exact ⟨fun h => ⟨nofun, fun _ he => Except.error.inj he ▸ h⟩, fun h => h.2 e rfl⟩

variable [StopCondition σ]

/-- **One round**, and the rounds after it. -/
theorem ends_rounds_succ {n : Nat} {t : Trace} {k : Counters}
    {Q : Trace × Counters → State κ β σ → Prop} {E : Failure → State κ β σ → Prop} :
    (rounds strategy backend (n + 1) t k).Ends s Q E ↔
      (propose strategy t).Ends s (fun c s₁ => if c.isEmpty then Q (t, k) s₁ else
        (stopping (Session.poll .reduction)).Ends s₁ (fun _ s₂ =>
          (attempt backend t c k).Ends s₂ (fun r s₃ =>
            (rounds strategy backend n r.1 r.2).Ends
              { s₃ with stop := StopCondition.tick s₃.stop } Q E) E) E) E := by
  rw [rounds]
  simp only [ends_bind, ends_ite, ends_pure]
  exact Iff.rfl

/-- After the rounds there are only notes to leave. -/
theorem ends_minimiseCore_of_rounds {t : Trace} {Q : Trace → State κ β σ → Prop}
    {E : Failure → State κ β σ → Prop}
    (h : (rounds strategy backend (strategy.remaining s.strategy + 1) t {}).Ends s
      (fun r s' => Q r.1 s') E) : (minimiseCore strategy backend t).Ends s Q E := by
  unfold minimiseCore
  rw [ends_bind, ends_read, ends_bind]
  refine h.mono (fun r s' hr => ?_) fun _ _ he => he
  show (Session.note _ >>= fun _ => _).Ends s' _ _
  rw [ends_bind, ends_note, ends_bind, ends_forM_note, ends_pure]
  exact hr

variable {I : Nat → σ → Prop} {E : Failure → σ → Prop}

/-- Rounds keep `I m`, where `m` candidates may still come, and whatever makes a reduction fail,
`E` holds then. -/
structure Conserves (backend : Backend β σ) (I : Nat → σ → Prop) (E : Failure → σ → Prop) :
    Prop where
  weaken : ∀ {m n : Nat} {stop : σ}, m ≤ n → I n stop → I m stop
  poll : ∀ {m : Nat} {stop : σ}, I (m + 1) stop →
    (Session.poll .reduction : Session (Note Empty) Failure σ Unit).Ends stop
      (fun _ stop' => I (m + 1) stop') E
  solve : ∀ {m : Nat} {stop : σ} (cnf : Cnf) (b : β), I (m + 1) stop →
    (backend.solve cnf).Ends (b, stop) (fun _ r => I m (StopCondition.tick r.2)) fun e r => E e r.2
  violation : ∀ {m : Nat} {stop : σ} (cause : Violation),
    I m stop ∨ I m (StopCondition.tick stop) → E (.violation cause) stop

namespace Conserves

theorem ends_attempt (h : Conserves backend I E) {m : Nat} (t : Trace) (candidate : ClauseSet)
    (k : Counters) (hs : I (m + 1) s.stop) : (attempt backend t candidate k).Ends s
      (fun _ s' => s'.strategy = s.strategy ∧ I m (StopCondition.tick s'.stop))
      fun e s' => E e s'.stop := by
  unfold attempt
  rw [ends_bind]
  refine ends_expecting_iff.mpr ⟨fun cnf _ => ?_, fun cause _ => h.violation cause (.inl hs)⟩
  rw [ends_bind]
  unfold resolve
  rw [ends_within, ends_mapNotes]
  refine (h.solve cnf s.backend hs).mono (fun o r hr => ?_) fun _ _ he => he
  cases o with
  | satisfiable a => exact ⟨rfl, hr⟩
  | unsatisfiable reduced =>
      rw [ends_bind]
      exact ends_expecting_iff.mpr
        ⟨fun t' _ => ⟨rfl, hr⟩, fun cause _ => h.violation cause (.inr hr)⟩

theorem ends_rounds (h : Conserves backend I E) (hk : strategy.Shrinks) (n : Nat) (t : Trace)
    (k : Counters) (hn : strategy.remaining s.strategy < n)
    (hs : I (strategy.remaining s.strategy) s.stop) : (rounds strategy backend n t k).Ends s
      (fun _ s' => I 0 s'.stop) fun e s' => E e s'.stop := by
  induction n generalizing t s k with
  | zero => exact absurd hn (Nat.not_lt_zero _)
  | succ n ih =>
      rw [ends_rounds_succ]
      unfold propose
      rw [ends_within, ends_mapFailure, ends_mapNotes]
      refine (hk t s.strategy).mono (fun c strategy' hc => ?_)
        fun cause _ _ => h.violation cause (.inl hs)
      split
      · exact h.weaken (Nat.zero_le _) hs
      next hne =>
        -- the next round has fewer candidates to come
        have hlt := hc.resolve_left hne
        unfold stopping
        rw [ends_within]
        refine (h.poll (h.weaken hlt hs)).mono (fun _ stop hstop => ?_) fun _ _ he => he
        refine (h.ends_attempt t c k hstop).mono (fun r s₁ ⟨hstrategy, hs₁⟩ => ?_) fun _ _ he => he
        refine ih (s := { s₁ with stop := StopCondition.tick s₁.stop }) r.1 r.2 ?_ ?_
        · show strategy.remaining s₁.strategy < n
          rw [hstrategy]
          exact Nat.lt_of_lt_of_le hlt (Nat.le_of_lt_succ hn)
        · show I (strategy.remaining s₁.strategy) _
          rw [hstrategy]
          exact hs₁

/-- **What rounds keep holds at the end of a reduction.** -/
theorem ends_minimiseCore (h : Conserves backend I E) (hk : strategy.Shrinks) (t : Trace)
    (hs : I (strategy.remaining s.strategy) s.stop) : (minimiseCore strategy backend t).Ends s
      (fun _ s' => I 0 s'.stop) fun e s' => E e s'.stop :=
  ends_minimiseCore_of_rounds (h.ends_rounds hk _ t {} (Nat.lt_succ_self _) hs)

end Conserves

end Reduction

end ModelFinder
