import Mathlib
import ModelFinder.Dimacs.Encoding
import ModelFinder.Proofs.Pipeline
import ModelFinder.Proofs.Reduction.Soundness
import ModelFinder.Proofs.Solver

/-!
# The roots that a core reports suffice

A refutation is traced back to roots by the unit clauses over their variables.  Whatever has been
done to the refutation on the way, the clauses that are left when the unit clauses over all other
roots are deleted (`Cnf.withoutUnits`) have no model: no unit clause of the core of a refutation is
deleted (`CoreOf.not_satisfiable`), and a pipeline with a sound back end only reports cores of
refutations from clauses of the problem (`ends_translateAndSolve_of_sound`).  More generally, what
the first refutation is like, the one that is reported is like, if every candidate keeps it
(`ends_translateAndSolve_of_continues`, `Solver.exists_coreOf`).

This asks nothing of the translation or of the log, and nothing of the stop condition.
-/

namespace ModelFinder

open Session Reduction

variable {L : Logic} {τ β σ : Type}

/-- The problem without the unit clauses over some variables. -/
def Cnf.withoutUnits (cnf : Cnf) (vs : List Variable) : Cnf :=
  ⟨cnf.declared, cnf.clauses.filter fun ls =>
    ¬ ((Clause.ofList ls).size = 1 ∧ ∃ l ∈ ls, l.var ∈ vs)⟩

theorem Cnf.mem_withoutUnits {cnf : Cnf} {vs : List Variable} {ls : List Literal} :
    ls ∈ (cnf.withoutUnits vs).clauses ↔
      ls ∈ cnf.clauses ∧ ¬ ((Clause.ofList ls).size = 1 ∧ ∃ l ∈ ls, l.var ∈ vs) := by
  unfold withoutUnits
  rw [List.mem_filter, decide_eq_true_iff]

/-! ### The core of a refutation -/

/-- Only the core of a refutation is told. -/
theorem coreOf_of_ofTrace {log : TranslationLog L} {t : Trace} {core : UnsatCore L}
    (h : UnsatCore.ofTrace t log = .ok core) : CoreOf log t core := by
  obtain ⟨roots, hroots, he⟩ := bind_eq_ok.mp h
  cases he
  refine ⟨rfl, Eq.symm ((mapM_eq_ok_iff_map_some fun v f => ?_).mp hroots)⟩
  cases log.rootFormula? v <;> simp

/-- **No unit clause that a refutation depends on is deleted.** -/
theorem CoreOf.not_satisfiable {log : TranslationLog L} {t : Trace} {core : UnsatCore L}
    (hcore : CoreOf log t core) {cnf : Cnf} (ht : t.IsRefutation) (hfrom : t.IsFrom cnf) :
    ¬ (cnf.withoutUnits (log.rootVars.filter (· ∉ core.rootVariables))).Satisfiable := by
  rintro ⟨f, hf⟩
  obtain ⟨i, hi, c, hc, hno⟩ := ht.exists_mem_core f
  have hinput := Trace.mem_inputs_iff.mpr ⟨i, (Trace.mem_core.mp hi).2, hc⟩
  obtain ⟨ls, hls, he⟩ := hfrom c hinput
  refine hno (he ▸ Valuation.satisfies_ofList.mpr (hf ls (Cnf.mem_withoutUnits.mpr ⟨hls, ?_⟩)))
  rintro ⟨hsize, l, hl, hdropped⟩
  -- the root of a unit clause of the core is reported
  obtain ⟨hroot, hne⟩ := List.mem_filter.mp hdropped
  have hmax := Clause.maxVariable?_of_size_eq_one hsize (Clause.mem_ofList.mpr hl)
  have hunit : l.var.index ∈ t.coreUnits :=
    Trace.mem_coreUnits.mpr ⟨i, hi, c, l.var, hc, he ▸ hsize, he ▸ hmax, rfl⟩
  refine of_decide_eq_true hne ?_
  rw [hcore.rootVariables_eq]
  exact List.mem_filter.mpr ⟨hroot, IndexSet.contains_eq_true.mpr hunit⟩

/-! ### Pipelines -/

namespace Pipeline

variable {J : β → Prop} {backend : Backend β σ} {s : (τ × β) × σ} {tr : Translation L} {t : Trace}

section

variable {P : Trace → Prop}

/-- What is told of a trace. -/
theorem ends_ofTrace (ht : P t) :
    (do
      let core ← Session.mapFailure .violation (Session.ofExcept (UnsatCore.ofTrace t tr.log))
      return .unsatisfiable core : Run L τ β σ (Verdict L)).Ends s
      (fun v _ => ∀ core, v = .unsatisfiable core → ∃ t, P t ∧ CoreOf tr.log t core)
      fun _ _ => True := by
  rw [ends_bind, ends_mapFailure]
  cases hcore : UnsatCore.ofTrace t tr.log with
  | error => exact trivial
  | ok core =>
      intro core' he
      cases he
      exact ⟨t, ht, coreOf_of_ofTrace hcore⟩

variable [StopCondition σ] (hP : ∀ {t candidate k r}, Continues t candidate k r → P t → P r.1)

include hP

theorem ends_minimiseWith_of_continues (strategy : Strategy RootPool) (hb : backend.Sound J)
    (hJ : J s.1.2) (log : TranslationLog L) (ht : P t) :
    (minimiseWith strategy backend log t : Run L τ β σ Trace).Ends s (fun t' _ => P t')
      fun _ _ => True := by
  unfold minimiseWith
  rw [ends_within, ends_mapNotes]
  exact ends_minimiseCore_of_continues hP strategy hb hJ ht

/-- Minimising keeps what every candidate keeps, whatever the options are. -/
theorem ends_minimise_of_continues (options : SolverOptions) (hb : backend.Sound J) (hJ : J s.1.2)
    (log : TranslationLog L) (ht : P t) :
    (minimise options backend log t : Run L τ β σ Trace).Ends s (fun t' _ => P t')
      fun _ _ => True := by
  unfold minimise
  split
  · exact ends_minimiseWith_of_continues hP _ hb hJ log ht
  · exact ends_minimiseWith_of_continues hP _ hb hJ log ht
  · exact ht

/-- **What the first refutation is like, the one that is told is like**, if every candidate keeps
it.  The back end only has to be sound from then on. -/
theorem ends_translateAndSolve_of_continues (hb : backend.Sound J)
    (hsolve : ∀ stop, (backend.solve tr.cnf).Ends (s.1.2, stop)
      (fun o r => (∀ t, o = .unsatisfiable t → P t) ∧ J r.1) fun _ _ => True)
    {translator : Translator L τ} {p : Problem L}
    (htranslate : (translator.translate p s.1.1).answer = .ok tr) (options : SolverOptions)
    (minimised : Bool) :
    ((translateAndSolve translator backend options).solve p minimised).Ends s
      (fun v _ => ∀ core, v = .unsatisfiable core → ∃ t, P t ∧ CoreOf tr.log t core)
      fun _ _ => True := by
  obtain ⟨⟨τ₀, β₀⟩, stop⟩ := s
  unfold translateAndSolve
  simp only [ends_bind, ends_within, ends_note]
  refine Session.ends_poll.mono (fun _ stop' _ => ?_) fun _ _ _ => trivial
  unfold translate
  rw [ends_within, ends_mapFailure]
  refine (Session.ends_of_answer htranslate).mono (fun tr' τ₁ e => ?_) fun _ _ _ => trivial
  subst e
  unfold decide
  rw [ends_within, ends_mapNotes]
  refine (hsolve stop').mono (fun o r hr => ?_) fun _ _ he => he
  obtain ⟨ht, hJ⟩ := hr
  cases o with
  | satisfiable a => exact fun core he => by cases he
  | unsatisfiable t =>
      rw [ends_bind, ends_note]
      split
      · rw [ends_bind]
        refine (ends_minimise_of_continues hP options hb hJ tr'.log (ht t rfl)).mono
          (fun t' s₂ ht' => ends_ofTrace ht') fun _ _ he => he
      · exact ends_ofTrace (ht t rfl)

end

/-- The core is one of a refutation from clauses of the translation. -/
inductive Blames (tr : Translation L) : Verdict L → Prop
  | satisfiable (m : L.Model) : Blames tr (.satisfiable m)
  | unsatisfiable {t : Trace} {core : UnsatCore L} (isRefutation : t.IsRefutation)
      (isFrom : t.IsFrom tr.cnf) (core_of : CoreOf tr.log t core) :
      Blames tr (.unsatisfiable core)

variable [StopCondition σ]

/-- **A pipeline with a sound back end** only reports cores of refutations. -/
theorem ends_translateAndSolve_of_sound (hb : backend.Sound J) (hJ : J s.1.2)
    {translator : Translator L τ} {p : Problem L}
    (htranslate : (translator.translate p s.1.1).answer = .ok tr) (options : SolverOptions)
    (minimised : Bool) :
    ((translateAndSolve translator backend options).solve p minimised).Ends s
      (fun v _ => Blames tr v) fun _ _ => True := by
  have hsolve : ∀ stop, (backend.solve tr.cnf).Ends (s.1.2, stop)
      (fun o r => (∀ t, o = .unsatisfiable t → t.IsRefutation ∧ t.IsFrom tr.cnf) ∧ J r.1)
      fun _ _ => True := fun stop =>
    (hb tr.cnf s.1.2 stop hJ).mono (fun o r ⟨ho, hJ'⟩ => ⟨fun t e => by subst e; exact ho, hJ'⟩)
      fun _ _ he => he
  refine (ends_translateAndSolve_of_continues (fun {t _ _ r} hcontinues ht => ?_) hb hsolve
    htranslate options minimised).mono (fun v _ hv => ?_) fun _ _ he => he
  · have hreduces := hcontinues.reduces ht.1
    exact ⟨hreduces.isRefutation, hreduces.isFrom ht.2⟩
  · cases v with
    | satisfiable m => exact .satisfiable m
    | unsatisfiable core =>
        obtain ⟨t, ⟨ht, hfrom⟩, hcore⟩ := hv core rfl
        exact .unsatisfiable ht hfrom hcore

/-- **The roots that a core reports suffice.**  Whether the refutation was found by the prover or is
replayed and sound, and however its core was minimised: the problem without the unit clauses over
the roots that are not reported has no model. -/
theorem rootVariables_suffice {translator : Translator L τ} {options : SolverOptions}
    {p : Problem L} {minimised : Bool} {τ₀ : τ} {stop : σ}
    (htranslate : (translator.translate p τ₀).answer = .ok tr) {core : UnsatCore L} :
    (∀ k : Prover.Counters,
      (((translateAndSolve translator Prover.backend options).solve p minimised).run
        ((τ₀, k), stop)).answer = .ok (.unsatisfiable core) →
      ¬ (tr.cnf.withoutUnits (tr.log.rootVars.filter (· ∉ core.rootVariables))).Satisfiable) ∧
    ∀ r : Replay, (∀ t, r.refutation = some t → t.IsRefutation) →
      (((translateAndSolve translator Replay.backend options).solve p minimised).run
        ((τ₀, r), stop)).answer = .ok (.unsatisfiable core) →
      ¬ (tr.cnf.withoutUnits (tr.log.rootVars.filter (· ∉ core.rootVariables))).Satisfiable := by
  have hsuffice : Blames tr (.unsatisfiable core) →
      ¬ (tr.cnf.withoutUnits (tr.log.rootVars.filter (· ∉ core.rootVariables))).Satisfiable := by
    rintro ⟨⟩
    next ht hfrom hcore => exact hcore.not_satisfiable ht hfrom
  refine ⟨fun k h => hsuffice ?_, fun r hr h => hsuffice ?_⟩
  · exact (ends_translateAndSolve_of_sound Prover.sound_backend (s := ((τ₀, k), stop)) trivial
      htranslate options minimised).of_answer h
  · exact (ends_translateAndSolve_of_sound Replay.sound_backend (s := ((τ₀, r), stop)) hr
      htranslate options minimised).of_answer h

/-- The clauses `1`, `-1` and `1`. -/
def threeClauses : Problem Dimacs.logic := ⟨.whole ⟨1, [[1], [-1], [1]], []⟩, ()⟩

/-- Whether the cores of the three clauses name two of them, once with the refutation that the
prover finds, and once with the same refutation replayed. -/
def twoBlamed : Bool :=
  match (Dimacs.translator.translate threeClauses ()).answer,
    (((translateAndSolve Dimacs.translator Prover.backend {}).solve threeClauses true).run
      (((), ({} : Prover.Counters)), Indefinite.indefinite)).answer with
  | .ok tr, .ok (.unsatisfiable core) =>
    match ((Prover.solve tr.cnf).run (({} : Prover.Counters), Indefinite.indefinite)).answer with
    | .ok (.unsatisfiable t) =>
      match (((translateAndSolve Dimacs.translator Replay.backend {}).solve threeClauses true).run
        (((), .ofRefutation (some t)), Indefinite.indefinite)).answer with
      | .ok (.unsatisfiable core') =>
        Decidable.decide (core.rootVariables.length = 2 ∧ core'.rootVariables.length = 2)
      | _ => false
    | _ => false
  | _, _ => false

/-- The core names two of the three clauses, whether the refutation is found or replayed. -/
theorem rootVariables_suffice_three_clauses :
    ∃ tr t core core', (Dimacs.translator.translate threeClauses ()).answer = .ok tr ∧
      (((translateAndSolve Dimacs.translator Prover.backend {}).solve threeClauses true).run
        (((), {}), Indefinite.indefinite)).answer = .ok (.unsatisfiable core) ∧
      core.rootVariables.length = 2 ∧
      ¬ (tr.cnf.withoutUnits (tr.log.rootVars.filter (· ∉ core.rootVariables))).Satisfiable ∧
      t.IsRefutation ∧
      (((translateAndSolve Dimacs.translator Replay.backend {}).solve threeClauses true).run
        (((), .ofRefutation (some t)), Indefinite.indefinite)).answer =
        .ok (.unsatisfiable core') ∧
      core'.rootVariables.length = 2 ∧
      ¬ (tr.cnf.withoutUnits (tr.log.rootVars.filter (· ∉ core'.rootVariables))).Satisfiable := by
  have hrun : twoBlamed = true := by cbv
  unfold twoBlamed at hrun
  split at hrun
  next tr core htr hcore =>
    split at hrun
    next t ht =>
      split at hrun
      next core' hcore' =>
        have href : t.IsRefutation := ((Prover.sound_backend _ _ _ trivial).of_answer ht).1.1
        obtain ⟨hlength, hlength'⟩ := of_decide_eq_true hrun
        refine ⟨tr, t, core, core', htr, hcore, hlength, ?_, href, hcore', hlength', ?_⟩
        · exact (rootVariables_suffice htr).1 {} hcore
        · refine (rootVariables_suffice htr).2 (.ofRefutation (some t)) (fun u hu => ?_) hcore'
          cases hu
          exact href
      next => cases hrun
    next => cases hrun
  next => cases hrun

end Pipeline

/-! ### The solver -/

/-- A solver for first-order problems reports the core of a trace that has the property of the first
refutation, if every candidate keeps it. -/
theorem Solver.exists_coreOf [StopCondition σ] {backend : Backend β σ} {J : β → Prop}
    {P : Trace → Prop}
    (hP : ∀ {t candidate k r}, Continues t candidate k r → P t → P r.1) (hb : backend.Sound J)
    {translator : Translator L τ} {options : SolverOptions} {p : Problem L}
    {s : SolverState Unit τ β σ} {tr : Translation L}
    (htranslate : (translator.translate p s.translator).answer = .ok tr)
    (hsolve : ∀ stop, (backend.solve tr.cnf).Ends (s.backend, stop)
      (fun o r => (∀ t, o = .unsatisfiable t → P t) ∧ J r.1) fun _ _ => True) {core : UnsatCore L}
    (h : ((Solver.firstOrder translator backend options).solveFirstOrder p s).answer =
      .ok (.unsatisfiable core)) : ∃ t, P t ∧ CoreOf tr.log t core := by
  have hends : (Refinement.solve (.firstOrder L)
      (Pipeline.translateAndSolve translator backend options) 0 p).Ends (start s)
      (fun v _ => ∀ core, v = .unsatisfiable core → ∃ t, P t ∧ CoreOf tr.log t core)
      fun _ _ => True :=
    Pipeline.ends_translateAndSolve_of_continues hP hb (s := ((s.translator, s.backend), s.stop))
      hsolve htranslate options true
  exact hends.of_answer ((finish_answer_eq_unsatisfiable_iff _ _).mp h) core rfl

end ModelFinder
