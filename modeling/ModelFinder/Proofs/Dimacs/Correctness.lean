import ModelFinder.Proofs.Dimacs.Core
import ModelFinder.Proofs.Dimacs.Reader

/-!
# Instances are solved

A file that is read and translated is an instance with a verdict: the solver answers with a model
exactly if there is one, whatever its options are, and it never fails unless it is told to stop
(`answer_correct`).  If the file has no annotations and cores are minimised, what it answers
otherwise names clauses of the file that have no model, although any of them can be left out to
have one (`answer_minimal`).
-/

namespace ModelFinder.Dimacs

open StopCondition

variable {β σ : Type} [StopCondition σ]

/-- What the solver answers about an instance, with a back end in some state. -/
def answer (backend : Backend β σ) (options : SolverOptions) (content : AnnotatedCnf) (b : β)
    (stop : σ) : Except Failure (Solution logic) :=
  (((Solver.firstOrder translator backend options).solveFirstOrder ⟨.whole content, ()⟩).run
    ⟨(), (), b, stop⟩).answer

theorem inRange_of_read {bytes : List UInt8} {content : AnnotatedCnf}
    (h : read bytes = .ok content) : content.InRange := natAbs_le_of_read h

/-- The solver answers about every instance that it can translate. -/
theorem exists_answer {backend : Backend β σ} {J : β → Prop} (hb : backend.Reliable J)
    (options : SolverOptions) {content : AnnotatedCnf} (hr : content.InRange)
    {tr : Translation logic} (htranslate : (Encoding.translate content ()).answer = .ok tr) {b : β}
    (hJ : J b) {stop : σ} (hstop : NeverTriggers stop) :
    ∃ v, Pipeline.Judges translator options tr v ∧
      answer backend options content b stop = .ok v.solution :=
  Solver.answer_solveFirstOrder hb options htranslate
    ((Encoding.encodes_of_translate htranslate).traceable hr) hJ hstop

/-- A translation that is refuted has no model. -/
theorem not_satisfiable_of_invariant {tr : Translation logic} {t : Trace}
    (h : Reduction.Invariant tr.setting t) : ¬ tr.cnf.Satisfiable := by
  rintro ⟨f, hf⟩
  refine h.not_satisfies f fun c hc => ?_
  obtain ⟨ls, hls, rfl⟩ := List.mem_map.mp hc
  exact Valuation.satisfies_ofList.mpr (hf ls hls)

/-- **Every instance is solved.**  The solver answers with a model if there is one, and that there
is none otherwise. -/
theorem answer_correct {bytes : List UInt8} {content : AnnotatedCnf}
    (hread : read bytes = .ok content) (hmax : content.numVariables ≤ Variable.maxIndex)
    {tr : Translation logic} (htranslate : (Encoding.translate content ()).answer = .ok tr)
    (options : SolverOptions) {stop : σ} (hstop : NeverTriggers stop) :
    (content.Satisfiable → ∃ model : List Literal, content.IsSolvedBy model ∧
      answer Replay.backend options content (.ofRefutation none) stop = .ok (.satisfiable model)) ∧
    (¬ content.Satisfiable → ∃ core,
      answer Replay.backend options content (.ofRefutation none) stop =
        .ok (.unsatisfiable core)) := by
  have hr := inRange_of_read hread
  have hencodes := Encoding.encodes_of_translate htranslate
  obtain ⟨v, hv, hanswer⟩ := exists_answer Replay.reliable_backend options hr htranslate
    (b := .ofRefutation none) rfl hstop
  have hiff := hencodes.satisfiable_iff hr
  cases hv with
  | satisfiable solves =>
      have hsat := hiff.mp solves.satisfiable
      exact ⟨fun _ => ⟨_, hencodes.isSolvedBy_interpret hr hmax solves, hanswer⟩,
        fun hno => absurd hsat hno⟩
  | unsatisfiable invariant tried core_of =>
      have hunsat := mt hiff.mpr (not_satisfiable_of_invariant invariant)
      exact ⟨fun hsat => absurd hsat hunsat, fun _ => ⟨_, hanswer⟩⟩

/-- The file `p cnf 2 2`, `1 2 0`, `-1 0`, which has a model. -/
theorem answer_correct_two_clauses :
    read [112, 32, 99, 110, 102, 32, 50, 32, 50, 10, 49, 32, 50, 32, 48, 10, 45, 49, 32, 48, 10] =
      .ok ⟨2, [[1, 2], [-1]], []⟩ ∧
    ∃ model : List Literal, AnnotatedCnf.IsSolvedBy ⟨2, [[1, 2], [-1]], []⟩ model ∧
      answer Replay.backend {} ⟨2, [[1, 2], [-1]], []⟩ (.ofRefutation none)
        Indefinite.indefinite = .ok (.satisfiable model) := by
  have hread : read
      [112, 32, 99, 110, 102, 32, 50, 32, 50, 10, 49, 32, 50, 32, 48, 10, 45, 49, 32, 48, 10] =
      .ok ⟨2, [[1, 2], [-1]], []⟩ := rfl
  have hcorrect := answer_correct hread (by decide) rfl {}
    (neverTriggers_indefinite .indefinite)
  refine ⟨hread, hcorrect.1 ⟨fun n => decide (n = 2), fun codes hcodes => ?_⟩⟩
  simp only [List.mem_cons, List.not_mem_nil, or_false] at hcodes
  rcases hcodes with rfl | rfl
  · exact ⟨2, by simp, by simp [Values.Makes]⟩
  · exact ⟨-1, by simp, by simp [Values.Makes]⟩

/-- **Cores are minimal.**  The clauses that a minimised core of an instance without annotations
names have no model, and any of them can be left out to have one. -/
theorem answer_minimal {bytes : List UInt8} {content : AnnotatedCnf}
    (hread : read bytes = .ok content) (hroots : content.roots = []) {tr : Translation logic}
    (htranslate : (Encoding.translate content ()).answer = .ok tr)
    (hunsat : ¬ content.Satisfiable) {options : SolverOptions}
    (hminimised : options.minimisation ≠ .asFound) (k : Prover.Counters) {stop : σ}
    (hstop : NeverTriggers stop) :
    ∃ core positions,
      answer Prover.backend options content k stop = .ok (.unsatisfiable core) ∧
      Reports content core positions ∧ ¬ content.SatisfiableAt positions ∧
      ∀ i ∈ positions, content.SatisfiableAt (positions.filter (· ≠ i)) := by
  have hr := inRange_of_read hread
  have hencodes := Encoding.encodes_of_translate htranslate
  obtain ⟨v, hv, hanswer⟩ :=
    exists_answer Prover.reliable_backend options hr htranslate (b := k) trivial hstop
  have hiff := hencodes.satisfiable_iff hr
  cases hv with
  | satisfiable solves => exact absurd (hiff.mp solves.satisfiable) hunsat
  | @unsatisfiable t core invariant tried core_of =>
      cases hencodes with
      | annotated has_roots => exact absurd hroots has_roots
      | @guarded gs _ guards =>
          refine ⟨core, _, hanswer, guards.reports core_of, guards.not_satisfiableAt hr invariant,
            fun i hi => ?_⟩
          -- the pool is empty in the end, so the root of the clause is necessary
          obtain ⟨g, hg, rfl⟩ := List.mem_map.mp hi
          obtain ⟨hmem, hunit⟩ := Encoding.mem_assertedBy.mp hg
          rcases tried hminimised g.selector (guards.mem_roots hmem) hunit with hpool | hnec
          · exact absurd hpool List.not_mem_nil
          · exact guards.satisfiableAt_of_necessary hr hnec

/-- The file `p cnf 1 2`, `1 0`, `-1 0`, which has no model. -/
theorem answer_minimal_contradiction :
    read [112, 32, 99, 110, 102, 32, 49, 32, 50, 10, 49, 32, 48, 10, 45, 49, 32, 48, 10] =
      .ok ⟨1, [[1], [-1]], []⟩ ∧
    ∃ core positions, answer Prover.backend {} ⟨1, [[1], [-1]], []⟩ {} Indefinite.indefinite =
        .ok (.unsatisfiable core) ∧
      Reports ⟨1, [[1], [-1]], []⟩ core positions ∧
      ¬ AnnotatedCnf.SatisfiableAt ⟨1, [[1], [-1]], []⟩ positions ∧
      ∀ i ∈ positions,
        AnnotatedCnf.SatisfiableAt ⟨1, [[1], [-1]], []⟩ (positions.filter (· ≠ i)) := by
  have hread : read
      [112, 32, 99, 110, 102, 32, 49, 32, 50, 10, 49, 32, 48, 10, 45, 49, 32, 48, 10] =
      .ok ⟨1, [[1], [-1]], []⟩ := rfl
  refine ⟨hread, answer_minimal hread rfl rfl ?_ (by decide) {}
    (neverTriggers_indefinite .indefinite)⟩
  rintro ⟨β, hβ⟩
  obtain ⟨code, hcode, htrue⟩ := hβ [1] (by simp)
  obtain ⟨code', hcode', hfalse⟩ := hβ [-1] (by simp)
  obtain rfl := List.mem_singleton.mp hcode
  obtain rfl := List.mem_singleton.mp hcode'
  exact absurd (Eq.trans (Eq.symm htrue) hfalse) (by decide)

end ModelFinder.Dimacs
