import ModelFinder.Proofs.Attempts
import ModelFinder.Proofs.Reduction.Run
import ModelFinder.Solver

/-!
# From a translation to a verdict

A translation is sound for cores when its roots occur in clauses only as the largest variable, and
each root record of its log comes first among the records of its variable
(`Translation.Traceable`).  A pipeline with a reliable back end then answers every problem that it
can translate: with an interpreted model of the translation, or with the core of a refutation of it
(`Pipeline.Judges`).

* `ofTrace_eq_ok`: the roots that a refutation depends on are always found in the log.
* `ends_minimise`: minimising keeps the invariant of reductions, and makes each root necessary.
* `ends_translateAndSolve`, `answer_solveFirstOrder`: what the pipeline answers, and the solver.
-/

namespace ModelFinder

open Session StopCondition Reduction

variable {L : Logic} {τ β σ : Type}

/-- A session whose answer is known. -/
theorem Session.ends_of_answer {ν ε α : Type} {x : Session ν ε σ α} {s : σ} {a : α}
    (h : (x s).answer = .ok a) : x.Ends s (fun b _ => b = a) fun _ _ => False := by
  unfold Ends
  rw [h]

/-! ### The roots of a translation -/

/-- The clauses and the roots of a translation. -/
def Translation.setting (tr : Translation L) : Setting :=
  ⟨tr.cnf.clauses.map .ofList, tr.log.rootVars⟩

/-- Every record is that of a root, and roots are the largest variables of their clauses. -/
structure Translation.Traceable (tr : Translation L) : Prop where
  rootsLargest : tr.setting.RootsLargest
  isRoot : ∀ r ∈ tr.log.records, ∃ f, r.origin = .root f

theorem TranslationLog.mem_distinct {v : Variable} {vs : List Variable} :
    v ∈ distinct vs ↔ v ∈ vs := by
  induction vs with
  | nil => exact Iff.rfl
  | cons w vs ih =>
      unfold distinct
      rw [List.mem_cons, List.mem_cons, List.mem_filter, ih]
      by_cases h : v = w
      · simp [h]
      · simp [h]

theorem TranslationLog.distinct_eq_self {vs : List Variable} (h : vs.Nodup) : distinct vs = vs := by
  induction vs with
  | nil => rfl
  | cons v vs ih =>
      obtain ⟨hv, hvs⟩ := List.nodup_cons.mp h
      rw [distinct, ih hvs, List.filter_eq_self.mpr]
      intro w hw
      exact decide_eq_true fun e => hv (e ▸ hw)

/-- If all records are those of roots, the roots are their variables. -/
theorem TranslationLog.rootVars_eq_distinct {log : TranslationLog L}
    (h : ∀ r ∈ log.records, ∃ f, r.origin = .root f) :
    log.rootVars = distinct (log.records.map (·.var)) := by
  revert h
  refine fun h => congrArg distinct ?_
  generalize log.records = records at h
  induction records with
  | nil => rfl
  | cons r records ih =>
      obtain ⟨f, hf⟩ := h r List.mem_cons_self
      rw [List.filterMap_cons, hf, List.map_cons, ih fun d hd => h d (List.mem_cons_of_mem r hd)]

/-- A root variable has a record, and the first one tells its formula. -/
theorem TranslationLog.exists_rootFormula {log : TranslationLog L}
    (h : ∀ r ∈ log.records, ∃ f, r.origin = .root f) {v : Variable} (hv : v ∈ log.rootVars) :
    ∃ f, log.rootFormula? v = some f := by
  rw [rootVars_eq_distinct h, mem_distinct] at hv
  obtain ⟨r, hr, hvar⟩ := List.mem_map.mp hv
  have hsome : (log.records.find? fun r => decide (r.var = v)).isSome = true := by
    rw [List.find?_isSome]
    exact ⟨r, hr, decide_eq_true hvar⟩
  obtain ⟨d, hd⟩ := Option.isSome_iff_exists.mp hsome
  obtain ⟨g, hg⟩ := h d (List.mem_of_find?_eq_some hd)
  exact ⟨g, by simp [rootFormula?, origin?_eq_find?, hd, hg]⟩

/-- The core of a refutation: the roots that it asserts, and their formulas. -/
structure CoreOf (log : TranslationLog L) (t : Trace) (core : UnsatCore L) : Prop where
  rootVariables_eq : core.rootVariables = log.rootVars.filter fun v => t.coreUnits.contains v.index
  roots_eq : core.roots.map some = core.rootVariables.map log.rootFormula?

/-- **No origin is in conflict**: the core of a refutation can be told. -/
theorem ofTrace_eq_ok {log : TranslationLog L} (h : ∀ r ∈ log.records, ∃ f, r.origin = .root f)
    (t : Trace) : ∃ core, UnsatCore.ofTrace t log = .ok core ∧ CoreOf log t core := by
  have hfound : ∀ v ∈ log.rootVars.filter fun v => t.coreUnits.contains v.index,
      ∃ f, log.rootFormula? v = some f := fun v hv =>
    TranslationLog.exists_rootFormula h (List.mem_filter.mp hv).1
  obtain ⟨roots, hroots⟩ := exists_map_some hfound
  refine ⟨⟨t, _, roots⟩, bind_eq_ok.mpr ⟨roots, ?_, rfl⟩, rfl, hroots⟩
  refine (mapM_eq_ok_iff_map_some fun v f => ?_).mpr hroots.symm
  cases log.rootFormula? v <;> simp

/-! ### The pipeline -/

namespace Pipeline

variable [StopCondition σ] {J : β → Prop} {s : (τ × β) × σ}

/-- The back end is in a state in which it is reliable, and the stop condition never triggers. -/
def Ready (J : β → Prop) (s : (τ × β) × σ) : Prop := J s.1.2 ∧ NeverTriggers s.2

theorem ends_decide {backend : Backend β σ} (hb : backend.Reliable J) (hs : Ready J s)
    (cnf : Cnf) : (decide backend cnf : Run L τ β σ SatOutcome).Ends s
      (fun o s' => Prover.Decides cnf o ∧ Ready J s') fun _ _ => False := by
  unfold decide
  rw [ends_within, ends_mapNotes]
  exact (hb cnf s.1.2 s.2 hs.1 hs.2).mono (fun _ _ h => h) fun _ _ he => he

theorem ends_minimiseWith {strategy : Strategy RootPool} {backend : Backend β σ}
    (hk : strategy.TriesRoots) (hb : backend.Reliable J) (hs : Ready J s) {tr : Translation L}
    (htr : tr.Traceable) {t : Trace} (hinv : Invariant tr.setting t) :
    (minimiseWith strategy backend tr.log t : Run L τ β σ Trace).Ends s
      (fun t' _ => Invariant tr.setting t' ∧ Tried tr.setting t' []) fun _ _ => False := by
  unfold minimiseWith
  rw [ends_within, ends_mapNotes]
  exact (ends_minimiseCore (J := J) hk hb htr.rootsLargest ⟨hs.1, hs.2⟩ hinv rfl).mono
    (fun t' _ ht' => ⟨ht'.1, ht'.2.1⟩) fun _ _ he => he

/-- Minimising keeps the invariant, and in the end each root is necessary. -/
theorem ends_minimise {backend : Backend β σ} (hb : backend.Reliable J) (hs : Ready J s)
    {tr : Translation L} (htr : tr.Traceable) (options : SolverOptions) {t : Trace}
    (hinv : Invariant tr.setting t) :
    (minimise options backend tr.log t : Run L τ β σ Trace).Ends s
      (fun t' _ => Invariant tr.setting t' ∧
        (options.minimisation ≠ .asFound → Tried tr.setting t' [])) fun _ _ => False := by
  obtain ⟨minimisation, distance⟩ := options
  cases minimisation with
  | recycling =>
      refine (ends_minimiseWith (Strategy.scans_recycling distance).triesRoots hb hs htr hinv).mono
        (fun t' _ ht' => ⟨ht'.1, fun _ => ht'.2⟩) fun _ _ he => he
  | naive =>
      refine (ends_minimiseWith Strategy.scans_naive.triesRoots hb hs htr hinv).mono
        (fun t' _ ht' => ⟨ht'.1, fun _ => ht'.2⟩) fun _ _ he => he
  | asFound => exact ⟨hinv, fun h => absurd rfl h⟩

/-- The verdict that a translation allows: an interpreted model of it, or the core of a refutation,
which is minimal if it has been minimised. -/
inductive Judges (translator : Translator L τ) (options : SolverOptions) (tr : Translation L) :
    Verdict L → Prop
  | satisfiable {a : Assignment} (solves : Prover.Solves tr.cnf a) :
      Judges translator options tr (.satisfiable (translator.interpret tr a))
  | unsatisfiable {t : Trace} {core : UnsatCore L} (invariant : Invariant tr.setting t)
      (tried : options.minimisation ≠ .asFound → Tried tr.setting t [])
      (core_of : CoreOf tr.log t core) : Judges translator options tr (.unsatisfiable core)

/-- **The pipeline judges every problem that it can translate.** -/
theorem ends_translateAndSolve {backend : Backend β σ} (hb : backend.Reliable J) (hs : Ready J s)
    {translator : Translator L τ} {p : Problem L} {tr : Translation L}
    (htranslate : (translator.translate p s.1.1).answer = .ok tr) (htr : tr.Traceable)
    (options : SolverOptions) :
    ((translateAndSolve translator backend options).solve p true).Ends s
      (fun v _ => Judges translator options tr v) fun _ _ => False := by
  obtain ⟨⟨τ₀, β₀⟩, stop⟩ := s
  unfold translateAndSolve
  simp only [ends_bind, ends_within, ends_note]
  refine Session.ends_poll.mono (fun _ stop' hstop => ?_) fun _ _ he => he.2 hs.2
  subst hstop
  unfold translate
  rw [ends_within, ends_mapFailure]
  refine (Session.ends_of_answer htranslate).mono (fun tr' τ₁ e => ?_) fun _ _ he => he
  subst e
  have hready : Ready J ((τ₁, β₀), (StopCondition.poll stop).2) := ⟨hs.1, hs.2.poll⟩
  refine (ends_decide hb hready tr'.cnf).mono (fun o s' ho => ?_) fun _ _ he => he
  obtain ⟨ho, hs'⟩ := ho
  cases o with
  | satisfiable a => exact .satisfiable ho
  | unsatisfiable t =>
      simp only [ends_bind, ends_note, if_true]
      refine (ends_minimise hb hs' htr options (invariant_of_refutes ho)).mono
        (fun t' _ ht' => ?_) fun _ _ he => he
      obtain ⟨core, hcore, hof⟩ := ofTrace_eq_ok htr.isRoot t'
      rw [ends_mapFailure, hcore]
      exact .unsatisfiable ht'.1 ht'.2 hof

end Pipeline

/-! ### The solver -/

/-- The solution that says what a verdict says. -/
def Verdict.solution : Verdict L → Solution L
  | satisfiable m => .satisfiable m
  | unsatisfiable core => .unsatisfiable core

/-- **A solver for first-order problems answers**: the verdict of its pipeline is its solution. -/
theorem Solver.answer_solveFirstOrder [StopCondition σ] {J : β → Prop} {backend : Backend β σ}
    (hb : backend.Reliable J) {translator : Translator L τ} (options : SolverOptions)
    {p : Problem L} {s : SolverState Unit τ β σ} {tr : Translation L}
    (htranslate : (translator.translate p s.translator).answer = .ok tr) (htr : tr.Traceable)
    (hJ : J s.backend) (hstop : NeverTriggers s.stop) :
    ∃ v, Pipeline.Judges translator options tr v ∧
      ((Solver.firstOrder translator backend options).solveFirstOrder p s).answer =
        .ok v.solution := by
  have hs : Pipeline.Ready J ((s.translator, s.backend), s.stop) := ⟨hJ, hstop⟩
  let pipeline := Pipeline.translateAndSolve translator backend options
  have hsolve : (Refinement.solve (.firstOrder L) pipeline 0 p).Ends
      ⟨s.oracle, (s.translator, s.backend), s.stop, {}⟩
      (fun v _ => Pipeline.Judges translator options tr v) fun _ _ => False :=
    Pipeline.ends_translateAndSolve hb hs htranslate htr options
  obtain ⟨v, hv, hj⟩ := hsolve.exists_answer
  refine ⟨v, hj, ?_⟩
  show (conclude (Refinement.solve (.firstOrder L) pipeline 0 p _).answer _).answer = _
  rw [hv]
  cases v <;> rfl

end ModelFinder
