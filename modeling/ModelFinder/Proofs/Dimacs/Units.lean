import Mathlib
import ModelFinder.Proofs.Dimacs.Independence
import ModelFinder.Proofs.Dimacs.Necessity
import ModelFinder.Proofs.Pipeline.Sufficiency
import ModelFinder.Proofs.Reduction.Draining

/-!
# Unit clauses of roots

The translation of an annotated instance remarks on the roots that no clause of the file asserts, as
roots which will never be part of a core (`Encoding.mem_notes_translate`).  It looks for the clause
of the root alone.  What makes a root part of a core is a unit clause of the refutation, and that may
stand in the file in other ways: as the negation of the root, or as a literal that is repeated
(`IsUnitOver`).

* `Encoding.exists_isUnitOver`: a root of a core has such a clause in the file, wherever the
  refutation comes from.
* `answer_roots_have_units`: a root without one is remarked on, and it is never reported.
* `exists_answer_negated_root`: a root that is remarked on and is reported all the same.
-/

namespace ModelFinder

open Session Reduction

namespace Dimacs

/-- A clause of copies of one literal over the variable with this number. -/
def IsUnitOver (codes : List Int) (n : Nat) : Prop :=
  ∃ code ∈ codes, code.natAbs = n ∧ ∀ code' ∈ codes, code' = code

instance (codes : List Int) (n : Nat) : Decidable (IsUnitOver codes n) :=
  inferInstanceAs (Decidable (∃ code ∈ codes, code.natAbs = n ∧ ∀ code' ∈ codes, code' = code))

namespace Encoding

variable {content : AnnotatedCnf} {tr : Translation logic} {t : Trace}

/-! ### Remarks -/

theorem isAsserted_iff {cs : List (List Int)} {root : RootAnnotation} :
    isAsserted cs root = true ↔ [(root.var : Int)] ∈ cs := by
  simp [isAsserted]

theorem mem_notes_annotated {cs : List (List Int)} {root : RootAnnotation} {v : Variable} :
    Note.remark (.rootNotAsserted v) ∈ ((annotated cs root) ()).notes ↔
      v.index = root.var ∧ [(root.var : Int)] ∉ cs := by
  rw [← isAsserted_iff, ← Variable.ofIndex?_eq_some_iff]
  unfold annotated
  cases hv : Variable.ofIndex? root.var with
  | none => simp [Session.fail]
  | some w =>
      cases hasserted : isAsserted cs root with
      | true => simp [pure]
      | false =>
          show _ ∈ [Note.remark (.rootNotAsserted w)] ↔ _
          simp [eq_comm]

/-- **The translation remarks on the roots that no clause asserts.** -/
theorem mem_notes_translate (hroots : content.roots ≠ [])
    (htranslate : (translate content ()).answer = .ok tr) {v : Variable} :
    Note.remark (.rootNotAsserted v) ∈ (translate content ()).notes ↔
      ∃ root ∈ content.roots, v.index = root.var ∧ [(root.var : Int)] ∉ content.clauses := by
  rw [answer_translate_annotated hroots] at htranslate
  obtain ⟨clauses, hclauses, h⟩ := bind_eq_ok.mp htranslate
  obtain ⟨records, hrecords, -⟩ := bind_eq_ok.mp h
  rw [← answer_mapM] at hrecords
  -- the only other note is the milestone at the start
  have hnotes : (translate content ()).notes = Note.milestone .translatingToCnf ::
      ((content.roots.mapM (annotated content.clauses)) ()).notes := by
    unfold translate
    simp only [List.isEmpty_iff, if_neg hroots]
    rw [notes_bind rfl, notes_bind hclauses, notes_bind hrecords]
    exact congrArg (List.cons _) (List.append_nil _)
  simp only [hnotes, List.mem_cons, reduceCtorEq, false_or, mem_notes_mapM hrecords,
    mem_notes_annotated]

/-! ### Cores -/

/-- **A root of a core has a unit clause in the file**, wherever the refutation comes from. -/
theorem exists_isUnitOver
    (hcodes : tr.cnf.clauses.map (·.map (·.toDimacs)) = content.clauses) (hfrom : t.IsFrom tr.cnf)
    {core : UnsatCore logic} (hcore : CoreOf tr.log t core) {v : Variable}
    (hv : v ∈ core.rootVariables) : ∃ codes ∈ content.clauses, IsUnitOver codes v.index := by
  rw [hcore.rootVariables_eq, List.mem_filter, IndexSet.contains_eq_true, ← Trace.asserts_iff] at hv
  obtain ⟨-, i, hi, c, s, hc, hliterals⟩ := hv
  obtain ⟨ls, hls, he⟩ := hfrom c (Trace.mem_inputs_iff.mpr ⟨i, (Trace.mem_core.mp hi).2, hc⟩)
  -- the clause of the file has the literal of the unit clause, as often as it likes
  have hmem : ∀ l, l ∈ ls ↔ l = ⟨v, s⟩ := fun l => by
    rw [← Clause.mem_ofList, ← he, Clause.mem_def, hliterals, List.mem_singleton]
  refine ⟨ls.map (·.toDimacs), hcodes ▸ List.mem_map_of_mem hls, (⟨v, s⟩ : Literal).toDimacs,
    List.mem_map_of_mem ((hmem _).mpr rfl), Literal.natAbs_toDimacs _, fun code hcode => ?_⟩
  obtain ⟨l, hl, rfl⟩ := List.mem_map.mp hcode
  rw [(hmem l).mp hl]

end Encoding

/-! ### Answers -/

variable {σ : Type} [StopCondition σ]

/-- **Roots without a unit clause are never reported.**  If no clause of an annotated instance
consists of copies of one literal over a root, the translation remarks on the root, and no core has
it: whatever the options are and whenever the stop condition triggers, and whether the refutation is
found by the prover or is replayed.  What is replayed need not be sound, but only well-formed, as
every imported trace is (`Trace.exchangeable_of_ofSteps`). -/
theorem answer_roots_have_units {content : AnnotatedCnf} {tr : Translation logic}
    (htranslate : (Encoding.translate content ()).answer = .ok tr) {root : RootAnnotation}
    (hroot : root ∈ content.roots)
    (hunit : ∀ codes ∈ content.clauses, ¬ IsUnitOver codes root.var) (options : SolverOptions)
    (stop : σ) :
    ∃ v : Variable, v.index = root.var ∧
      Note.remark (.rootNotAsserted v) ∈ (Encoding.translate content ()).notes ∧
      (∀ (k : Prover.Counters) (core : UnsatCore logic),
        answer Prover.backend options content k stop = .ok (.unsatisfiable core) →
          v ∉ core.rootVariables) ∧
      ∀ (r : Replay) (core : UnsatCore logic), (∀ t, r.refutation = some t → t.WellFormed) →
        answer Replay.backend options content r stop = .ok (.unsatisfiable core) →
          v ∉ core.rootVariables := by
  have hroots := List.ne_nil_of_mem hroot
  have hclauses := Encoding.clauses_of_translate hroots htranslate
  obtain ⟨-, hrepresentable⟩ := (Encoding.exists_translate_iff hroots).mp ⟨tr, htranslate⟩
  obtain ⟨hone, hmax⟩ := hrepresentable.roots root hroot
  let v : Variable := ⟨root.var, hone, hmax⟩
  -- what is told of a refutation from clauses of the file
  have hcores : ∀ core : UnsatCore logic,
      (∃ t, (t.WellFormed ∧ t.IsFrom tr.cnf) ∧ CoreOf tr.log t core) → v ∉ core.rootVariables := by
    rintro core ⟨t, ⟨-, hfrom⟩, hcore⟩ hmem
    obtain ⟨codes, hcodes, hover⟩ := Encoding.exists_isUnitOver hclauses hfrom hcore hmem
    exact hunit codes hcodes hover
  refine ⟨v, rfl, ?_, fun k core h => hcores core ?_, fun r core hr h => hcores core ?_⟩
  · refine (Encoding.mem_notes_translate hroots htranslate).mpr ⟨root, hroot, rfl, fun hmem => ?_⟩
    exact hunit _ hmem ⟨root.var, List.mem_singleton_self _, Int.natAbs_natCast _, fun code hcode =>
      List.mem_singleton.mp hcode⟩
  · refine Solver.exists_coreOf (fun hcontinues => hcontinues.isFrom) Prover.sound_backend
      htranslate (fun stop => ?_) h
    refine (Prover.sound_backend tr.cnf k stop trivial).mono
      (fun o s ho => ⟨fun t e => ?_, ho.2⟩) fun _ _ he => he
    subst e
    exact ⟨ho.1.1.wellFormed, ho.1.2⟩
  · refine Solver.exists_coreOf (fun hcontinues => hcontinues.isFrom) Replay.sound_backend
      htranslate (fun stop => ?_) h
    exact Replay.ends_solve_wellFormed hr tr.cnf stop

/-- Two roots, of which 2 is asserted, and 3 is only defined. -/
def oneAsserted : AnnotatedCnf := ⟨3, [[2], [-2, 1], [-1], [-3, 1]], [⟨2, none⟩, ⟨3, none⟩]⟩

/-- A refutation of them that does not come from the prover. -/
def oneAssertedTrace : Trace :=
  ⟨([[2], [-2, 1], [-1], [-3, 1]].mapIdx fun i codes =>
    (⟨i, .ofList (codes.filterMap Literal.ofDimacs?), []⟩ : TraceClause)).toArray.push
    ⟨4, .empty, [0, 1, 2]⟩, 4⟩

/-- The root 3 is not reported, whether the refutation is found or replayed. -/
theorem answer_roots_have_units_two_roots :
    (∀ codes ∈ oneAsserted.clauses, ¬ IsUnitOver codes 3) ∧ oneAssertedTrace.WellFormed ∧
    ∃ tr v core core', (Encoding.translate oneAsserted ()).answer = .ok tr ∧ v.index = 3 ∧
      Note.remark (.rootNotAsserted v) ∈ (Encoding.translate oneAsserted ()).notes ∧
      answer Prover.backend {} oneAsserted {} Indefinite.indefinite = .ok (.unsatisfiable core) ∧
      core.rootVariables.map (·.index) = [2] ∧ v ∉ core.rootVariables ∧
      answer Replay.backend {} oneAsserted (.ofRefutation (some oneAssertedTrace))
        Indefinite.indefinite = .ok (.unsatisfiable core') ∧
      core'.rootVariables.map (·.index) = [2] ∧ v ∉ core'.rootVariables := by
  have hunit : ∀ codes ∈ oneAsserted.clauses, ¬ IsUnitOver codes 3 := by decide
  have hwf : oneAssertedTrace.WellFormed := by decide
  have hfound : reported (answer Prover.backend {} oneAsserted {} Indefinite.indefinite) =
      some [2] := by cbv
  have hreplayed : reported (answer Replay.backend {} oneAsserted
      (.ofRefutation (some oneAssertedTrace)) Indefinite.indefinite) = some [2] := by cbv
  obtain ⟨core, hcore, hindices⟩ := exists_core_of_reported hfound
  obtain ⟨core', hcore', hindices'⟩ := exists_core_of_reported hreplayed
  have htranslate : (Encoding.translate oneAsserted ()).answer = .ok _ := rfl
  have hroot : (⟨3, none⟩ : RootAnnotation) ∈ oneAsserted.roots := by decide
  obtain ⟨v, hv, hremark, hprover, hreplay⟩ :=
    answer_roots_have_units htranslate hroot hunit {} Indefinite.indefinite
  refine ⟨hunit, hwf, _, v, core, core', htranslate, hv, hremark, hcore, hindices,
    hprover {} core hcore, hcore', hindices', hreplay _ core' (fun t ht => ?_) hcore'⟩
  cases ht
  exact hwf

/-- The root 2, of which only the negation has a clause of its own. -/
def onlyNegated : AnnotatedCnf := ⟨2, [[-2], [2, 1], [-1]], [⟨2, none⟩]⟩

/-- A root that no clause asserts is remarked on, and is reported all the same. -/
theorem exists_answer_negated_root :
    read ("p cnf 2 3\nc root 2\n-2 0\n2 1 0\n-1 0\n".toList.map (·.toNat.toUInt8)) =
      .ok onlyNegated ∧ [2] ∉ onlyNegated.clauses ∧
    ∃ v core, v.index = 2 ∧
      Note.remark (.rootNotAsserted v) ∈ (Encoding.translate onlyNegated ()).notes ∧
      answer Replay.backend {} onlyNegated (.ofRefutation none) Indefinite.indefinite =
        .ok (.unsatisfiable core) ∧ v ∈ core.rootVariables := by
  have hrun : reported (answer Replay.backend {} onlyNegated (.ofRefutation none)
      Indefinite.indefinite) = some [2] := by cbv
  obtain ⟨core, hcore, hindices⟩ := exists_core_of_reported hrun
  have hmem : 2 ∈ core.rootVariables.map (·.index) := hindices ▸ List.mem_singleton_self 2
  obtain ⟨v, hv, hindex⟩ := List.mem_map.mp hmem
  have hremark : Note.remark (.rootNotAsserted v) ∈ (Encoding.translate onlyNegated ()).notes :=
    (Encoding.mem_notes_translate (by decide) rfl).mpr ⟨⟨2, none⟩, by decide, hindex, by decide⟩
  exact ⟨rfl, by decide, v, core, hindex, hremark, hcore, hv⟩

end Dimacs

end ModelFinder
