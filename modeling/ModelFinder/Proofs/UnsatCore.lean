import ModelFinder.Proofs.Pipeline.Sufficiency
import ModelFinder.Proofs.Reduction.Draining
import ModelFinder.Proofs.Trace.Ancestry

/-!
# Roots and what they stand for

A core is told in two ways: its variables are the roots of the log, in the order of their first
root record, and its constraints are what the first record of each variable says, of whatever kind
it is.  The two need not agree.  A variable that was first recorded as a declaration is a root all
the same, but has no constraint, and then there is no core.

* `TranslationLog.rootFormula?_eq_some_iff`: the constraint of a variable is in its first record.
* `asserts_iff_reliesOn`: the core asserts the variables of the unit clauses that the terminal
  clause is derived from.
* `UnsatCore.ofTrace_eq_ok_iff`, `UnsatCore.ofTrace_eq_error_iff`: when there is a core, and which
  variable is to blame if there is none.
-/

namespace ModelFinder

open Relation (ReflTransGen reflTransGen_iff_eq_or_transGen)

variable {L : Logic} {t : Trace} {log : TranslationLog L} {records : List (TranslationRecord L)}
  {v : Variable} {o : Origin L} {f : L.Formula}

/-! ### First records -/

/-- The first of the records of the variable says that it stands for this. -/
def IsFirstRecord (records : List (TranslationRecord L)) (v : Variable) (o : Origin L) : Prop :=
  ∃ before after, records = before ++ ⟨v, o⟩ :: after ∧ ∀ r ∈ before, r.var ≠ v

namespace TranslationLog

theorem origin?_eq_some_iff : log.origin? v = some o ↔ IsFirstRecord log.records v o := by
  rw [origin?_eq_find?, Option.map_eq_some_iff]
  constructor
  · rintro ⟨r, hr, rfl⟩
    obtain ⟨hv, before, after, heq, hbefore⟩ := List.find?_eq_some_iff_append.mp hr
    obtain rfl := of_decide_eq_true hv
    exact ⟨before, after, heq, fun d hd => by simpa using hbefore d hd⟩
  · rintro ⟨before, after, heq, hbefore⟩
    refine ⟨⟨v, o⟩, List.find?_eq_some_iff_append.mpr ⟨decide_eq_true rfl, before, after, heq, ?_⟩,
      rfl⟩
    exact fun d hd => by simpa using hbefore d hd

/-- **The first record tells the constraint of a variable.** -/
theorem rootFormula?_eq_some_iff :
    log.rootFormula? v = some f ↔ IsFirstRecord log.records v (.root f) := by
  rw [← origin?_eq_some_iff]
  unfold rootFormula?
  cases log.origin? v with
  | none => simp
  | some o => cases o <;> simp

theorem mem_rootVars_iff : v ∈ log.rootVars ↔ ∃ f, ⟨v, .root f⟩ ∈ log.records := by
  rw [mem_rootVars]
  constructor
  · rintro ⟨⟨w, o⟩, hr, hroot⟩
    cases o with
    | declaration d => cases hroot
    | root f =>
        obtain rfl : w = v := of_decide_eq_true hroot
        exact ⟨f, hr⟩
  · rintro ⟨f, hr⟩
    exact ⟨_, hr, decide_eq_true rfl⟩

/-- A root has no constraint exactly if it was first recorded as a declaration. -/
theorem rootFormula?_eq_none_iff (hv : v ∈ log.rootVars) :
    log.rootFormula? v = none ↔ ∃ d, IsFirstRecord log.records v (.declaration d) := by
  obtain ⟨f, hf⟩ := mem_rootVars_iff.mp hv
  have hsome : (log.records.find? fun r => decide (r.var = v)).isSome = true :=
    List.find?_isSome.mpr ⟨_, hf, decide_eq_true rfl⟩
  obtain ⟨r, hr⟩ := Option.isSome_iff_exists.mp hsome
  have horigin : log.origin? v = some r.origin := by rw [origin?_eq_find?, hr]; rfl
  simp only [← origin?_eq_some_iff, rootFormula?, horigin]
  cases r.origin <;> simp

end TranslationLog

/-! ### What a refutation relies on -/

/-- The terminal clause is derived from an input clause of one literal, which is over the
variable. -/
def Trace.ReliesOn (t : Trace) (v : Variable) : Prop :=
  ∃ i c s, i < t.numAxioms ∧ t.get? i = some c ∧ c.clause.literals = [⟨v, s⟩] ∧
    t.Ancestor i t.terminal

/-- The core asserts the variables that the refutation relies on. -/
theorem Trace.asserts_iff_reliesOn (ht : t.WellFormed) (hends : t.EndsEmpty) :
    t.Asserts v ↔ t.ReliesOn v := by
  have hcore {i : Nat} :
      i ∈ t.core ↔ (i = t.terminal ∨ t.Ancestor i t.terminal) ∧ i < t.numAxioms := by
    rw [mem_core, mem_backwardReachable_iff ht]
    simp only [IndexSet.mem_ofList, List.mem_singleton, exists_eq_left,
      reflTransGen_iff_eq_or_transGen]
    rw [eq_comm]
    exact Iff.rfl
  constructor
  · rintro ⟨i, hi, c, s, hc, hliterals⟩
    obtain ⟨rfl | hancestor, hlt⟩ := hcore.mp hi
    · -- the terminal clause is empty
      obtain ⟨d, hd, hempty⟩ := hends
      obtain rfl := Option.some.inj (hc.symm.trans hd)
      rw [hempty] at hliterals
      cases hliterals
    · exact ⟨i, c, s, hlt, hc, hliterals, hancestor⟩
  · rintro ⟨i, c, s, hlt, hc, hliterals, hancestor⟩
    exact ⟨i, hcore.mpr ⟨.inr hancestor, hlt⟩, c, s, hc, hliterals⟩

/-! ### The core -/

namespace UnsatCore

/-- The roots that a core has to name. -/
def involved (t : Trace) (log : TranslationLog L) : List Variable :=
  log.rootVars.filter fun v => t.coreUnits.contains v.index

theorem mem_involved (ht : t.WellFormed) (hends : t.EndsEmpty) :
    v ∈ involved t log ↔ (∃ f, ⟨v, .root f⟩ ∈ log.records) ∧ t.ReliesOn v := by
  rw [involved, List.mem_filter, IndexSet.contains_eq_true, TranslationLog.mem_rootVars_iff,
    ← Trace.asserts_iff, Trace.asserts_iff_reliesOn ht hends]

theorem mem_rootVars_of_mem_involved (hv : v ∈ involved t log) : v ∈ log.rootVars :=
  (List.mem_filter.mp hv).1

/-- The constraint of a root, or the complaint that there is none. -/
def constraintOf (log : TranslationLog L) (v : Variable) : Except Violation L.Formula :=
  match log.rootFormula? v with
  | some f => .ok f
  | none => .error (.conflictingOrigin v)

theorem constraintOf_eq_ok_iff :
    constraintOf log v = .ok f ↔ IsFirstRecord log.records v (.root f) := by
  rw [← TranslationLog.rootFormula?_eq_some_iff]
  unfold constraintOf
  cases log.rootFormula? v <;> simp

theorem constraintOf_eq_error_iff (hv : v ∈ log.rootVars) {e : Violation} :
    constraintOf log v = .error e ↔
      e = .conflictingOrigin v ∧ ∃ d, IsFirstRecord log.records v (.declaration d) := by
  rw [← TranslationLog.rootFormula?_eq_none_iff hv]
  unfold constraintOf
  cases log.rootFormula? v <;> simp [eq_comm]

theorem ofTrace_eq : ofTrace t log =
    (involved t log).mapM (constraintOf log) >>= fun roots => .ok ⟨t, involved t log, roots⟩ := rfl

/-- There is a core exactly if each of its roots was first recorded as one. -/
theorem ofTrace_eq_ok_iff {core : UnsatCore L} : ofTrace t log = .ok core ↔
    core.trace = t ∧ core.rootVariables = involved t log ∧
      List.Forall₂ (fun v f => IsFirstRecord log.records v (.root f)) (involved t log)
        core.roots := by
  have hroots {roots : List L.Formula} : (involved t log).mapM (constraintOf log) = .ok roots ↔
      List.Forall₂ (fun v f => IsFirstRecord log.records v (.root f)) (involved t log) roots := by
    rw [mapM_eq_ok, ← List.forall₂_eq_eq_eq, List.forall₂_map_left_iff, List.forall₂_map_right_iff]
    simp only [constraintOf_eq_ok_iff]
  rw [ofTrace_eq, bind_eq_ok]
  constructor
  · rintro ⟨roots, h, he⟩
    cases he
    exact ⟨rfl, rfl, hroots.mp h⟩
  · obtain ⟨t', vs, roots⟩ := core
    rintro ⟨ht, hvs, h⟩
    obtain rfl : t' = t := ht
    obtain rfl : vs = involved t' log := hvs
    exact ⟨roots, hroots.mpr h, rfl⟩

theorem ofTrace_eq_error {e : Violation} :
    ofTrace t log = .error e ↔ (involved t log).mapM (constraintOf log) = .error e := by
  rw [ofTrace_eq]
  cases (involved t log).mapM (constraintOf log) <;> simp [bind, Except.bind]

/-- There is no core exactly if one of its roots was first recorded as a declaration. -/
theorem exists_ofTrace_eq_error_iff : (∃ e, ofTrace t log = .error e) ↔
    ∃ v ∈ involved t log, ∃ d, IsFirstRecord log.records v (.declaration d) := by
  have hroot {v : Variable} (hv : v ∈ involved t log) :
      (∃ e, constraintOf log v = .error e) ↔ ∃ d, IsFirstRecord log.records v (.declaration d) := by
    simp [constraintOf_eq_error_iff (mem_rootVars_of_mem_involved hv)]
  simp only [ofTrace_eq_error]
  constructor
  · rintro ⟨e, he⟩
    obtain ⟨before, v, after, heq, -, hv⟩ := mapM_eq_error_iff.mp he
    have hmem : v ∈ involved t log := heq ▸ by simp
    exact ⟨v, hmem, (hroot hmem).mp ⟨e, hv⟩⟩
  · rintro ⟨v, hv, hd⟩
    obtain ⟨e, he⟩ := (hroot hv).mpr hd
    cases hall : (involved t log).mapM (constraintOf log) with
    | error e' => exact ⟨e', rfl⟩
    | ok roots =>
        obtain ⟨f, hf⟩ := exists_mapM_eq_ok.mp ⟨roots, hall⟩ v hv
        cases he.symm.trans hf

/-- **Which root is to blame**: the first one that was recorded as a declaration before. -/
theorem ofTrace_eq_error_iff {e : Violation} : ofTrace t log = .error e ↔
    ∃ before v after d, involved t log = before ++ v :: after ∧
      (∀ w ∈ before, ∃ f, IsFirstRecord log.records w (.root f)) ∧
      IsFirstRecord log.records v (.declaration d) ∧ e = .conflictingOrigin v := by
  have hroot {before after : List Variable} {v : Variable}
      (heq : involved t log = before ++ v :: after) : v ∈ log.rootVars :=
    mem_rootVars_of_mem_involved (t := t) (heq ▸ List.mem_append_cons_self)
  rw [ofTrace_eq_error, mapM_eq_error_iff]
  constructor
  · rintro ⟨before, v, after, heq, hbefore, hv⟩
    obtain ⟨he, d, hd⟩ := (constraintOf_eq_error_iff (hroot heq)).mp hv
    exact ⟨before, v, after, d, heq,
      fun w hw => (hbefore w hw).imp fun f hf => constraintOf_eq_ok_iff.mp hf, hd, he⟩
  · rintro ⟨before, v, after, d, heq, hbefore, hd, he⟩
    exact ⟨before, v, after, heq,
      fun w hw => (hbefore w hw).imp fun f hf => constraintOf_eq_ok_iff.mpr hf,
      (constraintOf_eq_error_iff (hroot heq)).mpr ⟨he, d, hd⟩⟩

/-- **The roots of a core and what they stand for.**  The variables that have a root record and that
the refutation relies on, in the order of their first root record, are the root variables of the
core, and its roots are the constraints in the very first record of each.  There is no core exactly
if the very first record of one of them is a declaration, and the first one with such a record is to
blame. -/
theorem ofTrace_outcome (ht : t.WellFormed) (hends : t.EndsEmpty) (primary : Nat)
    (calls : List (TranslationRecord L)) :
    ∃ vs : List Variable,
      (∀ v, v ∈ vs ↔ (∃ f, ⟨v, .root f⟩ ∈ calls) ∧ t.ReliesOn v) ∧
      vs.Pairwise (fun v w => calls.findIdx (·.isRoot v) < calls.findIdx (·.isRoot w)) ∧
      ((∃ e, ofTrace t (.filled primary calls) = .error e) ↔
        ∃ v ∈ vs, ∃ d, IsFirstRecord calls v (.declaration d)) ∧
      (∀ e, ofTrace t (.filled primary calls) = .error e ↔
        ∃ before v after d, vs = before ++ v :: after ∧
          (∀ w ∈ before, ∃ f, IsFirstRecord calls w (.root f)) ∧
          IsFirstRecord calls v (.declaration d) ∧ e = .conflictingOrigin v) ∧
      ∀ core, ofTrace t (.filled primary calls) = .ok core ↔
        core.trace = t ∧ core.rootVariables = vs ∧
          List.Forall₂ (fun v f => IsFirstRecord calls v (.root f)) vs core.roots := by
  have hrecords := TranslationLog.records_filled primary calls
  generalize TranslationLog.filled primary calls = log at hrecords
  subst hrecords
  refine ⟨involved t log, fun v => mem_involved ht hends, ?_, ?_, fun e => ofTrace_eq_error_iff,
    fun core => ofTrace_eq_ok_iff⟩
  · exact TranslationLog.rootVars_pairwise.filter _
  · rw [exists_ofTrace_eq_error_iff]

/-- A refutation that relies on the variables 1 and 2.  One log records 2 first, and both again
later, and 3, which is not needed; the other one first records 1 as a declaration. -/
theorem ofTrace_outcome_recorded_twice :
    let x₁ : Variable := ⟨1, by decide, by decide⟩
    let x₂ : Variable := ⟨2, by decide, by decide⟩
    let x₃ : Variable := ⟨3, by decide, by decide⟩
    let L : Logic := ⟨Nat, Unit, Unit, Unit, Unit⟩
    let calls : List (TranslationRecord L) := [⟨x₃, .root 30⟩, ⟨x₂, .root 20⟩, ⟨x₁, .root 10⟩,
      ⟨x₂, .declaration ()⟩, ⟨x₁, .root 11⟩, ⟨x₂, .root 21⟩]
    Trace.twoSteps.WellFormed ∧ Trace.twoSteps.EndsEmpty ∧
      Trace.twoSteps.ReliesOn x₂ ∧ ¬ Trace.twoSteps.ReliesOn x₃ ∧
      (∃ core, ofTrace Trace.twoSteps (.filled 0 calls) = .ok core ∧
        core.rootVariables = [x₂, x₁] ∧ core.roots = [(20 : Nat), (10 : Nat)] ∧
        IsFirstRecord calls x₂ (.root (20 : Nat))) ∧
      ofTrace Trace.twoSteps (.filled 0 (⟨x₁, .declaration ()⟩ :: calls)) =
        .error (.conflictingOrigin x₁) := by
  intro x₁ x₂ x₃ L calls
  have ht : Trace.twoSteps.WellFormed := by decide
  have hends : Trace.twoSteps.EndsEmpty := ⟨_, rfl, rfl⟩
  have hcore : ofTrace Trace.twoSteps (.filled 0 calls) =
      .ok ⟨Trace.twoSteps, [x₂, x₁], [(20 : Nat), (10 : Nat)]⟩ := by cbv
  have hfails : ofTrace Trace.twoSteps (.filled 0 (⟨x₁, .declaration ()⟩ :: calls)) =
      .error (.conflictingOrigin x₁) := by cbv
  obtain ⟨vs, hmem, -, -, -, hok⟩ := ofTrace_outcome ht hends 0 calls
  obtain ⟨-, rfl, hfirst⟩ := (hok _).mp hcore
  refine ⟨ht, hends, ((hmem x₂).mp (by simp)).2, fun h₃ => ?_, ⟨_, hcore, rfl, rfl, ?_⟩, hfails⟩
  · exact absurd ((hmem x₃).mpr ⟨⟨30, by simp [calls]⟩, h₃⟩) (by decide)
  · cases hfirst
    assumption

end UnsatCore

end ModelFinder
