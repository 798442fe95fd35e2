import Mathlib
import ModelFinder.Proofs.Dimacs.Correctness

/-!
# Necessary roots of annotated instances

A variable of an instance is defined by the clauses whose largest variable it is, and roots involve
the variables in their own definition and in that of every variable they involve
(`AnnotatedCnf.Involves`).  A file may have clauses that no root involves.

* `satisfiableFor_of_necessary`: if a root is necessary, all that the other roots involve has a
  model.
* `satisfiable_asserting`: if every definition can be met whatever the smaller variables are, the
  model extends to the whole file without the assertions of all further roots.
* `answer_roots_necessary`: the roots that a minimised core reports are necessary in this sense.
  Clauses that no root involves may still contradict each other (`exists_answer_unneeded_root`).
-/

namespace ModelFinder.Dimacs

open StopCondition

/-- Which literals are true is told by the values of their variables. -/
theorem Values.Satisfies.congr {β β' : Values} {codes : List Int} (h : β.Satisfies codes)
    (heq : ∀ code ∈ codes, β' code.natAbs = β code.natAbs) : β'.Satisfies codes := by
  obtain ⟨code, hcode, hmakes⟩ := h
  exact ⟨code, hcode, (heq code hcode).trans hmakes⟩

namespace AnnotatedCnf

/-- The roots with these numbers, and the variables in the definition of every variable they
involve. -/
inductive Involves (content : AnnotatedCnf) (roots : List Nat) : Nat → Prop
  | root {n : Nat} (mem : n ∈ roots) : Involves content roots n
  | clause {codes : List Int} {code : Int}
      (involved : Involves content roots (Encoding.largest codes))
      (given : codes ∈ content.clauses) (mem : code ∈ codes) : Involves content roots code.natAbs

/-- Some values satisfy the definitions of all that the roots involve. -/
def SatisfiableFor (content : AnnotatedCnf) (roots : List Nat) : Prop :=
  ∃ β : Values, ∀ codes ∈ content.clauses, content.Involves roots (Encoding.largest codes) →
    β.Satisfies codes

/-- The unit clause with a root. -/
def IsAssertion (content : AnnotatedCnf) (codes : List Int) : Prop :=
  ∃ root ∈ content.roots, codes = [(root.var : Int)]

/-- The instance without the unit clauses that assert other roots. -/
def asserting (content : AnnotatedCnf) (roots : List Nat) : AnnotatedCnf :=
  { content with
    clauses := content.clauses.filter fun codes =>
      ∀ root ∈ content.roots, codes = [(root.var : Int)] → root.var ∈ roots }

/-- Whatever the values of other variables are, a variable has a value which meets its definition,
apart from assertions. -/
def Definitional (content : AnnotatedCnf) : Prop :=
  ∀ (n : Nat) (β : Values), ∃ b, ∀ codes ∈ content.clauses, Encoding.largest codes = n →
    ¬ content.IsAssertion codes → Values.Satisfies (Function.update β n b) codes

variable {content : AnnotatedCnf} {roots : List Nat}

theorem mem_asserting {codes : List Int} : codes ∈ (content.asserting roots).clauses ↔
    codes ∈ content.clauses ∧
      ∀ root ∈ content.roots, codes = [(root.var : Int)] → root.var ∈ roots := by
  show codes ∈ content.clauses.filter _ ↔ _
  rw [List.mem_filter, decide_eq_true_iff]

/-- Values that satisfy what the roots involve can be changed elsewhere, one variable after the
other, so that all definitions of variables below a bound are met. -/
theorem exists_meeting_below (hdef : content.Definitional) {β₀ : Values}
    (hβ₀ : ∀ codes ∈ content.clauses, content.Involves roots (Encoding.largest codes) →
      β₀.Satisfies codes) (n : Nat) :
    ∃ β : Values, (∀ m, content.Involves roots m → β m = β₀ m) ∧
      ∀ codes ∈ (content.asserting roots).clauses, Encoding.largest codes < n →
        β.Satisfies codes := by
  induction n with
  | zero => exact ⟨β₀, fun _ _ => rfl, fun _ _ hlt => absurd hlt (Nat.not_lt_zero _)⟩
  | succ n ih =>
      obtain ⟨β, hagree, hsat⟩ := ih
      by_cases hn : content.Involves roots n
      · refine ⟨β, hagree, fun codes hcodes hlt => ?_⟩
        have hgiven := (mem_asserting.mp hcodes).1
        rcases Nat.lt_succ_iff_lt_or_eq.mp hlt with hlt | rfl
        · exact hsat codes hcodes hlt
        · exact (hβ₀ codes hgiven hn).congr fun code hcode => hagree _ (.clause hn hgiven hcode)
      · obtain ⟨b, hb⟩ := hdef n β
        refine ⟨Function.update β n b, fun m hm => ?_, fun codes hcodes hlt => ?_⟩
        · have hne : m ≠ n := fun e => hn (e ▸ hm)
          rw [Function.update_of_ne hne, hagree m hm]
        · obtain ⟨hgiven, hasserted⟩ := mem_asserting.mp hcodes
          rcases Nat.lt_succ_iff_lt_or_eq.mp hlt with hlt | heq
          · refine (hsat codes hcodes hlt).congr fun code hcode => ?_
            have hlt' := Nat.lt_of_le_of_lt (Encoding.natAbs_le_largest hcode) hlt
            exact Function.update_of_ne (Nat.ne_of_lt hlt') b β
          · -- an assertion that is left is one of a root that is involved
            refine hb codes hgiven heq ?_
            rintro ⟨root, hroot, rfl⟩
            have hlargest : Encoding.largest [(root.var : Int)] = root.var := by
              simp [Encoding.largest]
            exact hn (heq ▸ hlargest ▸ .root (hasserted root hroot rfl))

/-- **A model of what the roots involve extends to the other definitions**, in the order of the
variables. -/
theorem satisfiable_asserting (hdef : content.Definitional) (h : content.SatisfiableFor roots) :
    (content.asserting roots).Satisfiable := by
  obtain ⟨β₀, hβ₀⟩ := h
  obtain ⟨β, -, hβ⟩ := exists_meeting_below hdef hβ₀
    (content.clauses.foldl (fun n codes => max n (Encoding.largest codes)) 0 + 1)
  refine ⟨β, fun codes hcodes => hβ codes hcodes (Nat.lt_succ_of_le ?_)⟩
  exact (Cnf.le_foldl_max Encoding.largest content.clauses 0).2 codes (mem_asserting.mp hcodes).1

end AnnotatedCnf

namespace Encoding

open Reduction (Necessary)

variable {content : AnnotatedCnf} {tr : Translation logic} {units : VariableSet}

/-- A clause of an annotated instance, and its largest variable. -/
theorem exists_maxVariable?_eq (hcodes : tr.cnf.clauses.map (·.map (·.toDimacs)) = content.clauses)
    {codes : List Int} (hmem : codes ∈ content.clauses) {v : Variable}
    (hv : v.index = largest codes) : ∃ ls, ls.map (·.toDimacs) = codes ∧
      Clause.ofList ls ∈ tr.setting.clauses ∧ (Clause.ofList ls).maxVariable? = some v := by
  rw [← hcodes] at hmem
  obtain ⟨ls, hls, rfl⟩ := List.mem_map.mp hmem
  obtain ⟨code, hcode, heq⟩ := exists_natAbs_eq_largest (hv ▸ v.one_le)
  obtain ⟨l, hl, rfl⟩ := List.mem_map.mp hcode
  rw [l.natAbs_toDimacs, ← hv] at heq
  refine ⟨ls, rfl, List.mem_map_of_mem hls,
    Clause.maxVariable?_ofList ⟨l, hl, Variable.ext_index heq⟩ fun k hk => ?_⟩
  rw [hv, ← k.natAbs_toDimacs]
  exact natAbs_le_largest (List.mem_map_of_mem hk)

/-- What the roots of the file involve is involved in the translation. -/
theorem involves_of_involves (hcodes : tr.cnf.clauses.map (·.map (·.toDimacs)) = content.clauses)
    {roots : List Variable} {n : Nat} (h : content.Involves (roots.map (·.index)) n) :
    ∃ v, v.index = n ∧ tr.setting.Involves (· ∈ roots) v := by
  induction h with
  | root hn =>
      obtain ⟨v, hv, rfl⟩ := List.mem_map.mp hn
      exact ⟨v, rfl, .root hv⟩
  | clause _ given mem ih =>
      obtain ⟨v, hv, hinv⟩ := ih
      obtain ⟨ls, rfl, hgiven, hmax⟩ := exists_maxVariable?_eq hcodes given hv
      obtain ⟨l, hl, rfl⟩ := List.mem_map.mp mem
      exact ⟨l.var, l.natAbs_toDimacs.symm, .clause hinv hgiven hmax (Clause.mem_ofList.mpr hl)⟩

/-- **A necessary root is needed**: all that the other roots involve has a model. -/
theorem satisfiableFor_of_necessary
    (hcodes : tr.cnf.clauses.map (·.map (·.toDimacs)) = content.clauses) {u : Variable}
    (hnec : Necessary tr.setting units u) {roots : List Variable}
    (hroots : ∀ v ∈ roots, tr.setting.Asserted units v ∧ v ≠ u) :
    content.SatisfiableFor (roots.map (·.index)) := by
  obtain ⟨f, hf⟩ := hnec
  obtain ⟨β, rfl⟩ := Values.exists_valuation_eq f
  refine ⟨β, fun codes hmem hinvolved => ?_⟩
  obtain ⟨v, hv, hinv⟩ := involves_of_involves hcodes hinvolved
  obtain ⟨ls, rfl, hgiven, hmax⟩ := exists_maxVariable?_eq hcodes hmem hv
  have hsat := hf v (hinv.mono hroots) _ hgiven hmax
  exact Values.satisfies_valuation_iff.mp (Valuation.satisfies_ofList.mp hsat)

end Encoding

variable {σ : Type} [StopCondition σ]

/-- **Reported roots are necessary** for the definitions of an annotated instance.  For each root
that a minimised core reports, all that the other reported roots involve has a model.  If the
clauses that assert no root are definitions, this is a model of the whole file without the unit
clauses that assert the root and those that are not reported. -/
theorem answer_roots_necessary {bytes : List UInt8} {content : AnnotatedCnf}
    (hread : read bytes = .ok content) (hroots : content.roots ≠ []) {tr : Translation logic}
    (htranslate : (Encoding.translate content ()).answer = .ok tr)
    (hunsat : ¬ content.Satisfiable) {options : SolverOptions}
    (hminimised : options.minimisation ≠ .asFound) (k : Prover.Counters) {stop : σ}
    (hstop : NeverTriggers stop) :
    ∃ core, answer Prover.backend options content k stop = .ok (.unsatisfiable core) ∧
      ∀ u ∈ core.rootVariables,
        content.SatisfiableFor ((core.rootVariables.filter (· ≠ u)).map (·.index)) ∧
        (content.Definitional → AnnotatedCnf.Satisfiable
          (content.asserting ((core.rootVariables.filter (· ≠ u)).map (·.index)))) := by
  have hr := inRange_of_read hread
  have hencodes := Encoding.encodes_of_translate htranslate
  obtain ⟨v, hv, hanswer⟩ :=
    exists_answer Prover.reliable_backend options hr htranslate (b := k) trivial hstop
  cases hv with
  | satisfiable solves =>
      exact absurd ((hencodes.satisfiable_iff hr).mp solves.satisfiable) hunsat
  | @unsatisfiable t core invariant tried core_of =>
      refine ⟨core, hanswer, fun u hu => ?_⟩
      have hasserted : ∀ w ∈ core.rootVariables, tr.setting.Asserted t.coreUnits w := by
        intro w hw
        rw [core_of.rootVariables_eq] at hw
        obtain ⟨hroot, hunit⟩ := List.mem_filter.mp hw
        exact ⟨hroot, IndexSet.contains_eq_true.mp hunit⟩
      -- the pool is empty in the end, so the root is necessary
      have hnec : Reduction.Necessary tr.setting t.coreUnits u :=
        (tried hminimised u (hasserted u hu).1 (hasserted u hu).2).resolve_left List.not_mem_nil
      have hothers : ∀ w ∈ core.rootVariables.filter (· ≠ u),
          tr.setting.Asserted t.coreUnits w ∧ w ≠ u := fun w hw =>
        ⟨hasserted w (List.mem_filter.mp hw).1, of_decide_eq_true (List.mem_filter.mp hw).2⟩
      cases hencodes with
      | guarded no_roots _ => exact absurd no_roots hroots
      | annotated _ codes_eq _ _ =>
          have hfor := Encoding.satisfiableFor_of_necessary codes_eq hnec hothers
          exact ⟨hfor, fun hdef => AnnotatedCnf.satisfiable_asserting hdef hfor⟩

/-- The roots that an answer reports, if it is a core. -/
def reported : Except Failure (Solution logic) → Option (List Nat)
  | .ok (.unsatisfiable core) => some (core.rootVariables.map (·.index))
  | _ => none

theorem exists_core_of_reported {r : Except Failure (Solution logic)} {ns : List Nat}
    (h : reported r = some ns) :
    ∃ core, r = .ok (.unsatisfiable core) ∧ core.rootVariables.map (·.index) = ns := by
  unfold reported at h
  split at h
  next core => exact ⟨core, rfl, Option.some.inj h⟩
  next => cases h

/-- Two roots which define variable `1` to be true and false. -/
theorem answer_roots_necessary_two_roots :
    read ("p cnf 3 4\nc root 2\nc root 3\n2 0\n-2 1 0\n3 0\n-3 -1 0\n".toList.map
      (·.toNat.toUInt8)) = .ok ⟨3, [[2], [-2, 1], [3], [-3, -1]], [⟨2, none⟩, ⟨3, none⟩]⟩ ∧
    AnnotatedCnf.Definitional ⟨3, [[2], [-2, 1], [3], [-3, -1]], [⟨2, none⟩, ⟨3, none⟩]⟩ ∧
    ∃ core, answer Prover.backend {}
        ⟨3, [[2], [-2, 1], [3], [-3, -1]], [⟨2, none⟩, ⟨3, none⟩]⟩ {} Indefinite.indefinite =
        .ok (.unsatisfiable core) ∧
      core.rootVariables.map (·.index) = [2, 3] ∧
      ∀ u ∈ core.rootVariables, AnnotatedCnf.Satisfiable (AnnotatedCnf.asserting
        ⟨3, [[2], [-2, 1], [3], [-3, -1]], [⟨2, none⟩, ⟨3, none⟩]⟩
        ((core.rootVariables.filter (· ≠ u)).map (·.index))) := by
  have hread : read ("p cnf 3 4\nc root 2\nc root 3\n2 0\n-2 1 0\n3 0\n-3 -1 0\n".toList.map
      (·.toNat.toUInt8)) = .ok ⟨3, [[2], [-2, 1], [3], [-3, -1]], [⟨2, none⟩, ⟨3, none⟩]⟩ := rfl
  have hunsat : ¬ AnnotatedCnf.Satisfiable
      ⟨3, [[2], [-2, 1], [3], [-3, -1]], [⟨2, none⟩, ⟨3, none⟩]⟩ := by
    rintro ⟨β, hβ⟩
    simp only [List.forall_mem_cons] at hβ
    simp [Values.Satisfies, Values.Makes] at hβ
    grind
  -- false makes a root meet its definition, and there are no others
  have hdef : AnnotatedCnf.Definitional
      ⟨3, [[2], [-2, 1], [3], [-3, -1]], [⟨2, none⟩, ⟨3, none⟩]⟩ := by
    refine fun n β => ⟨false, fun codes hcodes hn hassertion => ?_⟩
    simp only [List.mem_cons, List.not_mem_nil, or_false] at hcodes
    rcases hcodes with rfl | rfl | rfl | rfl
    · exact absurd ⟨⟨2, none⟩, by simp, rfl⟩ hassertion
    · exact ⟨-2, by simp, by subst hn; rfl⟩
    · exact absurd ⟨⟨3, none⟩, by simp, rfl⟩ hassertion
    · exact ⟨-3, by simp, by subst hn; rfl⟩
  have hrun : reported (answer Prover.backend {}
      ⟨3, [[2], [-2, 1], [3], [-3, -1]], [⟨2, none⟩, ⟨3, none⟩]⟩ {} Indefinite.indefinite) =
      some [2, 3] := by cbv
  have hminimised : ({} : SolverOptions).minimisation ≠ .asFound := by decide
  obtain ⟨core, hcore, hnec⟩ := answer_roots_necessary hread (by decide) rfl hunsat hminimised {}
    (neverTriggers_indefinite .indefinite)
  rw [hcore] at hrun
  exact ⟨hread, hdef, core, hcore, Option.some.inj hrun, fun u hu => (hnec u hu).2 hdef⟩

/-- Two roots are reported although the clauses `4` and `-4`, which no root involves, have no model
without them either. -/
theorem exists_answer_unneeded_root :
    read ("p cnf 4 6\nc root 2\nc root 3\n2 0\n-2 1 0\n3 0\n-3 -1 0\n4 0\n-4 0\n".toList.map
      (·.toNat.toUInt8)) =
      .ok ⟨4, [[2], [-2, 1], [3], [-3, -1], [4], [-4]], [⟨2, none⟩, ⟨3, none⟩]⟩ ∧
    ∃ core, answer Prover.backend {}
        ⟨4, [[2], [-2, 1], [3], [-3, -1], [4], [-4]], [⟨2, none⟩, ⟨3, none⟩]⟩ {}
        Indefinite.indefinite = .ok (.unsatisfiable core) ∧
      ∃ u ∈ core.rootVariables, ¬ AnnotatedCnf.Satisfiable (AnnotatedCnf.asserting
        ⟨4, [[2], [-2, 1], [3], [-3, -1], [4], [-4]], [⟨2, none⟩, ⟨3, none⟩]⟩
        ((core.rootVariables.filter (· ≠ u)).map (·.index))) := by
  have hrun : reported (answer Prover.backend {}
      ⟨4, [[2], [-2, 1], [3], [-3, -1], [4], [-4]], [⟨2, none⟩, ⟨3, none⟩]⟩ {}
      Indefinite.indefinite) = some [2, 3] := by cbv
  obtain ⟨core, hcore, hroots⟩ := exists_core_of_reported hrun
  have hne : core.rootVariables ≠ [] := by
    intro h
    rw [h] at hroots
    cases hroots
  obtain ⟨u, hu⟩ := List.exists_mem_of_ne_nil _ hne
  refine ⟨rfl, core, hcore, u, hu, ?_⟩
  rintro ⟨β, hβ⟩
  obtain ⟨code, hcode, htrue⟩ := hβ [4] (AnnotatedCnf.mem_asserting.mpr (by simp))
  obtain ⟨code', hcode', hfalse⟩ := hβ [-4] (AnnotatedCnf.mem_asserting.mpr (by simp))
  obtain rfl := List.mem_singleton.mp hcode
  obtain rfl := List.mem_singleton.mp hcode'
  exact absurd (Eq.trans (Eq.symm htrue) hfalse) (by decide)

end ModelFinder.Dimacs
