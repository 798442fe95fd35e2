import Mathlib.Data.List.Basic
import ModelFinder.Proofs.Dimacs.Guards

/-!
# Translated instances

A translation of an instance guards its clauses, or has its clauses and the annotated roots
(`Encodes`).  Either way the roots are the largest variables of their clauses, and the clauses of
the translation have the models of the instance, with the selectors true.

* `encodes_of_translate`: every translation is an encoding.
* `Encodes.traceable`, `Encodes.satisfiable_iff`: roots and models of an encoding.
* `Encodes.isSolvedBy_interpret`: a model of the encoding is interpreted as one of the instance.
-/

namespace ModelFinder.Dimacs.Encoding

open Session

variable {content : AnnotatedCnf} {tr : Translation logic}

/-- A translation of an instance. -/
inductive Encodes (content : AnnotatedCnf) : Translation logic → Prop
  | guarded {gs : List (Guard content.numVariables)} (no_roots : content.roots = [])
      (guards : Guards content gs) : Encodes content (guardedBy gs)
  | annotated {clauses : List (List Literal)} {records : List (TranslationRecord logic)}
      (has_roots : content.roots ≠ [])
      (codes_eq : clauses.map (·.map (·.toDimacs)) = content.clauses)
      (checked : ∀ codes ∈ content.clauses, checkRoots content.roots codes = .ok ())
      (recorded : ∀ r ∈ records, ∃ root ∈ content.roots, r.var.index = root.var ∧
        ∃ name, r = record r.var name) :
      Encodes content ⟨⟨content.numVariables, clauses⟩, .filled content.numVariables records⟩

/-! ### Translating -/

theorem guards_of_guardedFrom {clauses : List (List Literal)}
    {records : List (TranslationRecord logic)}
    (h : guardedFrom content.numVariables 0 content.clauses = .ok (clauses, records)) :
    ∃ gs, Guards content gs ∧ (⟨⟨content.numVariables, clauses⟩,
      .filled content.numVariables records⟩ : Translation logic) = guardedBy gs := by
  obtain ⟨gs, hcodes, hpositions, rfl, rfl⟩ := guardedFrom_eq_ok h
  refine ⟨gs, ⟨hcodes, ?_⟩, rfl⟩
  rw [hpositions, List.range_eq_range']

theorem clause_eq_ok_iff {roots : List RootAnnotation} {codes : List Int} {ls : List Literal} :
    clause roots codes = .ok ls ↔
      checkRoots roots codes = .ok () ∧ ls.map (·.toDimacs) = codes := by
  unfold clause
  rw [bind_eq_ok]
  simp only [literals_eq_ok]
  constructor
  · rintro ⟨⟨⟩, hcheck, hls⟩
    exact ⟨hcheck, hls⟩
  · rintro ⟨hcheck, hls⟩
    exact ⟨(), hcheck, hls⟩

/-- The clauses of an annotated instance, if no root is out of place. -/
theorem clauses_eq_ok {roots : List RootAnnotation} {cs : List (List Int)}
    {clauses : List (List Literal)} (h : cs.mapM (clause roots) = .ok clauses) :
    clauses.map (·.map (·.toDimacs)) = cs ∧ ∀ codes ∈ cs, checkRoots roots codes = .ok () := by
  rw [mapM_eq_ok] at h
  induction cs generalizing clauses with
  | nil =>
      rw [List.map_nil, eq_comm, List.map_eq_nil_iff] at h
      subst h
      exact ⟨rfl, fun codes hcodes => absurd hcodes List.not_mem_nil⟩
  | cons codes cs ih =>
      cases clauses with
      | nil => cases h
      | cons ls clauses =>
          obtain ⟨hls, hrest⟩ := List.cons.inj h
          obtain ⟨hcheck, hls⟩ := clause_eq_ok_iff.mp hls
          obtain ⟨hcodes, hchecked⟩ := ih hrest
          refine ⟨by rw [List.map_cons, hls, hcodes], fun codes' hmem => ?_⟩
          rcases List.mem_cons.mp hmem with rfl | hmem
          · exact hcheck
          · exact hchecked codes' hmem

theorem ends_annotated {cs : List (List Int)} {root : RootAnnotation} {s : Unit} :
    (annotated cs root).Ends s
      (fun r _ => r.var.index = root.var ∧ ∃ name, r = record r.var name) fun _ _ => True := by
  unfold annotated
  split
  next => exact trivial
  next v hv =>
    have hindex : v.index = root.var := Variable.ofIndex?_eq_some_iff.mp hv
    split
    next => exact ⟨hindex, _, rfl⟩
    next => exact ⟨hindex, _, rfl⟩

theorem ends_translate {s : Unit} :
    (translate content).Ends s (fun tr _ => Encodes content tr) fun _ _ => True := by
  unfold translate
  rw [ends_bind, ends_note]
  dsimp only
  split
  next hroots =>
    rw [List.isEmpty_iff] at hroots
    rw [ends_bind]
    cases h : guardedFrom content.numVariables 0 content.clauses with
    | error e => exact trivial
    | ok r =>
        obtain ⟨gs, hguards, he⟩ := guards_of_guardedFrom h
        show Encodes content _
        rw [he]
        exact .guarded hroots hguards
  next hroots =>
    rw [List.isEmpty_iff] at hroots
    rw [ends_bind]
    cases h : content.clauses.mapM (clause content.roots) with
    | error e => exact trivial
    | ok clauses =>
        obtain ⟨hcodes, hchecked⟩ := clauses_eq_ok h
        rw [ends_ofExcept_ok, ends_bind]
        refine (ends_mapM fun root _ _ => ends_annotated).mono (fun records _ hrecords => ?_)
          fun _ _ he => he
        exact .annotated hroots hcodes hchecked hrecords

/-- **Every translation is an encoding.** -/
theorem encodes_of_translate (h : (translate content ()).answer = .ok tr) : Encodes content tr :=
  ends_translate.of_answer h

/-! ### Roots -/

/-- The variables of a clause are at most its largest one. -/
theorem natAbs_le_largest {codes : List Int} {code : Int} (h : code ∈ codes) :
    code.natAbs ≤ largest codes := (Cnf.le_foldl_max Int.natAbs codes 0).2 code h

/-- The maximum over a clause is the value at the start, or it is met in the clause. -/
theorem foldl_max_natAbs (codes : List Int) (n : Nat) :
    codes.foldl (fun n code => max n code.natAbs) n = n ∨
      ∃ code ∈ codes, code.natAbs = codes.foldl (fun n code => max n code.natAbs) n := by
  induction codes generalizing n with
  | nil => exact .inl rfl
  | cons code codes ih =>
      rw [List.foldl_cons]
      rcases ih (max n code.natAbs) with he | ⟨k, hk, he⟩
      · rw [he]
        rcases Nat.le_total n code.natAbs with hle | hle
        · exact .inr ⟨code, List.mem_cons_self, (Nat.max_eq_right hle).symm⟩
        · exact .inl (Nat.max_eq_left hle)
      · exact .inr ⟨k, List.mem_cons_of_mem code hk, he⟩

/-- The largest variable of a clause that has one occurs in it. -/
theorem exists_natAbs_eq_largest {codes : List Int} (h : 0 < largest codes) :
    ∃ code ∈ codes, code.natAbs = largest codes := by
  refine (foldl_max_natAbs codes 0).resolve_left fun he => ?_
  rw [largest, he] at h
  exact Nat.lt_irrefl 0 h

/-- A root that is in its place is the largest variable. -/
theorem natAbs_eq_largest {roots : List RootAnnotation} {codes : List Int}
    (h : checkRoots roots codes = .ok ()) {root : RootAnnotation} (hroot : root ∈ roots)
    {code : Int} (hcode : code ∈ codes) (he : root.var = code.natAbs) :
    code.natAbs = largest codes := by
  unfold checkRoots at h
  dsimp only at h
  split at h
  next => cases h
  next hnone =>
    have hplaced := List.find?_eq_none.mp hnone code hcode
    refine Classical.byContradiction fun hne => hplaced ?_
    rw [Bool.and_eq_true, bne_iff_ne, List.any_eq_true]
    exact ⟨hne, root, hroot, beq_iff_eq.mpr he⟩

/-- The roots of an annotated instance are the largest variables of their clauses. -/
theorem maxVariable?_of_root {roots : List RootAnnotation} {ls : List Literal}
    (h : checkRoots roots (ls.map (·.toDimacs)) = .ok ()) {root : RootAnnotation}
    (hroot : root ∈ roots) {l : Literal} (hl : l ∈ ls) (he : l.var.index = root.var) :
    (Clause.ofList ls).maxVariable? = some l.var := by
  refine Clause.maxVariable?_ofList ⟨l, hl, rfl⟩ fun k hk => ?_
  -- the code of the root is the largest of the clause
  have hlargest := natAbs_eq_largest h hroot (List.mem_map_of_mem hl)
    (he.symm.trans l.natAbs_toDimacs.symm)
  rw [← l.natAbs_toDimacs, hlargest, ← k.natAbs_toDimacs]
  exact natAbs_le_largest (List.mem_map_of_mem hk)

theorem Encodes.traceable (h : Encodes content tr) (hr : content.InRange) : tr.Traceable := by
  cases h with
  | guarded _ guards => exact guards.traceable hr
  | @annotated clauses records _ codes_eq checked recorded =>
      have hroot : ∀ r ∈ (TranslationLog.filled content.numVariables records).records,
          ∃ f, r.origin = .root f := by
        intro r hr
        rw [TranslationLog.records_filled] at hr
        obtain ⟨-, -, -, name, he⟩ := recorded r hr
        exact ⟨_, congrArg TranslationRecord.origin he⟩
      refine ⟨fun v hv c hc l hl hlv => ?_, hroot⟩
      have hvar : v ∈ records.map (·.var) := by
        rw [← TranslationLog.mem_distinct]
        rwa [Translation.setting, TranslationLog.rootVars_eq_distinct hroot,
          TranslationLog.records_filled] at hv
      obtain ⟨r, hr, rfl⟩ := List.mem_map.mp hvar
      obtain ⟨root, hroot, hindex, -⟩ := recorded r hr
      obtain ⟨ls, hls, rfl⟩ := List.mem_map.mp hc
      have hchecked := checked (ls.map (·.toDimacs)) (codes_eq ▸ List.mem_map_of_mem hls)
      rw [← hlv] at hindex ⊢
      exact maxVariable?_of_root hchecked hroot (Clause.mem_ofList.mp hl) hindex

/-! ### Models -/

/-- The clauses of an instance can be satisfied together with those of its encoding. -/
theorem Encodes.satisfiable_iff (h : Encodes content tr) (hr : content.InRange) :
    tr.cnf.Satisfiable ↔ content.Satisfiable := by
  cases h with
  | guarded _ guards =>
      constructor
      · rintro ⟨f, hf⟩
        obtain ⟨β, rfl⟩ := Values.exists_valuation_eq f
        refine ⟨β, fun codes hcodes => ?_⟩
        rw [← guards.codes_eq] at hcodes
        obtain ⟨g, hg, rfl⟩ := List.mem_map.mp hcodes
        exact Values.satisfies_valuation_iff.mp
          (Guard.satisfies_literals fun ls hls => hf ls (Guards.mem_clauses.mpr ⟨g, hg, hls⟩))
      · rintro ⟨β, hβ⟩
        -- all selectors are true
        refine ⟨guarding content.numVariables β fun _ => true, fun ls hls => ?_⟩
        obtain ⟨g, hg, hls⟩ := Guards.mem_clauses.mp hls
        have hcodes := hβ g.codes (List.mem_of_getElem? (guards.clause_eq hg))
        rcases Guard.mem_clauses.mp hls with rfl | rfl
        · exact Guards.satisfies_asserted rfl
        · exact guards.satisfies_guarding hr hg fun _ => hcodes
  | @annotated clauses records _ codes_eq checked recorded =>
      constructor
      · rintro ⟨f, hf⟩
        obtain ⟨β, rfl⟩ := Values.exists_valuation_eq f
        refine ⟨β, fun codes hcodes => ?_⟩
        rw [← codes_eq] at hcodes
        obtain ⟨ls, hls, rfl⟩ := List.mem_map.mp hcodes
        exact Values.satisfies_valuation_iff.mp (hf ls hls)
      · rintro ⟨β, hβ⟩
        refine ⟨β.valuation, fun ls hls => Values.satisfies_valuation_iff.mpr ?_⟩
        exact hβ _ (codes_eq ▸ List.mem_map_of_mem hls)

/-- An assignment that solves the encoding makes a literal of each clause of the instance true. -/
theorem Encodes.exists_satisfied (h : Encodes content tr) {a : Assignment}
    (ha : Prover.Solves tr.cnf a) {codes : List Int} (hcodes : codes ∈ content.clauses) :
    ∃ l : Literal, l.toDimacs ∈ codes ∧ a.value? l.var = some l.positive := by
  have hvalue : ∀ {l : Literal}, a.satisfies l = true → a.value? l.var = some l.positive :=
    fun h => by simpa [Assignment.satisfies] using h
  cases h with
  | guarded _ guards =>
      rw [← guards.codes_eq] at hcodes
      obtain ⟨g, hg, rfl⟩ := List.mem_map.mp hcodes
      have hclauses := fun ls hls => ha.satisfies ls (Guards.mem_clauses.mpr ⟨g, hg, hls⟩)
      obtain ⟨k, hk, htrue⟩ := hclauses _ (Guard.mem_clauses.mpr (.inl rfl))
      obtain rfl := List.mem_singleton.mp hk
      obtain ⟨l, hl, hl'⟩ := hclauses _ (Guard.mem_clauses.mpr (.inr rfl))
      rcases List.mem_append.mp hl with hl | hl
      · exact ⟨l, List.mem_map_of_mem hl, hvalue hl'⟩
      · -- the selector is true, so its negation is not
        obtain rfl := List.mem_singleton.mp hl
        have hselector : a.value? g.selector = some true := hvalue htrue
        have hneg : a.value? g.selector = some false := hvalue hl'
        rw [hselector] at hneg
        cases hneg
  | @annotated clauses records _ codes_eq checked recorded =>
      rw [← codes_eq] at hcodes
      obtain ⟨ls, hls, rfl⟩ := List.mem_map.mp hcodes
      obtain ⟨l, hl, hl'⟩ := ha.satisfies ls hls
      exact ⟨l, List.mem_map_of_mem hl, hvalue hl'⟩

theorem Encodes.primary_eq (h : Encodes content tr) : tr.log.primary = content.numVariables := by
  cases h <;> exact TranslationLog.primary_filled ..

/-- **A model of the encoding is interpreted as a model of the instance**, with one literal for each
of its variables. -/
theorem Encodes.isSolvedBy_interpret (h : Encodes content tr) (hr : content.InRange)
    (hmax : content.numVariables ≤ Variable.maxIndex) {a : Assignment}
    (ha : Prover.Solves tr.cnf a) : content.IsSolvedBy (interpret tr a) := by
  unfold interpret
  rw [h.primary_eq]
  constructor
  · rw [List.map_filterMap, List.range'_eq_map_range]
    refine List.filterMap_eq_map_iff_forall_eq_some.mpr fun i hi => ?_
    have hlt := List.mem_range.mp hi
    have hslot : Variable.ofSlot? i = some ⟨i + 1, _, _⟩ :=
      Variable.ofIndex?_of_le (Nat.le_add_left 1 i) (Nat.le_trans hlt hmax)
    rw [hslot]
    exact congrArg some (Nat.add_comm i 1)
  · intro codes hcodes
    obtain ⟨l, hl, hvalue⟩ := h.exists_satisfied ha hcodes
    refine ⟨l, List.mem_filterMap.mpr ⟨l.var.slot, ?_, ?_⟩, hl⟩
    · have hle := hr codes hcodes l.toDimacs hl
      rw [l.natAbs_toDimacs] at hle
      have hone := l.var.one_le
      rw [List.mem_range, Variable.slot]
      omega
    · rw [Variable.ofSlot?_slot]
      show some (⟨l.var, a.value? l.var == some true⟩ : Literal) = some l
      obtain ⟨v, positive⟩ := l
      rw [hvalue]
      cases positive <;> rfl

end ModelFinder.Dimacs.Encoding
