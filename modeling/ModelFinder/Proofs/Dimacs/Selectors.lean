import ModelFinder.Proofs.Dimacs.Correctness
import ModelFinder.Proofs.Dimacs.Lines

/-!
# Selectors of clauses

An instance without annotations is translated as long as there are variables left for the selectors
of its clauses (`exists_guardedFrom_eq_ok`, `guardedFrom_eq_error`).  The two clauses of a guard
then stand side by side (`Guards.getElem?_clauses_eq_some_iff`), and in a trace of these clauses a
selector selects them and no others, as it is the largest variable of both
(`Guards.mem_axiomsFor_iff`).

So what satisfies the selection satisfies the guarded clauses (`Guards.satisfies_selected_iff`); and
values of the variables of the instance that satisfy these extend to the selectors, which are
variables of their own (`Guards.exists_satisfies_iff`).  All this holds for any choice of clauses at
once (`selectors_of_read`).
-/

namespace ModelFinder.Dimacs.Encoding

open Session

variable {content : AnnotatedCnf} {n i : Nat} {cs : List (List Int)} {tr : Translation logic}

/-! ### Which instances are guarded -/

theorem selector_eq_ok_iff {v : Variable} : selector n i = .ok v ↔ v.index = n + i + 1 := by
  unfold selector
  rw [← Variable.ofIndex?_eq_some_iff]
  split
  next w hw => rw [hw, Except.ok.injEq, Option.some.injEq]
  next hnone => rw [hnone]; exact iff_of_false (fun h => nomatch h) fun h => nomatch h

theorem selector_eq_error (h : Variable.maxIndex < n + i + 1) :
    selector n i = .error ⟨"too many clauses to guard"⟩ := by
  unfold selector
  split
  next v hv =>
    have hindex := Variable.ofIndex?_eq_some_iff.mp hv
    exact absurd (hindex ▸ v.le_max) (Nat.not_le.mpr h)
  next => rfl

/-- The codes are those of variables up to `n`. -/
def Within (n : Nat) (cs : List (List Int)) : Prop :=
  ∀ codes ∈ cs, ∀ code ∈ codes, 1 ≤ code.natAbs ∧ code.natAbs ≤ n

section

variable (hcs : Within n cs)
include hcs

theorem exists_guarded_eq_ok {codes : List Int} (hcodes : codes ∈ cs)
    (hle : n + i + 1 ≤ Variable.maxIndex) : ∃ r, guarded n i codes = .ok r := by
  have hselector : selector n i = .ok ⟨n + i + 1, Nat.le_add_left 1 _, hle⟩ :=
    selector_eq_ok_iff.mpr rfl
  obtain ⟨ls, hls⟩ := Literal.exists_map_toDimacs_iff.mpr fun code hcode =>
    (hcs codes hcodes code hcode).imp_right fun h => show code.natAbs ≤ Variable.maxIndex by omega
  exact ⟨_, bind_eq_ok.mpr ⟨_, hselector, bind_eq_ok.mpr ⟨ls, literals_eq_ok.mpr hls, rfl⟩⟩⟩

/-- There is a selector for every clause. -/
theorem exists_guardedFrom_eq_ok (hle : cs = [] ∨ n + i + cs.length ≤ Variable.maxIndex) :
    ∃ r, guardedFrom n i cs = .ok r := by
  induction cs generalizing i with
  | nil => exact ⟨_, rfl⟩
  | cons codes cs ih =>
      rw [List.length_cons] at hle
      have hle := hle.resolve_left (List.cons_ne_nil _ _)
      obtain ⟨r, hr⟩ := exists_guarded_eq_ok (i := i) hcs List.mem_cons_self (by omega)
      obtain ⟨r', hr'⟩ := ih (i := i + 1) (fun codes h => hcs codes (List.mem_cons_of_mem _ h))
        (.inr (by omega))
      exact ⟨_, bind_eq_ok.mpr ⟨r, hr, bind_eq_ok.mpr ⟨r', hr', rfl⟩⟩⟩

/-- The selectors are used up before the last clause. -/
theorem guardedFrom_eq_error (hne : cs ≠ []) (hlt : Variable.maxIndex < n + i + cs.length) :
    guardedFrom n i cs = .error ⟨"too many clauses to guard"⟩ := by
  induction cs generalizing i with
  | nil => exact absurd rfl hne
  | cons codes cs ih =>
      rw [List.length_cons] at hlt
      by_cases hle : n + i + 1 ≤ Variable.maxIndex
      · obtain ⟨r, hr⟩ := exists_guarded_eq_ok hcs List.mem_cons_self hle
        have hrest := ih (i := i + 1) (fun codes h => hcs codes (List.mem_cons_of_mem _ h))
          (fun hnil => by rw [hnil, List.length_nil] at hlt; omega) (by omega)
        rw [guardedFrom, hr, hrest]
        rfl
      · rw [guardedFrom, guarded, selector_eq_error (Nat.not_le.mp hle)]
        rfl

end

theorem answer_translate_guarded (hroots : content.roots = []) :
    (translate content ()).answer =
      (guardedFrom content.numVariables 0 content.clauses).map fun r =>
        ⟨⟨content.numVariables, r.1⟩, .filled content.numVariables r.2⟩ := by
  unfold translate
  simp only [hroots, List.isEmpty_nil, if_true, answer_bind]
  cases guardedFrom content.numVariables 0 content.clauses <;> rfl

/-! ### Places of clauses -/

/-- Lists of one length, put one after the other. -/
theorem getElem?_flatMap {α β : Type} {f : α → List β} {k m : Nat} (hf : ∀ a, (f a).length = m)
    (hk : k < m) (as : List α) (i : Nat) :
    (as.flatMap f)[m * i + k]? = as[i]?.bind fun a => (f a)[k]? := by
  induction as generalizing i with
  | nil => simp
  | cons a as ih =>
      rw [List.flatMap_cons]
      cases i with
      | zero =>
          rw [Nat.mul_zero, Nat.zero_add, List.getElem?_append_left (by rwa [hf])]
          rfl
      | succ i =>
          have hle : (f a).length ≤ m * (i + 1) + k := by rw [hf, Nat.mul_succ]; omega
          have hsub : m * (i + 1) + k - (f a).length = m * i + k := by rw [hf, Nat.mul_succ]; omega
          rw [List.getElem?_append_right hle, hsub, ih i, List.getElem?_cons_succ]

namespace Guards

variable {gs : List (Guard content.numVariables)} {t : Trace} {ls : List Literal} {j : Nat}

/-- The two clauses of a guard stand at twice its position. -/
theorem getElem?_clauses_eq_some_iff (h : Guards content gs) :
    (guardedBy gs).cnf.clauses[j]? = some ls ↔
      ∃ g ∈ gs, ∃ k, j = 2 * g.position + k ∧ g.clauses[k]? = some ls := by
  show (gs.flatMap (·.clauses))[j]? = some ls ↔ _
  have hlength : ∀ g : Guard content.numVariables, g.clauses.length = 2 := fun g => rfl
  constructor
  · intro hj
    rw [← Nat.div_add_mod j 2, getElem?_flatMap hlength (Nat.mod_lt j Nat.two_pos),
      Option.bind_eq_some_iff] at hj
    obtain ⟨g, hg, hls⟩ := hj
    refine ⟨g, List.mem_of_getElem? hg, j % 2, ?_, hls⟩
    rw [h.position_eq hg, Nat.div_add_mod]
  · rintro ⟨g, hg, k, rfl, hls⟩
    have hk : k < 2 := (List.getElem?_eq_some_iff.mp hls).1
    rw [getElem?_flatMap hlength hk, h.getElem?_position hg]
    exact hls

/-- The codes of the clauses of a translation. -/
theorem codes_clauses (h : Guards content gs) :
    (guardedBy gs).cnf.clauses.map (·.map (·.toDimacs)) =
      content.clauses.zipIdx.flatMap fun (codes, i) =>
        [[(content.numVariables + i + 1 : Int)],
          codes ++ [-(content.numVariables + i + 1 : Int)]] := by
  have hzip : content.clauses.zipIdx = gs.map fun g => (g.codes, g.position) := by
    rw [List.zipIdx_eq_zip_range', ← List.range_eq_range', ← h.positions_eq, ← h.codes_eq,
      List.zip_map']
  rw [hzip, List.flatMap_map]
  show (gs.flatMap (·.clauses)).map _ = _
  rw [List.map_flatMap]
  refine List.flatMap_congr fun g _ => ?_
  simp [Guard.clauses, Guard.codes, Literal.toDimacs, g.index_eq]

/-! ### What selectors select -/

section Selection

variable (h : Guards content gs) (ht : t.WellFormed)
  (hinputs : t.inputs.map (·.clause) = (guardedBy gs).cnf.clauses.map .ofList)
include h ht hinputs

/-- The input clauses, and their places. -/
theorem exists_input_iff {c : Clause} : (∃ d ∈ t.inputs, d.index = j ∧ d.clause = c) ↔
    ∃ g ∈ gs, ∃ k ls, j = 2 * g.position + k ∧ g.clauses[k]? = some ls ∧ .ofList ls = c := by
  have hplace : (∃ d ∈ t.inputs, d.index = j ∧ d.clause = c) ↔
      ∃ ls, (guardedBy gs).cnf.clauses[j]? = some ls ∧ .ofList ls = c := by
    rw [← Option.map_eq_some_iff, ← List.getElem?_map, ← hinputs, List.getElem?_map,
      Option.map_eq_some_iff]
    simp only [Trace.getElem?_inputs_eq_some_iff ht, and_assoc]
  rw [hplace]
  simp only [h.getElem?_clauses_eq_some_iff]
  constructor
  · rintro ⟨ls, ⟨g, hg, k, hj, hls⟩, he⟩
    exact ⟨g, hg, k, ls, hj, hls, he⟩
  · rintro ⟨g, hg, k, ls, hj, hls, he⟩
    exact ⟨ls, ⟨g, hg, k, hj, hls⟩, he⟩

variable (hr : content.InRange)
include hr

omit ht in
theorem largestOnly_selector {g : Guard content.numVariables} (hg : g ∈ gs) :
    t.LargestOnly g.selector.index := by
  refine Reduction.Setting.RootsLargest.largestOnly (h.traceable hr).rootsLargest (fun c hc => ?_)
    (h.mem_roots hg)
  have hmem : c.clause ∈ t.inputs.map (·.clause) := List.mem_map_of_mem hc
  rwa [hinputs] at hmem

/-- The selected clauses, and their places. -/
theorem exists_selected_iff {seed : VariableSet} {c : Clause} :
    (∃ d, j ∈ t.axiomsFor seed ∧ t.get? j = some d ∧ d.clause = c) ↔
      ∃ g ∈ gs, g.selector.index ∈ seed ∧
        ∃ k ls, j = 2 * g.position + k ∧ g.clauses[k]? = some ls ∧ .ofList ls = c := by
  have hmax : ∀ g ∈ gs, ∀ {k ls}, g.clauses[k]? = some ls →
      (Clause.ofList ls).maxVariable? = some g.selector := fun g hg _ _ hls =>
    Guard.maxVariable?_eq (h.index_le hr hg) (List.mem_of_getElem? hls)
  constructor
  · rintro ⟨d, hj, hd, rfl⟩
    obtain ⟨e, v, he, rfl, hv, hwants⟩ := Trace.mem_axiomsFor.mp hj
    obtain ⟨i, -, hi⟩ := Trace.mem_inputs_iff.mp he
    obtain rfl : e = d := Option.some.inj ((ht.get?_index hi).symm.trans hd)
    obtain ⟨g, hg, k, ls, hj, hls, hc⟩ := (h.exists_input_iff ht hinputs).mp ⟨e, he, rfl, rfl⟩
    obtain rfl : g.selector = v := Option.some.inj ((hmax g hg hls).symm.trans (hc ▸ hv))
    have honly := h.largestOnly_selector hinputs hr hg
    exact ⟨g, hg, (Trace.wants_iff_of_largestOnly honly).mp hwants, k, ls, hj, hls, hc⟩
  · rintro ⟨g, hg, hseed, k, ls, hj, hls, rfl⟩
    obtain ⟨d, hd, rfl, hc⟩ := (h.exists_input_iff ht hinputs).mpr ⟨g, hg, k, ls, hj, hls, rfl⟩
    obtain ⟨i, -, hi⟩ := Trace.mem_inputs_iff.mp hd
    refine ⟨d, Trace.mem_axiomsFor.mpr ⟨d, g.selector, hd, rfl, ?_, .seed hseed⟩,
      ht.get?_index hi, hc⟩
    rw [hc]
    exact hmax g hg hls

/-- **A selector selects its two clauses.** -/
theorem mem_axiomsFor_iff {seed : VariableSet} : j ∈ t.axiomsFor seed ↔
    ∃ g ∈ gs, g.selector.index ∈ seed ∧ (j = 2 * g.position ∨ j = 2 * g.position + 1) := by
  constructor
  · intro hj
    have hlt := Trace.lt_of_mem_axiomsFor ht hj
    obtain ⟨d, hd⟩ := Trace.exists_get? (Nat.lt_of_lt_of_le hlt ht.numAxioms_le)
    obtain ⟨g, hg, hseed, k, ls, hplace, hls, -⟩ :=
      (h.exists_selected_iff ht hinputs hr).mp ⟨d, hj, hd, rfl⟩
    have hk : k < 2 := (List.getElem?_eq_some_iff.mp hls).1
    exact ⟨g, hg, hseed, by omega⟩
  · rintro ⟨g, hg, hseed, hplace⟩
    obtain ⟨k, ls, hj, hls⟩ : ∃ k ls, j = 2 * g.position + k ∧ g.clauses[k]? = some ls := by
      obtain hj | hj := hplace
      · exact ⟨0, _, hj, rfl⟩
      · exact ⟨1, _, hj, rfl⟩
    obtain ⟨d, hmem, -⟩ := (h.exists_selected_iff ht hinputs hr).mpr
      ⟨g, hg, hseed, k, ls, hj, hls, rfl⟩
    exact hmem

/-- What satisfies the selected clauses satisfies those of the guards. -/
theorem satisfies_selected_iff {seed : VariableSet} {f : Valuation} :
    (∀ j ∈ t.axiomsFor seed, ∀ d, t.get? j = some d → f.Satisfies d.clause.literals) ↔
      ∀ g ∈ gs, g.selector.index ∈ seed → ∀ ls ∈ g.clauses, f.Satisfies ls := by
  constructor
  · intro hall g hg hseed ls hls
    obtain ⟨k, hk⟩ := List.mem_iff_getElem?.mp hls
    obtain ⟨d, hj, hd, he⟩ := (h.exists_selected_iff ht hinputs hr).mpr
      ⟨g, hg, hseed, k, ls, rfl, hk, rfl⟩
    exact Valuation.satisfies_ofList.mp (he ▸ hall _ hj d hd)
  · intro hall j hj d hd
    obtain ⟨g, hg, hseed, k, ls, -, hls, he⟩ :=
      (h.exists_selected_iff ht hinputs hr).mp ⟨d, hj, hd, rfl⟩
    rw [← he]
    exact Valuation.satisfies_ofList.mpr (hall g hg hseed ls (List.mem_of_getElem? hls))

end Selection

/-- **The guards of some clauses are satisfied by what satisfies the clauses**, with values of their
own for the selectors. -/
theorem exists_satisfies_iff (h : Guards content gs) (hr : content.InRange) (positions : List Nat)
    {β : Values} :
    (∃ f : Valuation, (∀ v : Variable, v.index ≤ content.numVariables → f v = β v.index) ∧
      ∀ g ∈ gs, g.position ∈ positions → ∀ ls ∈ g.clauses, f.Satisfies ls) ↔
      ∀ i ∈ positions, ∀ codes, content.clauses[i]? = some codes → β.Satisfies codes := by
  constructor
  · rintro ⟨f, hf, hall⟩ i hi codes hcodes
    rw [← h.codes_eq, List.getElem?_map, Option.map_eq_some_iff] at hcodes
    obtain ⟨g, hget, rfl⟩ := hcodes
    have hg := List.mem_of_getElem? hget
    have hposition : g.position ∈ positions := by rwa [h.position_eq hget]
    obtain ⟨l, hl, hmakes⟩ := Guard.satisfies_literals (hall g hg hposition)
    refine Values.satisfies_valuation_iff.mp ⟨l, hl, ?_⟩
    exact (hf l.var (h.index_le hr hg l hl)).symm.trans hmakes
  · intro hall
    -- all selectors are true
    refine ⟨guarding content.numVariables β fun _ => true, fun v hv => if_pos hv,
      fun g hg hposition ls hls => ?_⟩
    have hcodes := hall g.position hposition g.codes (h.clause_eq hg)
    obtain rfl | rfl := Guard.mem_clauses.mp hls
    · exact satisfies_asserted rfl
    · exact h.satisfies_guarding hr hg fun _ => hcodes

theorem index_mem_ofList_iff {g : Guard n} {positions : List Nat} :
    g.selector.index ∈ IndexSet.ofList (positions.map (n + · + 1)) ↔ g.position ∈ positions := by
  rw [IndexSet.mem_ofList, List.mem_map, g.index_eq]
  constructor
  · rintro ⟨i, hi, he⟩
    obtain rfl : i = g.position := by omega
    exact hi
  · exact fun hi => ⟨_, hi, rfl⟩

end Guards

theorem codes_within_of_read {bytes : List UInt8} (h : read bytes = .ok content) :
    Within content.numVariables content.clauses := by
  obtain ⟨-, -, -, hclean⟩ := holds_of_read h
  intro codes hcodes code hcode
  refine ⟨Int.natAbs_pos.mpr ?_, natAbs_le_of_read h codes hcodes code hcode⟩
  rintro rfl
  exact hclean codes hcodes hcode

/-- **Selectors stand for the clauses.**  An instance without annotations is refused if it has
clauses and too few variables are left to guard them.  Otherwise each clause has a selector past the
variables of the instance, which the translation asserts and which implies the clause.  From a trace
of the translation, selectors select the two clauses of each of their guards, and values satisfy the
clauses that are guarded if and only if they extend to all that is selected. -/
theorem selectors_of_read {bytes : List UInt8} (hread : read bytes = .ok content)
    (hroots : content.roots = []) :
    let n := content.numVariables
    let m := content.clauses.length
    (0 < m ∧ Variable.maxIndex < n + m →
      (translate content ()).answer = .error ⟨"too many clauses to guard"⟩) ∧
    (¬ (0 < m ∧ Variable.maxIndex < n + m) → ∃ tr, (translate content ()).answer = .ok tr ∧
      tr.log.rootVars.map (·.index) = (List.range m).map (n + · + 1) ∧
      tr.log.rootVars.Nodup ∧ (∀ v ∈ tr.log.rootVars, n < v.index) ∧
      tr.cnf.clauses.map (·.map (·.toDimacs)) = content.clauses.zipIdx.flatMap (fun (codes, i) =>
        [[(n + i + 1 : Int)], codes ++ [-(n + i + 1 : Int)]]) ∧
      ∀ t : Trace, t.WellFormed → t.inputs.map (·.clause) = tr.cnf.clauses.map .ofList →
        ∀ positions : List Nat,
          let selected := t.axiomsFor (.ofList (positions.map (n + · + 1)))
          (∀ j, j ∈ selected ↔ ∃ i ∈ positions, i < m ∧ (j = 2 * i ∨ j = 2 * i + 1)) ∧
          ∀ β : Values,
            (∃ f : Valuation, (∀ v : Variable, v.index ≤ n → f v = β v.index) ∧
              ∀ j ∈ selected, ∀ d, t.get? j = some d → f.Satisfies d.clause.literals) ↔
            ∀ i ∈ positions, ∀ codes, content.clauses[i]? = some codes → β.Satisfies codes) := by
  intro n m
  have hwithin : Within n content.clauses := codes_within_of_read hread
  have hr : content.InRange := inRange_of_read hread
  have hanswer := answer_translate_guarded hroots
  refine ⟨fun ⟨hpos, hlt⟩ => ?_, fun hfits => ?_⟩
  · rw [hanswer, guardedFrom_eq_error hwithin (List.ne_nil_of_length_pos hpos) hlt]
    rfl
  · have hroom : content.clauses = [] ∨ n + 0 + m ≤ Variable.maxIndex := by
      rw [← List.length_eq_zero_iff]
      omega
    obtain ⟨r, hguarded⟩ := exists_guardedFrom_eq_ok (i := 0) hwithin hroom
    obtain ⟨gs, h, he⟩ := guards_of_guardedFrom hguarded
    have hroot : ∀ v ∈ (guardedBy gs).log.rootVars, ∃ g ∈ gs, g.selector = v := fun v hv => by
      rwa [h.rootVars_eq, List.mem_map] at hv
    refine ⟨guardedBy gs, ?_, ?_, h.rootVars_eq ▸ h.nodup_selectors, fun v hv => ?_,
      h.codes_clauses, fun t ht hinputs positions => ⟨fun j => ?_, fun β => ?_⟩⟩
    · rw [hanswer, hguarded, ← he]
      rfl
    · rw [h.rootVars_eq, ← h.positions_eq, List.map_map, List.map_map]
      exact List.map_congr_left fun g _ => g.index_eq
    · obtain ⟨g, -, rfl⟩ := hroot v hv
      exact g.lt_index
    · rw [h.mem_axiomsFor_iff ht hinputs hr]
      simp only [Guards.index_mem_ofList_iff]
      constructor
      · rintro ⟨g, hg, hposition, hj⟩
        exact ⟨_, hposition, h.mem_positions_iff.mp ⟨g, hg, rfl⟩, hj⟩
      · rintro ⟨i, hi, hlt, hj⟩
        obtain ⟨g, hg, rfl⟩ := h.mem_positions_iff.mpr hlt
        exact ⟨g, hg, hi, hj⟩
    · rw [← h.exists_satisfies_iff hr]
      simp only [h.satisfies_selected_iff ht hinputs hr, Guards.index_mem_ofList_iff]
      rfl

/-- A tautology, an empty clause, and a clause that is repeated. -/
def repeated : AnnotatedCnf := ⟨2, [[1, -1], [], [1, 2], [1, 2]], []⟩

/-- A refutation of its translation by the guard of the empty clause. -/
def repeatedRefuted : Trace :=
  let clause (codes : List Int) : Clause := .ofList (codes.filterMap Literal.ofDimacs?)
  ⟨#[⟨0, clause [3], []⟩, ⟨1, clause [1, -1, -3], []⟩, ⟨2, clause [4], []⟩, ⟨3, clause [-4], []⟩,
    ⟨4, clause [5], []⟩, ⟨5, clause [1, 2, -5], []⟩, ⟨6, clause [6], []⟩,
    ⟨7, clause [1, 2, -6], []⟩, ⟨8, .empty, [2, 3]⟩], 8⟩

/-- The selector of the empty clause selects two clauses that nothing satisfies.  With all variables
used by the instance, there is none for a selector. -/
theorem selectors_of_read_repeated :
    (let bytes := "p cnf 2 4\n1 -1 0\n0\n1 2 0\n1 2 0\n".toList.map (·.toNat.toUInt8)
     read bytes = .ok repeated ∧ repeated.roots = [] ∧
      ∃ tr, (translate repeated ()).answer = .ok tr ∧ tr.log.rootVars.map (·.index) = [3, 4, 5, 6] ∧
        repeatedRefuted.inputs.map (·.clause) = tr.cnf.clauses.map .ofList ∧
        3 ∈ repeatedRefuted.axiomsFor (.ofList [4]) ∧
        5 ∉ repeatedRefuted.axiomsFor (.ofList [4]) ∧
        ¬ ∃ f : Valuation, (∀ v : Variable, v.index ≤ 2 → f v = true) ∧
          ∀ j ∈ repeatedRefuted.axiomsFor (.ofList [4]), ∀ d, repeatedRefuted.get? j = some d →
            f.Satisfies d.clause.literals) ∧
    (let bytes := "p cnf 2147483647 1\n1 0\n".toList.map (·.toNat.toUInt8)
     read bytes = .ok ⟨2147483647, [[1]], []⟩ ∧
      (translate ⟨2147483647, [[1]], []⟩ ()).answer = .error ⟨"too many clauses to guard"⟩) := by
  constructor
  · intro bytes
    have hread : read bytes = .ok repeated := rfl
    obtain ⟨tr, htr, hroots, -, -, -, hselects⟩ := (selectors_of_read hread rfl).2 (by decide)
    have hinputs : repeatedRefuted.inputs.map (·.clause) = tr.cnf.clauses.map .ofList := by
      obtain ⟨tr', htr', he⟩ : ∃ tr', (translate repeated ()).answer = .ok tr' ∧
          repeatedRefuted.inputs.map (·.clause) = tr'.cnf.clauses.map .ofList :=
        ⟨_, rfl, by decide⟩
      rwa [Except.ok.inj (htr.symm.trans htr')]
    obtain ⟨hselected, hsatisfied⟩ := hselects repeatedRefuted (by decide) hinputs [1]
    refine ⟨hread, rfl, tr, htr, hroots, hinputs, ?_, fun h => ?_, fun h => ?_⟩
    · exact (hselected 3).mpr ⟨1, by decide, by decide, by decide⟩
    · obtain ⟨i, hi, -, hj⟩ := (hselected 5).mp h
      obtain rfl := List.mem_singleton.mp hi
      omega
    · obtain ⟨code, hcode, -⟩ := (hsatisfied fun _ => true).mp h 1 (by decide) [] rfl
      exact absurd hcode List.not_mem_nil
  · intro bytes
    have hread : read bytes = .ok ⟨2147483647, [[1]], []⟩ := rfl
    exact ⟨hread, (selectors_of_read hread rfl).1 (by decide)⟩

end ModelFinder.Dimacs.Encoding
