import ModelFinder.Proofs.Dimacs.Satisfaction
import ModelFinder.Proofs.Pipeline

/-!
# Guarded clauses

The translation of an instance without annotations has a `Guard` for each clause: a selector past
the variables of the instance, which is asserted, and implies the clause.  The selectors are the
roots, each the largest variable of its two clauses and of no other
(`Guards.traceable`), and each tells its clause (`Guards.rootFormula?_eq`).

Values of the variables of an instance and of its selectors make up a valuation (`guarding`), which
satisfies the clauses of a guard if it asserts the selector and satisfies the guarded clause.
-/

namespace ModelFinder.Dimacs.Encoding

variable {content : AnnotatedCnf} {tr : Translation logic} {n : Nat}

/-! ### Guards -/

/-- The clause at a position of an instance with `n` variables, and its selector. -/
structure Guard (n : Nat) where
  position : Nat
  selector : Variable
  literals : List Literal
  index_eq : selector.index = n + position + 1

namespace Guard

/-- The codes of the clause. -/
def codes (g : Guard n) : List Int := g.literals.map (·.toDimacs)

/-- The selector is asserted, and it implies the clause. -/
def clauses (g : Guard n) : List (List Literal) :=
  [[⟨g.selector, true⟩], g.literals ++ [⟨g.selector, false⟩]]

/-- The selector is the root of the clause. -/
def record (g : Guard n) : TranslationRecord logic :=
  Encoding.record g.selector s!"clause {g.position + 1}"

theorem mem_clauses {g : Guard n} {ls : List Literal} :
    ls ∈ g.clauses ↔ ls = [⟨g.selector, true⟩] ∨ ls = g.literals ++ [⟨g.selector, false⟩] := by
  simp [clauses]

theorem lt_index (g : Guard n) : n < g.selector.index := by
  rw [g.index_eq]
  exact Nat.lt_succ_of_le (Nat.le_add_right n g.position)

theorem position_eq_of_selector_eq {g g' : Guard n} (h : g.selector = g'.selector) :
    g.position = g'.position := by
  have hindex := g.index_eq
  rw [h, g'.index_eq] at hindex
  omega

/-- What satisfies both clauses of a guard satisfies the guarded clause. -/
theorem satisfies_literals {g : Guard n} {f : Valuation}
    (h : ∀ ls ∈ g.clauses, f.Satisfies ls) : f.Satisfies g.literals := by
  obtain ⟨l, hl, htrue⟩ := h _ (mem_clauses.mpr (.inl rfl))
  obtain rfl := List.mem_singleton.mp hl
  obtain ⟨k, hk, hfk⟩ := h _ (mem_clauses.mpr (.inr rfl))
  rcases List.mem_append.mp hk with hk | hk
  · exact ⟨k, hk, hfk⟩
  · obtain rfl := List.mem_singleton.mp hk
    exact absurd (Eq.trans (Eq.symm htrue) hfk) Bool.noConfusion

/-- The selector is the largest variable of both clauses. -/
theorem maxVariable?_eq {g : Guard n} (hle : ∀ l ∈ g.literals, l.var.index ≤ n)
    {ls : List Literal} (hls : ls ∈ g.clauses) :
    (Clause.ofList ls).maxVariable? = some g.selector := by
  rcases mem_clauses.mp hls with rfl | rfl
  · refine Clause.maxVariable?_ofList ⟨_, List.mem_cons_self, rfl⟩ fun l hl => ?_
    obtain rfl := List.mem_singleton.mp hl
    exact Nat.le_refl _
  · refine Clause.maxVariable?_ofList ⟨_, List.mem_append_right _ List.mem_cons_self, rfl⟩
      fun l hl => ?_
    rcases List.mem_append.mp hl with hl | hl
    · exact Nat.le_of_lt (Nat.lt_of_le_of_lt (hle l hl) g.lt_index)
    · obtain rfl := List.mem_singleton.mp hl
      exact Nat.le_refl _

end Guard

/-- Guarding the clauses from a position on. -/
theorem guardedFrom_eq_ok {i : Nat} {cs : List (List Int)} {clauses : List (List Literal)}
    {records : List (TranslationRecord logic)} (h : guardedFrom n i cs = .ok (clauses, records)) :
    ∃ gs : List (Guard n), gs.map (·.codes) = cs ∧ gs.map (·.position) = List.range' i cs.length ∧
      clauses = gs.flatMap (·.clauses) ∧ records = gs.map (·.record) := by
  induction cs generalizing i clauses records with
  | nil =>
      cases h
      exact ⟨[], rfl, rfl, rfl, rfl⟩
  | cons codes cs ih =>
      obtain ⟨⟨these, record⟩, hguarded, h⟩ := bind_eq_ok.mp h
      obtain ⟨⟨more, records'⟩, hrest, h⟩ := bind_eq_ok.mp h
      cases h
      obtain ⟨gs, hcodes, hpositions, rfl, rfl⟩ := ih hrest
      obtain ⟨v, hv, hguarded⟩ := bind_eq_ok.mp hguarded
      obtain ⟨ls, hls, hguarded⟩ := bind_eq_ok.mp hguarded
      cases hguarded
      have hindex : v.index = n + i + 1 := by
        unfold selector at hv
        split at hv
        next w hw => cases hv; exact Variable.ofIndex?_eq_some_iff.mp hw
        next => cases hv
      refine ⟨⟨i, v, ls, hindex⟩ :: gs, ?_, ?_, rfl, rfl⟩
      · rw [List.map_cons, hcodes, Guard.codes, literals_eq_ok.mp hls]
      · rw [List.map_cons, hpositions, List.length_cons, List.range'_succ]

/-- Guards for all clauses of an instance, in order. -/
structure Guards (content : AnnotatedCnf) (gs : List (Guard content.numVariables)) : Prop where
  codes_eq : gs.map (·.codes) = content.clauses
  positions_eq : gs.map (·.position) = List.range content.clauses.length

/-- The translation made of some guards. -/
def guardedBy (gs : List (Guard n)) : Translation logic :=
  ⟨⟨n, gs.flatMap (·.clauses)⟩, .filled n (gs.map (·.record))⟩

namespace Guards

variable {gs : List (Guard content.numVariables)} {g g' : Guard content.numVariables}

theorem position_eq (h : Guards content gs) {i : Nat} (hg : gs[i]? = some g) :
    g.position = i := by
  have hposition : (gs.map (·.position))[i]? = some g.position := by rw [List.getElem?_map, hg]; rfl
  rw [h.positions_eq] at hposition
  obtain ⟨hlt, he⟩ := List.getElem?_eq_some_iff.mp hposition
  rw [← he, List.getElem_range]

theorem getElem?_position (h : Guards content gs) (hg : g ∈ gs) : gs[g.position]? = some g := by
  obtain ⟨i, hi⟩ := List.mem_iff_getElem?.mp hg
  rwa [h.position_eq hi]

theorem mem_positions_iff (h : Guards content gs) {i : Nat} :
    (∃ g ∈ gs, g.position = i) ↔ i < content.clauses.length := by
  rw [← List.mem_map, h.positions_eq, List.mem_range]

theorem clause_eq (h : Guards content gs) (hg : g ∈ gs) :
    content.clauses[g.position]? = some g.codes := by
  rw [← h.codes_eq, List.getElem?_map, h.getElem?_position hg]
  rfl

theorem eq_of_selector_eq (h : Guards content gs) (hg : g ∈ gs) (hg' : g' ∈ gs)
    (he : g.selector = g'.selector) : g = g' := by
  have hget := h.getElem?_position hg
  rw [Guard.position_eq_of_selector_eq he, h.getElem?_position hg'] at hget
  exact (Option.some.inj hget).symm

theorem index_le (h : Guards content gs) (hr : content.InRange) (hg : g ∈ gs) :
    ∀ l ∈ g.literals, l.var.index ≤ content.numVariables := by
  intro l hl
  rw [← l.natAbs_toDimacs]
  exact hr g.codes (List.mem_of_getElem? (h.clause_eq hg)) l.toDimacs (List.mem_map_of_mem hl)

/-! ### Roots -/

theorem records_eq (gs : List (Guard n)) : (guardedBy gs).log.records = gs.map (·.record) :=
  TranslationLog.records_filled ..

theorem isRoot_of_mem_records : ∀ r ∈ (guardedBy gs).log.records, ∃ f, r.origin = .root f := by
  intro r hr
  rw [records_eq] at hr
  obtain ⟨g, -, rfl⟩ := List.mem_map.mp hr
  exact ⟨_, rfl⟩

theorem nodup_selectors (h : Guards content gs) : (gs.map (·.selector)).Nodup := by
  have hpositions : (gs.map (·.position)).Nodup := by
    rw [h.positions_eq]
    exact List.nodup_range
  rw [List.Nodup, List.pairwise_map] at hpositions ⊢
  exact hpositions.imp fun hne he => hne (Guard.position_eq_of_selector_eq he)

theorem rootVars_eq (h : Guards content gs) :
    (guardedBy gs).log.rootVars = gs.map (·.selector) := by
  have hrecords : (guardedBy gs).log.records.map (·.var) = gs.map (·.selector) := by
    rw [records_eq]
    exact List.map_map
  rw [TranslationLog.rootVars_eq_distinct isRoot_of_mem_records, hrecords,
    TranslationLog.distinct_eq_self h.nodup_selectors]

theorem mem_roots (h : Guards content gs) (hg : g ∈ gs) :
    g.selector ∈ (guardedBy gs).setting.roots := by
  show g.selector ∈ (guardedBy gs).log.rootVars
  rw [h.rootVars_eq]
  exact List.mem_map_of_mem hg

/-- The root of a clause tells its number. -/
theorem rootFormula?_eq (h : Guards content gs) (hg : g ∈ gs) :
    (guardedBy gs).log.rootFormula? g.selector =
      some (.root g.selector s!"clause {g.position + 1}") := by
  have hsome : ((gs.map (·.record)).find? fun r => decide (r.var = g.selector)).isSome := by
    rw [List.find?_isSome]
    exact ⟨g.record, List.mem_map_of_mem hg, decide_eq_true rfl⟩
  obtain ⟨r, hr⟩ := Option.isSome_iff_exists.mp hsome
  obtain ⟨g', hg', rfl⟩ := List.mem_map.mp (List.mem_of_find?_eq_some hr)
  have hselector : g'.record.var = g.selector := by simpa using List.find?_some hr
  obtain rfl := h.eq_of_selector_eq hg' hg hselector
  simp only [TranslationLog.rootFormula?, TranslationLog.origin?_eq_find?, records_eq, hr,
    Option.map_some]
  rfl

theorem mem_clauses {ls : List Literal} :
    ls ∈ (guardedBy gs).cnf.clauses ↔ ∃ g ∈ gs, ls ∈ g.clauses := List.mem_flatMap

/-- A selector occurs only in the clauses of its guard. -/
theorem selector_of_mem (h : Guards content gs) (hr : content.InRange) (hg : g ∈ gs)
    {ls : List Literal} (hls : ls ∈ g.clauses) {l : Literal} (hl : l ∈ ls)
    (hlt : content.numVariables < l.var.index) : l.var = g.selector := by
  rcases Guard.mem_clauses.mp hls with rfl | rfl
  · rw [List.mem_singleton.mp hl]
  · rcases List.mem_append.mp hl with hl | hl
    · exact absurd (h.index_le hr hg l hl) (Nat.not_le.mpr hlt)
    · rw [List.mem_singleton.mp hl]

/-- Selectors are the largest variables of their clauses. -/
theorem traceable (h : Guards content gs) (hr : content.InRange) : (guardedBy gs).Traceable := by
  refine ⟨fun v hv c hc l hl hlv => ?_, isRoot_of_mem_records⟩
  have hroots : v ∈ gs.map (·.selector) := by rw [← h.rootVars_eq]; exact hv
  obtain ⟨g, -, rfl⟩ := List.mem_map.mp hroots
  obtain ⟨ls, hls, rfl⟩ := List.mem_map.mp hc
  obtain ⟨g', hg', hls⟩ := mem_clauses.mp hls
  have hlt : content.numVariables < l.var.index := by rw [hlv]; exact g.lt_index
  rw [← hlv, h.selector_of_mem hr hg' hls (Clause.mem_ofList.mp hl) hlt]
  exact Guard.maxVariable?_eq (h.index_le hr hg') hls

end Guards

/-! ### Values for selectors -/

/-- Values for the variables of an instance, and for the selectors past them. -/
def guarding (n : Nat) (β : Values) (on : Variable → Bool) : Valuation := fun v =>
  if v.index ≤ n then β v.index else on v

theorem Guards.satisfies_guarding {gs : List (Guard content.numVariables)}
    (h : Guards content gs) (hr : content.InRange) {g : Guard content.numVariables} (hg : g ∈ gs)
    {β : Values} {on : Variable → Bool} (hsat : on g.selector = true → β.Satisfies g.codes) :
    (guarding content.numVariables β on).Satisfies (g.literals ++ [⟨g.selector, false⟩]) := by
  have hselector : guarding content.numVariables β on g.selector = on g.selector :=
    if_neg (Nat.not_le.mpr g.lt_index)
  by_cases hon : on g.selector = true
  · obtain ⟨l, hl, hf⟩ := Values.satisfies_valuation_iff.mpr (hsat hon)
    refine ⟨l, List.mem_append_left _ hl, ?_⟩
    show guarding content.numVariables β on l.var = l.positive
    rw [guarding, if_pos (h.index_le hr hg l hl)]
    exact hf
  · refine ⟨_, List.mem_append_right _ List.mem_cons_self, ?_⟩
    rw [Valuation.Makes, hselector]
    exact Bool.eq_false_iff.mpr hon

theorem Guards.satisfies_asserted {g : Guard n} {β : Values} {on : Variable → Bool}
    (h : on g.selector = true) : (guarding n β on).Satisfies [⟨g.selector, true⟩] := by
  refine ⟨_, List.mem_cons_self, ?_⟩
  show guarding n β on g.selector = true
  rw [guarding, if_neg (Nat.not_le.mpr g.lt_index), h]

end ModelFinder.Dimacs.Encoding
