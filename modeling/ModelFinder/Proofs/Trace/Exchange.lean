import ModelFinder.Proofs.Attempts
import ModelFinder.Proofs.Trace.Derivation
import ModelFinder.Proofs.Trace.Reach
import ModelFinder.Proofs.TraceCheck.RoundTrip
import ModelFinder.Trace.Exchange

/-!
# Traces that are imported as they were exported

An import puts the input clauses first and ends at the first empty clause.  So what it makes is a
trace with one empty clause at the end of its input clauses or of all clauses
(`Trace.Exchangeable`, `exchangeable_of_ofSteps`), and such a trace loses nothing on the way out and
in again (`Exchangeable.ofSteps_toSteps`).

Both directions go through the steps one by one.  An import that follows a trace up to a position
(`Import.Follows`) is given the step of the clause there, and follows it one position further
(`Follows.exists_inputs`, `Follows.exists_resolvents`).  What a step makes of any import is read off
`inputs_cons_eq_ok` and `resolvents_cons_eq_ok`.

What is written is the text of the steps, as long as there are numbers for them (`write_eq`): the
number that the table of an export has for a clause is one more than its position
(`Export.Numbers.foldlM_log`).
-/

namespace ModelFinder

namespace Trace

open TraceCheck (Step)

variable {t : Trace} {m m' : Import} {s : Step} {steps : List Step} {cs : List TraceClause}
  {c : TraceClause} {k : Nat}

/-- The last clause of the list is empty, and no other is. -/
def OnlyLastEmpty (cs : List TraceClause) : Prop :=
  ∃ ds c, cs = ds ++ [c] ∧ c.clause = .empty ∧ ∀ d ∈ ds, d.clause ≠ .empty

theorem onlyLastEmpty_concat (hcs : ∀ d ∈ cs, d.clause ≠ .empty) (hc : c.clause = .empty) :
    OnlyLastEmpty (cs ++ [c]) := ⟨cs, c, rfl, hc, hcs⟩

theorem OnlyLastEmpty.cons (h : OnlyLastEmpty cs) (hc : c.clause ≠ .empty) :
    OnlyLastEmpty (c :: cs) := by
  obtain ⟨ds, d, rfl, hd, hds⟩ := h
  exact ⟨c :: ds, d, rfl, hd, List.forall_mem_cons.mpr ⟨hc, hds⟩⟩

/-- A trace with one empty clause at the end of what it derives, or with one at the end of its input
clauses and nothing else derived but the empty clause from it. -/
inductive Exchangeable (t : Trace) : Prop
  | derived (wellFormed : t.WellFormed) (inputs : ∀ c ∈ t.inputs, c.clause ≠ .empty)
      (derived : OnlyLastEmpty t.derived)
  | input (wellFormed : t.WellFormed) (inputs : OnlyLastEmpty t.inputs)
      (derived : t.derived = [⟨t.numAxioms, .empty, [t.numAxioms - 1]⟩])

theorem Exchangeable.wellFormed (h : t.Exchangeable) : t.WellFormed := by
  cases h with
  | derived h | input h => exact h

theorem inputs_append_derived (t : Trace) : t.clauses.toList = t.inputs ++ t.derived :=
  (List.take_append_drop _ _).symm

/-! ### One step of an import -/

namespace Builder

variable {b b' : Builder} {ls : List Literal} {as : List Nat}

theorem toList_addAxiom (h : b.addAxiom ls = .ok (c, b')) :
    b'.clauses.toList = b.clauses.toList ++ [c] ∧ b'.numAxioms = b.numAxioms + 1 ∧
      c = ⟨b.size, .ofList ls, []⟩ := by
  obtain ⟨-, hc, rfl⟩ := addAxiom_eq_ok.mp h
  exact ⟨Array.toList_push, rfl, hc⟩

theorem toList_addResolvent (h : b.addResolvent ls as = .ok (c, b')) :
    b'.clauses.toList = b.clauses.toList ++ [c] ∧ b'.numAxioms = b.numAxioms ∧
      c = ⟨b.size, .ofList ls, as⟩ := by
  obtain ⟨-, -, hc, rfl⟩ := addResolvent_eq_ok.mp h
  exact ⟨Array.toList_push, rfl, hc⟩

theorem length_toList (b : Builder) : b.clauses.toList.length = b.size := Array.length_toList

end Builder

namespace Import

theorem define_eq_ok {b : Builder} :
    m.define s c b = .ok m' ↔ m.positions[s.id]? = none ∧
      m' = ⟨b, m.positions.insert s.id c.index⟩ := by
  rw [define, Std.HashMap.contains_eq_isSome_getElem?]
  cases m.positions[s.id]? with
  | none => simp [eq_comm]
  | some i => simp

theorem inputs_cons_eq_ok {r : Import × Option Nat} :
    m.inputs (s :: steps) = .ok r ↔ ∃ ls, literals s = .ok ls ∧ ∃ c b,
      m.builder.addAxiom ls = .ok (c, b) ∧ ∃ m', m.define s c b = .ok m' ∧
        if s.isEmptyClause then r = (m', some c.index) else m'.inputs steps = .ok r := by
  rw [inputs, bind_eq_ok]
  refine exists_congr fun ls => and_congr_right fun _ => ?_
  rw [bind_eq_ok, Prod.exists]
  refine exists_congr fun c => exists_congr fun b => and_congr_right fun _ => ?_
  rw [bind_eq_ok]
  refine exists_congr fun m' => and_congr_right fun _ => ?_
  split
  next => exact ⟨fun h => (Except.ok.inj h).symm, fun h => congrArg Except.ok h.symm⟩
  next => exact Iff.rfl

theorem resolvents_cons_eq_ok {r : Import} :
    m.resolvents (s :: steps) = .ok r ↔ ∃ as, m.antecedents s = .ok as ∧ ∃ ls,
      literals s = .ok ls ∧ ∃ c b, m.builder.addResolvent ls as = .ok (c, b) ∧ ∃ m',
        m.define s c b = .ok m' ∧
          if s.isEmptyClause then r = m' else m'.resolvents steps = .ok r := by
  rw [resolvents, bind_eq_ok]
  refine exists_congr fun as => and_congr_right fun _ => ?_
  rw [bind_eq_ok]
  refine exists_congr fun ls => and_congr_right fun _ => ?_
  rw [bind_eq_ok, Prod.exists]
  refine exists_congr fun c => exists_congr fun b => and_congr_right fun _ => ?_
  rw [bind_eq_ok]
  refine exists_congr fun m' => and_congr_right fun _ => ?_
  split
  next => exact ⟨fun h => (Except.ok.inj h).symm, fun h => congrArg Except.ok h.symm⟩
  next => exact Iff.rfl

/-- The clause of a step is empty if the step says so. -/
theorem ofList_eq_empty_iff {ls : List Literal} (h : literals s = .ok ls) :
    Clause.ofList ls = .empty ↔ s.isEmptyClause = true := by
  have hlength : s.literals.length = ls.length := by
    have := congrArg List.length (mapM_eq_ok.mp h)
    rwa [List.length_map, List.length_map] at this
  rw [Clause.ofList_eq_empty, Step.isEmptyClause, List.isEmpty_iff, ← List.length_eq_zero_iff,
    ← List.length_eq_zero_iff, hlength]

end Import

/-! ### What an import makes -/

/-- Input clauses only, none of them empty. -/
structure Opened (b : Builder) : Prop where
  wellFormed : b.trace.WellFormed
  numAxioms_eq : b.numAxioms = b.size
  nonempty : ∀ c ∈ b.clauses.toList, c.clause ≠ .empty

theorem opened_empty : Opened .empty :=
  ⟨wellFormed_empty, rfl, fun _ h => absurd h List.not_mem_nil⟩

/-- The input clauses end with an empty one, or there is none among them. -/
theorem of_inputs_eq_ok {r : Option Nat} (hm : Opened m.builder)
    (h : m.inputs steps = .ok (m', r)) :
    (r = none ∧ Opened m'.builder) ∨ m'.builder.trace.WellFormed ∧
      m'.builder.numAxioms = m'.builder.size ∧ OnlyLastEmpty m'.builder.clauses.toList ∧
      r = some (m'.builder.size - 1) := by
  induction steps generalizing m with
  | nil => cases h; exact .inl ⟨rfl, hm⟩
  | cons s steps ih =>
      obtain ⟨ls, hls, c, b, hadd, m₁, hdefine, h⟩ := Import.inputs_cons_eq_ok.mp h
      obtain ⟨-, rfl⟩ := Import.define_eq_ok.mp hdefine
      have hwf := hm.wellFormed.addAxiom hadd
      obtain ⟨hlist, hnum, hc⟩ := Builder.toList_addAxiom hadd
      have hclause : c.clause = .ofList ls := congrArg TraceClause.clause hc
      have hsize : b.size = m.builder.size + 1 := by
        rw [← b.length_toList, hlist, List.length_append, m.builder.length_toList]
        rfl
      have hnum' : b.numAxioms = b.size := by rw [hnum, hsize, hm.numAxioms_eq]
      by_cases hempty : s.isEmptyClause = true
      · rw [if_pos hempty, Prod.mk.injEq] at h
        obtain ⟨rfl, rfl⟩ := h
        have hce : c.clause = .empty := hclause.trans ((Import.ofList_eq_empty_iff hls).mpr hempty)
        refine .inr ⟨hwf, hnum', hlist ▸ onlyLastEmpty_concat hm.nonempty hce, ?_⟩
        rw [hsize, hc]
        rfl
      · rw [if_neg hempty] at h
        have hce : c.clause ≠ .empty := hclause ▸ mt (Import.ofList_eq_empty_iff hls).mp hempty
        refine ih ⟨hwf, hnum', ?_⟩ h
        rw [hlist, List.forall_mem_append]
        exact ⟨hm.nonempty, List.forall_mem_singleton.mpr hce⟩

/-- The resolvents end with an empty one, or there is none among them. -/
theorem of_resolvents_eq_ok (hm : m.builder.trace.WellFormed)
    (h : m.resolvents steps = .ok m') :
    m'.builder.trace.WellFormed ∧ m'.builder.numAxioms = m.builder.numAxioms ∧
      ∃ ds, m'.builder.clauses.toList = m.builder.clauses.toList ++ ds ∧
        ((∀ d ∈ ds, d.clause ≠ .empty) ∨ OnlyLastEmpty ds) := by
  induction steps generalizing m with
  | nil =>
      cases h
      exact ⟨hm, rfl, [], (List.append_nil _).symm, .inl fun _ hd => absurd hd List.not_mem_nil⟩
  | cons s steps ih =>
      obtain ⟨as, -, ls, hls, c, b, hadd, m₁, hdefine, h⟩ := Import.resolvents_cons_eq_ok.mp h
      obtain ⟨-, rfl⟩ := Import.define_eq_ok.mp hdefine
      have hwf := hm.addResolvent hadd
      obtain ⟨hlist, hnum, hc⟩ := Builder.toList_addResolvent hadd
      have hclause : c.clause = .ofList ls := congrArg TraceClause.clause hc
      by_cases hempty : s.isEmptyClause = true
      · rw [if_pos hempty] at h
        subst h
        have hce : c.clause = .empty := hclause.trans ((Import.ofList_eq_empty_iff hls).mpr hempty)
        refine ⟨hwf, hnum, [c], hlist, .inr ⟨[], c, rfl, hce, ?_⟩⟩
        exact fun d hd => absurd hd List.not_mem_nil
      · rw [if_neg hempty] at h
        have hce : c.clause ≠ .empty := hclause ▸ mt (Import.ofList_eq_empty_iff hls).mp hempty
        obtain ⟨hwf', hnum', ds, hlist', hds⟩ := ih hwf h
        refine ⟨hwf', hnum'.trans hnum, c :: ds, ?_, ?_⟩
        · rw [hlist', hlist, List.append_assoc]
          rfl
        · exact hds.imp (fun h => List.forall_mem_cons.mpr ⟨hce, h⟩) fun h => h.cons hce

/-- The clauses of a trace that was built by derivations from input clauses alone. -/
theorem inputs_and_derived {b b' : Builder} {ds : List TraceClause} (hnum : b.numAxioms = b.size)
    (hnum' : b'.numAxioms = b.numAxioms) (hlist : b'.clauses.toList = b.clauses.toList ++ ds) :
    b'.trace.inputs = b.clauses.toList ∧ b'.trace.derived = ds := by
  have hlength : b'.numAxioms = b.clauses.toList.length := by
    rw [hnum', hnum, b.length_toList]
  constructor
  · show b'.clauses.toList.take b'.numAxioms = _
    rw [hlist, hlength, List.take_left]
  · show b'.clauses.toList.drop b'.numAxioms = _
    rw [hlist, hlength, List.drop_left]

/-- **What an import makes** ends with its first empty clause. -/
theorem exchangeable_of_ofSteps (h : ofSteps steps = .ok t) : t.Exchangeable := by
  obtain ⟨⟨m, r⟩, hinputs, h⟩ := bind_eq_ok.mp h
  obtain ⟨rfl, hm⟩ | ⟨hwf, hnum, hlast, rfl⟩ := of_inputs_eq_ok opened_empty hinputs
  · obtain ⟨m', hresolvents, hbuild⟩ := bind_eq_ok.mp h
    obtain ⟨rfl, hends⟩ := build_eq_ok_iff.mp hbuild
    obtain ⟨hwf, hnum, ds, hlist, hds⟩ := of_resolvents_eq_ok hm.wellFormed hresolvents
    obtain ⟨hins, hder⟩ := inputs_and_derived hm.numAxioms_eq hnum hlist
    refine .derived hwf (hins ▸ hm.nonempty) (hder ▸ hds.resolve_left fun hall => ?_)
    -- without an empty clause the trace can not be finished
    obtain ⟨c, hc, hempty⟩ := hends
    have hmem := mem_clauses_iff.mpr ⟨_, hc⟩
    rw [show m'.builder.trace.clauses.toList = _ from hlist] at hmem
    exact (List.mem_append.mp hmem).elim (fun h => hm.nonempty c h hempty) fun h => hall c h hempty
  · obtain ⟨⟨c, b⟩, hadd, hbuild⟩ := bind_eq_ok.mp h
    obtain ⟨rfl, -⟩ := build_eq_ok_iff.mp hbuild
    obtain ⟨hlist, hnum', hc⟩ := Builder.toList_addResolvent hadd
    obtain ⟨hins, hder⟩ := inputs_and_derived hnum hnum' hlist
    have hnumAxioms : b.trace.numAxioms = m.builder.size := hnum'.trans hnum
    refine .input (hwf.addResolvent hadd) (hins ▸ hlast) ?_
    rw [hder, hc, hnumAxioms]
    rfl

/-! ### Importing what was exported -/

/-- The step of a clause. -/
def exported (c : TraceClause) : Step :=
  ⟨c.index + 1, c.clause.literals.map (·.toDimacs), c.antecedents.map (· + 1)⟩

theorem toSteps_eq_map (ht : t.WellFormed) : t.toSteps = t.clauses.toList.map exported := by
  refine List.ext_getElem (by simp [toSteps, Step.numbered]) fun i hi hi' => ?_
  have hlt : i < t.clauses.size := by simpa using hi'
  have hindex : t.clauses[i].index = i :=
    ht.index_eq (t := t) (i := i) (Array.getElem?_eq_getElem hlt)
  simp [toSteps, Step.numbered, exported, hindex]

/-- The input clauses come first and are the ones without antecedents. -/
theorem filter_toSteps (ht : t.WellFormed) :
    t.toSteps.filter (·.isAxiom) = t.inputs.map exported ∧
      t.toSteps.filter (!·.isAxiom) = t.derived.map exported := by
  have hax : ∀ c : TraceClause, (exported c).isAxiom = c.isAxiom := fun c => by
    simp [exported, Step.isAxiom, TraceClause.isAxiom]
  have hins : ∀ c ∈ t.inputs, c.isAxiom = true := fun c hc => by
    obtain ⟨i, hlt, hget⟩ := mem_inputs_iff.mp hc
    exact List.isEmpty_iff.mpr ((ht.isAxiom_iff hget).mpr hlt)
  have hder : ∀ c ∈ t.derived, c.isAxiom = false := fun c hc => by
    obtain ⟨i, hle, hget⟩ := mem_derived_iff.mp hc
    rw [← Bool.not_eq_true]
    exact fun h => absurd ((ht.isAxiom_iff hget).mp (List.isEmpty_iff.mp h)) (Nat.not_lt.mpr hle)
  rw [toSteps_eq_map ht, inputs_append_derived, List.map_append, List.filter_append,
    List.filter_append]
  simp only [List.filter_map, Function.comp_def, hax]
  rw [List.filter_eq_self.mpr hins, List.filter_eq_nil_iff.mpr, List.filter_eq_nil_iff.mpr,
    List.filter_eq_self.mpr]
  · simp
  · simpa using hder
  · simpa using hins
  · simpa using hder

/-- The import has made the first `k` clauses of the trace. -/
structure Import.Follows (m : Import) (t : Trace) (k : Nat) : Prop where
  toList_eq : m.builder.clauses.toList = t.clauses.toList.take k
  numAxioms_eq : m.builder.numAxioms = min k t.numAxioms
  position?_eq : ∀ a, m.positions[a + 1]? = if a < k then some a else none

theorem follows_start (t : Trace) : Import.start.Follows t 0 :=
  ⟨rfl, (Nat.zero_min _).symm, fun _ => by simp [Import.start]⟩

namespace Import.Follows

theorem size_eq (h : m.Follows t k) (hk : k ≤ t.size) : m.builder.size = k := by
  rw [← m.builder.length_toList, h.toList_eq, List.length_take, Array.length_toList]
  exact Nat.min_eq_left hk

theorem literals_exported : literals (exported c) = .ok c.clause.literals := by
  show (c.clause.literals.map (·.toDimacs)).mapM _ = _
  rw [mapM_eq_ok, List.map_map]
  refine List.map_congr_left fun l _ => ?_
  simp only [Function.comp, Literal.ofDimacs?_toDimacs]

theorem isEmptyClause_exported : (exported c).isEmptyClause = true ↔ c.clause = .empty := by
  rw [← ofList_eq_empty_iff literals_exported, Clause.ofList_literals]

theorem antecedents_exported (h : m.Follows t k) (hlt : ∀ a ∈ c.antecedents, a < k) :
    m.antecedents (exported c) = .ok c.antecedents := by
  show (c.antecedents.map (· + 1)).mapM _ = _
  rw [mapM_eq_ok, List.map_map]
  refine List.map_congr_left fun a ha => ?_
  simp only [Function.comp, h.position?_eq, if_pos (hlt a ha)]

/-- A clause with the position at which it is added is given a number that is new. -/
theorem define_exported {b : Builder} (h : m.Follows t k) (hc : t.get? k = some c)
    (hindex : c.index = k) (hlist : b.clauses.toList = m.builder.clauses.toList ++ [c])
    (hnum : b.numAxioms = min (k + 1) t.numAxioms) :
    ∃ m', m.define (exported c) c b = .ok m' ∧ m'.Follows t (k + 1) := by
  have hnew : m.positions[(exported c).id]? = none := by
    show m.positions[c.index + 1]? = none
    rw [h.position?_eq, hindex, if_neg (Nat.lt_irrefl k)]
  refine ⟨_, define_eq_ok.mpr ⟨hnew, rfl⟩, ?_, hnum, fun a => ?_⟩
  · show b.clauses.toList = _
    have hget : t.clauses.toList[k]? = some c := by rw [Array.getElem?_toList]; exact hc
    rw [hlist, h.toList_eq, List.take_add_one, hget]
    rfl
  · show (m.positions.insert (c.index + 1) c.index)[a + 1]? = _
    rw [Std.HashMap.getElem?_insert, h.position?_eq, hindex]
    by_cases hak : k = a
    · subst hak; simp
    · have hne : ¬ k + 1 = a + 1 := fun e => hak (Nat.succ.inj e)
      have hiff : a < k ↔ a < k + 1 := by omega
      simp only [beq_iff_eq, hne, if_false, hiff]

/-- The next input clause is imported. -/
theorem exists_inputs (h : m.Follows t k) (ht : t.WellFormed) (hc : t.get? k = some c)
    (hk : k < t.numAxioms) : ∃ m', m'.Follows t (k + 1) ∧ ∀ steps r,
      (if c.clause = .empty then r = (m', some k) else m'.inputs steps = .ok r) →
        m.inputs (exported c :: steps) = .ok r := by
  have hsize := h.size_eq (Nat.le_of_lt (get?_lt hc))
  have hnum : m.builder.numAxioms = k := h.numAxioms_eq.trans (Nat.min_eq_left (Nat.le_of_lt hk))
  have hce : c = ⟨m.builder.size, .ofList c.clause.literals, []⟩ := by
    rw [Clause.ofList_literals, hsize, ← ht.index_eq hc, ← (ht.isAxiom_iff hc).mpr hk]
  have hadd : m.builder.addAxiom c.clause.literals
      = .ok (c, ⟨m.builder.clauses.push c, m.builder.numAxioms + 1⟩) :=
    Builder.addAxiom_eq_ok.mpr ⟨by omega, hce, rfl⟩
  obtain ⟨hlist, hnum', -⟩ := Builder.toList_addAxiom hadd
  obtain ⟨m', hdefine, hm'⟩ := h.define_exported hc (ht.index_eq hc) hlist (by omega)
  refine ⟨m', hm', fun steps r hr => inputs_cons_eq_ok.mpr
    ⟨_, literals_exported, _, _, hadd, m', hdefine, ?_⟩⟩
  rw [ht.index_eq hc]
  simpa only [isEmptyClause_exported] using hr

/-- The next derived clause is imported. -/
theorem exists_resolvents (h : m.Follows t k) (ht : t.WellFormed) (hc : t.get? k = some c)
    (hk : t.numAxioms ≤ k) : ∃ m', m'.Follows t (k + 1) ∧ ∀ steps r,
      (if c.clause = .empty then r = m' else m'.resolvents steps = .ok r) →
        m.resolvents (exported c :: steps) = .ok r := by
  have hsize := h.size_eq (Nat.le_of_lt (get?_lt hc))
  have hlt := ht.antecedent_lt hc
  have hne : c.antecedents ≠ [] := fun e =>
    absurd ((ht.isAxiom_iff hc).mp e) (Nat.not_lt.mpr hk)
  have hce : c = ⟨m.builder.size, .ofList c.clause.literals, c.antecedents⟩ := by
    rw [Clause.ofList_literals, hsize, ← ht.index_eq hc]
  have hadd : m.builder.addResolvent c.clause.literals c.antecedents
      = .ok (c, ⟨m.builder.clauses.push c, m.builder.numAxioms⟩) :=
    Builder.addResolvent_eq_ok.mpr ⟨hne, hsize ▸ hlt, hce, rfl⟩
  have hnum := h.numAxioms_eq
  obtain ⟨hlist, hnum', -⟩ := Builder.toList_addResolvent hadd
  obtain ⟨m', hdefine, hm'⟩ := h.define_exported hc (ht.index_eq hc) hlist (by omega)
  refine ⟨m', hm', fun steps r hr => resolvents_cons_eq_ok.mpr
    ⟨_, h.antecedents_exported hlt, _, literals_exported, _, _, hadd, m', hdefine, ?_⟩⟩
  simpa only [isEmptyClause_exported] using hr

end Import.Follows

/-! ### Many steps -/

/-- The clauses of a list stand in the trace one after the other, from a position on. -/
def Listed (t : Trace) (k : Nat) (cs : List TraceClause) : Prop :=
  ∀ ⦃i c⦄, cs[i]? = some c → t.get? (k + i) = some c

theorem listed_inputs (t : Trace) : t.Listed 0 t.inputs := by
  intro i c h
  rw [inputs, List.getElem?_take] at h
  split at h
  next => rwa [Nat.zero_add, get?, ← Array.getElem?_toList]
  next => cases h

theorem listed_derived (t : Trace) : t.Listed t.numAxioms t.derived := by
  intro i c h
  rwa [derived, List.getElem?_drop, Array.getElem?_toList] at h

theorem Listed.append_left {ds : List TraceClause} (h : t.Listed k (cs ++ ds)) : t.Listed k cs := by
  intro i c hi
  refine h ?_
  rw [List.getElem?_append_left (List.getElem?_eq_some_iff.mp hi).1]
  exact hi

theorem Listed.get?_last (h : t.Listed k (cs ++ [c])) : t.get? (k + cs.length) = some c := by
  refine h ?_
  rw [List.getElem?_append_right (Nat.le_refl _), Nat.sub_self]
  rfl

/-- If each clause without the empty one is a step further, so are all of a list. -/
theorem exists_follows {ρ : Type} {run : Import → List Step → Except Violation ρ} {P : Nat → Prop}
    (hrun : ∀ {m k c}, m.Follows t k → t.get? k = some c → P k → c.clause ≠ .empty →
      ∃ m', m'.Follows t (k + 1) ∧ ∀ steps r,
        run m' steps = .ok r → run m (exported c :: steps) = .ok r)
    (h : m.Follows t k) (hcs : t.Listed k cs) (hP : ∀ i < cs.length, P (k + i))
    (hne : ∀ c ∈ cs, c.clause ≠ .empty) :
    ∃ m', m'.Follows t (k + cs.length) ∧ ∀ steps r,
      run m' steps = .ok r → run m (cs.map exported ++ steps) = .ok r := by
  induction cs generalizing m k with
  | nil => exact ⟨m, h, fun _ _ => id⟩
  | cons c cs ih =>
      obtain ⟨hc, hne⟩ := List.forall_mem_cons.mp hne
      obtain ⟨m₁, h₁, hstep⟩ := hrun h (hcs (i := 0) rfl) (hP 0 (Nat.succ_pos _)) hc
      have hcs' : t.Listed (k + 1) cs := fun i d hd => by
        rw [Nat.add_right_comm]
        exact hcs (i := i + 1) hd
      obtain ⟨m', h', hrest⟩ := ih h₁ hcs' (fun i hi => by
        rw [Nat.add_right_comm]
        exact hP (i + 1) (Nat.succ_lt_succ hi)) hne
      refine ⟨m', ?_, fun steps r hr => hstep _ r (hrest steps r hr)⟩
      rw [List.length_cons, ← Nat.add_assoc, Nat.add_right_comm]
      exact h'

section Runs

open Import (Follows)

variable (ht : t.WellFormed) (h : m.Follows t k) (hcs : t.Listed k cs)
include ht h hcs

theorem exists_follows_inputs (hk : k + cs.length ≤ t.numAxioms)
    (hne : ∀ c ∈ cs, c.clause ≠ .empty) : ∃ m' : Import, m'.Follows t (k + cs.length) ∧
      ∀ steps r, m'.inputs steps = .ok r → m.inputs (cs.map exported ++ steps) = .ok r := by
  refine exists_follows (P := (· < t.numAxioms)) (fun h hc hk hne => ?_) h hcs
    (fun i hi => by omega) hne
  obtain ⟨m', hm', hstep⟩ := h.exists_inputs ht hc hk
  exact ⟨m', hm', fun steps r hr => hstep steps r (by rwa [if_neg hne])⟩

theorem exists_follows_resolvents (hk : t.numAxioms ≤ k)
    (hne : ∀ c ∈ cs, c.clause ≠ .empty) : ∃ m' : Import, m'.Follows t (k + cs.length) ∧
      ∀ steps r, m'.resolvents steps = .ok r → m.resolvents (cs.map exported ++ steps) = .ok r := by
  refine exists_follows (P := (t.numAxioms ≤ ·)) (fun h hc hk hne => ?_) h hcs
    (fun i hi => by omega) hne
  obtain ⟨m', hm', hstep⟩ := h.exists_resolvents ht hc hk
  exact ⟨m', hm', fun steps r hr => hstep steps r (by rwa [if_neg hne])⟩

end Runs

/-- The clauses of a trace that ends with the empty one are finished as this trace. -/
theorem build_eq_ok_of_toList {b : Builder} (hlist : b.clauses.toList = t.clauses.toList)
    (hnum : b.numAxioms = t.numAxioms) (hends : t.EndsEmpty) : b.build = .ok t := by
  have htrace : t = b.trace := by
    show (⟨t.clauses, t.numAxioms⟩ : Trace) = ⟨b.clauses, b.numAxioms⟩
    rw [hnum, Array.toList_inj.mp hlist]
  exact build_eq_ok_iff.mpr ⟨htrace, htrace ▸ hends⟩

theorem endsEmpty_of_derived (h : t.derived = cs ++ [c]) (hc : c.clause = .empty) :
    t.EndsEmpty := by
  rw [endsEmpty_iff, clauseList, inputs_append_derived, List.getLast?_map, h, ← List.append_assoc,
    List.getLast?_concat]
  exact congrArg some hc

/-- The end of what is derived is the end of the import. -/
theorem ofSteps_eq_ok_of_derived (ht : t.WellFormed) (hinputs : ∀ c ∈ t.inputs, c.clause ≠ .empty)
    (hderived : OnlyLastEmpty t.derived) : ofSteps t.toSteps = .ok t := by
  obtain ⟨ds, c, hds, hc, hne⟩ := hderived
  obtain ⟨hins, hder⟩ := filter_toSteps ht
  have hlength := length_inputs ht
  have hsize : t.clauses.toList.length = t.numAxioms + ds.length + 1 := by
    rw [inputs_append_derived, List.length_append, hlength, hds, List.length_append]
    rfl
  have hlisted : t.Listed t.numAxioms (ds ++ [c]) := hds ▸ listed_derived t
  obtain ⟨m, hm, hrun⟩ := exists_follows_inputs ht (follows_start t) (listed_inputs t)
    (by omega) hinputs
  rw [Nat.zero_add, hlength] at hm
  obtain ⟨m₁, hm₁, hrun₁⟩ := exists_follows_resolvents ht hm hlisted.append_left (Nat.le_refl _) hne
  obtain ⟨m₂, hm₂, hstep⟩ := hm₁.exists_resolvents ht hlisted.get?_last (Nat.le_add_right _ _)
  have hnone := hrun [] (m, none) rfl
  have hresolvents := hrun₁ _ m₂ (hstep [] m₂ (by rw [if_pos hc]))
  unfold ofSteps
  rw [hins, hder, hds, List.map_append, ← List.append_nil (t.inputs.map exported)]
  refine bind_eq_ok.mpr ⟨_, hnone, bind_eq_ok.mpr ⟨_, hresolvents, ?_⟩⟩
  refine build_eq_ok_of_toList ?_ ?_ (endsEmpty_of_derived hds hc)
  · rw [hm₂.toList_eq, ← hsize, List.take_length]
  · have := hm₂.numAxioms_eq
    omega

/-- The end of the input clauses is the end of the import, which derives the empty clause again. -/
theorem ofSteps_eq_ok_of_input (ht : t.WellFormed) (hinputs : OnlyLastEmpty t.inputs)
    (hderived : t.derived = [⟨t.numAxioms, .empty, [t.numAxioms - 1]⟩]) :
    ofSteps t.toSteps = .ok t := by
  obtain ⟨cs, e, hcs, he, hne⟩ := hinputs
  have hderived' : t.derived = [] ++ [_] := hderived
  obtain ⟨hins, hder⟩ := filter_toSteps ht
  have hlength := length_inputs ht
  rw [hcs, List.length_append, List.length_singleton] at hlength
  have hlisted : t.Listed 0 (cs ++ [e]) := hcs ▸ listed_inputs t
  obtain ⟨m, hm, hrun⟩ := exists_follows_inputs ht (follows_start t) hlisted.append_left
    (by omega) hne
  obtain ⟨m₁, hm₁, hstep⟩ := hm.exists_inputs ht hlisted.get?_last (by omega)
  have hsome := hrun _ (m₁, some (0 + cs.length)) (hstep [] _ (by rw [if_pos he]))
  have hlast : 0 + cs.length = t.numAxioms - 1 := by omega
  rw [hlast, Nat.sub_add_cancel (by omega)] at hm₁
  have hsize := hm₁.size_eq ht.numAxioms_le
  obtain ⟨c, b, hadd⟩ : ∃ c b, m₁.builder.addResolvent [] [t.numAxioms - 1] = .ok (c, b) :=
    Builder.exists_addResolvent [] (List.cons_ne_nil _ _) (List.forall_mem_singleton.mpr (by omega))
  obtain ⟨hlist, hnum, hc⟩ := Builder.toList_addResolvent hadd
  unfold ofSteps
  rw [hins, hcs, List.map_append]
  refine bind_eq_ok.mpr ⟨_, hsome, bind_eq_ok.mpr ⟨(c, b), ?_, ?_⟩⟩
  · show m₁.builder.addResolvent [] [0 + cs.length] = _
    rw [hlast, hadd]
  · refine build_eq_ok_of_toList ?_ ?_ (endsEmpty_of_derived hderived' rfl)
    · rw [hlist, hm₁.toList_eq, hc, hsize]
      have hall := inputs_append_derived t
      rw [hderived] at hall
      exact hall.symm
    · rw [hnum, hm₁.numAxioms_eq, Nat.min_self]

/-- **A trace with one empty clause at its end** is imported as it was exported. -/
theorem Exchangeable.ofSteps_toSteps (h : t.Exchangeable) : ofSteps t.toSteps = .ok t := by
  cases h with
  | derived ht hinputs hderived => exact ofSteps_eq_ok_of_derived ht hinputs hderived
  | input ht hinputs hderived => exact ofSteps_eq_ok_of_input ht hinputs hderived

/-! ### Traces of which only the last clause is empty -/

theorem terminal_eq_of_derived (ht : t.WellFormed) (h : t.derived = cs ++ [c]) :
    t.terminal = t.numAxioms + cs.length := by
  have hsize : t.size = t.inputs.length + t.derived.length := by
    rw [← List.length_append, ← inputs_append_derived, Array.length_toList]
    rfl
  rw [length_inputs ht, h, List.length_append, List.length_singleton] at hsize
  show t.size - 1 = _
  omega

theorem exchangeable_of_eq_terminal (ht : t.WellFormed) (hends : t.EndsEmpty)
    (hinputs : ∀ c ∈ t.inputs, c.clause ≠ .empty)
    (honly : ∀ ⦃i c⦄, t.get? i = some c → c.clause = .empty → i = t.terminal) :
    t.Exchangeable := by
  obtain ⟨e, he, hempty⟩ := hends
  refine .derived ht hinputs ?_
  rcases List.eq_nil_or_concat t.derived with hnil | ⟨ds, c, hds⟩
  · have hmem := mem_clauses_iff.mpr ⟨_, he⟩
    rw [inputs_append_derived, hnil, List.append_nil] at hmem
    exact absurd hempty (hinputs e hmem)
  · rw [List.concat_eq_append] at hds
    have hlisted : t.Listed t.numAxioms (ds ++ [c]) := hds ▸ listed_derived t
    have hterminal := terminal_eq_of_derived ht hds
    rw [hterminal, hlisted.get?_last, Option.some_inj] at he
    refine ⟨ds, c, hds, he ▸ hempty, fun d hd hde => ?_⟩
    obtain ⟨i, hi, rfl⟩ := List.mem_iff_getElem.mp hd
    have hlast := honly (hlisted.append_left (List.getElem?_eq_getElem hi)) hde
    omega

theorem eq_terminal_of_onlyLastEmpty (ht : t.WellFormed) (hinputs : ∀ c ∈ t.inputs, c.clause ≠ .empty)
    (hderived : OnlyLastEmpty t.derived) {i : Nat} (hc : t.get? i = some c)
    (hempty : c.clause = .empty) : i = t.terminal := by
  obtain ⟨ds, e, hds, -, hne⟩ := hderived
  by_cases hi : i < t.numAxioms
  · exact absurd hempty (hinputs c (mem_inputs_iff.mpr ⟨i, hi, hc⟩))
  · have hmem := mem_derived_iff.mpr ⟨i, Nat.le_of_not_lt hi, hc⟩
    rw [hds, List.mem_append, List.mem_singleton] at hmem
    obtain hmem | rfl := hmem
    · exact absurd hempty (hne c hmem)
    · have hlisted : t.Listed t.numAxioms (ds ++ [c]) := hds ▸ listed_derived t
      rw [terminal_eq_of_derived ht hds, ← ht.index_eq hlisted.get?_last, ht.index_eq hc]

/-! ### As a text -/

open TraceCheck (Writable) in
/-- The numbers of a clause can be written, if those of the positions can. -/
theorem writable_exported (ht : t.WellFormed) (hsize : t.size < Decimal.word64) {i : Nat}
    (hc : t.get? i = some c) : Writable ((exported c).literals, (exported c).antecedents) := by
  refine ⟨fun l hl => ?_, fun a ha => ?_⟩
  · obtain ⟨l, -, rfl⟩ := List.mem_map.mp hl
    have hone := l.var.one_le
    have hmax := l.var.le_max
    have hhalf : Decimal.half32 = 2147483648 := rfl
    unfold Literal.toDimacs
    split <;> omega
  · obtain ⟨a, hmem, rfl⟩ := List.mem_map.mp ha
    have hlt := Nat.lt_trans (ht.antecedent_lt hc a hmem) (get?_lt hc)
    omega

/-- The text of a trace is read as its steps, as long as its positions have 64 bits. -/
theorem readAll_toSteps (ht : t.WellFormed) (hsize : t.size < Decimal.word64) :
    TraceCheck.readAll (TraceCheck.text t.toSteps) = .ok t.toSteps := by
  refine TraceCheck.readAll_text ?_
  rw [toSteps, TraceCheck.numbered_eq_numberedFrom]
  refine TraceCheck.inRange_numberedFrom Nat.one_pos ?_ fun r hr => ?_
  · rw [List.length_map, Array.length_toList]
    show 1 + t.size ≤ _
    omega
  · obtain ⟨c, hc, rfl⟩ := List.mem_map.mp hr
    obtain ⟨i, hi⟩ := mem_clauses_iff.mp hc
    exact writable_exported ht hsize hi

theorem Exchangeable.readAll_ofSteps (h : t.Exchangeable) (hsize : t.size < Decimal.word64) :
    ∃ steps, TraceCheck.readAll (TraceCheck.text t.toSteps) = .ok steps ∧
      ofSteps steps = .ok t :=
  ⟨t.toSteps, readAll_toSteps h.wellFormed hsize, h.ofSteps_toSteps⟩

/-! ### Writing -/

section Write

variable {m : Export} {n : Nat}

/-- What a writer is asked for a clause. -/
def request (c : TraceClause) : List Int × List Nat :=
  (c.clause.literals.map (·.toDimacs), c.antecedents.map (· + 1))

/-- The first `n` clauses have been written, and got the numbers from 1 on. -/
structure Export.Numbers (m : Export) (n : Nat) : Prop where
  nextId_eq : m.writer.nextId = n + 1
  ids_eq : m.ids.toList = List.range' 1 n

theorem Export.numbers_start : start.Numbers 0 := ⟨rfl, SlotTable.toList_ofList []⟩

theorem Export.Numbers.id_eq (hm : m.Numbers n) {a : Nat} (ha : a < n) : m.id a = .ok (a + 1) := by
  unfold id
  rw [SlotTable.get?_eq_toList, hm.ids_eq, List.getElem?_range' ha]
  simp [Nat.add_comm]

/-- The next clause gets the next number, and refers to its antecedents by theirs. -/
theorem Export.Numbers.log (hm : m.Numbers n) (hlt : ∀ a ∈ c.antecedents, a < n)
    (hn : n < TraceCheck.Writer.capacity) : ∃ m', m.log c = .ok m' ∧ m'.Numbers (n + 1) ∧
      m.writer.log (request c).1 (request c).2 = .ok (n + 1, m'.writer) := by
  have hids : c.antecedents.mapM m.id = .ok (request c).2 := by
    rw [mapM_eq_ok, request, List.map_map]
    exact List.map_congr_left fun a ha => hm.id_eq (hlt a ha)
  have hid : m.writer.nextId + 1 < Decimal.word64 := by
    have hcapacity : TraceCheck.Writer.capacity + 2 = Decimal.word64 := by decide
    rw [hm.nextId_eq]
    omega
  obtain ⟨w, hlog, hnext⟩ : ∃ w, m.writer.log (request c).1 (request c).2 = .ok (n + 1, w) ∧
      w.nextId = n + 1 + 1 := by
    rw [← hm.nextId_eq]
    exact ⟨_, if_pos hid, rfl⟩
  refine ⟨⟨w, (m.ids.push (n + 1)).2⟩, ?_, ⟨hnext, ?_⟩, hlog⟩
  · refine bind_eq_ok.mpr ⟨_, hids, ?_⟩
    have hwritten : m.writer.log (c.clause.literals.map (·.toDimacs)) (request c).2 =
        .ok (n + 1, w) := hlog
    rw [hwritten]
    rfl
  · rw [SlotTable.toList_push, hm.ids_eq, List.range'_concat, Nat.one_mul, Nat.add_comm]

/-- Clauses are written as the writer is asked for them one after the other. -/
theorem Export.Numbers.foldlM_log (hm : m.Numbers n)
    (hcs : ∀ j c, cs[j]? = some c → ∀ a ∈ c.antecedents, a < n + j)
    (hn : n + cs.length ≤ TraceCheck.Writer.capacity) :
    ∃ m', cs.foldlM Export.log m = .ok m' ∧
      m'.writer = (m.writer.logAll (cs.map request)).2 := by
  induction cs generalizing m n with
  | nil => exact ⟨m, rfl, rfl⟩
  | cons c cs ih =>
      rw [List.length_cons] at hn
      obtain ⟨m₁, hm₁, hnumbers, hlog⟩ := hm.log (hcs 0 c rfl) (by omega)
      obtain ⟨m', hm', hwriter⟩ := ih hnumbers (fun j d hd a ha => by
        have hlt := hcs (j + 1) d hd a ha
        omega) (by omega)
      refine ⟨m', ?_, ?_⟩
      · rw [List.foldlM_cons, hm₁]
        exact hm'
      · rw [hwriter, List.map_cons, TraceCheck.Writer.logAll, hlog]

/-- **A trace is written as its steps**, if there are numbers for them: they are what the writer
makes of its clauses, with the numbers of their antecedents. -/
theorem write_eq (ht : t.WellFormed) (hsize : t.size ≤ TraceCheck.Writer.capacity) :
    t.write = .ok (TraceCheck.text t.toSteps) ∧
      TraceCheck.text t.toSteps =
        (TraceCheck.Writer.start.logAll (t.clauses.toList.map request)).2.bytes := by
  have hlength : t.clauses.toList.length ≤ TraceCheck.Writer.capacity := by
    rwa [Array.length_toList]
  have hbefore : ∀ j c, t.clauses.toList[j]? = some c → ∀ a ∈ c.antecedents, a < 0 + j := by
    intro j c hc a ha
    rw [Array.getElem?_toList] at hc
    rw [Nat.zero_add]
    exact ht.antecedent_lt hc a ha
  obtain ⟨m, hm, hwriter⟩ := Export.numbers_start.foldlM_log hbefore (by rwa [Nat.zero_add])
  have htext : TraceCheck.text t.toSteps =
      (TraceCheck.Writer.start.logAll (t.clauses.toList.map request)).2.bytes := by
    have hcapacity : TraceCheck.Writer.start.nextId + TraceCheck.Writer.capacity + 1 =
        Decimal.word64 := by decide
    rw [TraceCheck.Writer.logAll_eq hcapacity, toSteps, TraceCheck.numbered_eq_numberedFrom]
    show _ = [] ++ TraceCheck.text (TraceCheck.numberedFrom 1 (List.take _ _))
    rw [List.take_of_length_le (by rwa [List.length_map]), List.nil_append]
    rfl
  refine ⟨?_, htext⟩
  unfold write
  rw [hm, htext]
  exact congrArg (fun w : TraceCheck.Writer => Except.ok w.bytes) hwriter

/-- A trace that can be exchanged is what is read from its text. -/
theorem Exchangeable.readAll_write (h : t.Exchangeable)
    (hsize : t.size ≤ TraceCheck.Writer.capacity) :
    ∃ bytes steps, t.write = .ok bytes ∧ TraceCheck.readAll bytes = .ok steps ∧
      ofSteps steps = .ok t := by
  have hlt : t.size < Decimal.word64 :=
    Nat.lt_of_le_of_lt hsize (by decide : TraceCheck.Writer.capacity < Decimal.word64)
  obtain ⟨steps, hread, hsteps⟩ := h.readAll_ofSteps hlt
  exact ⟨_, steps, (write_eq h.wellFormed hsize).1, hread, hsteps⟩

end Write

end Trace

end ModelFinder
