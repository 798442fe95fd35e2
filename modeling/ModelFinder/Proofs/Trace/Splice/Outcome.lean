import Mathlib.Data.List.Forall2
import ModelFinder.Proofs.Trace.Splice

/-!
# What splicing answers

Splicing goes through the positions of the subset and the input clauses of the refutation side by
side.  Two things can be wrong with a pair (`Trace.Misfit`): the clauses differ, or an antecedent is
not in the subset.  The first thing that is wrong ends the pass, with an error that names it
(`Recycled.foldlM_eq_error`).

If nothing is wrong then the subset is closed under antecedents and the input clauses are those of
the subset, so that splicing does not fail; what was recycled has its antecedents renamed to their
places in the subset (`forall₂_renames`), and the derived clauses of the refutation are as they were
(`toList_of_foldlM_derived`).
-/

namespace ModelFinder

namespace Trace

variable {t t' reduced : Trace} {subset : ClauseSet}

/-- What is wrong with recycling the clause `c` of a subset in place of the input clause `d`. -/
inductive Misfit (subset : ClauseSet) (c d : TraceClause) : Violation → Prop
  | literals (differ : d.clause ≠ c.clause) :
      Misfit subset c d (.malformed (.axiomLiterals d.index c.index))
  | outside {pre post : List Nat} {a : Nat} (same : d.clause = c.clause)
      (antecedents : c.antecedents = pre ++ a :: post) (inside : ∀ k ∈ pre, k ∈ subset)
      (outside : a ∉ subset) : Misfit subset c d (.antecedentOutside c.index a)

/-- What is wrong at a position of the subset. -/
def MisfitAt (t : Trace) (subset : ClauseSet) (reduced : Trace) (k : Nat) (e : Violation) : Prop :=
  ∃ i c d, subset.toList[k]? = some i ∧ t.get? i = some c ∧ reduced.get? k = some d ∧
    Misfit subset c d e

/-- The clause `e` is the clause `c`, with places in the subset as antecedents. -/
structure Renames (subset : ClauseSet) (c e : TraceClause) : Prop where
  clause_eq : e.clause = c.clause
  antecedents_eq : e.antecedents.map some = c.antecedents.map subset.toList.idxOf?

/-- What splicing makes of a refutation of the problem the subset is. -/
structure Spliced (t : Trace) (subset : ClauseSet) (reduced t' : Trace) : Prop where
  wellFormed : t'.WellFormed
  size_eq : t'.size = reduced.size
  clauseList_eq : t'.clauseList = reduced.clauseList
  inputs_eq : t'.inputs.map (·.clause) =
    (t.inputs.filter fun c => subset.contains c.index).map (·.clause)
  renames : ∀ ⦃k i c e⦄, subset.toList[k]? = some i → t.get? i = some c → t'.get? k = some e →
    Renames subset c e
  derived : ∀ k, subset.size ≤ k → t'.get? k = reduced.get? k

/-! ### What is wrong -/

section Recycle

variable {rule : List Clause → Clause → Prop} {pre post cs : List TraceClause} {c d : TraceClause}
  {b b' : Builder} {e : Violation}

theorem exists_misfit_iff : (∃ e, Misfit subset c d e) ↔
    ¬ (d.clause = c.clause ∧ ∀ a ∈ c.antecedents, a ∈ subset) := by
  constructor
  · rintro ⟨e, he⟩ ⟨hclause, hall⟩
    cases he with
    | literals differ => exact differ hclause
    | outside _ antecedents _ outside => exact outside (hall _ (by simp [antecedents]))
  · intro h
    by_cases hclause : d.clause = c.clause
    · -- the first antecedent that is not in the subset
      obtain ⟨a, ha⟩ : ∃ a, c.antecedents.find? (fun a => decide (a ∉ subset)) = some a := by
        refine Option.isSome_iff_exists.mp (List.find?_isSome.mpr ?_)
        simpa [hclause] using h
      obtain ⟨houtside, pre, post, has, hpre⟩ := List.find?_eq_some_iff_append.mp ha
      exact ⟨_, .outside hclause has (by simpa using hpre) (by simpa using houtside)⟩
    · exact ⟨_, .literals hclause⟩

theorem forall_not_misfit_iff : (∀ e, ¬ Misfit subset c d e) ↔
    d.clause = c.clause ∧ ∀ a ∈ c.antecedents, a ∈ subset := by
  rw [← not_exists, exists_misfit_iff, not_not]

/-- Whatever has been built so far, what is wrong is found. -/
theorem recycleAmong_eq_error (hc : t.get? c.index = some c) (h : Misfit subset c d e) :
    t.recycleAmong subset.toList b c.index d = .error e := by
  have hrec : t.recycle (placeAmong subset.toList c.index) b c.index d = .error e := by
    rw [recycle_eq hc]
    cases h with
    | literals differ => rw [if_neg differ]
    | @outside pre post a same antecedents inside outside =>
        rw [if_pos same, if_neg (by simp [TraceClause.isAxiom, antecedents]), antecedents,
          mapM_eq_error]
        · rfl
        · intro k hk
          obtain ⟨n, hn⟩ := Option.isSome_iff_exists.mp (List.isSome_idxOf?.mpr (inside k hk))
          exact ⟨n, by rw [placeAmong, hn]⟩
        · rw [placeAmong, List.idxOf?_eq_none_iff.mpr outside]
  rw [recycleAmong, hrec]
  rfl

/-- The first thing that is wrong ends the pass. -/
theorem Recycled.foldlM_eq_error (pre : List TraceClause) (ht : t.WellFormed)
    (h : t.Members subset (pre ++ post)) {ds : List TraceClause} {k : Nat}
    (hc : post[k]? = some c) (hd : ds[k]? = some d) (he : Misfit subset c d e)
    (hbefore : ∀ j < k, ∀ c d, post[j]? = some c → ds[j]? = some d → ∀ e, ¬ Misfit subset c d e)
    (hb : Recycled (fun _ _ => True) b pre) :
    ((post.map (·.index)).zip ds).foldlM
      (fun b (old, c) => t.recycleAmong subset.toList b old c) b = .error e := by
  induction post generalizing pre ds b k with
  | nil => cases hc
  | cons c₀ post ih =>
      cases ds with
      | nil => cases hd
      | cons d₀ ds =>
          rw [List.map_cons, List.zip_cons_cons, List.foldlM_cons]
          show (t.recycleAmong subset.toList b c₀.index d₀ >>= _) = _
          cases k with
          | zero =>
              cases hc
              cases hd
              rw [recycleAmong_eq_error (h.get?_index c (by simp)) he]
              rfl
          | succ k =>
              obtain ⟨hclause, hin⟩ := forall_not_misfit_iff.mp (hbefore 0 k.succ_pos c₀ d₀ rfl rfl)
              obtain ⟨b₁, hrec⟩ := hb.exists_recycle ht h hin hclause
              obtain ⟨-, hb₁⟩ := hb.of_recycle ht ht.justifiedBy h hrec
              rw [hrec]
              rw [List.append_cons] at h
              exact ih _ h hc hd (fun j hj => hbefore (j + 1) (Nat.succ_lt_succ hj)) hb₁

/-! ### What is made -/

/-- A recycled clause comes last, with its antecedents renamed. -/
theorem toList_of_recycle (hc : t.get? c.index = some c)
    (hrec : t.recycleAmong subset.toList b c.index d = .ok b') :
    ∃ e, b'.clauses.toList = b.clauses.toList ++ [e] ∧ Renames subset c e := by
  obtain ⟨-, hadd⟩ := (recycleAmong_eq_ok hc).mp hrec
  split at hadd
  next hax =>
    obtain ⟨e, hadd⟩ := hadd
    obtain ⟨-, rfl, rfl⟩ := Builder.addAxiom_eq_ok.mp hadd
    refine ⟨_, Array.toList_push, Clause.ofList_literals _, ?_⟩
    rw [List.isEmpty_iff.mp hax]
    rfl
  next =>
    obtain ⟨as, e, has, hadd⟩ := hadd
    obtain ⟨-, -, rfl, rfl⟩ := Builder.addResolvent_eq_ok.mp hadd
    exact ⟨_, Array.toList_push, Clause.ofList_literals _, has.symm⟩

theorem forall₂_renames (hget : ∀ c ∈ cs, t.get? c.index = some c) {ds : List TraceClause}
    (hlen : cs.length = ds.length)
    (hfold : ((cs.map (·.index)).zip ds).foldlM
      (fun b (old, c) => t.recycleAmong subset.toList b old c) b = .ok b') :
    ∃ es, b'.clauses.toList = b.clauses.toList ++ es ∧ List.Forall₂ (Renames subset) cs es := by
  induction cs generalizing ds b with
  | nil =>
      obtain rfl := List.length_eq_zero_iff.mp hlen.symm
      cases hfold
      exact ⟨[], by simp, .nil⟩
  | cons c cs ih =>
      cases ds with
      | nil => cases hlen
      | cons d ds =>
          rw [List.map_cons, List.zip_cons_cons, List.foldlM_cons] at hfold
          obtain ⟨b₁, hrec, hrest⟩ := bind_eq_ok.mp hfold
          obtain ⟨e, hb₁, he⟩ := toList_of_recycle (hget c List.mem_cons_self) hrec
          obtain ⟨es, hb', hes⟩ :=
            ih (fun c' hc' => hget c' (List.mem_cons_of_mem c hc')) (Nat.succ.inj hlen) hrest
          exact ⟨e :: es, by rw [hb', hb₁]; simp, .cons he hes⟩

/-- The derived clauses of the refutation come last, as they were. -/
theorem toList_of_foldlM_derived (hsize : ∀ j c, cs[j]? = some c → c.index = b.size + j)
    (hfold : cs.foldlM (fun b c => return (← b.addResolvent c.clause.literals c.antecedents).2) b =
      (.ok b' : Except Violation Builder)) :
    b'.clauses.toList = b.clauses.toList ++ cs := by
  induction cs generalizing b with
  | nil =>
      cases hfold
      rw [List.append_nil]
  | cons c cs ih =>
      rw [List.foldlM_cons] at hfold
      obtain ⟨b₁, hstep, hrest⟩ := bind_eq_ok.mp hfold
      obtain ⟨⟨e, b₂⟩, hadd, hb₂⟩ := bind_eq_ok.mp hstep
      cases hb₂
      obtain ⟨-, -, rfl, rfl⟩ := Builder.addResolvent_eq_ok.mp hadd
      have hc : (⟨b.size, .ofList c.clause.literals, c.antecedents⟩ : TraceClause) = c := by
        rw [Clause.ofList_literals, ← Nat.add_zero b.size, ← hsize 0 c rfl]
      rw [hc] at hrest
      rw [ih (fun j d hd => ?_) hrest]
      · simp
      · rw [hsize (j + 1) d hd]
        show b.clauses.size + (j + 1) = (b.clauses.push c).size + j
        rw [Array.size_push]
        omega

end Recycle

/-! ### The outcome -/

section Splice

variable {cs : List TraceClause}

theorem getElem?_inputs {k : Nat} (hk : k < t.numAxioms) : t.inputs[k]? = t.get? k := by
  rw [inputs, List.getElem?_take, if_pos hk, Array.getElem?_toList]
  rfl

theorem Members.getElem?_eq_some (h : t.Members subset cs) {k i : Nat} {c : TraceClause}
    (hi : subset.toList[k]? = some i) (hc : t.get? i = some c) : cs[k]? = some c := by
  rw [h.toList_eq, List.getElem?_map] at hi
  obtain ⟨c', hc', rfl⟩ := Option.map_eq_some_iff.mp hi
  rw [hc', ← hc, h.get?_index c' (List.mem_of_getElem? hc')]

theorem misfitAt_iff (h : t.Members subset cs) (hsize : reduced.numAxioms = subset.size) {k : Nat}
    {e : Violation} : t.MisfitAt subset reduced k e ↔
      ∃ c d, cs[k]? = some c ∧ reduced.inputs[k]? = some d ∧ Misfit subset c d e := by
  have hlt : ∀ {i}, subset.toList[k]? = some i → reduced.inputs[k]? = reduced.get? k := by
    intro i hi
    exact getElem?_inputs (hsize ▸ (List.getElem?_eq_some_iff.mp hi).1)
  constructor
  · rintro ⟨i, c, d, hi, hc, hd, he⟩
    exact ⟨c, d, h.getElem?_eq_some hi hc, (hlt hi).trans hd, he⟩
  · rintro ⟨c, d, hc, hd, he⟩
    have hi : subset.toList[k]? = some c.index := by rw [h.toList_eq, List.getElem?_map, hc]; rfl
    exact ⟨c.index, c, d, hi, h.get?_index c (List.mem_of_getElem? hc), (hlt hi).symm.trans hd, he⟩

/-- Nothing is wrong at a position if the clauses are the same and all antecedents are inside. -/
theorem forall_not_misfitAt_iff {k : Nat} : (∀ e, ¬ t.MisfitAt subset reduced k e) ↔
    ∀ i ∈ subset.toList[k]?, ∀ c ∈ t.get? i, ∀ d ∈ reduced.get? k,
      d.clause = c.clause ∧ ∀ a ∈ c.antecedents, a ∈ subset := by
  constructor
  · intro h i hi c hc d hd
    exact forall_not_misfit_iff.mp fun e he => h e ⟨i, c, d, hi, hc, hd, he⟩
  · rintro h e ⟨i, c, d, hi, hc, hd, he⟩
    exact forall_not_misfit_iff.mpr (h i hi c hc d hd) e he

theorem splice_of_numAxioms_ne (hne : reduced.numAxioms ≠ subset.size) : t.splice subset reduced =
    .error (.malformed (.axiomCount subset.size reduced.numAxioms)) := by
  unfold splice
  rw [if_neg hne]
  rfl

/-- What is wrong first is what splicing reports. -/
theorem splice_eq_error (ht : t.WellFormed) (h : t.Members subset cs) (hr : reduced.WellFormed)
    (hsize : reduced.numAxioms = subset.size) {k : Nat} {e : Violation}
    (he : t.MisfitAt subset reduced k e)
    (hbefore : ∀ j < k, ∀ e', ¬ t.MisfitAt subset reduced j e') :
    t.splice subset reduced = .error e := by
  obtain ⟨c, d, hc, hd, he⟩ := (misfitAt_iff h hsize).mp he
  have hfits : ∀ j < k, ∀ c d, cs[j]? = some c → reduced.inputs[j]? = some d →
      ∀ e, ¬ Misfit subset c d e := fun j hj c d hc hd e he =>
    hbefore j hj e ((misfitAt_iff h hsize).mpr ⟨c, d, hc, hd, he⟩)
  have hfold := Recycled.foldlM_eq_error [] ht h hc hd he hfits derives_empty
  rw [splice_eq ht h hr hsize, hfold]
  rfl

/-- What splicing makes, whenever it does not fail. -/
theorem spliced_of_splice_eq_ok (ht : t.WellFormed) (h : t.Members subset cs)
    (hr : reduced.WellFormed) (hsize : reduced.numAxioms = subset.size)
    (hsplice : t.splice subset reduced = .ok t') : Spliced t subset reduced t' := by
  obtain ⟨hwf, -, -, hclauses, hinputs⟩ :=
    of_splice_eq_ok ht ht.justifiedBy h hr hr.justifiedBy hsplice
  obtain ⟨b₁, hrecycle, b₂, hderived, hbuild, -⟩ := (splice_eq_ok ht h hr hsize).mp hsplice
  obtain ⟨rfl, -⟩ := build_eq_ok_iff.mp hbuild
  obtain ⟨es, hb₁, hes⟩ := forall₂_renames h.get?_index (h.zip_eq hr hsize).1 hrecycle
  have hlength : es.length = reduced.numAxioms := by
    rw [← hes.length_eq, (h.zip_eq hr hsize).1, length_inputs hr]
  have hb₂ : b₂.clauses.toList = es ++ reduced.derived := by
    have hsize₁ : b₁.size = es.length := by
      rw [Builder.size, ← Array.length_toList, hb₁]
      rfl
    rw [toList_of_foldlM_derived (fun j c hc => ?_) hderived, hb₁]
    · rfl
    · rw [derived, List.getElem?_drop, Array.getElem?_toList] at hc
      rw [hsize₁, hlength]
      exact hr.index_eq hc
  have hget : ∀ k, b₂.trace.get? k = (es ++ reduced.derived)[k]? := fun k => by
    rw [← hb₂, Array.getElem?_toList]
    rfl
  refine ⟨hwf, ?_, hclauses, hinputs, fun k i c e hi hc he => ?_, fun k hk => ?_⟩
  · rw [← length_clauseList, hclauses, length_clauseList]
  · obtain ⟨hk, rfl⟩ := List.getElem?_eq_some_iff.mp (h.getElem?_eq_some hi hc)
    have hk' : k < es.length := hes.length_eq ▸ hk
    rw [hget, List.getElem?_append_left hk', List.getElem?_eq_getElem hk'] at he
    obtain rfl := Option.some.inj he
    exact hes.get hk hk'
  · rw [hget, List.getElem?_append_right (by rw [hlength, hsize]; exact hk), derived,
      List.getElem?_drop, hlength, Array.getElem?_toList, hsize, Nat.add_sub_cancel' hk]
    rfl

/-- If nothing is wrong then splicing does not fail. -/
theorem exists_splice_of_fit (ht : t.WellFormed) (h : t.Members subset cs) (hr : reduced.WellFormed)
    (hends : reduced.EndsEmpty) (hsize : reduced.numAxioms = subset.size)
    (hfit : ∀ k e, ¬ t.MisfitAt subset reduced k e) : ∃ t', t.splice subset reduced = .ok t' := by
  have hpair : ∀ {k : Nat} {c d : TraceClause}, cs[k]? = some c → reduced.inputs[k]? = some d →
      d.clause = c.clause ∧ ∀ a ∈ c.antecedents, a ∈ subset := by
    intro k c d hc hd
    exact forall_not_misfit_iff.mp fun e he =>
      hfit k e ((misfitAt_iff h hsize).mpr ⟨c, d, hc, hd, he⟩)
  have hlength := (h.zip_eq hr hsize).1
  have hinputs : reduced.inputs.map (·.clause) = cs.map (·.clause) := by
    refine List.ext_getElem (by rw [List.length_map, List.length_map, hlength]) fun k hk hk' => ?_
    rw [List.length_map] at hk hk'
    rw [List.getElem_map, List.getElem_map]
    exact (hpair (List.getElem?_eq_getElem hk') (List.getElem?_eq_getElem hk)).1
  have hclosed : t.Closed (· ∈ subset) := by
    intro i c hc hi
    obtain ⟨k, hk, hck⟩ := List.mem_iff_getElem.mp ((h.mem_iff hc).mp hi).1
    have hk' : k < reduced.inputs.length := hlength ▸ hk
    exact (hpair (hck ▸ List.getElem?_eq_getElem hk) (List.getElem?_eq_getElem hk')).2
  exact exists_splice_eq_ok ht ht.justifiedBy hclosed h hr hr.justifiedBy hends hinputs

/-- **What splicing answers.**  A refutation with another number of input clauses than the subset
has clauses is refused.  Otherwise the first position counts at which something is wrong: a clause
that differs, or the first antecedent of a clause of the subset that is outside of it.  If there is
none then the result has the clauses of the refutation and the input clauses of the subset; the
clauses of the subset have their antecedents renamed to their places, and all later clauses are
those of the refutation. -/
theorem splice_outcome (ht : t.WellFormed) (hlt : ∀ i ∈ subset, i < t.size)
    (hr : reduced.WellFormed) (hends : reduced.EndsEmpty) :
    (reduced.numAxioms ≠ subset.size → t.splice subset reduced =
      .error (.malformed (.axiomCount subset.size reduced.numAxioms))) ∧
    (reduced.numAxioms = subset.size →
      (∀ k e, t.MisfitAt subset reduced k e →
        (∀ j < k, ∀ e', ¬ t.MisfitAt subset reduced j e') →
        t.splice subset reduced = .error e) ∧
      ((∀ k e, ¬ t.MisfitAt subset reduced k e) →
        ∃ t', t.splice subset reduced = .ok t' ∧ Spliced t subset reduced t')) := by
  obtain ⟨cs, h⟩ := exists_members ht hlt
  refine ⟨splice_of_numAxioms_ne, fun hsize => ⟨fun k e => splice_eq_error ht h hr hsize,
    fun hfit => ?_⟩⟩
  obtain ⟨t', hsplice⟩ := exists_splice_of_fit ht h hr hends hsize hfit
  exact ⟨t', hsplice, spliced_of_splice_eq_ok ht h hr hsize hsplice⟩

/-- A refutation which makes no use of its first clause. -/
def unusedInput : Trace :=
  let clause (codes : List Int) : Clause := .ofList (codes.filterMap Literal.ofDimacs?)
  ⟨#[⟨0, clause [3], []⟩, ⟨1, clause [1], []⟩, ⟨2, clause [-1, 2], []⟩, ⟨3, clause [-2], []⟩,
    ⟨4, clause [2], [1, 2]⟩, ⟨5, .empty, [4, 3]⟩], 4⟩

/-- A refutation of the last clauses of `unusedInput` before the empty one, its derived clause
among them. -/
def lastClauses (n : Nat) : Trace :=
  let cs := (unusedInput.clauses.toList.drop (5 - n)).take n
  ⟨(cs.mapIdx fun k c => ⟨k, c.clause, []⟩).toArray.push ⟨n, .empty, [n - 1, n - 2]⟩, n⟩

/-- The antecedents of the recycled clause are renamed if they are both in the subset.  Otherwise
the first one is missed. -/
theorem splice_outcome_unused_input :
    (unusedInput.WellFormed ∧ (lastClauses 4).WellFormed ∧ (lastClauses 3).WellFormed) ∧
      (∃ t', unusedInput.splice (.ofList [1, 2, 3, 4]) (lastClauses 4) = .ok t' ∧ t'.size = 5 ∧
        ∀ e, t'.get? 3 = some e → e.antecedents.map some = [some 0, some 1]) ∧
      unusedInput.splice (.ofList [2, 3, 4]) (lastClauses 3) = .error (.antecedentOutside 4 1) := by
  have ht : unusedInput.WellFormed := by decide
  have hfour : (lastClauses 4).WellFormed := by decide
  have hthree : (lastClauses 3).WellFormed := by decide
  refine ⟨⟨ht, hfour, hthree⟩, ?_, ?_⟩
  · have hlt : ∀ i ∈ IndexSet.ofList [1, 2, 3, 4], i < unusedInput.size := by decide
    obtain ⟨-, hsplice⟩ := splice_outcome ht hlt hfour ⟨_, rfl, rfl⟩
    obtain ⟨t', ht', hspliced⟩ := (hsplice rfl).2 fun k => by
      refine forall_not_misfitAt_iff.mpr ?_
      match k with
      | 0 | 1 | 2 | 3 => decide
      | k + 4 => exact fun i hi => nomatch hi
    refine ⟨t', ht', hspliced.size_eq, fun e he => ?_⟩
    exact (hspliced.renames (i := 4) rfl rfl he).antecedents_eq
  · have hlt : ∀ i ∈ IndexSet.ofList [2, 3, 4], i < unusedInput.size := by decide
    obtain ⟨-, hsplice⟩ := splice_outcome ht hlt hthree ⟨_, rfl, rfl⟩
    refine (hsplice rfl).1 2 _ ⟨4, _, _, rfl, rfl, rfl, ?_⟩ fun k hk => ?_
    · exact .outside rfl (show [1, 2] = [] ++ 1 :: [2] from rfl) (by decide) (by decide)
    · refine forall_not_misfitAt_iff.mpr ?_
      match k, hk with
      | 0, _ | 1, _ => decide

end Splice

end Trace

end ModelFinder
