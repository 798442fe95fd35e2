import ModelFinder.Arranged
import ModelFinder.Proofs.Attempts
import ModelFinder.Proofs.Trace.Reach
import ModelFinder.Trace.Splice

/-!
# Spliced refutations

Take a trace that is justified by some rule, and some of its clauses.  A refutation of the problem
these clauses make up (`Trace.toCnf`), justified by the same rule, is turned by `Trace.splice` into
a refutation from the input clauses among them, in which the others are derived as in the trace.  It
has the clauses of the given refutation, at the same positions.

What is spliced is justified whenever splicing does not fail (`of_splice_eq_ok`), as every step
checks what it adds.  It does not fail on clauses that are closed under antecedents
(`exists_splice_eq_ok`).

* `toCnf_eq_ok`, `exists_members_of_toCnf`: the problem lists the clauses in the order of their
  positions.
* `recycle_eq_ok`: how one clause is recycled, given where the clauses before it have gone.
* `Recycling.Holds.step`, `Recycling.Holds.foldlM_step`: the table of what was recycled holds, for
  every clause done so far, its position among the clauses of the subset.  So recycling by the table
  is recycling by these positions (`recycleAmong`, `splice_eq`).
* `Recycled.of_recycle`, `Recycled.exists_recycle`: what recycling makes of the clauses so far, and
  when it does not fail.
-/

namespace ModelFinder

namespace Trace

variable {t t' reduced : Trace} {subset : ClauseSet} {rule : List Clause → Clause → Prop}

/-! ### The clauses of a subset -/

/-- The clauses of a trace at the positions of a set, in order. -/
structure Members (t : Trace) (subset : ClauseSet) (cs : List TraceClause) : Prop where
  toList_eq : subset.toList = cs.map (·.index)
  get?_index : ∀ c ∈ cs, t.get? c.index = some c

theorem exists_members (ht : t.WellFormed) (hlt : ∀ i ∈ subset, i < t.size) :
    ∃ cs, t.Members subset cs := by
  have hall : ∀ is : List Nat, (∀ i ∈ is, i < t.size) →
      ∃ cs : List TraceClause, is = cs.map (·.index) ∧ ∀ c ∈ cs, t.get? c.index = some c := by
    intro is
    induction is with
    | nil => exact fun _ => ⟨[], rfl, fun c hc => absurd hc List.not_mem_nil⟩
    | cons i is ih =>
        intro his
        obtain ⟨c, hc⟩ := exists_get? (his i List.mem_cons_self)
        obtain ⟨cs, rfl, hcs⟩ := ih fun j hj => his j (List.mem_cons_of_mem i hj)
        refine ⟨c :: cs, by rw [List.map_cons, ht.index_eq hc], fun d hd => ?_⟩
        rcases List.mem_cons.mp hd with rfl | hd
        · exact ht.get?_index hc
        · exact hcs d hd
  obtain ⟨cs, hcs, hget⟩ := hall subset.toList hlt
  exact ⟨cs, hcs, hget⟩

section Members

variable {cs : List TraceClause}

theorem Members.mem_iff (h : t.Members subset cs) {i : Nat} {c : TraceClause}
    (hc : t.get? i = some c) : i ∈ subset ↔ c ∈ cs ∧ c.index = i := by
  rw [← IndexSet.mem_toList, h.toList_eq, List.mem_map]
  constructor
  · rintro ⟨d, hd, rfl⟩
    obtain rfl := Option.some.inj (hc.symm.trans (h.get?_index d hd))
    exact ⟨hd, rfl⟩
  · rintro ⟨hmem, rfl⟩
    exact ⟨c, hmem, rfl⟩

/-- If no clause of a subset is empty, none is in the problem made of it. -/
theorem Members.not_mem_literals (h : t.Members subset cs)
    (hne : ∀ i ∈ subset, ∀ c, t.get? i = some c → c.clause ≠ .empty) :
    [] ∉ cs.map (·.clause.literals) := by
  intro hmem
  obtain ⟨c, hc, hnil⟩ := List.mem_map.mp hmem
  have hget := h.get?_index c hc
  refine hne _ ((h.mem_iff hget).mpr ⟨hc, rfl⟩) c hget ?_
  exact Clause.isEmpty_iff.mp (List.isEmpty_iff.mpr hnil)

/-- The problem made of a subset. -/
theorem toCnf_eq_ok (h : t.Members subset cs) :
    t.toCnf subset = .ok ⟨0, cs.map (·.clause.literals)⟩ := by
  have hall : ∀ ds : List TraceClause, (∀ d ∈ ds, t.get? d.index = some d) →
      (ds.map (·.index)).mapM (fun i => (do return (← t.get i).clause.literals :
        Except Violation (List Literal))) = .ok (ds.map (·.clause.literals)) := by
    intro ds hds
    rw [mapM_eq_ok, List.map_map, List.map_map]
    refine List.map_congr_left fun d hd => ?_
    simp only [Function.comp, get, hds d hd]
    rfl
  unfold toCnf
  rw [h.toList_eq, hall cs h.get?_index]
  rfl

/-- The subset of a problem has clauses only where the trace has. -/
theorem exists_members_of_toCnf (ht : t.WellFormed) {cnf : Cnf} (h : t.toCnf subset = .ok cnf) :
    ∃ cs, t.Members subset cs ∧ cnf = ⟨0, cs.map (·.clause.literals)⟩ := by
  obtain ⟨lss, hlss, -⟩ := bind_eq_ok.mp h
  have hlt : ∀ i ∈ subset, i < t.size := by
    intro i hi
    have hmem := List.mem_map_of_mem (f := fun i => (do return (← t.get i).clause.literals :
      Except Violation (List Literal))) hi
    rw [mapM_eq_ok.mp hlss] at hmem
    obtain ⟨ls, -, hls⟩ := List.mem_map.mp hmem
    obtain ⟨c, hc, -⟩ := bind_eq_ok.mp hls.symm
    exact get?_lt (get_eq_ok.mp hc)
  obtain ⟨cs, hcs⟩ := exists_members ht hlt
  exact ⟨cs, hcs, Except.ok.inj (h.symm.trans (toCnf_eq_ok hcs))⟩

end Members

/-! ### Recycling -/

section Recycle

variable {pre post cs : List TraceClause} {c d : TraceClause} {b b' : Builder}

/-- The clauses so far, with those that are input clauses of the trace as input clauses. -/
def Recycled (rule : List Clause → Clause → Prop) (b : Builder) (cs : List TraceClause) : Prop :=
  Derives rule b ((cs.filter (·.isAxiom)).map (·.clause)) (cs.map (·.clause))

theorem Recycled.size_eq (hb : Recycled rule b cs) : b.size = cs.length :=
  (Derives.size_eq hb).trans (List.length_map _)

/-- The clause at a kept position, among those recycled so far. -/
theorem getElem?_of_idxOf? (h : t.Members subset (pre ++ post)) {a k : Nat}
    (hk : subset.toList.idxOf? a = some k) (hlt : k < pre.length) :
    (pre.map (·.clause))[k]? = t.clauseList[a]? := by
  obtain ⟨hlen, hka, -⟩ := List.idxOf?_eq_some_iff.mp hk
  have hget : subset.toList[k]? = some a := by rw [List.getElem?_eq_getElem hlen, hka]
  rw [h.toList_eq, List.map_append, List.getElem?_append_left (by rwa [List.length_map]),
    List.getElem?_map] at hget
  obtain ⟨d, hd, rfl⟩ := Option.map_eq_some_iff.mp hget
  have hmem := h.get?_index d (List.mem_append_left _ (List.mem_of_getElem? hd))
  rw [List.getElem?_map, hd, getElem?_clauseList, hmem]

/-- The members are in the order of their positions. -/
theorem Members.lt_of_mem_before (h : t.Members subset (pre ++ c :: post)) (hd : d ∈ pre) :
    d.index < c.index := by
  have hsorted := subset.increasing
  rw [h.toList_eq, List.map_append, List.pairwise_append] at hsorted
  exact hsorted.2.2 _ (List.mem_map_of_mem hd) _ (by simp)

/-- A smaller position is none of those that are still to come. -/
theorem Members.not_mem_of_lt (h : t.Members subset (pre ++ c :: post)) {a : Nat}
    (ha : a < c.index) : a ∉ (c :: post).map (·.index) := by
  have hsorted := subset.increasing
  rw [h.toList_eq, List.map_append, List.map_cons] at hsorted
  intro hmem
  rcases List.mem_cons.mp hmem with rfl | hmem
  · exact Nat.lt_irrefl _ ha
  · have hgt := (List.pairwise_cons.mp (List.pairwise_append.mp hsorted).2.1).1 a hmem
    exact Nat.lt_asymm ha hgt

/-- A member before a position of the subset is among those recycled so far. -/
theorem exists_idxOf?_lt (h : t.Members subset (pre ++ c :: post)) {a : Nat} (ha : a ∈ subset)
    (hlt : a < c.index) : ∃ k, subset.toList.idxOf? a = some k ∧ k < pre.length := by
  have hmem : a ∈ subset.toList := ha
  obtain ⟨k, hk⟩ := Option.isSome_iff_exists.mp (List.isSome_idxOf?.mpr hmem)
  obtain ⟨hlen, hka, -⟩ := List.idxOf?_eq_some_iff.mp hk
  have hget : subset.toList[k]? = some a := by rw [List.getElem?_eq_getElem hlen, hka]
  rw [h.toList_eq, List.map_append] at hget
  -- the subset is in increasing order, so a smaller position is found before that of `c`
  refine ⟨k, hk, Nat.lt_of_not_le fun hle => h.not_mem_of_lt hlt ?_⟩
  rw [List.getElem?_append_right (by rw [List.length_map]; exact hle)] at hget
  exact List.mem_of_getElem? hget

theorem isAxiom_iff_lt (ht : t.WellFormed) (hc : t.get? c.index = some c) :
    c.isAxiom = true ↔ c.index < t.numAxioms := by
  rw [← ht.isAxiom_iff hc, TraceClause.isAxiom, List.isEmpty_iff]

theorem Members.mem_filter_isAxiom (ht : t.WellFormed) (h : t.Members subset cs) :
    d ∈ cs.filter (·.isAxiom) ↔ d ∈ t.inputs ∧ d.index ∈ subset := by
  rw [List.mem_filter, mem_inputs_iff]
  constructor
  · rintro ⟨hd, hax⟩
    have hget := h.get?_index d hd
    exact ⟨⟨d.index, (isAxiom_iff_lt ht hget).mp hax, hget⟩, (h.mem_iff hget).mpr ⟨hd, rfl⟩⟩
  · rintro ⟨⟨i, hlt, hi⟩, hin⟩
    have hget := ht.get?_index hi
    refine ⟨((h.mem_iff hget).mp hin).1, (isAxiom_iff_lt ht hget).mpr ?_⟩
    rw [ht.index_eq hi]
    exact hlt

/-- The input clauses of a subset, in their order. -/
theorem Members.filter_isAxiom (ht : t.WellFormed) (h : t.Members subset cs) :
    cs.filter (·.isAxiom) = t.inputs.filter fun c => subset.contains c.index := by
  have hsorted := subset.increasing
  rw [h.toList_eq, List.pairwise_map] at hsorted
  have hinputs : t.inputs.Pairwise (·.index < ·.index) :=
    (index_lt_of_lt ht).sublist (List.take_sublist _ _)
  refine Arranged.eq_of_mem_iff (hsorted.sublist List.filter_sublist)
    (hinputs.sublist List.filter_sublist) fun d => ?_
  rw [h.mem_filter_isAxiom ht, List.mem_filter, IndexSet.contains_eq_true]

/-- Everything before an input clause is an input clause. -/
theorem filter_isAxiom_eq_self (ht : t.WellFormed) (h : t.Members subset (pre ++ c :: post))
    (hc : c.isAxiom = true) : pre.filter (·.isAxiom) = pre := by
  refine List.filter_eq_self.mpr fun d hd => ?_
  have hmem : ∀ e ∈ pre ++ c :: post, t.get? e.index = some e := h.get?_index
  rw [isAxiom_iff_lt ht (hmem c (by simp))] at hc
  rw [isAxiom_iff_lt ht (hmem d (List.mem_append_left _ hd))]
  exact Nat.lt_trans (h.lt_of_mem_before hd) hc

/-- The steps of recycling a clause. -/
theorem recycle_eq {position : Nat → Except Violation Nat} (hc : t.get? c.index = some c) :
    t.recycle position b c.index d =
      if d.clause = c.clause then
        if c.isAxiom = true then b.addAxiom c.clause.literals
        else c.antecedents.mapM position >>= fun as => b.addResolvent c.clause.literals as
      else .error (.malformed (.axiomLiterals d.index c.index)) := by
  unfold recycle
  rw [get_eq_ok.mpr hc]
  show (if d.clause.hasLiterals c.clause.literals = true then _ else _ :
    Except Violation (TraceClause × Builder)) = _
  simp only [Clause.hasLiterals_literals_iff]
  rfl

/-- A clause is recycled as an input clause, or as a derived one if its antecedents have got
positions. -/
theorem recycle_eq_ok {position : Nat → Except Violation Nat} {e : TraceClause}
    (hc : t.get? c.index = some c) :
    t.recycle position b c.index d = .ok (e, b') ↔ d.clause = c.clause ∧
      if c.isAxiom = true then b.addAxiom c.clause.literals = .ok (e, b')
      else ∃ as, c.antecedents.mapM position = .ok as ∧
        b.addResolvent c.clause.literals as = .ok (e, b') := by
  rw [recycle_eq hc]
  split
  next hd =>
    rw [and_iff_right hd]
    split
    next => exact Iff.rfl
    next => exact bind_eq_ok
  next hd => exact ⟨fun h => (by cases h), fun h => absurd h.1 hd⟩

/-- The place of an antecedent of the clause at `old` among the kept positions. -/
def placeAmong (kept : List Nat) (old a : Nat) : Except Violation Nat :=
  match kept.idxOf? a with
  | some k => .ok k
  | none => .error (.antecedentOutside old a)

/-- The trace under construction after recycling a clause, with the places of its antecedents among
the kept positions. -/
def recycleAmong (t : Trace) (kept : List Nat) (b : Builder) (old : Nat) (reduced : TraceClause) :
    Except Violation Builder := do
  return (← t.recycle (placeAmong kept old) b old reduced).2

theorem recycleAmong_eq_ok {kept : List Nat} (hc : t.get? c.index = some c) :
    t.recycleAmong kept b c.index d = .ok b' ↔ d.clause = c.clause ∧
      if c.isAxiom = true then ∃ e, b.addAxiom c.clause.literals = .ok (e, b')
      else ∃ as e, c.antecedents.map kept.idxOf? = as.map some ∧
        b.addResolvent c.clause.literals as = .ok (e, b') := by
  have hplaces : ∀ as, c.antecedents.mapM (placeAmong kept c.index) = .ok as ↔
      c.antecedents.map kept.idxOf? = as.map some := fun as => by
    refine mapM_eq_ok_iff_map_some fun a k => ?_
    unfold placeAmong
    cases kept.idxOf? a <;> simp
  have hsnd : t.recycleAmong kept b c.index d = .ok b' ↔
      ∃ e, t.recycle (placeAmong kept c.index) b c.index d = .ok (e, b') := by
    refine bind_eq_ok.trans ⟨?_, fun ⟨e, h⟩ => ⟨_, h, rfl⟩⟩
    rintro ⟨⟨e, b''⟩, h, hb⟩
    cases hb
    exact ⟨e, h⟩
  simp only [hsnd, recycle_eq_ok hc, hplaces, exists_and_left]
  split
  next => rfl
  next =>
    rw [exists_comm]
    simp only [exists_and_left]

/-- What recycling one clause makes of those so far. -/
theorem Recycled.of_recycle (ht : t.WellFormed) (hj : t.JustifiedBy rule)
    (h : t.Members subset (pre ++ c :: post)) (hb : Recycled rule b pre)
    (hrec : t.recycleAmong subset.toList b c.index d = .ok b') :
    d.clause = c.clause ∧ Recycled rule b' (pre ++ [c]) := by
  have hget : t.get? c.index = some c := h.get?_index c (by simp)
  obtain ⟨hd, hadd⟩ := (recycleAmong_eq_ok hget).mp hrec
  refine ⟨hd, ?_⟩
  unfold Recycled
  rw [List.filter_append, List.map_append, List.map_append]
  split at hadd
  next hc =>
    obtain ⟨e, hadd⟩ := hadd
    have hb' := Derives.addAxiom hb hadd
    rw [Clause.ofList_literals] at hb'
    simpa [hc] using hb'
  next hc =>
    obtain ⟨as, e, has, hadd⟩ := hadd
    have hle : t.numAxioms ≤ c.index :=
      Nat.le_of_not_lt fun hlt => hc ((isAxiom_iff_lt ht hget).mpr hlt)
    obtain ⟨ds, hds, hrule⟩ := hj hget hle
    -- the builder only accepts antecedents among the clauses recycled so far
    have hlt := (Builder.addResolvent_eq_ok.mp hadd).2.1
    have hat : b.trace.clausesAt as = some ds := by
      obtain rfl : as = c.antecedents.map fun a => (subset.toList.idxOf? a).getD 0 := by
        simpa [Function.comp_def] using (congrArg (List.map (·.getD 0)) has).symm
      rw [← hds]
      refine clausesAt_map fun a ha => ?_
      have hmem := List.mem_map_of_mem (f := subset.toList.idxOf?) ha
      rw [has] at hmem
      obtain ⟨k, hk, hidx⟩ := List.mem_map.mp hmem
      rw [← hidx, hb.clauseList_eq]
      exact getElem?_of_idxOf? h hidx.symm (hb.size_eq ▸ hlt k hk)
    rw [← Clause.ofList_literals c.clause] at hrule
    have hb' := Derives.addResolvent hb hadd hat hrule
    rw [Clause.ofList_literals] at hb'
    simpa [hc] using hb'

/-- A clause can be recycled if its antecedents are in the subset. -/
theorem Recycled.exists_recycle (ht : t.WellFormed) (h : t.Members subset (pre ++ c :: post))
    (hin : ∀ a ∈ c.antecedents, a ∈ subset) (hd : d.clause = c.clause)
    (hb : Recycled rule b pre) : ∃ b', t.recycleAmong subset.toList b c.index d = .ok b' := by
  have hget : t.get? c.index = some c := h.get?_index c (by simp)
  simp only [recycleAmong_eq_ok hget, hd, true_and]
  split
  next hc =>
    unfold Recycled at hb
    rw [filter_isAxiom_eq_self ht h hc] at hb
    obtain ⟨e, b', hadd, -⟩ := hb.exists_addAxiom c.clause.literals
    exact ⟨b', e, hadd⟩
  next hc =>
    have hkept : ∀ a ∈ c.antecedents, ∃ k, subset.toList.idxOf? a = some k ∧ k < pre.length :=
      fun a ha => exists_idxOf?_lt h (hin a ha) (ht.antecedent_lt hget a ha)
    obtain ⟨as, has⟩ := exists_map_some fun a ha => (hkept a ha).imp fun _ h => h.1
    have hne : as ≠ [] := by
      rintro rfl
      rw [List.map_nil, eq_comm, List.map_eq_nil_iff] at has
      exact hc (List.isEmpty_iff.mpr has)
    have hlt : ∀ k ∈ as, k < b.size := by
      intro k hk
      have hmem := List.mem_map_of_mem (f := some) hk
      rw [has] at hmem
      obtain ⟨a, ha, hidx⟩ := List.mem_map.mp hmem
      obtain ⟨k', hk', hlt⟩ := hkept a ha
      obtain rfl := Option.some.inj (hidx.symm.trans hk')
      rwa [hb.size_eq]
    obtain ⟨e, b', hadd⟩ := Builder.exists_addResolvent c.clause.literals hne hlt
    exact ⟨b', as, e, has.symm, hadd⟩

/-- What recycling clauses one after the other makes of those so far. -/
theorem Recycled.of_foldlM (pre : List TraceClause) (ht : t.WellFormed) (hj : t.JustifiedBy rule)
    {ds : List TraceClause} (h : t.Members subset (pre ++ post)) (hlen : post.length = ds.length)
    (hb : Recycled rule b pre)
    (hfold : ((post.map (·.index)).zip ds).foldlM
      (fun b (old, c) => t.recycleAmong subset.toList b old c) b = .ok b') :
    ds.map (·.clause) = post.map (·.clause) ∧ Recycled rule b' (pre ++ post) := by
  induction post generalizing pre ds b with
  | nil =>
      obtain rfl := List.length_eq_zero_iff.mp hlen.symm
      cases hfold
      rw [List.append_nil]
      exact ⟨rfl, hb⟩
  | cons c post ih =>
      cases ds with
      | nil => cases hlen
      | cons d ds =>
          rw [List.map_cons, List.zip_cons_cons, List.foldlM_cons] at hfold
          obtain ⟨b₁, hrec, hrest⟩ := bind_eq_ok.mp hfold
          obtain ⟨hd, hb₁⟩ := hb.of_recycle ht hj h hrec
          have happend : pre ++ c :: post = (pre ++ [c]) ++ post := by simp
          rw [happend] at h ⊢
          obtain ⟨hds, hb'⟩ := ih _ h (Nat.succ.inj hlen) hb₁ hrest
          exact ⟨by rw [List.map_cons, List.map_cons, hd, hds], hb'⟩

/-- Clauses that are closed under antecedents can be recycled one after the other. -/
theorem Recycled.exists_foldlM (pre : List TraceClause) (ht : t.WellFormed)
    (hj : t.JustifiedBy rule) (hclosed : t.Closed (· ∈ subset)) {ds : List TraceClause}
    (h : t.Members subset (pre ++ post)) (hds : ds.map (·.clause) = post.map (·.clause))
    (hb : Recycled rule b pre) :
    ∃ b', ((post.map (·.index)).zip ds).foldlM
      (fun b (old, c) => t.recycleAmong subset.toList b old c) b = .ok b' := by
  induction post generalizing pre ds b with
  | nil => exact ⟨b, rfl⟩
  | cons c post ih =>
      cases ds with
      | nil => cases hds
      | cons d ds =>
          obtain ⟨hd, hds⟩ := List.cons.inj hds
          have hget : t.get? c.index = some c := h.get?_index c (by simp)
          have hin : c.index ∈ subset := (h.mem_iff hget).mpr ⟨by simp, rfl⟩
          obtain ⟨b₁, hrec⟩ := hb.exists_recycle ht h (hclosed hget hin) hd
          obtain ⟨-, hb₁⟩ := hb.of_recycle ht hj h hrec
          have happend : pre ++ c :: post = (pre ++ [c]) ++ post := by simp
          rw [happend] at h
          obtain ⟨b', hrest⟩ := ih _ h hds hb₁
          refine ⟨b', ?_⟩
          rw [List.map_cons, List.zip_cons_cons, List.foldlM_cons]
          exact bind_eq_ok.mpr ⟨b₁, hrec, hrest⟩

end Recycle

/-! ### The table of new positions -/

section Table

variable {m : Recycling} {pre post : List TraceClause} {c d : TraceClause}

/-- The clauses so far have got their places as new positions, and no other clause has got one. -/
structure Recycling.Holds (m : Recycling) (t : Trace) (cs : List TraceClause) : Prop where
  size_eq : m.builder.size = cs.length
  get?_eq : ∀ a < t.size, m.renamed.get? a = some ((cs.map (·.index)).idxOf? a)

@[simp] theorem Recycling.builder_start (t : Trace) : (start t).builder = .empty := rfl

theorem Recycling.holds_start (t : Trace) : (start t).Holds t [] where
  size_eq := rfl
  get?_eq a ha := by
    have hlt : a < t.terminal + 1 - (SlotTable.ofList ([] : List (Option Nat))).size :=
      Nat.lt_succ_of_le (Nat.le_sub_one_of_lt ha)
    rw [start, SlotTable.get?_eq_toList, SlotTable.toList_growTo, SlotTable.toList_ofList,
      List.nil_append, List.getElem?_replicate, if_pos hlt]
    rfl

theorem idxOf?_append (is js : List Nat) (a : Nat) :
    (is ++ js).idxOf? a = (is.idxOf? a).or ((js.idxOf? a).map (· + is.length)) :=
  List.findIdx?_append

/-- The place of a smaller position in a subset is found among the clauses before. -/
theorem Members.idxOf?_eq (h : t.Members subset (pre ++ c :: post)) {a : Nat} (ha : a < c.index) :
    (pre.map (·.index)).idxOf? a = subset.toList.idxOf? a := by
  rw [h.toList_eq, List.map_append, idxOf?_append,
    List.idxOf?_eq_none_iff.mpr (h.not_mem_of_lt ha), Option.map_none, Option.or_none]

theorem Recycling.Holds.position_eq (hm : m.Holds t pre) (ht : t.WellFormed)
    (h : t.Members subset (pre ++ c :: post)) {a : Nat} (ha : a ∈ c.antecedents) :
    m.position c.index a = placeAmong subset.toList c.index a := by
  have hget : t.get? c.index = some c := h.get?_index c (by simp)
  have hlt := ht.antecedent_lt hget a ha
  unfold position placeAmong
  rw [hm.get?_eq a (Nat.lt_trans hlt (get?_lt hget)), h.idxOf?_eq hlt]
  cases subset.toList.idxOf? a <;> rfl

/-- The next position is that of a recycled clause. -/
theorem index_of_recycle {position : Nat → Except Violation Nat} {b b' : Builder} {e : TraceClause}
    (hc : t.get? c.index = some c) (h : t.recycle position b c.index d = .ok (e, b')) :
    e.index = b.size ∧ b'.size = b.size + 1 := by
  obtain ⟨-, hadd⟩ := (recycle_eq_ok hc).mp h
  split at hadd
  next =>
    obtain ⟨-, rfl, rfl⟩ := Builder.addAxiom_eq_ok.mp hadd
    exact ⟨rfl, Array.size_push _⟩
  next =>
    obtain ⟨as, -, hadd⟩ := hadd
    obtain ⟨-, -, rfl, rfl⟩ := Builder.addResolvent_eq_ok.mp hadd
    exact ⟨rfl, Array.size_push _⟩

theorem recycle_congr {p q : Nat → Except Violation Nat} {b : Builder}
    (hc : t.get? c.index = some c) (h : ∀ a ∈ c.antecedents, p a = q a) :
    t.recycle p b c.index d = t.recycle q b c.index d := by
  rw [recycle_eq hc, recycle_eq hc, mapM_congr h]

/-- A recycled clause gets the next place as its new position. -/
theorem Recycling.Holds.set (hm : m.Holds t pre) (h : t.Members subset (pre ++ c :: post))
    {b : Builder} {renamed : SlotTable (Option Nat)} (hsize : b.size = m.builder.size + 1)
    (hget : ∀ a, renamed.get? a =
      if c.index = a then some (some m.builder.size) else m.renamed.get? a) :
    (⟨b, renamed⟩ : Recycling).Holds t (pre ++ [c]) := by
  refine ⟨by simp [hsize, hm.size_eq], fun a ha => ?_⟩
  rw [hget, hm.get?_eq a ha, hm.size_eq, List.map_append, idxOf?_append, List.map_singleton,
    List.idxOf?_singleton]
  split
  next heq =>
    have hnew : a ∉ pre.map (·.index) := by
      intro hmem
      obtain ⟨d, hd, rfl⟩ := List.mem_map.mp hmem
      exact Nat.ne_of_gt (h.lt_of_mem_before hd) heq
    rw [List.idxOf?_eq_none_iff.mpr hnew]
    simp [heq]
  next hne => simp [hne]

/-- A step of recycling gives antecedents their places among the kept positions. -/
theorem Recycling.Holds.step (hm : m.Holds t pre) (ht : t.WellFormed)
    (h : t.Members subset (pre ++ c :: post)) :
    (·.builder) <$> m.step t c.index d = t.recycleAmong subset.toList m.builder c.index d ∧
      ∀ m', m.step t c.index d = .ok m' → m'.Holds t (pre ++ [c]) := by
  have hget : t.get? c.index = some c := h.get?_index c (by simp)
  have hplaces : t.recycle (m.position c.index) m.builder c.index d =
      t.recycle (placeAmong subset.toList c.index) m.builder c.index d :=
    recycle_congr hget fun a => hm.position_eq ht h
  cases hrec : t.recycle (placeAmong subset.toList c.index) m.builder c.index d with
  | error e =>
      have hstep : m.step t c.index d = .error e := by
        unfold Recycling.step
        rw [hplaces, hrec]
        rfl
      refine ⟨?_, fun m' hm' => nomatch hstep.symm.trans hm'⟩
      rw [hstep, recycleAmong, hrec]
      rfl
  | ok r =>
      obtain ⟨e, b⟩ := r
      obtain ⟨hindex, hsize⟩ := index_of_recycle hget hrec
      obtain ⟨renamed, hset, hafter⟩ :=
        SlotTable.exists_set?_eq_some (hm.get?_eq c.index (get?_lt hget)) (some e.index)
      rw [hindex] at hafter
      have hstep : m.step t c.index d = .ok ⟨b, renamed⟩ := by
        refine bind_eq_ok.mpr ⟨(e, b), hplaces.trans hrec, ?_⟩
        dsimp only
        rw [hset]
        rfl
      refine ⟨?_, fun m' hm' => ?_⟩
      · rw [hstep, recycleAmong, hrec]
        rfl
      · cases hstep.symm.trans hm'
        exact hm.set h hsize hafter

/-- The table gives the same trace as the places among the kept positions. -/
theorem Recycling.Holds.foldlM_step (hm : m.Holds t pre) (ht : t.WellFormed)
    (h : t.Members subset (pre ++ post)) (ds : List TraceClause) :
    (·.builder) <$> ((post.map (·.index)).zip ds).foldlM (fun m (old, c) => m.step t old c) m =
      ((post.map (·.index)).zip ds).foldlM
        (fun b (old, c) => t.recycleAmong subset.toList b old c) m.builder := by
  induction post generalizing pre ds m with
  | nil => rfl
  | cons c post ih =>
      cases ds with
      | nil => rfl
      | cons d ds =>
          obtain ⟨hstep, hnext⟩ := hm.step (d := d) ht h
          rw [List.append_cons] at h
          rw [List.map_cons, List.zip_cons_cons, List.foldlM_cons, List.foldlM_cons, map_bind]
          show (m.step t c.index d >>= _) = (t.recycleAmong subset.toList m.builder c.index d >>= _)
          rw [← hstep, bind_map_left]
          cases hm' : m.step t c.index d with
          | error e => rfl
          | ok m' => exact ih (hnext m' hm') h ds

end Table

/-! ### The derived clauses of the refutation -/

section Derived

variable {pre post : List TraceClause} {c : TraceClause} {b b' : Builder} {ins : List Clause}

/-- The first clauses of a trace, under construction again. -/
structure Rebuilds (rule : List Clause → Clause → Prop) (reduced : Trace) (b : Builder)
    (ins : List Clause) (pre post : List TraceClause) : Prop where
  derives : Derives rule b ins (pre.map (·.clause))
  toList_eq : reduced.clauses.toList = pre ++ post
  numAxioms_le : reduced.numAxioms ≤ pre.length

theorem Rebuilds.get?_length (h : Rebuilds rule reduced b ins pre (c :: post)) :
    reduced.get? pre.length = some c := by
  show reduced.clauses[pre.length]? = some c
  rw [← Array.getElem?_toList, h.toList_eq, List.getElem?_append_right (Nat.le_refl _),
    Nat.sub_self]
  rfl

/-- The next derived clause is accepted, and justified as before. -/
theorem Rebuilds.exists_addResolvent (hr : reduced.WellFormed) (hj : reduced.JustifiedBy rule)
    (h : Rebuilds rule reduced b ins pre (c :: post)) :
    ∃ e b', b.addResolvent c.clause.literals c.antecedents = .ok (e, b') ∧
      Rebuilds rule reduced b' ins (pre ++ [c]) post := by
  have hget := h.get?_length
  obtain ⟨ds, hds, hrule⟩ := hj hget h.numAxioms_le
  have hlt := hr.antecedent_lt hget
  have hne : c.antecedents ≠ [] := fun e =>
    absurd ((hr.isAxiom_iff hget).mp e) (Nat.not_lt.mpr h.numAxioms_le)
  have hsize : b.size = pre.length := h.derives.size_eq.trans (List.length_map _)
  obtain ⟨e, b', hadd⟩ :=
    Builder.exists_addResolvent c.clause.literals hne fun a ha => hsize ▸ hlt a ha
  -- the antecedents are among the clauses before, of which the two traces have the same
  have hat : b.trace.clausesAt c.antecedents = some ds := by
    rw [← hds]
    refine clausesAt_congr fun a ha => ?_
    rw [h.derives.clauseList_eq, clauseList, h.toList_eq, List.map_append,
      List.getElem?_append_left]
    rw [List.length_map]
    exact hlt a ha
  rw [← Clause.ofList_literals c.clause] at hrule
  have hb' := h.derives.addResolvent hadd hat hrule
  rw [Clause.ofList_literals] at hb'
  refine ⟨e, b', hadd, by simpa using hb', by simp [h.toList_eq], ?_⟩
  exact Nat.le_trans h.numAxioms_le (by simp)

/-- All derived clauses can be added to the clauses before them. -/
theorem Rebuilds.exists_foldlM (hr : reduced.WellFormed) (hj : reduced.JustifiedBy rule)
    (h : Rebuilds rule reduced b ins pre post) :
    ∃ b', post.foldlM (fun b c => return (← b.addResolvent c.clause.literals c.antecedents).2) b =
      (.ok b' : Except Violation Builder) ∧ Derives rule b' ins reduced.clauseList := by
  induction post generalizing pre b with
  | nil =>
      refine ⟨b, rfl, ?_⟩
      rw [clauseList, h.toList_eq, List.append_nil]
      exact h.derives
  | cons c post ih =>
      obtain ⟨e, b₁, hadd, h₁⟩ := h.exists_addResolvent hr hj
      obtain ⟨b', hrest, hb'⟩ := ih h₁
      refine ⟨b', ?_, hb'⟩
      rw [List.foldlM_cons, hadd]
      exact hrest

end Derived

/-! ### Splicing -/

section Splice

variable {cs : List TraceClause}

/-- The derived clauses of the refutation have no counterpart in the subset. -/
theorem Members.zip_eq (h : t.Members subset cs) (hr : reduced.WellFormed)
    (hsize : reduced.numAxioms = subset.size) :
    cs.length = reduced.inputs.length ∧
      subset.toList.zip reduced.clauses.toList = (cs.map (·.index)).zip reduced.inputs := by
  have hlength : cs.length = reduced.inputs.length := by
    rw [length_inputs hr, hsize, IndexSet.size, h.toList_eq, List.length_map]
  refine ⟨hlength, ?_⟩
  have hsplit : reduced.clauses.toList = reduced.inputs ++ reduced.derived :=
    (List.take_append_drop _ _).symm
  rw [h.toList_eq, hsplit, ← List.append_nil (cs.map (·.index)), List.zip_append]
  · simp
  · rw [List.length_map, hlength]

theorem rebuilds_inputs {b : Builder} {ins : List Clause} (hr : reduced.WellFormed)
    (hb : Derives rule b ins (reduced.inputs.map (·.clause))) :
    Rebuilds rule reduced b ins reduced.inputs reduced.derived :=
  ⟨hb, (List.take_append_drop _ _).symm, Nat.le_of_eq (length_inputs hr).symm⟩

/-- The steps of splicing. -/
theorem splice_eq (ht : t.WellFormed) (h : t.Members subset cs) (hr : reduced.WellFormed)
    (hsize : reduced.numAxioms = subset.size) : t.splice subset reduced = (do
      let b₁ ← ((cs.map (·.index)).zip reduced.inputs).foldlM
        (fun b (old, c) => t.recycleAmong subset.toList b old c) Builder.empty
      let b₂ ← reduced.derived.foldlM
        (fun b c => return (← b.addResolvent c.clause.literals c.antecedents).2) b₁
      let spliced ← b₂.build
      Violation.assert .axiomsKept (decide (spliced.numAxioms ≤ t.numAxioms))
      return spliced) := by
  have hmembers : t.Members subset ([] ++ cs) := h
  have hfold := (Recycling.holds_start t).foldlM_step ht hmembers reduced.inputs
  rw [Recycling.builder_start] at hfold
  unfold splice
  rw [if_pos hsize, (h.zip_eq hr hsize).2]
  show (_ >>= _) = (_ >>= _)
  rw [← hfold, bind_map_left]

theorem splice_eq_ok (ht : t.WellFormed) (h : t.Members subset cs) (hr : reduced.WellFormed)
    (hsize : reduced.numAxioms = subset.size) : t.splice subset reduced = .ok t' ↔
      ∃ b₁, ((cs.map (·.index)).zip reduced.inputs).foldlM
          (fun b (old, c) => t.recycleAmong subset.toList b old c) Builder.empty = .ok b₁ ∧
        ∃ b₂, reduced.derived.foldlM
            (fun b c => return (← b.addResolvent c.clause.literals c.antecedents).2) b₁ =
          .ok b₂ ∧ b₂.build = .ok t' ∧ t'.numAxioms ≤ t.numAxioms := by
  rw [splice_eq ht h hr hsize]
  refine bind_eq_ok.trans (exists_congr fun b₁ => and_congr_right fun _ =>
    bind_eq_ok.trans (exists_congr fun b₂ => and_congr_right fun _ => bind_eq_ok.trans ⟨?_, ?_⟩))
  · rintro ⟨spliced, hbuild, h⟩
    obtain ⟨_, hassert, heq⟩ := bind_eq_ok.mp h
    cases heq
    exact ⟨hbuild, of_decide_eq_true (Violation.assert_eq_ok.mp hassert)⟩
  · rintro ⟨hbuild, hle⟩
    refine ⟨t', hbuild, ?_⟩
    rw [decide_eq_true hle]
    rfl

/-- **What is spliced is justified**, whatever the subset: it has the clauses of the refutation, and
its input clauses are those of the subset. -/
theorem of_splice_eq_ok (ht : t.WellFormed) (hj : t.JustifiedBy rule) (h : t.Members subset cs)
    (hr : reduced.WellFormed) (hrj : reduced.JustifiedBy rule)
    (hsplice : t.splice subset reduced = .ok t') :
    t'.WellFormed ∧ t'.JustifiedBy rule ∧ t'.EndsEmpty ∧ t'.clauseList = reduced.clauseList ∧
      t'.inputs.map (·.clause) =
        (t.inputs.filter fun c => subset.contains c.index).map (·.clause) := by
  have hsize : reduced.numAxioms = subset.size := by
    refine Classical.byContradiction fun hne => ?_
    unfold splice at hsplice
    rw [if_neg hne] at hsplice
    cases hsplice
  obtain ⟨b₁, hrecycle, b₂, hderived, hbuild, -⟩ := (splice_eq_ok ht h hr hsize).mp hsplice
  obtain ⟨hclauses, hb₁⟩ :=
    Recycled.of_foldlM [] ht hj h (h.zip_eq hr hsize).1 derives_empty hrecycle
  unfold Recycled at hb₁
  rw [List.nil_append, ← hclauses] at hb₁
  obtain ⟨b, hderived', hb⟩ := (rebuilds_inputs hr hb₁).exists_foldlM hr hrj
  obtain rfl := Except.ok.inj (hderived'.symm.trans hderived)
  obtain ⟨rfl, hends⟩ := build_eq_ok_iff.mp hbuild
  refine ⟨hb.wellFormed, hb.justifiedBy, hends, hb.clauseList_eq, ?_⟩
  rw [hb.inputs_eq, h.filter_isAxiom ht]

/-- **Splicing does not fail** on clauses that are closed under antecedents, with a refutation that
has them as input clauses. -/
theorem exists_splice_eq_ok (ht : t.WellFormed) (hj : t.JustifiedBy rule)
    (hclosed : t.Closed (· ∈ subset)) (h : t.Members subset cs) (hr : reduced.WellFormed)
    (hrj : reduced.JustifiedBy rule) (hends : reduced.EndsEmpty)
    (hinputs : reduced.inputs.map (·.clause) = cs.map (·.clause)) :
    ∃ t', t.splice subset reduced = .ok t' := by
  have hlength : reduced.inputs.length = cs.length := by
    rw [← List.length_map (·.clause), hinputs, List.length_map]
  have hsize : reduced.numAxioms = subset.size := by
    rw [← length_inputs hr, hlength, IndexSet.size, h.toList_eq, List.length_map]
  obtain ⟨b₁, hrecycle⟩ := Recycled.exists_foldlM [] ht hj hclosed h hinputs derives_empty
  obtain ⟨-, hb₁⟩ := Recycled.of_foldlM [] ht hj h hlength.symm derives_empty hrecycle
  unfold Recycled at hb₁
  rw [List.nil_append, ← hinputs] at hb₁
  obtain ⟨b₂, hderived, hb₂⟩ := (rebuilds_inputs hr hb₁).exists_foldlM hr hrj
  have hends' : b₂.trace.EndsEmpty := by
    rw [endsEmpty_iff, hb₂.clauseList_eq]
    exact endsEmpty_iff.mp hends
  -- the input clauses are those of the subset, so that there are no more of them
  have hle : b₂.trace.numAxioms ≤ t.numAxioms := by
    rw [← length_inputs hb₂.wellFormed, ← length_inputs ht, ← List.length_map (·.clause),
      hb₂.inputs_eq, List.length_map, h.filter_isAxiom ht]
    exact List.length_filter_le _ _
  exact ⟨b₂.trace, (splice_eq_ok ht h hr hsize).mpr
    ⟨b₁, hrecycle, b₂, hderived, build_eq_ok_iff.mpr ⟨rfl, hends'⟩, hle⟩⟩

end Splice

end Trace

end ModelFinder
