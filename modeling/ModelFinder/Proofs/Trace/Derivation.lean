import ModelFinder.Proofs.Trace.WellFormed

/-!
# Derivations

What a trace derives is told by the list of its clauses (`Trace.clauseList`): whether a clause is
the result of a chain depends on the clauses at the positions of its antecedents and on nothing else
(`clausesAt_congr`).  A rule says which clauses a clause may be derived from, and a trace is
justified by a rule when every derived clause is derived by it from the clauses at its antecedents
(`Trace.JustifiedBy`).  A trace under construction derives a list of clauses from its input clauses
when it is well-formed and justified (`Trace.Derives`).

* `Derives.addAxiom`, `Derives.addResolvent`: what an accepted addition makes of a derivation.
* `Derives.exists_addAxiom`: input clauses are accepted as long as nothing has been derived.
* `build_eq_ok_iff`: a derivation can be finished exactly if its last clause is empty.
-/

namespace ModelFinder

namespace Trace

variable {t t' : Trace}

/-- The clauses of a trace, in order. -/
def clauseList (t : Trace) : List Clause := t.clauses.toList.map (·.clause)

theorem getElem?_clauseList (t : Trace) (i : Nat) :
    t.clauseList[i]? = (t.get? i).map (·.clause) := by
  rw [clauseList, List.getElem?_map, Array.getElem?_toList]
  rfl

theorem length_clauseList (t : Trace) : t.clauseList.length = t.size := by
  rw [clauseList, List.length_map, Array.length_toList]
  rfl

theorem length_inputs (ht : t.WellFormed) : t.inputs.length = t.numAxioms := by
  rw [inputs, List.length_take, Array.length_toList]
  exact Nat.min_eq_left ht.numAxioms_le

/-- The input clauses are the first clauses. -/
theorem map_inputs (t : Trace) : t.inputs.map (·.clause) = t.clauseList.take t.numAxioms := by
  rw [inputs, clauseList, List.map_take]

theorem mem_of_clausesAt {is : List Nat} {ds : List Clause} {d : Clause}
    (h : t.clausesAt is = some ds) (hd : d ∈ ds) :
    ∃ i ∈ is, ∃ c, t.get? i = some c ∧ c.clause = d := by
  induction is generalizing ds with
  | nil => cases h; exact absurd hd List.not_mem_nil
  | cons i is ih =>
      obtain ⟨c, es, hc, hes, rfl⟩ := clausesAt_cons.mp h
      rcases List.mem_cons.mp hd with rfl | hd
      · exact ⟨i, List.mem_cons_self, c, hc, rfl⟩
      · obtain ⟨j, hj, he⟩ := ih hes hd
        exact ⟨j, List.mem_cons_of_mem i hj, he⟩

theorem lt_of_clausesAt {is : List Nat} {ds : List Clause} (h : t.clausesAt is = some ds) :
    ∀ i ∈ is, i < t.size := by
  induction is generalizing ds with
  | nil => exact fun i hi => absurd hi List.not_mem_nil
  | cons j is ih =>
      obtain ⟨c, es, hc, hes, -⟩ := clausesAt_cons.mp h
      intro i hi
      rcases List.mem_cons.mp hi with rfl | hi
      · exact get?_lt hc
      · exact ih hes i hi

theorem exists_clausesAt {is : List Nat} (h : ∀ i ∈ is, i < t.size) :
    ∃ ds, t.clausesAt is = some ds := by
  induction is with
  | nil => exact ⟨[], clausesAt_nil t⟩
  | cons i is ih =>
      obtain ⟨hi, his⟩ := List.forall_mem_cons.mp h
      obtain ⟨c, hc⟩ := exists_get? hi
      obtain ⟨ds, hds⟩ := ih his
      exact ⟨c.clause :: ds, clausesAt_cons.mpr ⟨c, ds, hc, hds, rfl⟩⟩

/-- The clauses at some positions are read off the lists of clauses, after a renaming of the
positions. -/
theorem clausesAt_map {f : Nat → Nat} {is : List Nat}
    (h : ∀ i ∈ is, t'.clauseList[f i]? = t.clauseList[i]?) :
    t'.clausesAt (is.map f) = t.clausesAt is := by
  induction is with
  | nil => rfl
  | cons i is ih =>
      have hi := h i List.mem_cons_self
      have his := ih fun j hj => h j (List.mem_cons_of_mem i hj)
      rw [getElem?_clauseList, getElem?_clauseList] at hi
      unfold clausesAt at his ⊢
      rw [List.map_cons, List.mapM_cons, List.mapM_cons, hi, his]

theorem clausesAt_congr {is : List Nat} (h : ∀ i ∈ is, t'.clauseList[i]? = t.clauseList[i]?) :
    t'.clausesAt is = t.clausesAt is := by
  have := clausesAt_map (f := id) h
  rwa [List.map_id] at this

/-! ### Rules -/

/-- Every derived clause is derived by the rule from the clauses at its antecedents. -/
def JustifiedBy (t : Trace) (rule : List Clause → Clause → Prop) : Prop :=
  ∀ ⦃i c⦄, t.get? i = some c → t.numAxioms ≤ i →
    ∃ ds, t.clausesAt c.antecedents = some ds ∧ rule ds c.clause

/-- Every well-formed trace is justified by the rule that allows everything. -/
theorem WellFormed.justifiedBy (ht : t.WellFormed) : t.JustifiedBy fun _ _ => True := by
  intro i c hc _
  have hlt : ∀ a ∈ c.antecedents, a < t.size := fun a ha =>
    Nat.lt_trans (ht.antecedent_lt hc a ha) (get?_lt hc)
  obtain ⟨ds, hds⟩ := exists_clausesAt hlt
  exact ⟨ds, hds, trivial⟩

/-- The rule of proofs by resolution: a clause is the result of a chain. -/
def Chains (ds : List Clause) (c : Clause) : Prop := Clause.chain? ds = some c

theorem isProof_iff_justifiedBy : t.IsProof ↔ t.JustifiedBy Chains := Iff.rfl

/-! ### Traces under construction -/

/-- A trace under construction which derives the clauses `cs` from the input clauses `ins` by a
rule. -/
structure Derives (rule : List Clause → Clause → Prop) (b : Builder) (ins cs : List Clause) :
    Prop where
  wellFormed : b.trace.WellFormed
  justifiedBy : b.trace.JustifiedBy rule
  inputs_eq : b.trace.inputs.map (·.clause) = ins
  clauseList_eq : b.trace.clauseList = cs

section Derives

variable {rule : List Clause → Clause → Prop} {b b' : Builder} {ins cs ds : List Clause}
  {ls : List Literal} {as : List Nat} {c : TraceClause}

theorem derives_empty : Derives rule .empty [] [] :=
  ⟨wellFormed_empty, fun _ _ h => absurd (get?_lt h) (Nat.not_lt_zero _), rfl, rfl⟩

theorem Derives.isProof (h : Derives Chains b ins cs) : b.trace.IsProof := h.justifiedBy

theorem Derives.size_eq (h : Derives rule b ins cs) : b.size = cs.length := by
  rw [← h.clauseList_eq, length_clauseList]
  rfl

theorem Derives.numAxioms_eq (h : Derives rule b ins cs) : b.numAxioms = ins.length := by
  rw [← h.inputs_eq, List.length_map, length_inputs h.wellFormed]
  rfl

theorem Derives.clause_mem (h : Derives rule b ins cs) {i : Nat}
    (hc : b.trace.get? i = some c) : c.clause ∈ cs := by
  rw [← h.clauseList_eq]
  exact List.mem_map_of_mem (mem_clauses_iff.mpr ⟨i, hc⟩)

/-- What is added comes last. -/
theorem clauseList_push (cs : Array TraceClause) (n m : Nat) (c : TraceClause) :
    clauseList ⟨cs.push c, n⟩ = clauseList ⟨cs, m⟩ ++ [c.clause] := by
  rw [clauseList, Array.toList_push, List.map_append]
  rfl

/-- An input clause that is accepted comes last, as nothing has been derived before it. -/
theorem Derives.addAxiom (h : Derives rule b ins cs) (hadd : b.addAxiom ls = .ok (c, b')) :
    Derives rule b' (ins ++ [.ofList ls]) (cs ++ [.ofList ls]) := by
  have hwf := h.wellFormed.addAxiom hadd
  obtain ⟨hle, rfl, rfl⟩ := Builder.addAxiom_eq_ok.mp hadd
  have hnum : b.numAxioms = b.clauses.size := Nat.le_antisymm h.wellFormed.numAxioms_le hle
  have hins : ins = cs := by
    rw [← h.inputs_eq, map_inputs, ← h.clauseList_eq, List.take_of_length_le]
    rw [length_clauseList]
    exact hle
  have hlist : clauseList ⟨b.clauses.push ⟨b.size, .ofList ls, []⟩, b.numAxioms + 1⟩ =
      cs ++ [.ofList ls] := by
    rw [clauseList_push _ _ b.numAxioms, ← h.clauseList_eq]
    rfl
  refine ⟨hwf, fun i d hi hlt => ?_, ?_, hlist⟩
  · have hsize : i < (b.clauses.push ⟨b.size, Clause.ofList ls, []⟩).size := get?_lt hi
    rw [Array.size_push, ← hnum] at hsize
    exact absurd hsize (Nat.not_lt.mpr hlt)
  · rw [map_inputs, hins]
    show List.take (b.numAxioms + 1) (clauseList ⟨b.clauses.push _, b.numAxioms + 1⟩) = _
    rw [hlist, List.take_of_length_le]
    rw [List.length_append, ← h.size_eq, hnum]
    exact Nat.le_refl _

/-- A further input clause is accepted as long as nothing has been derived. -/
theorem Derives.exists_addAxiom (h : Derives rule b cs cs) (ls : List Literal) :
    ∃ c b', b.addAxiom ls = .ok (c, b') ∧ c.clause = .ofList ls ∧
      b'.trace.get? c.index = some c ∧
      (∀ {i d}, b.trace.get? i = some d → b'.trace.get? i = some d) ∧
      Derives rule b' (cs ++ [.ofList ls]) (cs ++ [.ofList ls]) := by
  have hnum : b.numAxioms = b.size := h.numAxioms_eq.trans h.size_eq.symm
  obtain ⟨c, b', hadd, rfl, hclauses⟩ : ∃ c b', b.addAxiom ls = .ok (c, b') ∧
      c = ⟨b.size, .ofList ls, []⟩ ∧ b'.clauses = b.clauses.push c :=
    ⟨_, _, Builder.addAxiom_eq_ok.mpr ⟨Nat.le_of_eq hnum.symm, rfl, rfl⟩, rfl, rfl⟩
  refine ⟨_, b', hadd, rfl, ?_, fun {i d} hi => ?_, h.addAxiom hadd⟩
  · show b'.clauses[b.clauses.size]? = _
    rw [hclauses, Array.getElem?_push_size]
  · have hlt : i < b.clauses.size := get?_lt hi
    show b'.clauses[i]? = some d
    rw [hclauses, Array.getElem?_push, if_neg (Nat.ne_of_lt hlt)]
    exact hi

/-- A clause is added that the rule derives from its antecedents. -/
theorem Derives.addResolvent (h : Derives rule b ins cs)
    (hadd : b.addResolvent ls as = .ok (c, b')) (hds : b.trace.clausesAt as = some ds)
    (hrule : rule ds (.ofList ls)) : Derives rule b' ins (cs ++ [.ofList ls]) := by
  have hwf := h.wellFormed.addResolvent hadd
  have hgrows := (Builder.grows_of_addResolvent hadd).1
  obtain ⟨-, -, rfl, rfl⟩ := Builder.addResolvent_eq_ok.mp hadd
  refine ⟨hwf, fun i d hi hle => ?_, ?_, ?_⟩
  · rcases get?_push hi with ⟨-, rfl⟩ | hi
    · exact ⟨ds, hgrows.clausesAt hds, hrule⟩
    · obtain ⟨es, hes, hrule'⟩ := h.justifiedBy hi hle
      exact ⟨es, hgrows.clausesAt hes, hrule'⟩
  · rw [hgrows.inputs_eq h.wellFormed, h.inputs_eq]
  · rw [← h.clauseList_eq]
    exact clauseList_push _ _ _ _

end Derives

/-! ### The end -/

/-- The last clause is the empty one. -/
def EndsEmpty (t : Trace) : Prop := ∃ c, t.get? t.terminal = some c ∧ c.clause = .empty

theorem endsEmpty_iff : t.EndsEmpty ↔ t.clauseList.getLast? = some .empty := by
  rw [List.getLast?_eq_getElem?, length_clauseList, getElem?_clauseList, Option.map_eq_some_iff]
  exact Iff.rfl

/-- A trace can be finished exactly if its last clause is empty. -/
theorem build_eq_ok_iff {b : Builder} : b.build = .ok t ↔ t = b.trace ∧ b.trace.EndsEmpty := by
  rw [Builder.build_eq_ok, Array.back?_eq_getElem?]
  exact Iff.rfl

end Trace

end ModelFinder
