import ModelFinder.Proofs.Resolution
import ModelFinder.Trace

/-!
# Traces under construction

A trace is well-formed when every clause knows its position, the input clauses are the first ones
and the only ones without antecedents, and antecedents come before their resolvent
(`Trace.WellFormed`).  A trace grows into another when clauses are added at its end and none of
them is an input clause (`Trace.Grows`).

A trace is a proof by resolution when each derived clause is the result of the chain of its
antecedents, in the order in which they are listed (`Trace.IsProof`).

* `addAxiom_eq_ok`, `addResolvent_eq_ok`, `build_eq_ok`: when an addition is accepted, and what it
  makes of the trace.
* `WellFormed.addAxiom`, `WellFormed.addResolvent`: additions keep a trace well-formed.
* `IsProof.addResolvent`: a resolvent which is the result of a chain keeps it a proof.
-/

namespace ModelFinder

namespace Trace

/-- Positions in order, input clauses first, antecedents before their resolvent. -/
structure WellFormed (t : Trace) : Prop where
  numAxioms_le : t.numAxioms ≤ t.size
  index_eq : ∀ {i c}, t.get? i = some c → c.index = i
  isAxiom_iff : ∀ {i c}, t.get? i = some c → (c.antecedents = [] ↔ i < t.numAxioms)
  antecedent_lt : ∀ {i c}, t.get? i = some c → ∀ a ∈ c.antecedents, a < i

theorem get?_lt {t : Trace} {i : Nat} {c : TraceClause} (h : t.get? i = some c) : i < t.size :=
  (Array.getElem?_eq_some_iff.mp h).1

theorem get_eq_ok {t : Trace} {i : Nat} {c : TraceClause} :
    t.get i = .ok c ↔ t.get? i = some c := by
  unfold get
  cases t.get? i <;> simp

theorem exists_get? {t : Trace} {i : Nat} (h : i < t.size) : ∃ c, t.get? i = some c :=
  ⟨t.clauses[i], Array.getElem?_eq_getElem h⟩

theorem mem_clauses_iff {t : Trace} {c : TraceClause} :
    c ∈ t.clauses.toList ↔ ∃ i, t.get? i = some c := by
  rw [List.mem_iff_getElem?]
  simp only [Array.getElem?_toList, get?]

theorem WellFormed.get?_index {t : Trace} (ht : t.WellFormed) {i : Nat} {c : TraceClause}
    (h : t.get? i = some c) : t.get? c.index = some c := by rw [ht.index_eq h, h]

/-- Whether a trace is well-formed is told by its clauses one by one. -/
theorem wellFormed_iff {t : Trace} : t.WellFormed ↔ t.numAxioms ≤ t.size ∧
    ∀ i : Fin t.clauses.size, t.clauses[i].index = i ∧
      (t.clauses[i].antecedents = [] ↔ i < t.numAxioms) ∧
      ∀ a ∈ t.clauses[i].antecedents, a < i := by
  have hget : ∀ {i c}, t.get? i = some c → ∃ hi : i < t.clauses.size, t.clauses[i] = c :=
    Array.getElem?_eq_some_iff.mp
  constructor
  · intro ht
    refine ⟨ht.numAxioms_le, fun i => ?_⟩
    have hi : t.get? i = some t.clauses[i] := Array.getElem?_eq_getElem i.isLt
    exact ⟨ht.index_eq hi, ht.isAxiom_iff hi, ht.antecedent_lt hi⟩
  · rintro ⟨hle, hall⟩
    refine ⟨hle, fun h => ?_, fun h => ?_, fun h => ?_⟩
    all_goals
      obtain ⟨hi, rfl⟩ := hget h
    · exact (hall ⟨_, hi⟩).1
    · exact (hall ⟨_, hi⟩).2.1
    · exact (hall ⟨_, hi⟩).2.2

instance (t : Trace) : Decidable t.WellFormed := decidable_of_iff' _ wellFormed_iff

/-! ### Growth -/

/-- `t'` has the clauses of `t`, at the same positions, and the same number of input clauses. -/
structure Grows (t t' : Trace) : Prop where
  get? : ∀ {i c}, t.get? i = some c → t'.get? i = some c
  numAxioms_eq : t'.numAxioms = t.numAxioms

namespace Grows

theorem refl (t : Trace) : t.Grows t := ⟨id, rfl⟩

theorem trans {t t₁ t₂ : Trace} (h : t.Grows t₁) (h' : t₁.Grows t₂) : t.Grows t₂ :=
  ⟨fun hi => h'.get? (h.get? hi), h'.numAxioms_eq.trans h.numAxioms_eq⟩

theorem push (t : Trace) (c : TraceClause) : t.Grows ⟨t.clauses.push c, t.numAxioms⟩ := by
  refine ⟨fun {i d} h => ?_, rfl⟩
  have hi : i < t.clauses.size := get?_lt h
  show (t.clauses.push c)[i]? = some d
  rw [Array.getElem?_push, if_neg (Nat.ne_of_lt hi)]
  exact h

/-- The input clauses stay the same. -/
theorem inputs_eq {t t' : Trace} (ht : t.WellFormed) (h : t.Grows t') : t'.inputs = t.inputs := by
  refine List.ext_getElem? fun i => ?_
  simp only [inputs, h.numAxioms_eq, List.getElem?_take, Array.getElem?_toList]
  split
  next hi =>
    obtain ⟨c, hc⟩ := exists_get? (Nat.lt_of_lt_of_le hi ht.numAxioms_le)
    exact (h.get? hc).trans hc.symm
  next => rfl

end Grows

/-! ### Additions -/

namespace Builder

/-- The clauses so far, as a trace that may not be over yet. -/
def trace (b : Builder) : Trace := ⟨b.clauses, b.numAxioms⟩

/-! An action checks before it writes: it either fails with the builder as it was, or adds one
clause. -/

namespace Action

theorem run_push (b : Builder) (ls : List Literal) (as : List Nat) :
    (push ls as).run b =
      ⟨.ok ⟨b.size, .ofList ls, as⟩, { b with clauses := b.clauses.push ⟨b.size, .ofList ls, as⟩ },
        []⟩ := rfl

theorem run_addAxiom (b : Builder) (ls : List Literal) :
    (addAxiom ls).run b =
      if b.numAxioms < b.size then ⟨.error (.axiomAfterResolvent b.size), b, []⟩
      else (push ls []).run { b with numAxioms := b.numAxioms + 1 } := by
  unfold addAxiom
  rw [Session.read_bind_run]
  split <;> rfl

theorem run_addResolvent (b : Builder) (ls : List Literal) (as : List Nat) :
    (addResolvent ls as).run b =
      if as.isEmpty then ⟨.error (.noAntecedents b.size), b, []⟩
      else
        match as.find? fun a => decide (b.size ≤ a) with
        | some a => ⟨.error (.antecedentNotBefore b.size a), b, []⟩
        | none => (push ls as).run b := by
  unfold addResolvent
  rw [Session.read_bind_run]
  split
  next => rfl
  next => cases as.find? fun a => decide (b.size ≤ a) <;> rfl

theorem completed_eq_ok {α : Type} {x : Action α} {b b' : Builder} {a : α} :
    x.completed b = .ok (a, b') ↔ (x.run b).answer = .ok a ∧ (x.run b).state = b' := by
  unfold completed
  cases h : (x.run b).answer <;> simp [Except.map, h]

end Action

theorem addAxiom_eq_ok {b b' : Builder} {ls : List Literal} {c : TraceClause} :
    b.addAxiom ls = .ok (c, b') ↔ b.size ≤ b.numAxioms ∧ c = ⟨b.size, .ofList ls, []⟩ ∧
      b' = ⟨b.clauses.push c, b.numAxioms + 1⟩ := by
  unfold addAxiom
  rw [Action.completed_eq_ok, Action.run_addAxiom]
  split
  next h => simp [Nat.not_le.mpr h]
  next h =>
    rw [Action.run_push]
    simp only [Except.ok.injEq, Nat.not_lt.mp h, true_and]
    constructor
    · rintro ⟨rfl, rfl⟩; exact ⟨rfl, rfl⟩
    · rintro ⟨rfl, rfl⟩; exact ⟨rfl, rfl⟩

theorem addResolvent_eq_ok {b b' : Builder} {ls : List Literal} {as : List Nat} {c : TraceClause} :
    b.addResolvent ls as = .ok (c, b') ↔ as ≠ [] ∧ (∀ a ∈ as, a < b.size) ∧
      c = ⟨b.size, .ofList ls, as⟩ ∧ b' = ⟨b.clauses.push c, b.numAxioms⟩ := by
  unfold addResolvent
  rw [Action.completed_eq_ok, Action.run_addResolvent]
  split
  next h => simp [List.isEmpty_iff.mp h]
  next hne =>
    split
    next a h =>
      have ha : b.size ≤ a := by simpa using List.find?_some h
      have hmem := List.mem_of_find?_eq_some h
      constructor
      · rintro ⟨e, -⟩; cases e
      · rintro ⟨-, hlt, -⟩; exact absurd (hlt a hmem) (Nat.not_lt.mpr ha)
    next h =>
      have hlt : ∀ a ∈ as, a < b.size := fun a ha => by
        simpa using List.find?_eq_none.mp h a ha
      have has : as ≠ [] := fun e => hne (List.isEmpty_iff.mpr e)
      rw [Action.run_push]
      constructor
      · rintro ⟨e, rfl⟩; cases e; exact ⟨has, hlt, rfl, rfl⟩
      · rintro ⟨-, -, rfl, rfl⟩; exact ⟨rfl, rfl⟩

/-- Resolvents of clauses which are there are accepted. -/
theorem exists_addResolvent {b : Builder} {as : List Nat} (ls : List Literal) (hne : as ≠ [])
    (h : ∀ a ∈ as, a < b.size) : ∃ c b', b.addResolvent ls as = .ok (c, b') :=
  ⟨_, _, addResolvent_eq_ok.mpr ⟨hne, h, rfl, rfl⟩⟩

theorem build_eq_ok {b : Builder} {t : Trace} :
    b.build = .ok t ↔ t = b.trace ∧ ∃ c, b.clauses.back? = some c ∧ c.clause = .empty := by
  unfold build
  split
  next h => simp [h]
  next c h =>
    rw [h]
    split
    next hc =>
      rw [Clause.isEmpty_iff] at hc
      constructor
      · intro e; cases e; exact ⟨rfl, c, rfl, hc⟩
      · rintro ⟨rfl, -⟩; rfl
    next hc =>
      rw [Clause.isEmpty_iff] at hc
      constructor
      · intro e; cases e
      · rintro ⟨-, d, hd, he⟩; cases hd; exact absurd he hc

/-- An added resolvent is at the end of the trace, which has grown by it. -/
theorem grows_of_addResolvent {b b' : Builder} {ls : List Literal} {as : List Nat}
    {c : TraceClause} (h : b.addResolvent ls as = .ok (c, b')) :
    b.trace.Grows b'.trace ∧ b'.trace.get? c.index = some c := by
  obtain ⟨-, -, hc, rfl⟩ := addResolvent_eq_ok.mp h
  refine ⟨Grows.push b.trace c, ?_⟩
  have hi : c.index = b.clauses.size := by rw [hc]; rfl
  show (b.clauses.push c)[c.index]? = some c
  rw [hi, Array.getElem?_push_size]

end Builder

/-- Every clause of a pushed trace is the pushed one or an old one. -/
theorem get?_push {cs : Array TraceClause} {n i : Nat} {c d : TraceClause}
    (h : get? ⟨cs.push c, n⟩ i = some d) : i = cs.size ∧ d = c ∨ cs[i]? = some d := by
  have h' : (cs.push c)[i]? = some d := h
  rw [Array.getElem?_push] at h'
  split at h'
  next hi => cases h'; exact .inl ⟨hi, rfl⟩
  next => exact .inr h'

theorem wellFormed_empty : Builder.empty.trace.WellFormed where
  numAxioms_le := Nat.le_refl 0
  index_eq h := absurd (get?_lt h) (Nat.not_lt_zero _)
  isAxiom_iff h := absurd (get?_lt h) (Nat.not_lt_zero _)
  antecedent_lt h := absurd (get?_lt h) (Nat.not_lt_zero _)

theorem WellFormed.addAxiom {b b' : Builder} (hb : b.trace.WellFormed) {ls : List Literal}
    {c : TraceClause} (h : b.addAxiom ls = .ok (c, b')) : b'.trace.WellFormed := by
  obtain ⟨hle, rfl, rfl⟩ := Builder.addAxiom_eq_ok.mp h
  have hsize : b.numAxioms = b.clauses.size := Nat.le_antisymm hb.numAxioms_le hle
  refine ⟨?_, fun hi => ?_, fun hi => ?_, fun hi => ?_⟩
  · show b.numAxioms + 1 ≤ (b.clauses.push _).size
    rw [Array.size_push]; omega
  · rcases get?_push hi with ⟨rfl, rfl⟩ | hi
    · rfl
    · exact hb.index_eq hi
  · rcases get?_push hi with ⟨rfl, rfl⟩ | hi
    · exact ⟨fun _ => by show b.clauses.size < b.numAxioms + 1; omega, fun _ => rfl⟩
    · have hlt := get?_lt (t := b.trace) hi
      rw [hb.isAxiom_iff hi]
      show _ < b.numAxioms ↔ _ < b.numAxioms + 1
      have : b.trace.size = b.clauses.size := rfl
      omega
  · rcases get?_push hi with ⟨rfl, rfl⟩ | hi
    · intro a ha; exact absurd ha List.not_mem_nil
    · exact hb.antecedent_lt hi

theorem WellFormed.addResolvent {b b' : Builder} (hb : b.trace.WellFormed) {ls : List Literal}
    {as : List Nat} {c : TraceClause} (h : b.addResolvent ls as = .ok (c, b')) :
    b'.trace.WellFormed := by
  obtain ⟨hne, hlt, rfl, rfl⟩ := Builder.addResolvent_eq_ok.mp h
  have hle : b.numAxioms ≤ b.clauses.size := hb.numAxioms_le
  refine ⟨?_, fun hi => ?_, fun hi => ?_, fun hi => ?_⟩
  · show b.numAxioms ≤ (b.clauses.push _).size
    rw [Array.size_push]; omega
  · rcases get?_push hi with ⟨rfl, rfl⟩ | hi
    · rfl
    · exact hb.index_eq hi
  · rcases get?_push hi with ⟨rfl, rfl⟩ | hi
    · exact ⟨fun e => absurd e hne, fun h => absurd hle (Nat.not_le.mpr h)⟩
    · exact hb.isAxiom_iff hi
  · rcases get?_push hi with ⟨rfl, rfl⟩ | hi
    · exact hlt
    · exact hb.antecedent_lt hi

/-! ### Proofs by resolution -/

/-- The clauses at some positions, if there is one at each of them. -/
def clausesAt (t : Trace) (positions : List Nat) : Option (List Clause) :=
  positions.mapM fun i => (t.get? i).map (·.clause)

/-- The clause is the result of the chain of its antecedents, in the order of the list. -/
def Chained (t : Trace) (c : TraceClause) : Prop :=
  ∃ ds, t.clausesAt c.antecedents = some ds ∧ Clause.chain? ds = some c.clause

/-- Every derived clause is the result of the chain of its antecedents. -/
def IsProof (t : Trace) : Prop := ∀ ⦃i c⦄, t.get? i = some c → t.numAxioms ≤ i → t.Chained c

theorem clausesAt_nil (t : Trace) : t.clausesAt [] = some [] := rfl

theorem clausesAt_cons {t : Trace} {i : Nat} {is : List Nat} {ds : List Clause} :
    t.clausesAt (i :: is) = some ds ↔
      ∃ c es, t.get? i = some c ∧ t.clausesAt is = some es ∧ ds = c.clause :: es := by
  unfold clausesAt
  simp only [List.mapM_cons, Option.bind_eq_bind, Option.bind_eq_some_iff, Option.map_eq_some_iff,
    Option.pure_def, Option.some.injEq]
  constructor
  · rintro ⟨_, ⟨c, hc, rfl⟩, es, hes, rfl⟩; exact ⟨c, es, hc, hes, rfl⟩
  · rintro ⟨c, es, hc, hes, rfl⟩; exact ⟨_, ⟨c, hc, rfl⟩, es, hes, rfl⟩

/-- The clauses at the positions of clauses which are there. -/
theorem clausesAt_map_index {t : Trace} {cs : List TraceClause}
    (h : ∀ c ∈ cs, t.get? c.index = some c) :
    t.clausesAt (cs.map (·.index)) = some (cs.map (·.clause)) := by
  induction cs with
  | nil => rfl
  | cons c cs ih =>
      refine clausesAt_cons.mpr ⟨c, _, h c List.mem_cons_self, ih fun d hd => ?_, rfl⟩
      exact h d (List.mem_cons_of_mem c hd)

theorem Grows.clausesAt {t t' : Trace} (h : t.Grows t') {is : List Nat} {ds : List Clause}
    (hds : t.clausesAt is = some ds) : t'.clausesAt is = some ds := by
  induction is generalizing ds with
  | nil => exact hds
  | cons i is ih =>
      obtain ⟨c, es, hc, hes, rfl⟩ := clausesAt_cons.mp hds
      exact clausesAt_cons.mpr ⟨c, es, h.get? hc, ih hes, rfl⟩

theorem Grows.chained {t t' : Trace} (h : t.Grows t') {c : TraceClause} (hc : t.Chained c) :
    t'.Chained c := by
  obtain ⟨ds, hds, hchain⟩ := hc
  exact ⟨ds, h.clausesAt hds, hchain⟩

/-- A resolvent that is the result of a chain of clauses which are there already. -/
theorem IsProof.addResolvent {b b' : Builder} (hb : b.trace.IsProof) {ls : List Literal}
    {as : List Nat} {c : TraceClause} {ds : List Clause} (h : b.addResolvent ls as = .ok (c, b'))
    (hds : b.trace.clausesAt as = some ds) (hchain : Clause.chain? ds = some (.ofList ls)) :
    b'.trace.IsProof := by
  have hgrows := (Builder.grows_of_addResolvent h).1
  obtain ⟨-, -, rfl, rfl⟩ := Builder.addResolvent_eq_ok.mp h
  intro i d hi hle
  rcases get?_push hi with ⟨-, rfl⟩ | hi
  · exact ⟨ds, hgrows.clausesAt hds, hchain⟩
  · exact hgrows.chained (hb hi hle)

end Trace

end ModelFinder
