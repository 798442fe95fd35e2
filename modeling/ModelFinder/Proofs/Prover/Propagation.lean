import ModelFinder.Proofs.Prover.Justification

/-!
# Propagation

The values of a trail are those which its entries made (`Trail.Valid`).  `Trail.Forces` is the
relation between a trail and one that comes of it by assigning forced literals, one at a time; a
trail stays valid on the way, its decisions stay the same, and each literal takes a variable
without a value.

* `forces_propagate`: propagation assigns forced literals only.
* `state_of_propagate_eq_some`: the clause at which it stops is falsified.
* `state_ne_falsified_of_propagate_eq_none`: if it does not stop at one, no clause is falsified.
* `firstUndecided?_eq_some`: the next decision is on the first variable without a value.
-/

namespace ModelFinder

theorem Variable.slot_lt_slot {v w : Variable} (h : w.index < v.index) : w.slot < v.slot := by
  have hone := w.one_le
  show w.index - 1 < v.index - 1
  omega

namespace Prover

namespace Trail

/-! ### Values -/

theorem value?_neg (t : Trail) (l : Literal) : t.value? (-l) = (t.value? l).map (!·) := by
  simp only [value?, Literal.neg_var, Literal.neg_positive]
  cases t.values[l.var.slot]?.join with
  | none => rfl
  | some b => cases b <;> cases l.positive <;> rfl

theorem slot_injective {v w : Variable} (h : v.slot = w.slot) : v = w := by
  have hv := v.one_le
  have hw := w.one_le
  exact Variable.ext_index (by simp only [Variable.slot] at h; omega)

/-- A variable in range has a value, or is listed as having none. -/
theorem getElem?_slot {t : Trail} {l : Literal} (hl : l.var.slot < t.values.size)
    (h : t.value? l = none) : t.values[l.var.slot]? = some none := by
  unfold value? at h
  rw [Array.getElem?_eq_getElem hl] at h ⊢
  cases hv : t.values[l.var.slot] with
  | none => rfl
  | some b => rw [hv] at h; cases h

theorem value?_assign {t : Trail} {l k : Literal} {reason : Option TraceClause}
    (hl : l.var.slot < t.values.size) :
    (t.assign l reason).value? k =
      if k.var = l.var then some (l.positive == k.positive) else t.value? k := by
  unfold value? assign
  rw [Array.getElem?_setIfInBounds]
  by_cases hk : k.var = l.var
  · rw [if_pos hk, if_pos (by rw [hk]), if_pos hl]; rfl
  · rw [if_neg hk, if_neg (fun h => hk (slot_injective h).symm)]

/-- An assignment takes one of the variables without a value. -/
theorem undecided_assign {t : Trail} {l : Literal} (reason : Option TraceClause)
    (hl : l.var.slot < t.values.size) (h : t.value? l = none) :
    (t.assign l reason).undecided + 1 = t.undecided := by
  have hnone : t.values[l.var.slot] = none :=
    (Array.getElem?_eq_some_iff.mp (getElem?_slot hl h)).2
  have hpos := Array.boole_getElem_le_countP (p := Option.isNone) hl
  have hset : t.values.setIfInBounds l.var.slot (some l.positive) =
      t.values.set l.var.slot (some l.positive) hl := dif_pos hl
  unfold undecided assign
  simp only [hset, Array.countP_set hl, hnone, Option.isNone_none, Option.isNone_some, if_true,
    Bool.false_eq_true, if_false] at hpos ⊢
  omega

/-- The values are those that the entries made, for the first `n` variables. -/
structure Valid (clauses : List TraceClause) (n : Nat) (t : Trail) : Prop where
  size_eq : t.values.size = n
  justified : Justified clauses t.entries
  value?_iff : ∀ l, t.value? l = some true ↔ l ∈ made t.entries

section Valid

variable {clauses : List TraceClause} {n : Nat} {t t' : Trail} {l : Literal}

theorem Valid.value?_eq_false_iff (h : t.Valid clauses n) :
    t.value? l = some false ↔ -l ∈ made t.entries := by
  rw [← h.value?_iff, value?_neg]
  cases t.value? l with
  | none => simp
  | some b => cases b <;> simp

/-- A literal without a value is about a new variable. -/
theorem Valid.fresh (h : t.Valid clauses n) (hl : t.value? l = none) :
    ∀ k ∈ made t.entries, k.var ≠ l.var := by
  intro k hk e
  have hk' := (h.value?_iff k).mpr hk
  unfold value? at hk' hl
  rw [e] at hk'
  rw [Option.map_eq_none_iff] at hl
  rw [hl] at hk'
  cases hk'

theorem valid_initial (clauses : List TraceClause) (n : Nat) : (initial n).Valid clauses n where
  size_eq := Array.size_replicate
  justified := .nil
  value?_iff l := by
    constructor
    · intro h
      unfold value? initial at h
      rw [Array.getElem?_replicate] at h
      split at h <;> cases h
    · intro h; exact absurd h List.not_mem_nil

/-- A new entry that is justified keeps a trail valid. -/
theorem Valid.assign (h : t.Valid clauses n) {reason : Option TraceClause}
    (hl : l.var.slot < n) (hnone : t.value? l = none)
    (hjust : Justified clauses (⟨l, reason⟩ :: t.entries)) :
    (t.assign l reason).Valid clauses n := by
  have hsize : l.var.slot < t.values.size := by rw [h.size_eq]; exact hl
  refine ⟨by simp [Trail.assign, h.size_eq], hjust, fun k => ?_⟩
  rw [value?_assign hsize]
  show _ ↔ k ∈ l :: made t.entries
  rw [List.mem_cons, ← h.value?_iff]
  split
  next e =>
    have hk : t.value? k = none := by
      unfold value? at hnone ⊢
      rw [Option.map_eq_none_iff] at hnone ⊢
      rw [e, hnone]
    obtain ⟨v, s⟩ := k
    obtain ⟨w, r⟩ := l
    cases e
    cases s <;> cases r <;> simp [hk]
  next hne =>
    refine ⟨.inr, fun hk => hk.resolve_left ?_⟩
    rintro rfl
    exact hne rfl

theorem Valid.decide (h : t.Valid clauses n) (hl : l.var.slot < n) (hnone : t.value? l = none) :
    (t.assign l none).Valid clauses n :=
  h.assign hl hnone (.decision h.justified (h.fresh hnone))

end Valid

/-! ### The state of a clause -/

theorem state_eq_falsified_iff {t : Trail} {c : Clause} :
    t.state c = .falsified ↔ ∀ l ∈ c, t.value? l = some false := by
  unfold state
  split
  next h =>
    obtain ⟨l, hl, hv⟩ := List.any_eq_true.mp h
    constructor
    · intro e; cases e
    · intro hf; rw [hf l hl] at hv; cases hv
  next h =>
    have hne : ∀ l ∈ c, t.value? l ≠ some true := fun l hl e => by
      refine h (List.any_eq_true.mpr ⟨l, hl, ?_⟩)
      rw [e]; rfl
    have hfilter : (c.literals.filter fun l => t.value? l == none) = [] ↔
        ∀ l ∈ c, t.value? l = some false := by
      rw [List.filter_eq_nil_iff]
      refine forall_congr' fun l => forall_congr' fun hl => ?_
      have := hne l hl
      cases hv : t.value? l with
      | none => simp
      | some b => cases b <;> simp_all
    rw [← hfilter]
    cases e : c.literals.filter fun l => t.value? l == none with
    | nil => simp
    | cons k ks => cases ks <;> simp

theorem state_eq_forced {t : Trail} {c : Clause} {l : Literal} (h : t.state c = .forced l) :
    l ∈ c ∧ t.value? l = none ∧ ∀ k ∈ c, k ≠ l → t.value? k = some false := by
  unfold state at h
  split at h
  · cases h
  next hany =>
    split at h
    · cases h
    next k e =>
      cases h
      have hl : l ∈ c.literals.filter fun l => t.value? l == none := by rw [e]; simp
      obtain ⟨hlc, hv⟩ := List.mem_filter.mp hl
      refine ⟨hlc, by simpa using hv, fun k hk hne => ?_⟩
      cases hkv : t.value? k with
      | none =>
          have hk' : k ∈ c.literals.filter fun l => t.value? l == none :=
            List.mem_filter.mpr ⟨hk, by rw [hkv]; rfl⟩
          rw [e, List.mem_singleton] at hk'
          exact absurd hk' hne
      | some b =>
          cases b with
          | false => rfl
          | true => exact absurd (List.any_eq_true.mpr ⟨k, hk, by rw [hkv]; rfl⟩) hany
    · cases h

theorem Valid.falsifies {clauses : List TraceClause} {n : Nat} {t : Trail} {c : Clause}
    (h : t.Valid clauses n) (hc : t.state c = .falsified) : Falsifies (made t.entries) c :=
  fun l hl => h.value?_eq_false_iff.mp (state_eq_falsified_iff.mp hc l hl)

/-! ### Forced assignments -/

/-- `t'` comes of `t` by assignments which clauses force, one after the other. -/
inductive Forces (clauses : List TraceClause) : Trail → Trail → Prop
  | refl (t : Trail) : Forces clauses t t
  | step {t t' : Trail} {c : TraceClause} {l : Literal} (given : c ∈ clauses)
      (forced : t.state c.clause = .forced l) (rest : Forces clauses (t.assign l (some c)) t') :
      Forces clauses t t'

/-- The variables of the clauses are among the first `n`. -/
def InRange (clauses : List TraceClause) (n : Nat) : Prop :=
  ∀ c ∈ clauses, ∀ l ∈ c.clause, l.var.slot < n

namespace Forces

variable {clauses : List TraceClause} {n : Nat} {t t' t₁ : Trail}

theorem trans (h : Forces clauses t t₁) (h' : Forces clauses t₁ t') : Forces clauses t t' := by
  induction h with
  | refl => exact h'
  | step given forced _ ih => exact .step given forced (ih h')

theorem decided_eq (h : Forces clauses t t') : decided t'.entries = decided t.entries := by
  induction h with
  | refl => rfl
  | step _ _ _ ih => exact ih

theorem length_le (h : Forces clauses t t') : t.entries.length ≤ t'.entries.length := by
  induction h with
  | refl => exact Nat.le_refl _
  | step _ _ _ ih => exact Nat.le_trans (Nat.le_succ _) ih

/-- One forced assignment keeps a trail valid. -/
theorem valid_step {c : TraceClause} {l : Literal} (hr : InRange clauses n)
    (ht : t.Valid clauses n) (given : c ∈ clauses) (forced : t.state c.clause = .forced l) :
    (t.assign l (some c)).Valid clauses n := by
  obtain ⟨hl, hnone, hothers⟩ := state_eq_forced forced
  refine ht.assign (hr c given l hl) hnone ?_
  exact .forced ht.justified (ht.fresh hnone) given hl fun k hk hne =>
    ht.value?_eq_false_iff.mp (hothers k hk hne)

theorem valid (h : Forces clauses t t') (hr : InRange clauses n) (ht : t.Valid clauses n) :
    t'.Valid clauses n := by
  induction h with
  | refl => exact ht
  | step given forced _ ih => exact ih (valid_step hr ht given forced)

/-- Each assignment takes a variable without a value. -/
theorem undecided_add_length (h : Forces clauses t t') (hr : InRange clauses n)
    (ht : t.Valid clauses n) :
    t'.undecided + t'.entries.length = t.undecided + t.entries.length := by
  induction h with
  | refl => rfl
  | @step t t' c l given forced _ ih =>
      obtain ⟨hl, hnone, -⟩ := state_eq_forced forced
      have hslot : l.var.slot < t.values.size := by rw [ht.size_eq]; exact hr c given l hl
      have hstep := undecided_assign (some c) hslot hnone
      have hlen : (t.assign l (some c)).entries.length = t.entries.length + 1 := rfl
      rw [ih (valid_step hr ht given forced), hlen]
      omega

end Forces

/-! ### Passes -/

section Passes

variable {clauses cs : List TraceClause} {n : Nat} {t t' : Trail} {c : TraceClause}

theorem forces_pass (hcs : ∀ c ∈ cs, c ∈ clauses) : Forces clauses t (pass cs t).2 := by
  induction cs generalizing t with
  | nil => exact .refl t
  | cons c cs ih =>
      have hcs' := fun d hd => hcs d (List.mem_cons_of_mem c hd)
      unfold pass
      split
      · exact .refl t
      next l e => exact .step (hcs c List.mem_cons_self) e (ih hcs')
      · exact ih hcs'

theorem state_of_pass_eq_some (h : pass cs t = (some c, t')) :
    c ∈ cs ∧ t'.state c.clause = .falsified := by
  induction cs generalizing t with
  | nil => cases h
  | cons d cs ih =>
      unfold pass at h
      split at h
      next e => cases h; exact ⟨List.mem_cons_self, e⟩
      all_goals exact (ih h).imp_left (List.mem_cons_of_mem d)

/-- A pass that assigns nothing and does not stop has found no clause falsified. -/
theorem of_pass_eq_none (h : pass cs t = (none, t'))
    (hlen : t'.entries.length = t.entries.length) :
    t' = t ∧ ∀ c ∈ cs, t.state c.clause ≠ .falsified := by
  induction cs generalizing t with
  | nil => cases h; exact ⟨rfl, fun c hc => absurd hc List.not_mem_nil⟩
  | cons d cs ih =>
      unfold pass at h
      split at h
      · cases h
      next l e =>
        -- the assignment made here can not be undone by the rest of the pass
        have hle := (forces_pass (t := t.assign l (some d)) fun c (hc : c ∈ cs) => hc).length_le
        rw [h] at hle
        have hlt : t.entries.length < t'.entries.length := hle
        omega
      next hne _ =>
        obtain ⟨rfl, hcs⟩ := ih h hlen
        refine ⟨rfl, fun c hc => ?_⟩
        rcases List.mem_cons.mp hc with rfl | hc
        · exact hne
        · exact hcs c hc

theorem forces_propagateUpTo (m : Nat) (t : Trail) :
    Forces clauses t (propagateUpTo clauses m t).2 := by
  have hpass : ∀ t, Forces clauses t (pass clauses t).2 := fun t => forces_pass fun _ => id
  induction m generalizing t with
  | zero => exact hpass t
  | succ m ih =>
      have h := hpass t
      unfold propagateUpTo
      split
      next c t₁ e => rw [e] at h; exact h
      next t₁ e =>
        rw [e] at h
        split
        · exact h
        · exact h.trans (ih t₁)

/-- **Propagation assigns forced literals only.** -/
theorem forces_propagate {conflict? : Option TraceClause}
    (h : t.propagate clauses = (conflict?, t')) : Forces clauses t t' := by
  have hf : Forces clauses t (t.propagate clauses).2 := forces_propagateUpTo t.undecided t
  rwa [h] at hf

theorem state_of_propagateUpTo_eq_some {m : Nat} (h : propagateUpTo clauses m t = (some c, t')) :
    c ∈ clauses ∧ t'.state c.clause = .falsified := by
  induction m generalizing t with
  | zero => exact state_of_pass_eq_some h
  | succ m ih =>
      unfold propagateUpTo at h
      split at h
      next e => cases h; exact state_of_pass_eq_some e
      next =>
        split at h
        · cases h
        · exact ih h

/-- The clause at which propagation stops is falsified. -/
theorem state_of_propagate_eq_some (h : t.propagate clauses = (some c, t')) :
    c ∈ clauses ∧ t'.state c.clause = .falsified := state_of_propagateUpTo_eq_some h

theorem state_of_propagateUpTo_eq_none {m : Nat} (hr : InRange clauses n)
    (ht : t.Valid clauses n) (hm : t.undecided ≤ m) (h : propagateUpTo clauses m t = (none, t')) :
    ∀ c ∈ clauses, t'.state c.clause ≠ .falsified := by
  induction m generalizing t with
  | zero =>
      have hf : Forces clauses t (pass clauses t).2 := forces_pass fun _ => id
      have hcount := hf.undecided_add_length hr ht
      have hle := hf.length_le
      have h' : pass clauses t = (none, t') := h
      rw [h'] at hcount hle
      -- no variable is left, so the last pass gives no further value
      have hlen : t'.entries.length = t.entries.length := by
        have : t'.undecided + t'.entries.length = t.undecided + t.entries.length := hcount
        have : t.entries.length ≤ t'.entries.length := hle
        omega
      obtain ⟨rfl, hc⟩ := of_pass_eq_none h' hlen
      exact hc
  | succ m ih =>
      have hf : Forces clauses t (pass clauses t).2 := forces_pass fun _ => id
      unfold propagateUpTo at h
      split at h
      · cases h
      next t₁ e =>
        have hf : Forces clauses t t₁ := by rw [e] at hf; exact hf
        split at h
        next hlen =>
          cases h
          obtain ⟨rfl, hc⟩ := of_pass_eq_none e hlen
          exact hc
        next hlen =>
          have hcount := hf.undecided_add_length hr ht
          have hle := hf.length_le
          exact ih (hf.valid hr ht) (by omega) h

/-- If propagation does not stop at a clause, no clause is falsified. -/
theorem state_ne_falsified_of_propagate_eq_none (hr : InRange clauses n) (ht : t.Valid clauses n)
    (h : t.propagate clauses = (none, t')) : ∀ c ∈ clauses, t'.state c.clause ≠ .falsified :=
  state_of_propagateUpTo_eq_none hr ht (Nat.le_refl _) h

end Passes

/-! ### The next decision -/

/-- The next variable to decide is the first one without a value. -/
theorem firstUndecided?_eq_some {t : Trail} {v : Variable} (h : t.firstUndecided? = some v) :
    t.values[v.slot]? = some none ∧
      ∀ w : Variable, w.index < v.index → ∃ b, t.values[w.slot]? = some (some b) := by
  obtain ⟨i, hi, hv⟩ := Option.bind_eq_some_iff.mp h
  obtain ⟨hlt, hnone, hfirst⟩ := Array.findIdx?_eq_some_iff_getElem.mp hi
  obtain rfl : v.slot = i := by
    rw [Variable.slot, Variable.ofIndex?_eq_some_iff.mp hv, Nat.add_sub_cancel]
  rw [Option.isNone_iff_eq_none] at hnone
  refine ⟨by rw [Array.getElem?_eq_getElem hlt, hnone], fun w hw => ?_⟩
  have hslot : w.slot < v.slot := Variable.slot_lt_slot hw
  have hsome := hfirst _ hslot
  rw [Bool.not_eq_true, Option.isNone_eq_false_iff, Option.isSome_iff_exists] at hsome
  obtain ⟨b, hb⟩ := hsome
  exact ⟨b, by rw [Array.getElem?_eq_getElem (Nat.lt_trans hslot hlt), hb]⟩

/-- The next variable to decide has no value yet. -/
theorem value?_firstUndecided? {t : Trail} {v : Variable} (h : t.firstUndecided? = some v) :
    v.slot < t.values.size ∧ ∀ b, t.value? ⟨v, b⟩ = none := by
  obtain ⟨hnone, -⟩ := firstUndecided?_eq_some h
  refine ⟨(Array.getElem?_eq_some_iff.mp hnone).1, fun b => ?_⟩
  rw [value?, hnone]
  rfl

/-- If there is nothing left to decide, every variable in range has a value. -/
theorem value?_ne_none_of_firstUndecided? {t : Trail} (h : t.firstUndecided? = none)
    {l : Literal} (hl : l.var.slot < t.values.size) : t.value? l ≠ none := by
  intro hnone
  have hslot := getElem?_slot hl hnone
  unfold firstUndecided? at h
  cases hi : t.values.findIdx? Option.isNone with
  | none =>
      have := Array.findIdx?_eq_none_iff.mp hi none (Array.mem_of_getElem? hslot)
      cases this
  | some i =>
      rw [hi, Option.bind_some] at h
      obtain ⟨hlt, -, hfirst⟩ := Array.findIdx?_eq_some_iff_getElem.mp hi
      -- the first one found is not after `l.var`, so that it is in the range of variables
      have hle : i ≤ l.var.slot := by
        refine Nat.not_lt.mp fun hlt' => hfirst _ hlt' ?_
        rw [(Array.getElem?_eq_some_iff.mp hslot).2]; rfl
      have hone := l.var.one_le
      have hmax := l.var.le_max
      simp only [Variable.slot] at hle
      rw [Variable.ofSlot?, Variable.ofIndex?_of_le (by omega)
        (show i + 1 ≤ 2147483647 by omega)] at h
      cases h

end Trail

end Prover

end ModelFinder
