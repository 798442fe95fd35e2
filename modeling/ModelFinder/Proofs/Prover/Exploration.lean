import ModelFinder.Proofs.Prover.Propagation
import ModelFinder.Proofs.Trace.WellFormed
import ModelFinder.Prover.Search

/-!
# Search trees

`Prover.Explores` relates a trail and a trace under construction to what a search below the trail
finds, and to the trace that it leaves behind.  There is one constructor for each way in which a
node of the search tree ends, so that a fact about searches is one induction over it.

The trace under construction holds the clauses that are searched and is a proof by resolution
(`Prover.Supports`).  Each node keeps it so, and what it finds is right (`Explores.found`):

* a model has a value for every variable and falsifies none of the clauses;
* a refutation is a clause of the trace which the decisions on the trail falsify.

If no clause is empty before the search, the only empty one after it is the refutation found, and
that is the last clause then.
-/

namespace ModelFinder.Prover

open Trace (Builder)

/-- How a conflict is explained: by the falsified clause itself, if no forced literal has to be
resolved out of it, and by a new resolvent otherwise. -/
inductive Explains (t : Trail) (b : Builder) (conflict : TraceClause) :
    TraceClause → Builder → Prop
  | self (unused : (Trail.resolveBack t.entries conflict.clause).2 = []) :
      Explains t b conflict conflict b
  | resolvent {c : TraceClause} {b' : Builder}
      (used : (Trail.resolveBack t.entries conflict.clause).2 ≠ [])
      (added : b.addResolvent (Trail.resolveBack t.entries conflict.clause).1.literals
        (conflict.index :: (Trail.resolveBack t.entries conflict.clause).2) = .ok (c, b')) :
      Explains t b conflict c b'

/-- The literals of two clauses but for those of a variable. -/
def others (v : Variable) (c d : TraceClause) : List Literal :=
  (c.clause.literals ++ d.clause.literals).filter (·.var ≠ v)

/-- A search below a trail, from one trace under construction to another. -/
inductive Explores (clauses : List TraceClause) : Trail → Builder → Node → Builder → Prop
  | conflict {t t' : Trail} {b b' : Builder} {x c : TraceClause}
      (stopped : t.propagate clauses = (some x, t')) (explained : Explains t' b x c b') :
      Explores clauses t b (.refuted c) b'
  | model {t t' : Trail} {b : Builder} (quiet : t.propagate clauses = (none, t'))
      (decided : t'.firstUndecided? = none) : Explores clauses t b (.model t') b
  | firstModel {t t' m : Trail} {v : Variable} {b b' : Builder}
      (quiet : t.propagate clauses = (none, t')) (next : t'.firstUndecided? = some v)
      (first : Explores clauses (t'.assign ⟨v, false⟩ none) b (.model m) b') :
      Explores clauses t b (.model m) b'
  | firstRefuted {t t' : Trail} {v : Variable} {c : TraceClause} {b b' : Builder}
      (quiet : t.propagate clauses = (none, t')) (next : t'.firstUndecided? = some v)
      (first : Explores clauses (t'.assign ⟨v, false⟩ none) b (.refuted c) b')
      (unused : ⟨v, true⟩ ∉ c.clause) : Explores clauses t b (.refuted c) b'
  | secondModel {t t' m : Trail} {v : Variable} {c : TraceClause} {b b₁ b' : Builder}
      (quiet : t.propagate clauses = (none, t')) (next : t'.firstUndecided? = some v)
      (first : Explores clauses (t'.assign ⟨v, false⟩ none) b (.refuted c) b₁)
      (used : ⟨v, true⟩ ∈ c.clause)
      (second : Explores clauses (t'.assign ⟨v, true⟩ none) b₁ (.model m) b') :
      Explores clauses t b (.model m) b'
  | secondRefuted {t t' : Trail} {v : Variable} {c d : TraceClause} {b b₁ b' : Builder}
      (quiet : t.propagate clauses = (none, t')) (next : t'.firstUndecided? = some v)
      (first : Explores clauses (t'.assign ⟨v, false⟩ none) b (.refuted c) b₁)
      (used : ⟨v, true⟩ ∈ c.clause)
      (second : Explores clauses (t'.assign ⟨v, true⟩ none) b₁ (.refuted d) b')
      (unused : ⟨v, false⟩ ∉ d.clause) : Explores clauses t b (.refuted d) b'
  | merged {t t' : Trail} {v : Variable} {c d r : TraceClause} {b b₁ b₂ b' : Builder}
      (quiet : t.propagate clauses = (none, t')) (next : t'.firstUndecided? = some v)
      (first : Explores clauses (t'.assign ⟨v, false⟩ none) b (.refuted c) b₁)
      (used : ⟨v, true⟩ ∈ c.clause)
      (second : Explores clauses (t'.assign ⟨v, true⟩ none) b₁ (.refuted d) b₂)
      (used' : ⟨v, false⟩ ∈ d.clause)
      (added : b₂.addResolvent (others v c d) [c.index, d.index] = .ok (r, b')) :
      Explores clauses t b (.refuted r) b'

/-! ### The trace under construction -/

/-- A trace under construction which is a proof and holds the clauses that are searched. -/
structure Supports (clauses : List TraceClause) (b : Builder) : Prop where
  wellFormed : b.trace.WellFormed
  isProof : b.trace.IsProof
  present : ∀ c ∈ clauses, b.trace.get? c.index = some c

/-- No clause so far is empty. -/
def NoneEmpty (b : Builder) : Prop := ∀ ⦃i c⦄, b.trace.get? i = some c → c.clause ≠ .empty

/-- The clause is the last one so far if it is empty, and no other clause is empty. -/
def OnlyEmpty (b : Builder) (c : TraceClause) : Prop :=
  ∀ ⦃i d⦄, b.trace.get? i = some d → d.clause = .empty → d = c ∧ i + 1 = b.size

/-- A node as it has to be found below a trail. -/
def Found (clauses : List TraceClause) (n : Nat) (t : Trail) (b : Builder) : Node → Prop
  | .model m => m.Valid clauses n ∧ m.firstUndecided? = none ∧
      ∀ c ∈ clauses, m.state c.clause ≠ .falsified
  | .refuted c => b.trace.get? c.index = some c ∧ Falsifies (decided t.entries) c.clause ∧
      OnlyEmpty b c

theorem OnlyEmpty.noneEmpty {b : Builder} {c : TraceClause} (h : OnlyEmpty b c)
    (hc : c.clause ≠ .empty) : NoneEmpty b := fun _ _ hi he => hc ((h hi he).1 ▸ he)

theorem NoneEmpty.onlyEmpty {b : Builder} (h : NoneEmpty b) (c : TraceClause) : OnlyEmpty b c :=
  fun _ _ hi he => absurd he (h hi)

theorem ne_empty_of_mem {l : Literal} {c : Clause} (h : l ∈ c) : c ≠ .empty := by
  rintro rfl
  exact absurd h List.not_mem_nil

section Additions

variable {clauses : List TraceClause} {b b' : Builder} {c : TraceClause} {ls : List Literal}
  {as : List Nat}

/-- A resolvent that is the result of a chain keeps the trace a proof. -/
theorem Supports.addResolvent {ds : List Clause} (hb : Supports clauses b)
    (h : b.addResolvent ls as = .ok (c, b')) (hds : b.trace.clausesAt as = some ds)
    (hchain : Clause.chain? ds = some (.ofList ls)) : Supports clauses b' :=
  ⟨hb.wellFormed.addResolvent h, Trace.IsProof.addResolvent hb.isProof h hds hchain,
    fun d hd => (Builder.grows_of_addResolvent h).1.get? (hb.present d hd)⟩

theorem NoneEmpty.addResolvent (hb : NoneEmpty b) (h : b.addResolvent ls as = .ok (c, b')) :
    OnlyEmpty b' c := by
  obtain ⟨-, -, hc, rfl⟩ := Builder.addResolvent_eq_ok.mp h
  intro i d hi he
  rcases Trace.get?_push hi with ⟨rfl, rfl⟩ | hi
  · exact ⟨rfl, (Array.size_push _).symm⟩
  · exact absurd he (hb hi)

end Additions

/-! ### Conflicts -/

section Conflicts

variable {clauses : List TraceClause} {n : Nat} {t : Trail} {b b' : Builder} {x c : TraceClause}

/-- The chain by which a conflict is explained. -/
theorem chain_of_falsified (ht : t.Valid clauses n) (hf : t.state x.clause = .falsified) :
    Falsifies (decided t.entries) (Trail.resolveBack t.entries x.clause).1 ∧
      ∃ rs : List TraceClause, (∀ r ∈ rs, r ∈ clauses) ∧
        (Trail.resolveBack t.entries x.clause).2 = rs.map (·.index) ∧
        Clause.chain? (x.clause :: rs.map (·.clause)) =
          some (Trail.resolveBack t.entries x.clause).1 :=
  exists_chain_resolveBack [] ht.justified ht.justified.consistent (ht.falsifies hf)

/-- The antecedents of an explanation are there. -/
theorem lt_size_of_falsified (ht : t.Valid clauses n) (hb : Supports clauses b)
    (hx : x ∈ clauses) (hf : t.state x.clause = .falsified) :
    ∀ a ∈ x.index :: (Trail.resolveBack t.entries x.clause).2, a < b.size := by
  obtain ⟨-, rs, hrs, hused, -⟩ := chain_of_falsified ht hf
  intro a ha
  rw [hused, ← List.map_cons] at ha
  obtain ⟨r, hr, rfl⟩ := List.mem_map.mp ha
  rcases List.mem_cons.mp hr with rfl | hr
  · exact Trace.get?_lt (hb.present r hx)
  · exact Trace.get?_lt (hb.present r (hrs r hr))

/-- The decisions falsify an explanation. -/
theorem Explains.falsifies (h : Explains t b x c b') (ht : t.Valid clauses n)
    (hf : t.state x.clause = .falsified) : Falsifies (decided t.entries) c.clause := by
  obtain ⟨hdec, rs, -, hused, hchain⟩ := chain_of_falsified ht hf
  cases h with
  | self unused =>
      rw [unused] at hused
      obtain rfl : rs = [] := List.map_eq_nil_iff.mp hused.symm
      have hsame : x.clause = (Trail.resolveBack t.entries x.clause).1 := Option.some.inj hchain
      exact hsame ▸ hdec
  | resolvent used added =>
      rw [(Builder.addResolvent_eq_ok.mp added).2.2.1, Clause.ofList_literals]
      exact hdec

/-- An explanation is a clause of the trace which the decisions falsify. -/
theorem Explains.found (h : Explains t b x c b') (ht : t.Valid clauses n)
    (hb : Supports clauses b) (hne : NoneEmpty b) (hx : x ∈ clauses)
    (hf : t.state x.clause = .falsified) :
    Supports clauses b' ∧ b.trace.Grows b'.trace ∧ Found clauses n t b' (.refuted c) := by
  have hdec := h.falsifies ht hf
  obtain ⟨-, rs, hrs, hused, hchain⟩ := chain_of_falsified ht hf
  cases h with
  | self unused => exact ⟨hb, .refl _, hb.present x hx, hdec, hne.onlyEmpty x⟩
  | resolvent used added =>
      obtain ⟨hgrows, hc⟩ := Builder.grows_of_addResolvent added
      -- the antecedents are the clause in conflict and the reasons, in the order of resolution
      have hat : b.trace.clausesAt (x.index :: (Trail.resolveBack t.entries x.clause).2) =
          some (x.clause :: rs.map (·.clause)) := by
        rw [hused, ← List.map_cons, ← List.map_cons]
        refine Trace.clausesAt_map_index fun r hr => ?_
        rcases List.mem_cons.mp hr with rfl | hr
        · exact hb.present r hx
        · exact hb.present r (hrs r hr)
      refine ⟨hb.addResolvent added hat ?_, hgrows, hc, hdec, hne.addResolvent added⟩
      rw [Clause.ofList_literals]
      exact hchain

end Conflicts

/-! ### Decisions -/

/-- The resolvent of the refutations of both values of a variable is falsified by what has been
decided before. -/
theorem falsifies_others {ls : List Literal} {v : Variable} {c d : TraceClause}
    (hc : Falsifies (⟨v, false⟩ :: ls) c.clause) (hd : Falsifies (⟨v, true⟩ :: ls) d.clause) :
    Falsifies ls (.ofList (others v c d)) := by
  intro l hl
  obtain ⟨hl, hne⟩ := List.mem_filter.mp (Clause.mem_ofList.mp hl)
  have hvar : (-l).var ≠ v := by simpa using hne
  rcases List.mem_append.mp hl with hl | hl
  · exact (List.mem_cons.mp (hc l hl)).resolve_left fun e => hvar (congrArg Literal.var e)
  · exact (List.mem_cons.mp (hd l hl)).resolve_left fun e => hvar (congrArg Literal.var e)

/-- The refutations of both values of a variable clash in it alone. -/
theorem resolvent?_others {ls : List Literal} {v : Variable} {c d : TraceClause}
    (hcons : Consistent ls) (hfresh : ∀ k ∈ ls, k.var ≠ v)
    (hc : Falsifies (⟨v, false⟩ :: ls) c.clause) (hcv : ⟨v, true⟩ ∈ c.clause)
    (hd : Falsifies (⟨v, true⟩ :: ls) d.clause) (hdv : ⟨v, false⟩ ∈ d.clause) :
    c.clause.resolvent? d.clause = some (.ofList (others v c d)) := by
  -- the only literal of `v` in each of the clauses is the one that the decision falsifies
  have hsign : ∀ {x : Clause} {s : Bool}, Falsifies (⟨v, s⟩ :: ls) x →
      ∀ l ∈ x, l.var = v → l = -⟨v, s⟩ := fun hx l hl hv => by
    rcases List.mem_cons.mp (hx l hl) with e | hm
    · exact neg_eq_iff.mp e
    · exact absurd (show (-l).var = v from hv) (hfresh _ hm)
  rw [Clause.resolvent?_eq_some (p := ⟨v, false⟩) hcv hdv]
  · refine congrArg some (Clause.ext_mem fun l => ?_)
    simp only [Clause.mem_resolve, Clause.mem_ofList, others, List.mem_filter, List.mem_append,
      Clause.mem_literals, decide_eq_true_eq]
    constructor
    · rintro (⟨hl, hne⟩ | ⟨hl, hne⟩)
      · exact ⟨.inl hl, fun hv => hne (hsign hc l hl hv)⟩
      · exact ⟨.inr hl, fun hv => hne (hsign hd l hl hv)⟩
    · rintro ⟨hl | hl, hne⟩
      · exact .inl ⟨hl, fun e => hne (e ▸ rfl)⟩
      · exact .inr ⟨hl, fun e => hne (e ▸ rfl)⟩
  · intro l hl hn
    rcases List.mem_cons.mp (hd l hl) with e | hm
    · exact neg_eq_iff.mp e
    · rcases List.mem_cons.mp (hc _ hn) with e | hm'
      · rwa [Literal.neg_neg] at e
      · exact absurd hm' (hcons _ hm)

section Decisions

variable {clauses : List TraceClause} {n : Nat} {t t' : Trail} {v : Variable}

/-- A decision on the next variable keeps a trail valid. -/
theorem valid_decision (hr : Trail.InRange clauses n) (ht : t.Valid clauses n)
    (quiet : t.propagate clauses = (none, t')) (next : t'.firstUndecided? = some v) (s : Bool) :
    (t'.assign ⟨v, s⟩ none).Valid clauses n := by
  have hf := Trail.forces_propagate quiet
  have ht' : t'.Valid clauses n := hf.valid hr ht
  obtain ⟨hslot, hnone⟩ := Trail.value?_firstUndecided? next
  exact ht'.decide (by rw [← ht'.size_eq]; exact hslot) (hnone s)

/-- A decision on the next variable leaves fewer variables without a value. -/
theorem undecided_decision_lt (hr : Trail.InRange clauses n) (ht : t.Valid clauses n)
    (quiet : t.propagate clauses = (none, t')) (next : t'.firstUndecided? = some v) (s : Bool) :
    (t'.assign ⟨v, s⟩ none).undecided < t.undecided := by
  have hf := Trail.forces_propagate quiet
  have hcount : t'.undecided + t'.entries.length = t.undecided + t.entries.length :=
    hf.undecided_add_length hr ht
  have hlen : t.entries.length ≤ t'.entries.length := hf.length_le
  obtain ⟨hslot, hnone⟩ := Trail.value?_firstUndecided? next
  have hassign := Trail.undecided_assign none hslot (hnone s)
  omega

/-- The decisions below a decision are those of the trail and this one. -/
theorem decided_decision_eq (quiet : t.propagate clauses = (none, t')) (s : Bool) :
    decided (t'.assign ⟨v, s⟩ none).entries = ⟨v, s⟩ :: decided t.entries := by
  have hf := Trail.forces_propagate quiet
  exact congrArg (⟨v, s⟩ :: ·) hf.decided_eq

/-- Nothing has been decided about the next variable. -/
theorem fresh_decision (hr : Trail.InRange clauses n) (ht : t.Valid clauses n)
    (quiet : t.propagate clauses = (none, t')) (next : t'.firstUndecided? = some v) :
    ∀ k ∈ decided t.entries, k.var ≠ v := by
  have hf := Trail.forces_propagate quiet
  intro k hk
  have hnone := (Trail.value?_firstUndecided? next).2 true
  refine (hf.valid hr ht).fresh hnone k (mem_made_of_mem_decided ?_)
  rw [hf.decided_eq]
  exact hk

end Decisions

/-- **What a search finds is right**, and the trace stays a proof. -/
theorem Explores.found {clauses : List TraceClause} {n : Nat} {t : Trail} {b b' : Builder}
    {node : Node} (h : Explores clauses t b node b') (hr : Trail.InRange clauses n)
    (ht : t.Valid clauses n) (hb : Supports clauses b) (hne : NoneEmpty b) :
    Supports clauses b' ∧ b.trace.Grows b'.trace ∧ Found clauses n t b' node := by
  induction h with
  | @conflict t t' b b' x c stopped explained =>
      have hf := Trail.forces_propagate stopped
      obtain ⟨hx, hfalse⟩ := Trail.state_of_propagate_eq_some stopped
      obtain ⟨hb', hgrows, hc, hdec, honly⟩ := explained.found (hf.valid hr ht) hb hne hx hfalse
      exact ⟨hb', hgrows, hc, hf.decided_eq ▸ hdec, honly⟩
  | @model t t' b quiet done =>
      have hf := Trail.forces_propagate quiet
      exact ⟨hb, .refl _, hf.valid hr ht, done,
        Trail.state_ne_falsified_of_propagate_eq_none hr ht quiet⟩
  | firstModel quiet next _ ih => exact ih (valid_decision hr ht quiet next false) hb hne
  | firstRefuted quiet next _ unused ih =>
      obtain ⟨hb', hgrows, hc, hdec, honly⟩ := ih (valid_decision hr ht quiet next false) hb hne
      rw [decided_decision_eq quiet] at hdec
      exact ⟨hb', hgrows, hc, hdec.without [] unused, honly⟩
  | secondModel quiet next _ used _ ih₁ ih₂ =>
      obtain ⟨hb₁, hgrows₁, -, -, honly⟩ := ih₁ (valid_decision hr ht quiet next false) hb hne
      obtain ⟨hb', hgrows, hm⟩ := ih₂ (valid_decision hr ht quiet next true) hb₁
        (honly.noneEmpty (ne_empty_of_mem used))
      exact ⟨hb', hgrows₁.trans hgrows, hm⟩
  | secondRefuted quiet next _ used _ unused ih₁ ih₂ =>
      obtain ⟨hb₁, hgrows₁, -, -, honly₁⟩ := ih₁ (valid_decision hr ht quiet next false) hb hne
      obtain ⟨hb', hgrows, hd, hdec, honly⟩ := ih₂ (valid_decision hr ht quiet next true) hb₁
        (honly₁.noneEmpty (ne_empty_of_mem used))
      rw [decided_decision_eq quiet] at hdec
      exact ⟨hb', hgrows₁.trans hgrows, hd, hdec.without [] unused, honly⟩
  | merged quiet next _ used _ used' added ih₁ ih₂ =>
      obtain ⟨hb₁, hgrows₁, hc, hcdec, honly₁⟩ := ih₁ (valid_decision hr ht quiet next false) hb hne
      obtain ⟨hb₂, hgrows₂, hd, hddec, honly₂⟩ := ih₂ (valid_decision hr ht quiet next true) hb₁
        (honly₁.noneEmpty (ne_empty_of_mem used))
      rw [decided_decision_eq quiet] at hcdec hddec
      have hcons : Consistent (decided _) :=
        ht.justified.consistent.sublist fun _ => mem_made_of_mem_decided
      have hfalse := falsifies_others hcdec hddec
      have hres := resolvent?_others hcons (fresh_decision hr ht quiet next) hcdec used hddec used'
      obtain ⟨hgrows, hr⟩ := Builder.grows_of_addResolvent added
      -- the search for the second refutation has kept the first one where it was
      have hat := Trace.clausesAt_cons.mpr ⟨_, _, hgrows₂.get? hc,
        Trace.clausesAt_cons.mpr ⟨_, _, hd, Trace.clausesAt_nil _, rfl⟩, rfl⟩
      refine ⟨hb₂.addResolvent added hat ?_, (hgrows₁.trans hgrows₂).trans hgrows, hr, ?_, ?_⟩
      · rw [Clause.chain?, List.foldlM_cons, hres]; rfl
      · rw [(Builder.addResolvent_eq_ok.mp added).2.2.1]; exact hfalse
      · exact NoneEmpty.addResolvent (honly₂.noneEmpty (ne_empty_of_mem used')) added

end ModelFinder.Prover
