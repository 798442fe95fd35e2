import ModelFinder.Proofs.Prover.Moves

/-!
# The recursion, followed move by move

The moves of `Search.step` are those which `Search.search` makes.  Each part of the recursion ends
where moves lead: a pass over the clauses ends where a scan does (`reaches_pass`), propagation where
a scan is not repeated any more (`reaches_propagateUpTo`), and a branch where its decision has been
taken back (`Runs.resume`).

* `follows`: **the moves are the search**.  What the recursion answers, the moves come to, with the
  same refutation, the same counters and the same stop condition, and if the recursion fails, it is
  a move that fails.
-/

namespace ModelFinder.Prover

/-- On a trail with a value for every variable nothing is forced. -/
theorem Trail.Forces.length_eq {clauses : List TraceClause} {n : Nat} {t t' : Trail}
    (h : Forces clauses t t') (hr : InRange clauses n) (ht : t.Valid clauses n)
    (hzero : t.undecided = 0) : t'.entries.length = t.entries.length := by
  have hcount := h.undecided_add_length hr ht
  have hle := h.length_le
  omega

namespace Search

open Session StopCondition

variable {σ : Type} [StopCondition σ]

/-- From a point of a search, moves lead to one that fails. -/
def Breaks (clauses : List TraceClause) (x : Position × State σ) (e : Failure) (s' : State σ) :
    Prop := ∃ y, Reaches clauses x y ∧ (step clauses y.1).Fails y.2 e s'

section Breaks

variable {clauses : List TraceClause} {x y : Position × State σ} {p : Position} {s s' : State σ}
  {e : Failure}

theorem Breaks.of_reaches (h : Reaches clauses x y) (h' : Breaks clauses y e s') :
    Breaks clauses x e s' :=
  let ⟨z, hz, hfails⟩ := h'
  ⟨z, h.trans hz, hfails⟩

theorem Breaks.of_fails (h : (step clauses p).Fails s e s') : Breaks clauses (p, s) e s' :=
  ⟨(p, s), .refl _, h⟩

end Breaks

/-! ### Decisions -/

section Decisions

variable {clauses : List TraceClause} {t : Trail} {fs : List Frame} {f : Frame}
  {b c r : TraceClause} {v : Variable} {s s' : State σ} {e : Failure}

theorem reaches_decide (next : t.firstUndecided? = some v) :
    Reaches clauses (⟨.decide, t, fs⟩, s) (descend t fs v none,
      { s with counters := { s.counters with decisions := s.counters.decisions + 1 } }) := by
  refine .single ?_
  show (decideNext t fs).Answers _ _ _
  unfold decideNext
  rw [next]
  exact Answers.bind ⟨rfl, rfl⟩ (answers_pure _ _)

theorem reaches_model (done : t.firstUndecided? = none) :
    Reaches clauses (⟨.decide, t, fs⟩, s) (⟨.leave (.model t), t, fs⟩, s) := by
  refine .single ?_
  show (decideNext t fs).Answers _ _ _
  unfold decideNext
  rw [done]
  exact answers_pure _ _

theorem reaches_unused (h : -f.decision ∉ c.clause) :
    Reaches clauses (⟨.resume f c, t, fs⟩, s) (⟨.leave (.refuted c), t, fs⟩, s) := by
  refine .single ?_
  show (goOn t fs f c).Answers _ _ _
  rw [goOn_unused h]
  exact answers_pure _ _

theorem reaches_second (h : -f.decision ∈ c.clause) (first : f.first = none) :
    Reaches clauses (⟨.resume f c, t, fs⟩, s) (descend t fs f.var (some c), s) := by
  refine .single ?_
  show (goOn t fs f c).Answers _ _ _
  rw [goOn_second h first]
  exact answers_pure _ _

theorem reaches_merged (h : -f.decision ∈ c.clause) (first : f.first = some b)
    (merged : (merge f.var b c).Answers s r s') :
    Reaches clauses (⟨.resume f c, t, fs⟩, s) (⟨.leave (.refuted r), t, fs⟩, s') := by
  refine .single ?_
  show (goOn t fs f c).Answers _ _ _
  rw [goOn_merge h first]
  exact merged.bind (answers_pure _ _)

theorem breaks_merge (h : -f.decision ∈ c.clause) (first : f.first = some b)
    (failed : (merge f.var b c).Fails s e s') :
    Breaks clauses (⟨.resume f c, t, fs⟩, s) e s' := by
  refine .of_fails ?_
  show (goOn t fs f c).Fails _ _ _
  rw [goOn_merge h first]
  exact failed.bind _

end Decisions

/-! ### Propagation -/

section Propagation

variable {clauses cs : List TraceClause} {n : Nat} {t t' : Trail} {c : TraceClause}
  {fs : List Frame} {s : State σ}

/-- A scan ends where a pass does, at a falsified clause or behind the last one. -/
theorem reaches_pass (cs : List TraceClause) (changed : Bool) (t : Trail) (fs : List Frame)
    (s : State σ) :
    (∀ c t', Trail.pass cs t = (some c, t') →
      Reaches clauses (⟨.scan cs changed, t, fs⟩, s) (⟨.conflict c, t', fs⟩, s)) ∧
    ∀ t', Trail.pass cs t = (none, t') → Reaches clauses (⟨.scan cs changed, t, fs⟩, s)
      (⟨.scan [] (changed || decide (t.entries.length < t'.entries.length)), t', fs⟩, s) := by
  induction cs generalizing t changed with
  | nil =>
      refine ⟨fun c t' h => ?_, fun t' h => ?_⟩
      · cases h
      · cases h
        rw [decide_eq_false (Nat.lt_irrefl _), Bool.or_false]
        exact .refl _
  | cons d cs ih =>
      have hlook : Reaches clauses (⟨.scan (d :: cs) changed, t, fs⟩, s)
          (look t fs d cs changed, s) := .single (answers_pure _ _)
      unfold look at hlook
      unfold Trail.pass
      cases hstate : t.state d.clause with
      | falsified =>
          rw [hstate] at hlook
          refine ⟨fun c t' h => ?_, fun t' h => ?_⟩
          · cases h
            exact hlook
          · cases h
      | forced l =>
          rw [hstate] at hlook
          obtain ⟨hsome, hnone⟩ := ih true (t.assign l (some d))
          refine ⟨fun c t' h => hlook.trans (hsome c t' h), fun t' h => ?_⟩
          -- the literal assigned here is still on the trail at the end of the pass
          have hle : (t.assign l (some d)).entries.length ≤ t'.entries.length := by
            have hf := Trail.forces_pass (t := t.assign l (some d)) fun c (hc : c ∈ cs) => hc
            rw [show Trail.pass cs (t.assign l (some d)) = (none, t') from h] at hf
            exact hf.length_le
          rw [decide_eq_true (show t.entries.length < t'.entries.length from hle), Bool.or_true]
          exact hlook.trans (hnone t' h)
      | satisfied | undetermined =>
          rw [hstate] at hlook
          obtain ⟨hsome, hnone⟩ := ih changed t
          exact ⟨fun c t' h => hlook.trans (hsome c t' h),
            fun t' h => hlook.trans (hnone t' h)⟩

/-- A scan that is repeated while it assigns something ends where repeated passes do. -/
theorem reaches_propagateUpTo {m : Nat} (fs : List Frame) (s : State σ)
    (hr : Trail.InRange clauses n) (ht : t.Valid clauses n) (hm : t.undecided ≤ m) :
    (∀ c t', Trail.propagateUpTo clauses m t = (some c, t') →
      Reaches clauses (⟨.scan clauses false, t, fs⟩, s) (⟨.conflict c, t', fs⟩, s)) ∧
    ∀ t', Trail.propagateUpTo clauses m t = (none, t') →
      Reaches clauses (⟨.scan clauses false, t, fs⟩, s) (⟨.decide, t', fs⟩, s) := by
  -- a pass that assigns nothing is the last one
  have hlast : ∀ {t t' : Trail}, Trail.pass clauses t = (none, t') →
      t'.entries.length = t.entries.length →
      Reaches clauses (⟨.scan clauses false, t, fs⟩, s) (⟨.decide, t', fs⟩, s) := by
    intro t t' h hlen
    have hpass : Reaches clauses _ _ := (reaches_pass clauses false t fs s).2 t' h
    rw [hlen, decide_eq_false (Nat.lt_irrefl _)] at hpass
    exact hpass.trans (.single (answers_pure _ _))
  induction m generalizing t with
  | zero =>
      refine ⟨fun c t' h => (reaches_pass clauses false t fs s).1 c t' h, fun t' h => hlast h ?_⟩
      have hf : Trail.Forces clauses t (Trail.pass clauses t).2 := Trail.forces_pass fun _ => id
      rw [show Trail.pass clauses t = (none, t') from h] at hf
      exact hf.length_eq hr ht (Nat.le_zero.mp hm)
  | succ m ih =>
      unfold Trail.propagateUpTo
      cases hpass : Trail.pass clauses t with
      | mk conflict? t₁ =>
          have hf : Trail.Forces clauses t t₁ := by
            have hf : Trail.Forces clauses t (Trail.pass clauses t).2 :=
              Trail.forces_pass fun _ => id
            rwa [hpass] at hf
          cases conflict? with
          | some d =>
              refine ⟨fun c t' h => ?_, fun t' h => ?_⟩
              · cases h
                exact (reaches_pass clauses false t fs s).1 d t₁ hpass
              · cases h
          | none =>
              by_cases hlen : t₁.entries.length = t.entries.length
              · simp only [if_pos hlen]
                refine ⟨fun c t' h => ?_, fun t' h => ?_⟩
                · cases h
                · cases h
                  exact hlast hpass hlen
              · simp only [if_neg hlen]
                have hlt : t.entries.length < t₁.entries.length :=
                  Nat.lt_of_le_of_ne hf.length_le (Ne.symm hlen)
                have hcount := hf.undecided_add_length hr ht
                have hagain : Reaches clauses (⟨.scan clauses false, t, fs⟩, s)
                    (⟨.scan clauses false, t₁, fs⟩, s) := by
                  have hend : Reaches clauses _ _ := (reaches_pass clauses false t fs s).2 t₁ hpass
                  rw [decide_eq_true hlt] at hend
                  exact hend.trans (.single (answers_pure _ _))
                obtain ⟨hsome, hnone⟩ := ih (hf.valid hr ht) (by omega)
                exact ⟨fun c t' h => hagain.trans (hsome c t' h),
                  fun t' h => hagain.trans (hnone t' h)⟩

/-- A node is entered, and its clauses are scanned until one is falsified or nothing is forced. -/
theorem reaches_propagate {s₁ : State σ} (fs : List Frame) (hr : Trail.InRange clauses n)
    (ht : t.Valid clauses n) (polled : (poll : Search σ Unit).Answers s () s₁) :
    (∀ c t', t.propagate clauses = (some c, t') →
      Reaches clauses (⟨.enter, t, fs⟩, s) (⟨.conflict c, t', fs⟩, s₁)) ∧
    ∀ t', t.propagate clauses = (none, t') →
      Reaches clauses (⟨.enter, t, fs⟩, s) (⟨.decide, t', fs⟩, s₁) := by
  have henter : Reaches clauses (⟨.enter, t, fs⟩, s) (⟨.scan clauses false, t, fs⟩, s₁) :=
    .single (polled.bind (answers_pure _ _))
  obtain ⟨hsome, hnone⟩ := reaches_propagateUpTo fs s₁ hr ht (Nat.le_refl t.undecided)
  exact ⟨fun c t' h => henter.trans (hsome c t' h), fun t' h => henter.trans (hnone t' h)⟩

end Propagation

/-! ### The recursion -/

section Recursion

variable {clauses : List TraceClause} {n bound : Nat} {t t' t₀ : Trail} {fs : List Frame}
  {s s₁ s' : State σ} {v : Variable} {c : TraceClause} {node : Node}

/-- From entering a node, moves lead to leaving it.  If it is refuted, nothing but what is forced
has been added to its trail. -/
def Runs (clauses : List TraceClause) (t : Trail) (fs : List Frame) (s : State σ) (node : Node)
    (s' : State σ) : Prop :=
  ∃ t', Reaches clauses (⟨.enter, t, fs⟩, s) (⟨.leave node, t', fs⟩, s') ∧
    ∀ c, node = .refuted c → Trail.Forces clauses t t'

/-- The moves from entering a node are those of the recursion. -/
def Follows (clauses : List TraceClause) (n bound : Nat) (t : Trail) (fs : List Frame)
    (s : State σ) : Prop :=
  t.Valid clauses n → t.undecided ≤ bound → (search clauses bound t).Ends s
    (Runs clauses t fs s) (Breaks clauses (⟨.enter, t, fs⟩, s))

/-- A branch that is refuted is left, and the trail is again what it was before the decision. -/
theorem Runs.resume {first : Option TraceClause} (hr : Trail.InRange clauses n)
    (ht : t.Valid clauses n) (next : t.firstUndecided? = some v)
    (h : Runs clauses (t.assign ⟨v, first.isSome⟩ none) (⟨t, v, first⟩ :: fs) s (.refuted c) s') :
    Reaches clauses (descend t fs v first, s) (⟨.resume ⟨t, v, first⟩ c, t, fs⟩, s') := by
  obtain ⟨t', hreach, hforced⟩ := h
  obtain ⟨hslot, hnone⟩ := Trail.value?_firstUndecided? next
  rw [ht.size_eq] at hslot
  have hleave : Reaches clauses (⟨.leave (.refuted c), t', ⟨t, v, first⟩ :: fs⟩, s')
      (⟨.resume ⟨t, v, first⟩ c, t'.backtrack t.entries.length, fs⟩, s') :=
    .single (answers_pure _ _)
  rw [(hforced c rfl).backtrack hr ht hslot (hnone _)] at hleave
  exact hreach.trans hleave

/-- A branch with a model is left for good. -/
theorem Runs.leave {m : Trail} {f : Frame} (h : Runs clauses t (f :: fs) s (.model m) s') :
    ∃ t', Reaches clauses (⟨.enter, t, f :: fs⟩, s) (⟨.leave (.model m), t', fs⟩, s') := by
  obtain ⟨t', hreach, -⟩ := h
  exact ⟨t', hreach.trans (.single (answers_pure _ s'))⟩

/-- A conflict is explained by one move. -/
theorem follows_conflict (hr : Trail.InRange clauses n) (ht : t.Valid clauses n)
    (polled : (poll : Search σ Unit).Answers s () s₁)
    (stopped : t.propagate clauses = (some c, t')) :
    (do
      count fun k => { k with conflicts := k.conflicts + 1 }
      return .refuted (← explain t' c) : Search σ Node).Ends s₁
      (Runs clauses t fs s) (Breaks clauses (⟨.enter, t, fs⟩, s)) := by
  have hreach := (reaches_propagate fs hr ht polled).1 c t' stopped
  have hf := Trail.forces_propagate stopped
  rw [ends_bind]
  show (explain t' c >>= fun d => pure (Node.refuted d)).Ends _ _ _
  rw [ends_bind]
  refine (ends_self _ _).mono (fun d s' hd => ?_) fun e s' he => ?_
  · exact ⟨t', hreach.trans (.single (Answers.bind ⟨rfl, rfl⟩ (hd.bind (answers_pure _ _)))),
      fun _ _ => hf⟩
  · exact .of_reaches hreach (.of_fails (Answers.bind_fails ⟨rfl, rfl⟩ (he.bind _)))

/-- What a node makes of one of its branches: a model is passed on, and so is a refutation which does
not mention the decision. -/
theorem follows_branch {m : Nat} {l : Literal} {rest : TraceClause → Search σ Node}
    (first : Option TraceClause) (hr : Trail.InRange clauses n)
    (ih : ∀ t fs (s : State σ), Follows clauses n m t fs s) (ht : t.Valid clauses n)
    (hbound : t.undecided ≤ m + 1) (quiet : t.propagate clauses = (none, t'))
    (next : t'.firstUndecided? = some v) (hl : -(⟨v, first.isSome⟩ : Literal) = l)
    (hbelow : Reaches clauses (⟨.enter, t, fs⟩, s) (descend t' fs v first, s₁))
    (hrest : ∀ d s₂, l ∈ d.clause →
      Reaches clauses (⟨.enter, t, fs⟩, s) (⟨.resume ⟨t', v, first⟩ d, t', fs⟩, s₂) →
      (rest d).Ends s₂ (Runs clauses t fs s) (Breaks clauses (⟨.enter, t, fs⟩, s))) :
    (do
      match ← search clauses m (t'.assign ⟨v, first.isSome⟩ none) with
      | .model values => return .model values
      | .refuted d =>
        if !d.clause.contains l then return .refuted d
        rest d : Search σ Node).Ends s₁
      (Runs clauses t fs s) (Breaks clauses (⟨.enter, t, fs⟩, s)) := by
  have hf := Trail.forces_propagate quiet
  have hlt := undecided_decision_lt hr ht quiet next first.isSome
  have hle := Nat.le_of_lt_succ (Nat.lt_of_lt_of_le hlt hbound)
  have hvalid := valid_decision hr ht quiet next first.isSome
  rw [ends_bind]
  refine (ih _ (⟨t', v, first⟩ :: fs) s₁ hvalid hle).mono (fun node s₂ hrun => ?_)
    fun e s' he => he.of_reaches hbelow
  cases node with
  | model values =>
      obtain ⟨t₂, hleave⟩ := hrun.leave
      exact ⟨t₂, hbelow.trans hleave, nofun⟩
  | refuted d =>
      have hresume := hbelow.trans (hrun.resume hr (hf.valid hr ht) next)
      dsimp only
      split
      next hnot =>
        rw [Bool.not_eq_true', ← Bool.not_eq_true, Clause.contains_iff, ← hl] at hnot
        exact ⟨t', hresume.trans (reaches_unused hnot), fun _ _ => hf⟩
      next hused =>
        rw [Bool.not_eq_true', Bool.not_eq_false, Clause.contains_iff] at hused
        exact hrest d s₂ hused hresume

/-- The refutations of both branches are merged. -/
theorem follows_merge {d : TraceClause} (quiet : t.propagate clauses = (none, t'))
    (used : ⟨v, false⟩ ∈ d.clause)
    (hresume : Reaches clauses (⟨.enter, t, fs⟩, s) (⟨.resume ⟨t', v, some c⟩ d, t', fs⟩, s₁)) :
    (do return .refuted (← merge v c d) : Search σ Node).Ends s₁
      (Runs clauses t fs s) (Breaks clauses (⟨.enter, t, fs⟩, s)) := by
  rw [ends_bind]
  refine (ends_self (merge v c d) s₁).mono (fun r s' merged => ?_)
    fun e s' failed => .of_reaches hresume (breaks_merge used rfl failed)
  exact ⟨t', hresume.trans (reaches_merged used rfl merged),
    fun _ _ => Trail.forces_propagate quiet⟩

/-- One node of the search tree, given the moves below it. -/
theorem follows_node (hr : Trail.InRange clauses n)
    (ih : ∀ m, bound = m + 1 → ∀ t fs (s : State σ), Follows clauses n m t fs s) :
    Follows clauses n bound t fs s := by
  intro ht hbound
  unfold search
  rw [ends_bind]
  refine (ends_self poll s).mono (fun _ s₁ polled => ?_) fun e s' he => .of_fails (he.bind _)
  split
  next x t' stopped => exact follows_conflict hr ht polled stopped
  next t' quiet =>
    have hdecide := (reaches_propagate fs hr ht polled).2 t' quiet
    split
    next v m next =>
      rw [ends_bind, count, ends_update]
      have hfirst := hdecide.trans (reaches_decide (s := s₁) next)
      refine follows_branch none hr (ih m rfl) ht hbound quiet next rfl hfirst
        fun c s₂ used hresume => ?_
      have hsecond := hresume.trans (reaches_second used rfl)
      exact follows_branch (some c) hr (ih m rfl) ht hbound quiet next rfl hsecond
        fun d s₃ used' hresume' => follows_merge quiet used' hresume'
    next hno =>
      -- the bound is at least the number of variables that are left, so there is none if it is zero
      cases hnext : t'.firstUndecided? with
      | none => exact ⟨t', hdecide.trans (reaches_model hnext), nofun⟩
      | some v =>
          have hlt := undecided_decision_lt hr ht quiet hnext true
          obtain ⟨m, rfl⟩ := Nat.exists_eq_succ_of_ne_zero
            (Nat.ne_of_gt (Nat.lt_of_lt_of_le (Nat.zero_lt_of_lt hlt) hbound))
          exact absurd rfl (hno v m hnext)

/-- **The moves of a search are those of the recursion**, if the bound is at least the number of
variables without a value: they come to the answer of the recursion in the same state, or to a move
which fails as the recursion does. -/
theorem follows (hr : Trail.InRange clauses n) (bound : Nat) (t : Trail) (fs : List Frame)
    (s : State σ) : Follows clauses n bound t fs s := by
  induction bound generalizing t fs s with
  | zero => exact follows_node hr fun m h => absurd h (Nat.succ_ne_zero m).symm
  | succ k ih =>
      refine follows_node hr fun m h => ?_
      obtain rfl : k = m := Nat.succ.inj h
      exact ih

end Recursion

end Search

end ModelFinder.Prover
