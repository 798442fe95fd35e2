import Mathlib.Logic.Relation
import ModelFinder.Proofs.Prover.Search

/-!
# The search, one move at a time

`Search.search` keeps a trail for each node that it is at work on, since a trail is a value.  A
search with one trail for all of them has to take back what a branch has left on it.  This module
describes it by its moves: a `Position` is the trail, what is to be done next, and the decisions
which are pending, each with the refutation of its first value once there is one.  A branch that is
refuted is taken back by `Trail.backtrack`, which knows nothing but how long the trail was before.

* `Trail.Forces.backtrack`: going back to a decision restores the trail that there was before it.
* `step`: the next move.  `Reaches` is the way from one point of a search to another.
* `Moves`: what a move can do (`moves_step`).  An invariant of these is one of the whole search
  (`Reaches.keeps`), and the resolvents added on the way have been counted (`Reaches.tallies`).

That the recursion makes these moves is shown in `Proofs.Prover.Following`.
-/

namespace ModelFinder.Prover

/-! ### Going back -/

namespace Trail

/-- Takes the values of some entries back, the earliest one first. -/
def clear (es : List Assigned) (values : Array (Option Bool)) : Array (Option Bool) :=
  es.foldr (fun e values => values.setIfInBounds e.literal.var.slot none) values

/-- Takes back all entries but the first `n`, and their values. -/
def backtrack (t : Trail) (n : Nat) : Trail :=
  ⟨clear (t.entries.take (t.entries.length - n)) t.values,
    t.entries.drop (t.entries.length - n)⟩

theorem clear_cons (e : Assigned) (es : List Assigned) (values : Array (Option Bool)) :
    clear (e :: es) values = (clear es values).setIfInBounds e.literal.var.slot none := rfl

/-- Values are taken back in any order. -/
theorem clear_setIfInBounds_none (es : List Assigned) (values : Array (Option Bool)) (i : Nat) :
    clear es (values.setIfInBounds i none) = (clear es values).setIfInBounds i none := by
  induction es with
  | nil => rfl
  | cons e es ih =>
      rw [clear_cons, clear_cons, ih]
      by_cases h : i = e.literal.var.slot
      · rw [h]
      · exact Array.setIfInBounds_comm _ _ h

@[simp] theorem backtrack_length (t : Trail) : t.backtrack t.entries.length = t := by
  simp [backtrack, clear]

/-- Going back over an assignment to a variable that had no value. -/
theorem backtrack_assign {t : Trail} {l : Literal} {reason : Option TraceClause} {n : Nat}
    (hl : l.var.slot < t.values.size) (hnone : t.value? l = none) (hn : n ≤ t.entries.length) :
    (t.assign l reason).backtrack n = t.backtrack n := by
  have hslot : t.values.setIfInBounds l.var.slot none = t.values := by
    have hget := getElem?_slot hl hnone
    refine Array.ext_getElem? fun i => ?_
    rw [Array.getElem?_setIfInBounds]
    split
    next h => rw [← h, hget]
    next => rfl
  have hlen : (t.assign l reason).entries.length - n = (t.entries.length - n) + 1 :=
    Nat.succ_sub hn
  unfold backtrack
  rw [hlen]
  show Trail.mk ((clear _ (t.values.setIfInBounds l.var.slot _)).setIfInBounds l.var.slot none) _ =
    Trail.mk _ _
  -- the value given is overwritten, and there was none before
  rw [← clear_setIfInBounds_none, Array.setIfInBounds_setIfInBounds, hslot]
  rfl

namespace Forces

variable {clauses : List TraceClause} {n m : Nat} {t t' : Trail}

/-- Going back over assignments which clauses have forced. -/
theorem backtrack_eq (h : Forces clauses t t') (hr : InRange clauses n) (ht : t.Valid clauses n)
    (hm : m ≤ t.entries.length) : t'.backtrack m = t.backtrack m := by
  induction h with
  | refl => rfl
  | @step t t' c l given forced _ ih =>
      obtain ⟨hl, hnone, -⟩ := state_eq_forced forced
      have hslot : l.var.slot < t.values.size := by rw [ht.size_eq]; exact hr c given l hl
      rw [ih (valid_step hr ht given forced) (Nat.le_succ_of_le hm)]
      exact backtrack_assign hslot hnone hm

/-- **Going back to a decision restores the trail that there was before it**, whatever has been
forced after it. -/
theorem backtrack {l : Literal} (h : Forces clauses (t.assign l none) t')
    (hr : InRange clauses n) (ht : t.Valid clauses n) (hl : l.var.slot < n)
    (hnone : t.value? l = none) : t'.backtrack t.entries.length = t := by
  have hslot : l.var.slot < t.values.size := by rw [ht.size_eq]; exact hl
  rw [h.backtrack_eq hr (ht.decide hl hnone) (Nat.le_succ _),
    backtrack_assign hslot hnone (Nat.le_refl _), backtrack_length]

end Forces

end Trail

namespace Search

open Session StopCondition
open Trace (Builder)

/-! ### Additions -/

section Additions

variable {σ : Type} {s s₁ s' : State σ} {t : Trail} {x c d : TraceClause} {v : Variable}
  {ls : List Literal} {as : List Nat}

/-- The resolvents counted from one state to another are those added to the trace. -/
def Tallies (s s' : State σ) : Prop :=
  s'.counters.resolvents + s.builder.size = s.counters.resolvents + s'.builder.size

theorem Tallies.trans (h : Tallies s s₁) (h' : Tallies s₁ s') : Tallies s s' := by
  unfold Tallies at *
  omega

theorem ends_addResolvent_answered : (addResolvent ls as).Ends s
    (fun c s' => s.builder.addResolvent ls as = .ok (c, s'.builder) ∧ s'.counters = s.counters)
    fun _ _ => True := by
  cases added : s.builder.addResolvent ls as with
  | ok r => exact (ends_addResolvent added).mpr ⟨rfl, rfl⟩
  | error e =>
      refine ends_building.mpr (ends_of_forall_answers fun c b ⟨hanswer, hb⟩ => ?_)
      cases added.symm.trans (Builder.Action.completed_eq_ok.mpr ⟨hanswer, hb⟩)

/-- A resolvent that is counted before it is added. -/
theorem ends_counted : (do
      count fun k => { k with resolvents := k.resolvents + 1 }
      addResolvent ls as : Search σ TraceClause).Ends s
    (fun c s' => s.builder.addResolvent ls as = .ok (c, s'.builder) ∧ Tallies s s')
    fun _ _ => True := by
  rw [ends_bind, count, ends_update]
  refine ends_addResolvent_answered.mono (fun c s' ⟨added, hcounters⟩ => ⟨added, ?_⟩) fun _ _ h => h
  obtain ⟨-, -, -, hb⟩ := Builder.addResolvent_eq_ok.mp added
  unfold Tallies
  rw [hb, hcounters]
  show _ + 1 + s.builder.clauses.size = _ + (s.builder.clauses.push _).size
  rw [Array.size_push]
  omega

/-- An explanation that is answered is counted if it is a new clause. -/
theorem ends_explain_answered : (explain t x).Ends s
    (fun c s' => Explains t s.builder x c s'.builder ∧ Tallies s s') fun _ _ => True := by
  unfold explain
  split
  next hback => exact ⟨.self (by rw [hback]), rfl⟩
  next c used hne hback =>
    refine ends_counted.mono (fun d s' ⟨added, htallies⟩ => ⟨.resolvent ?_ ?_, htallies⟩)
      fun _ _ h => h
    · rw [hback]; exact hne
    · rw [hback]; exact added

/-- What a merge answers is the resolvent that it adds and counts. -/
theorem ends_merge_answered : (merge v c d).Ends s
    (fun r s' => s.builder.addResolvent (others v c d) [c.index, d.index] = .ok (r, s'.builder) ∧
      Tallies s s') fun _ _ => True := by
  have hmerge : merge v c d = ((do
      count fun k => { k with resolvents := k.resolvents + 1 }
      addResolvent (others v c d) [c.index, d.index] : Search σ TraceClause) >>= fun r => do
      Session.note (.resolvedOn v r.index)
      return r) := rfl
  rw [hmerge, ends_bind]
  exact ends_counted.mono (fun r s' h => h) fun _ _ h => h

end Additions

/-! ### Moves -/

/-- A decision whose branch is being searched: its variable, and the refutation of the first value
if the second one is tried.  The trail before the decision is kept for the record; of it, moves use
nothing but the length. -/
structure Frame where
  before : Trail
  var : Variable
  first : Option TraceClause

/-- The literal decided. -/
def Frame.decision (f : Frame) : Literal := ⟨f.var, f.first.isSome⟩

/-- What is to be done next. -/
inductive Control where
  /-- To enter a node. -/
  | enter
  /-- To look at these clauses; whether a literal was assigned since the first of all was. -/
  | scan (rest : List TraceClause) (changed : Bool)
  /-- To explain why this clause is falsified. -/
  | conflict (x : TraceClause)
  /-- To decide the next variable. -/
  | decide
  /-- To leave a node. -/
  | leave (node : Node)
  /-- To go on after a branch has been refuted. -/
  | resume (f : Frame) (c : TraceClause)

/-- A point of a search. -/
structure Position where
  control : Control
  trail : Trail
  pending : List Frame

/-- The point at which a search among `n` variables starts. -/
def Position.start (n : Nat) : Position := ⟨.enter, .initial n, []⟩

/-- Looks at the first one of some clauses. -/
def look (t : Trail) (fs : List Frame) (c : TraceClause) (rest : List TraceClause)
    (changed : Bool) : Position :=
  match t.state c.clause with
  | .falsified => ⟨.conflict c, t, fs⟩
  | .forced l => ⟨.scan rest true, t.assign l (some c), fs⟩
  | _ => ⟨.scan rest changed, t, fs⟩

/-- Goes below a decision. -/
def descend (t : Trail) (fs : List Frame) (v : Variable) (first : Option TraceClause) : Position :=
  ⟨.enter, t.assign ⟨v, first.isSome⟩ none, ⟨t, v, first⟩ :: fs⟩

variable {σ : Type}

/-- Decides the first variable without a value, if there is one. -/
def decideNext (t : Trail) (fs : List Frame) : Search σ Position :=
  match t.firstUndecided? with
  | none => return ⟨.leave (.model t), t, fs⟩
  | some v => do
    count fun k => { k with decisions := k.decisions + 1 }
    return descend t fs v none

/-- Goes on after a branch has been refuted. -/
def goOn (t : Trail) (fs : List Frame) (f : Frame) (c : TraceClause) : Search σ Position := do
  if !c.clause.contains (-f.decision) then return ⟨.leave (.refuted c), t, fs⟩
  match f.first with
  | none => return descend t fs f.var (some c)
  | some b => return ⟨.leave (.refuted (← merge f.var b c)), t, fs⟩

section GoOn

variable {t : Trail} {fs : List Frame} {f : Frame} {b c : TraceClause}

/-- A refutation that does not mention the decision refutes both values. -/
theorem goOn_unused (h : -f.decision ∉ c.clause) :
    goOn t fs f c = (return ⟨.leave (.refuted c), t, fs⟩ : Search σ Position) := by
  rw [← Clause.contains_iff, Bool.not_eq_true] at h
  unfold goOn
  rw [h]
  rfl

/-- The other value is tried. -/
theorem goOn_second (h : -f.decision ∈ c.clause) (first : f.first = none) :
    goOn t fs f c = (return descend t fs f.var (some c) : Search σ Position) := by
  unfold goOn
  rw [Clause.contains_iff.mpr h, first]
  rfl

/-- Both values have been tried. -/
theorem goOn_merge (h : -f.decision ∈ c.clause) (first : f.first = some b) :
    goOn t fs f c = (do
      return ⟨.leave (.refuted (← merge f.var b c)), t, fs⟩ : Search σ Position) := by
  unfold goOn
  rw [Clause.contains_iff.mpr h, first]
  rfl

end GoOn

variable [StopCondition σ]

/-- The next move.  When the root has been left, nothing happens any more. -/
def step (clauses : List TraceClause) : Position → Search σ Position
  | ⟨.enter, t, fs⟩ => do
    poll
    return ⟨.scan clauses false, t, fs⟩
  | ⟨.scan [] true, t, fs⟩ => return ⟨.scan clauses false, t, fs⟩
  | ⟨.scan [] false, t, fs⟩ => return ⟨.decide, t, fs⟩
  | ⟨.scan (c :: rest) changed, t, fs⟩ => return look t fs c rest changed
  | ⟨.conflict x, t, fs⟩ => do
    count fun k => { k with conflicts := k.conflicts + 1 }
    return ⟨.leave (.refuted (← explain t x)), t, fs⟩
  | ⟨.decide, t, fs⟩ => decideNext t fs
  | ⟨.leave node, t, []⟩ => return ⟨.leave node, t, []⟩
  | ⟨.leave (.model m), t, _ :: fs⟩ => return ⟨.leave (.model m), t, fs⟩
  | ⟨.leave (.refuted c), t, f :: fs⟩ =>
    return ⟨.resume f c, t.backtrack f.before.entries.length, fs⟩
  | ⟨.resume f c, t, fs⟩ => goOn t fs f c

/-- From one point of a search, moves lead to the other. -/
def Reaches (clauses : List TraceClause) : Position × State σ → Position × State σ → Prop :=
  Relation.ReflTransGen fun x y => (step clauses x.1).Answers x.2 y.1 y.2

section Reaches

variable {clauses : List TraceClause} {x y z : Position × State σ} {p q : Position}
  {s s' : State σ}

theorem Reaches.refl (x : Position × State σ) : Reaches clauses x x := Relation.ReflTransGen.refl

theorem Reaches.trans (h : Reaches clauses x y) (h' : Reaches clauses y z) :
    Reaches clauses x z := Relation.ReflTransGen.trans h h'

theorem Reaches.head (h : (step clauses p).Answers s q s') (h' : Reaches clauses (q, s') z) :
    Reaches clauses (p, s) z := Relation.ReflTransGen.head h h'

theorem Reaches.single (h : (step clauses p).Answers s q s') :
    Reaches clauses (p, s) (q, s') := Reaches.head h (.refl _)

end Reaches

/-! ### What a move does -/

/-- A move of a search, from one trace under construction to another. -/
inductive Moves (clauses : List TraceClause) : Position → Builder → Position → Builder → Prop
  | enter {t : Trail} {fs : List Frame} {b : Builder} :
      Moves clauses ⟨.enter, t, fs⟩ b ⟨.scan clauses false, t, fs⟩ b
  | again {t : Trail} {fs : List Frame} {b : Builder} :
      Moves clauses ⟨.scan [] true, t, fs⟩ b ⟨.scan clauses false, t, fs⟩ b
  | quiet {t : Trail} {fs : List Frame} {b : Builder} :
      Moves clauses ⟨.scan [] false, t, fs⟩ b ⟨.decide, t, fs⟩ b
  | falsified {t : Trail} {fs : List Frame} {b : Builder} {c : TraceClause}
      {rest : List TraceClause} {changed : Bool} (state : t.state c.clause = .falsified) :
      Moves clauses ⟨.scan (c :: rest) changed, t, fs⟩ b ⟨.conflict c, t, fs⟩ b
  | forced {t : Trail} {fs : List Frame} {b : Builder} {c : TraceClause}
      {rest : List TraceClause} {changed : Bool} {l : Literal}
      (state : t.state c.clause = .forced l) : Moves clauses ⟨.scan (c :: rest) changed, t, fs⟩ b
        ⟨.scan rest true, t.assign l (some c), fs⟩ b
  | passed {t : Trail} {fs : List Frame} {b : Builder} {c : TraceClause}
      {rest : List TraceClause} {changed : Bool} :
      Moves clauses ⟨.scan (c :: rest) changed, t, fs⟩ b ⟨.scan rest changed, t, fs⟩ b
  | conflict {t : Trail} {fs : List Frame} {b b' : Builder} {x c : TraceClause}
      (explained : Explains t b x c b') :
      Moves clauses ⟨.conflict x, t, fs⟩ b ⟨.leave (.refuted c), t, fs⟩ b'
  | model {t : Trail} {fs : List Frame} {b : Builder} (done : t.firstUndecided? = none) :
      Moves clauses ⟨.decide, t, fs⟩ b ⟨.leave (.model t), t, fs⟩ b
  | decision {t : Trail} {fs : List Frame} {b : Builder} {v : Variable}
      (next : t.firstUndecided? = some v) :
      Moves clauses ⟨.decide, t, fs⟩ b (descend t fs v none) b
  | finished {node : Node} {t : Trail} {b : Builder} :
      Moves clauses ⟨.leave node, t, []⟩ b ⟨.leave node, t, []⟩ b
  | abandoned {m t : Trail} {f : Frame} {fs : List Frame} {b : Builder} :
      Moves clauses ⟨.leave (.model m), t, f :: fs⟩ b ⟨.leave (.model m), t, fs⟩ b
  | restored {c : TraceClause} {t : Trail} {f : Frame} {fs : List Frame} {b : Builder} :
      Moves clauses ⟨.leave (.refuted c), t, f :: fs⟩ b
        ⟨.resume f c, t.backtrack f.before.entries.length, fs⟩ b
  | unused {f : Frame} {c : TraceClause} {t : Trail} {fs : List Frame} {b : Builder}
      (unused : -f.decision ∉ c.clause) :
      Moves clauses ⟨.resume f c, t, fs⟩ b ⟨.leave (.refuted c), t, fs⟩ b
  | second {f : Frame} {c : TraceClause} {t : Trail} {fs : List Frame} {b : Builder}
      (used : -f.decision ∈ c.clause) (first : f.first = none) :
      Moves clauses ⟨.resume f c, t, fs⟩ b (descend t fs f.var (some c)) b
  | merged {f : Frame} {c d r : TraceClause} {t : Trail} {fs : List Frame} {b b' : Builder}
      (used : -f.decision ∈ d.clause) (first : f.first = some c)
      (added : b.addResolvent (others f.var c d) [c.index, d.index] = .ok (r, b')) :
      Moves clauses ⟨.resume f d, t, fs⟩ b ⟨.leave (.refuted r), t, fs⟩ b'

section Moves

variable {clauses : List TraceClause} {t : Trail} {fs : List Frame} {s : State σ} {f : Frame}
  {c : TraceClause} {x y : Position × State σ}

omit [StopCondition σ] in
theorem moves_decideNext : (decideNext t fs).Ends s
    (fun q s' => Moves clauses ⟨.decide, t, fs⟩ s.builder q s'.builder ∧ Tallies s s')
    fun _ _ => True := by
  unfold decideNext
  split
  next done => exact ⟨.model done, rfl⟩
  next v next =>
    rw [ends_bind, count, ends_update, ends_pure]
    exact ⟨.decision next, rfl⟩

omit [StopCondition σ] in
theorem moves_goOn : (goOn t fs f c).Ends s
    (fun q s' => Moves clauses ⟨.resume f c, t, fs⟩ s.builder q s'.builder ∧ Tallies s s')
    fun _ _ => True := by
  by_cases used : -f.decision ∈ c.clause
  · cases first : f.first with
    | none =>
        rw [goOn_second used first, ends_pure]
        exact ⟨.second used first, rfl⟩
    | some b =>
        rw [goOn_merge used first, ends_bind]
        exact ends_merge_answered.mono (fun r s' h => ⟨.merged used first h.1, h.2⟩) fun _ _ h => h
  · rw [goOn_unused used, ends_pure]
    exact ⟨.unused used, rfl⟩

/-- **What a move can do**, and that it counts the resolvents it adds. -/
theorem moves_step (p : Position) : (step clauses p).Ends s
    (fun q s' => Moves clauses p s.builder q s'.builder ∧ Tallies s s') fun _ _ => True := by
  obtain ⟨control, t, fs⟩ := p
  cases control with
  | enter =>
      show (poll >>= fun _ => pure ⟨.scan clauses false, t, fs⟩ : Search σ Position).Ends s _ _
      rw [ends_bind]
      refine (ends_self poll s).mono (fun _ s' h => ?_) fun _ _ _ => trivial
      have hkept : s'.builder = s.builder ∧ s'.counters = s.counters := by
        rw [← h.2]
        exact ⟨rfl, rfl⟩
      rw [ends_pure, Tallies, hkept.1, hkept.2]
      exact ⟨.enter, rfl⟩
  | scan rest changed =>
      cases rest with
      | nil =>
          cases changed with
          | true => exact ⟨.again, rfl⟩
          | false => exact ⟨.quiet, rfl⟩
      | cons c rest =>
          show (pure (look t fs c rest changed) : Search σ Position).Ends s _ _
          rw [ends_pure]
          unfold look
          split
          next state => exact ⟨.falsified state, rfl⟩
          next l state => exact ⟨.forced state, rfl⟩
          next => exact ⟨.passed, rfl⟩
  | conflict x =>
      show (count _ >>= fun _ => explain t x >>= fun d => pure _ : Search σ Position).Ends s _ _
      rw [ends_bind, count, ends_update, ends_bind]
      exact ends_explain_answered.mono (fun c s' h => ⟨.conflict h.1, h.2⟩) fun _ _ h => h
  | decide => exact moves_decideNext
  | leave node =>
      cases fs with
      | nil => exact ⟨.finished, rfl⟩
      | cons f fs =>
          cases node with
          | model m => exact ⟨.abandoned, rfl⟩
          | refuted c => exact ⟨.restored, rfl⟩
  | resume f c => exact moves_goOn

/-- What every move keeps, a search keeps. -/
theorem Reaches.keeps {P : Position → Builder → Prop} (h : Reaches clauses x y)
    (hmoves : ∀ {p b q b'}, P p b → Moves clauses p b q b' → P q b') (hx : P x.1 x.2.builder) :
    P y.1 y.2.builder := by
  induction h with
  | refl => exact hx
  | tail _ hstep ih => exact hmoves ih (hstep.ends_iff.mp (moves_step _)).1

/-- A search counts the resolvents it adds. -/
theorem Reaches.tallies (h : Reaches clauses x y) : Tallies x.2 y.2 := by
  induction h with
  | refl => exact rfl
  | tail _ hstep ih => exact ih.trans (hstep.ends_iff.mp (moves_step _)).2

end Moves

end Search

end ModelFinder.Prover
