import ModelFinder.Proofs.Prover.Following
import ModelFinder.Proofs.Prover.Refuting

/-!
# What holds throughout a search

A search has one trail for all of its nodes, and a node does not take back what it has added: that is
left to the node above.  What is on the trail is told by the decisions which are pending
(`Search.Stacked`).  The trail is forced by the last of them and the trail before it, which the one
before forces in the same way, down to the trail without entries at the root.  So there is nothing on
the trail but those decisions and what is forced, and going back to the length that the trail had
before a decision restores it.

* `Moves.stands`: every move keeps the invariant (`Position.Stands`), from which the rest is read off.
* `search_keeps_order`: **at every point of a search**, an entry for each value and a value for each
  entry, reasons which force their literals, and refutations which the decisions above falsify.
-/

namespace ModelFinder.Prover

open Session StopCondition Search
open Trace (Builder)

/-! ### Entries and values -/

section Entries

variable {clauses : List TraceClause} {later earlier es : List Assigned} {l : Literal}
  {r : TraceClause}

theorem Justified.of_append (h : Justified clauses (later ++ earlier)) :
    Justified clauses earlier := by
  induction later with
  | nil => exact h
  | cons e later ih =>
      cases h with
      | decision before _ => exact ih before
      | forced before _ _ _ _ => exact ih before

/-- The reason of an entry is one of the clauses and forces its literal. -/
theorem Justified.reason (h : Justified clauses (later ++ ⟨l, some r⟩ :: earlier)) :
    r ∈ clauses ∧ l ∈ r.clause ∧ ∀ k ∈ r.clause, k ≠ l → -k ∈ made earlier := by
  cases h.of_append with
  | forced _ _ given mem others => exact ⟨given, mem, others⟩

theorem filter_var_eq_nil {ls : List Literal} {v : Variable} (h : ∀ k ∈ ls, k.var ≠ v) :
    ls.filter (·.var = v) = [] :=
  List.filter_eq_nil_iff.mpr fun k hk => by simpa using h k hk

theorem filter_var_cons {ls : List Literal} (h : ∀ k ∈ ls, k.var ≠ l.var) :
    (l :: ls).filter (·.var = l.var) = [l] := by
  rw [List.filter_cons_of_pos (by simp), filter_var_eq_nil h]

/-- No other entry is about the variable of an entry. -/
theorem Justified.filter_var (h : Justified clauses es) (hl : l ∈ made es) :
    (made es).filter (·.var = l.var) = [l] := by
  -- either `l` is the last literal made, or the last one is about another variable
  have hcons : ∀ {k : Literal} {es : List Assigned}, (∀ j ∈ made es, j.var ≠ k.var) →
      (l ∈ made es → (made es).filter (·.var = l.var) = [l]) → l ∈ k :: made es →
      (k :: made es).filter (·.var = l.var) = [l] := by
    intro k es fresh ih hl
    rcases List.mem_cons.mp hl with rfl | hl
    · exact filter_var_cons fresh
    · rw [List.filter_cons_of_neg (by simpa using Ne.symm (fresh l hl))]
      exact ih hl
  induction h with
  | nil => exact absurd hl List.not_mem_nil
  | decision _ fresh ih => exact hcons fresh ih hl
  | forced _ fresh _ _ _ ih => exact hcons fresh ih hl

/-- **A variable has a value exactly if one entry carries it, and it is the value of this entry.** -/
theorem Trail.Valid.filter_var {n : Nat} {t : Trail} (ht : t.Valid clauses n) (v : Variable) :
    (made t.entries).filter (·.var = v) =
      ((t.values[v.slot]?.join).map fun b => (⟨v, b⟩ : Literal)).toList := by
  cases hv : t.values[v.slot]?.join with
  | none =>
      refine filter_var_eq_nil (ht.fresh (l := ⟨v, true⟩) ?_)
      rw [Trail.value?, hv]
      rfl
  | some b =>
      refine ht.justified.filter_var (l := ⟨v, b⟩) ((ht.value?_iff _).mp ?_)
      rw [Trail.value?, hv]
      simp

end Entries

namespace Search

/-! ### The pending decisions -/

/-- The trail is what the pending decisions and the clauses make of the one without entries. -/
inductive Stacked (clauses : List TraceClause) (n : Nat) : Trail → List Frame → Prop
  | root {t : Trail} (forced : Trail.Forces clauses (.initial n) t) : Stacked clauses n t []
  | branch {t : Trail} {f : Frame} {fs : List Frame} (earlier : Stacked clauses n f.before fs)
      (next : f.before.firstUndecided? = some f.var)
      (refuted : ∀ c, f.first = some c →
        Falsifies (⟨f.var, false⟩ :: fs.map Frame.decision) c.clause)
      (forced : Trail.Forces clauses (f.before.assign f.decision none) t) :
      Stacked clauses n t (f :: fs)

namespace Stacked

variable {clauses : List TraceClause} {n : Nat} {t : Trail} {f : Frame} {fs : List Frame}
  {v : Variable}

theorem valid (h : Stacked clauses n t fs) (hr : Trail.InRange clauses n) : t.Valid clauses n := by
  induction h with
  | root forced => exact forced.valid hr (Trail.valid_initial clauses n)
  | branch _ next _ forced ih =>
      obtain ⟨hslot, hnone⟩ := Trail.value?_firstUndecided? next
      exact forced.valid hr (ih.decide (ih.size_eq ▸ hslot) (hnone _))

/-- The decisions on the trail are the pending ones. -/
theorem decided_eq (h : Stacked clauses n t fs) : decided t.entries = fs.map Frame.decision := by
  induction h with
  | root forced => exact forced.decided_eq
  | @branch t f fs _ _ _ forced ih =>
      rw [forced.decided_eq, List.map_cons, ← ih]
      rfl

theorem forced {c : TraceClause} {l : Literal} (h : Stacked clauses n t fs) (given : c ∈ clauses)
    (state : t.state c.clause = .forced l) : Stacked clauses n (t.assign l (some c)) fs := by
  have hstep : Trail.Forces clauses t (t.assign l (some c)) := .step given state (.refl _)
  cases h with
  | root forced => exact .root (forced.trans hstep)
  | branch earlier next refuted forced => exact .branch earlier next refuted (forced.trans hstep)

theorem descend (first : Option TraceClause) (h : Stacked clauses n t fs)
    (next : t.firstUndecided? = some v) (refuted : ∀ c, first = some c →
      Falsifies (⟨v, false⟩ :: fs.map Frame.decision) c.clause) :
    Stacked clauses n (t.assign ⟨v, first.isSome⟩ none) (⟨t, v, first⟩ :: fs) :=
  .branch (f := ⟨t, v, first⟩) h next refuted (.refl _)

/-- Going back to the last decision restores the trail before it. -/
theorem backtrack (h : Stacked clauses n t (f :: fs)) (hr : Trail.InRange clauses n) :
    t.backtrack f.before.entries.length = f.before := by
  cases h with
  | branch earlier next _ forced =>
      have ht := earlier.valid hr
      obtain ⟨hslot, hnone⟩ := Trail.value?_firstUndecided? next
      exact forced.backtrack hr ht (ht.size_eq ▸ hslot) (hnone _)

theorem consistent (h : Stacked clauses n t fs) (hr : Trail.InRange clauses n) :
    Consistent (fs.map Frame.decision) := by
  rw [← h.decided_eq]
  exact (h.valid hr).justified.consistent.sublist fun _ => mem_made_of_mem_decided

/-- The next variable is not one that has been decided. -/
theorem fresh (h : Stacked clauses n t fs) (hr : Trail.InRange clauses n)
    (next : t.firstUndecided? = some v) : ∀ k ∈ fs.map Frame.decision, k.var ≠ v := by
  intro k hk
  rw [← h.decided_eq] at hk
  have hnone := (Trail.value?_firstUndecided? next).2 true
  exact (h.valid hr).fresh hnone k (mem_made_of_mem_decided hk)

end Stacked

/-! ### The invariant -/

/-- What is to be done next fits the trail and the pending decisions. -/
def Control.Fits (clauses : List TraceClause) (t : Trail) (fs : List Frame) : Control → Prop
  | .enter | .decide | .leave (.model _) => True
  | .scan rest _ => ∀ c ∈ rest, c ∈ clauses
  | .conflict x => x ∈ clauses ∧ t.state x.clause = .falsified
  | .leave (.refuted c) => Falsifies (fs.map Frame.decision) c.clause
  | .resume f c => f.before = t ∧ t.firstUndecided? = some f.var ∧
      (∀ b, f.first = some b → Falsifies (⟨f.var, false⟩ :: fs.map Frame.decision) b.clause) ∧
      Falsifies (f.decision :: fs.map Frame.decision) c.clause

/-- Whether a model has been found. -/
def Position.Done (p : Position) : Prop := ∃ m, p.control = .leave (.model m)

/-- The trail is valid, and until a model is found it is the one of the pending decisions. -/
structure Position.Stands (clauses : List TraceClause) (n : Nat) (p : Position) : Prop where
  valid : p.trail.Valid clauses n
  stacked : ¬ p.Done → Stacked clauses n p.trail p.pending
  fits : p.control.Fits clauses p.trail p.pending

section Stands

variable {clauses : List TraceClause} {n : Nat} {p q : Position} {b b' : Builder}

theorem not_done {control : Control} {t : Trail} {fs : List Frame}
    (h : ∀ m, control ≠ .leave (.model m)) : ¬ Position.Done ⟨control, t, fs⟩ :=
  fun ⟨m, hm⟩ => h m hm

/-- A search stands as long as its trail is stacked. -/
theorem Stacked.stands {control : Control} {t : Trail} {fs : List Frame}
    (h : Stacked clauses n t fs) (hr : Trail.InRange clauses n)
    (hfits : control.Fits clauses t fs) : Position.Stands clauses n ⟨control, t, fs⟩ :=
  ⟨h.valid hr, fun _ => h, hfits⟩

theorem stands_start (clauses : List TraceClause) (n : Nat) :
    (Position.start n).Stands clauses n :=
  ⟨Trail.valid_initial clauses n, fun _ => .root (.refl _), trivial⟩

/-- **Every move keeps the invariant.** -/
theorem Moves.stands (h : Moves clauses p b q b') (hr : Trail.InRange clauses n)
    (hp : p.Stands clauses n) : q.Stands clauses n := by
  obtain ⟨hvalid, hstacked, hfits⟩ := hp
  cases h with
  | enter => exact (hstacked (not_done nofun)).stands hr fun c hc => hc
  | again => exact (hstacked (not_done nofun)).stands hr fun c hc => hc
  | quiet => exact (hstacked (not_done nofun)).stands hr trivial
  | falsified state =>
      exact (hstacked (not_done nofun)).stands hr ⟨hfits _ List.mem_cons_self, state⟩
  | forced state =>
      have hforced := (hstacked (not_done nofun)).forced (hfits _ List.mem_cons_self) state
      exact hforced.stands hr fun c hc => hfits c (List.mem_cons_of_mem _ hc)
  | passed =>
      exact (hstacked (not_done nofun)).stands hr fun c hc => hfits c (List.mem_cons_of_mem _ hc)
  | conflict explained =>
      have hs := hstacked (not_done nofun)
      have hdec := explained.falsifies hvalid hfits.2
      rw [hs.decided_eq] at hdec
      exact hs.stands hr hdec
  | model done => exact ⟨hvalid, fun h => absurd ⟨_, rfl⟩ h, trivial⟩
  | decision next =>
      have hs := (hstacked (not_done nofun)).descend none next nofun
      exact hs.stands hr trivial
  | finished => exact ⟨hvalid, hstacked, hfits⟩
  | abandoned => exact ⟨hvalid, fun h => absurd ⟨_, rfl⟩ h, trivial⟩
  | restored =>
      have hs := hstacked (not_done nofun)
      rw [hs.backtrack hr]
      cases hs with
      | branch earlier next refuted _ => exact earlier.stands hr ⟨rfl, next, refuted, hfits⟩
  | unused unused =>
      obtain ⟨-, -, -, hdec⟩ := hfits
      exact (hstacked (not_done nofun)).stands hr (hdec.without [] unused)
  | @second f c t fs b used first =>
      obtain ⟨-, next, -, hdec⟩ := hfits
      have hdecision : f.decision = ⟨f.var, false⟩ := by rw [Frame.decision, first]; rfl
      rw [hdecision] at hdec
      have hs := (hstacked (not_done nofun)).descend (some c) next fun d hd =>
        Option.some.inj hd ▸ hdec
      exact hs.stands hr trivial
  | @merged f c d r t fs b b' used first added =>
      obtain ⟨-, next, hfirst, hdec⟩ := hfits
      have hs := hstacked (not_done nofun)
      have hdecision : f.decision = ⟨f.var, true⟩ := by rw [Frame.decision, first]; rfl
      rw [hdecision] at hdec used
      have hfalse := falsifies_others (hfirst c first) hdec
      refine hs.stands hr ?_
      show Falsifies _ r.clause
      rw [(Builder.addResolvent_eq_ok.mp added).2.2.1]
      exact hfalse

end Stands

/-! ### Every point of a search -/

/-- What holds at a point of a search of a problem, in the state that has been reached there. -/
structure Position.Orderly {σ : Type} (cnf : Cnf) (p : Position) (s : State σ) : Prop where
  /-- A variable has a value if exactly one entry carries it, with that value, and no value if none
  does. -/
  values : ∀ v : Variable, (made p.trail.entries).filter (·.var = v) =
    ((p.trail.values[v.slot]?.join).map fun b => (⟨v, b⟩ : Literal)).toList
  /-- The reason of an entry is a clause of the problem and no tautology, it holds the literal of
  the entry, and earlier entries falsify its other literals. -/
  reasons : ∀ later l r earlier, p.trail.entries = later ++ ⟨l, some r⟩ :: earlier →
    (∃ ls, cnf.clauses[r.index]? = some ls ∧ r.clause = .ofList ls) ∧
      r.clause.isTautology = false ∧ l ∈ r.clause ∧ ∀ k ∈ r.clause, k ≠ l → -k ∈ made earlier
  /-- The decisions on the trail are the pending ones. -/
  decisions : ¬ p.Done → decided p.trail.entries = p.pending.map Frame.decision
  /-- The explanation of a conflict has complements of pending decisions only. -/
  explained : ∀ x, p.control = .conflict x → ∀ c s', (explain p.trail x).Answers s c s' →
    ∀ l ∈ c.clause, -l ∈ p.pending.map Frame.decision
  /-- So has the clause which refutes a node that is left. -/
  refuted : ∀ c, p.control = .leave (.refuted c) →
    ∀ l ∈ c.clause, -l ∈ p.pending.map Frame.decision
  /-- When a branch has been refuted, the trail is what it was before the decision. -/
  restored : ∀ f c, p.control = .resume f c → p.trail = f.before

section Orderly

variable {σ : Type} {cnf : Cnf} {clauses : List TraceClause} {b : Builder}

theorem Position.Stands.orderly {p : Position} {s : State σ}
    (hp : p.Stands clauses cnf.numVariables) (hsearched : Searched cnf clauses b) :
    p.Orderly cnf s := by
  obtain ⟨control, t, fs⟩ := p
  obtain ⟨hvalid, hstacked, hfits⟩ := hp
  refine ⟨hvalid.filter_var, fun later l r earlier he => ?_, fun h => (hstacked h).decided_eq,
    fun x hx c s' hc => ?_, fun c hc => ?_, fun f c hc => ?_⟩
  · have hjustified := hvalid.justified
    rw [he] at hjustified
    obtain ⟨given, mem, others⟩ := hjustified.reason
    exact ⟨hsearched.given r given, hsearched.plain r given, mem, others⟩
  · obtain rfl : control = .conflict x := hx
    have hexplains := (hc.ends_iff.mp ends_explain_answered).1
    rw [← (hstacked (not_done nofun)).decided_eq]
    exact hexplains.falsifies hvalid hfits.2
  · obtain rfl : control = .leave (.refuted c) := hc
    exact hfits
  · obtain rfl : control = .resume f c := hc
    exact hfits.1.symm

end Orderly

variable {σ : Type} [StopCondition σ]

/-- What the search below a node answers when moves have come to the node. -/
theorem Position.Stands.ends_search {cnf : Cnf} {clauses : List TraceClause} {b : Builder}
    {t : Trail} {fs : List Frame} {s : State σ} {bound : Nat}
    (h : Position.Stands clauses cnf.numVariables ⟨.enter, t, fs⟩)
    (hsearched : Searched cnf clauses b) (hbound : t.undecided ≤ bound) :
    (search clauses bound t).Ends s
      (fun node s' => (∃ t', Reaches clauses (⟨.enter, t, fs⟩, s) (⟨.leave node, t', fs⟩, s')) ∧
        ∀ c, node = .refuted c → ∀ l ∈ c.clause, -l ∈ decided t.entries)
      (Breaks clauses (⟨.enter, t, fs⟩, s)) := by
  have hrange := hsearched.inRange
  refine (follows hrange bound t fs s h.valid hbound).mono (fun node s' hruns => ?_)
    fun e s' he => he
  obtain ⟨t', hreach, -⟩ := hruns
  refine ⟨⟨t', hreach⟩, fun c hc l hl => ?_⟩
  have hleft : Position.Stands clauses cnf.numVariables ⟨.leave node, t', fs⟩ :=
    hreach.keeps (fun hp hmove => hmove.stands hrange hp) h
  have hfits := hleft.fits
  rw [hc] at hfits
  rw [(h.stacked (not_done nofun)).decided_eq]
  exact hfits l hl

/-- **The order of a search.**  A problem is searched, from the root, if it has no empty clause.
Every point that moves lead to is in order.  Wherever a node is entered, the root for one, moves
lead to what the search below it answers, or to what it fails at; a clause by which the node is
refuted has only complements of the decisions which are on the trail when it is entered. -/
theorem search_keeps_order (cnf : Cnf) (k : Counters) (stop : σ) :
    ((∃ clauses s, (addAxioms cnf.clauses).Answers ⟨.empty, k, stop⟩ (none, clauses) s) ↔
      [] ∉ cnf.clauses) ∧
    ∀ clauses s, (addAxioms cnf.clauses).Answers ⟨.empty, k, stop⟩ (none, clauses) s →
      (∀ p s', Reaches clauses (.start cnf.numVariables, s) (p, s') → p.Orderly cnf s') ∧
      ∀ t fs s', Reaches clauses (.start cnf.numVariables, s) (⟨.enter, t, fs⟩, s') →
        ∀ bound, t.undecided ≤ bound → (search clauses bound t).Ends s'
          (fun node s'' =>
            (∃ t', Reaches clauses (⟨.enter, t, fs⟩, s') (⟨.leave node, t', fs⟩, s'')) ∧
            ∀ c, node = .refuted c → ∀ l ∈ c.clause, -l ∈ decided t.entries)
          (Breaks clauses (⟨.enter, t, fs⟩, s')) := by
  refine ⟨⟨?_, exists_searched rfl⟩, fun clauses s hadded => ?_⟩
  · rintro ⟨clauses, s, hadded⟩
    exact not_mem_of_addAxioms rfl hadded
  obtain ⟨hsearched, -⟩ := searched_of_addAxioms rfl hadded
  have hstands : ∀ p (s' : State σ), Reaches clauses (.start cnf.numVariables, s) (p, s') →
      p.Stands clauses cnf.numVariables := fun p s' hreach =>
    hreach.keeps (fun hp hmove => hmove.stands hsearched.inRange hp) (stands_start clauses _)
  exact ⟨fun p s' hreach => (hstands p s' hreach).orderly hsearched,
    fun t fs s' hreach bound hbound => (hstands _ s' hreach).ends_search hsearched hbound⟩

/-- A problem that is refuted after a decision on its first variable, searched from the root. -/
theorem search_keeps_order_fourClauses :
    ∃ (clauses : List TraceClause) (s : State Indefinite),
      (addAxioms fourClauses.clauses).Answers ⟨.empty, {}, .indefinite⟩ (none, clauses) s ∧
      (∀ p s', Reaches clauses (.start 2, s) (p, s') → p.Orderly fourClauses s') ∧
      (search clauses 2 (.initial 2)).Ends s
        (fun node s' => (∃ t, Reaches clauses (.start 2, s) (⟨.leave node, t, []⟩, s')) ∧
          ∀ c, node = .refuted c → ∀ l ∈ c.clause, -l ∈ ([] : List Literal))
        (Breaks clauses (.start 2, s)) := by
  obtain ⟨hsearched, hpoints⟩ := search_keeps_order fourClauses {} Indefinite.indefinite
  obtain ⟨clauses, s, hadded⟩ := hsearched.mpr (by decide)
  obtain ⟨horder, hnodes⟩ := hpoints clauses s hadded
  exact ⟨clauses, s, hadded, horder, hnodes _ [] s (.refl _) 2 (undecided_initial 2)⟩

end Search

end ModelFinder.Prover
