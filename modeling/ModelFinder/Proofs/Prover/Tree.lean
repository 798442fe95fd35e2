import ModelFinder.Proofs.Prover.Backtracking

/-!
# Refutations are trees

Nothing is learned in a search, so each clause that it derives is used once at most: the refutation
of a branch goes up to the decision above it, where it is passed on, or is resolved with that of the
other branch, or is dropped.  While it is on its way it is waiting (`Position.waiting`).  The
invariant counts both: a derived clause is an antecedent or is waiting, once in all
(`Grown.once`).  A clause is derived from axioms when a conflict is explained, and from two clauses
that are waiting when branches are merged.

* `Moves.grown`: every move keeps the invariant.
* `refutation_isTree`: **a derived clause of a refutation is an antecedent once at most**, and it is
  no tautology; the antecedents of an explanation are input clauses.
-/

namespace ModelFinder

namespace Trace

/-- How often a position is listed among the antecedents of all clauses together. -/
def uses (t : Trace) (i : Nat) : Nat := (t.clauses.toList.flatMap (·.antecedents)).count i

theorem uses_push (cs : Array TraceClause) (n : Nat) (c : TraceClause) (i : Nat) :
    uses ⟨cs.push c, n⟩ i = uses ⟨cs, n⟩ i + c.antecedents.count i := by
  simp [uses]

/-- What is not there yet has not been used. -/
theorem uses_eq_zero {t : Trace} (ht : t.WellFormed) {i : Nat} (h : t.size ≤ i) :
    t.uses i = 0 := by
  refine List.count_eq_zero.mpr fun hmem => ?_
  obtain ⟨c, hc, hi⟩ := List.mem_flatMap.mp hmem
  obtain ⟨j, hj⟩ := mem_clauses_iff.mp hc
  have hlt := ht.antecedent_lt hj i hi
  have hsize := get?_lt hj
  omega

/-- Input clauses use nothing. -/
theorem uses_eq_zero_of_inputs {t : Trace} (ht : t.WellFormed) (h : t.size = t.numAxioms)
    (i : Nat) : t.uses i = 0 := by
  refine List.count_eq_zero.mpr fun hmem => ?_
  obtain ⟨c, hc, hi⟩ := List.mem_flatMap.mp hmem
  obtain ⟨j, hj⟩ := mem_clauses_iff.mp hc
  have hlt : j < t.numAxioms := h ▸ get?_lt hj
  rw [(ht.isAxiom_iff hj).mpr hlt] at hi
  exact absurd hi List.not_mem_nil

end Trace

namespace Prover

open Session StopCondition Search
open Trace (Builder Derives)

/-- A clause that consistent literals falsify is no tautology. -/
theorem Falsifies.isTautology_eq_false {ls : List Literal} {c : Clause} (h : Falsifies ls c)
    (hcons : Consistent ls) : c.isTautology = false := by
  refine Bool.eq_false_iff.mpr fun htaut => ?_
  obtain ⟨l, hl, hn⟩ := List.any_eq_true.mp htaut
  exact hcons _ (h l hl) (h (-l) (Clause.contains_iff.mp hn))

/-! ### What has been derived -/

/-- A trace under construction as a search leaves it, with the clauses that are waiting to be used:
each derived clause has been used or is waiting, once in all, and none is a tautology. -/
structure Grown (b : Builder) (ws : List TraceClause) : Prop where
  wellFormed : b.trace.WellFormed
  present : ∀ c ∈ ws, b.trace.get? c.index = some c
  once : ∀ i, b.numAxioms ≤ i → b.trace.uses i + (ws.map (·.index)).count i ≤ 1
  plain : ∀ i c, b.trace.get? i = some c → b.numAxioms ≤ i → c.clause.isTautology = false

namespace Grown

variable {b b' : Builder} {ws ws' : List TraceClause} {c : TraceClause} {ls : List Literal}
  {as : List Nat}

/-- Nothing has been derived yet. -/
theorem of_inputs (hb : b.trace.WellFormed) (hsize : b.size = b.numAxioms) : Grown b [] where
  wellFormed := hb
  present c hc := absurd hc List.not_mem_nil
  once i _ := by simp [Trace.uses_eq_zero_of_inputs hb hsize i]
  plain i c hi hle := by
    have hlt : i < b.size := Trace.get?_lt hi
    omega

/-- Clauses which do not wait any more are dropped. -/
theorem sublist (h : Grown b ws) (hsub : ws'.Sublist ws) : Grown b ws' where
  wellFormed := h.wellFormed
  present c hc := h.present c (hsub.subset hc)
  once i hi := by
    have hle := (hsub.map (·.index)).count_le i
    have honce := h.once i hi
    omega
  plain := h.plain

/-- An input clause may wait as often as it likes. -/
theorem cons_input (h : Grown b ws) (hc : b.trace.get? c.index = some c)
    (hlt : c.index < b.numAxioms) : Grown b (c :: ws) where
  wellFormed := h.wellFormed
  present d hd := by
    rcases List.mem_cons.mp hd with rfl | hd
    · exact hc
    · exact h.present d hd
  once i hi := by
    rw [List.map_cons, List.count_cons_of_ne (by omega)]
    exact h.once i hi
  plain := h.plain

/-- **A clause is derived from antecedents that had been waiting**, or that are input clauses, and
waits itself. -/
theorem addResolvent (h : Grown b ws) (hadd : b.addResolvent ls as = .ok (c, b'))
    (hsub : ws'.Sublist ws) (hplain : c.clause.isTautology = false)
    (hspent : ∀ i, b.numAxioms ≤ i →
      as.count i + (ws'.map (·.index)).count i ≤ (ws.map (·.index)).count i) :
    Grown b' (c :: ws') := by
  have hwf := h.wellFormed.addResolvent hadd
  have hgrows := (Builder.grows_of_addResolvent hadd)
  obtain ⟨-, hlt, rfl, rfl⟩ := Builder.addResolvent_eq_ok.mp hadd
  refine ⟨hwf, fun d hd => ?_, fun i hi => ?_, fun i d hd hi => ?_⟩
  · rcases List.mem_cons.mp hd with rfl | hd
    · exact hgrows.2
    · exact hgrows.1.get? (h.present d (hsub.subset hd))
  · have honce := h.once i hi
    have hle := hspent i hi
    have huses : Trace.uses ⟨b.clauses.push ⟨b.size, .ofList ls, as⟩, b.numAxioms⟩ i =
        b.trace.uses i + as.count i := Trace.uses_push _ _ _ i
    show Trace.uses ⟨b.clauses.push _, b.numAxioms⟩ i + (b.size :: ws'.map (·.index)).count i ≤ 1
    rw [huses, List.count_cons]
    split
    next heq =>
      -- the new clause is neither used nor waiting
      obtain rfl : b.size = i := by simpa using heq
      have hunused := Trace.uses_eq_zero h.wellFormed (Nat.le_refl b.trace.size)
      have has : as.count b.size = 0 :=
        List.count_eq_zero.mpr fun hmem => Nat.lt_irrefl _ (hlt _ hmem)
      have hws : (ws'.map (·.index)).count b.size = 0 := by
        refine List.count_eq_zero.mpr fun hmem => ?_
        obtain ⟨d, hd, he⟩ := List.mem_map.mp hmem
        have hdlt : d.index < b.size := Trace.get?_lt (h.present d (hsub.subset hd))
        omega
      have hunused : b.trace.uses b.size = 0 := hunused
      omega
    next => omega
  · rcases Trace.get?_push hd with ⟨-, rfl⟩ | hd
    · exact hplain
    · exact h.plain i d hd hi

end Grown

namespace Search

/-! ### What is waiting -/

/-- The refutations of branches that are still to be used, the last one first. -/
def Control.waiting : Control → List TraceClause
  | .leave (.refuted c) => [c]
  | .resume f c => c :: f.first.toList
  | _ => []

/-- The clauses which are waiting at a point of a search. -/
def Position.waiting (p : Position) : List TraceClause :=
  p.control.waiting ++ p.pending.flatMap (·.first.toList)

/-- The clauses are among the input clauses of the trace. -/
def Inputs (clauses : List TraceClause) (b : Builder) : Prop :=
  ∀ c ∈ clauses, b.trace.get? c.index = some c ∧ c.index < b.numAxioms

section Moves

variable {clauses : List TraceClause} {n : Nat} {p q : Position} {b b' : Builder} {t : Trail}
  {x c : TraceClause}

/-- The antecedents of an explanation are input clauses. -/
theorem antecedents_lt_of_explains (h : Explains t b x c b') (ht : t.Valid clauses n)
    (hin : Inputs clauses b) (hb : b.trace.WellFormed) (hx : x ∈ clauses)
    (hf : t.state x.clause = .falsified) : ∀ a ∈ c.antecedents, a < b.numAxioms := by
  obtain ⟨hget, hlt⟩ := hin x hx
  cases h with
  | self unused =>
      rw [(hb.isAxiom_iff hget).mpr hlt]
      exact fun a ha => absurd ha List.not_mem_nil
  | resolvent used added =>
      obtain ⟨-, rs, hrs, hused, -⟩ := chain_of_falsified ht hf
      rw [(Builder.addResolvent_eq_ok.mp added).2.2.1, hused]
      intro a ha
      rcases List.mem_cons.mp ha with rfl | ha
      · exact hlt
      · obtain ⟨r, hr, rfl⟩ := List.mem_map.mp ha
        exact (hin r (hrs r hr)).2

/-- A move only adds to the trace. -/
theorem Moves.grows (h : Moves clauses p b q b') : b.trace.Grows b'.trace := by
  cases h with
  | conflict explained =>
      cases explained with
      | self _ => exact .refl _
      | resolvent _ added => exact (Builder.grows_of_addResolvent added).1
  | merged _ _ added => exact (Builder.grows_of_addResolvent added).1
  | _ => exact .refl _

theorem Inputs.of_grows (h : Inputs clauses b) (hgrows : b.trace.Grows b'.trace) :
    Inputs clauses b' := fun c hc =>
  ⟨hgrows.get? (h c hc).1, Nat.lt_of_lt_of_eq (h c hc).2 hgrows.numAxioms_eq.symm⟩

/-- **Every move keeps count.** -/
theorem Moves.grown (h : Moves clauses p b q b') (hr : Trail.InRange clauses n)
    (hp : p.Stands clauses n) (hin : Inputs clauses b) (hb : Grown b p.waiting) :
    Grown b' q.waiting := by
  have hq := h.stands hr hp
  cases h with
  | @conflict t fs b b' x c explained =>
      have hs := hp.stacked (not_done nofun)
      have hplain : c.clause.isTautology = false :=
        Falsifies.isTautology_eq_false hq.fits (hs.consistent hr)
      have hlt := antecedents_lt_of_explains explained hp.valid hin hb.wellFormed hp.fits.1
        hp.fits.2
      cases explained with
      | self _ => exact hb.cons_input (hin x hp.fits.1).1 (hin x hp.fits.1).2
      | resolvent _ added =>
          show Grown b' (c :: fs.flatMap (·.first.toList))
          refine hb.addResolvent added (List.Sublist.refl _) hplain fun i hi => ?_
          have hnone : (x.index :: (Trail.resolveBack t.entries x.clause).2).count i = 0 := by
            refine List.count_eq_zero.mpr fun hmem => ?_
            have hant := (Builder.addResolvent_eq_ok.mp added).2.2.1
            have := hlt i (hant ▸ hmem)
            omega
          rw [hnone, Nat.zero_add]
          exact Nat.le_refl _
  | abandoned => exact hb.sublist (List.sublist_append_right _ _)
  | @restored c t f fs b => simpa [Position.waiting, Control.waiting] using hb
  | @unused f c t fs b _ =>
      refine hb.sublist ?_
      exact ((List.nil_sublist f.first.toList).cons_cons c).append_right _
  | @second f c t fs b _ first =>
      simpa [Position.waiting, Control.waiting, descend, first] using hb
  | @merged f c d r t fs b b' _ first added =>
      have hs := hp.stacked (not_done nofun)
      have hplain : r.clause.isTautology = false :=
        Falsifies.isTautology_eq_false hq.fits (hs.consistent hr)
      have hwaiting : Position.waiting ⟨.resume f d, t, fs⟩ =
          d :: c :: fs.flatMap (·.first.toList) := by
        simp [Position.waiting, Control.waiting, first]
      rw [hwaiting] at hb
      show Grown b' (r :: fs.flatMap (·.first.toList))
      refine hb.addResolvent added ?_ hplain fun i _ => ?_
      · exact (List.sublist_cons_self _ _).trans (List.sublist_cons_self _ _)
      · simp only [List.map_cons, List.count_cons, List.count_nil]
        omega
  | _ => exact hb

end Moves

/-! ### Every point of a search -/

section Points

variable {σ : Type} [StopCondition σ] {cnf : Cnf} {clauses : List TraceClause} {b : Builder}
  {s s' : State σ} {p : Position}

theorem inputs_of_searched (h : Searched cnf clauses b) : Inputs clauses b := fun c hc => by
  have hget := h.supports.present c hc
  have hlt : c.index < b.size := Trace.get?_lt hget
  exact ⟨hget, Nat.lt_of_lt_of_eq hlt h.size_eq⟩

/-- What has been derived at a point that a search reaches. -/
theorem Reaches.grown (h : Reaches clauses (.start cnf.numVariables, s) (p, s'))
    (hsearched : Searched cnf clauses s.builder) : p.Stands clauses cnf.numVariables ∧
      s.builder.trace.Grows s'.builder.trace ∧ Grown s'.builder p.waiting := by
  have hrange := hsearched.inRange
  have hinputs := inputs_of_searched hsearched
  refine h.keeps (P := fun p b => p.Stands clauses cnf.numVariables ∧
    s.builder.trace.Grows b.trace ∧ Grown b p.waiting) (fun hp hmove => ?_) ?_
  · obtain ⟨hstands, hgrows, hgrown⟩ := hp
    have hin : Inputs clauses _ := hinputs.of_grows hgrows
    exact ⟨hmove.stands hrange hstands, hgrows.trans hmove.grows,
      hmove.grown hrange hstands hin hgrown⟩
  · exact ⟨stands_start clauses _, .refl _,
      .of_inputs hsearched.supports.wellFormed hsearched.size_eq⟩

/-- The antecedents of an explanation that a search comes to are input clauses. -/
theorem Reaches.antecedents_lt {x c : TraceClause} {s₁ : State σ}
    (h : Reaches clauses (.start cnf.numVariables, s) (p, s₁))
    (hsearched : Searched cnf clauses s.builder) (hx : p.control = .conflict x)
    (hc : (explain p.trail x).Answers s₁ c s') : ∀ a ∈ c.antecedents, a < s.builder.numAxioms := by
  obtain ⟨hstands, hgrows, hgrown⟩ := h.grown hsearched
  have hexplains := (hc.ends_iff.mp ends_explain_answered).1
  have hfits := hstands.fits
  rw [hx] at hfits
  have hnum : s₁.builder.numAxioms = s.builder.numAxioms := hgrows.numAxioms_eq
  rw [← hnum]
  exact antecedents_lt_of_explains hexplains hstands.valid
    ((inputs_of_searched hsearched).of_grows hgrows) hgrown.wellFormed hfits.1 hfits.2

end Points

end Search

/-! ### The refutation -/

section Refutations

variable {σ : Type} [StopCondition σ] {cnf : Cnf} {s s' : State σ} {t : Trace}

/-- The moves that lead to the refutation of a problem without an empty clause. -/
theorem Concludes.reaches {clauses : List TraceClause} {s₁ : State σ} (h : Concludes cnf s t s')
    (hs : s.builder = .empty) (added : (addAxioms cnf.clauses).Answers s (none, clauses) s₁) :
    t = s'.builder.trace ∧ ∃ c trail, Reaches clauses (.start cnf.numVariables, s₁)
      (⟨.leave (.refuted c), trail, []⟩, s') := by
  cases h with
  | given added' _ => cases (added.unique added').1
  | @searched c clauses' s₁' _ added' refuted empty last =>
      obtain ⟨hclauses, rfl⟩ := added.unique added'
      cases hclauses
      have hrange := (searched_of_addAxioms hs added).1.inRange
      obtain ⟨trail, hreach, -⟩ := refuted.ends_iff.mp (follows hrange _ _ [] s₁
        (Trail.valid_initial clauses _) (undecided_initial _))
      exact ⟨rfl, c, trail, hreach⟩

/-- The last clause of a refutation is the only one that is waiting. -/
theorem Concludes.grown (h : Concludes cnf s t s') (hs : s.builder = .empty) :
    t = s'.builder.trace ∧ ∃ c, Grown s'.builder [c] := by
  have h' := h
  cases h with
  | @given c r clauses s₁ _ added closed =>
      obtain ⟨-, hwf, hsize, hget, -⟩ := given_of_addAxioms hs added
      obtain ⟨hresolvent, -⟩ := closed.ends_iff.mp ends_addResolvent_answered
      have hlt : c.index < s₁.builder.numAxioms := hsize ▸ Trace.get?_lt hget
      have hgrown := (Grown.of_inputs hwf hsize).cons_input hget hlt
      refine ⟨rfl, r, hgrown.addResolvent hresolvent (List.nil_sublist _) ?_ fun i _ => ?_⟩
      · rw [(Builder.addResolvent_eq_ok.mp hresolvent).2.2.1]
        rfl
      · exact Nat.le_refl _
  | searched added _ _ _ =>
      obtain ⟨-, c, trail, hreach⟩ := h'.reaches hs added
      exact ⟨rfl, c, (hreach.grown (searched_of_addAxioms hs added).1).2.2⟩

/-- **Refutations are trees.**  Each derived clause of a refutation is listed once at most among the
antecedents of all clauses together, and it is no tautology.  If the problem is searched, moves lead
to the refutation, and wherever they come to a conflict, the antecedents of its explanation are
input clauses. -/
theorem refutation_isTree {k k' : Counters} {stop stop' : σ}
    (h : (solve cnf).Answers (k, stop) (.unsatisfiable t) (k', stop')) :
    (∀ c ∈ t.derived, t.uses c.index ≤ 1 ∧ c.clause.isTautology = false) ∧
    ∀ clauses s, (addAxioms cnf.clauses).Answers ⟨.empty, k, stop⟩ (none, clauses) s →
      (∃ c trail s', Reaches clauses (.start cnf.numVariables, s)
        (⟨.leave (.refuted c), trail, []⟩, s') ∧ s'.builder.trace = t) ∧
      ∀ p s₁ x c s₂, Reaches clauses (.start cnf.numVariables, s) (p, s₁) →
        p.control = .conflict x → (explain p.trail x).Answers s₁ c s₂ →
        ∀ a ∈ c.antecedents, a < t.numAxioms := by
  obtain ⟨s', hconcludes, -⟩ := concludes_of_solve h
  constructor
  · obtain ⟨rfl, r, hgrown⟩ := hconcludes.grown rfl
    intro c hc
    obtain ⟨i, hle, hi⟩ := Trace.mem_derived_iff.mp hc
    rw [hgrown.wellFormed.index_eq hi]
    have honce := hgrown.once i hle
    exact ⟨by omega, hgrown.plain i c hi hle⟩
  · intro clauses s hadded
    obtain ⟨hsearched, -⟩ := searched_of_addAxioms rfl hadded
    obtain ⟨rfl, r, trail, hreach⟩ := hconcludes.reaches rfl hadded
    refine ⟨⟨r, trail, s', hreach, rfl⟩, fun p s₁ x c s₂ hp hx hc a ha => ?_⟩
    have hlt := hp.antecedents_lt hsearched hx hc a ha
    rw [(hreach.grown hsearched).2.1.numAxioms_eq]
    exact hlt

/-- The refutation of four clauses: the explanations of two conflicts, and what they are resolved
to. -/
theorem refutation_isTree_fourClauses :
    ∃ t after, (solve fourClauses).Answers (({} : Counters), Indefinite.indefinite)
      (.unsatisfiable t) after ∧ t.derived.map (·.antecedents) = [[1, 0], [3, 2], [4, 5]] ∧
      ∀ c ∈ t.derived, t.uses c.index ≤ 1 ∧ c.clause.isTautology = false := by
  have hcheck : (match (solve fourClauses (({} : Counters), Indefinite.indefinite)).answer with
      | .ok (.unsatisfiable t) => decide (t.derived.map (·.antecedents) = [[1, 0], [3, 2], [4, 5]])
      | _ => false) = true := by decide +kernel
  split at hcheck
  next t ht =>
    have h : (solve fourClauses).Answers (({} : Counters), Indefinite.indefinite)
        (.unsatisfiable t) (_, _) := ⟨ht, rfl⟩
    exact ⟨t, _, h, of_decide_eq_true hcheck, (refutation_isTree h).1⟩
  · cases hcheck

end Refutations

end Prover

end ModelFinder
