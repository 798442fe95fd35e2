import ModelFinder.Proofs.Reduction.Course
import ModelFinder.Proofs.Reduction.Draining
import ModelFinder.Proofs.Reduction.Soundness

/-!
# Removed roots stay away

A round drops one root, the next one of the pool that the core asserts, and re-solves what can be
learned from the encoding of the others (`Reduction.Tries`).  If the candidate is refuted, the new
refutation has input clauses of the candidate only.  These are the encoding of the other roots, in
which no further root occurs if roots are the largest variables of their clauses.  The search for
the new refutation is free to use clauses that the old one did without, and its core may well have
clauses that were not in the old core, but none of them mentions a root that the old core did not
assert (`Trace.Without.mem_coreUnits`).

Input clauses are only ever lost, and so are the asserted roots (`Reduction.Follows`).  Both hold of
one round, and so of any number of them (`follows_of_course`): a root that is dropped does not occur
any more, and a root that is passed over is not asserted later on either.
-/

namespace ModelFinder

open Session

/-! ### Refutations without a root -/

namespace Trace

variable {t t' reduced : Trace} {n : Nat} {r : Variable} {candidate : ClauseSet}

/-- The input clauses of `t'` are some of those of `t`. -/
def GivenBy (t' t : Trace) : Prop := ∀ c ∈ t'.inputs, ∃ d ∈ t.inputs, d.clause = c.clause

theorem GivenBy.trans {t₁ : Trace} (h : t'.GivenBy t₁) (h' : t₁.GivenBy t) : t'.GivenBy t := by
  intro c hc
  obtain ⟨d, hd, hdc⟩ := h c hc
  obtain ⟨e, he, hed⟩ := h' d hd
  exact ⟨e, he, hed.trans hdc⟩

theorem GivenBy.exists_mem (h : t'.GivenBy t) {c : TraceClause} (hc : c ∈ t'.inputs)
    (hn : n ∈ c.variableNumbers) : ∃ d ∈ t.inputs, d.clause = c.clause ∧ n ∈ d.variableNumbers := by
  obtain ⟨d, hd, he⟩ := h c hc
  refine ⟨d, hd, he, ?_⟩
  rw [TraceClause.variableNumbers, he]
  exact hn

theorem GivenBy.largestOnly (h : t'.GivenBy t) (hlargest : t.LargestOnly n) :
    t'.LargestOnly n := by
  intro c hc hn
  obtain ⟨d, hd, he, hn⟩ := h.exists_mem hc hn
  rw [← he]
  exact hlargest d hd hn

/-- No input clause mentions the variable. -/
def Unmentioned (t : Trace) (n : Nat) : Prop := ∀ c ∈ t.inputs, n ∉ c.variableNumbers

theorem Unmentioned.of_givenBy (h : t.Unmentioned n) (h' : t'.GivenBy t) : t'.Unmentioned n := by
  intro c hc hn
  obtain ⟨d, hd, -, hn⟩ := h'.exists_mem hc hn
  exact h d hd hn

theorem exists_mem_of_mem_coreUnits (ht : t.WellFormed) (hn : n ∈ t.coreUnits) :
    ∃ c ∈ t.inputs, n ∈ c.variableNumbers := by
  obtain ⟨-, -, c, hc, v, -, hmax, rfl⟩ := Strategy.exists_unit ht hn
  obtain ⟨⟨l, hl, rfl⟩, -⟩ := Clause.maxVariable?_eq_some hmax
  exact ⟨c, hc, List.mem_map_of_mem hl⟩

/-- A refutation from input clauses of `t` that mention no roots but those `t` asserts, and not
`r`. -/
structure Without (t : Trace) (r : Variable) (t' : Trace) : Prop where
  wellFormed : t'.WellFormed
  givenBy : t'.GivenBy t
  mem_remove : ∀ ⦃n⦄, t.LargestOnly n → ∀ c ∈ t'.inputs, n ∈ c.variableNumbers →
    n ∈ t.coreUnits.remove r.index

/-- The input clauses of what is spliced are in the candidate. -/
theorem without_of_splice (ht : t.WellFormed)
    (hlearns : t.Learns (t.axiomsFor (t.coreUnits.remove r.index)) candidate) {cnf : Cnf}
    (hcnf : t.toCnf candidate = .ok cnf) (hr : reduced.IsRefutation)
    (hsplice : t.splice candidate reduced = .ok t') : t.Without r t' := by
  obtain ⟨hwf, hgiven⟩ := inputs_of_splice ht hcnf hr.wellFormed hsplice
  refine ⟨hwf, fun c hc => ?_, fun n hlargest c hc hn => ?_⟩
  · obtain ⟨d, hd, -, he⟩ := hgiven c hc
    exact ⟨d, hd, he⟩
  · obtain ⟨d, hd, hin, he⟩ := hgiven c hc
    refine Strategy.mem_of_learns ht hlearns hd hin hlargest ?_
    rw [TraceClause.variableNumbers, he]
    exact hn

/-- No root is asserted that was not asserted before. -/
theorem Without.mem_coreUnits (h : t.Without r t') (hlargest : t.LargestOnly n)
    (hn : n ∈ t'.coreUnits) : n ∈ t.coreUnits ∧ n ≠ r.index := by
  obtain ⟨c, hc, hn⟩ := exists_mem_of_mem_coreUnits h.wellFormed hn
  exact IndexSet.mem_remove.mp (h.mem_remove hlargest c hc hn)

theorem Without.unmentioned (h : t.Without r t') (hlargest : t.LargestOnly r.index) :
    t'.Unmentioned r.index := fun c hc hn =>
  (IndexSet.mem_remove.mp (h.mem_remove hlargest c hc hn)).2 rfl

end Trace

/-! ### Rounds -/

/-- A root that is tried: those before it in the pool are passed over. -/
theorem Strategy.Scans.exists_tried {strategy : Strategy RootPool} {distance : ResolutionDistance}
    (h : strategy.Scans distance) {t : Trace} {pool rest : RootPool} {candidate : ClauseSet}
    (hnext : (strategy.next t).Answers pool candidate rest) (hne : candidate.isEmpty = false) :
    ∃ skipped r, pool.remaining = skipped ++ r :: rest.remaining ∧
      (∀ w ∈ skipped, w.index ∉ t.coreUnits) ∧ r.index ∈ t.coreUnits ∧
      candidate = learned distance t (t.axiomsFor (t.coreUnits.remove r.index)) := by
  obtain ⟨hanswer, rfl⟩ := hnext
  rcases hconsume : pool.consume t.coreUnits with ⟨_ | others, rest⟩
  · rw [h.none hconsume] at hanswer
    cases hanswer
    cases hne
  · obtain ⟨hclauses, hstate⟩ := h.some hconsume
    obtain ⟨skipped, r, hpool, hr, hskipped, rfl, -⟩ := RootPool.eq_append_of_consume hconsume
    refine ⟨skipped, r, by rw [hstate]; exact hpool, hskipped, hr, ?_⟩
    exact (clausesFor_eq_ok.mp (hclauses.symm.trans hanswer)).2

namespace Reduction

variable {β σ : Type} {J : β → Prop} {roots : List Variable} {t t' : Trace}

/-- The round from `x` to `y` passes over the roots `skipped`, which the core does not assert, and
tries `r`, which it does: the candidate is what can be learned from the encoding of the others. -/
structure Tries (x : Config RootPool β σ) (candidate : ClauseSet) (y : Config RootPool β σ)
    (skipped : List Variable) (r : Variable) : Prop where
  pool_eq : x.state.strategy.remaining = skipped ++ r :: y.state.strategy.remaining
  skips : ∀ w ∈ skipped, w.index ∉ x.trace.coreUnits
  asserted : r.index ∈ x.trace.coreUnits
  candidate_eq : ∃ distance, candidate =
    Strategy.learned distance x.trace (x.trace.axiomsFor (x.trace.coreUnits.remove r.index))

theorem Tries.learns {x y : Config RootPool β σ} {candidate : ClauseSet} {skipped : List Variable}
    {r : Variable} (h : Tries x candidate y skipped r) (hx : x.trace.WellFormed) :
    x.trace.Learns (x.trace.axiomsFor (x.trace.coreUnits.remove r.index)) candidate := by
  obtain ⟨distance, rfl⟩ := h.candidate_eq
  exact Strategy.learns_learned hx distance _

/-- Roots are in the pool, and are the largest variables of their clauses. -/
structure Config.InOrder (roots : List Variable) (J : β → Prop) (x : Config RootPool β σ) :
    Prop where
  wellFormed : x.trace.WellFormed
  largestOnly : ∀ v ∈ roots, x.trace.LargestOnly v.index
  pool : ∀ v ∈ x.state.strategy.remaining, v ∈ roots
  backend : J x.state.backend

/-- A later refutation: input clauses and asserted roots are only ever lost. -/
structure Follows (roots : List Variable) (t t' : Trace) : Prop where
  givenBy : t'.GivenBy t
  asserted : ∀ v ∈ roots, v.index ∈ t'.coreUnits → v.index ∈ t.coreUnits

theorem Follows.refl (t : Trace) : Follows roots t t := ⟨fun c hc => ⟨c, hc, rfl⟩, fun _ _ => id⟩

theorem Follows.trans {t₁ : Trace} (h : Follows roots t t₁) (h' : Follows roots t₁ t') :
    Follows roots t t' :=
  ⟨h'.givenBy.trans h.givenBy, fun v hv hn => h.asserted v hv (h'.asserted v hv hn)⟩

variable [StopCondition σ] {strategy : Strategy RootPool} {distance : ResolutionDistance}
  {backend : Backend β σ} {x y : Config RootPool β σ} {candidate : ClauseSet}

/-- **One round** tries a root.  If its candidate is adopted, the new refutation goes without it. -/
theorem Round.tries (hscans : strategy.Scans distance) (hb : backend.Sound J)
    (hx : x.InOrder roots J) (h : Round strategy backend x candidate y) :
    ∃ skipped r, Tries x candidate y skipped r ∧
      (¬ Adopted x y ∧ y.trace = x.trace ∨ Adopted x y ∧ x.trace.Without r y.trace) ∧
      J y.state.backend := by
  obtain ⟨hne, hnext, hcontinues, hJ⟩ := h.continues hb hx.backend
  obtain ⟨skipped, r, hpool, hskipped, hr, hcandidate⟩ := hscans.exists_tried hnext hne
  have htries : Tries x candidate y skipped r := ⟨hpool, hskipped, hr, distance, hcandidate⟩
  refine ⟨skipped, r, htries, ?_, hJ⟩
  rcases hcontinues with ⟨htrace, hcount⟩ | ⟨⟨cnf, reduced, hcnf, hreduced, hsplice⟩, hcount⟩
  · exact .inl ⟨fun hadopted => Nat.succ_ne_self _ (hadopted.symm.trans hcount), htrace⟩
  · exact .inr ⟨hcount, Trace.without_of_splice hx.wellFormed (htries.learns hx.wellFormed) hcnf
      hreduced hsplice⟩

theorem Round.follows (hscans : strategy.Scans distance) (hb : backend.Sound J)
    (hx : x.InOrder roots J) (h : Round strategy backend x candidate y) :
    y.InOrder roots J ∧ Follows roots x.trace y.trace := by
  obtain ⟨skipped, r, htries, hbecomes, hJ⟩ := h.tries hscans hb hx
  have hpool : ∀ v ∈ y.state.strategy.remaining, v ∈ roots := fun v hv =>
    hx.pool v (by rw [htries.pool_eq]; simp [hv])
  rcases hbecomes with ⟨-, htrace⟩ | ⟨-, hwithout⟩
  · rw [htrace]
    exact ⟨⟨htrace ▸ hx.wellFormed, htrace ▸ hx.largestOnly, hpool, hJ⟩, .refl _⟩
  · have hlargest := fun v hv => hwithout.givenBy.largestOnly (hx.largestOnly v hv)
    refine ⟨⟨hwithout.wellFormed, hlargest, hpool, hJ⟩, hwithout.givenBy, fun v hv hn => ?_⟩
    exact (hwithout.mem_coreUnits (hx.largestOnly v hv) hn).1

/-- Any number of rounds. -/
theorem follows_of_course (hscans : strategy.Scans distance) (hb : backend.Sound J)
    (hx : x.InOrder roots J) (h : Course strategy backend x y) :
    y.InOrder roots J ∧ Follows roots x.trace y.trace := by
  induction h with
  | refl => exact ⟨hx, .refl _⟩
  | tail _ hround ih =>
      obtain ⟨candidate, hround⟩ := hround
      obtain ⟨hy, hfollows⟩ := ih
      obtain ⟨hz, hfollows'⟩ := hround.follows hscans hb hy
      exact ⟨hz, hfollows.trans hfollows'⟩

/-- Roots that are the largest variables of their clauses are so in every refutation from them. -/
theorem largestOnly_of_isFrom {cnf : Cnf} {v : Variable} (ht : t.IsFrom cnf)
    (hv : ∀ ls ∈ cnf.clauses, ∀ l ∈ ls, l.var = v → ∀ k ∈ ls, k.var.index ≤ v.index) :
    t.LargestOnly v.index := by
  intro c hc hn
  obtain ⟨ls, hls, he⟩ := ht c hc
  obtain ⟨l, hl, hlv⟩ := List.mem_map.mp hn
  have hl' : l ∈ Clause.ofList ls := he ▸ hl
  have hvar : l.var = v := Variable.ext_index hlv
  refine ⟨v, ?_, rfl⟩
  rw [he]
  exact Clause.maxVariable?_ofList ⟨l, Clause.mem_ofList.mp hl', hvar⟩
    (hv ls hls l (Clause.mem_ofList.mp hl') hvar)

/-- **Once removed, a root never returns.**  The prover refutes a problem in which roots are the
largest variables of their clauses, and a strategy that drops one root after the other reduces the
core of the refutation.  Wherever the reduction stands,

* a round passes over roots that the core does not assert and tries the next one; it keeps the
  refutation, or adopts the candidate: then the roots that the new core asserts are asserted by the
  old one and are not the one that was tried, and from then on no input clause mentions it;
* a root that the core does not assert, be it passed over or not, is not asserted by any later core;
* the answer of the reduction is one of the later refutations. -/
theorem removed_root_never_returns {L : Logic} {σ' : Type} [StopCondition σ'] {cnf : Cnf}
    (log : TranslationLog L)
    (hroots : ∀ v ∈ log.rootVars, ∀ ls ∈ cnf.clauses, ∀ l ∈ ls, l.var = v →
      ∀ k ∈ ls, k.var.index ≤ v.index)
    {strategy : Strategy RootPool} (h : strategy.IsRootwise) {k : Prover.Counters} {stop : σ'}
    (hsolve : ((Prover.solve cnf).run (k, stop)).answer = .ok (.unsatisfiable t))
    (start : State RootPool Prover.Counters σ) (hstart : start.strategy = .ofLog log)
    (x : Config RootPool Prover.Counters σ)
    (hx : Course strategy Prover.backend ⟨t, {}, start⟩ x) :
    (∀ v ∈ x.state.strategy.remaining, v ∈ log.rootVars) ∧
    (∀ candidate y, Round strategy Prover.backend x candidate y →
      ∃ skipped r, Tries x candidate y skipped r ∧ (¬ Adopted x y → y.trace = x.trace) ∧
        (Adopted x y →
          (∀ v ∈ log.rootVars, v.index ∈ y.trace.coreUnits → v.index ∈ x.trace.coreUnits ∧ v ≠ r) ∧
          ∀ z, Course strategy Prover.backend y z → z.trace.Unmentioned r.index)) ∧
    (∀ v ∈ log.rootVars, v.index ∉ x.trace.coreUnits →
      ∀ z, Course strategy Prover.backend x z → v.index ∉ z.trace.coreUnits) ∧
    ∀ t', ((minimiseCore strategy Prover.backend t).run start).answer = .ok t' →
      ∃ z, Course strategy Prover.backend x z ∧ z.trace = t' := by
  obtain ⟨distance, hscans⟩ := h.exists_scans
  have hb : (Prover.backend : Backend Prover.Counters σ).Sound fun _ => True := Prover.sound_backend
  obtain ⟨⟨href, hfrom⟩, -⟩ := (Prover.sound_backend cnf k stop trivial).of_answer hsolve
  have hinOrder : Config.InOrder log.rootVars (fun _ => True)
      (⟨t, {}, start⟩ : Config RootPool Prover.Counters σ) :=
    ⟨href.wellFormed, fun v hv => largestOnly_of_isFrom hfrom (hroots v hv),
      fun v hv => by rw [hstart] at hv; exact hv, trivial⟩
  have hxOrder := (follows_of_course hscans hb hinOrder hx).1
  refine ⟨hxOrder.pool, fun candidate y hround => ?_, fun v hv hn z hz hn' => ?_,
    fun t' ht' => exists_course_of_answer ht' hx⟩
  · obtain ⟨skipped, r, htries, hbecomes, -⟩ := hround.tries hscans hb hxOrder
    refine ⟨skipped, r, htries,
      fun hkept => (hbecomes.resolve_right fun h => hkept h.1).2, fun hadopted => ?_⟩
    have hwithout := (hbecomes.resolve_left fun h => h.1 hadopted).2
    have hr : r ∈ log.rootVars := hxOrder.pool r (by rw [htries.pool_eq]; simp)
    refine ⟨fun v hv hn => ?_, fun z hz => ?_⟩
    · obtain ⟨hn', hne⟩ := hwithout.mem_coreUnits (hxOrder.largestOnly v hv) hn
      exact ⟨hn', fun e => hne (congrArg Variable.index e)⟩
    · have hyOrder := (hround.follows hscans hb hxOrder).1
      have hfollows := (follows_of_course hscans hb hyOrder hz).2
      exact (hwithout.unmentioned (hxOrder.largestOnly r hr)).of_givenBy hfollows.givenBy
  · exact hn ((follows_of_course hscans hb hxOrder hz).2.asserted v hv hn')

/-- Three roots, of which 5 leads to a contradiction of the others in a roundabout way. -/
def detour : Cnf :=
  ⟨5, [[3], [-3, 1], [5], [-5, -1, 2], [4], [-4, -2], [-4, -1]].map
    (·.filterMap Literal.ofDimacs?)⟩

/-- The refutation of the prover, which goes the roundabout way. -/
def roundabout : Trace :=
  ⟨(detour.clauses.mapIdx fun i ls => ⟨i, .ofList ls, []⟩).toArray.push
    ⟨7, .empty, [5, 4, 3, 2, 1, 0]⟩, 7⟩

/-- The log of its roots and of one more, which occurs nowhere. -/
def detourLog : TranslationLog ⟨Unit, Unit, Unit, Unit, Unit⟩ := Strategy.logOf [6, 5, 3, 4]

/-- Where the reduction starts. -/
def detourStart : Config RootPool Prover.Counters Indefinite :=
  ⟨roundabout, {}, ⟨.ofLog detourLog, {}, .indefinite⟩⟩

/-- The first candidate goes without 5 and is refuted. -/
theorem exists_round_detour : ∃ candidate y,
    Round (.recycling .unbounded) Prover.backend detourStart candidate y ∧
      Adopted detourStart y := by
  let o := (propose (.recycling .unbounded) roundabout).run detourStart.state
  have hproposed : o.answer = .ok (.ofList [0, 1, 4, 5, 6]) := by cbv
  have hattempted : ((attempt Prover.backend roundabout (.ofList [0, 1, 4, 5, 6]) {}).run
      o.state).answer.toOption.map (·.2.unsatisfiable) = some 1 := by decide +kernel
  cases hanswer : ((attempt Prover.backend roundabout (.ofList [0, 1, 4, 5, 6]) {}).run
      o.state).answer with
  | error e => rw [hanswer] at hattempted; cases hattempted
  | ok r =>
      rw [hanswer] at hattempted
      have hcount : r.2.unsatisfiable = 1 := Option.some.inj hattempted
      exact ⟨_, _, .intro ⟨hproposed, rfl⟩ rfl ⟨rfl, rfl⟩ ⟨hanswer, rfl⟩, hcount⟩

/-- The root 6 is passed over, and the root 5 is removed. -/
theorem removed_root_never_returns_detour :
    ((Prover.solve detour).run (({} : Prover.Counters), Indefinite.indefinite)).answer =
        .ok (.unsatisfiable roundabout) ∧
    ∃ candidate y, Round (.recycling .unbounded) Prover.backend detourStart candidate y ∧
      5 ∈ roundabout.coreUnits ∧ 6 ∉ roundabout.coreUnits ∧
      ∀ z, Course (.recycling .unbounded) Prover.backend y z →
        z.trace.Unmentioned 5 ∧ 6 ∉ z.trace.coreUnits := by
  have hsolve : ((Prover.solve detour).run (({} : Prover.Counters), Indefinite.indefinite)).answer =
      .ok (.unsatisfiable roundabout) := by cbv
  have hroots : ∀ v ∈ detourLog.rootVars, ∀ ls ∈ detour.clauses, ∀ l ∈ ls, l.var = v →
      ∀ k ∈ ls, k.var.index ≤ v.index := by decide +kernel
  obtain ⟨candidate, y, hround, hadopted⟩ := exists_round_detour
  obtain ⟨-, hrounds, hskips, -⟩ := removed_root_never_returns detourLog hroots
    (.recycling .unbounded) hsolve detourStart.state rfl detourStart .refl
  obtain ⟨skipped, r, htries, -, hremoved⟩ := hrounds candidate y hround
  obtain ⟨-, hgone⟩ := hremoved hadopted
  have hsix : 6 ∉ roundabout.coreUnits := by decide +kernel
  obtain ⟨v, hv, hvsix⟩ : ∃ v ∈ detourLog.rootVars, v.index = 6 := by decide +kernel
  -- the pool has lost 6 and 5, so the root that was tried is the latter
  have hr : r.index = 5 := by
    obtain ⟨-, ⟨-, hpool⟩, -⟩ := hround.continues Prover.sound_backend trivial
    have hrest : y.state.strategy.remaining.map (·.index) = [3, 4] := by
      rw [← hpool]
      cbv
    have hall : detourStart.state.strategy.remaining.map (·.index) = [6] ++ [5] ++ [3, 4] := by cbv
    rw [htries.pool_eq, List.map_append, List.map_cons, hrest, List.append_cons] at hall
    exact List.singleton_inj.mp (List.append_inj' (List.append_cancel_right hall) rfl).2
  refine ⟨hsolve, candidate, y, hround, by decide +kernel, hsix, fun z hz => ⟨hr ▸ hgone z hz, ?_⟩⟩
  rw [← hvsix] at hsix ⊢
  exact hskips v hv hsix z (hz.head ⟨candidate, hround⟩)

end Reduction

end ModelFinder
