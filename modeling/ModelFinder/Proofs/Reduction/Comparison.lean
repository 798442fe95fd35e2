import ModelFinder.Proofs.Reduction.Draining

/-!
# Recycling and naive candidates

The two strategies differ in what they propose for the roots that are left, and in nothing else: the
naive strategy is the recycling one at a distance of 0 (`Strategy.scans_naive`).  So two histories
of calls with the same refutations leave the same pools (`Strategy.Scans.after_eq`), and only the
candidates of one call have to be compared.

A recycled candidate holds the input clauses of the naive one and resolvents that are learned from
them.  No input clause is learned, so the naive candidate can be read off
(`Strategy.retain_isAxiom_learned`); and in a sound refutation whatever satisfies a set of input
clauses satisfies what is learned from them (`Strategy.satisfiedAt_learned_iff`).

A distance can only add to a candidate, and a smaller candidate is refused less often; the converse
is not true, as a recycled candidate may reach up to the terminal clause.
-/

namespace ModelFinder

/-- The valuation satisfies the clauses at these positions. -/
def Trace.SatisfiedAt (t : Trace) (s : ClauseSet) (f : Valuation) : Prop :=
  ∀ i ∈ s, ∀ c, t.get? i = some c → f.Satisfies c.clause.literals

namespace Strategy

variable {t : Trace} {distance : ResolutionDistance} {others : VariableSet} {c : ClauseSet}

/-! ### One candidate -/

/-- The input clauses of what is learned are those it was learned from. -/
theorem retain_isAxiom_learned (ht : t.WellFormed) (distance : ResolutionDistance)
    (others : VariableSet) :
    (learned distance t (t.axiomsFor others)).retain t.isAxiom = t.axiomsFor others := by
  have hlearns := learns_learned ht distance (t.axiomsFor others)
  refine IndexSet.ext_mem fun i => ?_
  rw [IndexSet.mem_retain, Trace.isAxiom, decide_eq_true_iff]
  constructor
  · rintro ⟨hi, hlt⟩
    exact (hlearns.derived i hi).resolve_right fun h => absurd hlt (Nat.not_lt.mpr h.1)
  · exact fun hi => ⟨hlearns.subset i hi, Trace.lt_of_mem_axiomsFor ht hi⟩

/-- **Recycled resolvents ask for nothing more**: they follow from the input clauses. -/
theorem satisfiedAt_learned_iff (ht : t.WellFormed) (hs : t.IsSound)
    (distance : ResolutionDistance) (others : VariableSet) (f : Valuation) :
    t.SatisfiedAt (learned distance t (t.axiomsFor others)) f ↔
      t.SatisfiedAt (t.axiomsFor others) f := by
  have hlearns := learns_learned ht distance (t.axiomsFor others)
  have hclosed := hlearns.closed
    (Trace.closed_of_lt_numAxioms ht fun _ => Trace.lt_of_mem_axiomsFor ht)
  constructor
  · exact fun hf i hi => hf i (hlearns.subset i hi)
  · intro hf i hi d hd
    refine hs.satisfies_of_closed ht hclosed (fun {j e} he hlt hj => ?_) hd hi
    exact hf j ((hlearns.derived j hj).resolve_right fun h =>
      absurd hlt (Nat.not_lt.mpr h.1)) e he

/-- If a recycled candidate is accepted, so are its input clauses. -/
theorem checkCandidate_axiomsFor (ht : t.WellFormed) (hothers : ∃ n, n ∈ others)
    (hsub : ∀ n ∈ others, n ∈ t.coreUnits)
    (h : checkCandidate t (learned distance t (t.axiomsFor others)) = .ok ()) :
    checkCandidate t (t.axiomsFor others) = .ok () := by
  obtain ⟨n, hn⟩ := hothers
  refine checkCandidate_eq_ok (exists_mem_axiomsFor ht hn hsub) fun i hi => ?_
  exact lt_terminal_of_checkCandidate h i ((learns_learned ht distance _).subset i hi)

/-! ### Two histories -/

/-- What is left of a pool does not depend on the distance. -/
theorem Scans.state_next_eq {strategy strategy' : Strategy RootPool}
    {distance distance' : ResolutionDistance} (h : strategy.Scans distance)
    (h' : strategy'.Scans distance') (t : Trace) (pool : RootPool) :
    (strategy.next t pool).state = (strategy'.next t pool).state := by
  rcases hconsume : pool.consume t.coreUnits with ⟨_ | others, rest⟩
  · rw [h.none hconsume, h'.none hconsume]
  · rw [(h.some hconsume).2, (h'.some hconsume).2]

theorem Scans.after_eq {strategy strategy' : Strategy RootPool}
    {distance distance' : ResolutionDistance} (h : strategy.Scans distance)
    (h' : strategy'.Scans distance') (pool : RootPool) (ts : List Trace) :
    strategy.after pool ts = strategy'.after pool ts := by
  induction ts generalizing pool with
  | nil => rfl
  | cons t ts ih =>
      show strategy.after (strategy.next t pool).state ts = _
      rw [h.state_next_eq h' t pool]
      exact ih _

/-- **The two strategies go together.**  After the same history of calls, one more call leaves them
with the same pool, and one of them is out of candidates when the other one is.  The naive candidate
is made of the input clauses of the recycled one; if the refutation is sound, the two are satisfied
by the same valuations.  At a distance of 0 the answers are the same. -/
theorem recycling_follows_naive {L : Logic} (log : TranslationLog L)
    (distance : ResolutionDistance) (ts : List Trace) {t : Trace} (ht : t.WellFormed) :
    let pool := (recycling distance).after (.ofLog log) ts
    let pool' := naive.after (.ofLog log) ts
    let o := (recycling distance).next t pool
    let o' := naive.next t pool'
    pool.remaining = pool'.remaining ∧ o.state.remaining = o'.state.remaining ∧
      (o.answer = .ok ∅ ↔ o'.answer = .ok ∅) ∧
      (∀ c, o.answer = .ok c → c ≠ ∅ → o'.answer = .ok (c.retain t.isAxiom) ∧
        (t.IsSound → ∀ f, t.SatisfiedAt c f ↔ t.SatisfiedAt (c.retain t.isAxiom) f)) ∧
      (distance = .bounded 0 → o.answer = o'.answer) := by
  intro pool pool' o o'
  have hrecycling := scans_recycling distance
  have hpool : pool = pool' := hrecycling.after_eq scans_naive _ ts
  have hstate : o.state = o'.state := by
    show o.state = (naive.next t pool').state
    rw [← hpool]
    exact hrecycling.state_next_eq scans_naive t pool
  refine ⟨congrArg _ hpool, congrArg _ hstate, ?_⟩
  rcases hconsume : pool.consume t.coreUnits with ⟨_ | others, rest⟩
  · have ho : o.answer = .ok ∅ := congrArg Outcome.answer (hrecycling.none hconsume)
    have ho' : o'.answer = .ok ∅ := congrArg Outcome.answer (scans_naive.none (hpool ▸ hconsume))
    refine ⟨iff_of_true ho ho', fun c hc hne => ?_, fun _ => ho.trans ho'.symm⟩
    exact absurd (Except.ok.inj (hc.symm.trans ho)) hne
  · have ho : o.answer = clausesFor distance t others := (hrecycling.some hconsume).1
    have ho' : o'.answer = clausesFor (.bounded 0) t others :=
      (scans_naive.some (hpool ▸ hconsume)).1
    refine ⟨iff_of_false ?_ ?_, fun c hc _ => ?_, fun hzero => ?_⟩
    · rw [ho]; exact clausesFor_ne_empty
    · rw [ho']; exact clausesFor_ne_empty
    · obtain ⟨hcheck, rfl⟩ := clausesFor_eq_ok.mp (ho.symm.trans hc)
      obtain ⟨-, r, -, -, -, heq, hothers⟩ := RootPool.eq_append_of_consume hconsume
      have hsub : ∀ n ∈ others, n ∈ t.coreUnits := fun n hn =>
        (IndexSet.mem_remove.mp (heq ▸ hn)).1
      have hnaive := checkCandidate_axiomsFor ht hothers hsub hcheck
      rw [retain_isAxiom_learned ht]
      refine ⟨ho'.trans (clausesFor_eq_ok.mpr ⟨hnaive, (learned_zero t _).symm⟩), fun hs f => ?_⟩
      exact satisfiedAt_learned_iff ht hs distance others f
    · rw [ho, ho', hzero]

/-- A refutation along a chain of implications, from the root 1 to the root 4. -/
def chainOfRoots : Trace :=
  let clause (codes : List Int) : Clause := .ofList (codes.filterMap Literal.ofDimacs?)
  ⟨#[⟨0, clause [1], []⟩, ⟨1, clause [-1, 2], []⟩, ⟨2, clause [-2, 3], []⟩,
    ⟨3, clause [-3, -4], []⟩, ⟨4, clause [4], []⟩, ⟨5, clause [2], [0, 1]⟩, ⟨6, clause [3], [5, 2]⟩,
    ⟨7, clause [-4], [6, 3]⟩, ⟨8, .empty, [7, 4]⟩], 5⟩

theorem wellFormed_chainOfRoots : chainOfRoots.WellFormed := by
  have hall : ∀ i c, chainOfRoots.get? i = some c → c.index = i ∧
      (c.antecedents = [] ↔ i < chainOfRoots.numAxioms) ∧ ∀ a ∈ c.antecedents, a < i := by
    intro i c hc
    have hi : i < 9 := Trace.get?_lt hc
    interval_cases i
    all_goals
      obtain rfl := Option.some.inj hc
      decide
  exact ⟨by decide, fun h => (hall _ _ h).1, fun h => (hall _ _ h).2.1, fun h => (hall _ _ h).2.2⟩

theorem isProof_chainOfRoots : chainOfRoots.IsProof := by
  intro i c hc hle
  have hi : i < 9 := Trace.get?_lt hc
  have hle : 5 ≤ i := hle
  interval_cases i
  all_goals
    obtain rfl := Option.some.inj hc
    exact ⟨_, rfl, by decide⟩

/-- Without the root 1, one step of resolution is recycled beside all input clauses.  All of them
are in the naive candidate, and the two have the same models. -/
theorem recycling_follows_naive_chain :
    let log := logOf [1, 4]
    ((recycling (.bounded 1)).next chainOfRoots (.ofLog log)).answer =
        .ok (.ofList [0, 1, 2, 3, 4, 5]) ∧
      (naive.next chainOfRoots (.ofLog log)).answer = .ok (.ofList [0, 1, 2, 3, 4]) ∧
      ∀ f, chainOfRoots.SatisfiedAt (.ofList [0, 1, 2, 3, 4, 5]) f ↔
        chainOfRoots.SatisfiedAt (.ofList [0, 1, 2, 3, 4]) f := by
  intro log
  obtain ⟨-, -, -, hcandidate, -⟩ :=
    recycling_follows_naive log (.bounded 1) [] wellFormed_chainOfRoots
  have hrecycled : ((recycling (.bounded 1)).next chainOfRoots (.ofLog log)).answer =
      .ok (.ofList [0, 1, 2, 3, 4, 5]) := by cbv
  obtain ⟨hnaive, hsatisfied⟩ := hcandidate _ hrecycled (by decide)
  have hinputs : (IndexSet.ofList [0, 1, 2, 3, 4, 5]).retain chainOfRoots.isAxiom =
      .ofList [0, 1, 2, 3, 4] := by decide
  rw [hinputs] at hnaive hsatisfied
  exact ⟨hrecycled, hnaive, hsatisfied isProof_chainOfRoots.isSound⟩

end Strategy

end ModelFinder
