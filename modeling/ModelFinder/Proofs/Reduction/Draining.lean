import Mathlib
import ModelFinder.Proofs.Reduction.Exchange

/-!
# How a pool drains

The strategies that drop one root after the other take roots from the front of their pool, and
never put one back.  A call skips the roots that the given refutation does not assert, and takes one
more: the first that it does assert.  If there is none, or if the refutation asserts nothing else,
the pool is emptied, and from then on nothing happens any more.

What a call does to the pool depends on the refutation alone, and not on what becomes of the
candidate: the pool has moved on by the time a candidate is refused.  So both strategies are of one
kind (`Strategy.Scans`), and a history of calls, each with a refutation of its own
(`Strategy.after`), is followed by what one call does (`Scans.drains`).

* `TranslationLog.mem_rootVars`, `TranslationLog.rootVars_pairwise`: the pool at the start.
* `Scans.after_suffix`: what a history of calls leaves is an end of what was there.
-/

namespace ModelFinder

/-! ### The roots of a log -/

section Log

variable {L : Logic}

/-- Whether this is a root record of the variable. -/
def TranslationRecord.isRoot (v : Variable) (r : TranslationRecord L) : Bool :=
  match r.origin with
  | .root _ => decide (r.var = v)
  | .declaration _ => false

namespace TranslationLog

variable {log : TranslationLog L} {v : Variable}

/-- The position of the first root record of a variable. -/
def firstRoot (log : TranslationLog L) (v : Variable) : Nat := log.records.findIdx (·.isRoot v)

theorem rootVarsOf_cons_root {w : Variable} {f : L.Formula}
    {records : List (TranslationRecord L)} :
    rootVarsOf (⟨w, .root f⟩ :: records) = w :: (rootVarsOf records).filter (· ≠ w) := rfl

theorem rootVarsOf_cons_declaration {w : Variable} {d : L.Declaration}
    {records : List (TranslationRecord L)} :
    rootVarsOf (⟨w, .declaration d⟩ :: records) = rootVarsOf records := rfl

/-- The roots are the variables with a root record. -/
theorem mem_rootVars : v ∈ log.rootVars ↔ ∃ r ∈ log.records, r.isRoot v = true := by
  rw [rootVars]
  generalize log.records = records
  induction records with
  | nil => exact ⟨fun h => absurd h List.not_mem_nil, fun ⟨_, h, _⟩ => absurd h List.not_mem_nil⟩
  | cons r records ih =>
      obtain ⟨w, origin⟩ := r
      simp only [List.mem_cons, exists_eq_or_imp]
      rw [← ih]
      cases origin with
      | declaration d =>
          rw [rootVarsOf_cons_declaration]
          exact ⟨.inr, fun h => h.resolve_left nofun⟩
      | root f =>
          have hroot : TranslationRecord.isRoot v ⟨w, .root f⟩ = true ↔ w = v := decide_eq_true_iff
          rw [rootVarsOf_cons_root, hroot, List.mem_cons, List.mem_filter, decide_eq_true_iff]
          by_cases h : v = w
          · exact iff_of_true (.inl h) (.inl h.symm)
          · exact ⟨fun hv => .inr (hv.resolve_left h).1, fun hv =>
              .inr ⟨hv.resolve_left fun e => h e.symm, h⟩⟩

/-- The roots come in the order of their first root record. -/
theorem rootVars_pairwise : log.rootVars.Pairwise (log.firstRoot · < log.firstRoot ·) := by
  unfold rootVars firstRoot
  generalize log.records = records
  induction records with
  | nil => exact .nil
  | cons r records ih =>
      obtain ⟨w, origin⟩ := r
      have hlater : ∀ {v : Variable}, TranslationRecord.isRoot v ⟨w, origin⟩ = false →
          (⟨w, origin⟩ :: records).findIdx (·.isRoot v) = records.findIdx (·.isRoot v) + 1 :=
        fun h => by
          rw [List.findIdx_cons, h]
          rfl
      cases origin with
      | declaration d =>
          rw [rootVarsOf_cons_declaration]
          refine ih.imp fun {v u} h => ?_
          rw [hlater rfl, hlater rfl]
          exact Nat.succ_lt_succ h
      | root f =>
          have hfirst : (⟨w, .root f⟩ :: records).findIdx (·.isRoot w) = 0 := by
            rw [List.findIdx_cons, TranslationRecord.isRoot, decide_eq_true rfl]
            rfl
          have hother : ∀ {v : Variable}, v ≠ w →
              TranslationRecord.isRoot v ⟨w, .root f⟩ = false := fun h =>
            decide_eq_false fun e => h e.symm
          rw [rootVarsOf_cons_root]
          refine List.pairwise_cons.mpr ⟨fun v hv => ?_, ?_⟩
          · have hv := of_decide_eq_true (List.mem_filter.mp hv).2
            rw [hfirst, hlater (hother hv)]
            exact Nat.succ_pos _
          · refine (ih.filter _).imp_of_mem fun {v u} hv hu h => ?_
            rw [hlater (hother (of_decide_eq_true (List.mem_filter.mp hv).2)),
              hlater (hother (of_decide_eq_true (List.mem_filter.mp hu).2))]
            exact Nat.succ_lt_succ h

end TranslationLog

end Log

/-! ### What is taken from a pool -/

/-- The core has a unit clause of the variable. -/
def Trace.Asserts (t : Trace) (v : Variable) : Prop :=
  ∃ i ∈ t.core, ∃ c s, t.get? i = some c ∧ c.clause.literals = [⟨v, s⟩]

theorem Trace.asserts_iff {t : Trace} {v : Variable} : t.Asserts v ↔ v.index ∈ t.coreUnits := by
  rw [mem_coreUnits]
  refine exists_congr fun i => and_congr_right fun _ => exists_congr fun c => ?_
  constructor
  · rintro ⟨s, hc, hliterals⟩
    have hmem : ⟨v, s⟩ ∈ c.clause := by rw [Clause.mem_def, hliterals]; exact List.mem_cons_self
    have hsize : c.clause.size = 1 := by rw [Clause.size, hliterals]; rfl
    exact ⟨v, hc, hsize, Clause.maxVariable?_of_size_eq_one hsize hmem, rfl⟩
  · rintro ⟨w, hc, hsize, hmax, hw⟩
    obtain ⟨l, hl⟩ := List.length_eq_one_iff.mp hsize
    obtain rfl : w = v := Variable.ext_index hw
    have hmem : l ∈ c.clause := by rw [Clause.mem_def, hl]; exact List.mem_cons_self
    rw [Clause.maxVariable?_of_size_eq_one hsize hmem] at hmax
    obtain rfl := Option.some.inj hmax
    exact ⟨l.positive, hc, hl⟩

namespace Strategy

/-! ### One call -/

theorem exists_mem_of_checkCandidate {t : Trace} {candidate : ClauseSet}
    (h : checkCandidate t candidate = .ok ()) : ∃ i, i ∈ candidate := by
  refine IndexSet.not_isEmpty_iff.mp fun hempty => ?_
  rw [checkCandidate, if_pos hempty] at h
  cases h

/-- A candidate is something, or refused. -/
theorem clausesFor_ne_empty {distance : ResolutionDistance} {t : Trace} {relevant : VariableSet} :
    clausesFor distance t relevant ≠ .ok ∅ := fun h => by
  obtain ⟨i, hi⟩ := exists_mem_of_checkCandidate (clausesFor_eq_ok.mp h).1
  exact IndexSet.not_mem_empty hi

/-- What a call does to the roots in the pool, by the answer that it gives. -/
inductive Drains (t : Trace) : List Variable → Except Violation ClauseSet → List Variable → Prop
  | spent {vs : List Variable} : Drains t vs (.ok ∅) []
  | took {skipped rest : List Variable} {v : Variable} {answer : Except Violation ClauseSet}
      (asserts : t.Asserts v) (skips : ∀ w ∈ skipped, ¬ t.Asserts w) (ne : answer ≠ .ok ∅) :
      Drains t (skipped ++ v :: rest) answer rest

namespace Drains

variable {t : Trace} {vs rest : List Variable} {answer : Except Violation ClauseSet}

theorem suffix (h : Drains t vs answer rest) : rest <:+ vs := by
  cases h with
  | spent => exact List.nil_suffix
  | took => exact (List.suffix_cons _ _).trans (List.suffix_append _ _)

theorem exists_eq_append (h : Drains t vs answer rest) (hanswer : answer ≠ .ok ∅) :
    ∃ skipped v, vs = skipped ++ v :: rest ∧ t.Asserts v ∧ ∀ w ∈ skipped, ¬ t.Asserts w := by
  cases h with
  | spent => exact absurd rfl hanswer
  | took asserts skips => exact ⟨_, _, rfl, asserts, skips⟩

theorem eq_nil (h : Drains t vs answer rest) (hanswer : answer = .ok ∅) : rest = [] := by
  cases h with
  | spent => rfl
  | took _ _ ne => exact absurd hanswer ne

end Drains

namespace Scans

variable {strategy : Strategy RootPool} {distance : ResolutionDistance}

theorem drains (h : strategy.Scans distance) (t : Trace) (pool : RootPool) :
    Drains t pool.remaining (strategy.next t pool).answer
      (strategy.next t pool).state.remaining := by
  rcases hconsume : pool.consume t.coreUnits with ⟨_ | others, rest⟩
  · rw [h.none hconsume, RootPool.remaining_spent]
    exact .spent
  · obtain ⟨hanswer, hstate⟩ := h.some hconsume
    obtain ⟨skipped, v, hvs, hv, hskipped, -⟩ := RootPool.eq_append_of_consume hconsume
    rw [hanswer, hstate, hvs]
    exact .took (Trace.asserts_iff.mpr hv)
      (fun w hw => mt Trace.asserts_iff.mp (hskipped w hw)) clausesFor_ne_empty

/-- Nothing happens any more when there are no roots left. -/
theorem next_nil (h : strategy.Scans distance) (t : Trace) {pool : RootPool}
    (hnil : pool.remaining = []) : strategy.next t pool = ⟨.ok ∅, pool, []⟩ := by
  have hle := of_decide_eq_true (RootPool.isExhausted_iff.mpr hnil)
  rw [h.none (RootPool.consume_of_le (Nat.not_lt.mpr hle)), RootPool.spent_eq_self hnil]

end Scans

/-! ### Histories -/

/-- The state of a strategy after calls with these refutations, whatever they answered. -/
def after {κ : Type} (strategy : Strategy κ) (k : κ) (ts : List Trace) : κ :=
  ts.foldl (fun k t => (strategy.next t k).state) k

namespace Scans

variable {strategy : Strategy RootPool} {distance : ResolutionDistance}

theorem after_suffix (h : strategy.Scans distance) (pool : RootPool) (ts : List Trace) :
    (strategy.after pool ts).remaining <:+ pool.remaining := by
  induction ts generalizing pool with
  | nil => exact List.suffix_refl _
  | cons t ts ih => exact (ih (strategy.next t pool).state).trans (h.drains t pool).suffix

theorem after_nil (h : strategy.Scans distance) {pool : RootPool} (hnil : pool.remaining = [])
    (ts : List Trace) : strategy.after pool ts = pool := by
  induction ts with
  | nil => rfl
  | cons t ts ih =>
      show strategy.after (strategy.next t pool).state ts = _
      rw [h.next_nil t hnil]
      exact ih

end Scans

/-- The strategies that drop one root after the other. -/
inductive IsRootwise : Strategy RootPool → Prop
  | recycling (distance : ResolutionDistance) : IsRootwise (recycling distance)
  | naive : IsRootwise naive

theorem IsRootwise.exists_scans {strategy : Strategy RootPool} (h : strategy.IsRootwise) :
    ∃ distance, strategy.Scans distance := by
  cases h with
  | recycling distance => exact ⟨distance, scans_recycling distance⟩
  | naive => exact ⟨_, scans_naive⟩

/-- **Pools drain, and stay empty.**  At the start a pool has the roots of the log, in the order of
their first record.  After any calls, one more call leaves an end of the pool.  If it proposes
something or fails, the root that comes before this end is asserted by the refutation, and those
which were skipped are not.  If it has no candidate, the pool is empty, and later calls have none
either and change nothing. -/
theorem drains_after {L : Logic} (log : TranslationLog L) {strategy : Strategy RootPool}
    (h : strategy.IsRootwise) :
    ((∀ v, v ∈ (RootPool.ofLog log).remaining ↔ ∃ r ∈ log.records, r.isRoot v = true) ∧
      (RootPool.ofLog log).remaining.Pairwise (log.firstRoot · < log.firstRoot ·)) ∧
    ∀ (ts : List Trace) (t : Trace),
      let pool := strategy.after (.ofLog log) ts
      let o := strategy.next t pool
      pool.remaining <:+ log.rootVars ∧ o.state.remaining <:+ pool.remaining ∧
      (o.answer ≠ .ok ∅ → ∃ skipped v, pool.remaining = skipped ++ v :: o.state.remaining ∧
        t.Asserts v ∧ ∀ w ∈ skipped, ¬ t.Asserts w) ∧
      (o.answer = .ok ∅ → o.state.remaining = [] ∧
        ∀ ts' t', strategy.next t' (strategy.after o.state ts') = ⟨.ok ∅, o.state, []⟩) := by
  obtain ⟨distance, hscans⟩ := h.exists_scans
  refine ⟨⟨fun v => TranslationLog.mem_rootVars, TranslationLog.rootVars_pairwise⟩, ?_⟩
  intro ts t pool o
  have hdrains : Drains t pool.remaining o.answer o.state.remaining := hscans.drains t pool
  refine ⟨hscans.after_suffix _ ts, hdrains.suffix, hdrains.exists_eq_append, fun hanswer => ?_⟩
  have hnil : o.state.remaining = [] := hdrains.eq_nil hanswer
  refine ⟨hnil, fun ts' t' => ?_⟩
  rw [hscans.after_nil hnil, hscans.next_nil t' hnil]

/-- A log with the records of these roots. -/
def logOf (roots : List Int) : TranslationLog ⟨Unit, Unit, Unit, Unit, Unit⟩ :=
  .filled 0 <| (roots.filterMap Literal.ofDimacs?).map fun l => ⟨l.var, .root ()⟩

/-- A refutation of three roots and a clause against them; two of the roots are resolved first. -/
def threeRoots : Trace :=
  let clause (codes : List Int) : Clause := .ofList (codes.filterMap Literal.ofDimacs?)
  ⟨#[⟨0, clause [1], []⟩, ⟨1, clause [2], []⟩, ⟨2, clause [3], []⟩, ⟨3, clause [-1, -2, -3], []⟩,
    ⟨4, clause [-1], [3, 1, 2]⟩, ⟨5, .empty, [0, 4]⟩], 4⟩

/-- The root 7 is skipped, as the refutation does not assert it, and the root 2 is taken.  Two more
calls leave nothing, and the fourth one finds no candidate. -/
theorem drains_after_three_roots :
    let strategy := recycling .unbounded
    let start := RootPool.ofLog (logOf [7, 2, 1, 3, 2])
    let first := strategy.next threeRoots start
    let fourth := strategy.next threeRoots
      (strategy.after start [threeRoots, threeRoots, threeRoots])
    first.state.remaining.map (·.index) = [1, 3] ∧
      (∃ skipped v, start.remaining = skipped ++ v :: first.state.remaining ∧
        threeRoots.Asserts v ∧ ∀ w ∈ skipped, ¬ threeRoots.Asserts w) ∧
      fourth.answer = .ok ∅ ∧ fourth.state.remaining = [] ∧
        ∀ ts t, strategy.next t (strategy.after fourth.state ts) = ⟨.ok ∅, fourth.state, []⟩ := by
  intro strategy start first fourth
  have hdrains := (drains_after (logOf [7, 2, 1, 3, 2]) (.recycling .unbounded)).2
  obtain ⟨-, -, htook, hspent⟩ := hdrains [] threeRoots
  have hrest : first.state.remaining.map (·.index) = [1, 3] := by cbv
  have hanswer : first.answer ≠ .ok ∅ := fun h => by
    have hnil : first.state.remaining = [] := (hspent h).1
    rw [hnil] at hrest
    cases hrest
  have hnone : fourth.answer = .ok ∅ := by cbv
  exact ⟨hrest, htook hanswer, hnone, (hdrains _ threeRoots).2.2.2 hnone⟩

end Strategy

end ModelFinder
