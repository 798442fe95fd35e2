import Mathlib
import ModelFinder.Proofs.Trace.Selection

/-!
# What a builder accepts

A construction is a builder after a sequence of calls, any of which may have been refused, together
with the additions that were accepted (`Trace.Construction`).  An addition follows on what has been
accepted if it is an input clause and no derived clause is there yet, or if it is derived from
clauses which are there, at least one (`Addition.FollowsOn`).

Between two calls the builder holds the accepted additions and nothing else: the clause at a
position is the one which the addition in this place of the list asks for, and together they are
well-formed (`Construction.Made`).  One call keeps this, refused or not (`Made.call`), and so does
every sequence of them (`made_after`).

* `Builder.attempt_eq`: a refused call leaves the builder as it was.
* `Made.attempt_of_followsOn`, `Made.attempt_of_not_followsOn`: which calls are accepted.
* `Made.exists_build_iff`: when the trace can be finished.
* `WellFormed.mem_axiomSet`, `WellFormed.mem_resolventSet`, `maxVariable?_eq_some_iff`: what the
  queries of a trace answer.
-/

namespace ModelFinder

namespace Trace

/-! ### The queries of a well-formed trace -/

namespace WellFormed

variable {t : Trace} {i : Nat} {c : TraceClause}

theorem isAxiom_eq (ht : t.WellFormed) (h : t.get? i = some c) : t.isAxiom i = c.isAxiom := by
  rw [isAxiom, TraceClause.isAxiom, Bool.eq_iff_iff, decide_eq_true_iff, List.isEmpty_iff]
  exact (ht.isAxiom_iff h).symm

theorem mem_axiomSet (ht : t.WellFormed) : i ∈ t.axiomSet ↔ i < t.numAxioms := by
  rw [axiomSet, IndexSet.mem_ofList, List.mem_map]
  constructor
  · rintro ⟨c, hc, rfl⟩
    obtain ⟨j, hj, hget⟩ := mem_inputs_iff.mp hc
    rwa [ht.index_eq hget]
  · intro hi
    obtain ⟨c, hc⟩ := exists_get? (Nat.lt_of_lt_of_le hi ht.numAxioms_le)
    exact ⟨c, mem_inputs_iff.mpr ⟨i, hi, hc⟩, ht.index_eq hc⟩

theorem mem_resolventSet (ht : t.WellFormed) :
    i ∈ t.resolventSet ↔ t.numAxioms ≤ i ∧ i < t.size := by
  rw [resolventSet, IndexSet.mem_ofList, List.mem_map]
  constructor
  · rintro ⟨c, hc, rfl⟩
    obtain ⟨j, hj, hget⟩ := mem_derived_iff.mp hc
    rw [ht.index_eq hget]
    exact ⟨hj, get?_lt hget⟩
  · rintro ⟨hle, hlt⟩
    obtain ⟨c, hc⟩ := exists_get? hlt
    exact ⟨c, mem_derived_iff.mpr ⟨i, hle, hc⟩, ht.index_eq hc⟩

end WellFormed

/-! ### The largest variable of a trace -/

/-- The variable occurs in one of the clauses, and no larger one does in any of them. -/
def IsLargestIn (cs : List TraceClause) (v : Variable) : Prop :=
  (∃ c ∈ cs, ∃ l ∈ c.clause, l.var = v) ∧ ∀ c ∈ cs, ∀ l ∈ c.clause, l.var.index ≤ v.index

/-- What a pass over the clauses knows: none of them has a literal, or the largest variable. -/
def Largest (cs : List TraceClause) : Option Variable → Prop
  | none => ∀ c ∈ cs, c.clause = .empty
  | some v => IsLargestIn cs v

theorem largest_clause (c : TraceClause) : Largest [c] c.clause.maxVariable? := by
  cases h : c.clause.maxVariable? with
  | none =>
      intro d hd
      obtain rfl := List.mem_singleton.mp hd
      exact Clause.isEmpty_iff.mp
        (List.isEmpty_iff.mpr (List.getLast?_eq_none_iff.mp (Option.map_eq_none_iff.mp h)))
  | some v =>
      obtain ⟨hl, hle⟩ := Clause.maxVariable?_eq_some h
      refine ⟨⟨c, List.mem_singleton_self c, hl⟩, fun d hd => ?_⟩
      obtain rfl := List.mem_singleton.mp hd
      exact hle

/-- The larger variable of two parts is the largest one of both. -/
theorem Largest.append {cs ds : List TraceClause} {v w : Option Variable} (hv : Largest cs v)
    (hw : Largest ds w) : Largest (cs ++ ds) (largerVariable v w) := by
  have hempty : ∀ {es : List TraceClause} {n : Nat}, (∀ c ∈ es, c.clause = .empty) →
      ∀ c ∈ es, ∀ l ∈ c.clause, l.var.index ≤ n := by
    intro es n hes c hc l hl
    rw [hes c hc] at hl
    exact absurd hl List.not_mem_nil
  cases v with
  | none =>
      cases w with
      | none => exact List.forall_mem_append.mpr ⟨hv, hw⟩
      | some w =>
          obtain ⟨⟨c, hc, hl⟩, hle⟩ := hw
          exact ⟨⟨c, List.mem_append_right cs hc, hl⟩,
            List.forall_mem_append.mpr ⟨hempty hv, hle⟩⟩
  | some v =>
      obtain ⟨⟨c, hc, hl⟩, hle⟩ := hv
      cases w with
      | none =>
          exact ⟨⟨c, List.mem_append_left ds hc, hl⟩,
            List.forall_mem_append.mpr ⟨hle, hempty hw⟩⟩
      | some w =>
          obtain ⟨⟨d, hd, hk⟩, hle'⟩ := hw
          show IsLargestIn (cs ++ ds) (if v.index < w.index then w else v)
          split
          next hlt =>
            refine ⟨⟨d, List.mem_append_right cs hd, hk⟩, List.forall_mem_append.mpr ⟨?_, hle'⟩⟩
            exact fun e he l hl => Nat.le_of_lt (Nat.lt_of_le_of_lt (hle e he l hl) hlt)
          next hge =>
            refine ⟨⟨c, List.mem_append_left ds hc, hl⟩, List.forall_mem_append.mpr ⟨hle, ?_⟩⟩
            exact fun e he l hl => Nat.le_trans (hle' e he l hl) (Nat.le_of_not_lt hge)

theorem largest_maxVariable? (t : Trace) : Largest t.clauses.toList t.maxVariable? := by
  -- The pass has seen `cs` and has `ds` to go.
  have hfold : ∀ (ds cs : List TraceClause) (v : Option Variable), Largest cs v →
      Largest (cs ++ ds) (ds.foldl (fun v c => largerVariable v c.clause.maxVariable?) v) := by
    intro ds
    induction ds with
    | nil => intro cs v h; rwa [List.append_nil]
    | cons d ds ih =>
        intro cs v h
        rw [List.foldl_cons, List.append_cons]
        exact ih (cs ++ [d]) _ (h.append (largest_clause d))
  exact hfold t.clauses.toList [] none fun c hc => absurd hc List.not_mem_nil

theorem maxVariable?_eq_some_iff {t : Trace} {v : Variable} :
    t.maxVariable? = some v ↔ IsLargestIn t.clauses.toList v := by
  have hlargest := largest_maxVariable? t
  constructor
  · intro h; rwa [h] at hlargest
  · rintro ⟨⟨c, hc, l, hl, rfl⟩, hle⟩
    cases h : t.maxVariable? with
    | none =>
        rw [h] at hlargest
        rw [hlargest c hc] at hl
        exact absurd hl List.not_mem_nil
    | some w =>
        rw [h] at hlargest
        obtain ⟨⟨d, hd, k, hk, rfl⟩, hle'⟩ := hlargest
        exact congrArg some
          (Variable.ext_index (Nat.le_antisymm (hle d hd k hk) (hle' c hc l hl)))

theorem maxVariable?_eq_none_iff {t : Trace} :
    t.maxVariable? = none ↔ ∀ c ∈ t.clauses.toList, c.clause = .empty := by
  have hlargest := largest_maxVariable? t
  constructor
  · intro h; rwa [h] at hlargest
  · intro hempty
    cases h : t.maxVariable? with
    | none => rfl
    | some v =>
        rw [h] at hlargest
        obtain ⟨⟨c, hc, l, hl, -⟩, -⟩ := hlargest
        rw [hempty c hc] at hl
        exact absurd hl List.not_mem_nil

/-! ### Additions that may come next -/

namespace Addition

/-- The literals of the new clause. -/
def literals : Addition → List Literal
  | .input literals => literals
  | .resolvent literals _ => literals

/-- What the new clause is resolved from: nothing, if it is an input clause. -/
def antecedents : Addition → List Nat
  | .input _ => []
  | .resolvent _ antecedents => antecedents

/-- The new clause at its position. -/
def clauseAt (a : Addition) (i : Nat) : TraceClause := ⟨i, .ofList a.literals, a.antecedents⟩

/-- The addition may come after these: no input clause follows a derived one, and a derived clause
has antecedents, which are all there. -/
def FollowsOn (done : List Addition) : Addition → Prop
  | .input _ => ∀ d ∈ done, d.antecedents = []
  | .resolvent _ antecedents => antecedents ≠ [] ∧ ∀ a ∈ antecedents, a < done.length

instance (done : List Addition) (a : Addition) : Decidable (a.FollowsOn done) :=
  match a with
  | .input _ => inferInstanceAs (Decidable (∀ d ∈ done, d.antecedents = []))
  | .resolvent _ antecedents =>
    inferInstanceAs (Decidable (antecedents ≠ [] ∧ ∀ a ∈ antecedents, a < done.length))

end Addition

/-! ### Calls of a builder -/

namespace Builder

variable {b : Builder} {a : Addition}

/-- **A failed addition leaves the builder as it was.**  What is written is only written after the
last check. -/
theorem Action.state_of_add_eq_error {e : Violation}
    (h : ((Action.add a).run b).answer = .error e) : ((Action.add a).run b).state = b := by
  revert h
  cases a with
  | input literals =>
      unfold Action.add
      rw [Action.run_addAxiom]
      split
      next => exact fun _ => rfl
      next => exact nofun
  | resolvent literals antecedents =>
      unfold Action.add
      rw [Action.run_addResolvent]
      split
      next => exact fun _ => rfl
      next =>
        split
        next => exact fun _ => rfl
        next => exact nofun

/-- An attempt ends as the addition does; the builder is the one it makes, or the one there was. -/
theorem attempt_eq (b : Builder) (a : Addition) :
    b.attempt a =
      match b.add a with
      | .ok (c, b') => (.ok c.index, b')
      | .error e => (.error e, b) := by
  have hstate (e : Violation) := Action.state_of_add_eq_error (b := b) (a := a) (e := e)
  unfold attempt add Action.completed
  generalize (Action.add a).run b = o at hstate
  obtain ⟨e | c, b', notes⟩ := o
  · exact Prod.ext rfl (hstate e rfl)
  · rfl

end Builder

/-! ### Constructions -/

/-- A builder and the additions which it has accepted, in order. -/
structure Construction where
  builder : Builder
  accepted : List Addition
deriving DecidableEq

namespace Construction

/-- One more call, which may be refused. -/
def call (s : Construction) (a : Addition) : Construction :=
  match s.builder.attempt a with
  | (.ok _, b) => ⟨b, s.accepted ++ [a]⟩
  | (.error _, b) => ⟨b, s.accepted⟩

/-- A new builder after a sequence of calls. -/
def after (calls : List Addition) : Construction := calls.foldl call ⟨.empty, []⟩

/-- The builder holds the accepted additions, each at its position, and is well-formed. -/
structure Made (s : Construction) : Prop where
  wellFormed : s.builder.trace.WellFormed
  get?_eq : ∀ i, s.builder.trace.get? i = s.accepted[i]?.map (·.clauseAt i)

namespace Made

variable {s : Construction} {a : Addition}

theorem size_eq (h : s.Made) : s.builder.size = s.accepted.length := by
  have hiff : ∀ i, s.builder.size ≤ i ↔ s.accepted.length ≤ i := fun i => by
    rw [← List.getElem?_eq_none_iff, ← Option.map_eq_none_iff (f := (·.clauseAt i)), ← h.get?_eq i]
    exact Array.getElem?_eq_none_iff.symm
  exact Nat.le_antisymm ((hiff _).mpr (Nat.le_refl _)) ((hiff _).mp (Nat.le_refl _))

/-- There is room for input clauses as long as no derived clause has been accepted. -/
theorem size_le_numAxioms_iff (h : s.Made) :
    s.builder.size ≤ s.builder.numAxioms ↔ ∀ d ∈ s.accepted, d.antecedents = [] := by
  constructor
  · intro hle d hd
    obtain ⟨i, hi⟩ := List.mem_iff_getElem?.mp hd
    have hget : s.builder.trace.get? i = some (d.clauseAt i) := by rw [h.get?_eq, hi]; rfl
    exact (h.wellFormed.isAxiom_iff hget).mpr (Nat.lt_of_lt_of_le (get?_lt hget) hle)
  · intro hall
    refine Nat.le_of_not_lt fun hlt => ?_
    obtain ⟨c, hc⟩ := exists_get? (t := s.builder.trace) hlt
    obtain ⟨d, hd, rfl⟩ := Option.map_eq_some_iff.mp ((h.get?_eq _).symm.trans hc)
    have hd := hall d (List.mem_of_getElem? hd)
    exact absurd ((h.wellFormed.isAxiom_iff hc).mp hd) (Nat.lt_irrefl _)

/-- A clause at the end is the one of the new addition. -/
theorem get?_push (h : s.Made) (a : Addition) (n i : Nat) :
    Trace.get? ⟨s.builder.clauses.push (a.clauseAt s.builder.size), n⟩ i =
      (s.accepted ++ [a])[i]?.map (·.clauseAt i) := by
  show (s.builder.clauses.push _)[i]? = _
  rw [Array.getElem?_push]
  have hsize : s.builder.clauses.size = s.accepted.length := h.size_eq
  split
  next hi => rw [hi, hsize, List.getElem?_concat_length]; simp [h.size_eq]
  next hi =>
    refine (h.get?_eq i).trans (congrArg _ ?_)
    rcases Nat.lt_or_gt_of_ne (hsize ▸ hi) with hlt | hgt
    · rw [List.getElem?_append_left hlt]
    · rw [List.getElem?_eq_none (Nat.le_of_lt hgt), List.getElem?_eq_none]
      rw [List.length_append, List.length_singleton]
      exact hgt

/-- An addition that follows on the others is accepted. -/
theorem exists_add (h : s.Made) (ha : a.FollowsOn s.accepted) :
    ∃ b, s.builder.add a = .ok (a.clauseAt s.accepted.length, b) ∧ Made ⟨b, s.accepted ++ [a]⟩ := by
  cases a with
  | input literals =>
      have hadd : s.builder.addAxiom literals = .ok (_, _) :=
        Builder.addAxiom_eq_ok.mpr ⟨h.size_le_numAxioms_iff.mpr ha, rfl, rfl⟩
      exact ⟨_, h.size_eq ▸ hadd, h.wellFormed.addAxiom hadd, h.get?_push (.input literals) _⟩
  | resolvent literals antecedents =>
      obtain ⟨hne, hlt⟩ := ha
      have hadd : s.builder.addResolvent literals antecedents = .ok (_, _) :=
        Builder.addResolvent_eq_ok.mpr ⟨hne, fun a ha => h.size_eq ▸ hlt a ha, rfl, rfl⟩
      exact ⟨_, h.size_eq ▸ hadd, h.wellFormed.addResolvent hadd,
        h.get?_push (.resolvent literals antecedents) _⟩

/-- Any other addition is refused. -/
theorem exists_error (h : s.Made) (ha : ¬ a.FollowsOn s.accepted) :
    ∃ e, s.builder.add a = .error e := by
  cases hadd : s.builder.add a with
  | error e => exact ⟨e, rfl⟩
  | ok r =>
      refine absurd ?_ ha
      cases a with
      | input literals => exact h.size_le_numAxioms_iff.mp (Builder.addAxiom_eq_ok.mp hadd).1
      | resolvent literals antecedents =>
          obtain ⟨hne, hlt, -⟩ := Builder.addResolvent_eq_ok.mp hadd
          exact ⟨hne, fun a ha => h.size_eq ▸ hlt a ha⟩

theorem attempt_of_followsOn (h : s.Made) (ha : a.FollowsOn s.accepted) :
    s.builder.attempt a = (.ok s.accepted.length, (s.call a).builder) ∧
      (s.call a).accepted = s.accepted ++ [a] ∧ (s.call a).Made := by
  obtain ⟨b, hadd, hmade⟩ := h.exists_add ha
  have hattempt : s.builder.attempt a = (.ok s.accepted.length, b) := by
    rw [Builder.attempt_eq, hadd]; rfl
  have hcall : s.call a = ⟨b, s.accepted ++ [a]⟩ := by rw [call, hattempt]
  rw [hcall]
  exact ⟨hattempt, rfl, hmade⟩

theorem attempt_of_not_followsOn (h : s.Made) (ha : ¬ a.FollowsOn s.accepted) :
    (∃ e, s.builder.attempt a = (.error e, s.builder)) ∧ s.call a = s := by
  obtain ⟨e, hadd⟩ := h.exists_error ha
  have hattempt : s.builder.attempt a = (.error e, s.builder) := by rw [Builder.attempt_eq, hadd]
  exact ⟨⟨e, hattempt⟩, by rw [call, hattempt]⟩

theorem call (h : s.Made) (a : Addition) : (s.call a).Made := by
  by_cases ha : a.FollowsOn s.accepted
  · exact (h.attempt_of_followsOn ha).2.2
  · rw [(h.attempt_of_not_followsOn ha).2]
    exact h

/-- The trace can be finished when the last accepted clause is the empty one. -/
theorem exists_build_iff (h : s.Made) :
    (∃ t, s.builder.build = .ok t) ↔ ∃ a, s.accepted.getLast? = some a ∧ a.literals = [] := by
  have hback : s.builder.clauses.back? =
      s.accepted.getLast?.map (·.clauseAt (s.accepted.length - 1)) := by
    rw [Array.back?_eq_getElem?, List.getLast?_eq_getElem?, ← h.get?_eq, ← h.size_eq]
    rfl
  simp only [Builder.build_eq_ok, exists_eq_left, hback, Option.map_eq_some_iff]
  constructor
  · rintro ⟨c, ⟨a, ha, rfl⟩, hempty⟩
    exact ⟨a, ha, Clause.ofList_eq_empty.mp hempty⟩
  · rintro ⟨a, ha, hnil⟩
    exact ⟨_, ⟨a, ha, rfl⟩, Clause.ofList_eq_empty.mpr hnil⟩

end Made

theorem made_start : Made ⟨.empty, []⟩ := ⟨wellFormed_empty, fun _ => rfl⟩

theorem made_after (calls : List Addition) : (after calls).Made := by
  have hall : ∀ (calls : List Addition) (s : Construction), s.Made → (calls.foldl call s).Made := by
    intro calls
    induction calls with
    | nil => exact fun s h => h
    | cons a calls ih => exact fun s h => ih (s.call a) (h.call a)
  exact hall calls _ made_start

/-- **What every sequence of calls makes.**  A refused call changes nothing, an accepted one gets the
number of those before it, and the trace can be finished when the last accepted clause is empty.
A finished trace consists of the accepted clauses, and its queries tell input clauses, derived ones
and the largest variable. -/
theorem after_calls (calls : List Addition) :
    let s := after calls
    (∀ a, (∃ i b, s.builder.attempt a = (.ok i, b)) ↔ a.FollowsOn s.accepted) ∧
    (∀ a e b, s.builder.attempt a = (.error e, b) → b = s.builder ∧ s.call a = s) ∧
    (∀ a i b, s.builder.attempt a = (.ok i, b) →
      i = s.accepted.length ∧ s.call a = ⟨b, s.accepted ++ [a]⟩) ∧
    ((∃ t, s.builder.build = .ok t) ↔ ∃ a, s.accepted.getLast? = some a ∧ a.literals = []) ∧
    ∀ t, s.builder.build = .ok t →
      t.size = s.accepted.length ∧
      (∀ i, t.get? i = s.accepted[i]?.map (·.clauseAt i)) ∧
      (∀ i c, t.get? i = some c → c.index = i ∧ (i < t.numAxioms ↔ c.antecedents = []) ∧
        t.isAxiom i = c.isAxiom ∧
        (t.numAxioms ≤ i → c.antecedents ≠ [] ∧ ∀ a ∈ c.antecedents, a < i)) ∧
      (∀ i, i ∈ t.axiomSet ↔ i < t.numAxioms) ∧
      (∀ i, (i < t.size ↔ i ∈ t.axiomSet ∨ i ∈ t.resolventSet) ∧
        ¬ (i ∈ t.axiomSet ∧ i ∈ t.resolventSet)) ∧
      (∀ v, t.maxVariable? = some v ↔ IsLargestIn t.clauses.toList v) ∧
      (t.maxVariable? = none ↔ ∀ c ∈ t.clauses.toList, c.clause = .empty) := by
  intro s
  have h : s.Made := made_after calls
  clear_value s
  refine ⟨fun a => ?_, fun a e b hcall => ?_, fun a i b hcall => ?_, h.exists_build_iff,
    fun t ht => ?_⟩
  · by_cases ha : a.FollowsOn s.accepted
    · exact iff_of_true ⟨_, _, (h.attempt_of_followsOn ha).1⟩ ha
    · obtain ⟨⟨e, he⟩, -⟩ := h.attempt_of_not_followsOn ha
      refine iff_of_false (fun ⟨i, b, hcall⟩ => ?_) ha
      rw [he] at hcall
      cases hcall
  · by_cases ha : a.FollowsOn s.accepted
    · rw [(h.attempt_of_followsOn ha).1] at hcall
      cases hcall
    · obtain ⟨⟨e', he⟩, hsame⟩ := h.attempt_of_not_followsOn ha
      rw [he] at hcall
      cases hcall
      exact ⟨rfl, hsame⟩
  · by_cases ha : a.FollowsOn s.accepted
    · obtain ⟨hattempt, haccepted, -⟩ := h.attempt_of_followsOn ha
      rw [hattempt] at hcall
      cases hcall
      exact ⟨rfl, by rw [← haccepted]⟩
    · obtain ⟨⟨e, he⟩, -⟩ := h.attempt_of_not_followsOn ha
      rw [he] at hcall
      cases hcall
  · obtain ⟨rfl, -⟩ := Builder.build_eq_ok.mp ht
    have hwf := h.wellFormed
    refine ⟨h.size_eq, h.get?_eq, fun i c hc => ?_, fun i => hwf.mem_axiomSet, fun i => ?_,
      fun v => maxVariable?_eq_some_iff, maxVariable?_eq_none_iff⟩
    · refine ⟨hwf.index_eq hc, (hwf.isAxiom_iff hc).symm, hwf.isAxiom_eq hc, fun hle => ?_⟩
      refine ⟨fun hnil => ?_, hwf.antecedent_lt hc⟩
      exact absurd ((hwf.isAxiom_iff hc).mp hnil) (Nat.not_lt.mpr hle)
    · rw [hwf.mem_axiomSet, hwf.mem_resolventSet]
      have hle := hwf.numAxioms_le
      omega

/-- Calls of which three are refused: a derived clause without antecedents, one with an antecedent
that is not there yet, and an input clause after the derived one. -/
def someRefused (l : Literal) : List Addition :=
  [.resolvent [] [], .input [l], .resolvent [] [0, 1], .input [-l], .resolvent [] [0, 1],
    .input [l]]

theorem after_someRefused :
    let l : Literal := ⟨⟨1, by decide, by decide⟩, true⟩
    let t : Trace := ⟨#[⟨0, .ofList [l], []⟩, ⟨1, .ofList [-l], []⟩, ⟨2, .empty, [0, 1]⟩], 2⟩
    (after (someRefused l)).accepted.length = 3 ∧ (after (someRefused l)).builder.build = .ok t ∧
      t.size = 3 ∧ 1 ∈ t.axiomSet ∧ 2 ∈ t.resolventSet ∧ t.maxVariable? = some l.var := by
  intro l t
  obtain ⟨-, -, -, -, hfinished⟩ := after_calls (someRefused l)
  have hbuild : (after (someRefused l)).builder.build = .ok t := by cbv
  obtain ⟨hsize, -, -, hinput, hpartition, hlargest, -⟩ := hfinished t hbuild
  have hresolvent : 2 ∈ t.resolventSet :=
    ((hpartition 2).1.mp (by decide)).resolve_left fun h => absurd ((hinput 2).mp h) (by decide)
  exact ⟨hsize.symm, hbuild, rfl, (hinput 1).mpr (by decide), hresolvent,
    (hlargest l.var).mpr ⟨⟨_, List.mem_cons_self, l, by decide, rfl⟩, by decide⟩⟩

end Construction

end Trace

end ModelFinder
