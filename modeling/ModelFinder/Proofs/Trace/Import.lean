import ModelFinder.Proofs.Literal
import ModelFinder.Proofs.Trace.Building
import ModelFinder.Proofs.Trace.Exchange

/-!
# Which steps make a trace

An import uses the input clauses up to the first empty one and, if none of them is empty, the
resolvents up to the first empty one (`Import.used`).  It takes them one after the other, wherever
they stand in the text (`Import.take`, `ofSteps_eq_ok_iff`).

A step is admitted after others if its number is new, its codes name literals and its antecedents
are the numbers of steps before (`Import.Admitted`).  What an import has made of the steps that it
has taken is told by these steps alone (`Import.Made`): the builder has accepted the additions that
they ask for, and the position of a number is that of the step which has it.  A step that is
admitted is taken and keeps this, any other is refused (`Import.Made.exists_take`,
`Import.Made.of_take_eq_ok`), and so it goes on for all of them (`Import.Made.exists_foldlM`,
`Import.Made.of_foldlM_eq_ok`).

So a list of steps is imported exactly if it is importable (`Importable`), and the trace is the one
of the additions that its steps ask for (`imported`).
-/

namespace ModelFinder

open Decimal (half32)

/-- The codes of the step have 32 bits, and none of them is 0. -/
def TraceCheck.Step.Coded (s : Step) : Prop :=
  ∀ code ∈ s.literals, code ≠ 0 ∧ -(half32 : Int) ≤ code ∧ code < half32

instance (s : TraceCheck.Step) : Decidable s.Coded :=
  inferInstanceAs (Decidable (∀ code ∈ s.literals, _))

namespace Trace

open TraceCheck (Step)

namespace Import

/-! ### The steps that are used -/

/-- The steps up to the first empty one, all of them if there is none. -/
def throughEmpty : List Step → List Step
  | [] => []
  | s :: steps => if s.isEmptyClause then [s] else s :: throughEmpty steps

/-- Whether some input clause is empty; it refutes everything alone. -/
def hasEmptyInput (steps : List Step) : Bool := steps.any fun s => s.isAxiom && s.isEmptyClause

/-- The input clauses that an import uses, in the order of the text. -/
def usedInputs (steps : List Step) : List Step := throughEmpty (steps.filter (·.isAxiom))

/-- The resolvents that an import uses, in the order of the text. -/
def usedResolvents (steps : List Step) : List Step :=
  if hasEmptyInput steps then [] else throughEmpty (steps.filter (!·.isAxiom))

/-- The steps that an import uses, in the order in which it takes them. -/
def used (steps : List Step) : List Step := usedInputs steps ++ usedResolvents steps

/-- The addition that a step asks for, among steps with the numbers `ids`. -/
def addition (ids : List Nat) (s : Step) : Addition :=
  let ls := s.literals.filterMap Literal.ofDimacs?
  if s.isAxiom then .input ls else .resolvent ls (s.antecedents.map (ids.idxOf ·))

/-- What is added for the steps that are used, and after an empty input clause the empty clause
derived from it. -/
def additions (steps : List Step) : List Addition :=
  (used steps).map (addition ((used steps).map (·.id))) ++
    if hasEmptyInput steps then [.resolvent [] [(usedInputs steps).length - 1]] else []

end Import

open Import (throughEmpty hasEmptyInput usedInputs usedResolvents used addition additions)

/-- The trace of what is added, each clause at its position. -/
def imported (steps : List Step) : Trace :=
  ⟨((additions steps).mapIdx fun i a => a.clauseAt i).toArray, (usedInputs steps).length⟩

/-- The numbers of the steps that are used are different, their codes name literals, antecedents are
input clauses or earlier resolvents that are used, and some step is empty. -/
structure Importable (steps : List Step) : Prop where
  ids_differ : (used steps).Pairwise (·.id ≠ ·.id)
  literals : ∀ s ∈ used steps, -(half32 : Int) ∉ s.literals
  defined : ∀ pre s post, usedResolvents steps = pre ++ s :: post → ∀ a ∈ s.antecedents,
    (∃ r ∈ usedInputs steps, r.id = a) ∨ ∃ r ∈ pre, r.id = a
  ends : ∃ s ∈ used steps, s.isEmptyClause = true

variable {t : Trace} {m m' : Import} {s : Step} {steps done todo : List Step} {ids : List Nat}

namespace Import

theorem throughEmpty_initial (steps : List Step) : throughEmpty steps <+: steps := by
  induction steps with
  | nil => exact List.nil_prefix
  | cons s steps ih =>
      unfold throughEmpty
      split
      next => exact ⟨steps, rfl⟩
      next => exact List.cons_prefix_cons.mpr ⟨rfl, ih⟩

theorem isAxiom_of_mem_usedInputs (h : s ∈ usedInputs steps) : s.isAxiom = true :=
  (List.mem_filter.mp ((throughEmpty_initial _).subset h)).2

theorem isAxiom_of_mem_usedResolvents (h : s ∈ usedResolvents steps) : s.isAxiom = false := by
  unfold usedResolvents at h
  split at h
  next => exact absurd h List.not_mem_nil
  next => simpa using (List.mem_filter.mp ((throughEmpty_initial _).subset h)).2

theorem mem_of_mem_used (h : s ∈ used steps) : s ∈ steps := by
  obtain h | h := List.mem_append.mp h
  · exact List.mem_of_mem_filter ((throughEmpty_initial _).subset h)
  · unfold usedResolvents at h
    split at h
    next => exact absurd h List.not_mem_nil
    next => exact List.mem_of_mem_filter ((throughEmpty_initial _).subset h)

/-- Input clauses are taken before resolvents. -/
theorem used_pairwise (steps : List Step) :
    (used steps).Pairwise fun r s => s.isAxiom = true → r.isAxiom = true := by
  refine List.pairwise_append.mpr ⟨?_, ?_, fun r hr _ _ _ => isAxiom_of_mem_usedInputs hr⟩
  · exact List.pairwise_of_forall_mem_list fun r hr _ _ _ => isAxiom_of_mem_usedInputs hr
  · refine List.pairwise_of_forall_mem_list fun r _ s hs h => ?_
    rw [isAxiom_of_mem_usedResolvents hs] at h
    cases h

/-! ### Taking the steps one after the other -/

/-- Takes one step, whichever it is. -/
def take (m : Import) (s : Step) : Except Violation Import := do
  let as ← m.antecedents s
  let ls ← literals s
  let (c, b) ← m.builder.add (if s.isAxiom then .input ls else .resolvent ls as)
  m.define s c b

theorem take_eq_ok : m.take s = .ok m' ↔ ∃ as, m.antecedents s = .ok as ∧ ∃ ls,
    literals s = .ok ls ∧ ∃ c b,
      m.builder.add (if s.isAxiom then .input ls else .resolvent ls as) = .ok (c, b) ∧
        m.define s c b = .ok m' := by
  unfold take
  rw [bind_eq_ok]
  refine exists_congr fun as => and_congr_right fun _ => ?_
  rw [bind_eq_ok]
  refine exists_congr fun ls => and_congr_right fun _ => ?_
  rw [bind_eq_ok, Prod.exists]

theorem take_input_eq_ok (h : s.isAxiom = true) : m.take s = .ok m' ↔ ∃ ls,
    literals s = .ok ls ∧ ∃ c b, m.builder.addAxiom ls = .ok (c, b) ∧ m.define s c b = .ok m' := by
  have hnone : m.antecedents s = .ok [] := by
    rw [antecedents, List.isEmpty_iff.mp h]
    rfl
  rw [take_eq_ok]
  simp [hnone, h]

theorem take_resolvent_eq_ok (h : s.isAxiom = false) : m.take s = .ok m' ↔ ∃ as,
    m.antecedents s = .ok as ∧ ∃ ls, literals s = .ok ls ∧ ∃ c b,
      m.builder.addResolvent ls as = .ok (c, b) ∧ m.define s c b = .ok m' := by
  rw [take_eq_ok]
  simp [h]

/-- The clause that was taken last is the last one. -/
theorem index_eq_of_define {b b' : Builder} {c : TraceClause} {ls : List Literal}
    (hadd : b.addAxiom ls = .ok (c, b')) (hdefine : m.define s c b' = .ok m') :
    c.index = m'.builder.size - 1 := by
  obtain ⟨-, rfl, rfl⟩ := Builder.addAxiom_eq_ok.mp hadd
  obtain ⟨-, rfl⟩ := define_eq_ok.mp hdefine
  simp [Builder.size]

theorem inputs_cons_eq_ok_iff {r : Import × Option Nat} (h : s.isAxiom = true) :
    m.inputs (s :: steps) = .ok r ↔ ∃ m', m.take s = .ok m' ∧
      if s.isEmptyClause then r = (m', some (m'.builder.size - 1)) else m'.inputs steps = .ok r := by
  simp only [inputs_cons_eq_ok, take_input_eq_ok h]
  constructor
  · rintro ⟨ls, hls, c, b, hadd, m', hdefine, hr⟩
    rw [index_eq_of_define hadd hdefine] at hr
    exact ⟨m', ⟨ls, hls, c, b, hadd, hdefine⟩, hr⟩
  · rintro ⟨m', ⟨ls, hls, c, b, hadd, hdefine⟩, hr⟩
    rw [← index_eq_of_define hadd hdefine] at hr
    exact ⟨ls, hls, c, b, hadd, m', hdefine, hr⟩

theorem resolvents_cons_eq_ok_iff (h : s.isAxiom = false) :
    m.resolvents (s :: steps) = .ok m' ↔ ∃ m₁, m.take s = .ok m₁ ∧
      if s.isEmptyClause then m' = m₁ else m₁.resolvents steps = .ok m' := by
  simp only [resolvents_cons_eq_ok, take_resolvent_eq_ok h]
  constructor
  · rintro ⟨as, has, ls, hls, c, b, hadd, m₁, hdefine, hr⟩
    exact ⟨m₁, ⟨as, has, ls, hls, c, b, hadd, hdefine⟩, hr⟩
  · rintro ⟨m₁, ⟨as, has, ls, hls, c, b, hadd, hdefine⟩, hr⟩
    exact ⟨as, has, ls, hls, c, b, hadd, m₁, hdefine, hr⟩

/-- An import of input clauses takes them up to the first empty one, and tells its position. -/
theorem inputs_eq_ok_iff {r : Option Nat} (h : ∀ s ∈ steps, s.isAxiom = true) :
    m.inputs steps = .ok (m', r) ↔ (throughEmpty steps).foldlM take m = .ok m' ∧
      r = if steps.any (·.isEmptyClause) then some (m'.builder.size - 1) else none := by
  induction steps generalizing m with
  | nil => simp [inputs, throughEmpty, pure, Except.pure, eq_comm]
  | cons s steps ih =>
      obtain ⟨hs, hsteps⟩ := List.forall_mem_cons.mp h
      rw [inputs_cons_eq_ok_iff hs, throughEmpty]
      by_cases hempty : s.isEmptyClause = true
      · simp only [hempty, if_true, List.foldlM_cons, List.foldlM_nil, bind_pure, List.any_cons,
          Bool.true_or, Prod.mk.injEq]
        constructor
        · rintro ⟨m₁, htake, rfl, rfl⟩
          exact ⟨htake, rfl⟩
        · rintro ⟨htake, rfl⟩
          exact ⟨m', htake, rfl, rfl⟩
      · simp only [hempty, Bool.false_eq_true, if_false, List.foldlM_cons, bind_eq_ok, ih hsteps,
          List.any_cons, Bool.false_or]
        constructor
        · rintro ⟨m₁, htake, hrest, hr⟩
          exact ⟨⟨m₁, htake, hrest⟩, hr⟩
        · rintro ⟨⟨m₁, htake, hrest⟩, hr⟩
          exact ⟨m₁, htake, hrest, hr⟩

/-- An import of resolvents takes them up to the first empty one. -/
theorem resolvents_eq_ok_iff (h : ∀ s ∈ steps, s.isAxiom = false) :
    m.resolvents steps = .ok m' ↔ (throughEmpty steps).foldlM take m = .ok m' := by
  induction steps generalizing m with
  | nil => simp [resolvents, throughEmpty, pure, Except.pure]
  | cons s steps ih =>
      obtain ⟨hs, hsteps⟩ := List.forall_mem_cons.mp h
      rw [resolvents_cons_eq_ok_iff hs, throughEmpty]
      by_cases hempty : s.isEmptyClause = true
      · simp only [hempty, if_true, List.foldlM_cons, List.foldlM_nil, bind_pure]
        constructor
        · rintro ⟨m₁, htake, rfl⟩
          exact htake
        · intro htake
          exact ⟨m', htake, rfl⟩
      · simp only [hempty, Bool.false_eq_true, if_false, List.foldlM_cons, bind_eq_ok, ih hsteps]

end Import

theorem any_isEmptyClause_eq (steps : List Step) :
    (steps.filter (·.isAxiom)).any (·.isEmptyClause) = hasEmptyInput steps := by
  rw [hasEmptyInput, List.any_filter]

/-- **An import takes the steps that it uses**, one after the other.  From an empty input clause it
derives the empty clause again. -/
theorem ofSteps_eq_ok_iff : ofSteps steps = .ok t ↔
    ∃ m, (used steps).foldlM Import.take .start = .ok m ∧
      if hasEmptyInput steps then
        ∃ c b, m.builder.addResolvent [] [m.builder.size - 1] = .ok (c, b) ∧ b.build = .ok t
      else m.builder.build = .ok t := by
  have hinputs : ∀ s ∈ steps.filter (·.isAxiom), s.isAxiom = true := fun s hs =>
    (List.mem_filter.mp hs).2
  have hresolvents : ∀ s ∈ steps.filter (!·.isAxiom), s.isAxiom = false := fun s hs => by
    simpa using (List.mem_filter.mp hs).2
  unfold ofSteps
  rw [bind_eq_ok, Prod.exists]
  simp only [Import.inputs_eq_ok_iff hinputs, any_isEmptyClause_eq, used, usedInputs,
    usedResolvents, List.foldlM_append, bind_eq_ok]
  cases hasEmptyInput steps with
  | true =>
      constructor
      · rintro ⟨m, r, ⟨hm, rfl⟩, h⟩
        obtain ⟨⟨c, b⟩, hadd, hbuild⟩ := bind_eq_ok.mp h
        exact ⟨m, ⟨m, hm, rfl⟩, c, b, hadd, hbuild⟩
      · rintro ⟨m, ⟨m₁, hm, hnil⟩, c, b, hadd, hbuild⟩
        cases hnil
        exact ⟨m, _, ⟨hm, rfl⟩, bind_eq_ok.mpr ⟨(c, b), hadd, hbuild⟩⟩
  | false =>
      constructor
      · rintro ⟨m, r, ⟨hm, rfl⟩, h⟩
        obtain ⟨m', hrest, hbuild⟩ := bind_eq_ok.mp h
        exact ⟨m', ⟨m, hm, (Import.resolvents_eq_ok_iff hresolvents).mp hrest⟩, hbuild⟩
      · rintro ⟨m', ⟨m, hm, hrest⟩, hbuild⟩
        exact ⟨m, _, ⟨hm, rfl⟩, bind_eq_ok.mpr
          ⟨m', (Import.resolvents_eq_ok_iff hresolvents).mpr hrest, hbuild⟩⟩

namespace Import

/-! ### What has been made of the steps -/

/-- The step can be taken after others: its number is new, its codes name literals, and its
antecedents are the numbers of steps before. -/
structure Admitted (done : List Step) (s : Step) : Prop where
  new_id : ∀ r ∈ done, r.id ≠ s.id
  literals : ∃ ls : List Literal, ls.map (·.toDimacs) = s.literals
  defined : ∀ a ∈ s.antecedents, ∃ r ∈ done, r.id = a

/-- The import has taken some steps, the first ones of those with the numbers `ids`. -/
structure Made (ids : List Nat) (m : Import) (done : List Step) : Prop where
  construction : Construction.Made ⟨m.builder, done.map (addition ids)⟩
  position?_eq : ∀ a, m.positions[a]? = if ∃ r ∈ done, r.id = a then some (ids.idxOf a) else none

theorem made_start (ids : List Nat) : start.Made ids [] :=
  ⟨Construction.made_start, fun a => by simp [start]⟩

theorem literals_eq_ok {ls : List Literal} :
    literals s = .ok ls ↔ ls.map (·.toDimacs) = s.literals := by
  have hsome : literals s = .ok ls ↔ s.literals.map Literal.ofDimacs? = ls.map some :=
    mapM_eq_ok_iff_map_some fun code l => by cases Literal.ofDimacs? code <;> simp
  rw [hsome, Literal.map_ofDimacs?_eq_iff]

theorem addition_eq {ls : List Literal} (h : ls.map (·.toDimacs) = s.literals) :
    addition ids s =
      if s.isAxiom then .input ls else .resolvent ls (s.antecedents.map (ids.idxOf ·)) := by
  rw [addition, ← h, List.filterMap_map]
  simp

theorem antecedents_addition (ids : List Nat) (s : Step) :
    (addition ids s).antecedents = s.antecedents.map (ids.idxOf ·) := by
  unfold addition
  split
  next h => rw [List.isEmpty_iff.mp h]; rfl
  next => rfl

theorem literals_addition (ids : List Nat) (s : Step) :
    (addition ids s).literals = s.literals.filterMap Literal.ofDimacs? := by
  unfold addition
  split <;> rfl

/-- An input clause may come after input clauses, a resolvent after all it is derived from. -/
theorem followsOn_addition {accepted : List Addition}
    (hinput : s.isAxiom = true → ∀ d ∈ accepted, d.antecedents = [])
    (hlt : ∀ a ∈ s.antecedents, ids.idxOf a < accepted.length) :
    (addition ids s).FollowsOn accepted := by
  unfold addition
  split
  next hs => exact hinput hs
  next hs =>
    refine ⟨fun hnil => hs (List.isEmpty_iff.mpr (List.map_eq_nil_iff.mp hnil)), fun i hi => ?_⟩
    obtain ⟨a, ha, rfl⟩ := List.mem_map.mp hi
    exact hlt a ha

/-- Steps which have the first ones of some numbers, input clauses first. -/
structure Ordered (ids : List Nat) (steps : List Step) : Prop where
  ids_initial : steps.map (·.id) <+: ids
  inputs_first : steps.Pairwise fun r s => s.isAxiom = true → r.isAxiom = true

namespace Ordered

theorem left (h : Ordered ids (done ++ todo)) : Ordered ids done := by
  refine ⟨?_, (List.pairwise_append.mp h.inputs_first).1⟩
  have hinitial := h.ids_initial
  rw [List.map_append] at hinitial
  exact (List.prefix_append _ _).trans hinitial

theorem isAxiom_of_concat (h : Ordered ids (done ++ [s])) (hs : s.isAxiom = true) :
    ∀ r ∈ done, r.isAxiom = true := fun r hr =>
  (List.pairwise_append.mp h.inputs_first).2.2 r hr s (List.mem_singleton_self s) hs

/-- The steps stand at the positions of their numbers. -/
theorem idxOf_lt (h : Ordered ids done) {a : Nat} (ha : ∃ r ∈ done, r.id = a) :
    ids.idxOf a < done.length := by
  obtain ⟨rest, rfl⟩ := h.ids_initial
  have hmem : a ∈ done.map (·.id) := List.mem_map.mpr ha
  rw [List.idxOf_append_of_mem hmem, ← List.length_map (·.id)]
  exact List.idxOf_lt_length_of_mem hmem

end Ordered

namespace Made

variable (h : m.Made ids done)
include h

theorem map_positions_eq_iff {as is : List Nat} : as.map (m.positions[·]?) = is.map some ↔
    (∀ a ∈ as, ∃ r ∈ done, r.id = a) ∧ is = as.map (ids.idxOf ·) := by
  have hmap (hdefined : ∀ a ∈ as, ∃ r ∈ done, r.id = a) :
      as.map (m.positions[·]?) = (as.map (ids.idxOf ·)).map some := by
    rw [List.map_map]
    exact List.map_congr_left fun a ha => by simp only [h.position?_eq, if_pos (hdefined a ha),
      Function.comp]
  constructor
  · intro his
    have hdefined : ∀ a ∈ as, ∃ r ∈ done, r.id = a := fun a ha => by
      have hmem : m.positions[a]? ∈ is.map some := his ▸ List.mem_map_of_mem ha
      obtain ⟨i, -, hi⟩ := List.mem_map.mp hmem
      rw [h.position?_eq] at hi
      by_contra hnone
      rw [if_neg hnone] at hi
      cases hi
    exact ⟨hdefined, List.map_injective_iff.mpr (Option.some_injective _)
      (his.symm.trans (hmap hdefined))⟩
  · rintro ⟨hdefined, rfl⟩
    exact hmap hdefined

theorem antecedents_eq_ok {as : List Nat} : m.antecedents s = .ok as ↔
    (∀ a ∈ s.antecedents, ∃ r ∈ done, r.id = a) ∧ as = s.antecedents.map (ids.idxOf ·) := by
  have hsome : m.antecedents s = .ok as ↔ s.antecedents.map (m.positions[·]?) = as.map some :=
    mapM_eq_ok_iff_map_some fun a i => by cases m.positions[a]? <;> simp
  rw [hsome, h.map_positions_eq_iff]

theorem position?_eq_none_iff {a : Nat} : m.positions[a]? = none ↔ ∀ r ∈ done, r.id ≠ a := by
  rw [h.position?_eq]
  split
  next hr =>
    obtain ⟨r, hr, hid⟩ := hr
    exact iff_of_false (Option.some_ne_none _) fun hall => hall r hr hid
  next hr => exact ⟨fun _ r hmem hid => hr ⟨r, hmem, hid⟩, fun _ => rfl⟩

variable (horder : Ordered ids (done ++ [s]))
include horder

/-- The builder accepts what the step asks for. -/
theorem exists_add (hdefined : ∀ a ∈ s.antecedents, ∃ r ∈ done, r.id = a) :
    ∃ b, m.builder.add (addition ids s) = .ok ((addition ids s).clauseAt done.length, b) ∧
      Construction.Made ⟨b, (done ++ [s]).map (addition ids)⟩ := by
  have hfollows : (addition ids s).FollowsOn (done.map (addition ids)) := by
    refine followsOn_addition (fun hs d hd => ?_) fun a ha => ?_
    · obtain ⟨r, hr, rfl⟩ := List.mem_map.mp hd
      rw [antecedents_addition, List.isEmpty_iff.mp (horder.isAxiom_of_concat hs r hr)]
      rfl
    · rw [List.length_map]
      exact horder.left.idxOf_lt (hdefined a ha)
  have hadd := h.construction.exists_add hfollows
  rwa [List.length_map, ← List.map_singleton (f := addition ids), ← List.map_append] at hadd

/-- A step that is admitted is taken. -/
theorem exists_take (hs : Admitted done s) : ∃ m', m.take s = .ok m' := by
  obtain ⟨ls, hls⟩ := hs.literals
  obtain ⟨b, hadd, -⟩ := h.exists_add horder hs.defined
  rw [addition_eq hls] at hadd
  have hnew := h.position?_eq_none_iff.mpr hs.new_id
  exact ⟨_, take_eq_ok.mpr ⟨_, h.antecedents_eq_ok.mpr ⟨hs.defined, rfl⟩, ls,
    literals_eq_ok.mpr hls, _, b, hadd, define_eq_ok.mpr ⟨hnew, rfl⟩⟩⟩

/-- A step that is taken is admitted, and becomes the next one. -/
theorem of_take_eq_ok (htake : m.take s = .ok m') :
    Admitted done s ∧ m'.Made ids (done ++ [s]) := by
  obtain ⟨as, has, ls, hls, c, b, hadd, hdefine⟩ := take_eq_ok.mp htake
  obtain ⟨hdefined, rfl⟩ := h.antecedents_eq_ok.mp has
  obtain ⟨hnew, rfl⟩ := define_eq_ok.mp hdefine
  rw [literals_eq_ok] at hls
  rw [h.position?_eq_none_iff] at hnew
  rw [← addition_eq hls] at hadd
  obtain ⟨b', hadd', hmade⟩ := h.exists_add horder hdefined
  rw [hadd'] at hadd
  cases hadd
  refine ⟨⟨hnew, ⟨ls, hls⟩, hdefined⟩, hmade, fun a => ?_⟩
  show (m.positions.insert s.id done.length)[a]? = _
  rw [Std.HashMap.getElem?_insert, h.position?_eq]
  -- the number of the step is new, so its place is the one after those before
  have hlast : ids.idxOf s.id = done.length := by
    obtain ⟨rest, rfl⟩ := horder.ids_initial
    have hmem : s.id ∉ done.map (·.id) := fun hmem => by
      obtain ⟨r, hr, hid⟩ := List.mem_map.mp hmem
      exact hnew r hr hid
    rw [List.map_append, List.append_assoc, List.idxOf_append_of_notMem hmem, List.length_map]
    simp
  simp only [List.mem_append, List.mem_singleton, or_and_right, exists_or, exists_eq_left]
  by_cases ha : s.id = a
  · subst ha
    simp [hlast]
  · simp [ha]

end Made

/-! ### A run over all steps -/

/-- Each step is admitted after those before. -/
def AllAdmitted (done todo : List Step) : Prop :=
  ∀ pre s post, todo = pre ++ s :: post → Admitted (done ++ pre) s

theorem allAdmitted_nil (done : List Step) : AllAdmitted done [] := fun pre s post h => by
  simp at h

theorem allAdmitted_cons :
    AllAdmitted done (s :: todo) ↔ Admitted done s ∧ AllAdmitted (done ++ [s]) todo := by
  constructor
  · intro h
    refine ⟨by simpa using h [] s todo rfl, fun pre r post hsplit => ?_⟩
    rw [List.append_assoc, List.singleton_append]
    exact h (s :: pre) r post (congrArg (s :: ·) hsplit)
  · rintro ⟨hs, hall⟩ pre r post hsplit
    cases pre with
    | nil => cases hsplit; rwa [List.append_nil]
    | cons q pre =>
        obtain ⟨rfl, hrest⟩ := List.cons.inj hsplit
        rw [List.append_cons]
        exact hall pre r post hrest

section Runs

variable (h : m.Made ids done) (horder : Ordered ids (done ++ todo))
include h horder

/-- Steps that are all admitted are taken. -/
theorem Made.exists_foldlM (hall : AllAdmitted done todo) : ∃ m', todo.foldlM take m = .ok m' := by
  induction todo generalizing m done with
  | nil => exact ⟨m, rfl⟩
  | cons s todo ih =>
      rw [List.append_cons] at horder
      obtain ⟨hs, hall⟩ := allAdmitted_cons.mp hall
      obtain ⟨m₁, htake⟩ := h.exists_take horder.left hs
      obtain ⟨m', hrun⟩ := ih (h.of_take_eq_ok horder.left htake).2 horder hall
      exact ⟨m', bind_eq_ok.mpr ⟨m₁, htake, hrun⟩⟩

/-- Steps that are taken are all admitted, and become the next ones. -/
theorem Made.of_foldlM_eq_ok (hrun : todo.foldlM take m = .ok m') :
    AllAdmitted done todo ∧ m'.Made ids (done ++ todo) := by
  induction todo generalizing m done with
  | nil =>
      cases hrun
      rw [List.append_nil]
      exact ⟨allAdmitted_nil done, h⟩
  | cons s todo ih =>
      rw [List.append_cons] at horder ⊢
      obtain ⟨m₁, htake, hrun⟩ := bind_eq_ok.mp hrun
      obtain ⟨hs, h₁⟩ := h.of_take_eq_ok horder.left htake
      obtain ⟨hall, h'⟩ := ih h₁ horder hrun
      exact ⟨allAdmitted_cons.mpr ⟨hs, hall⟩, h'⟩

end Runs

/-! ### The end of an import -/

theorem any_throughEmpty (steps : List Step) :
    (throughEmpty steps).any (·.isEmptyClause) = steps.any (·.isEmptyClause) := by
  induction steps with
  | nil => rfl
  | cons s steps ih =>
      unfold throughEmpty
      split
      next hs => simp [hs]
      next hs => simp [ih, hs]

/-- The first empty step is the last one that is used. -/
theorem isEmptyClause_of_getLast? (h : ∃ s ∈ throughEmpty steps, s.isEmptyClause = true) :
    ∃ s, (throughEmpty steps).getLast? = some s ∧ s.isEmptyClause = true := by
  induction steps with
  | nil => simp [throughEmpty] at h
  | cons s steps ih =>
      unfold throughEmpty at h ⊢
      split
      next hs => exact ⟨s, rfl, hs⟩
      next hs =>
        rw [if_neg hs] at h
        obtain ⟨r, hr, hempty⟩ := ih (by simpa [hs] using h)
        refine ⟨r, ?_, hempty⟩
        rw [List.getLast?_cons, hr]
        rfl

theorem Admitted.literals_addition_eq_nil_iff (h : Admitted done s) :
    (addition ids s).literals = [] ↔ s.isEmptyClause = true := by
  obtain ⟨ls, hls⟩ := h.literals
  rw [Step.isEmptyClause, List.isEmpty_iff, literals_addition, ← hls, List.filterMap_map]
  simp

theorem allAdmitted_iff : AllAdmitted [] todo ↔
    ∀ pre s post, todo = pre ++ s :: post → Admitted pre s := Iff.rfl

theorem AllAdmitted.admitted (h : AllAdmitted [] todo) (hs : s ∈ todo) :
    ∃ done, Admitted done s := by
  obtain ⟨pre, post, rfl⟩ := List.append_of_mem hs
  exact ⟨_, h pre s post rfl⟩

theorem ordered_used (steps : List Step) : Ordered ((used steps).map (·.id)) (used steps) :=
  ⟨List.prefix_rfl, used_pairwise steps⟩

theorem pairwise_iff_forall_split {R : Step → Step → Prop} :
    steps.Pairwise R ↔ ∀ pre s post, steps = pre ++ s :: post → ∀ r ∈ pre, R r s := by
  constructor
  · rintro h pre s post rfl r hr
    exact (List.pairwise_append.mp h).2.2 r hr s List.mem_cons_self
  · intro h
    rw [List.pairwise_iff_getElem]
    intro i j hi hj hij
    have hsplit : steps = steps.take j ++ steps[j] :: steps.drop (j + 1) := by simp
    exact h _ _ _ hsplit _ (List.mem_take_iff_getElem.mpr ⟨i, by omega, rfl⟩)

/-- Resolvents are taken after all input clauses that are used. -/
theorem used_eq_append {pre post : List Step} (hs : s.isAxiom = false)
    (h : used steps = pre ++ s :: post) :
    ∃ pre', usedResolvents steps = pre' ++ s :: post ∧ pre = usedInputs steps ++ pre' := by
  obtain ⟨pre', hpre, hrest⟩ | ⟨rest, hinputs, hrest⟩ := List.append_eq_append_iff.mp h
  · exact ⟨pre', hrest, hpre⟩
  · cases rest with
    | nil => exact ⟨[], hrest.symm, by rw [hinputs, List.append_nil, List.append_nil]⟩
    | cons r rest =>
        obtain ⟨rfl, -⟩ := List.cons.inj hrest
        have hmem : s ∈ usedInputs steps := by simp [hinputs]
        have hinput := isAxiom_of_mem_usedInputs hmem
        rw [hs] at hinput
        cases hinput

theorem allAdmitted_used_iff : AllAdmitted [] (used steps) ↔
    (used steps).Pairwise (·.id ≠ ·.id) ∧
    (∀ s ∈ used steps, ∃ ls : List Literal, ls.map (·.toDimacs) = s.literals) ∧
    ∀ pre s post, usedResolvents steps = pre ++ s :: post → ∀ a ∈ s.antecedents,
      (∃ r ∈ usedInputs steps, r.id = a) ∨ ∃ r ∈ pre, r.id = a := by
  constructor
  · intro h
    refine ⟨pairwise_iff_forall_split.mpr fun pre s post hsplit => (h pre s post hsplit).new_id,
      fun s hs => ?_, fun pre s post hsplit a ha => ?_⟩
    · obtain ⟨done, hs⟩ := h.admitted hs
      exact hs.literals
    · have hused : used steps = (usedInputs steps ++ pre) ++ s :: post := by
        rw [used, hsplit, List.append_assoc]
      obtain ⟨r, hr, hid⟩ := (allAdmitted_iff.mp h _ s post hused).defined a ha
      exact (List.mem_append.mp hr).imp (fun hr => ⟨r, hr, hid⟩) fun hr => ⟨r, hr, hid⟩
  · rintro ⟨hids, hliterals, hdefined⟩
    refine allAdmitted_iff.mpr fun pre s post hsplit => ?_
    refine ⟨pairwise_iff_forall_split.mp hids pre s post hsplit, hliterals s (by simp [hsplit]),
      fun a ha => ?_⟩
    have hs : s.isAxiom = false := List.isEmpty_eq_false_iff_exists_mem.mpr ⟨a, ha⟩
    obtain ⟨pre', hresolvents, rfl⟩ := used_eq_append hs hsplit
    obtain ⟨r, hr, hid⟩ | ⟨r, hr, hid⟩ := hdefined pre' s post hresolvents a ha
    · exact ⟨r, List.mem_append_left _ hr, hid⟩
    · exact ⟨r, List.mem_append_right _ hr, hid⟩

end Import

namespace Construction

/-- The finished trace of input clauses and what is derived after them. -/
theorem Made.trace_eq {b : Builder} {is rs : List Addition} (h : Made ⟨b, is ++ rs⟩)
    (his : ∀ a ∈ is, a.antecedents = []) (hrs : ∀ a ∈ rs, a.antecedents ≠ []) :
    b.trace = ⟨((is ++ rs).mapIdx fun i a => a.clauseAt i).toArray, is.length⟩ := by
  have hsize : b.size = is.length + rs.length := by simpa using h.size_eq
  have hclauses : b.clauses = ((is ++ rs).mapIdx fun i a => a.clauseAt i).toArray := by
    refine Array.ext_getElem? fun i => (h.get?_eq i).trans ?_
    rw [List.getElem?_toArray, List.getElem?_mapIdx]
  -- the additions without antecedents are the first ones
  have hinput : ∀ i < b.size, i < b.numAxioms ↔ i < is.length := by
    intro i hi
    obtain ⟨a, ha⟩ : ∃ a, (is ++ rs)[i]? = some a :=
      ⟨_, List.getElem?_eq_getElem (by rwa [List.length_append, ← hsize])⟩
    have hget : b.trace.get? i = some (a.clauseAt i) := by rw [h.get?_eq, ha]; rfl
    refine (h.wellFormed.isAxiom_iff hget).symm.trans ?_
    show a.antecedents = [] ↔ _
    by_cases hlt : i < is.length
    · rw [List.getElem?_append_left hlt] at ha
      exact iff_of_true (his a (List.mem_of_getElem? ha)) hlt
    · rw [List.getElem?_append_right (Nat.le_of_not_lt hlt)] at ha
      exact iff_of_false (hrs a (List.mem_of_getElem? ha)) hlt
  have hle : b.numAxioms ≤ b.size := h.wellFormed.numAxioms_le
  have hnum : b.numAxioms = is.length := by
    refine Nat.le_antisymm (Nat.le_of_not_lt fun hlt => ?_) (Nat.le_of_not_lt fun hlt => ?_)
    · exact Nat.lt_irrefl _ ((hinput _ (by omega)).mp hlt)
    · exact Nat.lt_irrefl _ ((hinput _ (by omega)).mpr hlt)
  rw [Builder.trace, hclauses, hnum]

end Construction

open Import (AllAdmitted)

/-- Codes of 32 bits other than 0 are those of literals, except for the smallest one. -/
theorem exists_literals_iff (h : s.Coded) :
    (∃ ls : List Literal, ls.map (·.toDimacs) = s.literals) ↔ -(half32 : Int) ∉ s.literals := by
  have hhalf : half32 = 2147483648 := rfl
  have hmax : Variable.maxIndex = 2147483647 := rfl
  rw [Literal.exists_map_toDimacs_iff]
  constructor
  · intro hrange hmem
    obtain ⟨-, hle⟩ := hrange _ hmem
    omega
  · intro hmin code hcode
    obtain ⟨hne, hlow, hhigh⟩ := h code hcode
    have hother : code ≠ -(half32 : Int) := fun e => hmin (e ▸ hcode)
    omega

theorem exists_isEmptyClause_usedInputs_iff :
    (∃ s ∈ usedInputs steps, s.isEmptyClause = true) ↔ hasEmptyInput steps = true := by
  rw [← any_isEmptyClause_eq, ← Import.any_throughEmpty, List.any_eq_true]
  rfl

/-- The additions end with the empty clause exactly if one of the steps that are used is empty. -/
theorem getLast?_additions_iff (hall : AllAdmitted [] (used steps)) :
    (∃ a, (additions steps).getLast? = some a ∧ a.literals = []) ↔
      ∃ s ∈ used steps, s.isEmptyClause = true := by
  cases hempty : hasEmptyInput steps with
  | true =>
      obtain ⟨s, hs, hse⟩ := exists_isEmptyClause_usedInputs_iff.mpr hempty
      refine iff_of_true ⟨.resolvent [] [(usedInputs steps).length - 1], ?_, rfl⟩
        ⟨s, List.mem_append_left _ hs, hse⟩
      rw [additions, if_pos hempty, List.getLast?_concat]
  | false =>
      have hadditions : additions steps = (used steps).map (addition ((used steps).map (·.id))) := by
        simp [additions, hempty]
      have hused : usedResolvents steps = throughEmpty (steps.filter (!·.isAxiom)) := by
        simp [usedResolvents, hempty]
      simp only [hadditions, List.getLast?_map, Option.map_eq_some_iff]
      constructor
      · rintro ⟨a, ⟨s, hs, rfl⟩, hnil⟩
        have hmem := List.mem_of_getLast? hs
        obtain ⟨done, hadmitted⟩ := hall.admitted hmem
        exact ⟨s, hmem, hadmitted.literals_addition_eq_nil_iff.mp hnil⟩
      · rintro ⟨s, hs, hse⟩
        have hresolvent : ∃ s ∈ usedResolvents steps, s.isEmptyClause = true := by
          refine (List.mem_append.mp hs).elim (fun hs => ?_) fun hs => ⟨s, hs, hse⟩
          have hinput := exists_isEmptyClause_usedInputs_iff.mp ⟨s, hs, hse⟩
          rw [hempty] at hinput
          cases hinput
        rw [hused] at hresolvent
        obtain ⟨r, hr, hre⟩ := Import.isEmptyClause_of_getLast? hresolvent
        have hlast : (used steps).getLast? = some r := by
          rw [used, hused, List.getLast?_append, hr]
          rfl
        obtain ⟨done, hadmitted⟩ := hall.admitted (List.mem_of_getLast? hlast)
        exact ⟨_, ⟨r, hlast, rfl⟩, hadmitted.literals_addition_eq_nil_iff.mpr hre⟩

/-- The trace under construction at the end of an import. -/
theorem exists_made_additions {m : Import} (hrun : (used steps).foldlM Import.take .start = .ok m)
    (hm : m.Made ((used steps).map (·.id)) (used steps)) :
    ∃ b, Construction.Made ⟨b, additions steps⟩ ∧
      ∀ t, ofSteps steps = .ok t ↔ b.build = .ok t := by
  simp only [ofSteps_eq_ok_iff, hrun, Except.ok.injEq, exists_eq_left']
  cases hempty : hasEmptyInput steps with
  | false =>
      refine ⟨m.builder, ?_, fun t => by simp⟩
      simpa [additions, hempty] using hm.construction
  | true =>
      have hnil : usedResolvents steps = [] := by rw [usedResolvents, if_pos hempty]
      have hused : used steps = usedInputs steps := by rw [used, hnil, List.append_nil]
      obtain ⟨s, hs, -⟩ := exists_isEmptyClause_usedInputs_iff.mpr hempty
      have hpos : 0 < (usedInputs steps).length := List.length_pos_of_mem hs
      have hsize : m.builder.size = (usedInputs steps).length := by
        rw [← hused]
        simpa using hm.construction.size_eq
      obtain ⟨b, hadd, hb⟩ := hm.construction.exists_add
        (a := .resolvent [] [(usedInputs steps).length - 1])
        ⟨List.cons_ne_nil _ _, by simp [hused]; omega⟩
      refine ⟨b, by simpa [additions, hempty] using hb, fun t => ?_⟩
      have hadd' : m.builder.addResolvent [] [m.builder.size - 1] = .ok (_, b) := hsize ▸ hadd
      simp only [if_true, hadd', Except.ok.injEq, Prod.mk.injEq, and_assoc, exists_eq_left',
        exists_and_left]

/-- What is finished is the trace of the additions. -/
theorem trace_eq_imported {b : Builder} (h : Construction.Made ⟨b, additions steps⟩) :
    b.trace = imported steps := by
  have hsplit : additions steps =
      (usedInputs steps).map (addition ((used steps).map (·.id))) ++
        ((usedResolvents steps).map (addition ((used steps).map (·.id))) ++
          if hasEmptyInput steps then [.resolvent [] [(usedInputs steps).length - 1]] else []) := by
    rw [additions, used, List.map_append, List.append_assoc]
  rw [hsplit] at h
  rw [h.trace_eq, imported, hsplit, List.length_map]
  · intro a ha
    obtain ⟨s, hs, rfl⟩ := List.mem_map.mp ha
    rw [Import.antecedents_addition, List.isEmpty_iff.mp (Import.isAxiom_of_mem_usedInputs hs)]
    rfl
  · intro a ha
    obtain ha | ha := List.mem_append.mp ha
    · obtain ⟨s, hs, rfl⟩ := List.mem_map.mp ha
      rw [Import.antecedents_addition]
      intro hnil
      have haxiom := List.isEmpty_iff.mpr (List.map_eq_nil_iff.mp hnil)
      rw [← Step.isAxiom, Import.isAxiom_of_mem_usedResolvents hs] at haxiom
      cases haxiom
    · split at ha
      next => rw [List.mem_singleton.mp ha]; exact List.cons_ne_nil _ _
      next => exact absurd ha List.not_mem_nil

/-- Every step that is used is admitted after those before, and some step is empty. -/
theorem importable_iff (hcoded : ∀ s ∈ steps, s.Coded) :
    Importable steps ↔
      AllAdmitted [] (used steps) ∧ ∃ s ∈ used steps, s.isEmptyClause = true := by
  have hliterals : (∀ s ∈ used steps, ∃ ls : List Literal, ls.map (·.toDimacs) = s.literals) ↔
      ∀ s ∈ used steps, -(half32 : Int) ∉ s.literals :=
    forall₂_congr fun s hs => exists_literals_iff (hcoded s (Import.mem_of_mem_used hs))
  rw [Import.allAdmitted_used_iff, hliterals]
  constructor
  · rintro ⟨hids, hmin, hdefined, hends⟩
    exact ⟨⟨hids, hmin, hdefined⟩, hends⟩
  · rintro ⟨⟨hids, hmin, hdefined⟩, hends⟩
    exact ⟨hids, hmin, hdefined, hends⟩

/-- A list of steps is imported exactly if it is importable, and as nothing else. -/
theorem ofSteps_eq_ok_iff_importable (hcoded : ∀ s ∈ steps, s.Coded) :
    ofSteps steps = .ok t ↔ Importable steps ∧ t = imported steps := by
  rw [importable_iff hcoded]
  constructor
  · intro h
    obtain ⟨m, hrun, -⟩ := ofSteps_eq_ok_iff.mp h
    obtain ⟨hall, hm⟩ := (Import.made_start _).of_foldlM_eq_ok (Import.ordered_used steps) hrun
    obtain ⟨b, hb, hsame⟩ := exists_made_additions hrun hm
    obtain ⟨rfl, -⟩ := build_eq_ok_iff.mp ((hsame t).mp h)
    exact ⟨⟨hall, (getLast?_additions_iff hall).mp (hb.exists_build_iff.mp ⟨_, (hsame _).mp h⟩)⟩,
      trace_eq_imported hb⟩
  · rintro ⟨⟨hall, hends⟩, rfl⟩
    obtain ⟨m, hrun⟩ := (Import.made_start _).exists_foldlM (Import.ordered_used steps) hall
    obtain ⟨-, hm⟩ := (Import.made_start _).of_foldlM_eq_ok (Import.ordered_used steps) hrun
    obtain ⟨b, hb, hsame⟩ := exists_made_additions hrun hm
    obtain ⟨t, hbuild⟩ := hb.exists_build_iff.mpr ((getLast?_additions_iff hall).mpr hends)
    obtain ⟨rfl, -⟩ := build_eq_ok_iff.mp hbuild
    rw [← trace_eq_imported hb]
    exact (hsame _).mpr hbuild

/-- **Which steps make a trace, and which one.**  Steps of 32-bit codes are imported as the trace of
the steps that are used if these are importable, and are refused otherwise. -/
theorem ofSteps_of_coded (hcoded : ∀ s ∈ steps, s.Coded) :
    (Importable steps → ofSteps steps = .ok (imported steps)) ∧
      (¬ Importable steps → ∃ e, ofSteps steps = .error e) := by
  refine ⟨fun h => (ofSteps_eq_ok_iff_importable hcoded).mpr ⟨h, rfl⟩, fun h => ?_⟩
  cases hsteps : ofSteps steps with
  | error e => exact ⟨e, rfl⟩
  | ok t => exact absurd ((ofSteps_eq_ok_iff_importable hcoded).mp hsteps).1 h

/-- Resolvents before the input clauses they use, and behind the empty one a step with a number in
use, an undefined antecedent and a code out of range. -/
def reordered : List Step :=
  [⟨7, [2], [40, 9]⟩, ⟨40, [1], []⟩, ⟨9, [-1, 2], []⟩, ⟨18446744073709551615, [], [3, 7]⟩,
    ⟨7, [-2147483648], [99]⟩, ⟨3, [-2], []⟩]

/-- Its last step is needed, the one before is not. -/
theorem ofSteps_reordered :
    (∀ s ∈ reordered, s.Coded) ∧
      (Importable reordered ∧ ofSteps reordered = .ok (imported reordered) ∧
        (imported reordered).clauses.toList.map (·.antecedents) = [[], [], [], [0, 1], [2, 3]]) ∧
      ¬ Importable reordered.dropLast ∧ ∃ e, ofSteps reordered.dropLast = .error e := by
  have hcoded : ∀ s ∈ reordered, s.Coded := by decide
  have hdefined : ∀ pre s post, usedResolvents reordered = pre ++ s :: post → ∀ a ∈ s.antecedents,
      (∃ r ∈ usedInputs reordered, r.id = a) ∨ ∃ r ∈ pre, r.id = a := by
    intro pre s post hsplit
    have hused : usedResolvents reordered =
        [⟨7, [2], [40, 9]⟩, ⟨18446744073709551615, [], [3, 7]⟩] := by decide
    rw [hused] at hsplit
    match pre, hsplit with
    | [], h => cases h; decide
    | [_], h => cases h; decide
    | _ :: _ :: _, h => simp at h
  have himportable : Importable reordered := ⟨by decide, by decide, hdefined, by decide⟩
  have hrefused : ¬ Importable reordered.dropLast := fun h =>
    absurd (h.defined [⟨7, [2], [40, 9]⟩] ⟨18446744073709551615, [], [3, 7]⟩ [] (by decide) 3
      List.mem_cons_self) (by decide)
  exact ⟨hcoded, ⟨himportable, (ofSteps_of_coded hcoded).1 himportable, by decide⟩, hrefused,
    (ofSteps_of_coded (by decide)).2 hrefused⟩

end Trace

end ModelFinder
