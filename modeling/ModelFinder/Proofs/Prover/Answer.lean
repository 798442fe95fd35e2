import ModelFinder.Proofs.Prover.Search
import ModelFinder.Proofs.Trace.Reach

/-!
# The answers of the prover

What the prover answers decides the problem (`Prover.Decides`): a model has a value for each
variable and a true literal in each clause, and a refutation is a proof by resolution which ends
with the empty clause.  Its input clauses are those of the problem in order, up to the first empty
clause, after which the prover stops (`throughEmpty`).

* `ends_addAxioms`: the trace lists these clauses, and the search is given those that are no
  tautologies.
* `ends_answer`, `ends_solve`: the prover answers or gives up, and what it answers decides the
  problem.
-/

namespace ModelFinder.Prover

open Trace (Builder Chains Derives)

/-! ### What an answer has to be -/

/-- The clauses up to the first empty one, which is the last of them. -/
def throughEmpty : List (List Literal) → List (List Literal)
  | [] => []
  | ls :: rest => if ls = [] then [ls] else ls :: throughEmpty rest

theorem throughEmpty_of_not_mem {cs : List (List Literal)} (h : [] ∉ cs) :
    throughEmpty cs = cs := by
  induction cs with
  | nil => rfl
  | cons ls rest ih =>
      have hne : ls ≠ [] := fun e => h (e ▸ List.mem_cons_self)
      rw [throughEmpty, if_neg hne, ih fun hm => h (List.mem_cons_of_mem ls hm)]

theorem throughEmpty_initial (cs : List (List Literal)) : throughEmpty cs <+: cs := by
  induction cs with
  | nil => exact List.nil_prefix
  | cons ls rest ih =>
      unfold throughEmpty
      split
      next => exact ⟨rest, rfl⟩
      next => exact List.cons_prefix_cons.mpr ⟨rfl, ih⟩

/-- All clauses are kept if the last one is the only one that may be empty, and in no other case. -/
theorem length_throughEmpty_eq_iff {cs : List (List Literal)} :
    (throughEmpty cs).length = cs.length ↔ [] ∉ cs.dropLast := by
  induction cs with
  | nil => simp [throughEmpty]
  | cons ls rest ih =>
      unfold throughEmpty
      cases rest with
      | nil => split <;> simp [throughEmpty]
      | cons ks rest =>
          rw [List.dropLast_cons_of_ne_nil (List.cons_ne_nil ks rest)]
          split
          next h => simp [h]
          next h =>
            have h' : ¬ [] = ls := fun e => h e.symm
            rw [List.mem_cons, not_or, ← ih]
            simp [h']

/-- A model of a problem. -/
structure Solves (cnf : Cnf) (a : Assignment) : Prop where
  numVariables_eq : a.numVariables = cnf.numVariables
  satisfies : ∀ ls ∈ cnf.clauses, ∃ l ∈ ls, a.satisfies l = true

/-- A refutation of some clauses.  If none of them is empty, only the last clause of the refutation
is, and otherwise an empty clause is all that the refutation depends on. -/
structure Refutes (cs : List (List Literal)) (t : Trace) : Prop where
  wellFormed : t.WellFormed
  isProof : t.IsProof
  endsEmpty : t.EndsEmpty
  inputs_eq : t.inputs.map (·.clause) = (throughEmpty cs).map .ofList
  eq_terminal : [] ∉ cs → ∀ ⦃i c⦄, t.get? i = some c → c.clause = .empty → i = t.terminal
  core_empty : [] ∈ cs → ∀ i ∈ t.core, ∃ c, t.get? i = some c ∧ c.clause = .empty

/-- An answer which is right. -/
def Decides (cnf : Cnf) : SatOutcome → Prop
  | .satisfiable a => Solves cnf a
  | .unsatisfiable t => Refutes cnf.clauses t

theorem Solves.all_any {cnf : Cnf} {a : Assignment} (h : Solves cnf a) :
    (cnf.clauses.all fun ls => ls.any a.satisfies) = true :=
  List.all_eq_true.mpr fun ls hls => List.any_eq_true.mpr (h.satisfies ls hls)

theorem Solves.satisfiable {cnf : Cnf} {a : Assignment} (h : Solves cnf a) : cnf.Satisfiable :=
  ⟨a.valuation, Assignment.models_valuation h.satisfies⟩

theorem Refutes.isRefutation {cs : List (List Literal)} {t : Trace} (h : Refutes cs t) :
    t.IsRefutation := ⟨h.wellFormed, h.isProof.isSound, h.endsEmpty⟩

/-- The input clauses of a refutation are given. -/
theorem Refutes.given {cs : List (List Literal)} {t : Trace} (h : Refutes cs t) :
    ∀ c ∈ t.inputs, ∃ ls ∈ cs, c.clause = .ofList ls := by
  intro c hc
  have hmem : c.clause ∈ t.inputs.map (·.clause) := List.mem_map_of_mem hc
  rw [h.inputs_eq] at hmem
  obtain ⟨ls, hls, he⟩ := List.mem_map.mp hmem
  exact ⟨ls, (throughEmpty_initial cs).mem hls, he.symm⟩

/-- What has a refutation has no model. -/
theorem Refutes.not_models {cs : List (List Literal)} {t : Trace} (h : Refutes cs t)
    (f : Valuation) : ¬ f.Models cs := by
  intro hf
  refine h.isRefutation.not_forall_inputs f fun c hc => ?_
  obtain ⟨ls, hls, he⟩ := h.given c hc
  rw [he]
  exact Valuation.satisfies_ofList.mpr (hf ls hls)

theorem Refutes.numAxioms_eq {cs : List (List Literal)} {t : Trace} (h : Refutes cs t) :
    t.numAxioms = (throughEmpty cs).length := by
  rw [← Trace.length_inputs h.wellFormed, ← List.length_map (·.clause), h.inputs_eq,
    List.length_map]

/-! ### Models -/

section Models

variable {clauses : List TraceClause} {n : Nat} {t : Trail}

/-- The values of a trail which gives one to every variable. -/
theorem satisfies_assignment {l : Literal} (h : t.value? l = some true) :
    t.assignment.satisfies l = true := by
  unfold Trail.value? at h
  obtain ⟨b, hb, he⟩ := Option.map_eq_some_iff.mp h
  have hget : t.values[l.var.slot]? = some (some b) := by
    cases hv : t.values[l.var.slot]? with
    | none => rw [hv] at hb; cases hb
    | some o => rw [hv] at hb; exact congrArg some hb
  rw [Assignment.satisfies, Assignment.value?, Trail.assignment, Array.getElem?_map, hget]
  simpa using he

/-- A literal is true, or its negation is. -/
theorem value?_eq_true_or (hslot : ∀ l : Literal, l.var.slot < t.values.size → t.value? l ≠ none)
    {l : Literal} (hl : l.var.slot < t.values.size) :
    t.value? l = some true ∨ t.value? (-l) = some true := by
  cases hv : t.value? l with
  | none => exact absurd hv (hslot l hl)
  | some b =>
      cases b with
      | true => exact .inl rfl
      | false => exact .inr (by rw [Trail.value?_neg, hv]; rfl)

/-- A clause that is not falsified by a trail which gives a value to every variable is satisfied. -/
theorem exists_true (hslot : ∀ l : Literal, l.var.slot < t.values.size → t.value? l ≠ none)
    {c : Clause} (hc : ∀ l ∈ c, l.var.slot < t.values.size) (hf : t.state c ≠ .falsified) :
    ∃ l ∈ c, t.value? l = some true := by
  refine Classical.byContradiction fun hno => hf (Trail.state_eq_falsified_iff.mpr fun l hl => ?_)
  rcases hv : t.value? l with _ | b
  · exact absurd hv (hslot l (hc l hl))
  · cases b with
    | true => exact absurd ⟨l, hl, hv⟩ hno
    | false => rfl

/-- A tautology has a true literal under every trail which gives a value to every variable. -/
theorem exists_true_of_isTautology
    (hslot : ∀ l : Literal, l.var.slot < t.values.size → t.value? l ≠ none) {c : Clause}
    (hc : ∀ l ∈ c, l.var.slot < t.values.size) (h : c.isTautology = true) :
    ∃ l ∈ c, t.value? l = some true := by
  obtain ⟨l, hl, hn⟩ := List.any_eq_true.mp h
  rcases value?_eq_true_or hslot (hc l hl) with hv | hv
  · exact ⟨l, hl, hv⟩
  · exact ⟨-l, Clause.contains_iff.mp hn, hv⟩

theorem slot_lt_numVariables {cnf : Cnf} {ls : List Literal} (hls : ls ∈ cnf.clauses)
    {l : Literal} (hl : l ∈ ls) : l.var.slot < cnf.numVariables := by
  have hle := Cnf.index_le_numVariables hls hl
  have hpos := l.var.one_le
  show l.var.index - 1 < cnf.numVariables
  omega

/-- The values at the end of a search that has found a model. -/
theorem solves_assignment {cnf : Cnf} (ht : t.Valid clauses cnf.numVariables)
    (hnone : t.firstUndecided? = none) (hf : ∀ c ∈ clauses, t.state c.clause ≠ .falsified)
    (hall : ∀ ls ∈ cnf.clauses, (Clause.ofList ls).isTautology = true ∨
      ∃ c ∈ clauses, c.clause = .ofList ls) : Solves cnf t.assignment := by
  have hslot : ∀ l : Literal, l.var.slot < t.values.size → t.value? l ≠ none := fun l hl =>
    Trail.value?_ne_none_of_firstUndecided? hnone hl
  refine ⟨?_, fun ls hls => ?_⟩
  · show (t.values.map _).size = cnf.numVariables
    rw [Array.size_map, ht.size_eq]
  · have hrange : ∀ l ∈ Clause.ofList ls, l.var.slot < t.values.size := fun l hl => by
      rw [ht.size_eq]
      exact slot_lt_numVariables hls (Clause.mem_ofList.mp hl)
    have htrue : ∃ l ∈ Clause.ofList ls, t.value? l = some true := by
      rcases hall ls hls with htaut | ⟨c, hc, he⟩
      · exact exists_true_of_isTautology hslot hrange htaut
      · exact exists_true hslot hrange (he ▸ hf c hc)
    obtain ⟨l, hl, hv⟩ := htrue
    exact ⟨l, Clause.mem_ofList.mp hl, satisfies_assignment hv⟩

end Models

/-! ### The input clauses -/

/-- What the prover knows when it has added clauses to a trace: an empty clause, if there is one,
and the clauses to search. -/
structure Added (b : Builder) (cs : List (List Literal))
    (r : Option TraceClause × List TraceClause) (b' : Builder) : Prop where
  kept : ∀ {i c}, b.trace.get? i = some c → b'.trace.get? i = some c
  empty : ∀ {c}, r.1 = some c → [] ∈ cs ∧ c.clause = .empty ∧ b'.trace.get? c.index = some c
  present : ∀ c ∈ r.2, b'.trace.get? c.index = some c ∧ ∃ ls ∈ cs, c.clause = .ofList ls
  searched : r.1 = none → ∀ ls ∈ cs, ls ≠ [] ∧
    ((Clause.ofList ls).isTautology = true ∨ ∃ c ∈ r.2, c.clause = .ofList ls)

/-- One more clause in front, which is not empty. -/
theorem Added.cons {b b₁ b' : Builder} {cs : List (List Literal)} {ls : List Literal}
    {r : Option TraceClause × List TraceClause} {c : TraceClause} (h : Added b₁ cs r b')
    (hkept : ∀ {i d}, b.trace.get? i = some d → b₁.trace.get? i = some d)
    (hc : b₁.trace.get? c.index = some c) (hls : c.clause = .ofList ls) (hne : ls ≠ []) :
    Added b (ls :: cs) (r.1, if c.clause.isTautology then r.2 else c :: r.2) b' where
  kept hi := h.kept (hkept hi)
  empty he :=
    let ⟨hmem, hempty⟩ := h.empty he
    ⟨List.mem_cons_of_mem ls hmem, hempty⟩
  present d hd := by
    have hd : d = c ∨ d ∈ r.2 := by
      split at hd
      next => exact .inr hd
      next => exact List.mem_cons.mp hd
    rcases hd with rfl | hd
    · exact ⟨h.kept hc, ls, List.mem_cons_self, hls⟩
    · obtain ⟨hget, ks, hks, he⟩ := h.present d hd
      exact ⟨hget, ks, List.mem_cons_of_mem ls hks, he⟩
  searched hnone ks hks := by
    rcases List.mem_cons.mp hks with rfl | hks
    · refine ⟨hne, ?_⟩
      by_cases htaut : (Clause.ofList ks).isTautology = true
      · exact .inl htaut
      · exact .inr ⟨c, by simp [hls, htaut], hls⟩
    · obtain ⟨hne', htaut | ⟨d, hd, he⟩⟩ := h.searched hnone ks hks
      · exact ⟨hne', .inl htaut⟩
      · refine ⟨hne', .inr ⟨d, ?_, he⟩⟩
        show d ∈ if c.clause.isTautology then r.2 else c :: r.2
        split
        next => exact hd
        next => exact List.mem_cons_of_mem c hd

section Runs

open Session StopCondition Search

variable {σ : Type} {s : State σ}

/-- All clauses up to the first empty one are added. -/
theorem ends_addAxioms {ds : List Clause} (cs : List (List Literal))
    (h : Derives Chains s.builder ds ds) :
    (addAxioms cs).Ends s (fun r s' => Added s.builder cs r s'.builder ∧
      Derives Chains s'.builder (ds ++ (throughEmpty cs).map .ofList)
        (ds ++ (throughEmpty cs).map .ofList) ∧ s'.stop = s.stop)
      fun _ _ => False := by
  induction cs generalizing s ds with
  | nil =>
      unfold addAxioms throughEmpty
      rw [ends_pure, List.map_nil, List.append_nil]
      refine ⟨⟨id, fun e => ?_, fun c hc => ?_, fun _ ls hls => ?_⟩, h, rfl⟩
      · cases e
      · exact absurd hc List.not_mem_nil
      · exact absurd hls List.not_mem_nil
  | cons ls cs ih =>
      obtain ⟨c, b, hadd, hc, hget, hkept, hb⟩ := h.exists_addAxiom ls
      unfold addAxioms
      rw [ends_bind]
      refine (ends_addAxiom hadd).mpr ?_
      by_cases hempty : ls = []
      · have hisEmpty : c.clause.isEmpty = true := by
          rw [Clause.isEmpty_iff, hc, Clause.ofList_eq_empty]; exact hempty
        rw [if_pos hisEmpty, ends_pure]
        refine ⟨⟨hkept, fun e => ?_, fun d hd => ?_, fun e => by cases e⟩, ?_, rfl⟩
        · cases e
          exact ⟨hempty ▸ List.mem_cons_self, Clause.isEmpty_iff.mp hisEmpty, hget⟩
        · exact absurd hd List.not_mem_nil
        · simpa [throughEmpty, hempty] using hb
      · have hisEmpty : ¬ c.clause.isEmpty = true := by
          rw [Clause.isEmpty_iff, hc, Clause.ofList_eq_empty]; exact hempty
        rw [if_neg hisEmpty, ends_bind]
        refine (ih (s := ⟨b, s.counters, s.stop⟩) hb).mono (fun r s' ⟨hadded, hb', hstop⟩ => ?_)
          fun _ _ he => he
        rw [ends_pure]
        refine ⟨hadded.cons hkept hget hc hempty, ?_, hstop⟩
        simpa [throughEmpty, hempty] using hb'

variable {cnf : Cnf} {cs : List (List Literal)}

/-- The core of a trace whose last clause comes from one input clause is this clause. -/
theorem eq_of_mem_core {t : Trace} {c r : TraceClause} (ht : t.WellFormed)
    (hc : t.get? c.index = some c) (hax : c.index < t.numAxioms) (hr : t.get? t.terminal = some r)
    (hrc : r.antecedents = [c.index]) : ∀ i ∈ t.core, i = c.index := by
  have hclosed : t.Closed fun i => i = c.index ∨ i = t.terminal := by
    rintro i d hd (rfl | rfl) a ha
    · obtain rfl := Option.some.inj (hc.symm.trans hd)
      rw [(ht.isAxiom_iff hc).mpr hax] at ha
      exact absurd ha List.not_mem_nil
    · obtain rfl := Option.some.inj (hr.symm.trans hd)
      rw [hrc] at ha
      exact .inl (List.mem_singleton.mp ha)
  intro i hi
  rcases Trace.of_mem_core ht hclosed (.inr rfl) i hi with h | rfl
  · exact h
  · have hder := (ht.isAxiom_iff hr).mpr (Trace.mem_core.mp hi).2
    rw [hrc] at hder
    cases hder

/-- The refutation by an empty clause among those of the problem. -/
theorem ends_emptyClause {E : Failure → State σ → Prop} {c : TraceClause} {ins : List Clause}
    (h : Derives Chains s.builder ins ins) (hins : ins = (throughEmpty cs).map .ofList)
    (hmem : [] ∈ cs) (hc : c.clause = .empty) (hget : s.builder.trace.get? c.index = some c) :
    (do let _ ← addResolvent [] [c.index]; finish : Search σ SatOutcome).Ends s
      (fun o s' => (∃ t, o = .unsatisfiable t ∧ Refutes cs t) ∧ s'.stop = s.stop) E := by
  have hat : s.builder.trace.clausesAt [c.index] = some [c.clause] :=
    Trace.clausesAt_cons.mpr ⟨c, [], hget, rfl, rfl⟩
  obtain ⟨r, b, hadd⟩ :=
    Builder.exists_addResolvent [] (List.cons_ne_nil _ _) (Trace.lt_of_clausesAt hat)
  have hb := h.addResolvent hadd hat (congrArg some hc)
  obtain ⟨hgrows, hr⟩ := Builder.grows_of_addResolvent hadd
  have hends : b.trace.EndsEmpty := by
    rw [Trace.endsEmpty_iff, hb.clauseList_eq, List.getLast?_concat]
    rfl
  -- the terminal clause has no other antecedent, so the empty clause is the whole core
  have hcore : ∀ i ∈ b.trace.core, i = c.index := by
    obtain ⟨-, -, hre, hbe⟩ := Builder.addResolvent_eq_ok.mp hadd
    have hlast : b.trace.terminal = r.index := by
      rw [hre, hbe]
      show (s.builder.clauses.push _).size - 1 = s.builder.clauses.size
      rw [Array.size_push, Nat.add_sub_cancel]
    refine eq_of_mem_core hb.wellFormed (hgrows.get? hget) ?_ (hlast ▸ hr) (by rw [hre])
    have hlt : c.index < s.builder.size := Trace.get?_lt hget
    rw [hgrows.numAxioms_eq]
    show c.index < s.builder.numAxioms
    rw [h.numAxioms_eq, ← h.size_eq]
    exact hlt
  rw [ends_bind]
  have hbuild := Trace.build_eq_ok_iff.mpr ⟨rfl, hends⟩
  refine (ends_addResolvent hadd).mpr ((ends_finish hbuild).mpr ?_)
  refine ⟨⟨_, rfl, hb.wellFormed, hb.isProof, hends, ?_, fun hno => absurd hmem hno,
    fun _ i hi => ?_⟩, rfl⟩
  · rw [hb.inputs_eq, hins]
  · rw [hcore i hi]
    exact ⟨c, hgrows.get? hget, hc⟩

/-- The refutation that a search finds. -/
theorem ends_refuted {E : Failure → State σ → Prop} {clauses : List TraceClause} {n : Nat}
    {b : Builder} {c : TraceClause} {ins : List Clause} (hb : Derives Chains b ins ins)
    (hins : ins = (throughEmpty cs).map .ofList) (hno : [] ∉ cs)
    (hs : Supports clauses s.builder) (hgrows : b.trace.Grows s.builder.trace)
    (hf : Found clauses n (.initial n) s.builder (.refuted c)) :
    finish.Ends s
      (fun o s' => (∃ t, o = .unsatisfiable t ∧ Refutes cs t) ∧ s'.stop = s.stop) E ∧
      c.clause = .empty ∧ c.index + 1 = s.builder.size := by
  obtain ⟨hget, hdec, honly⟩ := hf
  have hc : c.clause = .empty := falsifies_nil.mp hdec
  have hterminal : ∀ {i d}, s.builder.trace.get? i = some d → d.clause = .empty →
      i = s.builder.trace.terminal := fun {i d} hi hd => by
    have hlast : i + 1 = s.builder.trace.size := (honly hi hd).2
    show i = s.builder.trace.size - 1
    omega
  have hends : s.builder.trace.EndsEmpty := ⟨c, hterminal hget hc ▸ hget, hc⟩
  have hbuild := Trace.build_eq_ok_iff.mpr ⟨rfl, hends⟩
  refine ⟨(ends_finish hbuild).mpr ⟨⟨_, rfl, ?_⟩, rfl⟩, hc, (honly hget hc).2⟩
  refine ⟨hs.wellFormed, hs.isProof, hends, ?_, fun _ i d hi hd => hterminal hi hd,
    fun hmem => absurd hmem hno⟩
  rw [hgrows.inputs_eq hb.wellFormed, hb.inputs_eq, hins]

/-- The clauses to search are in the trace and mention no variable past those of the problem. -/
theorem Added.supports {b b' : Builder} {r : Option TraceClause × List TraceClause}
    {ins : List Clause} (h : Added b cnf.clauses r b') (hb : Derives Chains b' ins ins) :
    Supports r.2 b' ∧ Trail.InRange r.2 cnf.numVariables := by
  refine ⟨⟨hb.wellFormed, hb.isProof, fun c hc => (h.present c hc).1⟩, fun c hc l hl => ?_⟩
  obtain ⟨-, ls, hls, he⟩ := h.present c hc
  exact slot_lt_numVariables hls (Clause.mem_ofList.mp (he ▸ hl))

/-- If no clause is empty, none of the trace is. -/
theorem Added.noneEmpty {b b' : Builder} {r : Option TraceClause × List TraceClause}
    {ins : List Clause} (h : Added b cs r b') (hnone : r.1 = none) (hb : Derives Chains b' ins ins)
    (hins : ins = (throughEmpty cs).map .ofList) : NoneEmpty b' := by
  intro i c hi hc
  obtain ⟨ls, hls, he⟩ := List.mem_map.mp (hins ▸ hb.clause_mem hi)
  have hls' := (throughEmpty_initial cs).mem hls
  exact (h.searched hnone ls hls').1 (Clause.ofList_eq_empty.mp (he.trans hc))

/-- A search of the clauses of a problem, from a trace that lists them all, finds the model. -/
inductive Finds (cnf : Cnf) : Assignment → Prop
  | intro {clauses : List TraceClause} {b b' : Builder} {t : Trail}
      (added : Added .empty cnf.clauses (none, clauses) b)
      (derives : Derives Chains b ((throughEmpty cnf.clauses).map .ofList)
        ((throughEmpty cnf.clauses).map .ofList))
      (explores : Explores clauses (.initial cnf.numVariables) b (.model t) b') :
      Finds cnf t.assignment

theorem undecided_initial (n : Nat) : (Trail.initial n).undecided ≤ n :=
  Nat.le_trans Array.countP_le_size (Nat.le_of_eq Array.size_replicate)

variable [StopCondition σ]

/-- From an empty trace, the prover answers, and its answer decides the problem, or it gives up.  A
model that it answers is found by a search. -/
theorem ends_answer_finds (cnf : Cnf) (hs : s.builder = .empty) : (answer cnf).Ends s
    (fun o s' => Decides cnf o ∧ (∀ a, o = .satisfiable a → Finds cnf a) ∧
      (NeverTriggers s.stop → NeverTriggers s'.stop))
    fun e _ => GivesUp s.stop e := by
  unfold answer
  rw [ends_bind]
  refine (ends_addAxioms cnf.clauses (hs ▸ Trace.derives_empty)).mono
    (fun ⟨empty?, clauses⟩ s₁ ⟨hadded, hb, hstop⟩ => ?_) fun _ _ he => he.elim
  cases empty? with
  | some c =>
      obtain ⟨hmem, hc, hget⟩ := hadded.empty rfl
      refine (ends_emptyClause hb (List.nil_append _) hmem hc hget).mono
        (fun o s' ⟨⟨t, ht, href⟩, hstop'⟩ => ?_) fun _ _ he => he
      subst ht
      exact ⟨href, nofun, by rw [hstop', hstop]; exact id⟩
  | none =>
      obtain ⟨hsup, hrange⟩ := hadded.supports hb
      have hnone := hadded.noneEmpty rfl hb (List.nil_append _)
      have hvalid := Trail.valid_initial clauses cnf.numVariables
      rw [← hstop, ends_bind]
      refine (searches hrange _ _ s₁ hvalid (undecided_initial _) hsup hnone).mono
        (fun node s₂ ⟨hexp, hstop₂⟩ => ?_) fun _ _ he => he
      obtain ⟨hsup₂, hgrows, hfound⟩ := hexp.found hrange hvalid hsup hnone
      cases node with
      | model t =>
          obtain ⟨ht, hquiet, hf⟩ := hfound
          have hsolves := solves_assignment ht hquiet hf fun ls hls =>
            (hadded.searched rfl ls hls).2
          refine (ends_assert hsolves.all_any).mpr ⟨hsolves, fun a ha => ?_, hstop₂⟩
          cases ha
          exact .intro (hs ▸ hadded) hb hexp
      | refuted c =>
          -- the refutation is the last clause, so that it is not derived once more
          have hno : [] ∉ cnf.clauses := fun hmem => (hadded.searched rfl [] hmem).1 rfl
          obtain ⟨hfinish, hempty, hlast⟩ :=
            ends_refuted hb (List.nil_append _) hno hsup₂ hgrows hfound
          refine (ends_assert (Clause.isEmpty_iff.mpr hempty)).mpr ?_
          simp only [ends_bind, ends_read]
          rw [if_neg (not_not_intro hlast)]
          refine hfinish.mono (fun o s' ⟨⟨t, ht, href⟩, hstop'⟩ => ?_) fun _ _ he => he
          subst ht
          exact ⟨href, nofun, by rw [hstop']; exact hstop₂⟩

/-- From an empty trace, the prover answers, and its answer decides the problem, or it gives up. -/
theorem ends_answer (cnf : Cnf) (hs : s.builder = .empty) : (answer cnf).Ends s
    (fun o s' => Decides cnf o ∧ (NeverTriggers s.stop → NeverTriggers s'.stop))
    fun e _ => GivesUp s.stop e :=
  (ends_answer_finds cnf hs).mono (fun _ _ h => ⟨h.1, h.2.2⟩) fun _ _ he => he

/-- **The prover decides every problem**, unless its stop condition triggers. -/
theorem ends_solve (cnf : Cnf) (k : Counters) (stop : σ) : (solve cnf).Ends (k, stop)
    (fun o s' => Decides cnf o ∧ (NeverTriggers stop → NeverTriggers s'.2))
    fun e _ => GivesUp stop e := by
  unfold solve
  rw [ends_within]
  exact ends_answer cnf rfl

end Runs

end ModelFinder.Prover
