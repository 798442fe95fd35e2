import ModelFinder.Proofs.Prover.Answer

/-!
# How a problem comes to be refuted

There are two ways to a refutation (`Prover.Concludes`).  If one of the clauses is empty, the prover
derives another copy of it and is done.  If none is, all of them are in the trace, nothing has been
derived yet, and those which are no tautologies are searched (`Prover.Searched`); the refutation
which the search finds is then the empty clause, and the last one of the trace.

* `exists_searched`: without an empty clause, there is a search.
* `concludes_of_solve`: each refutation comes about in one of these ways.
-/

namespace ModelFinder.Prover

open Session StopCondition Search
open Trace (Builder Chains Derives)

/-! ### The clauses to search -/

/-- Clauses that are searched: the ones of the problem which are no tautologies, at their places in
a trace that holds those of the problem and nothing else. -/
structure Searched (cnf : Cnf) (clauses : List TraceClause) (b : Builder) : Prop where
  supports : Supports clauses b
  inRange : Trail.InRange clauses cnf.numVariables
  noneEmpty : NoneEmpty b
  size_eq : b.size = b.numAxioms
  given : ∀ c ∈ clauses, ∃ ls, cnf.clauses[c.index]? = some ls ∧ c.clause = .ofList ls
  plain : ∀ c ∈ clauses, c.clause.isTautology = false

section Searched

variable {σ : Type} {s s₁ : State σ} {cnf : Cnf} {clauses : List TraceClause}

theorem ends_addAxiom_counters (ls : List Literal) : (addAxiom ls).Ends s
    (fun _ s' => s'.counters = s.counters) fun _ _ => True := by
  refine ends_building.mpr ?_
  unfold Ends
  split
  next => rfl
  next => trivial

/-- Tautologies are not searched, and input clauses are not counted. -/
theorem ends_addAxioms_plain (cs : List (List Literal)) : (addAxioms cs).Ends s
    (fun r s' => (∀ c ∈ r.2, c.clause.isTautology = false) ∧ s'.counters = s.counters)
    fun _ _ => True := by
  induction cs generalizing s with
  | nil => exact ⟨fun c hc => absurd hc List.not_mem_nil, rfl⟩
  | cons ls cs ih =>
      unfold addAxioms
      rw [ends_bind]
      refine (ends_addAxiom_counters ls).mono (fun c s₁ hcounters => ?_) fun _ _ h => h
      rw [ends_ite]
      split
      next => exact ⟨fun c hc => absurd hc List.not_mem_nil, hcounters⟩
      next =>
        rw [ends_bind]
        refine ih.mono (fun r s₂ h => ⟨fun d hd => ?_, h.2.trans hcounters⟩) fun _ _ h => h
        dsimp only at hd
        split at hd
        next => exact h.1 d hd
        next htaut =>
          rcases List.mem_cons.mp hd with rfl | hd
          · exact Bool.not_eq_true _ ▸ htaut
          · exact h.1 d hd

/-- What there is in the trace if an empty clause has been added. -/
theorem given_of_addAxioms {c : TraceClause} (hs : s.builder = .empty)
    (h : (addAxioms cnf.clauses).Answers s (some c, clauses) s₁) :
    [] ∈ cnf.clauses ∧ s₁.builder.trace.WellFormed ∧ s₁.builder.size = s₁.builder.numAxioms ∧
      s₁.builder.trace.get? c.index = some c ∧ s₁.counters = s.counters := by
  have hends := ends_addAxioms cnf.clauses (s := s) (hs ▸ Trace.derives_empty)
  obtain ⟨hadded, hb, -⟩ := h.ends_iff.mp hends
  obtain ⟨-, hcounters⟩ := h.ends_iff.mp (ends_addAxioms_plain cnf.clauses)
  obtain ⟨hmem, -, hget⟩ := hadded.empty rfl
  exact ⟨hmem, hb.wellFormed, hb.size_eq.trans hb.numAxioms_eq.symm, hget, hcounters⟩

theorem not_mem_of_addAxioms (hs : s.builder = .empty)
    (h : (addAxioms cnf.clauses).Answers s (none, clauses) s₁) : [] ∉ cnf.clauses := by
  have hends := ends_addAxioms cnf.clauses (s := s) (hs ▸ Trace.derives_empty)
  obtain ⟨hadded, -, -⟩ := h.ends_iff.mp hends
  exact fun hmem => (hadded.searched rfl [] hmem).1 rfl

/-- What is searched, if the clauses have been added to an empty trace. -/
theorem searched_of_addAxioms (hs : s.builder = .empty)
    (h : (addAxioms cnf.clauses).Answers s (none, clauses) s₁) :
    Searched cnf clauses s₁.builder ∧ s₁.counters = s.counters := by
  have hends := ends_addAxioms cnf.clauses (s := s) (hs ▸ Trace.derives_empty)
  obtain ⟨hadded, hb, -⟩ := h.ends_iff.mp hends
  obtain ⟨hplain, hcounters⟩ := h.ends_iff.mp (ends_addAxioms_plain cnf.clauses)
  have hno := not_mem_of_addAxioms hs h
  rw [throughEmpty_of_not_mem hno, List.nil_append] at hb
  obtain ⟨hsup, hrange⟩ := hadded.supports hb
  refine ⟨⟨hsup, hrange, ?_, hb.size_eq.trans hb.numAxioms_eq.symm, fun c hc => ?_, hplain⟩,
    hcounters⟩
  · exact hadded.noneEmpty rfl hb (by rw [throughEmpty_of_not_mem hno])
  · have hget := Trace.getElem?_clauseList s₁.builder.trace c.index
    rw [hb.clauseList_eq, (hadded.present c hc).1, List.getElem?_map, Option.map_some,
      Option.map_eq_some_iff] at hget
    obtain ⟨ls, hls, he⟩ := hget
    exact ⟨ls, hls, he.symm⟩

/-- A problem without an empty clause is searched. -/
theorem exists_searched (hs : s.builder = .empty) (hno : [] ∉ cnf.clauses) :
    ∃ clauses s₁, (addAxioms cnf.clauses).Answers s (none, clauses) s₁ := by
  have hends := ends_addAxioms cnf.clauses (s := s) (hs ▸ Trace.derives_empty)
  obtain ⟨⟨empty?, clauses⟩, hanswer, -⟩ := hends.exists_answer
  cases empty? with
  | none => exact ⟨clauses, _, hanswer, rfl⟩
  | some c => exact absurd (given_of_addAxioms hs ⟨hanswer, rfl⟩).1 hno

end Searched

/-! ### Refutations -/

section Concludes

variable {σ : Type} [StopCondition σ] {cnf : Cnf} {s : State σ}

/-- From a state with an empty trace, a problem is refuted in one of two ways. -/
inductive Concludes (cnf : Cnf) (s : State σ) : Trace → State σ → Prop
  | given {c r : TraceClause} {clauses : List TraceClause} {s₁ s' : State σ}
      (added : (addAxioms cnf.clauses).Answers s (some c, clauses) s₁)
      (closed : (addResolvent [] [c.index]).Answers s₁ r s') : Concludes cnf s s'.builder.trace s'
  | searched {c : TraceClause} {clauses : List TraceClause} {s₁ s' : State σ}
      (added : (addAxioms cnf.clauses).Answers s (none, clauses) s₁)
      (refuted : (search clauses cnf.numVariables (.initial cnf.numVariables)).Answers s₁
        (.refuted c) s')
      (empty : c.clause = .empty) (last : c.index + 1 = s'.builder.size) :
      Concludes cnf s s'.builder.trace s'

omit [StopCondition σ] in
theorem ends_finish_trace : finish.Ends s
    (fun o s' => o = .unsatisfiable s.builder.trace ∧ s' = s) fun _ _ => True := by
  unfold Ends finish
  cases hbuild : s.builder.build with
  | ok t =>
      obtain ⟨rfl, -⟩ := Trace.build_eq_ok_iff.mp hbuild
      exact ⟨rfl, rfl⟩
  | error e => trivial

/-- What a search from the root finds. -/
theorem found_of_search {clauses : List TraceClause} {s₁ s' : State σ} {node : Node}
    (hsearched : Searched cnf clauses s₁.builder)
    (h : (search clauses cnf.numVariables (.initial cnf.numVariables)).Answers s₁ node s') :
    Supports clauses s'.builder ∧ s₁.builder.trace.Grows s'.builder.trace ∧
      Found clauses cnf.numVariables (.initial cnf.numVariables) s'.builder node := by
  have hvalid := Trail.valid_initial clauses cnf.numVariables
  obtain ⟨hexplores, -⟩ := h.ends_iff.mp (searches hsearched.inRange _ _ s₁ hvalid
    (undecided_initial _) hsearched.supports hsearched.noneEmpty)
  exact hexplores.found hsearched.inRange hvalid hsearched.supports hsearched.noneEmpty

/-- The refutation which a search from the root finds is the empty clause, and it is the last
clause of the trace. -/
theorem empty_of_search {clauses : List TraceClause} {s₁ s' : State σ} {c : TraceClause}
    (hsearched : Searched cnf clauses s₁.builder)
    (h : (search clauses cnf.numVariables (.initial cnf.numVariables)).Answers s₁
      (.refuted c) s') : c.clause = .empty ∧ c.index + 1 = s'.builder.size := by
  obtain ⟨-, -, hget, hdec, honly⟩ := found_of_search hsearched h
  have hc : c.clause = .empty := falsifies_nil.mp hdec
  exact ⟨hc, (honly hget hc).2⟩

theorem ends_answer_concludes (cnf : Cnf) (hs : s.builder = .empty) : (answer cnf).Ends s
    (fun o s' => ∀ t, o = .unsatisfiable t → Concludes cnf s t s') fun _ _ => True := by
  unfold answer
  rw [ends_bind]
  refine (ends_self _ s).mono (fun ⟨empty?, clauses⟩ s₁ hadded => ?_) fun _ _ _ => trivial
  cases empty? with
  | some c =>
      dsimp only
      rw [ends_bind]
      refine (ends_self _ s₁).mono (fun r s₂ hclosed => ?_) fun _ _ _ => trivial
      refine ends_finish_trace.mono (fun o s' ⟨ho, hs'⟩ t ht => ?_) fun _ _ h => h
      subst hs'
      cases ho.symm.trans ht
      exact .given hadded hclosed
  | none =>
      dsimp only
      rw [ends_bind]
      refine (ends_self _ s₁).mono (fun node s₂ hnode => ?_) fun _ _ _ => trivial
      cases node with
      | model m =>
          dsimp only
          rw [ends_bind]
          exact (ends_self _ s₂).mono (fun _ _ _ t ht => nomatch ht) fun _ _ _ => trivial
      | refuted c =>
          obtain ⟨hempty, hlast⟩ := empty_of_search (searched_of_addAxioms hs hadded).1 hnode
          refine (ends_assert (Clause.isEmpty_iff.mpr hempty)).mpr ?_
          simp only [ends_bind, ends_read]
          rw [if_neg (not_not_intro hlast)]
          refine ends_finish_trace.mono (fun o s' ⟨ho, hs'⟩ t ht => ?_) fun _ _ h => h
          subst hs'
          cases ho.symm.trans ht
          exact .searched hadded hnode hempty hlast

/-- **Each refutation that the prover answers comes about in one of the two ways**, and the counters
are those at its end. -/
theorem concludes_of_solve {k k' : Counters} {stop stop' : σ} {t : Trace}
    (h : (solve cnf).Answers (k, stop) (.unsatisfiable t) (k', stop')) :
    ∃ s', Concludes cnf ⟨.empty, k, stop⟩ t s' ∧ s'.counters = k' := by
  obtain ⟨hanswer, hstate⟩ := h
  have hends := ends_answer_concludes cnf (s := ⟨.empty, k, stop⟩) rfl
  exact ⟨_, hends.of_answer hanswer t rfl, congrArg Prod.fst hstate⟩

end Concludes

/-- A problem with two variables that excludes each of their four combinations. -/
def fourClauses : Cnf :=
  ⟨2, [[1, 2], [1, -2], [-1, 2], [-1, -2]].map (·.filterMap Literal.ofDimacs?)⟩

end ModelFinder.Prover
