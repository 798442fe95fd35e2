import ModelFinder.Proofs.Prover.Answer
import ModelFinder.Proofs.Trace.Exchange

/-!
# Refutations of the prover can be exchanged

If no clause of the problem is empty, the only empty clause of a refutation is its last one.
Otherwise the refutation is over with the first empty clause of the problem, and all that is derived
is the empty clause once more.  Both are traces that are imported as they were exported
(`exchangeable_of_solve`).
-/

namespace ModelFinder.Prover

open Trace (Builder Chains Derives Exchangeable OnlyLastEmpty)
open Session StopCondition Search

variable {σ : Type} {cs : List (List Literal)} {t : Trace} {s : State σ} {cnf : Cnf}

/-- The first empty clause comes last. -/
theorem throughEmpty_of_mem (h : [] ∈ cs) : ∃ pre, throughEmpty cs = pre ++ [[]] ∧ [] ∉ pre := by
  induction cs with
  | nil => exact absurd h List.not_mem_nil
  | cons ls rest ih =>
      unfold throughEmpty
      by_cases hls : ls = []
      · exact ⟨[], by rw [if_pos hls, hls]; rfl, List.not_mem_nil⟩
      · obtain ⟨pre, hpre, hno⟩ := ih (List.mem_of_ne_of_mem (Ne.symm hls) h)
        refine ⟨ls :: pre, by rw [if_neg hls, hpre]; rfl, fun hmem => ?_⟩
        exact (List.mem_cons.mp hmem).elim (fun e => hls e.symm) hno

/-- Without an empty clause among those of the problem, only the last clause is empty. -/
theorem Refutes.exchangeable (h : Refutes cs t) (hno : [] ∉ cs) : t.Exchangeable := by
  refine Trace.exchangeable_of_eq_terminal h.wellFormed h.endsEmpty (fun c hc hempty => ?_)
    (h.eq_terminal hno)
  obtain ⟨ls, hls, he⟩ := h.given c hc
  exact hno (Clause.ofList_eq_empty.mp (he.symm.trans hempty) ▸ hls)

/-- The clauses that are added when there is an empty one. -/
theorem onlyLastEmpty_of_derives {b : Builder} {ins : List Clause} (hb : Derives Chains b ins ins)
    (hins : ins = (throughEmpty cs).map .ofList) (hmem : [] ∈ cs) :
    OnlyLastEmpty b.clauses.toList := by
  obtain ⟨pre, hpre, hno⟩ := throughEmpty_of_mem hmem
  have hlist : b.clauses.toList.map (·.clause) = pre.map .ofList ++ [.ofList []] := by
    rw [← List.map_singleton, ← List.map_append, ← hpre, ← hins]
    exact hb.clauseList_eq
  obtain ⟨ds, es, hds, hpre', hes⟩ := List.map_eq_append_iff.mp hlist
  obtain ⟨c, rfl, hc⟩ := List.map_eq_singleton_iff.mp hes
  refine ⟨ds, c, hds, hc, fun d hd hempty => hno ?_⟩
  have hmem' := List.mem_map_of_mem (f := (·.clause)) hd
  rw [hpre', hempty] at hmem'
  obtain ⟨ls, hls, he⟩ := List.mem_map.mp hmem'
  exact Clause.ofList_eq_empty.mp he ▸ hls

/-- An empty clause of a list which has no other is the last of it. -/
theorem index_eq_of_onlyLastEmpty {b : Builder} {c : TraceClause}
    (h : OnlyLastEmpty b.clauses.toList) (hget : b.trace.get? c.index = some c)
    (hc : c.clause = .empty) : c.index = b.size - 1 := by
  obtain ⟨ds, e, hds, -, hne⟩ := h
  have hsize : b.size = ds.length + 1 := by rw [← b.length_toList, hds, List.length_append]; rfl
  have hlt : c.index < b.size := Trace.get?_lt hget
  have hget' : b.clauses.toList[c.index]? = some c := by rw [Array.getElem?_toList]; exact hget
  refine Classical.byContradiction fun hi => hne c ?_ hc
  rw [hds, List.getElem?_append_left (by omega)] at hget'
  exact List.mem_of_getElem? hget'

/-- The refutation by an empty clause among those of the problem. -/
theorem ends_emptyClause_exchangeable {c : TraceClause} {ins : List Clause}
    (hb : Derives Chains s.builder ins ins) (hins : ins = (throughEmpty cs).map .ofList)
    (hmem : [] ∈ cs) (hc : c.clause = .empty) (hget : s.builder.trace.get? c.index = some c) :
    (do let _ ← addResolvent [] [c.index]; finish : Search σ SatOutcome).Ends s
      (fun o _ => ∀ t, o = .unsatisfiable t → t.Exchangeable) fun _ _ => True := by
  have hlast := onlyLastEmpty_of_derives hb hins hmem
  have hnum : s.builder.numAxioms = s.builder.size := hb.numAxioms_eq.trans hb.size_eq.symm
  obtain ⟨r, b, hadd⟩ : ∃ r b, s.builder.addResolvent [] [c.index] = .ok (r, b) :=
    Builder.exists_addResolvent [] (List.cons_ne_nil _ _)
      (List.forall_mem_singleton.mpr (Trace.get?_lt hget))
  obtain ⟨hlist, hnum', hr⟩ := Builder.toList_addResolvent hadd
  obtain ⟨hinputs, hderived⟩ := Trace.inputs_and_derived hnum hnum' hlist
  have hderived' : b.trace.derived = [] ++ [r] := hderived
  have hbuild := Trace.build_eq_ok_iff.mpr
    ⟨rfl, Trace.endsEmpty_of_derived hderived' (congrArg TraceClause.clause hr)⟩
  rw [ends_bind]
  refine (ends_addResolvent hadd).mpr ((ends_finish hbuild).mpr ?_)
  rintro t ⟨⟩
  refine .input (hb.wellFormed.addResolvent hadd) (hinputs ▸ hlast) ?_
  have hnumAxioms : b.trace.numAxioms = s.builder.size := hnum'.trans hnum
  rw [hderived, hr, hnumAxioms, index_eq_of_onlyLastEmpty hlast hget hc]
  rfl

variable [StopCondition σ]

/-- From an empty trace, a refutation that the prover answers can be exchanged. -/
theorem ends_answer_exchangeable (hs : s.builder = .empty) : (answer cnf).Ends s
    (fun o _ => ∀ t, o = .unsatisfiable t → t.Exchangeable) fun _ _ => True := by
  by_cases hmem : [] ∈ cnf.clauses
  · unfold answer
    rw [ends_bind]
    refine (ends_addAxioms cnf.clauses (hs ▸ Trace.derives_empty)).mono
      (fun ⟨empty?, clauses⟩ s₁ ⟨hadded, hb, _⟩ => ?_) fun _ _ _ => trivial
    cases empty? with
    | some c =>
        obtain ⟨-, hc, hget⟩ := hadded.empty rfl
        exact ends_emptyClause_exchangeable hb (List.nil_append _) hmem hc hget
    | none => exact absurd rfl (hadded.searched rfl [] hmem).1
  · refine (ends_answer cnf hs).mono (fun o _ ⟨ho, _⟩ t ht => ?_) fun _ _ _ => trivial
    subst ht
    exact Refutes.exchangeable ho hmem

/-- **Refutations of the prover can be exchanged.** -/
theorem exchangeable_of_solve {k : Counters} {stop : σ}
    (h : ((solve cnf).run (k, stop)).answer = .ok (.unsatisfiable t)) : t.Exchangeable := by
  have hends : (solve cnf).Ends (k, stop)
      (fun o _ => ∀ t, o = .unsatisfiable t → t.Exchangeable) fun _ _ => True := by
    unfold solve
    rw [ends_within]
    exact ends_answer_exchangeable rfl
  exact hends.of_answer h t rfl

end ModelFinder.Prover
