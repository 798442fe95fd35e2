import ModelFinder.Proofs.Resolution
import ModelFinder.Prover.Trail

/-!
# Why literals are on a trail

Each entry of a trail is a decision or is forced by its reason: the reason contains the literal, and
all its other literals are made false by earlier entries (`Prover.Justified`).  No entry speaks of
the variable of an earlier one, so that a trail makes no literal true together with its negation
(`Justified.consistent`).

A clause that such a trail falsifies can be resolved with the reasons of forced literals, going
back along the trail, until decisions alone falsify it.

* `resolvent?_reason`: the reason of a literal has exactly one pivot with a falsified clause.
* `exists_chain_resolveBack`: the clause reached is falsified by the decisions, and is the result of
  the chain of the reasons used.
-/

namespace ModelFinder.Prover

/-- The literals that entries make true, the last one first. -/
def made (es : List Assigned) : List Literal := es.map (·.literal)

/-- The literals among them which were decided. -/
def decided (es : List Assigned) : List Literal :=
  es.filterMap fun e => if e.reason.isNone then some e.literal else none

/-- The literals make every literal of the clause false. -/
def Falsifies (ls : List Literal) (c : Clause) : Prop := ∀ l ∈ c, -l ∈ ls

/-- No literal comes with its negation. -/
def Consistent (ls : List Literal) : Prop := ∀ l ∈ ls, -l ∉ ls

/-- Entries that are decisions or are forced by one of the clauses, each about a new variable. -/
inductive Justified (clauses : List TraceClause) : List Assigned → Prop
  | nil : Justified clauses []
  | decision {l : Literal} {es : List Assigned} (earlier : Justified clauses es)
      (fresh : ∀ k ∈ made es, k.var ≠ l.var) : Justified clauses (⟨l, none⟩ :: es)
  | forced {l : Literal} {r : TraceClause} {es : List Assigned} (earlier : Justified clauses es)
      (fresh : ∀ k ∈ made es, k.var ≠ l.var) (given : r ∈ clauses) (mem : l ∈ r.clause)
      (others : ∀ k ∈ r.clause, k ≠ l → -k ∈ made es) : Justified clauses (⟨l, some r⟩ :: es)

@[simp] theorem made_cons (e : Assigned) (es : List Assigned) :
    made (e :: es) = e.literal :: made es := rfl

@[simp] theorem decided_decision (l : Literal) (es : List Assigned) :
    decided (⟨l, none⟩ :: es) = l :: decided es := rfl

@[simp] theorem decided_forced (l : Literal) (r : TraceClause) (es : List Assigned) :
    decided (⟨l, some r⟩ :: es) = decided es := rfl

theorem neg_ne (l : Literal) : -l ≠ l := fun h => by
  have := congrArg Literal.positive h
  simp at this

theorem neg_eq_iff {l k : Literal} : -l = k ↔ l = -k :=
  ⟨fun h => h ▸ (Literal.neg_neg l).symm, fun h => h ▸ Literal.neg_neg k⟩

theorem mem_made_of_mem_decided {es : List Assigned} {l : Literal} (h : l ∈ decided es) :
    l ∈ made es := by
  obtain ⟨e, he, hl⟩ := List.mem_filterMap.mp h
  split at hl
  · cases hl; exact List.mem_map_of_mem he
  · cases hl

/-! ### Consistency -/

theorem Consistent.cons {ls : List Literal} (h : Consistent ls) {l : Literal}
    (fresh : ∀ k ∈ ls, k.var ≠ l.var) : Consistent (l :: ls) := by
  intro k hk hn
  rcases List.mem_cons.mp hk with rfl | hk <;> rcases List.mem_cons.mp hn with hn | hn
  · exact neg_ne _ hn
  · exact fresh _ hn rfl
  · exact fresh k hk (by rw [← hn]; rfl)
  · exact h k hk hn

theorem Consistent.sublist {ls ks : List Literal} (h : Consistent ks) (hsub : ∀ l ∈ ls, l ∈ ks) :
    Consistent ls := fun l hl hn => h l (hsub l hl) (hsub _ hn)

theorem Justified.consistent {clauses : List TraceClause} {es : List Assigned}
    (h : Justified clauses es) : Consistent (made es) := by
  induction h with
  | nil => exact fun l hl => absurd hl List.not_mem_nil
  | decision _ fresh ih => exact ih.cons fresh
  | forced _ fresh _ _ _ ih => exact ih.cons fresh

theorem mem_append_of_ne {ls ks : List Literal} {l k : Literal} (h : k ∈ ls ++ l :: ks)
    (hne : k ≠ l) : k ∈ ls ++ ks := by
  simp only [List.mem_append, List.mem_cons] at h ⊢
  rcases h with h | h | h
  · exact .inl h
  · exact absurd h hne
  · exact .inr h

/-- A literal whose negation is not in a clause is of no use in falsifying it. -/
theorem Falsifies.without (ls : List Literal) {ks : List Literal} {l : Literal} {c : Clause}
    (h : Falsifies (ls ++ l :: ks) c) (hl : -l ∉ c) : Falsifies (ls ++ ks) c :=
  fun k hk => mem_append_of_ne (h k hk) fun e => hl (neg_eq_iff.mp e ▸ hk)

theorem falsifies_nil {c : Clause} : Falsifies [] c ↔ c = .empty := by
  constructor
  · exact fun h => Clause.ext_mem fun l =>
      ⟨fun hl => absurd (h l hl) List.not_mem_nil, fun hl => absurd hl List.not_mem_nil⟩
  · rintro rfl l hl; exact absurd hl List.not_mem_nil

/-! ### Resolving back along a trail -/

section ResolveBack

variable {clauses : List TraceClause} {ls : List Literal} {l : Literal} {c : Clause}
  {r : TraceClause} {es : List Assigned}

/-- A clause that clashes with the reason of a literal clashes in this literal alone, and their
resolvent is falsified by the rest of the trail. -/
theorem resolvent?_reason (hcons : Consistent (ls ++ l :: made es)) (hmem : l ∈ r.clause)
    (hothers : ∀ k ∈ r.clause, k ≠ l → -k ∈ made es) (hc : Falsifies (ls ++ l :: made es) c)
    (hl : -l ∈ c) :
    c.resolvent? r.clause = some (c.resolve r.clause l) ∧
      Falsifies (ls ++ made es) (c.resolve r.clause l) := by
  constructor
  · refine Clause.resolvent?_eq_some hl hmem fun k hk hn => ?_
    rcases Decidable.em (k = l) with rfl | hne
    · rfl
    · -- the negation of `k` is on the trail, so the trail can not falsify it
      have hk' : -k ∈ ls ++ l :: made es := by simp [hothers k hk hne]
      exact absurd (hc _ hn) (hcons _ hk')
  · intro k hk
    rcases Clause.mem_resolve.mp hk with ⟨hk, hne⟩ | ⟨hk, hne⟩
    · exact mem_append_of_ne (hc k hk) fun e => hne (neg_eq_iff.mp e)
    · exact List.mem_append_right ls (hothers k hk hne)

/-- What later decisions `ls` and a trail falsify is resolved back to a clause which the later and
the earlier decisions falsify, by a chain of the reasons used. -/
theorem exists_chain_resolveBack (ls : List Literal) (h : Justified clauses es)
    (hcons : Consistent (ls ++ made es)) (hc : Falsifies (ls ++ made es) c) :
    Falsifies (ls ++ decided es) (Trail.resolveBack es c).1 ∧
      ∃ rs : List TraceClause, (∀ r ∈ rs, r ∈ clauses) ∧
        (Trail.resolveBack es c).2 = rs.map (·.index) ∧
        (rs.map (·.clause)).foldlM Clause.resolvent? c = some (Trail.resolveBack es c).1 := by
  -- going back, a decision moves to `ls`, and a forced literal is resolved away by its reason
  induction h generalizing ls c with
  | nil => exact ⟨hc, [], fun _ h => absurd h List.not_mem_nil, rfl, rfl⟩
  | @decision l es _ _ ih =>
      have hassoc : ls ++ l :: made es = (ls ++ [l]) ++ made es := by simp
      obtain ⟨hf, rs, hrs⟩ := ih (ls ++ [l]) (hassoc ▸ hcons) (hassoc ▸ hc)
      exact ⟨by simpa [Trail.resolveBack] using hf, rs, hrs⟩
  | @forced l r es _ _ given mem others ih =>
      have hsub : ∀ k ∈ ls ++ made es, k ∈ ls ++ l :: made es := fun k hk => by
        simp only [List.mem_append, List.mem_cons] at hk ⊢
        exact hk.imp_right .inr
      have hcons' := hcons.sublist hsub
      by_cases hl : -l ∈ c
      · obtain ⟨hres, hc'⟩ := resolvent?_reason hcons mem others hc hl
        obtain ⟨hf, rs, hrs, hused, hchain⟩ := ih ls hcons' hc'
        have hback : Trail.resolveBack (⟨l, some r⟩ :: es) c =
            ((Trail.resolveBack es (c.resolve r.clause l)).1,
              r.index :: (Trail.resolveBack es (c.resolve r.clause l)).2) := by
          rw [Trail.resolveBack, if_pos (Clause.contains_iff.mpr hl)]
        rw [hback]
        refine ⟨hf, r :: rs, ?_, ?_, ?_⟩
        · intro d hd
          rcases List.mem_cons.mp hd with rfl | hd
          · exact given
          · exact hrs d hd
        · rw [hused, List.map_cons]
        · rw [List.map_cons, List.foldlM_cons, hres]
          exact hchain
      · have hback : Trail.resolveBack (⟨l, some r⟩ :: es) c = Trail.resolveBack es c := by
          rw [Trail.resolveBack, if_neg (fun h => hl (Clause.contains_iff.mp h))]
        rw [hback]
        exact ih ls hcons' (hc.without ls hl)

end ResolveBack

end ModelFinder.Prover
