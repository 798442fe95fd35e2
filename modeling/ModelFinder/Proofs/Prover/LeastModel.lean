import Mathlib
import ModelFinder.Proofs.Prover.Answer

/-!
# The least model

Variables are decided in their order, and false is tried before true.  So the prover finds the least
model of a problem, when models are compared variable by variable with false before true
(`Valuation.Precedes`).  Propagation gives values out of this order, and some branches are left out,
but neither takes a model away:

* a model that makes the decisions of a trail true makes everything on it true
  (`Prover.Justified.makes_made`);
* no model makes the decisions true below which a refutation was found (`Prover.Found.not_makes`).

Where a model leaves the decisions that lead to the one that is found, it has true, the other has
false, and the two agree on all variables before (`Prover.Explores.precedes`).  As the order is
antisymmetric, the answer depends on nothing but the models of a problem, and so on nothing but what
it says (`Cnf.models_iff`).
-/

namespace ModelFinder

/-! ### The order of valuations -/

namespace Valuation

variable {f g : Valuation}

/-- `f` comes no later than `g` when they are compared variable by variable, with false before true:
where they agree on all variables before, `f` has true only if `g` has. -/
def Precedes (f g : Valuation) : Prop :=
  ∀ v, (∀ w : Variable, w.index < v.index → f w = g w) → f v = true → g v = true

/-- The two agree before a variable for which `f` has false and `g` true. -/
theorem Precedes.of_first {v : Variable} (hf : f v = false) (hg : g v = true)
    (hbefore : ∀ w : Variable, w.index < v.index → f w = g w) : f.Precedes g := by
  intro u hagree hu
  rcases Nat.lt_trichotomy u.index v.index with hlt | heq | hgt
  · exact (hbefore u hlt).symm.trans hu
  · rw [Variable.ext_index heq]
    exact hg
  · rw [hagree v hgt, hg] at hf
    cases hf

theorem Precedes.refl (f : Valuation) : f.Precedes f := fun _ _ => id

theorem Precedes.antisymm (h : f.Precedes g) (h' : g.Precedes f) : f = g := by
  have hagree : ∀ n, ∀ v : Variable, v.index = n → f v = g v := by
    intro n
    induction n using Nat.strongRecOn with
    | ind n ih =>
        rintro v rfl
        have hbefore : ∀ w : Variable, w.index < v.index → f w = g w := fun w hw =>
          ih w.index hw w rfl
        exact Bool.eq_iff_iff.mpr ⟨h v hbefore, h' v fun w hw => (hbefore w hw).symm⟩
  exact funext fun v => hagree v.index v rfl

end Valuation

theorem Assignment.valuation_eq {a : Assignment} {v : Variable} (hv : v.slot < a.values.size) :
    a.valuation v = a.values[v.slot] := by
  rw [valuation, value?, Array.getElem?_eq_getElem hv, Option.getD_some]

/-! ### Problems with the same models -/

/-- The problem has the clause, which is no tautology, in some arrangement of its literals. -/
def Cnf.Says (cnf : Cnf) (c : Clause) : Prop :=
  c.isTautology = false ∧ ∃ ls ∈ cnf.clauses, Clause.ofList ls = c

/-- A problem that has every clause of another one, but for tautologies, says what that one does. -/
theorem Cnf.Says.mono {cnf cnf' : Cnf} {c : Clause} (h : cnf.Says c)
    (hsub : ∀ ls ∈ cnf.clauses, (Clause.ofList ls).isTautology = true ∨
      ∃ ks ∈ cnf'.clauses, Clause.ofList ks = Clause.ofList ls) : cnf'.Says c := by
  obtain ⟨htaut, ls, hls, rfl⟩ := h
  exact ⟨htaut, (hsub ls hls).resolve_left fun h => Bool.false_ne_true (htaut.symm.trans h)⟩

theorem Valuation.satisfies_of_isTautology {f : Valuation} {c : Clause}
    (h : c.isTautology = true) : f.Satisfies c.literals := by
  obtain ⟨l, hl, hn⟩ := List.any_eq_true.mp h
  by_cases hf : f.Makes l
  · exact ⟨l, hl, hf⟩
  · exact ⟨-l, Clause.contains_iff.mp hn, makes_neg.mpr hf⟩

/-- What a problem says is all that matters to its models. -/
theorem Cnf.models_iff {cnf : Cnf} {f : Valuation} :
    f.Models cnf.clauses ↔ ∀ c, cnf.Says c → f.Satisfies c.literals := by
  constructor
  · rintro h c ⟨-, ls, hls, rfl⟩
    exact Valuation.satisfies_ofList.mpr (h ls hls)
  · intro h ls hls
    rw [← Valuation.satisfies_ofList]
    cases htaut : (Clause.ofList ls).isTautology with
    | true => exact Valuation.satisfies_of_isTautology htaut
    | false => exact h _ ⟨htaut, ls, hls, rfl⟩

namespace Prover

open Trace (Builder Chains Derives)
open StopCondition Session

variable {clauses : List TraceClause} {n : Nat} {t t' m : Trail} {b b' : Builder} {g : Valuation}

/-! ### What assignments preserve -/

/-- What every assignment preserves is preserved by propagation. -/
theorem Trail.Forces.preserves {P : Trail → Prop}
    (hassign : ∀ t l reason, P t → P (t.assign l reason)) (h : Forces clauses t t') (ht : P t) :
    P t' := by
  induction h with
  | refl => exact ht
  | step _ _ _ ih => exact ih (hassign _ _ _ ht)

/-- What every assignment preserves holds of the trail that a search finds. -/
theorem Explores.preserves {P : Trail → Prop}
    (hassign : ∀ t l reason, P t → P (t.assign l reason))
    (h : Explores clauses t b (.model m) b') (ht : P t) : P m := by
  have hquiet : ∀ {t t' : Trail}, t.propagate clauses = (none, t') → P t → P t' := by
    intro t t' quiet ht
    exact (Trail.forces_propagate quiet).preserves hassign ht
  generalize hnode : Node.model m = node at h
  induction h with
  | model quiet _ => cases hnode; exact hquiet quiet ht
  | firstModel quiet _ _ ih => exact ih (hassign _ _ _ (hquiet quiet ht)) hnode
  | secondModel quiet _ _ _ _ _ ih => exact ih (hassign _ _ _ (hquiet quiet ht)) hnode
  | conflict => cases hnode
  | firstRefuted => cases hnode
  | secondRefuted => cases hnode
  | merged => cases hnode

/-- What is true on a trail stays true on the one that is found. -/
theorem Explores.made_subset (h : Explores clauses t b (.model m) b') :
    ∀ l ∈ made t.entries, l ∈ made m.entries := fun l =>
  h.preserves (P := fun t => l ∈ made t.entries) fun _ _ _ => List.mem_cons_of_mem _

/-- Only places of variables have a value. -/
def Trail.Named (t : Trail) : Prop :=
  ∀ ⦃i b⦄, t.values[i]? = some (some b) → ∃ v : Variable, v.slot = i

theorem Trail.named_initial (n : Nat) : (initial n).Named := by
  intro i b h
  unfold initial at h
  rw [Array.getElem?_replicate] at h
  split at h <;> cases h

theorem Trail.Named.assign (h : t.Named) (l : Literal) (reason : Option TraceClause) :
    (t.assign l reason).Named := by
  intro i b hi
  unfold Trail.assign at hi
  rw [Array.getElem?_setIfInBounds] at hi
  by_cases hl : l.var.slot = i
  · exact ⟨l.var, hl⟩
  · rw [if_neg hl] at hi
    exact h hi

/-! ### Models and decisions -/

/-- **Nothing is lost by propagation**: a model of the clauses that makes the decisions true makes
all of the trail true. -/
theorem Justified.makes_made {es : List Assigned} (h : Justified clauses es)
    (hg : ∀ c ∈ clauses, g.Satisfies c.clause.literals) (hdec : ∀ l ∈ decided es, g.Makes l) :
    ∀ l ∈ made es, g.Makes l := by
  induction h with
  | nil => exact fun l hl => absurd hl List.not_mem_nil
  | @decision l es _ _ ih =>
      rw [decided_decision, List.forall_mem_cons] at hdec
      rw [made_cons, List.forall_mem_cons]
      exact ⟨hdec.1, ih hdec.2⟩
  | @forced l r es _ _ given _ others ih =>
      have hes := ih hdec
      rw [made_cons, List.forall_mem_cons]
      refine ⟨?_, hes⟩
      -- the model has a true literal in the reason, and all others of it are false
      obtain ⟨k, hk, hmakes⟩ := hg r given
      by_cases hkl : k = l
      · exact hkl ▸ hmakes
      · exact absurd hmakes (Valuation.makes_neg.mp (hes _ (others k hk hkl)))

/-- The valuation satisfies each clause of the trace so far. -/
def Admits (b : Builder) (g : Valuation) : Prop :=
  ∀ ⦃i c⦄, b.trace.get? i = some c → g.Satisfies c.clause.literals

/-- What a search derives holds in the same models. -/
theorem Admits.of_grows (hg : Admits b g) (hb : b.trace.WellFormed)
    (hb' : Supports clauses b') (hgrows : b.trace.Grows b'.trace) : Admits b' g := by
  intro i c hi
  refine hb'.isProof.isSound.satisfies_of_closed hb'.wellFormed (P := fun _ => True)
    (fun _ _ _ _ _ _ => trivial) (fun {j d} hd hlt _ => ?_) hi trivial
  have hlt : j < b.trace.size :=
    Nat.lt_of_lt_of_le (hgrows.numAxioms_eq ▸ hlt) hb.numAxioms_le
  obtain ⟨e, he⟩ := Trace.exists_get? hlt
  obtain rfl := Option.some.inj ((hgrows.get? he).symm.trans hd)
  exact hg he

/-- A model does not make all decisions true below which a refutation is found. -/
theorem Found.not_makes {c : TraceClause} (h : Found clauses n t b (.refuted c))
    (hg : Admits b g) (hdec : ∀ l ∈ decided t.entries, g.Makes l) : False := by
  obtain ⟨hget, hfalse, -⟩ := h
  obtain ⟨l, hl, hmakes⟩ := hg hget
  exact Valuation.makes_neg.mp (hdec _ (hfalse l hl)) hmakes

/-- The variables before the next decision have a value. -/
theorem Trail.Valid.exists_made {v w : Variable} (ht : t.Valid clauses n)
    (next : t.firstUndecided? = some v) (hw : w.index < v.index) :
    ∃ s, ⟨w, s⟩ ∈ made t.entries := by
  obtain ⟨s, hs⟩ := (Trail.firstUndecided?_eq_some next).2 w hw
  refine ⟨s, (ht.value?_iff _).mp ?_⟩
  rw [Trail.value?, hs]
  simp

/-- The valuation of a trail makes what is true on it. -/
theorem Trail.Valid.makes (ht : t.Valid clauses n) {l : Literal} (hl : l ∈ made t.entries) :
    t.assignment.valuation.Makes l :=
  Assignment.makes_valuation (satisfies_assignment ((ht.value?_iff l).mpr hl))

/-- What the valuation of a trail has for true is true on it. -/
theorem Trail.Valid.mem_made (ht : t.Valid clauses n) {v : Variable}
    (hv : t.assignment.valuation v = true) : ⟨v, true⟩ ∈ made t.entries := by
  rw [← ht.value?_iff]
  rw [Assignment.valuation, Assignment.value?, Trail.assignment, Array.getElem?_map] at hv
  cases hget : t.values[v.slot]? with
  | none => rw [hget] at hv; cases hv
  | some o =>
      rw [hget] at hv
      cases o with
      | none => cases hv
      | some s =>
          obtain rfl : s = true := hv
          rw [Trail.value?, hget]
          rfl

/-! ### The search -/

/-- A model that makes the decisions true makes true what is propagated from them. -/
theorem makes_made_of_quiet (quiet : t.propagate clauses = (none, t'))
    (hr : Trail.InRange clauses n) (ht : t.Valid clauses n) (hb : Supports clauses b)
    (hg : Admits b g) (hdec : ∀ l ∈ decided t.entries, g.Makes l) :
    t'.Valid clauses n ∧ ∀ l ∈ made t'.entries, g.Makes l := by
  have hf := Trail.forces_propagate quiet
  have ht' : t'.Valid clauses n := hf.valid hr ht
  refine ⟨ht', ht'.justified.makes_made (fun c hc => hg (hb.present c hc)) fun l hl => ?_⟩
  rw [hf.decided_eq] at hl
  exact hdec l hl

/-- One more decision that a model makes true. -/
theorem makes_decided (quiet : t.propagate clauses = (none, t')) {v : Variable} {s : Bool}
    (hdec : ∀ l ∈ decided t.entries, g.Makes l) (hv : g v = s) :
    ∀ l ∈ decided (t'.assign ⟨v, s⟩ none).entries, g.Makes l := by
  rw [decided_decision_eq quiet, List.forall_mem_cons]
  exact ⟨hv, hdec⟩

/-- **What a search finds comes no later than any model that makes its decisions true.** -/
theorem Explores.precedes (h : Explores clauses t b (.model m) b')
    (hr : Trail.InRange clauses n) (ht : t.Valid clauses n) (hb : Supports clauses b)
    (hne : NoneEmpty b) (hg : Admits b g) (hdec : ∀ l ∈ decided t.entries, g.Makes l) :
    m.assignment.valuation.Precedes g := by
  generalize hnode : Node.model m = node at h
  induction h with
  | model quiet _ =>
      cases hnode
      obtain ⟨hm, hmakes⟩ := makes_made_of_quiet quiet hr ht hb hg hdec
      exact fun v _ hv => hmakes _ (hm.mem_made hv)
  | @firstModel t t' _ v b b' quiet next first ih =>
      cases hnode
      have hvalid := valid_decision hr ht quiet next false
      cases hv : g v with
      | false => exact ih hvalid hb hne hg (makes_decided quiet hdec hv) rfl
      | true =>
          -- the model leaves the path here, and the variables before have a value already
          obtain ⟨hm, -, -⟩ := (first.found hr hvalid hb hne).2.2
          obtain ⟨ht', hmakes⟩ := makes_made_of_quiet quiet hr ht hb hg hdec
          have hmade := first.made_subset
          refine .of_first (hm.makes (hmade _ List.mem_cons_self)) hv fun w hw => ?_
          obtain ⟨s, hs⟩ := ht'.exists_made next hw
          exact (hm.makes (hmade _ (List.mem_cons_of_mem _ hs))).trans (hmakes _ hs).symm
  | @secondModel t t' _ v c b b₁ b' quiet next first used second ih₁ ih₂ =>
      have hvalid := valid_decision hr ht quiet next
      obtain ⟨hb₁, hgrows, hrefuted⟩ := first.found hr (hvalid false) hb hne
      have hg₁ := hg.of_grows hb.wellFormed hb₁ hgrows
      have hne₁ := hrefuted.2.2.noneEmpty (ne_empty_of_mem used)
      cases hv : g v with
      | false => exact (hrefuted.not_makes hg₁ (makes_decided quiet hdec hv)).elim
      | true =>
          exact ih₂ (hvalid true) hb₁ hne₁ hg₁ (makes_decided quiet hdec hv) hnode
  | conflict => cases hnode
  | firstRefuted => cases hnode
  | secondRefuted => cases hnode
  | merged => cases hnode

section Finds

variable {cnf cnf' : Cnf} {a a' : Assignment}

/-- The model that is found comes no later than any other. -/
theorem Finds.precedes (h : Finds cnf a) (hg : g.Models cnf.clauses) :
    a.valuation.Precedes g := by
  cases h with
  | intro added derives explores =>
      obtain ⟨hb, hr⟩ := added.supports derives
      refine explores.precedes hr (Trail.valid_initial _ _) hb (added.noneEmpty rfl derives rfl)
        (fun i c hi => ?_) fun l hl => absurd hl List.not_mem_nil
      obtain ⟨ls, hls, he⟩ := List.mem_map.mp (derives.clause_mem hi)
      rw [← he]
      exact Valuation.satisfies_ofList.mpr (hg ls ((throughEmpty_initial _).mem hls))

/-- Only variables are true in the model that is found. -/
theorem Finds.exists_slot (h : Finds cnf a) {i : Nat} (hi : a.values[i]? = some true) :
    ∃ v : Variable, v.slot = i := by
  cases h with
  | @intro _ _ _ t _ _ explores =>
      have hnamed : t.Named :=
        explores.preserves (fun _ l reason h => h.assign l reason) (Trail.named_initial _)
      rw [Trail.assignment, Array.getElem?_map, Option.map_eq_some_iff] at hi
      obtain ⟨o, ho, hs⟩ := hi
      cases o with
      | none => cases hs
      | some s => exact hnamed ho

/-- The values of the model that is found come no later in the order of arrays. -/
theorem Finds.values_le (h : Finds cnf a) (hsize : a.values.size = a'.values.size)
    (hle : a.valuation.Precedes a'.valuation) : a.values ≤ a'.values := by
  rw [← Array.not_lt, Array.lt_iff_exists]
  rintro (⟨-, hlt⟩ | ⟨i, hi', hi, hagree, hlt⟩)
  · exact absurd hsize (Nat.ne_of_gt hlt)
  · -- the first difference is at a variable, so the valuations differ there first, too
    obtain ⟨hfalse, htrue⟩ := Bool.lt_iff.mp hlt
    obtain ⟨v, rfl⟩ := h.exists_slot (Array.getElem?_eq_some_iff.mpr ⟨hi, htrue⟩)
    have hv : a'.valuation v = true := by
      refine hle v (fun w hw => ?_) ((Assignment.valuation_eq hi).trans htrue)
      have hslot : w.slot < v.slot := Variable.slot_lt_slot hw
      rw [Assignment.valuation_eq (Nat.lt_trans hslot hi),
        Assignment.valuation_eq (Nat.lt_trans hslot hi')]
      exact (hagree _ hslot).symm
    rw [Assignment.valuation_eq hi', hfalse] at hv
    cases hv

variable {σ : Type} [StopCondition σ] {k : Counters} {stop : σ}

/-- A satisfiable problem is answered by a model that a search finds. -/
theorem exists_finds (hsat : cnf.Satisfiable) (hstop : NeverTriggers stop) :
    ∃ a, ((solve cnf).run (k, stop)).answer = .ok (.satisfiable a) ∧ Solves cnf a ∧
      Finds cnf a := by
  have hends : (solve cnf).Ends (k, stop)
      (fun o _ => Decides cnf o ∧ ∀ a, o = .satisfiable a → Finds cnf a) fun _ _ => False := by
    unfold solve
    rw [ends_within]
    exact (ends_answer_finds cnf rfl).mono (fun _ _ h => ⟨h.1, h.2.1⟩) fun _ _ h => h.2 hstop
  obtain ⟨o, ho, hdecides, hfinds⟩ := hends.exists_answer
  cases o with
  | satisfiable a => exact ⟨a, ho, hdecides, hfinds a rfl⟩
  | unsatisfiable t =>
      obtain ⟨f, hf⟩ := hsat
      exact absurd hf (Refutes.not_models hdecides f)

/-- **The prover finds the least model** of a satisfiable problem, when models are compared variable
by variable from the first one on, with false before true.  So it answers alike for problems which
say the same but for tautologies, whatever the order of their clauses and the order and repetition
of literals: it gives all variables of both problems the same value, and false to those of one
problem only. -/
theorem solve_least (k : Counters) (hsat : cnf.Satisfiable) (hstop : NeverTriggers stop) :
    ∃ a, ((solve cnf).run (k, stop)).answer = .ok (.satisfiable a) ∧ Solves cnf a ∧
      (∀ a', Solves cnf a' → a.values ≤ a'.values) ∧
      ∀ cnf' : Cnf, (∀ c, cnf'.Says c ↔ cnf.Says c) → ∀ (k' : Counters) (stop' : σ),
        NeverTriggers stop' →
          ∃ a', ((solve cnf').run (k', stop')).answer = .ok (.satisfiable a') ∧
            a'.valuation = a.valuation ∧ (cnf'.numVariables = cnf.numVariables → a' = a) := by
  obtain ⟨a, ha, hsolves, hfinds⟩ := exists_finds (k := k) hsat hstop
  have hmodels : a.valuation.Models cnf.clauses := Assignment.models_valuation hsolves.satisfies
  refine ⟨a, ha, hsolves, fun a' ha' => ?_, fun cnf' hsays k' stop' hstop' => ?_⟩
  · have hle := hfinds.precedes (Assignment.models_valuation ha'.satisfies)
    exact hfinds.values_le (hsolves.numVariables_eq.trans ha'.numVariables_eq.symm) hle
  · have hsame : ∀ f : Valuation, f.Models cnf'.clauses ↔ f.Models cnf.clauses := fun f => by
      simp only [Cnf.models_iff, hsays]
    obtain ⟨a', ha', hsolves', hfinds'⟩ :=
      exists_finds (k := k') ⟨_, (hsame _).mpr hmodels⟩ hstop'
    have hmodels' : a'.valuation.Models cnf'.clauses :=
      Assignment.models_valuation hsolves'.satisfies
    have heq : a'.valuation = a.valuation :=
      (hfinds'.precedes ((hsame _).mpr hmodels)).antisymm
        (hfinds.precedes ((hsame _).mp hmodels'))
    refine ⟨a', ha', heq, fun hn => ?_⟩
    have hsize : a'.values.size = a.values.size :=
      hsolves'.numVariables_eq.trans (hn.trans hsolves.numVariables_eq.symm)
    have hvalues : a'.values = a.values :=
      Array.le_antisymm (hfinds'.values_le hsize (heq ▸ .refl _))
        (hfinds.values_le hsize.symm (heq ▸ .refl _))
    exact congrArg Assignment.mk hvalues

/-- The variable 1 is decided first, and the values of 3 and 2 are propagated, in this order.  The
answer is the same for the problem in another arrangement, with a tautology. -/
theorem solve_least_rearranged :
    let clauses (codes : List (List Int)) := codes.map (·.filterMap Literal.ofDimacs?)
    let cnf : Cnf := ⟨3, clauses [[3, 2], [-3, 1]]⟩
    let cnf' : Cnf := ⟨3, clauses [[1, -3], [2, -2], [2, 3, 2]]⟩
    let least : Assignment := ⟨#[false, true, false]⟩
    cnf.Satisfiable ∧ NeverTriggers Indefinite.indefinite ∧
      ((solve cnf).run ({}, Indefinite.indefinite)).answer = .ok (.satisfiable least) ∧
      least.values ≤ #[true, false, true] ∧
      ((solve cnf').run ({}, Indefinite.indefinite)).answer = .ok (.satisfiable least) := by
  intro clauses cnf cnf' least
  have hsat : cnf.Satisfiable := Solves.satisfiable (a := least) ⟨rfl, by decide⟩
  have hnever := neverTriggers_indefinite .indefinite
  obtain ⟨a, ha, -, hleast, hsame⟩ := solve_least {} hsat hnever
  have hanswer : ((solve cnf).run ({}, Indefinite.indefinite)).answer =
      .ok (.satisfiable least) := by cbv
  obtain rfl : a = least := by
    rw [hanswer] at ha
    cases ha
    rfl
  have hsays : ∀ c, cnf'.Says c ↔ cnf.Says c := fun _ =>
    ⟨fun h => h.mono (by decide), fun h => h.mono (by decide)⟩
  obtain ⟨a', ha', -, heq⟩ := hsame cnf' hsays {} .indefinite hnever
  refine ⟨hsat, hnever, hanswer, hleast ⟨#[true, false, true]⟩ ⟨rfl, by decide⟩, ?_⟩
  rw [ha', heq rfl]

end Finds

end Prover

end ModelFinder
