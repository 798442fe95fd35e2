import ModelFinder.Backend
import ModelFinder.Proofs.Session
import ModelFinder.Proofs.Session.Conduct

/-!
# What a session tells of its iterations

The notes of a session tell how many increments it has made, how many candidates of reductions it has
re-solved, and how many other calls of the back end it has announced (`Tally.Counts`).  What a back
end does in its calls is told by the calls that it makes of its stop condition (`Backend.Follows`),
and a state that it comes to by so many calls by `Backend.Serves`.
-/

namespace ModelFinder

open StopCondition

/-! ### Back ends -/

/-- A remark on a candidate which has been re-solved. -/
def Remark.isCandidate : Remark → Bool
  | .candidateSatisfiable _ | .coreReduced _ => true
  | _ => false

/-- Sessions that do not speak for the reduction. -/
def Remark.discretion (S : Type) : Conduct Remark S where
  moves _ _ := True
  notes r := r.isCandidate = false
  refl _ := trivial
  trans _ _ := trivial

section Backends

variable {β σ : Type} [StopCondition σ]

/-- The calls that a back end makes of its stop condition are those of a script, and it does not
speak for the reduction. -/
structure Backend.Follows (backend : Backend β σ) (script : Cnf → β × σ → List Call) : Prop where
  stop : ∀ cnf s, (backend.solve cnf s).state.2 = (script cnf s).foldl step s.2
  notes : ∀ cnf, (backend.solve cnf).KeepsTo (Remark.discretion (β × σ))

/-- From `b`, the back end comes to a state by so many calls, in which it makes so many ticks of its
own. -/
inductive Backend.Serves (backend : Backend β σ) (script : Cnf → β × σ → List Call) (b : β) :
    Nat → Nat → β → Prop
  | refl : Serves backend script b 0 0 b
  | call {k own : Nat} {s : β × σ} (h : Serves backend script b k own s.1) (cnf : Cnf) :
      Serves backend script b (k + 1) (own + (script cnf s).count .tick)
        (backend.solve cnf s).state.1

namespace Backend.Serves

variable {backend : Backend β σ} {script : Cnf → β × σ → List Call} {b b' b'' : β}
  {k k' own own' : Nat}

omit [StopCondition σ] in
theorem trans (h : backend.Serves script b k own b') (h' : backend.Serves script b' k' own' b'') :
    backend.Serves script b (k + k') (own + own') b'' := by
  induction h' with
  | refl => exact h
  | call _ cnf ih => rw [← Nat.add_assoc, ← Nat.add_assoc]; exact ih.call cnf

omit [StopCondition σ] in
/-- A back end that only polls makes no ticks. -/
theorem own_eq_zero (h : backend.Serves script b k own b')
    (hpolls : ∀ cnf s, Call.tick ∉ script cnf s) : own = 0 := by
  induction h with
  | refl => rfl
  | call _ cnf ih => rw [ih, List.count_eq_zero_of_not_mem (hpolls cnf _)]

end Backend.Serves

end Backends

/-! ### What is counted -/

section Counted

variable {μ μ' : Type}

/-- The candidates that the notes say have been re-solved. -/
def Note.candidates (notes : List (Note μ)) : Nat :=
  notes.countP fun
    | .remark r => r.isCandidate
    | _ => false

namespace Note

@[simp] theorem candidates_append (notes more : List (Note μ)) :
    candidates (notes ++ more) = candidates notes + candidates more := List.countP_append

@[simp] theorem candidates_map_map (f : μ → μ') (notes : List (Note μ)) :
    candidates (notes.map (map f)) = candidates notes := by
  unfold candidates
  rw [List.countP_map]
  refine List.countP_congr fun note _ => ?_
  cases note <;> exact Iff.rfl

end Note

/-- The milestones that are counted: increments, and those which announce a call of the back end. -/
structure Tally (μ : Type) where
  increment : μ → Bool
  announcement : μ → Bool

namespace Tally

/-- The milestones that become counted ones. -/
def comap (f : μ → μ') (T : Tally μ') : Tally μ := ⟨T.increment ∘ f, T.announcement ∘ f⟩

/-- The increments among some notes. -/
def increments (T : Tally μ) (notes : List (Note μ)) : Nat :=
  (Note.milestones notes).countP T.increment

/-- The calls of the back end that some notes announce. -/
def announcements (T : Tally μ) (notes : List (Note μ)) : Nat :=
  (Note.milestones notes).countP T.announcement

variable (T : Tally μ) (T' : Tally μ')

@[simp] theorem increments_append (notes more : List (Note μ)) :
    T.increments (notes ++ more) = T.increments notes + T.increments more := by
  unfold increments
  rw [Note.milestones_append, List.countP_append]

@[simp] theorem announcements_append (notes more : List (Note μ)) :
    T.announcements (notes ++ more) = T.announcements notes + T.announcements more := by
  unfold announcements
  rw [Note.milestones_append, List.countP_append]

@[simp] theorem increments_map_map (f : μ → μ') (notes : List (Note μ)) :
    T'.increments (notes.map (Note.map f)) = (T'.comap f).increments notes := by
  unfold increments
  rw [Note.milestones_map_map, List.countP_map]
  rfl

@[simp] theorem announcements_map_map (f : μ → μ') (notes : List (Note μ)) :
    T'.announcements (notes.map (Note.map f)) = (T'.comap f).announcements notes := by
  unfold announcements
  rw [Note.milestones_map_map, List.countP_map]
  rfl

/-- So many increments were made, so many announced calls, and so many candidates were settled.  The
notes tell of all of them.  What else they tell of was not there; if they are `precise`,
that is nothing. -/
structure Counts (precise : Prop) (notes : List (Note μ)) (increments called settled : Nat) :
    Prop where
  increments : T.increments notes = increments
  called_le : called ≤ T.announcements notes
  settled_le : settled ≤ Note.candidates notes
  eq_of_precise : precise → called = T.announcements notes ∧ settled = Note.candidates notes

/-- Nothing that is counted was there. -/
abbrev Ignores (precise : Prop) (notes : List (Note μ)) : Prop := T.Counts precise notes 0 0 0

variable {T} {precise : Prop}

theorem counts_of_eq {notes : List (Note μ)} {i a c : Nat} (hi : T.increments notes = i)
    (ha : a = T.announcements notes) (hc : c = Note.candidates notes) :
    T.Counts precise notes i a c :=
  ⟨hi, Nat.le_of_eq ha, Nat.le_of_eq hc, fun _ => ⟨ha, hc⟩⟩

theorem ignores_nil : T.Ignores precise [] := counts_of_eq rfl rfl rfl

theorem counts_append {notes more : List (Note μ)} {i a c i' a' c' : Nat}
    (h : T.Counts precise notes i a c) (h' : T.Counts precise more i' a' c') :
    T.Counts precise (notes ++ more) (i + i') (a + a') (c + c') where
  increments := by rw [increments_append, h.increments, h'.increments]
  called_le := by
    rw [announcements_append]
    exact Nat.add_le_add h.called_le h'.called_le
  settled_le := by
    rw [Note.candidates_append]
    exact Nat.add_le_add h.settled_le h'.settled_le
  eq_of_precise hprecise := by
    obtain ⟨ha, hc⟩ := h.eq_of_precise hprecise
    obtain ⟨ha', hc'⟩ := h'.eq_of_precise hprecise
    rw [announcements_append, Note.candidates_append, ← ha, ← ha', ← hc, ← hc']
    exact ⟨rfl, rfl⟩

theorem ignores_of_forall {notes : List (Note μ)} (h : ∀ n ∈ notes, T.Ignores precise [n]) :
    T.Ignores precise notes := by
  induction notes with
  | nil => exact ignores_nil
  | cons n notes ih =>
      exact counts_append (h n List.mem_cons_self) (ih fun m hm => h m (List.mem_cons_of_mem n hm))

theorem counts_milestone (m : μ) : T.Counts precise [.milestone m] (if T.increment m then 1 else 0)
    (if T.announcement m then 1 else 0) 0 := by
  refine counts_of_eq ?_ ?_ rfl
  · show [m].countP T.increment = _
    rw [List.countP_cons, List.countP_nil, Nat.zero_add]
  · show _ = [m].countP T.announcement
    rw [List.countP_cons, List.countP_nil, Nat.zero_add]

theorem counts_remark (r : Remark) :
    T.Counts precise [.remark r] 0 0 (if r.isCandidate then 1 else 0) := by
  refine counts_of_eq rfl rfl ?_
  show _ = List.countP _ [Note.remark r]
  rw [List.countP_cons, List.countP_nil, Nat.zero_add]

theorem ignores_remark {r : Remark} (h : r.isCandidate = false) : T.Ignores precise [.remark r] := by
  have hcounts : T.Counts precise [.remark r] 0 0 (if r.isCandidate then 1 else 0) := counts_remark r
  simpa [h] using hcounts

theorem ignores_map_remark {rs : List Remark} (h : ∀ r ∈ rs, r.isCandidate = false) :
    T.Ignores precise (rs.map .remark) := by
  refine ignores_of_forall fun n hn => ?_
  obtain ⟨r, hr, rfl⟩ := List.mem_map.mp hn
  exact ignores_remark (h r hr)

end Tally

end Counted

end ModelFinder
