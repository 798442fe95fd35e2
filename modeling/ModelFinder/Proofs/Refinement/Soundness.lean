import ModelFinder.Proofs.Session
import ModelFinder.Refinement

/-!
# The refinement loop is right

Whether a model is one of a problem is told by a relation `Models`.  A pipeline decides first-order
problems when its verdicts about them are right (`Pipeline.Decides`), and an oracle meets its
contract (`Oracle.Contract`) when

* candidate problems lose no model, as long as they are strengthened by increments only that the
  oracle has returned for candidates of the same session (`Oracle.Served`);
* a verification problem has no model exactly if the candidate is a model;
* the cases of a split have models of the problem only, and one if the problem has one.

A session is in line if what the oracle has been asked fits its position (`Refinement.InLine`).
Each kind of position has a lemma for one round of the loop (`ends_searching`, `ends_verifying`, …),
which goes on with a session in line or ends with a right verdict, and so does a run of any length
(`rightWithin`).  `solve_sound` is about the solver.
-/

namespace ModelFinder

variable {L : Logic} {ω π σ : Type} {Models : Problem L → L.Model → Prop}

/-- A model is one of the problem, and there is none if the problem is called unsatisfiable. -/
def Verdict.IsRightFor (Models : Problem L → L.Model → Prop) (p : Problem L) : Verdict L → Prop
  | .satisfiable m => Models p m
  | .unsatisfiable _ => ∀ m, ¬ Models p m

/-! ### Contracts -/

namespace Oracle

variable {oracle : Oracle L ω}

/-- The problem is left to the first-order pipeline. -/
def IsFirstOrder (oracle : Oracle L ω) (p : Problem L) : Prop :=
  oracle.isHigherOrder p.formula = false

/-- The increments that the oracle has returned in a session about the problem, and the state in
which it is after them.  In every round, a candidate is refuted by a model of its verification
problem, and the oracle is asked how to exclude it. -/
inductive Served (oracle : Oracle L ω) (Models : Problem L → L.Model → Prop) (p : Problem L) :
    List L.Formula → ω → Prop
  | start {o : ω} (higher_order : ¬ oracle.IsFirstOrder p) : Served oracle Models p [] o
  | round {increments : List L.Formula} {f : L.Formula} {q check : Problem L}
      {m counterexample : L.Model} {o o₁ o₂ o₃ : ω} (served : Served oracle Models p increments o)
      (asked : (oracle.candidateProblem p increments).Answers o q o₁) (candidate : Models q m)
      (verifying : (oracle.verificationProblem p m).Answers o₁ check o₂)
      (refuted : Models check counterexample)
      (refining : (oracle.refine p m counterexample).Answers o₂ (.increment f) o₃) :
      Served oracle Models p (increments ++ [f]) o₃

/-- Models of the cases are models of the problem, and if there is one, some case has one. -/
structure SplitsInto (Models : Problem L → L.Model → Prop) (p : Problem L)
    (choices : List (Problem L)) : Prop where
  sound : ∀ choice ∈ choices, ∀ m, Models choice m → Models p m
  complete : ∀ m, Models p m → ∃ choice ∈ choices, ∃ m', Models choice m'

/-- What an oracle promises, whenever it answers. -/
structure Contract (oracle : Oracle L ω) (Models : Problem L → L.Model → Prop) : Prop where
  candidate : ∀ {p q : Problem L} {increments : List L.Formula} {o o' : ω},
    oracle.Served Models p increments o →
    (oracle.candidateProblem p increments).Answers o q o' →
    oracle.IsFirstOrder q ∧ ∀ m, Models p m → Models q m
  verification : ∀ {p check : Problem L} {m : L.Model} {o o' : ω}, ¬ oracle.IsFirstOrder p →
    (oracle.verificationProblem p m).Answers o check o' →
    oracle.IsFirstOrder check ∧ ((∀ c, ¬ Models check c) ↔ Models p m)
  split : ∀ {p : Problem L} {m c : L.Model} {choices : List (Problem L)} {o o' : ω},
    ¬ oracle.IsFirstOrder p → ¬ Models p m →
    (oracle.refine p m c).Answers o (.split choices) o' → SplitsInto Models p choices

end Oracle

/-- From the states in which `J` holds, verdicts about first-order problems are right. -/
def Pipeline.Decides (pipeline : Pipeline L π σ) (oracle : Oracle L ω)
    (Models : Problem L → L.Model → Prop) (J : π → Prop) : Prop :=
  ∀ (p : Problem L) (minimised : Bool) (s : π) (stop : σ), oracle.IsFirstOrder p → J s →
    (pipeline.solve p minimised).Ends (s, stop) (fun v r => v.IsRightFor Models p ∧ J r.1)
      fun _ _ => True

namespace Refinement

open Session Oracle

variable {oracle : Oracle L ω} {pipeline : Pipeline L π σ} {J : π → Prop} {s : State ω π σ}

/-! ### Single steps -/

section Steps

variable {α : Type}

theorem ends_consult {x : Consultation ω α} {Q : α → State ω π σ → Prop}
    (h : ∀ a s', x.Answers s.oracle a s'.oracle → s'.pipeline = s.pipeline → Q a s') :
    (consult x : Run L ω π σ α).Ends s Q fun _ _ => True := by
  unfold consult
  rw [ends_within, ends_mapFailure, ends_mapNotes]
  exact ends_of_forall_answers fun a o ha => h a { s with oracle := o } ha rfl

theorem ends_decide (hp : pipeline.Decides oracle Models J) {p : Problem L}
    (hfirst : oracle.IsFirstOrder p) (hJ : J s.pipeline) (minimised : Bool)
    {Q : Verdict L → State ω π σ → Prop}
    (h : ∀ v s', v.IsRightFor Models p → J s'.pipeline → s'.oracle = s.oracle → Q v s') :
    (decide pipeline p minimised).Ends s Q fun _ _ => True := by
  unfold decide
  rw [ends_within, ends_mapNotes]
  exact (hp p minimised s.pipeline s.stop hfirst hJ).mono (fun v r hv => h v _ hv.1 hv.2 rfl)
    fun _ _ he => he

/-- The stop condition is none of the oracle's and of the pipeline's. -/
theorem ends_stopping {x : Session (Note (Milestone L)) Failure σ α}
    {Q : α → State ω π σ → Prop}
    (h : ∀ a s', s'.oracle = s.oracle → s'.pipeline = s.pipeline → Q a s') :
    (stopping x).Ends s Q fun _ _ => True := by
  unfold stopping
  rw [ends_within]
  exact ends_of_forall_answers fun a stop _ => h a { s with stop } rfl rfl

@[simp] theorem ends_reach {m : Milestone L} {Q : Unit → State ω π σ → Prop}
    {E : Failure → State ω π σ → Prop} :
    (reach m : Run L ω π σ Unit).Ends s Q E ↔ Q () s := Iff.rfl

@[simp] theorem ends_count {f : Counters → Counters} {Q : Unit → State ω π σ → Prop}
    {E : Failure → State ω π σ → Prop} :
    (count f : Run L ω π σ Unit).Ends s Q E ↔ Q () { s with counters := f s.counters } := Iff.rfl

end Steps

/-! ### Sessions -/

/-- The verdict is right, and the pipeline has not left its states. -/
def Right (Models : Problem L → L.Model → Prop) (J : π → Prop) (p : Problem L) (v : Verdict L)
    (s : State ω π σ) : Prop := v.IsRightFor Models p ∧ J s.pipeline

/-- A session either asks the pipeline or goes through the loop. -/
theorem ends_solveWith (hp : pipeline.Decides oracle Models J)
    {loop : Task L → LoopStep → Run L ω π σ (Verdict L)} {task : Task L}
    (hloop : ∀ (place : LoopStep) (s : State ω π σ), ¬ oracle.IsFirstOrder task.problem →
      J s.pipeline → (loop task place).Ends s (Right Models J task.problem) fun _ _ => True)
    (hJ : J s.pipeline) :
    (solveWith oracle pipeline loop task).Ends s (Right Models J task.problem)
      fun _ _ => True := by
  unfold solveWith
  cases hfirst : oracle.isHigherOrder task.problem.formula with
  | false => exact ends_decide hp hfirst hJ task.minimised fun v s' hv hJ' _ => ⟨hv, hJ'⟩
  | true =>
      refine hloop _ { s with counters := _ } (fun h => ?_) hJ
      rw [IsFirstOrder, hfirst] at h
      cases h

/-- The cases of a split, one after the other: a model is one of some case, and there is none if no
case has one. -/
theorem ends_tryChoices {solve : Task L → Run L ω π σ (Verdict L)} {task : Task L}
    {place : LoopStep} {choices : List (Problem L)}
    (hsolve : ∀ (s : State ω π σ) (t : Task L), t.problem ∈ choices → J s.pipeline →
      (solve t).Ends s (Right Models J t.problem) fun _ _ => True)
    (core? : Option (UnsatCore L)) (hJ : J s.pipeline) :
    (tryChoices solve task place choices core?).Ends s
      (fun v s' => (match v with
        | .satisfiable m => ∃ choice ∈ choices, Models choice m
        | .unsatisfiable _ => ∀ choice ∈ choices, ∀ m, ¬ Models choice m) ∧ J s'.pipeline)
      fun _ _ => True := by
  induction choices generalizing s core? with
  | nil =>
      cases core? with
      | none => exact trivial
      | some core => exact ⟨fun choice hc => absurd hc List.not_mem_nil, hJ⟩
  | cons choice rest ih =>
      simp only [tryChoices, ends_bind, ends_reach]
      refine (hsolve s _ List.mem_cons_self hJ).mono (fun v s' h => ?_) fun _ _ he => he
      obtain ⟨hv, hJ'⟩ := h
      cases v with
      | satisfiable m => exact ⟨⟨choice, List.mem_cons_self, hv⟩, hJ'⟩
      | unsatisfiable core =>
          have hrest := ih (s := s') (fun s t ht => hsolve s t (List.mem_cons_of_mem choice ht))
            (some core) hJ'
          simp only [ends_bind, ends_reach]
          refine hrest.mono (fun v s'' h => ?_) fun _ _ he => he
          obtain ⟨hv', hJ''⟩ := h
          refine ⟨?_, hJ''⟩
          cases v with
          | satisfiable m =>
              obtain ⟨c, hc, hm⟩ := hv'
              exact ⟨c, List.mem_cons_of_mem choice hc, hm⟩
          | unsatisfiable _ => exact List.forall_mem_cons.mpr ⟨hv, hv'⟩

/-! ### The loop -/

/-- What the oracle has been asked, in line with the position of a session. -/
def InLine (oracle : Oracle L ω) (Models : Problem L → L.Model → Prop) (p : Problem L)
    (increments : List L.Formula) (o : ω) : Position L → Prop
  | .searching => oracle.Served Models p increments o
  | .verifying m => ∃ q o₀, oracle.Served Models p increments o₀ ∧
      (oracle.candidateProblem p increments).Answers o₀ q o ∧ Models q m
  | .strengthening f => oracle.Served Models p (increments ++ [f]) o
  | .splitting choices => SplitsInto Models p choices

/-- A session starts with nothing asked. -/
theorem inLine_start {p : Problem L} {o : ω} (hhigher : ¬ oracle.IsFirstOrder p) :
    InLine oracle Models p [] o .searching := Served.start hhigher

section Loop

variable [StopCondition σ] {rounds : Nat} {task : Task L} {place : LoopStep}
  {increments : List L.Formula}

/-- From every position, a session of so many rounds ends with a right verdict. -/
def RightWithin (oracle : Oracle L ω) (pipeline : Pipeline L π σ)
    (Models : Problem L → L.Model → Prop) (J : π → Prop) (rounds : Nat) : Prop :=
  ∀ {task : Task L} {place : LoopStep} {increments : List L.Formula} {position : Position L}
    {s : State ω π σ}, ¬ oracle.IsFirstOrder task.problem →
    InLine oracle Models task.problem increments s.oracle position → J s.pipeline →
    (loop oracle pipeline rounds task place increments position).Ends s
      (Right Models J task.problem) fun _ _ => True

/-- A candidate problem without a model leaves none to the problem. -/
theorem ends_searching (ho : oracle.Contract Models) (hp : pipeline.Decides oracle Models J)
    (ih : RightWithin oracle pipeline Models J rounds)
    (hhigher : ¬ oracle.IsFirstOrder task.problem)
    (hserved : oracle.Served Models task.problem increments s.oracle) (hJ : J s.pipeline) :
    (loop oracle pipeline (rounds + 1) task place increments .searching).Ends s
      (Right Models J task.problem) fun _ _ => True := by
  simp only [loop, ends_bind]
  refine ends_stopping fun _ s₁ hs₁ hp₁ => ?_
  rw [ends_count]
  refine ends_consult fun q s₂ hq hp₂ => ?_
  rw [← hs₁] at hserved
  obtain ⟨hfirst, hkeeps⟩ := ho.candidate hserved hq
  have hJ₂ : J s₂.pipeline := by rwa [hp₂, hp₁]
  refine ends_decide hp hfirst hJ₂ task.minimised fun v s₃ hv hJ₃ hs₃ => ?_
  cases v with
  | unsatisfiable core => exact ⟨fun m hm => hv m (hkeeps m hm), hJ₃⟩
  | satisfiable m =>
      simp only [ends_bind, ends_reach]
      exact ih hhigher ⟨q, _, hserved, hs₃ ▸ hq, hv⟩ hJ₃

/-- A candidate is answered if its verification problem has no model; otherwise it is refuted, and
the oracle says how to go on. -/
theorem ends_verifying (ho : oracle.Contract Models) (hp : pipeline.Decides oracle Models J)
    (ih : RightWithin oracle pipeline Models J rounds)
    (hhigher : ¬ oracle.IsFirstOrder task.problem) {m : L.Model}
    (hline : InLine oracle Models task.problem increments s.oracle (.verifying m))
    (hJ : J s.pipeline) :
    (loop oracle pipeline (rounds + 1) task place increments (.verifying m)).Ends s
      (Right Models J task.problem) fun _ _ => True := by
  obtain ⟨q, o₀, hserved, hasked, hcandidate⟩ := hline
  simp only [loop, ends_bind]
  refine ends_stopping fun _ s₁ hs₁ hp₁ => ?_
  rw [ends_count]
  refine ends_consult fun check s₂ hcheck hp₂ => ?_
  rw [← hs₁] at hasked
  obtain ⟨hfirst, hexact⟩ := ho.verification hhigher hcheck
  have hJ₂ : J s₂.pipeline := by rwa [hp₂, hp₁]
  rw [ends_reach]
  refine ends_decide hp hfirst hJ₂ false fun v s₃ hv hJ₃ hs₃ => ?_
  cases v with
  | unsatisfiable core => exact ⟨hexact.mp hv, hJ₃⟩
  | satisfiable c =>
      have hnot : ¬ Models task.problem m := fun h => hexact.mpr h c hv
      simp only [ends_bind, ends_reach]
      refine ends_consult fun refinement s₄ hrefine hp₄ => ?_
      rw [hs₃] at hrefine
      rw [← hp₄] at hJ₃
      cases refinement with
      | increment f =>
          exact ih hhigher (hserved.round hasked hcandidate hcheck hv hrefine) hJ₃
      | split choices => exact ih hhigher (ho.split hhigher hnot hrefine) hJ₃

/-- An increment is put to the others. -/
theorem ends_strengthening (ih : RightWithin oracle pipeline Models J rounds)
    (hhigher : ¬ oracle.IsFirstOrder task.problem) {f : L.Formula}
    (hserved : oracle.Served Models task.problem (increments ++ [f]) s.oracle)
    (hJ : J s.pipeline) :
    (loop oracle pipeline (rounds + 1) task place increments (.strengthening f)).Ends s
      (Right Models J task.problem) fun _ _ => True := by
  simp only [loop, ends_bind]
  refine ends_stopping fun _ s₁ hs₁ hp₁ => ?_
  simp only [ends_count, ends_reach]
  refine ends_stopping fun _ s₂ hs₂ hp₂ => ?_
  rw [ends_note]
  rw [← hs₁, ← hs₂] at hserved
  rw [← hp₁, ← hp₂] at hJ
  exact ih hhigher hserved hJ

/-- Every case of a split is a session of its own. -/
theorem ends_splitting (hp : pipeline.Decides oracle Models J)
    (ih : RightWithin oracle pipeline Models J rounds) {choices : List (Problem L)}
    (hsplit : SplitsInto Models task.problem choices) (hJ : J s.pipeline) :
    (loop oracle pipeline (rounds + 1) task place increments (.splitting choices)).Ends s
      (Right Models J task.problem) fun _ _ => True := by
  simp only [loop, ends_bind]
  refine ends_stopping fun _ s₁ _ hp₁ => ?_
  rw [← hp₁] at hJ
  split
  · exact trivial
  · have hcase : ∀ (s : State ω π σ) (t : Task L), t.problem ∈ choices → J s.pipeline →
        (solveWith oracle pipeline (fun t place => loop oracle pipeline rounds t place [] .searching)
          t).Ends s (Right Models J t.problem) fun _ _ => True := fun s t _ hJ =>
      ends_solveWith hp (fun _ _ hhigher hJ => ih hhigher (inLine_start hhigher) hJ) hJ
    simp only [ends_bind, ends_count, ends_reach, ends_note]
    refine Ends.mono (ends_tryChoices hcase none hJ) (fun v s' h => ?_) fun _ _ he => he
    obtain ⟨hv, hJ'⟩ := h
    refine ⟨?_, hJ'⟩
    cases v with
    | satisfiable m =>
        obtain ⟨choice, hc, hm⟩ := hv
        exact hsplit.sound choice hc m hm
    | unsatisfiable core =>
        intro m hm
        obtain ⟨choice, hc, m', hm'⟩ := hsplit.complete m hm
        exact hv choice hc m' hm'

/-- **The verdicts of the loop are right**, after any number of rounds. -/
theorem rightWithin (ho : oracle.Contract Models) (hp : pipeline.Decides oracle Models J)
    (rounds : Nat) : RightWithin oracle pipeline Models J rounds := by
  induction rounds with
  | zero => exact fun _ _ _ => trivial
  | succ rounds ih =>
      intro task place increments position s hhigher hline hJ
      cases position with
      | searching => exact ends_searching ho hp ih hhigher hline hJ
      | verifying m => exact ends_verifying ho hp ih hhigher hline hJ
      | strengthening f => exact ends_strengthening ih hhigher hline hJ
      | splitting choices => exact ends_splitting hp ih hline hJ

end Loop

/-- **The solver is right** if its oracle meets its contract and its pipeline decides first-order
problems: an answered model is one of the problem, and a problem called unsatisfiable has none. -/
theorem solve_sound [StopCondition σ] (ho : oracle.Contract Models)
    (hp : pipeline.Decides oracle Models J) (hJ : J s.pipeline) (rounds : Nat) (p : Problem L) :
    (∀ m, ((solve oracle pipeline rounds p).run s).answer = .ok (.satisfiable m) → Models p m) ∧
      ∀ core, ((solve oracle pipeline rounds p).run s).answer = .ok (.unsatisfiable core) →
        ∀ m, ¬ Models p m := by
  have hright : (solve oracle pipeline rounds p).Ends s (Right Models J p) fun _ _ => True :=
    ends_solveWith hp (fun _ _ hhigher hJ =>
      rightWithin ho hp rounds hhigher (inLine_start hhigher) hJ) hJ
  exact ⟨fun m h => (hright.of_answer h).1, fun core h => (hright.of_answer h).1⟩

/-! ### Lists with one number -/

/-- A number is looked for: any of a list, the only one of a list, or the only one of either of two
lists. -/
inductive Wanted where
  | any (ns : List Nat)
  | only (ns : List Nat)
  | either (ns ns' : List Nat)

namespace Wanted

/-- The numbers of the lists. -/
def numbers : Wanted → List Nat
  | any ns => ns
  | only ns => ns
  | either ns ns' => ns ++ ns'

/-- Whether a number is the only one of a list. -/
def isOnly (ns : List Nat) (n : Nat) : Bool := ns.contains n && ns.all (· == n)

/-- Whether a number is what is looked for. -/
def admits : Wanted → Nat → Bool
  | any ns, n => ns.contains n
  | only ns, n => isOnly ns n
  | either ns ns', n => isOnly ns n || isOnly ns' n

theorem admits_any {ns : List Nat} {n : Nat} : (any ns).admits n = true ↔ n ∈ ns :=
  List.contains_iff_mem

theorem mem_numbers {w : Wanted} {n : Nat} (h : w.admits n = true) : n ∈ w.numbers := by
  cases w with
  | any ns => exact admits_any.mp h
  | only ns =>
      simp only [admits, isOnly, Bool.and_eq_true, List.contains_iff_mem] at h
      exact h.1
  | either ns ns' =>
      simp only [admits, isOnly, Bool.or_eq_true, Bool.and_eq_true, List.contains_iff_mem] at h
      exact List.mem_append.mpr (h.imp And.left And.left)

/-- The logic of such formulas; their models are numbers. -/
abbrev logic : Logic := ⟨Wanted, Unit, Nat, Unit, Unit⟩

/-- The models of a problem. -/
def IsModel (p : Problem logic) (n : Nat) : Prop := admits p.formula n = true

/-- Candidates are the numbers that all increments allow.  An increment excludes one number; two
lists are split. -/
def exclusion : Oracle logic Unit where
  isHigherOrder
    | any _ => false
    | _ => true
  candidateProblem p increments :=
    pure ⟨any ((numbers p.formula).filter fun n => increments.all (admits · n)), ()⟩
  verificationProblem p n := pure ⟨any (if admits p.formula n then [] else [n]), ()⟩
  refine p n _ := pure <|
    match p.formula with
    | either ns ns' => .split [⟨only ns, ()⟩, ⟨only ns', ()⟩]
    | w => .increment (any ((numbers w).filter (· ≠ n)))

/-- Answers the first number of the list, if there is one. -/
def selection : Pipeline logic Unit Indefinite where
  solve p _ := pure <|
    match numbers p.formula with
    | [] => .unsatisfiable ⟨⟨#[], 0⟩, [], []⟩
    | n :: _ => .satisfiable n

theorem decides_selection : selection.Decides exclusion IsModel fun _ => True := by
  rintro ⟨w, _⟩ minimised s stop hfirst -
  unfold selection
  rw [ends_pure]
  refine ⟨?_, trivial⟩
  cases w with
  | any ns =>
      cases ns with
      | nil => exact fun n hn => List.not_mem_nil (mem_numbers hn)
      | cons n ns => exact List.contains_iff_mem.mpr List.mem_cons_self
  | only ns => cases hfirst
  | either ns ns' => cases hfirst

/-- The check of a number has no model exactly if the number is a model of the problem. -/
theorem verification_exact {p check : Problem logic} {n : Nat} {o o' : Unit}
    (h : (exclusion.verificationProblem p n).Answers o check o') :
    exclusion.IsFirstOrder check ∧ ((∀ c, ¬ IsModel check c) ↔ IsModel p n) := by
  cases h.1
  refine ⟨rfl, ?_⟩
  simp only [IsModel, admits_any]
  split
  next hn => simp [hn]
  next hn => simp [hn]

/-- A model of the problem is allowed by all increments. -/
theorem admits_of_served {p : Problem logic} {increments : List logic.Formula} {o : Unit} {n : Nat}
    (h : exclusion.Served IsModel p increments o) (hn : IsModel p n) :
    increments.all (admits · n) = true := by
  induction h with
  | start => rfl
  | @round increments f q check m c _ _ _ _ _ _ _ verifying refuted refining ih =>
      have hne : n ≠ m := by
        rintro rfl
        exact (verification_exact verifying).2.mpr hn c refuted
      obtain ⟨w, _⟩ := p
      have hf : f = any (w.numbers.filter (· ≠ m)) := by
        cases w with
        | any ns => cases refining.1; rfl
        | only ns => cases refining.1; rfl
        | either ns ns' => cases refining.1
      have hmem : n ∈ w.numbers.filter (· ≠ m) := by simp [mem_numbers hn, hne]
      rw [hf, List.all_append, ih, List.all_cons, admits_any.mpr hmem]
      rfl

theorem contract_exclusion : exclusion.Contract IsModel where
  candidate hserved h := by
    cases h.1
    refine ⟨rfl, fun n hn => admits_any.mpr ?_⟩
    exact List.mem_filter.mpr ⟨mem_numbers hn, admits_of_served hserved hn⟩
  verification _ h := verification_exact h
  split {p m c choices o o'} _ _ h := by
    obtain ⟨w, _⟩ := p
    cases w with
    | any ns => cases h.1
    | only ns => cases h.1
    | either ns ns' =>
        cases h.1
        constructor
        · simp +contextual [IsModel, admits]
        · intro n hn
          rcases Bool.or_eq_true_iff.mp hn with h | h
          · exact ⟨_, List.mem_cons_self, n, h⟩
          · exact ⟨_, List.mem_cons_of_mem _ List.mem_cons_self, n, h⟩

/-- What the solver answers for two lists. -/
def answer (ns ns' : List Nat) : Except Failure (Verdict logic) :=
  ((solve exclusion selection 10 ⟨either ns ns', ()⟩).run ⟨(), (), .indefinite, {}⟩).answer

end Wanted

/-- Of `1, 3` and `2`, the second list has one number only, which is found after a split and two
increments; of `1, 3` and the empty list, none has. -/
theorem solve_sound_only_number : ∃ n core,
    Wanted.answer [1, 3] [2] = .ok (.satisfiable n) ∧ n = (2 : Nat) ∧
      Wanted.IsModel ⟨.either [1, 3] [2], ()⟩ n ∧
      Wanted.answer [1, 3] [] = .ok (.unsatisfiable core) ∧
      ∀ n, ¬ Wanted.IsModel ⟨.either [1, 3] [], ()⟩ n := by
  have hsound (p : Problem Wanted.logic) := solve_sound (s := ⟨(), (), Indefinite.indefinite, {}⟩)
    Wanted.contract_exclusion Wanted.decides_selection trivial 10 p
  have hrun : (match Wanted.answer [1, 3] [2], Wanted.answer [1, 3] [] with
      | .ok (.satisfiable n), .ok (.unsatisfiable _) => Nat.beq n 2
      | _, _ => false) = true := by decide +kernel
  split at hrun
  next n core hsat hunsat =>
    exact ⟨n, core, hsat, Nat.eq_of_beq_eq_true hrun, (hsound _).1 n hsat, hunsat,
      (hsound _).2 core hunsat⟩
  next => cases hrun

end Refinement

end ModelFinder
