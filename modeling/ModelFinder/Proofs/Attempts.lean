/-!
# Attempts

An attempt answers or fails, and a sequence of attempts answers exactly if each of them does
(`bind_eq_ok`, `mapM_eq_ok`, `exists_mapM_eq_ok`, `forM_eq_ok`); the first one that fails decides
how it fails (`mapM_eq_error`, `mapM_eq_error_iff`).
-/

namespace ModelFinder

variable {ε α β : Type}

theorem bind_eq_ok {x : Except ε α} {f : α → Except ε β} {b : β} :
    (x >>= f) = .ok b ↔ ∃ a, x = .ok a ∧ f a = .ok b := by
  cases x with
  | error e =>
      constructor
      · intro h; cases h
      · rintro ⟨_, h, _⟩; cases h
  | ok a =>
      constructor
      · intro h; exact ⟨a, rfl, h⟩
      · rintro ⟨_, h, hf⟩; cases h; exact hf

theorem mapM_congr {f g : α → Except ε β} {as : List α} (h : ∀ a ∈ as, f a = g a) :
    as.mapM f = as.mapM g := by
  induction as with
  | nil => rfl
  | cons a as ih =>
      obtain ⟨ha, has⟩ := List.forall_mem_cons.mp h
      rw [List.mapM_cons, List.mapM_cons, ha, ih has]

/-- All attempts of a list answer, each with its answer. -/
theorem mapM_eq_ok {f : α → Except ε β} {as : List α} {bs : List β} :
    as.mapM f = .ok bs ↔ as.map f = bs.map .ok := by
  induction as generalizing bs with
  | nil =>
      constructor
      · intro h; cases h; rfl
      · intro h; rw [List.map_nil, eq_comm, List.map_eq_nil_iff] at h; rw [h]; rfl
  | cons a as ih =>
      rw [List.mapM_cons]
      constructor
      · intro h
        obtain ⟨b, hb, h⟩ := bind_eq_ok.mp h
        obtain ⟨bs', hbs, h⟩ := bind_eq_ok.mp h
        cases h
        rw [List.map_cons, List.map_cons, hb, ih.mp hbs]
      · intro h
        cases bs with
        | nil => cases h
        | cons b bs =>
            obtain ⟨hb, hbs⟩ := List.cons.inj h
            rw [hb, ih.mpr hbs]
            rfl

/-- A sequence of attempts answers exactly if each of them does. -/
theorem exists_mapM_eq_ok {f : α → Except ε β} {as : List α} :
    (∃ bs, as.mapM f = .ok bs) ↔ ∀ a ∈ as, ∃ b, f a = .ok b := by
  induction as with
  | nil => exact iff_of_true ⟨[], rfl⟩ fun _ ha => absurd ha List.not_mem_nil
  | cons a as ih =>
      simp only [List.mapM_cons, bind_eq_ok, List.forall_mem_cons, ← ih]
      constructor
      · rintro ⟨_, b, hb, bs, hbs, -⟩
        exact ⟨⟨b, hb⟩, bs, hbs⟩
      · rintro ⟨⟨b, hb⟩, bs, hbs⟩
        exact ⟨_, b, hb, bs, hbs, rfl⟩

/-- The first attempt that fails ends the sequence. -/
theorem mapM_eq_error {f : α → Except ε β} {pre post : List α} {a : α} {e : ε}
    (hpre : ∀ x ∈ pre, ∃ b, f x = .ok b) (ha : f a = .error e) :
    (pre ++ a :: post).mapM f = .error e := by
  induction pre with
  | nil =>
      rw [List.nil_append, List.mapM_cons, ha]
      rfl
  | cons x pre ih =>
      obtain ⟨b, hb⟩ := hpre x List.mem_cons_self
      rw [List.cons_append, List.mapM_cons, hb, ih fun y hy => hpre y (List.mem_cons_of_mem x hy)]
      rfl

/-- A sequence of attempts fails exactly as the first of them that fails. -/
theorem mapM_eq_error_iff {f : α → Except ε β} {as : List α} {e : ε} :
    as.mapM f = .error e ↔ ∃ pre a post, as = pre ++ a :: post ∧
      (∀ x ∈ pre, ∃ b, f x = .ok b) ∧ f a = .error e := by
  refine ⟨fun h => ?_, fun ⟨pre, a, post, has, hpre, ha⟩ => has ▸ mapM_eq_error hpre ha⟩
  induction as with
  | nil => cases h
  | cons a as ih =>
      rw [List.mapM_cons] at h
      cases ha : f a with
      | error e' =>
          rw [ha] at h
          cases h
          exact ⟨[], a, as, rfl, fun x hx => absurd hx List.not_mem_nil, ha⟩
      | ok b =>
          have hrest : as.mapM f = .error e := by
            rw [ha] at h
            cases hbs : as.mapM f with
            | error e' => rw [hbs] at h; cases h; rfl
            | ok bs => rw [hbs] at h; cases h
          obtain ⟨pre, c, post, rfl, hpre, hc⟩ := ih hrest
          exact ⟨a :: pre, c, post, rfl, List.forall_mem_cons.mpr ⟨⟨b, ha⟩, hpre⟩, hc⟩

/-- The values of a partial function that is defined on a list. -/
theorem exists_map_some {g : α → Option β} {as : List α} (h : ∀ a ∈ as, ∃ b, g a = some b) :
    ∃ bs : List β, bs.map some = as.map g := by
  induction as with
  | nil => exact ⟨[], rfl⟩
  | cons a as ih =>
      obtain ⟨b, hb⟩ := h a List.mem_cons_self
      obtain ⟨bs, hbs⟩ := ih fun c hc => h c (List.mem_cons_of_mem a hc)
      exact ⟨b :: bs, by rw [List.map_cons, List.map_cons, hb, hbs]⟩

/-- Attempts at a partial function answer where it is defined, and nowhere else. -/
theorem mapM_eq_ok_iff_map_some {f : α → Except ε β} {g : α → Option β}
    (hf : ∀ a b, f a = .ok b ↔ g a = some b) {as : List α} {bs : List β} :
    as.mapM f = .ok bs ↔ as.map g = bs.map some := by
  rw [mapM_eq_ok]
  induction as generalizing bs with
  | nil => cases bs <;> simp
  | cons a as ih =>
      cases bs with
      | nil => simp
      | cons b bs => simp [hf, ih]

/-- A sequence of checks passes exactly if each of them does. -/
theorem forM_eq_ok {f : α → Except ε Unit} {as : List α} :
    as.forM f = .ok () ↔ ∀ a ∈ as, f a = .ok () := by
  induction as with
  | nil => exact ⟨fun _ _ ha => absurd ha List.not_mem_nil, fun _ => rfl⟩
  | cons a as ih =>
      show (f a >>= fun _ => as.forM f) = .ok () ↔ _
      rw [bind_eq_ok, List.forall_mem_cons, ← ih]
      constructor
      · rintro ⟨_, ha, has⟩; exact ⟨ha, has⟩
      · rintro ⟨ha, has⟩; exact ⟨_, ha, has⟩

end ModelFinder
