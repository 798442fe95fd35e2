/-!
# Lists arranged by a rank

Clauses and sets of positions are kept as lists without repetitions whose members come in the order
of a rank.  `place` puts one more member where it belongs (`mem_place`, `place_arranged`), `search`
finds out by halving whether there is a member of a rank (`search_eq_true_iff`), and such a list is
determined by its members (`eq_of_mem_iff`).  No two things may have the same rank.
-/

namespace ModelFinder.Arranged

variable {α : Type} (rank : α → Nat)

/-- Puts a member into an arranged list, unless it is there already. -/
def place (x : α) : List α → List α
  | [] => [x]
  | y :: ys =>
    if rank x < rank y then x :: y :: ys
    else if rank x = rank y then y :: ys
    else y :: place x ys

/-- Whether one of at most `n` arranged members has the rank `r`.  The one in the middle tells in
which half it would be. -/
def search (r : Nat) : Nat → List α → Bool
  | 0, _ => false
  | n + 1, xs =>
    match xs.drop (xs.length / 2) with
    | [] => false
    | y :: ys =>
      if r < rank y then search r n (xs.take (xs.length / 2))
      else if rank y < r then search r n ys
      else true

variable {rank}

theorem mem_place (injective : ∀ {x y : α}, rank x = rank y → x = y) {x y : α} {ys : List α} :
    x ∈ place rank y ys ↔ x = y ∨ x ∈ ys := by
  induction ys with
  | nil => simp [place]
  | cons z zs ih =>
      unfold place
      split
      · simp
      · split
        next h => rw [injective h]; simp
        next => simp only [List.mem_cons, ih]; grind

/-- Whatever comes before the new member and before the old ones comes before all of them. -/
theorem lt_of_mem_place {n : Nat} {x y : α} {ys : List α} (hy : n < rank y)
    (hys : ∀ z ∈ ys, n < rank z) (h : x ∈ place rank y ys) : n < rank x := by
  induction ys with
  | nil => simp only [place, List.mem_singleton] at h; exact h ▸ hy
  | cons z zs ih =>
      unfold place at h
      have hzs := fun w hw => hys w (List.mem_cons_of_mem z hw)
      split at h
      · rcases List.mem_cons.mp h with rfl | h
        · exact hy
        · exact hys x h
      · split at h
        · exact hys x h
        · rcases List.mem_cons.mp h with rfl | h
          · exact hys x List.mem_cons_self
          · exact ih hzs h

theorem place_arranged {x : α} {ys : List α} (h : ys.Pairwise (rank · < rank ·)) :
    (place rank x ys).Pairwise (rank · < rank ·) := by
  induction ys with
  | nil => simp [place]
  | cons y ys ih =>
      obtain ⟨hy, hys⟩ := List.pairwise_cons.mp h
      unfold place
      split
      next hlt =>
        refine List.pairwise_cons.mpr ⟨fun z hz => ?_, h⟩
        rcases List.mem_cons.mp hz with rfl | hz
        · exact hlt
        · exact Nat.lt_trans hlt (hy z hz)
      next hge =>
        split
        next => exact h
        next hne =>
          exact List.pairwise_cons.mpr
            ⟨fun z hz => lt_of_mem_place (by omega) hy hz, ih hys⟩

theorem foldr_place_arranged (xs : List α) :
    (xs.foldr (place rank) []).Pairwise (rank · < rank ·) := by
  induction xs with
  | nil => exact .nil
  | cons x xs ih => exact place_arranged ih

theorem mem_foldr_place (injective : ∀ {x y : α}, rank x = rank y → x = y) {x : α} {xs : List α} :
    x ∈ xs.foldr (place rank) [] ↔ x ∈ xs := by
  induction xs with
  | nil => simp
  | cons y ys ih => simp only [List.foldr_cons, mem_place injective, List.mem_cons, ih]

section Halves

variable {r : Nat} {y : α} {xs ys : List α}

/-- What ranks below the one in the middle is before it. -/
theorem exists_before_iff (h : (xs ++ y :: ys).Pairwise (rank · < rank ·)) (hr : r < rank y) :
    (∃ x ∈ xs ++ y :: ys, rank x = r) ↔ ∃ x ∈ xs, rank x = r := by
  obtain ⟨hy, -⟩ := List.pairwise_cons.mp (List.pairwise_append.mp h).2.1
  refine ⟨?_, fun ⟨x, hx, e⟩ => ⟨x, List.mem_append_left _ hx, e⟩⟩
  rintro ⟨x, hx, rfl⟩
  rcases List.mem_append.mp hx with hx | hx
  · exact ⟨x, hx, rfl⟩
  · rcases List.mem_cons.mp hx with rfl | hx
    · exact absurd hr (Nat.lt_irrefl _)
    · exact absurd (Nat.lt_trans hr (hy x hx)) (Nat.lt_irrefl _)

/-- What ranks above the one in the middle is after it. -/
theorem exists_after_iff (h : (xs ++ y :: ys).Pairwise (rank · < rank ·)) (hr : rank y < r) :
    (∃ x ∈ xs ++ y :: ys, rank x = r) ↔ ∃ x ∈ ys, rank x = r := by
  have hxs := (List.pairwise_append.mp h).2.2
  refine ⟨?_, fun ⟨x, hx, e⟩ => ⟨x, List.mem_append_right _ (List.mem_cons_of_mem y hx), e⟩⟩
  rintro ⟨x, hx, rfl⟩
  rcases List.mem_append.mp hx with hx | hx
  · exact absurd (Nat.lt_trans hr (hxs x hx y List.mem_cons_self)) (Nat.lt_irrefl _)
  · rcases List.mem_cons.mp hx with rfl | hx
    · exact absurd hr (Nat.lt_irrefl _)
    · exact ⟨x, hx, rfl⟩

end Halves

/-- The search finds whatever is there. -/
theorem search_eq_true_iff {r n : Nat} {xs : List α} (h : xs.Pairwise (rank · < rank ·))
    (hn : xs.length ≤ n) : search rank r n xs = true ↔ ∃ x ∈ xs, rank x = r := by
  induction n generalizing xs with
  | zero =>
      obtain rfl := List.length_eq_zero_iff.mp (Nat.le_zero.mp hn)
      simp [search]
  | succ n ih =>
      have hhalves := List.take_append_drop (xs.length / 2) xs
      unfold search
      split
      next hdrop =>
        have hlen := List.drop_eq_nil_iff.mp hdrop
        obtain rfl := List.length_eq_zero_iff.mp (by omega : xs.length = 0)
        simp
      next y ys hdrop =>
        rw [hdrop] at hhalves
        generalize xs.take (xs.length / 2) = zs at hhalves ⊢
        subst hhalves
        obtain ⟨hzs, hyys, -⟩ := List.pairwise_append.mp h
        simp only [List.length_append, List.length_cons] at hn
        split
        next hr => rw [exists_before_iff h hr, ih hzs (by omega)]
        next hge =>
          split
          next hr => rw [exists_after_iff h hr, ih (List.pairwise_cons.mp hyys).2 (by omega)]
          next hle =>
            have he : rank y = r := by omega
            exact iff_of_true rfl ⟨y, List.mem_append_right _ List.mem_cons_self, he⟩

/-- Two arranged lists with the same members are the same list. -/
theorem eq_of_mem_iff {xs ys : List α} (hxs : xs.Pairwise (rank · < rank ·))
    (hys : ys.Pairwise (rank · < rank ·)) (h : ∀ z, z ∈ xs ↔ z ∈ ys) : xs = ys := by
  induction xs generalizing ys with
  | nil =>
      cases ys with
      | nil => rfl
      | cons y ys => exact absurd ((h y).mpr (by simp)) (by simp)
  | cons x xs ih =>
      cases ys with
      | nil => exact absurd ((h x).mp (by simp)) (by simp)
      | cons y ys =>
          obtain ⟨hx₁, hx₂⟩ := List.pairwise_cons.mp hxs
          obtain ⟨hy₁, hy₂⟩ := List.pairwise_cons.mp hys
          have hxy : x = y := by
            rcases List.mem_cons.mp ((h x).mp (by simp)) with e | e
            · exact e
            · rcases List.mem_cons.mp ((h y).mpr (by simp)) with e' | e'
              · exact e'.symm
              · have := hy₁ x e
                have := hx₁ y e'
                omega
          subst hxy
          have hz : ∀ z, z ∈ xs ↔ z ∈ ys := fun z => by
            constructor
            · intro hz
              rcases List.mem_cons.mp ((h z).mp (List.mem_cons_of_mem _ hz)) with e | e
              · have := hx₁ z hz
                subst e; omega
              · exact e
            · intro hz
              rcases List.mem_cons.mp ((h z).mpr (List.mem_cons_of_mem _ hz)) with e | e
              · have := hy₁ z hz
                subst e; omega
              · exact e
          rw [ih hx₂ hy₂ hz]

end ModelFinder.Arranged
