import Mathlib.Data.List.Destutter
import Mathlib.Data.List.Sort
import Mathlib.Data.Prod.Lex
import ModelFinder.Proofs.Backend
import ModelFinder.Proofs.Trace.Selection

/-!
# The normal form of clauses

Literals are sorted by their `Literal.key`: the variable first, and then the sign.  The order of the
keys is that of the ranks (`Literal.rank_lt_rank_iff`), so however a list of literals is sorted by
it, dropping those that repeat the one before leaves the literals of the clause
(`Clause.destutter_eq_literals`).  Thus a clause is determined by the literals it is made of, in
whatever order and however often these are listed (`Clause.ofList_eq_ofList_iff`), and what it is
asked can be told from that list (`Clause.ofList_normal_form`).
-/

namespace ModelFinder

/-! ### Sorting and dropping repetitions -/

namespace Arranged

variable {α : Type} [DecidableEq α] {rank : α → Nat} {x y : α} {xs : List α}

theorem mem_destutter'_ne : x ∈ xs.destutter' (· ≠ ·) y ↔ x = y ∨ x ∈ xs := by
  induction xs generalizing y with
  | nil => simp
  | cons z zs ih =>
      rw [List.destutter'_cons]
      split
      next => rw [List.mem_cons, ih, List.mem_cons]
      next h =>
        obtain rfl := not_not.mp h
        rw [ih, List.mem_cons]
        exact or_self_left.symm

theorem mem_destutter_ne : x ∈ xs.destutter (· ≠ ·) ↔ x ∈ xs := by
  cases xs with
  | nil => exact Iff.rfl
  | cons y ys => rw [List.destutter_cons', mem_destutter'_ne, List.mem_cons]

theorem destutter'_arranged (injective : ∀ {x y : α}, rank x = rank y → x = y)
    (h : (y :: xs).Pairwise (rank · ≤ rank ·)) :
    (xs.destutter' (· ≠ ·) y).Pairwise (rank · < rank ·) := by
  induction xs generalizing y with
  | nil => exact List.pairwise_singleton _ y
  | cons z zs ih =>
      obtain ⟨hy, hzs⟩ := List.pairwise_cons.mp h
      rw [List.destutter'_cons]
      split
      next hne =>
        have hyz : rank y < rank z :=
          Nat.lt_of_le_of_ne (hy z List.mem_cons_self) fun e => hne (injective e)
        refine List.pairwise_cons.mpr ⟨fun x hx => ?_, ih hzs⟩
        rcases mem_destutter'_ne.mp hx with rfl | hx
        · exact hyz
        · exact Nat.lt_of_lt_of_le hyz ((List.pairwise_cons.mp hzs).1 x hx)
      next h =>
        obtain rfl := not_not.mp h
        exact ih hzs

/-- A sorted list without its repetitions is arranged. -/
theorem destutter_arranged (injective : ∀ {x y : α}, rank x = rank y → x = y)
    (h : xs.Pairwise (rank · ≤ rank ·)) :
    (xs.destutter (· ≠ ·)).Pairwise (rank · < rank ·) := by
  cases xs with
  | nil => exact .nil
  | cons y ys => exact destutter'_arranged injective h

end Arranged

/-! ### What literals are sorted by -/

theorem Variable.index_inj {v w : Variable} : v.index = w.index ↔ v = w :=
  ⟨Variable.ext_index, congrArg Variable.index⟩

namespace Literal

variable {l k : Literal}

/-- The variable of a literal and its sign. -/
def key (l : Literal) : ℕ ×ₗ Bool := toLex (l.var.index, l.positive)

/-- Literals are sorted by variable, and the negative literal comes before the positive one. -/
theorem key_lt_key_iff : l.key < k.key ↔
    l.var.index < k.var.index ∨ l.var = k.var ∧ l.positive = false ∧ k.positive = true := by
  rw [← Variable.index_inj, ← Bool.lt_iff]
  exact Prod.Lex.toLex_lt_toLex

theorem rank_lt_rank_iff : l.rank < k.rank ↔ l.key < k.key := by
  have hl := Bool.toNat_le l.positive
  have hk := Bool.toNat_le k.positive
  have hsign : l.positive = false ∧ k.positive = true ↔ l.positive.toNat < k.positive.toNat := by
    cases l.positive <;> cases k.positive <;> decide
  rw [key_lt_key_iff, hsign, ← Variable.index_inj, rank, rank]
  omega

theorem rank_le_rank_iff : l.rank ≤ k.rank ↔ l.key ≤ k.key := by
  rw [← not_lt, ← not_lt, rank_lt_rank_iff]

end Literal

/-! ### Clauses -/

namespace Clause

variable {ls ks : List Literal}

/-- However the literals are sorted, without repetitions they are the ones of the clause. -/
theorem destutter_eq_literals (hperm : ks.Perm ls) (hsorted : ks.Pairwise (·.key ≤ ·.key)) :
    ks.destutter (· ≠ ·) = (ofList ls).literals := by
  have hranked : ks.Pairwise (·.rank ≤ ·.rank) :=
    hsorted.imp fun h => Literal.rank_le_rank_iff.mpr h
  refine Arranged.eq_of_mem_iff (Arranged.destutter_arranged Literal.rank_injective hranked)
    (ofList ls).sorted fun x => ?_
  rw [Arranged.mem_destutter_ne, hperm.mem_iff, mem_literals, mem_ofList]

theorem mergeSort_destutter_eq_literals (ls : List Literal) :
    (ls.mergeSort fun l k => l.key ≤ k.key).destutter (· ≠ ·) = (ofList ls).literals := by
  have htrans (a b c : Literal) (hab : decide (a.key ≤ b.key) = true)
      (hbc : decide (b.key ≤ c.key) = true) : decide (a.key ≤ c.key) = true :=
    decide_eq_true (le_trans (of_decide_eq_true hab) (of_decide_eq_true hbc))
  have htotal (a b : Literal) : (decide (a.key ≤ b.key) || decide (b.key ≤ a.key)) = true := by
    rw [Bool.or_eq_true, decide_eq_true_iff, decide_eq_true_iff]
    exact le_total a.key b.key
  exact destutter_eq_literals (List.mergeSort_perm ls _)
    ((List.pairwise_mergeSort htrans htotal ls).imp of_decide_eq_true)

theorem eq_ofList_iff {c : Clause} : c = ofList ls ↔ ∀ x, x ∈ c ↔ x ∈ ls := by
  constructor
  · rintro rfl x
    exact mem_ofList
  · exact fun h => ext_mem fun x => (h x).trans mem_ofList.symm

theorem ofList_eq_ofList_iff : ofList ls = ofList ks ↔ ∀ x, x ∈ ls ↔ x ∈ ks := by
  rw [eq_ofList_iff]
  exact forall_congr' fun x => by rw [mem_ofList]

theorem maxVariable?_ofList_eq_some_iff {v : Variable} : (ofList ls).maxVariable? = some v ↔
    (∃ l ∈ ls, l.var = v) ∧ ∀ l ∈ ls, l.var.index ≤ v.index := by
  constructor
  · intro h
    obtain ⟨⟨l, hl, hv⟩, hmax⟩ := maxVariable?_eq_some h
    exact ⟨⟨l, mem_ofList.mp hl, hv⟩, fun l hl => hmax l (mem_ofList.mpr hl)⟩
  · exact fun h => maxVariable?_ofList h.1 h.2

theorem maxVariable?_ofList_eq_none_iff : (ofList ls).maxVariable? = none ↔ ls = [] := by
  rw [maxVariable?, Option.map_eq_none_iff, List.getLast?_eq_none_iff, ← List.isEmpty_iff]
  exact isEmpty_iff.trans ofList_eq_empty

/-- **The normal form of clauses.**  The clause made of a list of literals lists these once each,
sorted by variable and the negative literal before the positive one: it is what sorting by the key
and dropping repetitions makes of the list.  A literal is found in it if it is in the list, and its
largest variable is that of the list.  Two lists make the same clause, and a clause is taken to have
the literals of a list, if the members are the same.  So a refutation can be replayed for a problem
if it has as many input clauses and, at each position, its clause has the members of that of the
problem. -/
theorem ofList_normal_form (ls ks : List Literal) :
    (ofList ls).literals = (ls.mergeSort fun l k => l.key ≤ k.key).destutter (· ≠ ·) ∧
    (ofList ls).literals.Pairwise (fun l k => l.var.index < k.var.index ∨
      l.var = k.var ∧ l.positive = false ∧ k.positive = true) ∧
    (∀ x, x ∈ (ofList ls).literals ↔ x ∈ ls) ∧
    (∀ x, (ofList ls).contains x = true ↔ x ∈ ls) ∧
    (∀ v, (ofList ls).maxVariable? = some v ↔
      (∃ l ∈ ls, l.var = v) ∧ ∀ l ∈ ls, l.var.index ≤ v.index) ∧
    ((ofList ls).maxVariable? = none ↔ ls = []) ∧
    ((ofList ls).hasLiterals ks = true ↔ ∀ x, x ∈ ls ↔ x ∈ ks) ∧
    ((ofList ls).literals = (ofList ks).literals ↔ ∀ x, x ∈ ls ↔ x ∈ ks) ∧
    ∀ (t : Trace) (cnf : Cnf), Replay.checkAxioms t cnf = .ok () ↔
      t.numAxioms = cnf.numClauses ∧ ∀ (i : Nat) (c : TraceClause) (given : List Literal),
        t.get? i = some c → cnf.clauses[i]? = some given → ∀ x, x ∈ c.clause ↔ x ∈ given := by
  have hsorted : (ofList ls).literals.Pairwise (·.key < ·.key) :=
    (ofList ls).sorted.imp Literal.rank_lt_rank_iff.mp
  have hsame : (ofList ls).hasLiterals ks = true ↔ ∀ x, x ∈ ls ↔ x ∈ ks :=
    hasLiterals_iff.trans ofList_eq_ofList_iff
  refine ⟨(mergeSort_destutter_eq_literals ls).symm, hsorted.imp Literal.key_lt_key_iff.mp,
    fun x => mem_ofList, fun x => contains_iff.trans mem_ofList,
    fun v => maxVariable?_ofList_eq_some_iff, maxVariable?_ofList_eq_none_iff, hsame,
    decide_eq_true_iff.symm.trans hsame, fun t cnf => Replay.checkAxioms_eq_ok_iff.trans ?_⟩
  simp only [eq_ofList_iff]

end Clause

end ModelFinder
