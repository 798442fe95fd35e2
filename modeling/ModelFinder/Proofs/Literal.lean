import ModelFinder.Literal
import ModelFinder.Proofs.Attempts

/-!
# Codes of literals

The code of a literal tells its variable and its sign.  A list of codes is that of some literals
exactly if the absolute value of each code is the number of a variable
(`Literal.exists_map_toDimacs_iff`), and these literals are then what the codes are read as
(`Literal.map_ofDimacs?_eq_iff`).
-/

namespace ModelFinder

namespace Literal

variable {codes : List Int} {ls : List Literal}

theorem natAbs_toDimacs (l : Literal) : l.toDimacs.natAbs = l.var.index := by
  unfold toDimacs
  split
  · exact Int.natAbs_natCast _
  · rw [Int.natAbs_neg, Int.natAbs_natCast]

theorem decide_toDimacs_pos (l : Literal) : decide (0 < l.toDimacs) = l.positive := by
  have hone := l.var.one_le
  unfold toDimacs
  cases l.positive with
  | true => simp only [if_true]; exact decide_eq_true (by omega)
  | false => simp only [Bool.false_eq_true, if_false]; exact decide_eq_false (by omega)

theorem map_ofDimacs?_eq_iff : codes.map ofDimacs? = ls.map some ↔ ls.map (·.toDimacs) = codes := by
  induction codes generalizing ls with
  | nil => simp
  | cons code codes ih =>
      cases ls with
      | nil => simp
      | cons l ls => simp [ih, ofDimacs?_eq_some_iff]

theorem exists_map_toDimacs_iff : (∃ ls : List Literal, ls.map (·.toDimacs) = codes) ↔
    ∀ code ∈ codes, 1 ≤ code.natAbs ∧ code.natAbs ≤ Variable.maxIndex := by
  constructor
  · rintro ⟨ls, rfl⟩ code hcode
    obtain ⟨l, -, rfl⟩ := List.mem_map.mp hcode
    rw [l.natAbs_toDimacs]
    exact ⟨l.var.one_le, l.var.le_max⟩
  · intro h
    have hsome : ∀ code ∈ codes, ∃ l, ofDimacs? code = some l := fun code hcode => by
      rw [ofDimacs?, Variable.ofIndex?_of_le (h code hcode).1 (h code hcode).2]
      exact ⟨_, rfl⟩
    obtain ⟨ls, hls⟩ := exists_map_some hsome
    exact ⟨ls, map_ofDimacs?_eq_iff.mp hls.symm⟩

end Literal

end ModelFinder
