import Mathlib.Data.List.Basic

/-! # One element of a list

An element that is found, by its place or by a predicate, stands between a front and a back; removing
it or putting another in its place leaves both. -/

namespace Memmy.Lib.Pick

open List

variable {α : Type*} {l : List α} {a : α}

theorem split_getElem? {k : ℕ} (h : l[k]? = some a) : ∃ front back, l = front ++ a :: back ∧
    (∀ b, l.set k b = front ++ b :: back) ∧ l.eraseIdx k = front ++ back := by
  obtain ⟨hk, rfl⟩ := List.getElem?_eq_some_iff.mp h
  refine ⟨l.take k, l.drop (k + 1), ?_, fun b => ?_, eraseIdx_eq_take_drop_succ l k⟩
  · rw [getElem_cons_drop, take_append_drop]
  · rw [set_eq_take_append_cons_drop, if_pos hk]

/-- The first element that satisfies a predicate. -/
theorem split_find? {p : α → Bool} (h : l.find? p = some a) : p a = true ∧
    ∃ front back, l = front ++ a :: back ∧ (∀ b ∈ front, p b = false) ∧ l.eraseP p = front ++ back := by
  obtain ⟨ha, front, back, rfl, hfront⟩ := find?_eq_some_iff_append.mp h
  have hfront : ∀ b ∈ front, p b = false := fun b hb => by simpa using hfront b hb
  refine ⟨ha, front, back, rfl, hfront, ?_⟩
  rw [eraseP_append_right _ (fun b hb => by simp [hfront b hb]), eraseP_cons_of_pos ha]

end Memmy.Lib.Pick
