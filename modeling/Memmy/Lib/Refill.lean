import Mathlib.Data.List.Perm.Basic

/-! # Permuting some places of a list

`refill p l new` puts the elements of `new`, in order, on the places of `l` whose element satisfies
`p`. With a permutation of those elements the whole list is permuted, and what satisfies a stronger
condition comes in the order of `new`. -/

namespace Memmy.Lib.Refill

open List

variable {α : Type*} (p : α → Bool)

def refill : List α → List α → List α
  | [], _ => []
  | x :: l, new =>
    if p x then
      match new with
      | y :: new => y :: refill l new
      | [] => x :: refill l []
    else x :: refill l new

variable {p} {q : α → Bool}

theorem refill_cons_of_pos {x : α} (h : p x = true) (l : List α) (y : α) (new : List α) :
    refill p (x :: l) (y :: new) = y :: refill p l new := by
  rw [refill, if_pos h]

theorem refill_cons_of_neg {x : α} (h : ¬ p x = true) (l new : List α) :
    refill p (x :: l) new = x :: refill p l new := by
  cases new <;> rw [refill, if_neg h]

theorem mem_of_mem_refill {y : α} : ∀ {l new : List α}, y ∈ refill p l new → y ∈ l ∨ y ∈ new
  | [], _, h => absurd h not_mem_nil
  | x :: l, new, h => by
    unfold refill at h
    split_ifs at h
    · cases new with
      | nil => exact Or.inl (by
          rcases mem_cons.mp h with rfl | h
          · exact mem_cons_self
          · exact mem_cons_of_mem _ ((mem_of_mem_refill h).resolve_right not_mem_nil))
      | cons z new =>
        rcases mem_cons.mp h with rfl | h
        · exact Or.inr mem_cons_self
        · exact (mem_of_mem_refill h).imp (mem_cons_of_mem _) (mem_cons_of_mem _)
    · rcases mem_cons.mp h with rfl | h
      · exact Or.inl mem_cons_self
      · exact (mem_of_mem_refill h).imp (mem_cons_of_mem _) id

/-- The new elements, and those of the other places. -/
theorem refill_perm_append : ∀ {l new : List α}, new.length = (l.filter p).length →
    (refill p l new).Perm (new ++ l.filter fun x => !p x)
  | [], new, h => by
    rw [length_eq_zero_iff.mp h]
    exact List.Perm.nil
  | x :: l, new, h => by
    by_cases hx : p x = true
    · rw [filter_cons_of_pos hx] at h
      cases new with
      | nil => cases h
      | cons y new =>
        rw [refill_cons_of_pos hx, filter_cons_of_neg (by simp [hx])]
        exact (refill_perm_append (Nat.succ.inj h)).cons y
    · rw [filter_cons_of_neg hx] at h
      rw [refill_cons_of_neg hx, filter_cons_of_pos (by simp [hx])]
      exact ((refill_perm_append h).cons x).trans perm_middle.symm

theorem refill_perm {l new : List α} (h : new.Perm (l.filter p)) : (refill p l new).Perm l :=
  (refill_perm_append h.length_eq).trans ((h.append_right _).trans (filter_append_perm p l))

/-- **The order of the new elements** is that of what satisfies a stronger condition. -/
theorem filter_refill : ∀ {l new : List α}, new.length = (l.filter p).length →
    (∀ x ∈ l, q x = true → p x = true) → (refill p l new).filter q = new.filter q
  | [], new, h, _ => by
    rw [length_eq_zero_iff.mp h]
    rfl
  | x :: l, new, h, hqp => by
    obtain ⟨hx', hl⟩ := forall_mem_cons.mp hqp
    by_cases hx : p x = true
    · rw [filter_cons_of_pos hx] at h
      cases new with
      | nil => cases h
      | cons y new =>
        rw [refill_cons_of_pos hx, filter_cons, filter_cons, filter_refill (Nat.succ.inj h) hl]
    · rw [filter_cons_of_neg hx] at h
      rw [refill_cons_of_neg hx, filter_cons_of_neg fun hq => hx (hx' hq), filter_refill h hl]

end Memmy.Lib.Refill
