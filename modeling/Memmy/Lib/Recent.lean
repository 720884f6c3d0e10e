import Mathlib.Data.Finset.Card

/-! # The last entries of a list

A memory of bounded size that forgets its oldest entry first holds the last `n` entries of all that were
put into it (`recent`, `recent_concat`). If only what the memory does not hold is put into it, entries that
are close to each other are different (`Apart`, `Apart.concat`), and an entry is still held as long as fewer
than `n` different ones came behind it (`Apart.mem_recent`). -/

namespace Memmy.Lib.Recent

open List

variable {α β : Type*} {n : ℕ} {l front back : List α} {x : α}

/-- The last `n` entries. -/
def recent (n : ℕ) (l : List α) : List α := l.drop (l.length - n)

/-- **One more entry**, and the oldest ones beyond `n` are dropped. -/
theorem recent_concat (n : ℕ) (l : List α) (x : α) :
    (recent n l ++ [x]).drop ((recent n l ++ [x]).length - n) = recent n (l ++ [x]) := by
  unfold recent
  have hlen : l.length - n ≤ l.length := by omega
  rw [← drop_append_of_le_length hlen, drop_drop, length_drop, length_append]
  congr 1
  omega

theorem map_recent (f : α → β) (n : ℕ) (l : List α) : (recent n l).map f = recent n (l.map f) := by
  unfold recent
  rw [map_drop, length_map]

theorem recent_subset : recent n l ⊆ l := drop_subset _ _

theorem subset_recent (h : back.length ≤ n) : back ⊆ recent n (front ++ back) := by
  intro x hx
  unfold recent
  rw [length_append, drop_append]
  refine mem_append_right _ ?_
  rw [show front.length + back.length - n - front.length = 0 by omega]
  exact hx

/-- Entries are different if they are fewer than `n` places away from each other. -/
def Apart (n : ℕ) (l : List α) : Prop := ∀ front mid back, l = front ++ mid ++ back → mid.length ≤ n → mid.Nodup

theorem apart_nil : Apart n ([] : List α) := by
  intro front mid back h _
  rw [(append_eq_nil_iff.mp (append_eq_nil_iff.mp h.symm).1).2]
  exact nodup_nil

theorem Apart.concat (h : Apart n l) (hx : x ∉ recent n l) : Apart n (l ++ [x]) := by
  intro front mid back he hlen
  rcases eq_nil_or_concat back with rfl | ⟨back', y, rfl⟩
  · rcases eq_nil_or_concat mid with rfl | ⟨mid', y, rfl⟩
    · exact nodup_nil
    rw [append_nil, concat_eq_append, ← append_assoc] at he
    obtain ⟨rfl, hy⟩ := append_inj' he rfl
    obtain rfl : x = y := by simpa using hy
    rw [length_concat] at hlen
    have hmid : mid'.Nodup := h front mid' [] (by simp) (by omega)
    rw [concat_eq_append, nodup_append_comm, singleton_append, nodup_cons]
    exact ⟨fun hm => hx (subset_recent (by omega) hm), hmid⟩
  · rw [concat_eq_append, ← append_assoc] at he
    exact h front mid back' (append_inj' he rfl).1 hlen

/-- **What is still held**: fewer than `n` different entries came behind it. -/
theorem Apart.mem_recent [DecidableEq α] (h : Apart n (front ++ x :: back))
    (hback : back.toFinset.card < n) : x ∈ recent n (front ++ x :: back) := by
  have hlen : back.length < n := by
    have htake : (back.take n).Nodup := h (front ++ [x]) (back.take n) (back.drop n) (by simp) (by simp)
    have hcard : (back.take n).toFinset.card ≤ back.toFinset.card :=
      Finset.card_le_card fun y hy => by
        rw [mem_toFinset] at hy ⊢
        exact mem_of_mem_take hy
    rw [toFinset_card_of_nodup htake, length_take] at hcard
    omega
  exact subset_recent (by rw [length_cons]; omega) mem_cons_self

end Memmy.Lib.Recent
