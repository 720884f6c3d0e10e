import Mathlib.Data.List.Perm.Subperm
import Memmy.Lib.Sort

/-! # The newest elements of a list

`newest f n l` is `ORDER BY f DESC LIMIT n`: the `n` elements of `l` with the greatest keys, or all of
them when there are no more.

* `le_of_mem_newest`: what is left out is not above what is taken.
* `mem_newest_of_length_le`: nothing is left out of a list of at most `n` elements.
* `exists_left_out`: something is left out of a longer one. -/

namespace Memmy.Lib.Newest

open Lib.Sort List

variable {α β : Type*} [LinearOrder β] (f : α → β) (n : ℕ) (l : List α)

/-- `ORDER BY f DESC LIMIT n` -/
def newest : List α := (sortBy (descending f) l).take n

variable {f n l} {x y : α}

theorem mem_of_mem_newest (h : x ∈ newest f n l) : x ∈ l := (mem_sortBy _).mp (mem_of_mem_take h)

theorem length_newest : (newest f n l).length = min n l.length := by
  unfold newest
  rw [length_take, (sortBy_perm (descending f) l).length_eq]

theorem nodup_newest (h : l.Nodup) : (newest f n l).Nodup :=
  ((sortBy_perm (descending f) l).nodup_iff.mpr h).sublist (take_sublist _ _)

/-- **What is left out** is not above what is taken. -/
theorem le_of_mem_newest (hx : x ∈ newest f n l) (hy : y ∈ l) (hout : y ∉ newest f n l) : f y ≤ f x := by
  have hsorted := pairwise_sortBy (descending f) l
  rw [← take_append_drop n (sortBy (descending f) l), pairwise_append] at hsorted
  have hy' : y ∈ (sortBy (descending f) l).drop n := by
    have hmem := (mem_sortBy (descending f)).mpr hy
    rw [← take_append_drop n (sortBy (descending f) l), mem_append] at hmem
    exact hmem.resolve_left hout
  exact descending_isLE.mp (hsorted.2.2 x hx y hy')

theorem mem_newest_of_length_le (hlen : l.length ≤ n) (hx : x ∈ l) : x ∈ newest f n l := by
  unfold newest
  rw [take_of_length_le (by rw [(sortBy_perm (descending f) l).length_eq]; exact hlen)]
  exact (mem_sortBy _).mpr hx

/-- **What is counted** among the newest elements, if all that counts is among them. -/
theorem countP_newest {p : α → Bool} (hnodup : l.Nodup) (h : ∀ x ∈ l, p x = true → x ∈ newest f n l) :
    (newest f n l).countP p = l.countP p := by
  have hperm := sortBy_perm (descending f) l
  have hsplit := take_append_drop n (sortBy (descending f) l)
  have hdisjoint := hperm.nodup_iff.mpr hnodup
  rw [← hsplit] at hdisjoint
  have hrest : ((sortBy (descending f) l).drop n).countP p = 0 := by
    refine countP_eq_zero.mpr fun x hx hp => ?_
    have hmem := h x (hperm.mem_iff.mp (mem_of_mem_drop hx)) hp
    exact (nodup_append.mp hdisjoint).2.2 x hmem x hx rfl
  rw [← hperm.countP_eq p, ← hsplit, countP_append, hrest]
  rfl

/-- A longer list does not fit. -/
theorem exists_left_out (hnodup : l.Nodup) (hlen : n < l.length) : ∃ x ∈ l, x ∉ newest f n l := by
  by_contra hall
  push Not at hall
  have hle := (hnodup.subperm hall).length_le
  rw [length_newest] at hle
  omega

theorem newest_ne_nil (hn : 1 ≤ n) (hl : l ≠ []) : newest f n l ≠ [] := by
  have hpos := length_pos_iff.mpr hl
  refine length_pos_iff.mp ?_
  rw [length_newest]
  omega

end Memmy.Lib.Newest
