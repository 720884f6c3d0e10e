import Mathlib.Data.List.Basic

/-! # Joining a list to what it may already end with

The entries of two lists are compared by a key. `l` and `m` *overlap* in `n` entries when the last `n`
of `l` and the first `n` of `m` have the same keys; `join` writes after `l` what of `m` lies behind the
longest overlap.

* `overlap_overlaps`, `le_overlap`: the search from long to short finds the longest overlap.
* `join_overlaps`: the joined list ends with the whole of `m`.
* `join_join`: joining a list with the same keys again adds nothing. -/

namespace Memmy.Lib.Overlap

open List

variable {α κ : Type*} {key : α → κ} {l m m' : List α} {n : ℕ}

/-- The last `n` entries of `l` and the first `n` of `m` have the same keys. -/
def Overlaps (key : α → κ) (l m : List α) (n : ℕ) : Prop :=
  n ≤ l.length ∧ n ≤ m.length ∧ (l.drop (l.length - n)).map key = (m.take n).map key

theorem overlaps_zero (key : α → κ) (l m : List α) : Overlaps key l m 0 := by
  refine ⟨Nat.zero_le _, Nat.zero_le _, ?_⟩
  simp

/-- An overlap only depends on the keys. -/
theorem Overlaps.congr (h : Overlaps key l m n) (hm : m'.map key = m.map key) :
    Overlaps key l m' n := by
  obtain ⟨hl, hn, heq⟩ := h
  have hlen : m'.length = m.length := by simpa using congrArg List.length hm
  refine ⟨hl, by omega, ?_⟩
  rw [heq, map_take, map_take, hm]

theorem overlaps_append (before : List α) (h : l.map key = m.map key) :
    Overlaps key (before ++ l) m m.length := by
  have hlen : l.length = m.length := by simpa using congrArg List.length h
  refine ⟨by rw [length_append]; omega, Nat.le_refl _, ?_⟩
  have hdrop : (before ++ l).length - m.length = before.length := by
    rw [length_append]
    omega
  rw [hdrop, drop_left, take_length, h]

variable [DecidableEq κ]

instance (key : α → κ) (l m : List α) (n : ℕ) : Decidable (Overlaps key l m n) := by
  unfold Overlaps; infer_instance

/-- The longest overlap of at most the given length: the lengths are tried from long to short. -/
def overlapBelow (key : α → κ) (l m : List α) : ℕ → ℕ
  | 0 => 0
  | n + 1 => if Overlaps key l m (n + 1) then n + 1 else overlapBelow key l m n

/-- **The longest overlap.** -/
def overlap (key : α → κ) (l m : List α) : ℕ := overlapBelow key l m (min l.length m.length)

/-- `l`, and behind it what of `m` it does not end with. -/
def join (key : α → κ) (l m : List α) : List α := l ++ m.drop (overlap key l m)

theorem overlapBelow_overlaps : ∀ bound : ℕ, Overlaps key l m (overlapBelow key l m bound)
  | 0 => overlaps_zero key l m
  | bound + 1 => by
    rw [overlapBelow]
    by_cases h : Overlaps key l m (bound + 1)
    · rwa [if_pos h]
    · rw [if_neg h]
      exact overlapBelow_overlaps bound

theorem le_overlapBelow (h : Overlaps key l m n) : ∀ {bound : ℕ}, n ≤ bound → n ≤ overlapBelow key l m bound
  | 0, hn => hn
  | bound + 1, hn => by
    rw [overlapBelow]
    by_cases hb : Overlaps key l m (bound + 1)
    · rwa [if_pos hb]
    · rw [if_neg hb]
      have hne : n ≠ bound + 1 := by
        rintro rfl
        exact hb h
      exact le_overlapBelow h (by omega)

theorem overlap_overlaps (key : α → κ) (l m : List α) : Overlaps key l m (overlap key l m) :=
  overlapBelow_overlaps _

theorem le_overlap (h : Overlaps key l m n) : n ≤ overlap key l m :=
  le_overlapBelow h (Nat.le_min.mpr ⟨h.1, h.2.1⟩)

theorem join_split (key : α → κ) (l m : List α) :
    ∃ before tail saved, join key l m = before ++ tail ∧ tail.map key = m.map key ∧
      l = before ++ saved ∧ saved <+: tail ∧ saved.length = overlap key l m := by
  have hoverlap := overlap_overlaps key l m
  obtain ⟨hl, hm, heq⟩ := hoverlap
  have hlen : (l.drop (l.length - overlap key l m)).length = overlap key l m := by
    rw [length_drop]
    omega
  refine ⟨l.take (l.length - overlap key l m),
    l.drop (l.length - overlap key l m) ++ m.drop (overlap key l m),
    l.drop (l.length - overlap key l m), ?_, ?_, (take_append_drop _ _).symm,
    prefix_append _ _, hlen⟩
  · rw [← append_assoc, take_append_drop]
    rfl
  · rw [map_append, heq, ← map_append, take_append_drop]

theorem join_overlaps (key : α → κ) (l m : List α) : Overlaps key (join key l m) m m.length := by
  obtain ⟨before, tail, -, hjoin, htail, -⟩ := join_split key l m
  rw [hjoin]
  exact overlaps_append before htail

/-- **Joining again adds nothing**, also when the second list only has the same keys. -/
theorem join_join (hm : m'.map key = m.map key) : join key (join key l m) m' = join key l m := by
  have hle := le_overlap ((join_overlaps key l m).congr hm)
  have hlen : m'.length = m.length := by simpa using congrArg List.length hm
  rw [join, drop_eq_nil_of_le (by omega), append_nil]

end Memmy.Lib.Overlap
