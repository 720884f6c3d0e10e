import Mathlib.Data.List.Basic
import Mathlib.Data.List.Pairwise

/-! # At most one element

`AtMostOne p l`: no two places of `l` hold elements that satisfy `p`. The lemmas say how it is kept
when an element is replaced, appended or mapped. -/

namespace Memmy.Lib.Unique

open List Option

variable {α : Type*} {p q : α → Prop} {l : List α} {x y : α} {i j : ℕ}

def AtMostOne (p : α → Prop) (l : List α) : Prop :=
  ∀ (i j : ℕ) (x y : α), l[i]? = some x → l[j]? = some y → p x → p y → i = j

theorem atMostOne_of_forall (h : ∀ x ∈ l, ¬ p x) : AtMostOne p l :=
  fun _ _ _ _ hx _ hp _ => absurd hp (h _ (mem_of_getElem? hx))

section
variable (h : AtMostOne p l)
include h

theorem AtMostOne.mono (hpq : ∀ x ∈ l, q x → p x) : AtMostOne q l :=
  fun i j x y hx hy hqx hqy => h i j x y hx hy (hpq x (mem_of_getElem? hx) hqx) (hpq y (mem_of_getElem? hy) hqy)

/-- **Replacing** an element by one that satisfies no more. -/
theorem AtMostOne.set (hx : l[i]? = some x) (hpy : p y → p x) : AtMostOne p (l.set i y) := by
  have hback : ∀ (k : ℕ) (z : α), (l.set i y)[k]? = some z → p z → ∃ w, l[k]? = some w ∧ p w := by
    intro k z hz hp
    rw [getElem?_set] at hz
    split_ifs at hz with hik
    · exact ⟨x, hik ▸ hx, hpy ((some.inj hz).symm ▸ hp)⟩
    · exact ⟨z, hz, hp⟩
  intro j k z w hz hw hpz hpw
  obtain ⟨z', hz', hpz'⟩ := hback j z hz hpz
  obtain ⟨w', hw', hpw'⟩ := hback k w hw hpw
  exact h j k z' w' hz' hw' hpz' hpw'

/-- **Appending** an element that does not satisfy it, or one to a list with none. -/
theorem AtMostOne.concat (hnew : p y → ∀ x ∈ l, ¬ p x) : AtMostOne p (l ++ [y]) := by
  have hcases : ∀ (k : ℕ) (z : α), (l ++ [y])[k]? = some z → p z → l[k]? = some z ∨ k = l.length ∧ z = y := by
    intro k z hz _
    rw [getElem?_append] at hz
    split_ifs at hz with hk
    · exact Or.inl hz
    · right
      rw [getElem?_singleton] at hz
      split_ifs at hz with hzero
      exact ⟨by omega, (some.inj hz).symm⟩
  intro j k z w hz hw hpz hpw
  rcases hcases j z hz hpz with hzl | ⟨hj, hzy⟩
  · rcases hcases k w hw hpw with hwl | ⟨-, hwy⟩
    · exact h j k z w hzl hwl hpz hpw
    · exact absurd hpz (hnew (hwy ▸ hpw) z (mem_of_getElem? hzl))
  · rcases hcases k w hw hpw with hwl | ⟨hk, -⟩
    · exact absurd hpw (hnew (hzy ▸ hpz) w (mem_of_getElem? hwl))
    · rw [hj, hk]

theorem AtMostOne.map {f : α → α} (hf : ∀ x, p (f x) → p x) : AtMostOne p (l.map f) := by
  intro i j x y hx hy hpx hpy
  rw [getElem?_map] at hx hy
  obtain ⟨x', hx', rfl⟩ := map_eq_some_iff.mp hx
  obtain ⟨y', hy', rfl⟩ := map_eq_some_iff.mp hy
  exact h i j x' y' hx' hy' (hf _ hpx) (hf _ hpy)

/-- An element other than the one that satisfies it does not. -/
theorem AtMostOne.not_of_ne (hx : l[i]? = some x) (hp : p x) (hy : l[j]? = some y) (hne : i ≠ j) : ¬ p y :=
  fun hpy => hne (h i j x y hx hy hp hpy)

end

/-! ### Elements with a key -/

variable {κ : Type*}

variable {f : α → Option κ}

theorem nodup_filterMap_cons (h : (l.filterMap f).Nodup)
    (hx : ∀ k ∈ f x, k ∉ l.filterMap f) : ((x :: l).filterMap f).Nodup := by
  cases hfx : f x with
  | none =>
    rw [filterMap_cons_none hfx]
    exact h
  | some k =>
    rw [filterMap_cons_some hfx, nodup_cons]
    exact ⟨hx k hfx, h⟩

/-- **A key is that of one element**, when the keys of a list are without repetition. -/
theorem eq_of_nodup_filterMap {k : κ} (h : (l.filterMap f).Nodup) (hx : x ∈ l) (hy : y ∈ l) (hfx : f x = some k)
    (hfy : f y = some k) : x = y := by
  by_contra hne
  have : Std.Symm fun a b => ∀ k, f a = some k → ∀ k', f b = some k' → k ≠ k' :=
    ⟨fun _ _ h k hk k' hk' => (h k' hk' k hk).symm⟩
  exact (pairwise_filterMap.mp h).forall hx hy hne k hfx k hfy rfl

/-- **No key is that of two elements**, for elements with many keys. -/
theorem length_filter_le_one_iff {p : κ → α → Bool} : ∀ {l : List α},
    (∀ k, (l.filter (p k)).length ≤ 1) ↔ l.Pairwise fun a b => ∀ k, p k a = true → p k b = false
  | [] => by simp
  | a :: l => by
    rw [pairwise_cons, ← length_filter_le_one_iff]
    constructor
    · intro h
      refine ⟨fun b hb k ha => ?_, fun k => Nat.le_trans ?_ (h k)⟩
      · by_contra hpb
        rw [Bool.not_eq_false] at hpb
        have hpos : 0 < (l.filter (p k)).length := length_pos_of_mem (mem_filter.mpr ⟨hb, hpb⟩)
        have hone := h k
        rw [filter_cons_of_pos ha, length_cons] at hone
        omega
      · exact ((sublist_cons_self a l).filter (p k)).length_le
    · rintro ⟨hfirst, hrest⟩ k
      by_cases ha : p k a = true
      · have hnone : l.filter (p k) = [] := filter_eq_nil_iff.mpr fun b hb => by simp [hfirst b hb k ha]
        rw [filter_cons_of_pos ha, hnone]
        simp
      · rw [filter_cons_of_neg ha]
        exact hrest k

end Memmy.Lib.Unique
