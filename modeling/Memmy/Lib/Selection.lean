import Mathlib.Data.List.Basic

/-! # Selections from a list

A selection marks every element of a list as kept or dropped, so that an element is known by its place and
not by its value.

* `kept`, `mark`: the kept elements, and a stretch with one mark; `kept_sublist`: they stay in order.
* `Together`: a head is kept or dropped with the tails directly behind it; `together_append`,
  `together_append_of_none`: where two stretches may be joined.
* `findLastIndex_some`, `findLastIndex_none`: the last element with a property. -/

namespace Memmy.Lib.Selection

open List

variable {α : Type*}

/-- The kept elements. -/
def kept (marks : List (α × Bool)) : List α := (marks.filter (·.2)).map (·.1)

/-- A stretch with one mark. -/
def mark (b : Bool) (l : List α) : List (α × Bool) := l.map (·, b)

@[simp] theorem mark_nil (b : Bool) : mark b ([] : List α) = [] := rfl

@[simp] theorem mark_cons (b : Bool) (x : α) (l : List α) : mark b (x :: l) = (x, b) :: mark b l := rfl

@[simp] theorem map_fst_mark (b : Bool) (l : List α) : (mark b l).map (·.1) = l := by
  simp [mark, Function.comp_def]

@[simp] theorem kept_append (l l' : List (α × Bool)) : kept (l ++ l') = kept l ++ kept l' := by
  simp [kept]

@[simp] theorem kept_mark (b : Bool) (l : List α) : kept (mark b l) = if b then l else [] := by
  induction l with
  | nil => cases b <;> rfl
  | cons x l ih =>
    cases b
    · simpa [kept] using ih
    · simpa [kept] using ih

theorem kept_sublist (marks : List (α × Bool)) : (kept marks).Sublist (marks.map (·.1)) := filter_sublist.map _

/-! ### Heads and tails -/

/-- **Kept together**: what stands directly behind a head has its mark. -/
def Together (head tail : α → Bool) (marks : List (α × Bool)) : Prop :=
  ∀ front x results back, marks = front ++ x :: (results ++ back) → head x.1 = true →
    (∀ r ∈ results, tail r.1 = true) → ∀ r ∈ results, r.2 = x.2

variable {head tail : α → Bool} {l l' : List (α × Bool)}

theorem together_mark (b : Bool) (l : List α) : Together head tail (mark b l) := by
  have hmark : ∀ r ∈ mark b l, r.2 = b := by
    intro r hr
    obtain ⟨x, -, rfl⟩ := mem_map.mp hr
    rfl
  intro front x results back h _ _ r hr
  rw [h] at hmark
  rw [hmark x (by simp), hmark r (by simp [hr])]

/-- Two stretches, the second of which begins with no tail. -/
theorem together_append (h : Together head tail l) (h' : Together head tail l')
    (hborder : ∀ x ∈ l'.head?, tail x.1 = false) : Together head tail (l ++ l') := by
  intro front x results back heq hx hresults
  rcases append_eq_append_iff.mp heq with ⟨middle, rfl, hmiddle⟩ | ⟨middle, rfl, hmiddle⟩
  · exact h' middle x results back hmiddle hx hresults
  · cases middle with
    | nil => exact h' [] x results back hmiddle.symm hx hresults
    | cons y middle =>
      obtain ⟨rfl, hrest⟩ := List.cons.inj hmiddle
      rcases append_eq_append_iff.mp hrest with ⟨more, rfl, -⟩ | ⟨more, rfl, hmore⟩
      · exact h front x results more rfl hx hresults
      · -- The tails reach into the second stretch, or end where the first does.
        cases more with
        | nil =>
          rw [append_nil] at hresults ⊢
          exact h front x middle [] (by simp) hx hresults
        | cons z more =>
          have hz := hborder z (by rw [hmore]; rfl)
          rw [hresults z (by simp)] at hz
          cases hz

/-- Two stretches, the first of which has no head. -/
theorem together_append_of_none (h : ∀ x ∈ l, head x.1 = false) (h' : Together head tail l') :
    Together head tail (l ++ l') := by
  intro front x results back heq hx hresults
  rcases append_eq_append_iff.mp heq with ⟨middle, rfl, hmiddle⟩ | ⟨middle, rfl, hmiddle⟩
  · exact h' middle x results back hmiddle hx hresults
  · cases middle with
    | nil => exact h' [] x results back hmiddle.symm hx hresults
    | cons y middle =>
      obtain ⟨rfl, -⟩ := List.cons.inj hmiddle
      have hnone := h x (by simp)
      rw [hx] at hnone
      cases hnone

/-! ### The last element with a property -/

/-- `list.findLastIndex(p)`; `none` is `-1`. -/
def findLastIndex (p : α → Bool) (l : List α) : Option ℕ := (l.reverse.findIdx? p).map fun i => l.length - 1 - i

variable {p : α → Bool}

theorem findLastIndex_none {l : List α} (h : findLastIndex p l = none) : ∀ x ∈ l, p x = false := by
  unfold findLastIndex at h
  rw [Option.map_eq_none_iff, findIdx?_eq_none_iff] at h
  exact fun x hx => h x (mem_reverse.mpr hx)

/-- **The last element** cuts the list. -/
theorem findLastIndex_some {l : List α} {n : ℕ} (h : findLastIndex p l = some n) :
    ∃ front x back, l = front ++ x :: back ∧ front.length = n ∧ p x = true ∧ ∀ y ∈ back, p y = false := by
  obtain ⟨i, hi, hn⟩ := Option.map_eq_some_iff.mp h
  obtain ⟨hlt, hp, hbefore⟩ := findIdx?_eq_some_iff_getElem.mp hi
  have hsplit : l.reverse = l.reverse.take i ++ l.reverse[i] :: l.reverse.drop (i + 1) := by
    rw [← drop_eq_getElem_cons hlt, take_append_drop]
  have hl := congrArg List.reverse hsplit
  rw [reverse_reverse, reverse_append, reverse_cons, append_assoc, singleton_append] at hl
  refine ⟨_, _, _, hl, ?_, hp, ?_⟩
  · rw [length_reverse, length_drop, length_reverse]
    omega
  · intro y hy
    obtain ⟨j, hj, rfl⟩ := mem_take_iff_getElem.mp (mem_reverse.mp hy)
    have hfalse := hbefore j (by omega)
    simpa using hfalse

end Memmy.Lib.Selection
