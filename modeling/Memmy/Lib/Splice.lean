import Mathlib.Data.List.Basic
import Mathlib.Data.List.TakeWhile

/-! # Insertions behind a run

`insertAfter p xs l` puts `xs` behind the leading run of `p` in `l`. A list in which every element
`a` gets its own new elements `items a` behind the run that follows it is `fill p items l`. A program
that keeps the positions and an offset, and splices the new elements in one by one, computes the same.

* `foldl_spliceStep`: the splices with a running offset give `fill`, as long as the new elements
  continue the run and no element of a run gets new elements of its own.
* `takeWhile_fill`: what is in front of the first element with new elements stays. -/

namespace Memmy.Lib.Splice

open List

variable {α : Type*} (p : α → Bool)

/-- Behind the leading run. -/
def insertAfter (xs l : List α) : List α := l.takeWhile p ++ xs ++ l.dropWhile p

/-- Every element with its own insertion behind the run that follows it. -/
def fill (items : α → List α) : List α → List α
  | [] => []
  | a :: l => a :: insertAfter p (items a) (fill items l)

/-- `out.splice(n, 0, x)`. -/
def spliceAt (out : List α) (n : ℕ) (x : α) : List α := out.take n ++ x :: out.drop n

/-- One insertion behind the run that follows the old position `item.1`, `state.2` insertions later. -/
def spliceStep (state : List α × ℕ) (item : ℕ × α) : List α × ℕ :=
  let start := item.1 + 1 + state.2
  let insertAt := start + ((state.1.drop start).takeWhile p).length
  (spliceAt state.1 insertAt item.2, state.2 + 1)

/-- The insertions with the positions of what they belong to. -/
def positioned (items : α → List α) : ℕ → List α → List (ℕ × α)
  | _, [] => []
  | i, a :: l => (items a).map (fun x => (i, x)) ++ positioned items (i + 1) l

section
variable {p} {items : α → List α} {a : α} {q : α → Bool} {xs : List α}

@[simp] theorem insertAfter_nil_left (l : List α) : insertAfter p [] l = l := by
  simp [insertAfter]

@[simp] theorem insertAfter_nil_right (xs : List α) : insertAfter p xs [] = xs := by
  simp [insertAfter]

theorem insertAfter_cons_of_pos (ha : p a = true) (xs l : List α) :
    insertAfter p xs (a :: l) = a :: insertAfter p xs l := by
  simp [insertAfter, ha]

theorem insertAfter_cons_of_neg (ha : p a = false) (xs l : List α) :
    insertAfter p xs (a :: l) = xs ++ a :: l := by
  simp [insertAfter, ha]

theorem mem_insertAfter {l : List α} : a ∈ insertAfter p xs l ↔ a ∈ xs ∨ a ∈ l := by
  have h := takeWhile_append_dropWhile (p := p) (l := l)
  constructor
  · intro ha
    rcases mem_append.mp ha with ha | ha
    · rcases mem_append.mp ha with ha | ha
      · exact Or.inr ((List.takeWhile_prefix p).mem ha)
      · exact Or.inl ha
    · exact Or.inr ((dropWhile_suffix p).mem ha)
  · rintro (ha | ha)
    · exact mem_append_left _ (mem_append_right _ ha)
    · rw [← h] at ha
      rcases mem_append.mp ha with ha | ha
      · exact mem_append_left _ (mem_append_left _ ha)
      · exact mem_append_right _ ha

/-- A longer run has the insertion in it, and is not cut short by it. -/
theorem takeWhile_insertAfter (hpq : ∀ a, p a = true → q a = true)
    (hxs : ∀ x ∈ xs, q x = true) : ∀ l : List α,
    (insertAfter p xs l).takeWhile q = insertAfter p xs (l.takeWhile q)
  | [] => by simpa using takeWhile_eq_self_iff.mpr hxs
  | a :: l => by
    have ih := takeWhile_insertAfter hpq hxs l
    cases hp : p a with
    | true =>
      have hq := hpq a hp
      rw [insertAfter_cons_of_pos hp, takeWhile_cons_of_pos hq, ih,
        takeWhile_cons_of_pos hq, insertAfter_cons_of_pos hp]
    | false =>
      rw [insertAfter_cons_of_neg hp, takeWhile_append_of_pos hxs]
      cases hq : q a with
      | true =>
        rw [takeWhile_cons_of_pos hq, insertAfter_cons_of_neg hp]
      | false =>
        rw [takeWhile_cons_of_neg (by simp [hq]), insertAfter_nil_right, append_nil]

theorem mem_fill : ∀ {l : List α}, a ∈ fill p items l ↔ a ∈ l ∨ ∃ b ∈ l, a ∈ items b
  | [] => by simp [fill]
  | b :: l => by
    unfold fill
    rw [mem_cons, mem_insertAfter, mem_fill (l := l), exists_mem_cons_iff, mem_cons]
    tauto

theorem filter_insertAfter (hxs : ∀ x ∈ xs, q x = false) (l : List α) :
    (insertAfter p xs l).filter q = l.filter q := by
  have hnil : xs.filter q = [] := filter_eq_nil_iff.mpr fun x hx => by simp [hxs x hx]
  unfold insertAfter
  rw [filter_append, filter_append, hnil, append_nil, ← filter_append, takeWhile_append_dropWhile]

/-- What no insertion satisfies is counted as before. -/
theorem filter_fill (hq : ∀ a, ∀ x ∈ items a, q x = false) : ∀ l : List α,
    (fill p items l).filter q = l.filter q
  | [] => rfl
  | a :: l => by
    unfold fill
    rw [filter_cons, filter_cons, filter_insertAfter (hq a), filter_fill hq l]

/-- In front of the first element with an insertion nothing changes. -/
theorem takeWhile_fill (hq : ∀ a, q a = true → items a = []) : ∀ l : List α,
    (fill p items l).takeWhile q = l.takeWhile q
  | [] => rfl
  | a :: l => by
    unfold fill
    cases ha : q a with
    | true =>
      rw [hq a ha, insertAfter_nil_left, takeWhile_cons_of_pos ha, takeWhile_cons_of_pos ha,
        takeWhile_fill hq l]
    | false =>
      rw [takeWhile_cons_of_neg (by simp [ha]), takeWhile_cons_of_neg (by simp [ha])]

theorem spliceStep_eq {front l : List α} {offset i : ℕ} {x : α} (hxs : ∀ x ∈ xs, p x = true)
    (hi : front.length = i + 1 + offset) :
    spliceStep p (front ++ insertAfter p xs l, offset + xs.length) (i, x) =
      (front ++ insertAfter p (xs ++ [x]) l, offset + (xs ++ [x]).length) := by
  have hrun : ((l.dropWhile p).takeWhile p) = [] := by
    rw [takeWhile_eq_nil_iff]
    intro h0
    have := dropWhile_get_zero_not p l h0
    simpa using this
  have hlen : (xs ++ [x]).length = xs.length + 1 := by simp
  have hdrop : ((front ++ insertAfter p xs l).drop (i + 1 + (offset + xs.length))).takeWhile p =
      ((l.takeWhile p ++ xs).drop xs.length) := by
    have hle : xs.length ≤ (l.takeWhile p ++ xs).length := by simp
    have hall : ∀ y ∈ (l.takeWhile p ++ xs).drop xs.length, p y = true := by
      intro y hy
      rcases mem_append.mp (mem_of_mem_drop hy) with hy | hy
      · exact mem_takeWhile_imp hy
      · exact hxs y hy
    rw [show i + 1 + (offset + xs.length) = front.length + xs.length by omega,
      drop_append, drop_of_length_le (by omega : front.length ≤ front.length + xs.length)]
    rw [show front.length + xs.length - front.length = xs.length by omega, nil_append]
    unfold insertAfter
    rw [drop_append_of_le_length hle, takeWhile_append_of_pos hall, hrun, append_nil]
  unfold spliceStep
  dsimp only
  rw [hdrop, hlen]
  refine Prod.ext ?_ (by dsimp only; omega)
  unfold spliceAt insertAfter
  have hat : i + 1 + (offset + xs.length) + ((l.takeWhile p ++ xs).drop xs.length).length =
      (front ++ (l.takeWhile p ++ xs)).length := by
    simp only [length_drop, length_append]
    omega
  have hsplit : front ++ (l.takeWhile p ++ xs ++ l.dropWhile p) =
      (front ++ (l.takeWhile p ++ xs)) ++ l.dropWhile p := by simp
  rw [hat, hsplit, take_left, drop_left]
  simp

theorem foldl_spliceStep_row {front l : List α} {offset i : ℕ} (hi : front.length = i + 1 + offset) :
    ∀ (ys xs : List α), (∀ x ∈ xs, p x = true) → (∀ y ∈ ys, p y = true) →
      (ys.map fun x => (i, x)).foldl (spliceStep p)
        (front ++ insertAfter p xs l, offset + xs.length) =
        (front ++ insertAfter p (xs ++ ys) l, offset + (xs ++ ys).length)
  | [], xs, _, _ => by simp
  | y :: ys, xs, hxs, hys => by
    have hxs' : ∀ x ∈ xs ++ [y], p x = true := by
      intro x hx
      rcases mem_append.mp hx with hx | hx
      · exact hxs x hx
      · rw [mem_singleton.mp hx]
        exact hys y mem_cons_self
    rw [map_cons, foldl_cons, spliceStep_eq hxs hi,
      foldl_spliceStep_row hi ys (xs ++ [y]) hxs' (fun z hz => hys z (mem_cons_of_mem _ hz)),
      append_assoc, singleton_append]

theorem foldl_spliceStep_from (hitems : ∀ a, ∀ x ∈ items a, p x = true)
    (hrun : ∀ a, p a = true → items a = []) :
    ∀ (l front xs : List α) (i offset : ℕ), (∀ x ∈ xs, p x = true) →
      front.length + xs.length = i + offset →
      ((positioned items i l).foldl (spliceStep p) (front ++ insertAfter p xs l, offset)).1 =
        front ++ insertAfter p xs (fill p items l)
  | [], front, xs, i, offset, _, _ => rfl
  | a :: l, front, xs, i, offset, hxs, hlen => by
    unfold positioned fill
    cases ha : p a with
    | true =>
      rw [hrun a ha, map_nil, nil_append, insertAfter_cons_of_pos ha,
        insertAfter_nil_left, insertAfter_cons_of_pos ha]
      have ih := foldl_spliceStep_from hitems hrun l (front ++ [a]) xs (i + 1) offset hxs
        (by simp only [length_append, length_singleton]; omega)
      simpa using ih
    | false =>
      have hfront : (front ++ xs ++ [a]).length = i + 1 + offset := by
        simp only [length_append, length_singleton]
        omega
      have hrow := foldl_spliceStep_row (l := l) hfront (items a) [] (by simp) (hitems a)
      simp only [insertAfter_nil_left, length_nil, Nat.add_zero, nil_append] at hrow
      rw [insertAfter_cons_of_neg ha, insertAfter_cons_of_neg ha, foldl_append]
      have hassoc : front ++ (xs ++ a :: l) = front ++ xs ++ [a] ++ l := by simp
      rw [hassoc, hrow, foldl_spliceStep_from hitems hrun l (front ++ xs ++ [a]) (items a) (i + 1)
        (offset + (items a).length) (hitems a) (by omega)]
      simp

/-- **Splices with a running offset** put every insertion behind its run. -/
theorem foldl_spliceStep (hitems : ∀ a, ∀ x ∈ items a, p x = true)
    (hrun : ∀ a, p a = true → items a = []) (l : List α) :
    ((positioned items 0 l).foldl (spliceStep p) (l, 0)).1 = fill p items l := by
  have h := foldl_spliceStep_from hitems hrun l [] [] 0 0 (by simp) rfl
  simpa using h

end

end Memmy.Lib.Splice
