import Mathlib.Data.List.Basic
import Mathlib.Order.Lattice

/-! # Watermarks

A list of items has positions, and some of its items are finished. A mark covers the items when all that lie
at or below it are finished: what lies below such a mark can be forgotten. The lemmas say which changes keep a
mark, and when finishing an item raises it.

* `Covered.append`, `Covered.map`: new items behind the mark, and changes that keep positions.
* `covered_finish`: finishing an item whose predecessors are finished. -/

namespace Memmy.Lib.Watermark

variable {α ι : Type*} [LinearOrder ι] {pos : α → ι} {finished : α → Prop} {l : List α} {mark : ι}

/-- All items at or below the mark are finished. -/
def Covered (pos : α → ι) (finished : α → Prop) (l : List α) (mark : ι) : Prop :=
  ∀ x ∈ l, pos x ≤ mark → finished x

theorem Covered.mono (h : Covered pos finished l mark) {mark' : ι} (hle : mark' ≤ mark) :
    Covered pos finished l mark' := fun x hx hpos => h x hx (hpos.trans hle)

/-- **New items** behind the mark. -/
theorem Covered.append (h : Covered pos finished l mark) {l' : List α} (hnew : ∀ x ∈ l', mark < pos x) :
    Covered pos finished (l ++ l') mark := by
  intro x hx hpos
  rcases List.mem_append.mp hx with hx | hx
  · exact h x hx hpos
  · exact absurd hpos (not_le_of_gt (hnew x hx))

/-- **A change of the items** that keeps the positions, and undoes none below the mark. -/
theorem Covered.map (h : Covered pos finished l mark) {f : α → α} (hpos : ∀ x ∈ l, pos (f x) = pos x)
    (hdone : ∀ x ∈ l, pos x ≤ mark → finished x → finished (f x)) :
    Covered pos finished (l.map f) mark := by
  intro y hy hle
  obtain ⟨x, hx, rfl⟩ := List.mem_map.mp hy
  rw [hpos x hx] at hle
  exact hdone x hx hle (h x hx hle)

/-- **Finishing an item** whose predecessors are finished raises the mark to it. -/
theorem covered_finish (pos : α → ι) {a : α} (ha : finished a)
    (hbelow : ∀ x ∈ l, x ≠ a → pos x ≤ pos a → finished x) :
    Covered pos finished l (pos a) := by
  intro x hx hle
  by_cases hxa : x = a
  · rw [hxa]
    exact ha
  · exact hbelow x hx hxa hle

end Memmy.Lib.Watermark
