import Mathlib.Algebra.BigOperators.Group.List.Basic
import Mathlib.Algebra.Order.Field.Rat
import Mathlib.Data.List.GetD
import Mathlib.Tactic.FieldSimp
import Mathlib.Tactic.Linarith
import Mathlib.Tactic.Ring

/-! # Means of vectors

* `IsMean c vs`: the vector is the mean of the list, coordinate by coordinate.
* `running`: the mean with one vector more, computed from the mean and the number of vectors.
* `IsMean.running`: it is the mean of the longer list, if the number is right. -/

namespace Memmy.Lib.Mean

open List

abbrev Vec := List ℚ

/-- The coordinate of a vector, `0` outside. -/
def coord (v : Vec) (i : ℕ) : ℚ := v.getD i 0

/-- The vector is the mean of the vectors of the list, which are as long as it is. -/
structure IsMean (c : Vec) (vs : List Vec) : Prop where
  nonempty : vs ≠ []
  lengths : ∀ v ∈ vs, v.length = c.length
  coords : ∀ i, coord c i * vs.length = (vs.map (coord · i)).sum

/-- `current.map((value, index) => (value * n + (incoming[index] ?? 0)) / (n + 1))` -/
def running (c v : Vec) (n : ℕ) : Vec := c.zipIdx.map fun x => (x.1 * n + coord v x.2) / (n + 1)

variable {c v : Vec} {vs vs' : List Vec} {n : ℕ}

@[simp] theorem length_running : (running c v n).length = c.length := by
  unfold running
  rw [length_map, length_zipIdx]

theorem coord_running (h : v.length = c.length) (i : ℕ) :
    coord (running c v n) i = (coord c i * n + coord v i) / (n + 1) := by
  unfold coord
  by_cases hi : i < c.length
  · have hi' : i < (running c v n).length := by rwa [length_running]
    rw [getD_eq_getElem _ _ hi', getD_eq_getElem _ _ hi]
    simp only [running, getElem_map, getElem_zipIdx, Nat.zero_add]
    rfl
  · rw [getD_eq_default _ _ (by rw [length_running]; omega), getD_eq_default _ _ (by omega),
      getD_eq_default _ _ (by omega)]
    simp

theorem IsMean.perm (h : IsMean c vs) (hperm : vs.Perm vs') : IsMean c vs' where
  nonempty hnil := h.nonempty (perm_nil.mp (hnil ▸ hperm))
  lengths v hv := h.lengths v (hperm.mem_iff.mpr hv)
  coords i := by
    rw [← hperm.length_eq, h.coords i]
    exact (hperm.map _).sum_eq

theorem IsMean.single (v : Vec) : IsMean v [v] where
  nonempty := cons_ne_nil _ _
  lengths _ hw := by rw [mem_singleton.mp hw]
  coords i := by simp

/-- **The running mean** is the mean of the longer list. -/
theorem IsMean.running (h : IsMean c vs) (hv : v.length = c.length) :
    IsMean (running c v vs.length) (v :: vs) where
  nonempty := cons_ne_nil _ _
  lengths w hw := by
    rw [length_running]
    rcases mem_cons.mp hw with rfl | hw
    · exact hv
    · exact h.lengths w hw
  coords i := by
    rw [coord_running hv, map_cons, sum_cons, ← h.coords i, length_cons]
    push_cast
    field_simp
    ring

/-- The mean itself changes nothing, whatever the number. -/
theorem running_self (c : Vec) (n : ℕ) : running c c n = c := by
  refine ext_getElem length_running fun i hi hi' => ?_
  have hcoord := coord_running (n := n) (rfl : c.length = c.length) i
  unfold coord at hcoord
  rw [getD_eq_getElem _ _ hi, getD_eq_getElem _ _ hi'] at hcoord
  rw [hcoord]
  field_simp

theorem IsMean.cons_self (h : IsMean c vs) : IsMean c (c :: vs) := by
  have hmean := h.running rfl
  rwa [running_self] at hmean

end Memmy.Lib.Mean
