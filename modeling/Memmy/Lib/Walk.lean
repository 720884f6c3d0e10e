import Mathlib.Data.List.Basic

/-! # Walking a table from a key

`walk hit key start rows` is the loop over a queue of keys that begins with `start`: a key is taken from
the front, every row it hits that was not visited before is visited, and the key of each such row is added
at the end. The fuel is the number of keys that can ever be in the queue.

* `mem_of_mem_walk`, `exists_hit`: only rows of the table that some key hits are visited.
* `mem_walk_start`, `mem_walk_next`: every row hit by the first key, or by the key of a visited row, is
  visited. -/

namespace Memmy.Lib.Walk

open List

variable {ρ κ : Type*} (hit : κ → ρ → Bool) (key : ρ → κ)

/-- The loop: the queue and the rows that are not visited. -/
def walkFrom : ℕ → List κ → List ρ → List ρ
  | 0, _, _ => []
  | _ + 1, [], _ => []
  | fuel + 1, k :: pending, rows =>
    rows.filter (hit k) ++
      walkFrom fuel (pending ++ (rows.filter (hit k)).map key) (rows.filter fun r => !hit k r)

/-- The rows that are visited, in the order of their visits. -/
def walk (start : κ) (rows : List ρ) : List ρ := walkFrom hit key (rows.length + 1) [start] rows

variable {hit key} {r : ρ} {k start : κ} {rows : List ρ}

/-- A visited row was hit. -/
theorem hit_of_mem_walkFrom : ∀ {fuel : ℕ} {pending : List κ} {rows : List ρ},
    r ∈ walkFrom hit key fuel pending rows → r ∈ rows ∧ ∃ k, hit k r = true
  | 0, _, _, h => by unfold walkFrom at h; cases h
  | _ + 1, [], _, h => by unfold walkFrom at h; cases h
  | _ + 1, k :: pending, rows, h => by
    rcases mem_append.mp h with h | h
    · exact (mem_filter.mp h).imp_right fun hk => ⟨k, hk⟩
    · exact (hit_of_mem_walkFrom h).imp_left fun hr => (mem_filter.mp hr).1

theorem length_hits_add (k : κ) (rows : List ρ) :
    (rows.filter (hit k)).length + (rows.filter fun r => !hit k r).length = rows.length := by
  rw [← length_append]
  exact (filter_append_perm (hit k) rows).length_eq

theorem nodup_walkFrom : ∀ {fuel : ℕ} {pending : List κ} {rows : List ρ}, rows.Nodup →
    (walkFrom hit key fuel pending rows).Nodup
  | 0, _, _, _ => by unfold walkFrom; exact .nil
  | _ + 1, [], _, _ => by unfold walkFrom; exact .nil
  | _ + 1, k :: pending, rows, h => by
    refine nodup_append.mpr ⟨h.filter _, nodup_walkFrom (h.filter _), fun x hx y hy he => ?_⟩
    have hhit := (mem_filter.mp hx).2
    have hmiss := (mem_filter.mp (hit_of_mem_walkFrom hy).1).2
    rw [← he, hhit] at hmiss
    cases hmiss

/-- **Closure**: a row that a key of the queue hits, or the key of a visited row, is visited. -/
theorem mem_walkFrom : ∀ {fuel : ℕ} {pending : List κ} {rows : List ρ},
    pending.length + rows.length ≤ fuel → r ∈ rows →
      (k ∈ pending ∨ k ∈ (walkFrom hit key fuel pending rows).map key) → hit k r = true →
        r ∈ walkFrom hit key fuel pending rows
  | 0, pending, rows, hfuel, hr, _, _ => by
    have hpos := length_pos_of_mem hr
    omega
  | fuel + 1, [], rows, _, _, hk, _ => by
    rcases hk with hk | hk <;> cases hk
  | fuel + 1, k' :: pending, rows, hfuel, hr, hk, hhit => by
    unfold walkFrom at hk ⊢
    rw [mem_append]
    by_cases hfirst : hit k' r = true
    · exact Or.inl (mem_filter.mpr ⟨hr, hfirst⟩)
    right
    have hlen : (rows.filter (hit k')).length + _ = rows.length := length_hits_add k' rows
    rw [length_cons] at hfuel
    refine mem_walkFrom (by rw [length_append, length_map]; omega)
      (mem_filter.mpr ⟨hr, by simpa using hfirst⟩) ?_ hhit
    rw [map_append, mem_append, mem_cons] at hk
    rw [mem_append]
    rcases hk with (rfl | hk) | hk | hk
    · exact absurd hhit hfirst
    · exact Or.inl (Or.inl hk)
    · exact Or.inl (Or.inr hk)
    · exact Or.inr hk

theorem mem_of_mem_walk (h : r ∈ walk hit key start rows) : r ∈ rows := (hit_of_mem_walkFrom h).1

theorem exists_hit (h : r ∈ walk hit key start rows) : ∃ k, hit k r = true := (hit_of_mem_walkFrom h).2

theorem nodup_walk (h : rows.Nodup) : (walk hit key start rows).Nodup := nodup_walkFrom h

theorem mem_walk_start (hr : r ∈ rows) (h : hit start r = true) : r ∈ walk hit key start rows :=
  mem_walkFrom (by simp [Nat.add_comm]) hr (Or.inl mem_cons_self) h

theorem mem_walk_next (hr : r ∈ rows) {r' : ρ} (hr' : r' ∈ walk hit key start rows)
    (h : hit (key r') r = true) : r ∈ walk hit key start rows :=
  mem_walkFrom (by simp [Nat.add_comm]) hr (Or.inr (mem_map_of_mem hr')) h

end Memmy.Lib.Walk
