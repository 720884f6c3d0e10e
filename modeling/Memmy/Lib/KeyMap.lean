import Mathlib.Data.List.Basic
import Mathlib.Data.List.Nodup

/-! # A map that remembers the order of its keys

The values of a map from keys to values, in the order in which the keys were first set; a key that is
set again keeps its place and gets the new value.

* `nodup_ofList`: a key has one value.
* `mem_ofList_of_unique`: a value whose key is set to nothing else is in the map.
* `get?_set`, `get?_delete`: the value of a key after a change; `ofList_eq_self`: a map is set from its
  own values. -/

namespace Memmy.Lib.KeyMap

open List

variable {α κ : Type*} [DecidableEq κ] (key : α → κ)

/-- `map.set(key(x), x)` -/
def set (items : List α) (x : α) : List α :=
  if items.any (key · = key x) then items.map fun y => if key y = key x then x else y
  else items ++ [x]

/-- The values after all of `l` was set, one after the other. -/
def ofList (l : List α) : List α := l.foldl (set key) []

variable {key} {x z : α} {items : List α}

theorem mem_set (h : z ∈ set key items x) : z ∈ items ∨ z = x := by
  unfold set at h
  split_ifs at h
  · obtain ⟨w, hw, rfl⟩ := mem_map.mp h
    split_ifs
    · exact Or.inr rfl
    · exact Or.inl hw
  · rcases mem_append.mp h with h | h
    · exact Or.inl h
    · exact Or.inr (mem_singleton.mp h)

theorem mem_set_self (items : List α) (x : α) : x ∈ set key items x := by
  unfold set
  split_ifs with h
  · obtain ⟨w, hw, hkey⟩ := any_eq_true.mp h
    exact mem_map.mpr ⟨w, hw, if_pos (of_decide_eq_true hkey)⟩
  · exact mem_append_right _ (mem_singleton_self _)

theorem mem_set_of_mem (hz : z ∈ items) (h : key x = key z → x = z) : z ∈ set key items x := by
  unfold set
  split_ifs
  · refine mem_map.mpr ⟨z, hz, ?_⟩
    split_ifs with hkey
    · exact h hkey.symm
    · rfl
  · exact mem_append_left _ hz

theorem nodup_set (h : (items.map key).Nodup) (x : α) : ((set key items x).map key).Nodup := by
  unfold set
  split_ifs with hany
  · have hsame : (items.map fun y => if key y = key x then x else y).map key = items.map key := by
      rw [map_map]
      refine map_congr_left fun y _ => ?_
      simp only [Function.comp_apply]
      split_ifs with hkey
      · exact hkey.symm
      · rfl
    rw [hsame]
    exact h
  · rw [map_append, nodup_append]
    refine ⟨h, nodup_singleton _, fun k hk k' hk' he => hany ?_⟩
    obtain ⟨y, hy, rfl⟩ := mem_map.mp hk
    rw [map_singleton, mem_singleton] at hk'
    exact any_eq_true.mpr ⟨y, hy, decide_eq_true (he.trans hk')⟩

variable {l : List α}

theorem mem_of_mem_ofList (h : z ∈ ofList key l) : z ∈ l := by
  have hgeneral : ∀ (l items : List α), z ∈ l.foldl (set key) items → z ∈ items ∨ z ∈ l := by
    intro l
    induction l with
    | nil => exact fun items h => Or.inl h
    | cons x l ih =>
      intro items h
      rcases ih _ h with h | h
      · rcases mem_set h with h | rfl
        · exact Or.inl h
        · exact Or.inr mem_cons_self
      · exact Or.inr (mem_cons_of_mem _ h)
  exact (hgeneral l [] h).resolve_left not_mem_nil

/-- **A value that is not set over** is in the map. -/
theorem mem_ofList_of_unique (hz : z ∈ l) (h : ∀ x ∈ l, key x = key z → x = z) : z ∈ ofList key l := by
  have hgeneral : ∀ (l items : List α), (∀ x ∈ l, key x = key z → x = z) →
      z ∈ items ∨ z ∈ l → z ∈ l.foldl (set key) items := by
    intro l
    induction l with
    | nil => exact fun items _ h => h.resolve_right not_mem_nil
    | cons x l ih =>
      intro items hunique h
      obtain ⟨hx, hl⟩ := forall_mem_cons.mp hunique
      refine ih _ hl ?_
      rcases h with h | h
      · exact Or.inl (mem_set_of_mem h hx)
      · rcases mem_cons.mp h with rfl | h
        · exact Or.inl (mem_set_self _ _)
        · exact Or.inr h
  exact hgeneral l [] h (Or.inr hz)

/-- **A key has one value.** -/
theorem nodup_ofList (l : List α) : ((ofList key l).map key).Nodup := by
  have hgeneral : ∀ (l items : List α), (items.map key).Nodup → ((l.foldl (set key) items).map key).Nodup := by
    intro l
    induction l with
    | nil => exact fun items h => h
    | cons x l ih => exact fun items h => ih _ (nodup_set h x)
  exact hgeneral l [] nodup_nil

/-! ### The value of a key -/

variable (key) in
/-- `map.get(k)` -/
def get? (items : List α) (k : κ) : Option α := items.find? fun x => key x = k

variable (key) in
/-- `map.delete(k)` -/
def delete (items : List α) (k : κ) : List α := items.filter fun x => key x ≠ k

/-- **The value after a change** of one key. -/
theorem get?_set (items : List α) (x : α) (k : κ) :
    get? key (set key items x) k = if key x = k then some x else get? key items k := by
  have hmap : ∀ items : List α, get? key (items.map fun y => if key y = key x then x else y) k =
      if key x = k then (if items.any (key · = key x) then some x else none) else get? key items k := by
    intro items
    unfold get?
    induction items with
    | nil => simp
    | cons y items ih =>
      rw [map_cons, find?_cons, ih, find?_cons]
      by_cases hk : key x = k
      · by_cases hy : key y = key x
        · simp [hk, hy]
        · have hy' : key y ≠ k := fun he => hy (he.trans hk.symm)
          simp [hk, hy']
      · by_cases hy : key y = key x
        · have hy' : key y ≠ k := fun he => hk (hy.symm.trans he)
          simp [hk, hy]
        · simp [hk, hy]
  unfold set
  by_cases hany : items.any (key · = key x) = true
  · rw [if_pos hany, hmap, if_pos hany]
  · rw [if_neg hany]
    unfold get?
    rw [find?_append]
    by_cases hk : key x = k
    · have hnone : items.find? (fun y => key y = k) = none := by
        rw [find?_eq_none]
        intro y hy he
        refine hany (any_eq_true.mpr ⟨y, hy, ?_⟩)
        rw [hk]
        exact he
      rw [hnone]
      simp [hk]
    · simp [hk]

theorem key_of_get? {k : κ} (h : get? key items k = some x) : key x = k := by
  have hfound := find?_some (p := fun x => decide (key x = k)) h
  exact of_decide_eq_true hfound

theorem get?_of_mem : ∀ {items : List α}, (items.map key).Nodup → ∀ {x : α}, x ∈ items →
    get? key items (key x) = some x
  | y :: items, h, x, hx => by
    rw [map_cons, nodup_cons] at h
    unfold get?
    rcases mem_cons.mp hx with rfl | hx
    · rw [find?_cons_of_pos (by simp)]
    · have hne : key y ≠ key x := fun he => h.1 (he ▸ mem_map_of_mem hx)
      rw [find?_cons_of_neg (by simpa using hne)]
      exact get?_of_mem h.2 hx

theorem get?_delete (items : List α) (j k : κ) :
    get? key (delete key items j) k = if k = j then none else get? key items k := by
  unfold get? delete
  rw [find?_filter]
  by_cases hk : k = j
  · rw [if_pos hk, find?_eq_none]
    simp_all
  · rw [if_neg hk]
    congr 1
    funext x
    by_cases hx : key x = k
    · simp [hx, hk]
    · simp [hx]

theorem nodup_delete (h : (items.map key).Nodup) (k : κ) :
    ((delete key items k).map key).Nodup := h.sublist (filter_sublist.map _)

/-- **A map from its own values** is the same. -/
theorem ofList_eq_self (h : (l.map key).Nodup) : ofList key l = l := by
  have hgeneral : ∀ (l items : List α), ((items ++ l).map key).Nodup →
      l.foldl (set key) items = items ++ l := by
    intro l
    induction l with
    | nil => exact fun items _ => (append_nil items).symm
    | cons x l ih =>
      intro items h
      have hany : ¬ items.any (key · = key x) = true := by
        rw [any_eq_true]
        rintro ⟨y, hy, he⟩
        rw [map_append, nodup_append] at h
        exact h.2.2 _ (mem_map_of_mem hy) _ (mem_map_of_mem mem_cons_self) (of_decide_eq_true he)
      rw [foldl_cons, set, if_neg hany, ih _ (by simpa using h), append_assoc, singleton_append]
  exact hgeneral l [] h

section Entries

variable {β : Type*} {entries : List (κ × β)} {k : κ} {v : β}

/-- **The value of a key in a map of entries** that never set it to anything else. -/
theorem get?_entries (hmem : (k, v) ∈ entries) (h : ∀ e ∈ entries, e.1 = k → e.2 = v) :
    get? Prod.fst (ofList Prod.fst entries) k = some (k, v) := by
  have hset : (k, v) ∈ ofList Prod.fst entries :=
    mem_ofList_of_unique hmem fun e he hkey => Prod.ext hkey (h e he hkey)
  exact get?_of_mem (nodup_ofList entries) hset

theorem get?_entries_none (h : ∀ e ∈ entries, e.1 ≠ k) : get? Prod.fst (ofList Prod.fst entries) k = none := by
  cases hget : get? Prod.fst (ofList Prod.fst entries) k with
  | none => rfl
  | some e => exact absurd (key_of_get? hget) (h e (mem_of_mem_ofList (mem_of_find?_eq_some hget)))

end Entries

end Memmy.Lib.KeyMap
