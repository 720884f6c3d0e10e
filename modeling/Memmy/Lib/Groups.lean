import Mathlib.Data.List.Basic
import Mathlib.Data.List.Induction
import Mathlib.Data.List.Nodup

/-! # Grouping by a key, in the order of first members

`collect` reads entries with a key and an index: an entry joins the group of its key, or begins a new
group behind the others.

* `collect_members`: the groups are the keys in the order of their first entries, each with its entries.
* `firstIndex_sublist`: the groups stand in the order of their first indices.
* `eraseDups_map`: the first occurrences of values that tell the entries apart. -/

namespace Memmy.Lib.Groups

open List

variable {α β κ : Type*}

structure Group (κ α : Type*) where
  key : κ
  firstIndex : ℕ
  members : List α

/-- The part of a group that a later entry can see. -/
def Group.named (g : Group κ α) : κ × List α := (g.key, g.members)

section Collect
variable [DecidableEq κ]

/-- An entry joins the group of its key, or begins one. -/
def add (groups : List (Group κ α)) (key : κ) (index : ℕ) (x : α) : List (Group κ α) :=
  if groups.any (·.key = key) then
    groups.map fun g => if g.key = key then { g with members := g.members ++ [x] } else g
  else groups ++ [⟨key, index, [x]⟩]

def collect (items : List (κ × ℕ × α)) : List (Group κ α) :=
  items.foldl (fun groups item => add groups item.1 item.2.1 item.2.2) []

theorem collect_concat (items : List (κ × ℕ × α)) (item : κ × ℕ × α) :
    collect (items ++ [item]) = add (collect items) item.1 item.2.1 item.2.2 := by
  unfold collect
  rw [foldl_append]
  rfl

theorem eraseDups_concat (l : List κ) (k : κ) :
    (l ++ [k]).eraseDups = if k ∈ l then l.eraseDups else l.eraseDups ++ [k] := by
  rw [eraseDups_append]
  by_cases h : k ∈ l
  · rw [if_pos h]
    simp [List.removeAll, h]
  · rw [if_neg h]
    simp [List.removeAll, h, eraseDups_cons]

/-- Values that occur once are their first occurrences. -/
theorem eraseDups_of_nodup {l : List κ} (h : l.Nodup) : l.eraseDups = l := by
  induction l using List.reverseRecOn with
  | nil => rfl
  | append_singleton l k ih =>
    have hk : k ∉ l := fun hmem => (nodup_append.mp h).2.2 k hmem k (mem_singleton_self k) rfl
    rw [eraseDups_concat, if_neg hk, ih (nodup_append.mp h).1]

/-- **The groups, in the order of their first entries.** -/
theorem collect_members (items : List (κ × ℕ × α)) : (collect items).map Group.named =
    (items.map (·.1)).eraseDups.map fun k => (k, (items.filter (·.1 = k)).map (·.2.2)) := by
  induction items using List.reverseRecOn with
  | nil => rfl
  | append_singleton items item ih =>
    obtain ⟨key, index, x⟩ := item
    have hkeys : (collect items).any (·.key = key) = true ↔ key ∈ items.map (·.1) := by
      have hmap := congrArg (List.map Prod.fst) ih
      rw [map_map, map_map] at hmap
      have hid : (items.map (·.1)).eraseDups.map (Prod.fst ∘ fun k =>
          (k, (items.filter (·.1 = k)).map (·.2.2))) = (items.map (·.1)).eraseDups := map_id _
      have hmem : key ∈ (items.map (·.1)).eraseDups ↔ key ∈ items.map (·.1) := mem_eraseDups
      rw [← hmem, ← hid, ← hmap]
      simp [Group.named]
    rw [collect_concat, map_append, map_singleton, eraseDups_concat]
    by_cases hmem : key ∈ items.map (·.1)
    · rw [if_pos hmem, add, if_pos (hkeys.mpr hmem), map_map]
      have hstep : (collect items).map (Group.named ∘ fun g =>
          if g.key = key then { g with members := g.members ++ [x] } else g) =
          ((collect items).map Group.named).map fun p => if p.1 = key then (p.1, p.2 ++ [x]) else p := by
        rw [map_map]
        refine map_congr_left fun g _ => ?_
        by_cases hg : g.key = key
        · simp [Group.named, hg]
        · simp [Group.named, hg]
      rw [hstep, ih, map_map]
      refine map_congr_left fun k _ => ?_
      by_cases hk : k = key
      · simp [hk]
      · have hk' : ¬ key = k := fun he => hk he.symm
        simp [hk, hk']
    · rw [if_neg hmem, add, if_neg fun h => hmem (hkeys.mp h), map_append, ih, map_append]
      congr 1
      · refine map_congr_left fun k hk => ?_
        have hne : ¬ key = k := fun he => hmem (he ▸ mem_eraseDups.mp hk)
        simp [hne]
      · have hnone : items.filter (fun item => decide (item.1 = key)) = [] := by
          rw [filter_eq_nil_iff]
          intro item hitem he
          exact hmem (of_decide_eq_true he ▸ mem_map_of_mem hitem)
        simp [Group.named, hnone]

/-- **The groups stand in the order of their first indices.** -/
theorem firstIndex_sublist (items : List (κ × ℕ × α)) :
    ((collect items).map Group.firstIndex).Sublist (items.map (·.2.1)) := by
  induction items using List.reverseRecOn with
  | nil => exact List.Sublist.refl _
  | append_singleton items item ih =>
    rw [collect_concat, map_append]
    unfold add
    by_cases h : (collect items).any (·.key = item.1) = true
    · rw [if_pos h, map_map]
      have hsame : (collect items).map (Group.firstIndex ∘ fun g =>
          if g.key = item.1 then { g with members := g.members ++ [item.2.2] } else g) =
          (collect items).map Group.firstIndex := by
        refine map_congr_left fun g _ => ?_
        simp only [Function.comp_apply]
        split_ifs <;> rfl
      rw [hsame]
      exact ih.trans (sublist_append_left _ _)
    · rw [if_neg h, map_append]
      exact ih.append (List.Sublist.refl _)

end Collect

/-- **First occurrences of values** that are different where the entries are. -/
theorem eraseDups_map [DecidableEq α] [DecidableEq β] {f : α → β} {l : List α}
    (h : ∀ a ∈ l, ∀ b ∈ l, f a = f b → a = b) : (l.map f).eraseDups = l.eraseDups.map f := by
  induction l using List.reverseRecOn with
  | nil => rfl
  | append_singleton l a ih =>
    have hl := ih fun b hb c hc => h b (mem_append_left _ hb) c (mem_append_left _ hc)
    rw [map_append, map_singleton, eraseDups_concat, eraseDups_concat, hl]
    by_cases ha : a ∈ l
    · rw [if_pos ha, if_pos (mem_map_of_mem ha)]
    · have hfa : f a ∉ l.map f := by
        intro hmem
        obtain ⟨b, hb, he⟩ := mem_map.mp hmem
        have hab := h b (mem_append_left _ hb) a (mem_append_right _ (mem_singleton_self _)) he
        exact ha (hab ▸ hb)
      rw [if_neg ha, if_neg hfa, map_append, map_singleton]

end Memmy.Lib.Groups
