import Mathlib.Data.List.Basic
import Mathlib.Data.List.Forall2
import Mathlib.Data.List.Nodup

/-! # Neighbours in a list

`links l` are the pairs of neighbours of a list: a chain of nodes is a list whose links are its edges.

* `links_snoc`: an element behind the last one.
* `map_fst_links`: every element but the last one is a source once.
* `forall₂_links`: neighbours of related lists are related.
* `notMem_dropLast_iff`: without repetitions only the last element is no source. -/

namespace Memmy.Lib.Chain

open List

variable {α β : Type*}

/-- The pairs of neighbours. -/
def links (l : List α) : List (α × α) := l.zip l.tail

@[simp] theorem links_cons_cons (a b : α) (l : List α) : links (a :: b :: l) = (a, b) :: links (b :: l) :=
  rfl

/-- **An element behind the last one.** -/
theorem links_snoc : ∀ {l : List α} {b : α} (a : α), l.getLast? = some b →
    links (l ++ [a]) = links l ++ [(b, a)]
  | [x], b, a, h => by
    obtain rfl : x = b := by simpa using h
    rfl
  | x :: y :: l, b, a, h => by
    have ih := links_snoc (l := y :: l) (b := b) a (by simpa using h)
    simp only [cons_append, links_cons_cons]
    rw [← cons_append, ih]

theorem map_fst_links : ∀ l : List α, (links l).map Prod.fst = l.dropLast
  | [] => rfl
  | [_] => rfl
  | a :: b :: l => by
    rw [links_cons_cons, map_cons, map_fst_links (b :: l)]
    rfl

/-- Neighbours stand in their order. -/
theorem sublist_of_mem_links : ∀ {l : List α} {a b : α}, (a, b) ∈ links l → [a, b].Sublist l
  | x :: y :: l, a, b, h => by
    rcases mem_cons.mp h with h | h
    · cases h
      exact cons_sublist_cons.mpr (singleton_sublist.mpr mem_cons_self)
    · exact (sublist_of_mem_links (l := y :: l) h).cons x

/-- **Neighbours of related lists** are related. -/
theorem forall₂_links {R : α → β → Prop} : ∀ {l : List α} {l' : List β}, List.Forall₂ R l l' →
    List.Forall₂ (fun p q => R p.1 q.1 ∧ R p.2 q.2) (links l) (links l')
  | _, _, List.Forall₂.nil => List.Forall₂.nil
  | _, _, List.Forall₂.cons _ List.Forall₂.nil => List.Forall₂.nil
  | _, _, List.Forall₂.cons hab (List.Forall₂.cons hcd h) =>
    List.Forall₂.cons ⟨hab, hcd⟩ (forall₂_links (List.Forall₂.cons hcd h))

theorem notMem_dropLast_iff : ∀ {l : List α} {a : α}, l.Nodup → a ∈ l → (a ∉ l.dropLast ↔ l.getLast? = some a)
  | [x], a, _, ha => by
    obtain rfl := mem_singleton.mp ha
    simp
  | x :: y :: l, a, hnodup, ha => by
    obtain ⟨hx, hnodup⟩ := nodup_cons.mp hnodup
    rw [dropLast_cons_of_ne_nil (cons_ne_nil y l), mem_cons, not_or, getLast?_cons_cons]
    rcases mem_cons.mp ha with rfl | ha
    · refine ⟨fun h => absurd rfl h.1, fun h => absurd (mem_of_getLast? h) hx⟩
    · rw [notMem_dropLast_iff hnodup ha]
      exact ⟨fun h => h.2, fun h => ⟨fun he => hx (he ▸ ha), h⟩⟩

/-- **At most one** has a value that occurs once. -/
theorem length_filter_le_one [DecidableEq β] {f : α → β} {l : List α} (h : (l.map f).Nodup) (b : β) :
    (l.filter fun a => f a = b).length ≤ 1 := by
  have hcount := nodup_iff_count_le_one.mp h b
  rwa [count, countP_map, countP_eq_length_filter] at hcount

/-- **Exactly one** has a value that occurs, and occurs once. -/
theorem exists_filter_eq_singleton [DecidableEq β] {f : α → β} {l : List α} (h : (l.map f).Nodup) {b : β}
    (hb : b ∈ l.map f) : ∃ a, l.filter (fun a => f a = b) = [a] := by
  obtain ⟨a, ha, hab⟩ := mem_map.mp hb
  have hpos : 0 < (l.filter fun a => f a = b).length :=
    length_pos_of_mem (mem_filter.mpr ⟨ha, decide_eq_true hab⟩)
  have hle := length_filter_le_one h b
  exact length_eq_one_iff.mp (by omega)

theorem links_map (f : α → β) : ∀ l : List α, links (l.map f) = (links l).map (Prod.map f f)
  | [] => rfl
  | [_] => rfl
  | a :: b :: l => by
    have ih := links_map f (b :: l)
    simp only [map_cons, links_cons_cons] at ih ⊢
    rw [ih]
    rfl

end Memmy.Lib.Chain
