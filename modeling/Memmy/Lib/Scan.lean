import Mathlib.Data.List.Basic

/-! # The leftmost match in a text

A matcher reads a text from its start and answers what is left behind the match. `find` looks for the
leftmost place where it matches. Where the matcher answers for the start of a text without looking at
what follows (`Local`), the search of the whole is the search of the start and, when that fails, of the rest.

* `find_eq_some`: what is found is a match, with the text before it.
* `find_append`: the search of a text in two parts.
* `find_of_skips`: a start without a match is passed over. -/

namespace Memmy.Lib.Scan

open List Option

variable {α : Type}

/-- The leftmost match: the text before it and the text behind it. -/
def find (m : List α → Option (List α)) : List α → Option (List α × List α)
  | [] => (m []).map fun rest => ([], rest)
  | c :: t =>
    match m (c :: t) with
    | some rest => some ([], rest)
    | none => (find m t).map fun p => (c :: p.1, p.2)

variable {m : List α → Option (List α)}

theorem find_cons_of_some {c : α} {t rest : List α} (h : m (c :: t) = some rest) :
    find m (c :: t) = some ([], rest) := by
  rw [find, h]

theorem find_cons_of_none {c : α} {t : List α} (h : m (c :: t) = none) :
    find m (c :: t) = (find m t).map fun p => (c :: p.1, p.2) := by
  rw [find, h]

theorem find_eq_some {before rest : List α} : ∀ {text : List α},
    find m text = some (before, rest) → ∃ matched, text = before ++ matched ∧ m matched = some rest
  | [], h => by
    obtain ⟨rest', hrest, heq⟩ := map_eq_some_iff.mp h
    cases heq
    exact ⟨[], rfl, hrest⟩
  | c :: t, h => by
    cases hm : m (c :: t) with
    | some rest' =>
      rw [find_cons_of_some hm] at h
      cases h
      exact ⟨c :: t, rfl, hm⟩
    | none =>
      rw [find_cons_of_none hm] at h
      obtain ⟨⟨before', rest'⟩, hfind, heq⟩ := map_eq_some_iff.mp h
      cases heq
      obtain ⟨matched, ht, hmatched⟩ := find_eq_some hfind
      exact ⟨matched, by rw [ht, cons_append], hmatched⟩

/-- No match is missed. -/
theorem find_eq_none : ∀ {text : List α}, find m text = none → ∀ s, s <:+ text → m s = none
  | [], h, s, hs => by
    rw [suffix_nil.mp hs]
    exact map_eq_none_iff.mp h
  | c :: t, h, s, hs => by
    cases hm : m (c :: t) with
    | some rest =>
      rw [find_cons_of_some hm] at h
      cases h
    | none =>
      rw [find_cons_of_none hm] at h
      rcases suffix_cons_iff.mp hs with rfl | hs
      · exact hm
      · exact find_eq_none (map_eq_none_iff.mp h) s hs

/-- **The matcher answers for every end of `text`** without looking at what follows. -/
def Local (m : List α → Option (List α)) (text rest : List α) : Prop :=
  ∀ s, s <:+ text → s ≠ [] → m (s ++ rest) = (m s).map (· ++ rest)

theorem find_append (hnil : m [] = none) {rest : List α} : ∀ {text : List α},
    Local m text rest → find m (text ++ rest) =
      match find m text with
      | some (before, behind) => some (before, behind ++ rest)
      | none => (find m rest).map fun p => (text ++ p.1, p.2)
  | [], _ => by simp [find, hnil]
  | c :: t, h => by
    have hc := h (c :: t) (suffix_refl _) (cons_ne_nil _ _)
    have ht : Local m t rest := fun s hs => h s (hs.trans (suffix_cons c t))
    have ih := find_append hnil ht
    rw [cons_append] at hc ⊢
    cases hm : m (c :: t) with
    | some behind => rw [find_cons_of_some hm, find_cons_of_some (hc.trans (by rw [hm, map_some]))]
    | none =>
      rw [find_cons_of_none hm, find_cons_of_none (hc.trans (by rw [hm, map_none])), ih]
      cases find m t with
      | some p => rfl
      | none => simp [Function.comp_def]

/-- **No place of `text` is the start of a match,** whatever part of `rest` it takes in. -/
def Skips (m : List α → Option (List α)) (text rest : List α) : Prop :=
  ∀ s, s <:+ text → s ≠ [] → m (s ++ rest) = none

theorem find_of_skips {rest : List α} : ∀ {text : List α},
    Skips m text rest → find m (text ++ rest) = (find m rest).map fun p => (text ++ p.1, p.2)
  | [], _ => by simp
  | c :: t, h => by
    have hc := h (c :: t) (suffix_refl _) (cons_ne_nil _ _)
    have ht : Skips m t rest := fun s hs => h s (hs.trans (suffix_cons c t))
    have ih := find_of_skips ht
    rw [cons_append] at hc ⊢
    rw [find_cons_of_none hc, ih, Option.map_map]
    rfl

end Memmy.Lib.Scan
