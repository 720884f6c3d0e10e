import Mathlib.Data.List.Basic
import Mathlib.Logic.Relation

/-! # Reachability in a finite graph

* `Acyclic` and `Acyclic.insert`: an edge from `s` to `t` keeps a relation acyclic if `s` is not
  reached from `t`.
* `reflTransGen_of_old`, `reflTransGen_of_parent`: what a relation with new leaves reaches.
* `reach`: the nodes that a work list finds over a list of edges. The list is taken from the front
  and the successors of a new node are added at the end; `mem_reach_iff` says that it finds what the
  reflexive and transitive closure of the edges does. The fuel is the number of things that can ever
  be on the list. -/

namespace Memmy.Lib.Reach

open Relation List

/-! ### Acyclic relations -/

section Acyclic
variable {α : Type*} {R R' : α → α → Prop} {s t : α}

/-- Nothing reaches itself. -/
def Acyclic (R : α → α → Prop) : Prop := ∀ x, ¬ TransGen R x x

theorem Acyclic.mono (h : Acyclic R') (hR : ∀ x y, R x y → R' x y) : Acyclic R :=
  fun x hx => h x (TransGen.mono hR x x hx)

/-- **A rank that every step raises** keeps a relation acyclic. -/
theorem acyclic_of_lt (f : α → ℕ) (h : ∀ x y, R x y → f x < f y) : Acyclic R := by
  have hlt : ∀ {x y}, TransGen R x y → f x < f y := by
    intro x y hxy
    induction hxy with
    | single hstep => exact h _ _ hstep
    | tail _ hstep ih => exact Nat.lt_trans ih (h _ _ hstep)
  exact fun x hx => absurd (hlt hx) (Nat.lt_irrefl _)

/-- A path in the relation with one more edge avoids the edge or goes through it. -/
theorem transGen_insert {x y : α} (h : TransGen (fun a b => R a b ∨ (a = s ∧ b = t)) x y) :
    TransGen R x y ∨ (ReflTransGen R x s ∧ ReflTransGen R t y) := by
  induction h with
  | single h =>
    rcases h with h | ⟨rfl, rfl⟩
    · exact Or.inl (TransGen.single h)
    · exact Or.inr ⟨ReflTransGen.refl, ReflTransGen.refl⟩
  | tail _ h ih =>
    rcases h with h | ⟨rfl, rfl⟩
    · rcases ih with ih | ⟨h1, h2⟩
      · exact Or.inl (ih.tail h)
      · exact Or.inr ⟨h1, h2.tail h⟩
    · rcases ih with ih | ⟨h1, -⟩
      · exact Or.inr ⟨ih.to_reflTransGen, ReflTransGen.refl⟩
      · exact Or.inr ⟨h1, ReflTransGen.refl⟩

/-- **An edge whose source is not reached from its target closes no cycle.** -/
theorem Acyclic.insert (h : Acyclic R) (hne : s ≠ t) (hst : ¬ TransGen R t s) :
    Acyclic (fun a b => R a b ∨ (a = s ∧ b = t)) := by
  intro x hx
  rcases transGen_insert hx with hx | ⟨h1, h2⟩
  · exact h x hx
  · rcases reflTransGen_iff_eq_or_transGen.mp (h2.trans h1) with he | he
    · exact hne he
    · exact hst he

end Acyclic

/-! ### A relation that grows at its leaves -/

section Grown
variable {α : Type*} {R R' : α → α → Prop} {old : α → Prop} {x y p : α}

/-- **Nothing new leads to what is old**: the old relation reaches it too. -/
theorem reflTransGen_of_old (hstep : ∀ a b, R' a b → old b → R a b ∧ old a) (h : ReflTransGen R' x y)
    (hy : old y) : ReflTransGen R x y := by
  induction h with
  | refl => exact ReflTransGen.refl
  | tail _ hlast ih =>
    obtain ⟨hR, hold⟩ := hstep _ _ hlast hy
    exact (ih hold).tail hR

theorem reflTransGen_of_parent (hparent : R p y) (honly : ∀ z, R z y → z = p) :
    ReflTransGen R x y ↔ x = y ∨ ReflTransGen R x p := by
  constructor
  · intro h
    rcases ReflTransGen.cases_tail h with rfl | ⟨z, hxz, hzy⟩
    · exact Or.inl rfl
    · exact Or.inr (honly z hzy ▸ hxz)
  · rintro (rfl | h)
    · exact ReflTransGen.refl
    · exact h.tail hparent

end Grown

/-! ### The work list -/

section Search
variable {α ε : Type*} [DecidableEq α]

/-- The loop over the work list. -/
def search (next : α → List α) : ℕ → List α → List α → List α
  | 0, _, seen => seen
  | _ + 1, [], seen => seen
  | fuel + 1, x :: queue, seen =>
    if x ∈ seen then search next fuel queue seen
    else search next fuel (queue ++ next x) (seen ++ [x])

variable (src tgt : ε → α) (keep : α → Bool) (edges : List ε)

/-- The targets of the edges from `x`, of those that are kept. -/
def successors (x : α) : List α := (edges.filter fun e => decide (src e = x) && keep (tgt e)).map tgt

/-- What is reached from the start nodes over the edges to kept nodes. -/
def reach (start : List α) : List α :=
  search (successors src tgt keep edges) (start.length + edges.length) start []

/-- One step over an edge to a kept node. -/
def Step (x y : α) : Prop := ∃ e ∈ edges, src e = x ∧ tgt e = y ∧ keep y = true

theorem mem_successors : y ∈ successors src tgt keep edges x ↔ Step src tgt keep edges x y := by
  unfold successors Step
  simp only [mem_map, mem_filter, Bool.and_eq_true, decide_eq_true_eq]
  constructor
  · rintro ⟨e, ⟨he, hs, hk⟩, rfl⟩; exact ⟨e, he, hs, rfl, hk⟩
  · rintro ⟨e, he, hs, rfl, hk⟩; exact ⟨e, ⟨he, hs, hk⟩, rfl⟩

/-- The edges from nodes that are not seen. -/
def pending (seen : List α) : ℕ := (edges.filter fun e => decide (src e ∉ seen)).length

theorem successors_pending {seen : List α} (hx : x ∉ seen) :
    (successors src tgt keep edges x).length + pending src edges (seen ++ [x]) ≤
      pending src edges seen := by
  unfold successors pending
  rw [length_map]
  induction edges with
  | nil => simp
  | cons e es ih =>
    simp only [filter_cons, mem_append, mem_singleton]
    by_cases he : src e = x
    · have hx' : src e ∉ seen := he ▸ hx
      have hk : ∀ l : List ε, (if keep (tgt e) then e :: l else l).length ≤ l.length + 1 := by
        intro l; split_ifs <;> simp
      have := hk (es.filter fun e => decide (src e = x) && keep (tgt e))
      simp only [he, hx, decide_true, Bool.true_and, or_true, not_true_eq_false, decide_false,
        not_false_eq_true, if_true, length_cons]
      simp only [mem_append, mem_singleton] at ih
      simp only [Bool.false_eq_true, if_false]
      omega
    · by_cases hs : src e ∈ seen
      · simpa [he, hs] using ih
      · have : ∀ b : Bool, (if b then e :: es else es).length ≤ es.length + 1 := by
          intro b; split_ifs <;> simp
        simp only [he, hs, decide_false, Bool.false_and, or_self, not_false_eq_true, decide_true,
          if_true, length_cons, Bool.false_eq_true, if_false]
        simp only [mem_append, mem_singleton] at ih
        omega

theorem search_sound (next : α → List α) :
    ∀ (fuel : ℕ) (queue seen : List α) (y : α), y ∈ search next fuel queue seen →
      y ∈ seen ∨ ∃ x ∈ queue, ReflTransGen (fun a b => b ∈ next a) x y
  | 0, _, _, _, hy => Or.inl hy
  | _ + 1, [], _, _, hy => Or.inl hy
  | fuel + 1, x :: queue, seen, y, hy => by
    unfold search at hy
    split_ifs at hy with hx
    · rcases search_sound next fuel queue seen y hy with h | ⟨z, hz, h⟩
      · exact Or.inl h
      · exact Or.inr ⟨z, mem_cons_of_mem _ hz, h⟩
    · rcases search_sound next fuel _ _ y hy with h | ⟨z, hz, h⟩
      · rcases mem_append.mp h with h | h
        · exact Or.inl h
        · rw [mem_singleton.mp h]
          exact Or.inr ⟨x, mem_cons_self, ReflTransGen.refl⟩
      · rcases mem_append.mp hz with hz | hz
        · exact Or.inr ⟨z, mem_cons_of_mem _ hz, h⟩
        · exact Or.inr ⟨x, mem_cons_self, ReflTransGen.head hz h⟩

theorem search_closed : ∀ (fuel : ℕ) (queue seen : List α),
    queue.length + pending src edges seen ≤ fuel →
    (∀ x ∈ seen, ∀ y ∈ successors src tgt keep edges x, y ∈ seen ∨ y ∈ queue) →
    (∀ x, x ∈ seen ∨ x ∈ queue → x ∈ search (successors src tgt keep edges) fuel queue seen) ∧
      ∀ x ∈ search (successors src tgt keep edges) fuel queue seen,
        ∀ y ∈ successors src tgt keep edges x, y ∈ search (successors src tgt keep edges) fuel queue seen
  | 0, queue, seen, hfuel, hinv => by
    have hq : queue = [] := length_eq_zero_iff.mp (by omega)
    subst hq
    unfold search
    exact ⟨by simp, fun x hx y hy => by simpa using hinv x hx y hy⟩
  | fuel + 1, [], seen, _, hinv => by
    unfold search
    exact ⟨by simp, fun x hx y hy => by simpa using hinv x hx y hy⟩
  | fuel + 1, x :: queue, seen, hfuel, hinv => by
    unfold search
    rw [length_cons] at hfuel
    split_ifs with hx
    · obtain ⟨h1, h2⟩ := search_closed fuel queue seen (by omega) (by
        intro z hz y hy
        rcases hinv z hz y hy with h | h
        · exact Or.inl h
        · rcases mem_cons.mp h with rfl | h
          · exact Or.inl hx
          · exact Or.inr h)
      refine ⟨fun z hz => h1 z ?_, h2⟩
      rcases hz with hz | hz
      · exact Or.inl hz
      · rcases mem_cons.mp hz with rfl | hz
        · exact Or.inl hx
        · exact Or.inr hz
    · have hp := successors_pending src tgt keep edges hx
      obtain ⟨h1, h2⟩ := search_closed fuel (queue ++ successors src tgt keep edges x)
        (seen ++ [x]) (by rw [length_append]; omega) (by
          intro z hz y hy
          rw [mem_append, mem_append]
          rcases mem_append.mp hz with hz | hz
          · rcases hinv z hz y hy with h | h
            · exact Or.inl (Or.inl h)
            · rcases mem_cons.mp h with rfl | h
              · exact Or.inl (Or.inr mem_cons_self)
              · exact Or.inr (Or.inl h)
          · rw [mem_singleton.mp hz] at hy
            exact Or.inr (Or.inr hy))
      refine ⟨fun z hz => h1 z ?_, h2⟩
      rw [mem_append, mem_append]
      rcases hz with hz | hz
      · exact Or.inl (Or.inl hz)
      · rcases mem_cons.mp hz with rfl | hz
        · exact Or.inl (Or.inr mem_cons_self)
        · exact Or.inr (Or.inl hz)

/-- **The work list finds exactly what is reachable.** -/
theorem mem_reach_iff {start : List α} :
    y ∈ reach src tgt keep edges start ↔ ∃ x ∈ start, ReflTransGen (Step src tgt keep edges) x y := by
  have hstep : (fun a b => b ∈ successors src tgt keep edges a) = Step src tgt keep edges :=
    funext₂ fun a b => propext (mem_successors src tgt keep edges)
  have hfuel : start.length + pending src edges [] ≤ start.length + edges.length := by
    have := length_filter_le (fun e => decide (src e ∉ ([] : List α))) edges
    unfold pending; omega
  obtain ⟨h1, h2⟩ := search_closed src tgt keep edges _ start [] hfuel (by simp)
  constructor
  · intro hy
    rcases search_sound _ _ _ _ _ hy with h | h
    · cases h
    · rwa [hstep] at h
  · rintro ⟨x, hx, h⟩
    induction h with
    | refl => exact h1 x (Or.inr hx)
    | tail _ h ih => exact h2 _ ih _ ((mem_successors src tgt keep edges).mpr h)

end Search

end Memmy.Lib.Reach
