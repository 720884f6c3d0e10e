import Mathlib.Data.List.Sort

/-! # Sorting by a comparison

`sortBy cmp` is the stable sort of the language's arrays. Comparisons are built from keys with
`ascending`, `descending` and `compareLex`, so that the instances find them transitive. The first
element of the sorted list is a least one, and is the strictly least one if there is one. -/

namespace Memmy.Lib.Sort

open Std List

variable {α β : Type*}

section Comparisons
variable [Ord β] (f : α → β)

def ascending : α → α → Ordering := compareOn f

def descending : α → α → Ordering := fun a b => compare (f b) (f a)

instance [TransOrd β] : TransCmp (ascending f) := inferInstanceAs (TransCmp (compareOn f))

instance [TransOrd β] : TransCmp (descending f) := inferInstanceAs (TransCmp fun a b => compareOn f b a)

end Comparisons

section Linear
variable [LinearOrder β] {f : α → β} {a b : α}

theorem descending_isLE : (descending f a b).isLE = true ↔ f b ≤ f a := by
  unfold descending
  rw [← compare_le_iff_le]
  cases compare (f b) (f a) <;> simp

theorem ascending_isLE : (ascending f a b).isLE = true ↔ f a ≤ f b := by
  unfold ascending compareOn
  rw [← compare_le_iff_le]
  cases compare (f a) (f b) <;> simp

theorem descending_eq_lt : descending f a b = .lt ↔ f b < f a := compare_lt_iff_lt

theorem descending_eq_eq : descending f a b = .eq ↔ f a = f b := by
  unfold descending
  rw [Std.compare_eq_iff_eq]
  exact eq_comm

end Linear

theorem compareLex_isLE_left {cmp cmp' : α → α → Ordering}
    (h : (compareLex cmp cmp' a b).isLE = true) : (cmp a b).isLE = true :=
  Ordering.isLE_left_of_isLE_then h

theorem compareLex_eq_lt_of_left {cmp cmp' : α → α → Ordering} (h : cmp a b = .lt) :
    compareLex cmp cmp' a b = .lt := by
  unfold compareLex; rw [h]; rfl

theorem compareLex_eq_lt {cmp cmp' : α → α → Ordering} :
    compareLex cmp cmp' a b = .lt ↔ cmp a b = .lt ∨ (cmp a b = .eq ∧ cmp' a b = .lt) := by
  unfold compareLex
  cases cmp a b <;> simp [Ordering.then]

variable (cmp : α → α → Ordering)

/-- `[...list].sort(cmp)`. -/
def sortBy (l : List α) : List α := l.insertionSort fun a b => (cmp a b).isLE = true

variable {l : List α}

@[simp] theorem mem_sortBy {x : α} : x ∈ sortBy cmp l ↔ x ∈ l := mem_insertionSort _

theorem sortBy_perm (l : List α) : (sortBy cmp l).Perm l := perm_insertionSort _ _

/-- A list in order stays as it is. -/
theorem sortBy_eq_self (h : l.Pairwise fun a b => (cmp a b).isLE = true) : sortBy cmp l = l :=
  h.insertionSort_eq

/-- The sort is stable: what compares equal keeps its order. -/
theorem filter_sortBy {p : α → Bool} (h : ∀ a ∈ l, ∀ b ∈ l, p a = true → p b = true → (cmp a b).isLE = true) :
    (sortBy cmp l).filter p = l.filter p := by
  have hsorted : (l.filter p).Pairwise fun a b => (cmp a b).isLE = true := by
    refine pairwise_of_forall_mem_list fun a ha b hb => ?_
    obtain ⟨ha, hpa⟩ := mem_filter.mp ha
    obtain ⟨hb, hpb⟩ := mem_filter.mp hb
    exact h a ha b hb hpa hpb
  have hsub : (l.filter p).Sublist (sortBy cmp l) := sublist_insertionSort hsorted filter_sublist
  have hfilter := hsub.filter p
  rw [filter_filter] at hfilter
  simp only [Bool.and_self] at hfilter
  exact (hfilter.eq_of_length (((sortBy_perm cmp l).filter p).length_eq.symm)).symm

@[simp] theorem sortBy_eq_nil : sortBy cmp l = [] ↔ l = [] := by
  rw [← length_eq_zero_iff, (sortBy_perm cmp l).length_eq, length_eq_zero_iff]

section Trans
variable [TransCmp cmp] {l : List α} {x : α}

theorem pairwise_sortBy (l : List α) : (sortBy cmp l).Pairwise fun a b => (cmp a b).isLE = true := by
  have : IsTrans α fun a b => (cmp a b).isLE = true := ⟨fun _ _ _ => TransCmp.isLE_trans⟩
  have : Std.Total fun a b : α => (cmp a b).isLE = true := ⟨fun a b => by
    have hswap : cmp b a = (cmp a b).swap := OrientedCmp.eq_swap
    rw [hswap]
    cases cmp a b <;> simp⟩
  exact pairwise_insertionSort _ l

/-- **A list sorted by one comparison and then by another** is sorted by both. -/
theorem pairwise_sortBy_compareLex {cmp' : α → α → Ordering}
    (h : l.Pairwise fun a b => (cmp' a b).isLE = true) :
    (sortBy cmp l).Pairwise fun a b => (compareLex cmp cmp' a b).isLE = true := by
  rw [pairwise_iff_forall_sublist]
  intro a b hab
  have hle : (cmp a b).isLE = true := pairwise_iff_forall_sublist.mp (pairwise_sortBy cmp l) hab
  unfold compareLex
  cases hcmp : cmp a b with
  | lt => rfl
  | gt =>
    rw [hcmp] at hle
    cases hle
  | eq =>
    -- the two are in `l` in this order, among those that compare equal to them
    have hself : cmp a a = .eq := ReflCmp.compare_self
    have hequal := filter_sortBy cmp (p := fun x => cmp a x == .eq) fun x (_ : x ∈ l) y _ hx hy => by
      have hxa : cmp x a = .eq := OrientedCmp.eq_comm.mp (by simpa using hx)
      have hxy : cmp x y = .eq := TransCmp.eq_trans hxa (by simpa using hy)
      rw [hxy]
      rfl
    have hkept := hab.filter fun x => cmp a x == .eq
    rw [hequal] at hkept
    simp only [hself, hcmp, beq_self_eq_true, filter_cons_of_pos, filter_nil] at hkept
    exact pairwise_iff_forall_sublist.mp h (hkept.trans filter_sublist)

/-- **The first of the sorted list is least.** -/
theorem head?_sortBy (h : (sortBy cmp l).head? = some x) : x ∈ l ∧ ∀ y ∈ l, (cmp x y).isLE = true := by
  have hmem := mem_of_head? h
  refine ⟨(mem_sortBy cmp).mp hmem, fun y hy => ?_⟩
  obtain ⟨t, ht⟩ := head?_eq_some_iff.mp h
  have hp := pairwise_sortBy cmp l
  rw [ht, pairwise_cons] at hp
  rcases mem_cons.mp (ht ▸ (mem_sortBy cmp).mpr hy) with rfl | hy
  · have hself : cmp y y = .eq := ReflCmp.compare_self
    rw [hself]; rfl
  · exact hp.1 y hy

/-- **The first that satisfies a condition** is least among those that do. -/
theorem find?_sortBy {p : α → Bool} (h : (sortBy cmp l).find? p = some x) :
    x ∈ l ∧ p x = true ∧ ∀ y ∈ l, p y = true → (cmp x y).isLE = true := by
  obtain ⟨hx, before, after, hsplit, hbefore⟩ := find?_eq_some_iff_append.mp h
  have hmem : ∀ y ∈ l, y ∈ before ++ x :: after := fun y hy => hsplit ▸ (mem_sortBy cmp).mpr hy
  refine ⟨(mem_sortBy cmp).mp (hsplit ▸ mem_append_right _ mem_cons_self), hx, fun y hy hp => ?_⟩
  have hpair := pairwise_sortBy cmp l
  rw [hsplit, pairwise_append, pairwise_cons] at hpair
  rcases mem_append.mp (hmem y hy) with hy | hy
  · have := hbefore y hy
    rw [hp] at this
    cases this
  rcases mem_cons.mp hy with rfl | hy
  · have hself : cmp y y = .eq := ReflCmp.compare_self
    rw [hself]
    rfl
  · exact hpair.2.1.1 y hy

/-- What is strictly before all others is the first of the sorted list. -/
theorem head?_sortBy_of_lt (hx : x ∈ l)
    (h : ∀ y ∈ l, y ≠ x → cmp x y = .lt) : (sortBy cmp l).head? = some x := by
  cases hs : (sortBy cmp l).head? with
  | none =>
    rw [head?_eq_none_iff, sortBy_eq_nil] at hs
    rw [hs] at hx
    cases hx
  | some z =>
    obtain ⟨hz, hle⟩ := head?_sortBy cmp hs
    by_contra hne
    have hlt := h z hz fun he => hne (congrArg some he)
    have hge := hle x hx
    have hswap : cmp z x = (cmp x z).swap := OrientedCmp.eq_swap
    rw [hswap, hlt] at hge
    cases hge

/-- **The first of the sorted list** is the first of the least elements in the list. -/
theorem head?_sortBy_eq_some :
    (sortBy cmp l).head? = some x ↔ ∃ before after, l = before ++ x :: after ∧
      (∀ y ∈ before, cmp x y = .lt) ∧ ∀ y ∈ after, (cmp x y).isLE = true := by
  have hself : ∀ y, cmp y y = .eq := fun y => ReflCmp.compare_self
  -- among the elements that compare equal to a least one, the sort keeps the order
  have hstable : ∀ {z}, z ∈ l → (sortBy cmp l).filter (fun y => cmp z y == .eq) =
      l.filter fun y => cmp z y == .eq := fun {z} _ => by
    refine filter_sortBy cmp fun a _ b _ ha hb => ?_
    rw [TransCmp.eq_trans (OrientedCmp.eq_comm.mp (by simpa using ha)) (by simpa using hb : cmp z b = .eq)]
    rfl
  constructor
  · intro h
    obtain ⟨hmem, hle⟩ := head?_sortBy cmp h
    obtain ⟨rest, hrest⟩ := head?_eq_some_iff.mp h
    have hfilter := hstable hmem
    rw [hrest, filter_cons_of_pos (by simp [hself])] at hfilter
    obtain ⟨before, after, hsplit, hbefore, -, -⟩ := filter_eq_cons_iff.mp hfilter.symm
    refine ⟨before, after, hsplit, fun y hy => ?_, fun y hy => hle y ?_⟩
    · have hyl : y ∈ l := hsplit ▸ mem_append_left _ hy
      have hne : cmp x y ≠ .eq := by simpa using hbefore y hy
      have hle' := hle y hyl
      cases hcmp : cmp x y with
      | lt => rfl
      | eq => exact absurd hcmp hne
      | gt =>
        rw [hcmp] at hle'
        cases hle'
    · rw [hsplit]
      exact mem_append_right _ (mem_cons_of_mem _ hy)
  · rintro ⟨before, after, hsplit, hbefore, hafter⟩
    have hx : x ∈ l := by
      rw [hsplit]
      exact mem_append_right _ mem_cons_self
    cases hs : (sortBy cmp l).head? with
    | none =>
      rw [head?_eq_none_iff, sortBy_eq_nil] at hs
      rw [hs] at hx
      cases hx
    | some z =>
      obtain ⟨hz, hle⟩ := head?_sortBy cmp hs
      obtain ⟨rest, hrest⟩ := head?_eq_some_iff.mp hs
      have hzx : cmp x z = .eq := by
        have hge := hle x hx
        have hswap : cmp z x = (cmp x z).swap := OrientedCmp.eq_swap
        rw [hsplit] at hz
        rcases mem_append.mp hz with hz | hz
        · rw [hswap, hbefore z hz] at hge
          cases hge
        · rcases mem_cons.mp hz with rfl | hz
          · exact hself z
          · have hle' := hafter z hz
            rw [hswap] at hge
            cases hcmp : cmp x z with
            | lt =>
              rw [hcmp] at hge
              cases hge
            | eq => rfl
            | gt =>
              rw [hcmp] at hle'
              cases hle'
      have hnone : before.filter (fun y => cmp x y == .eq) = [] :=
        filter_eq_nil_iff.mpr fun y hy => by simp [hbefore y hy]
      have hfilter := hstable hx
      rw [hrest, filter_cons_of_pos (by simp [hzx]), hsplit, filter_append, hnone,
        nil_append, filter_cons_of_pos (by simp [hself])] at hfilter
      exact congrArg some (List.cons.inj hfilter).1

end Trans

end Memmy.Lib.Sort
