import Mathlib.Data.List.Pairwise
import Mathlib.Data.List.Perm.Subperm
import Mathlib.Tactic.Ring

/-! # Cutting a list into blocks

A list is cut into groups of neighbours with one key, and the groups are joined `n` at a time. Where
the list is a stretch of consecutive numbers, the first and the last numbers of the blocks are the
ends of intervals that tile the stretch.

* `groupBy`, `chunks`: the groups, and the joined groups; `flatten_chunks_groupBy`: nothing is lost.
* `runs`: the number of stretches of equal elements; `runs_chunk_le`: at most `n` in a chunk.
* `Tiles a is b`: the intervals `is` cover `(a, b]` one after the other.
* `tiles_of_flatten`: the blocks of a stretch tile it. -/

namespace Memmy.Lib.Blocks

open List Bool

variable {α κ : Type*} [DecidableEq κ]

/-! ### Groups -/

/-- The element joins the last group if it has its key. -/
def addTo (key : α → κ) (groups : List (List α)) (x : α) : List (List α) :=
  match groups.getLast? with
  | none => groups ++ [[x]]
  | some last =>
    if last.head?.map key = some (key x) then groups.dropLast ++ [last ++ [x]]
    else groups ++ [[x]]

/-- The groups of neighbours with one key. -/
def groupBy (key : α → κ) (l : List α) : List (List α) := l.foldl (addTo key) []

/-- A group is not empty, and its elements have one key. -/
def IsGroup (key : α → κ) (g : List α) : Prop := g ≠ [] ∧ ∃ k, ∀ x ∈ g, key x = k

theorem flatten_addTo (key : α → κ) (groups : List (List α)) (x : α) :
    (addTo key groups x).flatten = groups.flatten ++ [x] := by
  unfold addTo
  cases h : groups.getLast? with
  | none => simp
  | some last =>
    have hsplit : groups = groups.dropLast ++ [last] := (dropLast_append_getLast? last h).symm
    dsimp only
    split_ifs
    · conv_rhs => rw [hsplit]
      simp
    · simp

variable {key : α → κ} {n : ℕ}

variable {groups : List (List α)}

theorem isGroup_addTo (hg : ∀ g ∈ groups, IsGroup key g) (x : α) : ∀ g ∈ addTo key groups x, IsGroup key g := by
  have hone : IsGroup key [x] := ⟨by simp, key x, by simp⟩
  have hnew : ∀ g ∈ groups ++ [[x]], IsGroup key g := by
    rw [forall_mem_append, forall_mem_singleton]
    exact ⟨hg, hone⟩
  unfold addTo
  cases h : groups.getLast? with
  | none => exact hnew
  | some last =>
    dsimp only
    split_ifs with hkey
    · rw [forall_mem_append, forall_mem_singleton]
      refine ⟨fun g hgm => hg g (dropLast_subset _ hgm), by simp, key x, fun y hy => ?_⟩
      obtain ⟨hne, k, hk⟩ := hg last (mem_of_getLast? h)
      obtain ⟨z, hz, hzx⟩ := Option.map_eq_some_iff.mp hkey
      rcases mem_append.mp hy with hy | hy
      · rw [hk y hy, ← hzx, hk z (mem_of_mem_head? hz)]
      · rw [mem_singleton.mp hy]
    · exact hnew

theorem groupBy_spec (key : α → κ) (l : List α) :
    (groupBy key l).flatten = l ∧ ∀ g ∈ groupBy key l, IsGroup key g := by
  have hfold : ∀ (l : List α) (groups : List (List α)), (∀ g ∈ groups, IsGroup key g) →
      (l.foldl (addTo key) groups).flatten = groups.flatten ++ l ∧
        ∀ g ∈ l.foldl (addTo key) groups, IsGroup key g := by
    intro l
    induction l with
    | nil => intro groups hg; exact ⟨by simp, hg⟩
    | cons x l ih =>
      intro groups hg
      obtain ⟨hflat, hgroup⟩ := ih (addTo key groups x) (isGroup_addTo hg x)
      refine ⟨?_, hgroup⟩
      rw [foldl_cons, hflat, flatten_addTo, append_assoc, singleton_append]
  obtain ⟨hflat, hgroup⟩ := hfold l [] (by simp)
  exact ⟨by rw [groupBy, hflat]; rfl, hgroup⟩

/-! ### Chunks -/

/-- The groups, joined `n` at a time. -/
def chunks (n : ℕ) (groups : List (List α)) : List (List α) :=
  (List.range ((groups.length + n - 1) / n)).map fun i => ((groups.drop (i * n)).take n).flatten

omit [DecidableEq κ] in
theorem flatten_take_chunks (n m : ℕ) (groups : List (List α)) :
    ((List.range m).map fun i => ((groups.drop (i * n)).take n).flatten).flatten =
      (groups.take (m * n)).flatten := by
  induction m with
  | zero => simp
  | succ m ih =>
    rw [range_succ, map_append, flatten_append, ih, Nat.succ_mul, take_add, flatten_append]
    simp

omit [DecidableEq κ] in
theorem flatten_chunks (hn : 0 < n) (groups : List (List α)) : (chunks n groups).flatten = groups.flatten := by
  have hlen : groups.length ≤ (groups.length + n - 1) / n * n := by
    have := Nat.div_add_mod (groups.length + n - 1) n
    have hmod := Nat.mod_lt (groups.length + n - 1) hn
    have hcomm := Nat.mul_comm n ((groups.length + n - 1) / n)
    omega
  rw [chunks, flatten_take_chunks, take_of_length_le hlen]

omit [DecidableEq κ] in
theorem mem_chunks (hn : 0 < n) {c : List α} (h : c ∈ chunks n groups) :
    ∃ part, c = part.flatten ∧ part ≠ [] ∧ part.length ≤ n ∧ ∀ g ∈ part, g ∈ groups := by
  obtain ⟨i, hi, rfl⟩ := mem_map.mp h
  refine ⟨_, rfl, ?_, length_take_le _ _, fun g hg => mem_of_mem_drop (mem_of_mem_take hg)⟩
  rw [mem_range] at hi
  have hlt : i * n < groups.length := by
    have := Nat.div_mul_le_self (groups.length + n - 1) n
    have hle : (i + 1) * n ≤ (groups.length + n - 1) / n * n := Nat.mul_le_mul_right n hi
    rw [Nat.succ_mul] at hle
    omega
  intro hnil
  have hlen := congrArg List.length hnil
  rw [length_take, length_drop, length_nil] at hlen
  omega

/-! ### The keys of a list -/

/-- The elements in the order in which they first appear are without repetition. -/
theorem nodup_eraseDups : ∀ l : List κ, l.eraseDups.Nodup
  | [] => by simp
  | a :: l => by
    rw [eraseDups_cons, nodup_cons]
    refine ⟨fun h => ?_, nodup_eraseDups _⟩
    simpa using (mem_filter.mp (mem_eraseDups.mp h)).2
  termination_by l => l.length
  decreasing_by exact Nat.lt_succ_of_le (length_filter_le _ _)

omit [DecidableEq κ] in
theorem getD_getLast?_cons (f : α → κ) (x : α) (d : κ) (l : List α) :
    ((x :: l).getLast?.map f).getD d = (l.getLast?.map f).getD (f x) := by
  cases l with
  | nil => rfl
  | cons y l =>
    rfl

/-! ### Stretches of equal elements -/

/-- The number of stretches of equal elements. -/
def runs : List κ → ℕ
  | [] => 0
  | [_] => 1
  | a :: b :: l => (if a = b then 0 else 1) + runs (b :: l)

theorem runs_cons_le (a : κ) (l : List κ) : runs (a :: l) ≤ 1 + runs l := by
  cases l with
  | nil => simp [runs]
  | cons b l => rw [runs]; split_ifs <;> omega

theorem runs_append_le : ∀ l l' : List κ, runs (l ++ l') ≤ runs l + runs l'
  | [], l' => by simp [runs]
  | [a], l' => by
    have := runs_cons_le a l'
    simpa [runs] using this
  | a :: b :: l, l' => by
    have ih := runs_append_le (b :: l) l'
    simp only [cons_append] at ih ⊢
    rw [runs, runs]
    omega

theorem runs_const {k : κ} : ∀ {l : List κ}, (∀ x ∈ l, x = k) → runs l ≤ 1
  | [], _ => by simp [runs]
  | [_], _ => by simp [runs]
  | a :: b :: l, h => by
    have hab : a = b := (h a (by simp)).trans (h b (by simp)).symm
    have ih := runs_const (l := b :: l) fun x hx => h x (mem_cons_of_mem _ hx)
    rw [runs, if_pos hab]
    omega

theorem runs_flatten_le : ∀ {part : List (List α)}, (∀ g ∈ part, IsGroup key g) →
    runs (part.flatten.map key) ≤ part.length
  | [], _ => by simp [runs]
  | g :: part, h => by
    obtain ⟨-, k, hk⟩ := h g mem_cons_self
    have hg : runs (g.map key) ≤ 1 := runs_const (k := k) fun x hx => by
      obtain ⟨y, hy, rfl⟩ := mem_map.mp hx
      exact hk y hy
    have ih := runs_flatten_le fun g hg => h g (mem_cons_of_mem _ hg)
    have happ := runs_append_le (g.map key) (part.flatten.map key)
    rw [flatten_cons, map_append, length_cons]
    omega

/-- **The keys of a chunk** are not more than its groups. -/
theorem length_eraseDups_chunk_le (hn : 0 < n) {l c : List α}
    (h : c ∈ chunks n (groupBy key l)) : ((c.map key).eraseDups).length ≤ n := by
  obtain ⟨part, rfl, -, hlen, hmem⟩ := mem_chunks hn h
  have hkeys : (part.flatten.map key).eraseDups ⊆ part.filterMap fun g => g.head?.map key := by
    intro k hk
    obtain ⟨x, hx, rfl⟩ := mem_map.mp (mem_eraseDups.mp hk)
    obtain ⟨g, hg, hxg⟩ := mem_flatten.mp hx
    obtain ⟨hne, k, hsame⟩ := (groupBy_spec key l).2 g (hmem g hg)
    obtain ⟨y, rest, rfl⟩ := exists_cons_of_ne_nil hne
    refine mem_filterMap.mpr ⟨_, hg, ?_⟩
    rw [head?_cons, Option.map_some, hsame y mem_cons_self, hsame x hxg]
  calc ((part.flatten.map key).eraseDups).length
      ≤ (part.filterMap fun g => g.head?.map key).length :=
        (subperm_of_subset (nodup_eraseDups _) hkeys).length_le
    _ ≤ part.length := length_filterMap_le _ _
    _ ≤ n := hlen

/-- **Chunks of groups.** Nothing is lost, no chunk is empty, and none has more than `n` stretches. -/
theorem flatten_chunks_groupBy (hn : 0 < n) (key : α → κ) (l : List α) :
    (chunks n (groupBy key l)).flatten = l := by
  rw [flatten_chunks hn, (groupBy_spec key l).1]

theorem chunk_ne_nil (hn : 0 < n) {l c : List α} (h : c ∈ chunks n (groupBy key l)) : c ≠ [] := by
  obtain ⟨part, rfl, hne, -, hmem⟩ := mem_chunks hn h
  obtain ⟨g, hg⟩ := exists_mem_of_ne_nil part hne
  obtain ⟨x, hx⟩ := exists_mem_of_ne_nil g ((groupBy_spec key l).2 g (hmem g hg)).1
  exact ne_nil_of_mem (mem_flatten.mpr ⟨g, hg, hx⟩)

theorem runs_chunk_le (hn : 0 < n) {l c : List α}
    (h : c ∈ chunks n (groupBy key l)) : runs (c.map key) ≤ n := by
  obtain ⟨part, rfl, -, hlen, hmem⟩ := mem_chunks hn h
  have := runs_flatten_le fun g hg => (groupBy_spec key l).2 g (hmem g hg)
  omega

/-! ### Tilings -/

/-- The intervals cover `(a, b]` one after the other. -/
def Tiles : ℕ → List (ℕ × ℕ) → ℕ → Prop
  | a, [], b => a = b
  | a, i :: is, b => i.1 = a + 1 ∧ i.1 ≤ i.2 ∧ Tiles i.2 is b

namespace Tiles

theorem le : ∀ {is : List (ℕ × ℕ)} {a b : ℕ}, Tiles a is b → a ≤ b
  | [], _, _, h => Nat.le_of_eq h
  | i :: is, a, b, ⟨h1, h2, h⟩ => by have := le h; omega

theorem append : ∀ {is js : List (ℕ × ℕ)} {a b c : ℕ}, Tiles a is b → Tiles b js c → Tiles a (is ++ js) c
  | [], _, _, _, _, h, h' => by cases h; exact h'
  | _ :: _, _, _, _, _, ⟨h1, h2, h⟩, h' => ⟨h1, h2, append h h'⟩

theorem bounds : ∀ {is : List (ℕ × ℕ)} {a b : ℕ}, Tiles a is b → ∀ i ∈ is, a < i.1 ∧ i.1 ≤ i.2 ∧ i.2 ≤ b
  | i :: is, a, b, ⟨h1, h2, h⟩, j, hj => by
    rcases mem_cons.mp hj with rfl | hj
    · have := le h; omega
    · have := bounds h j hj; omega

/-- Every number of the stretch is in an interval. -/
theorem exists_mem : ∀ {is : List (ℕ × ℕ)} {a b : ℕ}, Tiles a is b → ∀ x, a < x → x ≤ b →
    ∃ i ∈ is, i.1 ≤ x ∧ x ≤ i.2
  | [], a, b, h, x, hax, hxb => by cases h; omega
  | i :: is, a, b, ⟨h1, h2, h⟩, x, hax, hxb => by
    by_cases hx : x ≤ i.2
    · exact ⟨i, mem_cons_self, by omega, hx⟩
    · obtain ⟨j, hj, hjx⟩ := exists_mem h x (by omega) hxb
      exact ⟨j, mem_cons_of_mem _ hj, hjx⟩

/-- The intervals come one after the other. -/
theorem pairwise : ∀ {is : List (ℕ × ℕ)} {a b : ℕ}, Tiles a is b → is.Pairwise fun i j => i.2 < j.1
  | [], _, _, _ => .nil
  | _ :: _, _, _, ⟨_, _, h⟩ => .cons (fun j hj => (bounds h j hj).1) (pairwise h)

end Tiles

/-- The first and the last number. -/
def ends (l : List ℕ) : ℕ × ℕ := (l.head?.getD 0, l.getLast?.getD 0)

/-- A part of a stretch of numbers is a stretch. -/
theorem append_eq_range' {l l' : List ℕ} {a k : ℕ} (h : l ++ l' = List.range' a k) :
    l = List.range' a l.length ∧ l' = List.range' (a + l.length) (k - l.length) := by
  have hlen : l.length + l'.length = k := by
    simpa using congrArg List.length h
  have hsplit : List.range' a k = List.range' a l.length ++ List.range' (a + l.length) (k - l.length) := by
    rw [range'_append_1]
    congr 1
    omega
  exact append_inj (h.trans hsplit) (by simp)

theorem ends_range' {a k : ℕ} (hk : 0 < k) : ends (List.range' a k) = (a, a + k - 1) := by
  cases k with
  | zero => omega
  | succ k =>
    unfold ends
    rw [getLast?_range', range'_succ]
    simp

/-- **Blocks tile.** The ends of the blocks of a stretch of numbers tile it. -/
theorem tiles_of_flatten : ∀ {blocks : List (List ℕ)} {a k : ℕ}, (∀ b ∈ blocks, b ≠ []) →
    blocks.flatten = List.range' (a + 1) k → Tiles a (blocks.map ends) (a + k)
  | [], a, k, _, h => by
    have : k = 0 := by simpa using (congrArg List.length h).symm
    subst this
    rfl
  | b :: blocks, a, k, hne, h => by
    rw [flatten_cons] at h
    have hlen : b.length ≤ k := by
      have := congrArg List.length h
      rw [length_append, length_range'] at this
      omega
    have hpos : 0 < b.length := length_pos_iff.mpr (hne b mem_cons_self)
    obtain ⟨hb, hrest⟩ := append_eq_range' h
    have hends : ends b = (a + 1, a + b.length) := by
      rw [hb, ends_range' (by simpa using hpos), length_range']
      exact Prod.ext rfl (by dsimp only; omega)
    have hrest' : blocks.flatten = List.range' (a + b.length + 1) (k - b.length) := by
      rw [hrest]
      congr 1
      omega
    have ih := tiles_of_flatten (fun b hb => hne b (mem_cons_of_mem _ hb)) hrest'
    rw [show a + b.length + (k - b.length) = a + k by omega] at ih
    rw [map_cons, hends]
    exact ⟨rfl, by dsimp only; omega, ih⟩

/-- Two members of a list in order. -/
theorem pairwise_or {R : α → α → Prop} {l : List α} (h : l.Pairwise R) {a b : α} (ha : a ∈ l)
    (hb : b ∈ l) (hne : a ≠ b) : R a b ∨ R b a := by
  have : Std.Symm fun a b => R a b ∨ R b a := ⟨fun _ _ => Or.symm⟩
  exact (h.imp Or.inl : l.Pairwise fun a b => R a b ∨ R b a).forall ha hb hne

/-! ### A list numbered from one -/

section
variable {f : α → ℕ}

theorem filter_middle {p : α → Bool} {l m r : List α} (hl : ∀ x ∈ l, p x = false)
    (hm : ∀ x ∈ m, p x = true) (hr : ∀ x ∈ r, p x = false) : (l ++ m ++ r).filter p = m := by
  rw [filter_append, filter_append, filter_eq_nil_iff.mpr (by simpa using hl),
    filter_eq_self.mpr hm, filter_eq_nil_iff.mpr (by simpa using hr), nil_append,
    append_nil]

theorem numbers_parts {l m r : List α} {a k : ℕ} (h : (l ++ m ++ r).map f = List.range' a k) :
    (∀ x ∈ l, f x < a + l.length) ∧ m.map f = List.range' (a + l.length) m.length ∧
      ∀ x ∈ r, a + l.length + m.length ≤ f x := by
  rw [append_assoc, map_append] at h
  obtain ⟨hl, hrest⟩ := append_eq_range' h
  rw [length_map] at hl hrest
  rw [map_append] at hrest
  obtain ⟨hm, hr⟩ := append_eq_range' hrest
  rw [length_map] at hm hr
  refine ⟨fun x hx => ?_, hm, fun x hx => ?_⟩
  · have := hl ▸ mem_map_of_mem (f := f) hx
    rw [mem_range'_1] at this
    exact this.2
  · have := hr ▸ mem_map_of_mem (f := f) hx
    rw [mem_range'_1] at this
    exact this.1

/-- A part of a numbered list is what lies between its ends. -/
theorem filter_ends {l m r : List α} {a k : ℕ} (hne : m ≠ [])
    (h : (l ++ m ++ r).map f = List.range' a k) :
    (l ++ m ++ r).filter (fun x => decide ((ends (m.map f)).1 ≤ f x) &&
      decide (f x ≤ (ends (m.map f)).2)) = m := by
  obtain ⟨hl, hm, hr⟩ := numbers_parts h
  have hpos : 0 < m.length := length_pos_iff.mpr hne
  rw [hm, ends_range' hpos]
  refine filter_middle (fun x hx => ?_) (fun x hx => ?_) fun x hx => ?_
  · have := hl x hx
    simp only [and_eq_false_iff, decide_eq_false_iff_not]
    omega
  · have := hm ▸ mem_map_of_mem (f := f) hx
    rw [mem_range'_1] at this
    simp only [and_eq_true, decide_eq_true_eq]
    omega
  · have := hr x hx
    simp only [and_eq_false_iff, decide_eq_false_iff_not]
    omega

theorem filter_between {l : List α} {c e : ℕ} (h : l.map f = List.range' 1 n) (hce : c ≤ e)
    (hen : e ≤ n) :
    ∃ m, l.filter (fun x => decide (c < f x) && decide (f x ≤ e)) = m ∧
      m.map f = List.range' (c + 1) (e - c) ∧ l = l.take c ++ m ++ l.drop e := by
  have hlen : l.length = n := by simpa using congrArg List.length h
  have hsplit : l = l.take c ++ (l.drop c).take (e - c) ++ l.drop e := by
    conv_lhs => rw [← take_append_drop c l, ← take_append_drop (e - c) (l.drop c)]
    rw [drop_drop, append_assoc, show c + (e - c) = e by omega]
  have hlc : (l.take c).length = c := by rw [length_take]; omega
  have hlm : ((l.drop c).take (e - c)).length = e - c := by
    rw [length_take, length_drop]; omega
  rw [hsplit] at h
  obtain ⟨hl, hm, hr⟩ := numbers_parts h
  rw [hlc] at hl hm hr
  rw [hlm] at hm hr
  refine ⟨(l.drop c).take (e - c), ?_, by rw [hm, Nat.add_comm], hsplit⟩
  conv_lhs => rw [hsplit]
  refine filter_middle (fun x hx => ?_) (fun x hx => ?_) fun x hx => ?_
  · have := hl x hx
    simp only [and_eq_false_iff, decide_eq_false_iff_not]
    omega
  · have := hm ▸ mem_map_of_mem (f := f) hx
    rw [mem_range'_1] at this
    simp only [and_eq_true, decide_eq_true_eq]
    omega
  · have := hr x hx
    simp only [and_eq_false_iff, decide_eq_false_iff_not]
    omega

end

end Memmy.Lib.Blocks
