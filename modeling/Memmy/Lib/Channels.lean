import Mathlib.Data.List.Induction
import Mathlib.Data.List.Nodup
import Mathlib.Data.List.ReduceOption

/-! # Events of several channels in one stream

A stream of events, each of them of a channel, in any interleaving. `channel k` is what one channel
carries.

* `foldl_upsert`: buffers that are kept by channel hold, at the end, what the events of each channel make
  of an empty buffer, and they stand in the order in which the channels were opened.
* `values_eq`: an array with holes that is written at the indices of the channels holds the values of the
  channels in the order of the indices. -/

namespace Memmy.Lib.Channels

open List Option

variable {κ ε β γ : Type*} [DecidableEq κ]

/-! ### One channel -/

/-- The events of the channel `k`, in order. -/
def channel (k : κ) (l : List (κ × ε)) : List ε := (l.filter (·.1 = k)).map (·.2)

theorem channel_append (k : κ) (l m : List (κ × ε)) : channel k (l ++ m) = channel k l ++ channel k m := by
  unfold channel
  rw [filter_append, map_append]

theorem channel_snoc_self (k : κ) (l : List (κ × ε)) (x : ε) :
    channel k (l ++ [(k, x)]) = channel k l ++ [x] := by
  simp [channel]

variable {l : List (κ × ε)} {k : κ} {n : ℕ}

theorem channel_snoc_ne {k' : κ} (h : k' ≠ k) (l : List (κ × ε)) (x : ε) :
    channel k (l ++ [(k', x)]) = channel k l := by
  simp [channel, h]

/-- The channels in the order of their first events. -/
def opened (l : List (κ × ε)) : List κ := l.foldl (fun ks e => if e.1 ∈ ks then ks else ks ++ [e.1]) []

theorem opened_snoc (l : List (κ × ε)) (e : κ × ε) :
    opened (l ++ [e]) = if e.1 ∈ opened l then opened l else opened l ++ [e.1] := by
  unfold opened
  rw [foldl_append]
  rfl

theorem mem_opened : k ∈ opened l ↔ k ∈ l.map (·.1) := by
  induction l using List.reverseRecOn with
  | nil => rfl
  | append_singleton l e ih =>
    rw [opened_snoc, map_append, mem_append, ← ih, map_singleton, mem_singleton]
    by_cases he : e.1 ∈ opened l
    · rw [if_pos he]
      exact ⟨Or.inl, fun h => h.elim id fun hk => by rwa [hk]⟩
    · rw [if_neg he, mem_append, mem_singleton]

theorem nodup_opened (l : List (κ × ε)) : (opened l).Nodup := by
  induction l using List.reverseRecOn with
  | nil => exact nodup_nil
  | append_singleton l e ih =>
    rw [opened_snoc]
    by_cases he : e.1 ∈ opened l
    · rwa [if_pos he]
    · rw [if_neg he]
      refine nodup_append.mpr ⟨ih, nodup_singleton _, fun a ha b hb hab => he ?_⟩
      rw [← mem_singleton.mp hb, ← hab]
      exact ha

theorem channel_eq_nil_iff : channel k l = [] ↔ k ∉ opened l := by
  rw [mem_opened]
  unfold channel
  rw [map_eq_nil_iff, filter_eq_nil_iff]
  constructor
  · intro h hk
    obtain ⟨e, he, rfl⟩ := mem_map.mp hk
    exact h e he (decide_eq_true rfl)
  · intro h e he hek
    exact h (mem_map.mpr ⟨e, he, of_decide_eq_true hek⟩)

/-! ### Channels under other keys -/

section

variable {κ' : Type*} [DecidableEq κ']

/-- The events that have a key of another kind, under these keys. -/
def rekey (g : κ × ε → Option κ') (l : List (κ × ε)) : List (κ' × ε) :=
  l.filterMap fun e => (g e).map fun k => (k, e.2)

omit [DecidableEq κ] [DecidableEq κ'] in
theorem rekey_snoc (g : κ × ε → Option κ') (l : List (κ × ε)) (e : κ × ε) :
    rekey g (l ++ [e]) = rekey g l ++ ((g e).map fun k => (k, e.2)).toList := by
  unfold rekey
  rw [filterMap_append, filterMap_cons]
  cases g e <;> rfl

variable {g : κ × ε → Option κ'} {key : κ → Option κ'}

theorem channel_rekey {k' : κ'} (hk : key k = some k') : ∀ {l : List (κ × ε)},
    (∀ e ∈ l, g e = key e.1) → (∀ e ∈ l, key e.1 = some k' → e.1 = k) →
    channel k' (rekey g l) = channel k l
  | [], _, _ => rfl
  | e :: l, hg, hinj => by
    obtain ⟨hge, hg⟩ := forall_mem_cons.mp hg
    obtain ⟨hinje, hinj⟩ := forall_mem_cons.mp hinj
    have ih := channel_rekey hk hg hinj
    unfold rekey channel at ih ⊢
    by_cases hek : e.1 = k
    · have hsome : g e = some k' := by rw [hge, hek, hk]
      rw [filterMap_cons, hsome, map_some]
      simp only [decide_true, filter_cons_of_pos, map_cons, hek, ih]
    · rw [filter_cons_of_neg (by simpa using hek), filterMap_cons]
      cases hsome : g e with
      | none => exact ih
      | some k'' =>
        have hne : k'' ≠ k' := fun he => hek (hinje (by rw [← hge, hsome, he]))
        rw [map_some, filter_cons_of_neg (by simpa using hne)]
        exact ih

theorem opened_rekey (hg : ∀ e ∈ l, g e = key e.1)
    (hinj : ∀ e ∈ l, ∀ e' ∈ l, ∀ k', key e.1 = some k' → key e'.1 = some k' → e.1 = e'.1) :
    opened (rekey g l) = (opened l).filterMap key := by
  induction l using List.reverseRecOn with
  | nil => rfl
  | append_singleton l e ih =>
    have hl : ∀ x ∈ l, x ∈ l ++ [e] := fun x hx => mem_append_left _ hx
    have he : e ∈ l ++ [e] := mem_append_right _ (mem_singleton_self e)
    have ih := ih (fun x hx => hg x (hl x hx)) fun x hx y hy => hinj x (hl x hx) y (hl y hy)
    rw [rekey_snoc, opened_snoc, hg e he]
    cases hkey : key e.1 with
    | none =>
      rw [map_none, toList_none, append_nil, ih]
      by_cases hmem : e.1 ∈ opened l
      · rw [if_pos hmem]
      · rw [if_neg hmem, filterMap_append, filterMap_cons_none hkey]
        exact (append_nil _).symm
    | some k' =>
      have hiff : k' ∈ opened (rekey g l) ↔ e.1 ∈ opened l := by
        rw [ih, mem_filterMap]
        constructor
        · rintro ⟨k, hk, hkk⟩
          obtain ⟨x, hx, rfl⟩ := mem_map.mp (mem_opened.mp hk)
          rwa [← hinj x (hl x hx) e he k' hkk hkey]
        · exact fun hk => ⟨e.1, hk, hkey⟩
      rw [map_some, toList_some, opened_snoc]
      by_cases hmem : e.1 ∈ opened l
      · rw [if_pos hmem, if_pos (hiff.mpr hmem), ih]
      · rw [if_neg hmem, if_neg fun h => hmem (hiff.mp h), ih, filterMap_append, filterMap_cons_some hkey]
        rfl

end

theorem opened_eq_range {l : List (ℕ × ε)} (hsorted : (opened l).Pairwise (· < ·))
    (h : ∀ i, channel i l ≠ [] ↔ i < n) : opened l = List.range n := by
  have hmem : ∀ i, i ∈ opened l ↔ i ∈ List.range n := by
    intro i
    rw [mem_range, ← h i, Ne, channel_eq_nil_iff, not_not]
  have hperm := (perm_ext_iff_of_nodup (nodup_opened l) nodup_range).mpr hmem
  exact hperm.eq_of_pairwise (fun a b _ _ hab hba => absurd hab (Nat.lt_asymm hba)) hsorted
    pairwise_lt_range

/-! ### Channels in order -/

theorem filter_lt_append : ∀ {l : List (ℕ × ε)}, l.Pairwise (·.1 ≤ ·.1) →
    (∀ e ∈ l, e.1 < n + 1) → l = l.filter (·.1 < n) ++ l.filter (·.1 = n)
  | [], _, _ => rfl
  | e :: l, hsorted, hlt => by
    obtain ⟨hle, hsorted⟩ := pairwise_cons.mp hsorted
    obtain ⟨he, hlt⟩ := forall_mem_cons.mp hlt
    have ih := filter_lt_append hsorted hlt
    by_cases hn : e.1 < n
    · rw [filter_cons_of_pos (by simpa using hn), filter_cons_of_neg (by simp; omega), cons_append, ← ih]
    · have hlast : l.filter (·.1 < n) = [] := by
        refine filter_eq_nil_iff.mpr fun x hx => ?_
        have hx' := hle x hx
        simp only [decide_eq_true_eq]
        omega
      rw [filter_cons_of_neg (by simpa using hn), filter_cons_of_pos (by simp; omega), hlast]
      rw [hlast, nil_append] at ih
      rw [nil_append, ← ih]

theorem channel_filter_lt {k : ℕ} (h : k < n) (l : List (ℕ × ε)) :
    channel k (l.filter (·.1 < n)) = channel k l := by
  unfold channel
  rw [List.filter_filter]
  refine congrArg (List.map _) (filter_congr fun e _ => ?_)
  by_cases he : e.1 = k
  · simp [he, h]
  · simp [he]

theorem map_snd_eq_flatMap : ∀ (n : ℕ) {l : List (ℕ × ε)}, l.Pairwise (·.1 ≤ ·.1) →
    (∀ e ∈ l, e.1 < n) → l.map (·.2) = (List.range n).flatMap (channel · l)
  | 0, l, _, hlt => by
    rw [eq_nil_iff_forall_not_mem.mpr fun e he => absurd (hlt e he) (Nat.not_lt_zero _)]
    rfl
  | n + 1, l, hsorted, hlt => by
    have hbelow : (l.filter (·.1 < n)).map (·.2) = (List.range n).flatMap (channel · l) := by
      rw [map_snd_eq_flatMap n (hsorted.filter _) fun e he => by
        simpa using (mem_filter.mp he).2]
      exact flatMap_congr fun k hk => channel_filter_lt (mem_range.mp hk) l
    conv_lhs => rw [filter_lt_append hsorted hlt]
    rw [map_append, hbelow, range_succ, flatMap_append, flatMap_singleton]
    rfl

/-! ### Buffers by channel -/

/-- The buffer of `k` is changed by `f`; a new one, made of `start`, is put at the end. -/
def upsert (start : β) (f : β → β) (k : κ) : List (κ × β) → List (κ × β)
  | [] => [(k, f start)]
  | e :: m => if e.1 = k then (k, f e.2) :: m else e :: upsert start f k m

theorem upsert_map {start : β} {f : β → β} {ks : List κ} {g : κ → β} (h : ks.Nodup)
    (hstart : k ∉ ks → g k = start) :
    upsert start f k (ks.map fun k => (k, g k)) =
      (if k ∈ ks then ks else ks ++ [k]).map fun k' => (k', if k' = k then f (g k) else g k') := by
  induction ks with
  | nil =>
    rw [if_neg not_mem_nil, hstart not_mem_nil]
    simp [upsert]
  | cons a ks ih =>
    obtain ⟨ha, hks⟩ := nodup_cons.mp h
    rw [map_cons, upsert]
    by_cases hak : a = k
    · subst hak
      rw [if_pos rfl, if_pos mem_cons_self, map_cons, if_pos rfl]
      refine congrArg _ (map_congr_left fun k' hk' => ?_)
      rw [if_neg fun he : k' = a => ha (he ▸ hk')]
    · have hmem : k ∈ a :: ks ↔ k ∈ ks :=
        ⟨fun h => (mem_cons.mp h).resolve_left fun he => hak he.symm, mem_cons_of_mem _⟩
      rw [if_neg hak, ih hks fun hk => hstart fun h => hk (hmem.mp h)]
      by_cases hk : k ∈ ks
      · rw [if_pos hk, if_pos (hmem.mpr hk), map_cons, if_neg hak]
      · rw [if_neg hk, if_neg fun h => hk (hmem.mp h), cons_append, map_cons, if_neg hak]

/-- **The buffers at the end:** each channel's events folded by themselves, in the order in which the
channels were opened. -/
theorem foldl_upsert (start : κ → β) (f : β → ε → β) (l : List (κ × ε)) :
    l.foldl (fun m e => upsert (start e.1) (f · e.2) e.1 m) [] =
      (opened l).map fun k => (k, (channel k l).foldl f (start k)) := by
  induction l using List.reverseRecOn with
  | nil => rfl
  | append_singleton l e ih =>
    have hstart : e.1 ∉ opened l → (channel e.1 l).foldl f (start e.1) = start e.1 := by
      intro h
      rw [channel_eq_nil_iff.mpr h]
      rfl
    rw [foldl_append, ih, opened_snoc]
    change upsert (start e.1) (f · e.2) e.1 _ = _
    rw [upsert_map (nodup_opened l) hstart]
    refine map_congr_left fun k _ => ?_
    by_cases hk : k = e.1
    · subst hk
      rw [if_pos rfl, channel_snoc_self, foldl_append]
      rfl
    · rw [if_neg hk, channel_snoc_ne (Ne.symm hk)]

/-! ### An array with holes -/

/-- `array[i]` -/
def get (l : List (Option β)) (i : ℕ) : Option β := l[i]?.join

/-- `array[i] = b`: the array grows, with holes. -/
def put (b : β) : ℕ → List (Option β) → List (Option β)
  | 0, [] => [some b]
  | 0, _ :: l => some b :: l
  | i + 1, [] => none :: put b i []
  | i + 1, o :: l => o :: put b i l

theorem get_put (b : β) : ∀ (i j : ℕ) (l : List (Option β)),
    get (put b i l) j = if j = i then some b else get l j
  | 0, 0, [] => rfl
  | 0, j + 1, [] => by simp [get, put]
  | 0, 0, _ :: _ => rfl
  | 0, j + 1, _ :: _ => by simp [get, put]
  | i + 1, 0, [] => by simp [get, put]
  | i + 1, j + 1, [] => by
    have ih := get_put b i j []
    simp only [get, put, getElem?_cons_succ, Nat.add_right_cancel_iff, getElem?_nil] at ih ⊢
    exact ih
  | i + 1, 0, o :: l => by simp [get, put]
  | i + 1, j + 1, o :: l => by
    have ih := get_put b i j l
    simp only [get, put, getElem?_cons_succ, Nat.add_right_cancel_iff] at ih ⊢
    exact ih

theorem get_of_length_le {l : List (Option β)} {i : ℕ} (h : l.length ≤ i) : get l i = none := by
  unfold get
  rw [getElem?_eq_none h]
  rfl

theorem get_map_range {f : ℕ → Option β} (h : ∀ i, n ≤ i → f i = none) (i : ℕ) :
    get ((List.range n).map f) i = f i := by
  by_cases hi : i < n
  · simp [get, hi]
  · rw [get_of_length_le (by simpa using hi), h i (Nat.le_of_not_lt hi)]

theorem get_map (f : β → γ) (l : List (Option β)) (i : ℕ) : get (l.map (Option.map f)) i = (get l i).map f := by
  unfold get
  rw [getElem?_map]
  cases l[i]? with
  | none => rfl
  | some o => cases o <;> rfl

/-- `array.filter(Boolean)` -/
abbrev values (l : List (Option β)) : List β := l.reduceOption

/-- **The values stand in the order of the indices.** -/
theorem values_eq {f : γ → Option β} : ∀ {l : List (Option β)} {blocks : List γ},
    (∀ i, get l i = blocks[i]?.bind f) → values l = blocks.filterMap f
  | [], [], _ => rfl
  | [], b :: blocks, h => by
    have hb : f b = none := (h 0).symm
    have ih : values ([] : List (Option β)) = blocks.filterMap f := values_eq fun i => h (i + 1)
    rw [filterMap_cons_none hb, ← ih]
  | o :: l, [], h => by
    have ho : o = none := h 0
    have ih : values l = ([] : List γ).filterMap f := values_eq fun i => h (i + 1)
    rw [ho]
    change values l = _
    rw [ih]
  | o :: l, b :: blocks, h => by
    have ho : o = f b := h 0
    have ih : values l = blocks.filterMap f := values_eq fun i => h (i + 1)
    rw [ho, filterMap_cons]
    cases hb : f b with
    | none => exact ih
    | some x => exact congrArg (x :: ·) ih

end Memmy.Lib.Channels
