import Mathlib.Data.List.Basic
import Mathlib.Data.List.Nodup

/-! # Tables of rows

A table is the list of its rows in the order of insertion. `update p f` is
`UPDATE ... SET f WHERE p`. An operation that inserts nothing maps every row; what it can do to a row
is a relation, and `Changed R` says that a table came out of another one by such a step.

* `changed_update`: an update is one.
* `Changed.trans`: so are two of them.
* `mem_of_key_mem`: a row is one of the selected rows if its key is one of theirs.
* `find?_update`: the row of a key after an update.
* `foldl_put`: rows written over one after the other. -/

namespace Memmy.Lib.Rows

open List Function

variable {ρ κ : Type*}

/-- `UPDATE ... SET f WHERE p`. -/
def update (p : ρ → Bool) (f : ρ → ρ) (rows : List ρ) : List ρ := rows.map fun r => if p r then f r else r

/-- Every row is in its place, and `R` holds of what it was and is. -/
def Changed (R : ρ → ρ → Prop) (rows rows' : List ρ) : Prop := List.Forall₂ R rows rows'

section
variable {R S : ρ → ρ → Prop} {p : ρ → Bool} {f : ρ → ρ} {rows rows' : List ρ}

theorem changed_map {g : ρ → ρ} (h : ∀ r ∈ rows, R r (g r)) : Changed R rows (rows.map g) := by
  unfold Changed
  rw [List.forall₂_map_right_iff, List.forall₂_same]
  exact h

theorem changed_update (hf : ∀ r ∈ rows, p r = true → R r (f r))
    (hself : ∀ r ∈ rows, p r = false → R r r) : Changed R rows (update p f rows) := by
  refine changed_map fun r hr => ?_
  cases hp : p r with
  | true => rw [if_pos rfl]; exact hf r hr hp
  | false => rw [if_neg (by simp)]; exact hself r hr hp

theorem Changed.refl (h : ∀ r ∈ rows, R r r) : Changed R rows rows := by
  unfold Changed
  rw [List.forall₂_same]
  exact h

theorem Changed.imp (h : Changed R rows rows') (hRS : ∀ r r', R r r' → S r r') :
    Changed S rows rows' :=
  List.Forall₂.imp hRS h

theorem Changed.trans (hR : ∀ a b c, R a b → R b c → R a c) {rows'' : List ρ}
    (h : Changed R rows rows') (h' : Changed R rows' rows'') : Changed R rows rows'' := by
  induction h generalizing rows'' with
  | nil => cases h'; exact .nil
  | cons hab _ ih =>
    cases h' with
    | cons hbc htail => exact .cons (hR _ _ _ hab hbc) (ih htail)

/-- Every row comes from one. -/
theorem Changed.exists_old (h : Changed R rows rows') : ∀ r' ∈ rows', ∃ r ∈ rows, R r r' := by
  induction h with
  | nil => intro r' hr'; cases hr'
  | cons hab _ ih =>
    intro r' hr'
    rcases mem_cons.mp hr' with rfl | hr'
    · exact ⟨_, mem_cons_self, hab⟩
    · obtain ⟨r, hr, hrr⟩ := ih r' hr'
      exact ⟨r, mem_cons_of_mem _ hr, hrr⟩

/-- Every row becomes one. -/
theorem Changed.exists_new (h : Changed R rows rows') : ∀ r ∈ rows, ∃ r' ∈ rows', R r r' :=
  Changed.exists_old (R := flip R) (List.Forall₂.flip h)

/-- What a row keeps, the table keeps. -/
theorem Changed.map_eq {g : ρ → κ} (hg : ∀ r r', R r r' → g r' = g r) (h : Changed R rows rows') :
    rows'.map g = rows.map g := by
  induction h with
  | nil => rfl
  | cons hab _ ih => rw [map_cons, map_cons, hg _ _ hab, ih]

theorem Changed.pairwise {Q : ρ → ρ → Prop}
    (hQ : ∀ a ∈ rows, ∀ b ∈ rows, ∀ a' b', Q a b → R a a' → R b b' → Q a' b')
    (h : Changed R rows rows') (hp : rows.Pairwise Q) : rows'.Pairwise Q := by
  induction h with
  | nil => exact .nil
  | @cons a a' l l' hab htail ih =>
    rw [pairwise_cons] at hp ⊢
    refine ⟨fun b' hb' => ?_, ih (fun x hx y hy => hQ x (mem_cons_of_mem _ hx) y
      (mem_cons_of_mem _ hy)) hp.2⟩
    obtain ⟨b, hb, hbb⟩ := Changed.exists_old htail b' hb'
    exact hQ a mem_cons_self b (mem_cons_of_mem _ hb) a' b' (hp.1 b hb) hab hbb

end

variable {rows : List ρ} {p : ρ → Bool} {k : ρ → κ} {f : ρ → ρ}

theorem mem_update {r' : ρ} (h : r' ∈ update p f rows) :
    ∃ r ∈ rows, p r = true ∧ r' = f r ∨ p r = false ∧ r' = r := by
  obtain ⟨r, hr, rfl⟩ := mem_map.mp h
  cases hp : p r with
  | true => exact ⟨r, hr, Or.inl ⟨hp, if_pos rfl⟩⟩
  | false => exact ⟨r, hr, Or.inr ⟨hp, if_neg (by simp)⟩⟩

theorem update_eq_self (h : ∀ r ∈ rows, p r = false) : update p f rows = rows := by
  conv_rhs => rw [← map_id rows]
  exact map_congr_left fun r hr => by rw [h r hr]; rfl

theorem map_update {g : ρ → κ} (hg : ∀ r, g (f r) = g r)
    (rows : List ρ) : (update p f rows).map g = rows.map g := by
  unfold update
  rw [map_map]
  refine map_congr_left fun r _ => ?_
  by_cases hp : p r = true
  · rw [comp_apply, if_pos hp, hg]
  · rw [comp_apply, if_neg hp]

/-! ### Keys -/

/-- Writing new rows over some of the rows, one after the other. -/
theorem foldl_put [DecidableEq κ] [DecidableEq ρ] {g : ρ → ρ} (hg : ∀ r, k (g r) = k r) :
    ∀ {sel rows : List ρ}, (rows.map k).Nodup → (sel.map k).Nodup → (∀ s ∈ sel, s ∈ rows) →
      sel.foldl (fun rows s => update (fun r => k r = k s) (fun _ => g s) rows) rows =
        rows.map fun r => if r ∈ sel then g r else r
  | [], rows, _, _, _ => by simp
  | s :: sel, rows, hn, hsel, hmem => by
    rw [map_cons, nodup_cons] at hsel
    rw [forall_mem_cons] at hmem
    have hwrite : update (fun r => k r = k s) (fun _ => g s) rows =
        rows.map fun r => if r = s then g r else r := by
      refine map_congr_left fun r hr => ?_
      by_cases hrs : r = s
      · rw [if_pos hrs, hrs, if_pos (by simp)]
      · rw [if_neg hrs, if_neg]
        simpa using fun hk => hrs (inj_on_of_nodup_map hn hr hmem.1 hk)
    have hkeys : (rows.map fun r => if r = s then g r else r).map k = rows.map k := by
      rw [map_map]
      refine map_congr_left fun r _ => ?_
      by_cases hrs : r = s
      · rw [comp_apply, if_pos hrs, hg]
      · rw [comp_apply, if_neg hrs]
    have hother : ∀ t ∈ sel, t ≠ s := fun t ht he => hsel.1 (he ▸ mem_map_of_mem ht)
    rw [foldl_cons, hwrite, foldl_put hg (hkeys ▸ hn) hsel.2 fun t ht =>
      mem_map.mpr ⟨t, hmem.2 t ht, if_neg (hother t ht)⟩, map_map]
    refine map_congr_left fun r hr => ?_
    rw [comp_apply]
    by_cases hrs : r = s
    · have hnot : g s ∉ sel := fun hin => hsel.1 (hg s ▸ mem_map_of_mem hin)
      rw [hrs, if_pos rfl, if_neg hnot, if_pos mem_cons_self]
    · rw [if_neg hrs]
      by_cases hin : r ∈ sel
      · rw [if_pos hin, if_pos (mem_cons_of_mem _ hin)]
      · rw [if_neg hin, if_neg (by simp [hrs, hin])]

theorem mem_of_key_mem {sel : List ρ} (hn : (rows.map k).Nodup)
    (hsel : ∀ s ∈ sel, s ∈ rows) {r : ρ} (hr : r ∈ rows) (hk : k r ∈ sel.map k) : r ∈ sel := by
  obtain ⟨s, hs, he⟩ := mem_map.mp hk
  have : s = r := inj_on_of_nodup_map hn (hsel s hs) hr he
  rwa [← this]

theorem eq_of_key_eq (hn : (rows.map k).Nodup) {r s : ρ}
    (hr : r ∈ rows) (hs : s ∈ rows) (h : k r = k s) : r = s :=
  inj_on_of_nodup_map hn hr hs h

theorem find?_update {q : ρ → Bool} (hq : ∀ r, q (f r) = q r) (rows : List ρ) :
    (update p f rows).find? q = (rows.find? q).map fun r => if p r then f r else r := by
  unfold update
  rw [find?_map]
  congr 2
  funext r
  by_cases hp : p r = true
  · simp only [comp_apply, if_pos hp, hq]
  · simp only [comp_apply, if_neg hp]

end Memmy.Lib.Rows
