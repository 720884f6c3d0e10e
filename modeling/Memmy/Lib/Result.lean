import Mathlib.Data.List.Perm.Basic

/-! # Computations that throw

A function that may throw returns an `Except`. `throwIf c e` is `if (c) throw e`; the lemmas say when
a sequence returns, so that a proof takes a computation apart without unfolding the monad. -/

namespace Memmy.Lib.Result

open List

variable {ε : Type*} {α β : Type}

/-- `if (c) throw e;` -/
def throwIf (c : Prop) [Decidable c] (e : ε) : Except ε Unit := if c then .error e else .ok ()

variable {x : Except ε α} {f : α → Except ε β} {e : ε}

variable {c : Prop} {a : α}

@[simp] theorem throwIf_eq_ok [Decidable c] {u : Unit} : throwIf c e = .ok u ↔ ¬ c := by
  unfold throwIf; split_ifs with h <;> simp [h]

@[simp] theorem throwIf_eq_error [Decidable c] {e' : ε} : throwIf c e = .error e' ↔ c ∧ e = e' := by
  unfold throwIf; split_ifs with h <;> simp [h]

theorem throwIf_of_not [Decidable c] (h : ¬ c) : throwIf c e = .ok () := if_neg h

@[simp] theorem bind_eq_ok {b : β} : (x >>= f) = .ok b ↔ ∃ a, x = .ok a ∧ f a = .ok b := by
  cases x with
  | error e => simp [bind, Except.bind]
  | ok a => simp [bind, Except.bind]

@[simp] theorem bind_eq_error : (x >>= f) = .error e ↔ x = .error e ∨ ∃ a, x = .ok a ∧ f a = .error e := by
  cases x with
  | error e' => simp [bind, Except.bind]
  | ok a => simp [bind, Except.bind]

@[simp] theorem ok_bind : (Except.ok a >>= f) = f a := rfl

@[simp] theorem error_bind : (Except.error e >>= f) = .error e := rfl

@[simp] theorem pure_eq : (pure a : Except ε α) = .ok a := rfl

@[simp] theorem mapError_eq_ok {ε' : Type*} {f : ε → ε'} : x.mapError f = .ok a ↔ x = .ok a := by
  cases x <;> simp [Except.mapError]

@[simp] theorem mapError_eq_error {ε' : Type*} {f : ε → ε'} {e : ε'} :
    x.mapError f = .error e ↔ ∃ e', x = .error e' ∧ f e' = e := by
  cases x <;> simp [Except.mapError]

/-! ### Loops -/

theorem mapM_eq_ok : ∀ {l : List α} {bs : List β},
    l.mapM f = .ok bs ↔ List.Forall₂ (fun a b => f a = .ok b) l bs
  | [], bs => by
    rw [mapM_nil, pure_eq, Except.ok.injEq, List.forall₂_nil_left_iff]
    exact eq_comm
  | a :: l, bs => by
    rw [mapM_cons, bind_eq_ok]
    constructor
    · rintro ⟨b, hb, h⟩
      obtain ⟨bs', hbs, h⟩ := bind_eq_ok.mp h
      cases h
      exact .cons hb (mapM_eq_ok.mp hbs)
    · intro h
      cases h with
      | cons hb hrest => exact ⟨_, hb, bind_eq_ok.mpr ⟨_, mapM_eq_ok.mpr hrest, rfl⟩⟩

/-- In another order the results are the same, in that order. -/
theorem mapM_perm {l l' : List α} {bs : List β} (hperm : l.Perm l')
    (h : l.mapM f = .ok bs) : ∃ bs', l'.mapM f = .ok bs' ∧ bs.Perm bs' := by
  obtain ⟨bs', hbs', hperm'⟩ := perm_comp_forall₂ hperm.symm (mapM_eq_ok.mp h)
  exact ⟨bs', mapM_eq_ok.mpr hbs', hperm'.symm⟩

theorem forM_eq_ok {f : α → Except ε PUnit.{1}} {u : PUnit.{1}} : ∀ {l : List α},
    l.forM f = .ok u ↔ ∀ a ∈ l, f a = .ok u
  | [] => ⟨nofun, fun _ => rfl⟩
  | a :: l => by
    rw [forall_mem_cons, ← forM_eq_ok]
    have hcons : (a :: l).forM f = f a >>= fun _ => l.forM f := rfl
    rw [hcons, bind_eq_ok]
    exact ⟨fun ⟨_, ha, hl⟩ => ⟨ha, hl⟩, fun ⟨ha, hl⟩ => ⟨_, ha, hl⟩⟩

section Prefix
variable {I : List α → β → Prop} {f : β → α → Except ε β} {l : List α}
  (hstep : ∀ pre a post b b', l = pre ++ a :: post → I pre b → f b a = .ok b' → I (pre ++ [a]) b')

include hstep

theorem foldlM_prefix_from : ∀ (post pre : List α) (b : β), l = pre ++ post → I pre b →
    (∀ b', post.foldlM f b = .ok b' → I l b') ∧
      ∀ e, post.foldlM f b = .error e → ∃ pre a post b₁, l = pre ++ a :: post ∧ I pre b₁ ∧ f b₁ a = .error e
  | [], pre, b, hl, hb => by
    rw [append_nil] at hl
    subst hl
    refine ⟨fun b' h => ?_, nofun⟩
    rw [foldlM_nil, pure_eq, Except.ok.injEq] at h
    exact h ▸ hb
  | a :: post, pre, b, hl, hb => by
    have hl' : l = (pre ++ [a]) ++ post := by rw [hl, append_assoc]; rfl
    constructor
    · intro b' h
      rw [foldlM_cons, bind_eq_ok] at h
      obtain ⟨b₁, h₁, h⟩ := h
      exact (foldlM_prefix_from post (pre ++ [a]) b₁ hl' (hstep pre a post b b₁ hl hb h₁)).1 b' h
    · intro e h
      rw [foldlM_cons, bind_eq_error] at h
      rcases h with h | ⟨b₁, h₁, h⟩
      · exact ⟨pre, a, post, b, hl, hb, h⟩
      · exact (foldlM_prefix_from post (pre ++ [a]) b₁ hl' (hstep pre a post b b₁ hl hb h₁)).2 e h

/-- **Invariant rule for a loop that may throw**, where the invariant says what has been done so far. -/
theorem foldlM_prefix {b b' : β} (hb : I [] b) (h : l.foldlM f b = .ok b') : I l b' :=
  (foldlM_prefix_from hstep l [] b rfl hb).1 b' h

/-- Where the loop throws the invariant holds before the step that does. -/
theorem foldlM_prefix_error {b : β} (hb : I [] b) (h : l.foldlM f b = .error e) :
    ∃ pre a post b₁, l = pre ++ a :: post ∧ I pre b₁ ∧ f b₁ a = .error e :=
  (foldlM_prefix_from hstep l [] b rfl hb).2 e h

end Prefix

/-- **Invariant rule for a loop that may throw.** -/
theorem foldlM_invariant {I : β → Prop} {f : β → α → Except ε β} {l : List α} {b b' : β}
    (hstep : ∀ b, I b → ∀ a ∈ l, ∀ b', f b a = .ok b' → I b') : I b → l.foldlM f b = .ok b' → I b' :=
  foldlM_prefix (I := fun _ b => I b) fun _ a _ b b' hl hb =>
    hstep b hb a (by rw [hl]; exact mem_append_right _ mem_cons_self) b'

end Memmy.Lib.Result
