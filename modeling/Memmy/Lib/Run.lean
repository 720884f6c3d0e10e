import Mathlib.Data.List.Basic

/-! # Runs of a deterministic step function

A run is a list of events applied from a state by `step : σ → ε → σ`; an operation that fails is
an event that leaves the state as it is. `visited` lists every state of the run, `taken` every
step of it, as the state the step is taken in with its event.

* `invariant`: what every step preserves holds in every visited state.
* `invariant_of_steps`: the same for an invariant that only the steps satisfying `P` preserve.
* `invariant_iff_steps`: when `P` is moreover forced by the invariant after the step, the
  invariant holds all along a run exactly if `P` holds of all its steps.
* `left_once`: what does not come back is left at most once. -/

namespace Memmy.Lib.Run

open List

variable {σ ε : Type*} (step : σ → ε → σ)

/-- The states of the run `es` from `s`, the first and the last included. -/
def visited : σ → List ε → List σ
  | s, [] => [s]
  | s, e :: es => s :: visited (step s e) es

/-- The steps of the run `es` from `s`: the state before, and the event. -/
def taken : σ → List ε → List (σ × ε)
  | _, [] => []
  | s, e :: es => (s, e) :: taken (step s e) es

/-- The state the run ends in. -/
def final (s : σ) (es : List ε) : σ := es.foldl step s

@[simp] theorem visited_nil (s : σ) : visited step s [] = [s] := rfl

@[simp] theorem visited_cons (s : σ) (e : ε) (es : List ε) :
    visited step s (e :: es) = s :: visited step (step s e) es := rfl

@[simp] theorem taken_nil (s : σ) : taken step s [] = [] := rfl

@[simp] theorem taken_cons (s : σ) (e : ε) (es : List ε) :
    taken step s (e :: es) = (s, e) :: taken step (step s e) es := rfl

@[simp] theorem final_nil (s : σ) : final step s [] = s := rfl

@[simp] theorem final_cons (s : σ) (e : ε) (es : List ε) :
    final step s (e :: es) = final step (step s e) es := rfl

theorem mem_visited_self (s : σ) (es : List ε) : s ∈ visited step s es := by
  cases es <;> simp

theorem final_mem_visited : ∀ (es : List ε) (s : σ), final step s es ∈ visited step s es
  | [], s => by simp
  | e :: es, s => by
    simp only [final_cons, visited_cons, mem_cons]
    exact Or.inr (final_mem_visited es (step s e))

theorem taken_concat : ∀ (es : List ε) (s : σ) (e : ε),
    taken step s (es ++ [e]) = taken step s es ++ [(final step s es, e)]
  | [], _, _ => rfl
  | e' :: es, s, e => congrArg (List.cons (s, e')) (taken_concat es (step s e') e)

theorem last_mem_taken (es : List ε) (s : σ) (e : ε) : (final step s es, e) ∈ taken step s (es ++ [e]) := by
  rw [taken_concat]
  exact mem_append_right _ (mem_singleton_self _)

theorem mem_visited_of_mem_taken : ∀ {es : List ε} {s : σ} {t : σ × ε}, t ∈ taken step s es →
    t.1 ∈ visited step s es
  | e :: es, s, t, h => by
    simp only [taken_cons, mem_cons] at h
    simp only [visited_cons, mem_cons]
    rcases h with rfl | h
    · exact Or.inl rfl
    · exact Or.inr (mem_visited_of_mem_taken h)

variable {step}

theorem event_mem_of_mem_taken : ∀ {es : List ε} {s : σ} {t : σ × ε}, t ∈ taken step s es → t.2 ∈ es
  | e :: es, s, t, h => by
    simp only [taken_cons, mem_cons] at h
    rcases h with rfl | h
    · exact mem_cons_self
    · exact mem_cons_of_mem _ (event_mem_of_mem_taken h)

variable {I : σ → Prop}

variable {P : σ → ε → Prop}

/-- **Invariant rule under a condition on the steps.** -/
theorem invariant_of_steps (hstep : ∀ s e, I s → P s e → I (step s e)) :
    ∀ (es : List ε) (s : σ), I s → (∀ t ∈ taken step s es, P t.1 t.2) → ∀ t ∈ visited step s es, I t
  | [], s, hs, _ => by simpa using hs
  | e :: es, s, hs, hP => by
    simp only [taken_cons, forall_mem_cons] at hP
    simp only [visited_cons, forall_mem_cons]
    exact ⟨hs, invariant_of_steps hstep es (step s e) (hstep s e hs hP.1) hP.2⟩

/-- **Invariant rule.** -/
theorem invariant (hstep : ∀ s e, I s → I (step s e)) (es : List ε) (s : σ)
    (hs : I s) : ∀ t ∈ visited step s es, I t :=
  invariant_of_steps (P := fun _ _ => True) (fun s e h _ => hstep s e h) es s hs (by simp)

theorem invariant_final (hstep : ∀ s e, I s → I (step s e)) (es : List ε) (s : σ)
    (hs : I s) : I (final step s es) :=
  invariant hstep es s hs _ (final_mem_visited step es s)

/-- **Exactness.** If the invariant after a step also forces the condition on the step, then the
condition on all the steps is the invariant along the run. -/
theorem invariant_iff_steps
    (hstep : ∀ s e, I s → P s e → I (step s e)) (hback : ∀ s e, I (step s e) → P s e) :
    ∀ (es : List ε) (s : σ), I s → ((∀ t ∈ visited step s es, I t) ↔ ∀ t ∈ taken step s es, P t.1 t.2)
  | [], s, hs => by simp [hs]
  | e :: es, s, hs => by
    simp only [visited_cons, taken_cons, forall_mem_cons]
    constructor
    · rintro ⟨-, h⟩
      have hI : I (step s e) := h _ (mem_visited_self step _ _)
      exact ⟨hback s e hI, (invariant_iff_steps hstep hback es (step s e) hI).mp h⟩
    · rintro ⟨hP, h⟩
      have hI : I (step s e) := hstep s e hs hP
      exact ⟨hs, (invariant_iff_steps hstep hback es (step s e) hI).mpr h⟩

/-- **What does not come back** is left by one step of a run at most. -/
theorem left_once {p : σ → Bool} (hstep : ∀ s e, p s = false → p (step s e) = false) :
    ∀ (es : List ε) (s : σ), ((taken step s es).filter fun t => p t.1 && !p (step t.1 t.2)).length ≤ 1
  | [], s => Nat.zero_le 1
  | e :: es, s => by
    have hgone : ∀ t ∈ taken step (step s e) es, p (step s e) = false → ¬ (p t.1 && !p (step t.1 t.2)) = true := by
      intro t ht hp
      have h := invariant (I := fun s => p s = false) hstep es (step s e) hp _ (mem_visited_of_mem_taken step ht)
      simp [h]
    rw [taken_cons, filter_cons]
    by_cases hleft : (p s && !p (step s e)) = true
    · rw [if_pos hleft, filter_eq_nil_iff.mpr fun t ht => hgone t ht (by simp_all)]
      exact Nat.le_of_eq rfl
    · rw [if_neg hleft]
      exact left_once hstep es (step s e)

end Memmy.Lib.Run
