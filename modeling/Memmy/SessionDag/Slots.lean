import Memmy.Lib.Run

/-! # The slots of the workers

`SessionDagQueueManager.runWithSlot` lets at most `maxConcurrentSessionQueues` functions run. A call that
finds all slots taken waits; the end of a function gives up its slot and resolves the promise of the first
waiter, which counts itself in a later microtask. Between the two the slot looks free.

* `inv_step`: the counter is the number of the functions that run, and nobody waits for a slot that is free.
* `fits_step`: the bound is kept by every step but a call that takes the slot of a woken waiter.
* `bounded_of_heeded`: both, over whole runs. -/

namespace Memmy.SessionDag.Slots

open Lib.Run List

variable {τ : Type*} [DecidableEq τ]

structure State (τ : Type*) where
  activeWorkers : ℕ
  waiters : List τ
  /-- The promise of the call is resolved, and the call has not gone on. -/
  woken : List τ
  /-- The functions that run: one that has returned or thrown does until the `finally` behind it. -/
  running : List τ

def start : State τ where
  activeWorkers := 0
  waiters := []
  woken := []
  running := []

inductive Event (τ : Type*) where
  | call (t : τ)
  | resume (t : τ)
  | finish (t : τ)

variable (maxConcurrentSessionQueues : ℕ) (s : State τ)

def State.begin (t : τ) : State τ :=
  { s with
    activeWorkers := s.activeWorkers + 1
    running := s.running ++ [t] }

def step : Event τ → State τ
  | .call t =>
    if s.activeWorkers ≥ maxConcurrentSessionQueues then { s with waiters := s.waiters ++ [t] }
    else s.begin t
  | .resume t => if t ∈ s.woken then { s with woken := s.woken.erase t }.begin t else s
  | .finish t =>
    if t ∈ s.running then
      { activeWorkers := s.activeWorkers - 1
        waiters := s.waiters.tail
        woken := s.woken ++ s.waiters.head?.toList
        running := s.running.erase t }
    else s

/-- **No more run than there are slots**, and the counter agrees. -/
structure Bounded : Prop where
  running : s.running.length ≤ maxConcurrentSessionQueues
  activeWorkers : s.activeWorkers ≤ maxConcurrentSessionQueues

/-- **Nobody waits for a free slot**: while a call waits, all slots are taken by functions that run and calls
that are woken. -/
def Waits : Prop := s.waiters ≠ [] → maxConcurrentSessionQueues ≤ s.running.length + s.woken.length

/-- A call that finds a slot does not find one that a woken call is to take. -/
def Heeded : Event τ → Prop
  | .call _ => s.activeWorkers < maxConcurrentSessionQueues →
      s.activeWorkers + s.woken.length < maxConcurrentSessionQueues
  | _ => True

instance (e : Event τ) : Decidable (Heeded maxConcurrentSessionQueues s e) := by
  cases e <;> unfold Heeded <;> infer_instance

/-! ### The steps -/

structure Inv : Prop where
  counted : s.activeWorkers = s.running.length
  waits : Waits maxConcurrentSessionQueues s

variable {maxConcurrentSessionQueues s}

omit [DecidableEq τ] in
theorem inv_begin {t : τ} {woken : List τ} (h : Inv maxConcurrentSessionQueues s)
    (hwoken : s.woken.length ≤ woken.length + 1) :
    Inv maxConcurrentSessionQueues ({ s with woken := woken }.begin t) where
  counted := by
    simp only [State.begin, length_append, length_singleton, h.counted]
  waits := by
    intro hw
    have hle := h.waits hw
    simp only [State.begin, length_append, length_singleton]
    omega

omit [DecidableEq τ] in
/-- The slot that is given up goes to the first waiter. -/
theorem length_handed : (s.woken ++ s.waiters.head?.toList).length = s.woken.length + min 1 s.waiters.length := by
  cases hw : s.waiters with
  | nil => simp
  | cons t rest => simp

theorem inv_step (h : Inv maxConcurrentSessionQueues s) (e : Event τ) :
    Inv maxConcurrentSessionQueues (step maxConcurrentSessionQueues s e) := by
  cases e with
  | call t =>
    dsimp only [step]
    by_cases hfull : s.activeWorkers ≥ maxConcurrentSessionQueues
    · rw [if_pos hfull]
      refine ⟨h.counted, fun _ => ?_⟩
      have hcounted := h.counted
      change maxConcurrentSessionQueues ≤ s.running.length + s.woken.length
      omega
    · rw [if_neg hfull]
      exact inv_begin h (Nat.le_succ _)
  | resume t =>
    dsimp only [step]
    by_cases ht : t ∈ s.woken
    · rw [if_pos ht]
      refine inv_begin h ?_
      rw [length_erase_of_mem ht]
      omega
    · rw [if_neg ht]
      exact h
  | finish t =>
    dsimp only [step]
    by_cases ht : t ∈ s.running
    · rw [if_pos ht]
      have hcounted := h.counted
      refine ⟨?_, fun hw => ?_⟩
      · change s.activeWorkers - 1 = (s.running.erase t).length
        rw [length_erase_of_mem ht, hcounted]
      · change s.waiters.tail ≠ [] at hw
        have hne : s.waiters ≠ [] := fun he => hw (by rw [he]; rfl)
        have hle := h.waits hne
        have hlength := length_pos_iff.mpr hne
        rw [length_erase_of_mem ht, length_handed]
        omega
    · rw [if_neg ht]
      exact h

/-- Together with the woken calls the functions that run fit into the slots. -/
def Fits (maxConcurrentSessionQueues : ℕ) (s : State τ) : Prop :=
  s.activeWorkers + s.woken.length ≤ maxConcurrentSessionQueues

theorem fits_step (h : Fits maxConcurrentSessionQueues s) {e : Event τ}
    (hcounted : s.activeWorkers = s.running.length)
    (hheeded : Heeded maxConcurrentSessionQueues s e) :
    Fits maxConcurrentSessionQueues (step maxConcurrentSessionQueues s e) := by
  unfold Fits at h ⊢
  cases e with
  | call t =>
    dsimp only [step]
    by_cases hfull : s.activeWorkers ≥ maxConcurrentSessionQueues
    · rw [if_pos hfull]
      exact h
    · rw [if_neg hfull]
      have hfree : s.activeWorkers + s.woken.length < maxConcurrentSessionQueues :=
        hheeded (Nat.lt_of_not_le hfull)
      change s.activeWorkers + 1 + s.woken.length ≤ maxConcurrentSessionQueues
      omega
  | resume t =>
    dsimp only [step]
    by_cases ht : t ∈ s.woken
    · rw [if_pos ht]
      have hpos := length_pos_of_mem ht
      change s.activeWorkers + 1 + (s.woken.erase t).length ≤ maxConcurrentSessionQueues
      rw [length_erase_of_mem ht]
      omega
    · rw [if_neg ht]
      exact h
  | finish t =>
    dsimp only [step]
    by_cases ht : t ∈ s.running
    · rw [if_pos ht]
      have hpos := length_pos_of_mem ht
      change s.activeWorkers - 1 + (s.woken ++ s.waiters.head?.toList).length ≤ maxConcurrentSessionQueues
      rw [length_handed]
      omega
    · rw [if_neg ht]
      exact h

/-! ### Runs -/

/-- **The slots**: in every run nobody waits for a slot that is free, and if no call takes the slot of a woken
one, the bound holds. -/
theorem bounded_of_heeded (maxConcurrentSessionQueues : ℕ) (events : List (Event τ)) :
    (∀ s ∈ visited (step maxConcurrentSessionQueues) start events, Waits maxConcurrentSessionQueues s) ∧
      ((∀ t ∈ taken (step maxConcurrentSessionQueues) start events,
          Heeded maxConcurrentSessionQueues t.1 t.2) →
        ∀ s ∈ visited (step maxConcurrentSessionQueues) start events,
          Bounded maxConcurrentSessionQueues s) := by
  have hstart : Inv maxConcurrentSessionQueues (start : State τ) := ⟨rfl, fun h => absurd rfl h⟩
  refine ⟨fun s hs => (invariant (I := fun s => Inv maxConcurrentSessionQueues s)
    (fun _ e h => inv_step h e) events _ hstart s hs).waits, fun hheeded s hs => ?_⟩
  obtain ⟨hinv, hfits⟩ := invariant_of_steps
    (I := fun s => Inv maxConcurrentSessionQueues s ∧ Fits maxConcurrentSessionQueues s)
    (fun _ e h hP => ⟨inv_step h.1 e, fits_step h.2 h.1.counted hP⟩) events _
    ⟨hstart, Nat.zero_le _⟩ hheeded s hs
  unfold Fits at hfits
  exact ⟨by rw [← hinv.counted]; omega, by omega⟩

/-! ### A call between two microtasks -/

namespace Example

/-- One slot: `1` waits for the end of `0`, and `2` calls before it goes on. -/
def overtaking : List (Event ℕ) := [.call 0, .call 1, .finish 0, .call 2, .resume 1]

/-- Two functions run in one slot. -/
theorem overtaking_not_bounded : ¬ ∀ s ∈ visited (step 1) start overtaking, Bounded 1 s := by
  intro h
  have hfinal := h _ (final_mem_visited (step 1) overtaking start)
  exact absurd hfinal.running (by decide)

/-- The same calls, but the last one comes when the woken one runs. -/
def waiting : List (Event ℕ) := [.call 0, .call 1, .finish 0, .resume 1, .call 2, .finish 1, .resume 2]

theorem waiting_bounded : (final (step 1) start waiting).running = [2] ∧
    ∀ s ∈ visited (step 1) start waiting, Bounded 1 s :=
  ⟨by decide, (bounded_of_heeded 1 waiting).2 (by decide)⟩

end Example

end Memmy.SessionDag.Slots
