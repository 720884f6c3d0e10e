import Memmy.Lib.Refill
import Memmy.Lib.Run
import Memmy.Lib.Sort

/-! # The session lock

`runExclusive` runs its function at once when the lock is free, and waits otherwise; the waiters are
kept in the order of their priority, and `reorderWaiters` permutes those with a given key in place. A
call that ends hands the lock to the first waiter, whose code goes on in a later turn of the event loop.

* `Exclusive`: at most one call holds the lock, one when it is locked, and no waiter was resumed twice.
* `run_exclusive`: every run of calls, endings and reorderings keeps it, and nobody waits for a lock that
  nobody holds. -/

namespace Memmy.AgentRuntime.SessionLock

open Lib.Refill Lib.Run Lib.Sort List

structure Waiter where
  priority : ℕ
  /-- The empty key is no key. -/
  key : String
  /-- The call of `runExclusive` that `resume` lets go on. -/
  call : ℕ
deriving DecidableEq

structure AsyncMutex where
  locked : Bool := false
  waiters : List Waiter := []
  calls : ℕ := 0
  /-- The calls that were resumed and have not gone on yet. -/
  resumed : List ℕ := []
  inside : List ℕ := []
  resumptions : List ℕ := []
deriving DecidableEq

/-- `findIndex((waiter) => waiter.priority > priority)`, and the waiter spliced in there. -/
def insertWaiter (w : Waiter) (waiters : List Waiter) : List Waiter :=
  waiters.takeWhile (fun x => x.priority ≤ w.priority) ++
    w :: waiters.dropWhile fun x => x.priority ≤ w.priority

/-- The place of a key in the new order. -/
def rank (orderedKeys : List String) (w : Waiter) : ℕ := orderedKeys.idxOf w.key

def ranked (orderedKeys : List String) (w : Waiter) : Bool := w.key ≠ "" ∧ w.key ∈ orderedKeys

namespace AsyncMutex
variable (m : AsyncMutex)

/-- A call of `runExclusive` up to its function or its wait. -/
def enter (priority : ℕ) (key : String) : AsyncMutex :=
  if m.locked then
    { m with
      calls := m.calls + 1
      waiters := insertWaiter ⟨priority, key, m.calls⟩ m.waiters }
  else
    { m with
      calls := m.calls + 1
      locked := true
      inside := m.inside ++ [m.calls] }

/-- A resumed call runs its function. -/
def proceed (call : ℕ) : AsyncMutex :=
  if call ∈ m.resumed then
    { m with
      resumed := m.resumed.erase call
      inside := m.inside ++ [call] }
  else m

/-- The function of a call has ended: the `finally` of `runExclusive`. -/
def leave (call : ℕ) : AsyncMutex :=
  if call ∈ m.inside then
    match m.waiters with
    | next :: waiters =>
      { m with
        inside := m.inside.erase call
        waiters := waiters
        resumed := m.resumed ++ [next.call]
        resumptions := m.resumptions ++ [next.call] }
    | [] =>
      { m with
        inside := m.inside.erase call
        locked := false }
  else m

def reorderWaiters (orderedKeys : List String) : AsyncMutex :=
  { m with
    waiters := refill (ranked orderedKeys) m.waiters
      (sortBy (ascending (rank orderedKeys)) (m.waiters.filter (ranked orderedKeys))) }

end AsyncMutex

inductive Event where
  | enter (priority : ℕ) (key : String)
  | proceed (call : ℕ)
  | leave (call : ℕ)
  | reorder (orderedKeys : List String)

def step (m : AsyncMutex) : Event → AsyncMutex
  | .enter priority key => m.enter priority key
  | .proceed call => m.proceed call
  | .leave call => m.leave call
  | .reorder orderedKeys => m.reorderWaiters orderedKeys

/-- The calls that hold the lock. -/
def holders (m : AsyncMutex) : List ℕ := m.inside ++ m.resumed

/-- **Exclusion.** The lock is held by one call when it is locked and by none otherwise, and every
waiter is resumed at most once. -/
structure Exclusive (m : AsyncMutex) : Prop where
  held : (holders m).length = if m.locked then 1 else 0
  once : m.resumptions.Nodup

structure Inv (m : AsyncMutex) : Prop where
  held : (holders m).length = if m.locked then 1 else 0
  idle : m.locked = false → m.waiters = []
  resumed_waiting : (m.resumptions ++ m.waiters.map (·.call)).Nodup
  held_waiting : (holders m ++ m.waiters.map (·.call)).Nodup
  issued : ∀ c ∈ m.resumptions ++ (holders m ++ m.waiters.map (·.call)), c < m.calls

theorem Inv.exclusive (h : Inv m) : Exclusive m :=
  ⟨h.held, (nodup_append.mp h.resumed_waiting).1⟩

theorem inv_free : Inv {} where
  held := rfl
  idle := fun _ => rfl
  resumed_waiting := nodup_nil
  held_waiting := nodup_nil
  issued := nofun

theorem insertWaiter_perm (w : Waiter) (waiters : List Waiter) :
    (insertWaiter w waiters).Perm (w :: waiters) := by
  refine perm_middle.trans ?_
  rw [takeWhile_append_dropWhile]

theorem pairwise_insertWaiter {R : Waiter → Waiter → Prop} {w : Waiter} {waiters : List Waiter}
    (h : waiters.Pairwise R) (hfront : ∀ x ∈ waiters.takeWhile (·.priority ≤ w.priority), R x w)
    (hback : ∀ x ∈ waiters.dropWhile (·.priority ≤ w.priority), R w x) :
    (insertWaiter w waiters).Pairwise R := by
  rw [← takeWhile_append_dropWhile (p := fun x : Waiter => x.priority ≤ w.priority)
    (l := waiters), pairwise_append] at h
  obtain ⟨hsf, hsb, hcross⟩ := h
  refine pairwise_append.mpr ⟨hsf, pairwise_cons.mpr ⟨hback, hsb⟩, fun x hx y hy => ?_⟩
  rcases mem_cons.mp hy with rfl | hy
  · exact hfront x hx
  · exact hcross x hx y hy

theorem reorderWaiters_perm (m : AsyncMutex) (orderedKeys : List String) :
    (m.reorderWaiters orderedKeys).waiters.Perm m.waiters :=
  refill_perm (sortBy_perm _ _)

section
variable {m : AsyncMutex}

theorem inv_enter (h : Inv m) (priority : ℕ) (key : String) : Inv (m.enter priority key) := by
  have hnew : ∀ c ∈ m.resumptions ++ (holders m ++ m.waiters.map (·.call)), c ≠ m.calls :=
    fun c hc => (h.issued c hc).ne
  unfold AsyncMutex.enter
  split_ifs with hlocked
  · have hperm := (insertWaiter_perm ⟨priority, key, m.calls⟩ m.waiters).map (·.call)
    have hfront : ∀ l : List ℕ, (l ++ m.waiters.map (·.call)).Nodup → m.calls ∉ l →
        m.calls ∉ m.waiters.map (·.call) →
        (l ++ (insertWaiter ⟨priority, key, m.calls⟩ m.waiters).map (·.call)).Nodup := by
      intro l hl hout hout'
      rw [((List.Perm.refl l).append hperm).nodup_iff, map_cons, perm_middle.nodup_iff, nodup_cons]
      exact ⟨by simp [hout, hout'], hl⟩
    have hwaiting : m.calls ∉ m.waiters.map (·.call) := fun hc =>
      hnew _ (mem_append_right _ (mem_append_right _ hc)) rfl
    have hheld : m.calls ∉ holders m := fun hc =>
      hnew _ (mem_append_right _ (mem_append_left _ hc)) rfl
    have hresumed : m.calls ∉ m.resumptions := fun hc => hnew _ (mem_append_left _ hc) rfl
    exact {
      held := h.held
      idle := fun hfree => absurd (hlocked.symm.trans hfree) Bool.noConfusion
      resumed_waiting := hfront _ h.resumed_waiting hresumed hwaiting
      held_waiting := hfront _ h.held_waiting hheld hwaiting
      issued := fun c hc => by
        have hc : c ∈ m.resumptions ++ (holders m ++ m.waiters.map (·.call)) ∨ c = m.calls := by
          simp only [mem_append, holders, hperm.mem_iff, map_cons, mem_cons] at hc ⊢
          tauto
        rcases hc with hc | rfl
        · exact (h.issued c hc).trans (Nat.lt_succ_self _)
        · exact Nat.lt_succ_self _ }
  · have hfree : m.locked = false := Bool.eq_false_iff.mpr hlocked
    have hnil := h.idle hfree
    have hheld : holders m = [] := length_eq_zero_iff.mp (by rw [h.held, if_neg hlocked])
    obtain ⟨hinside, hresumed⟩ := append_eq_nil_iff.mp hheld
    exact {
      held := by simp [holders, hinside, hresumed]
      idle := Bool.noConfusion
      resumed_waiting := h.resumed_waiting
      held_waiting := by simp [holders, hinside, hresumed, hnil]
      issued := fun c hc => by
        have hc : c ∈ m.resumptions ∨ c = m.calls := by
          simpa [holders, hinside, hresumed, hnil] using hc
        rcases hc with hc | rfl
        · exact (h.issued c (mem_append_left _ hc)).trans (Nat.lt_succ_self _)
        · exact Nat.lt_succ_self _ }

theorem holders_proceed_perm {call : ℕ} : (holders (m.proceed call)).Perm (holders m) := by
  unfold AsyncMutex.proceed
  split_ifs with hcall
  · change ((m.inside ++ [call]) ++ m.resumed.erase call).Perm (m.inside ++ m.resumed)
    rw [append_assoc]
    exact (perm_cons_erase hcall).symm.append_left _
  · exact List.Perm.refl _

theorem inv_of_perm {m' : AsyncMutex} (h : Inv m) (hheld : (holders m').Perm (holders m))
    (hwaiters : (m'.waiters.map (·.call)).Perm (m.waiters.map (·.call)))
    (hlocked : m'.locked = m.locked) (hresumptions : m'.resumptions = m.resumptions)
    (hcalls : m'.calls = m.calls) : Inv m' where
  held := by rw [hheld.length_eq, h.held, hlocked]
  idle := fun hfree => by
    have hnil := h.idle (hlocked ▸ hfree)
    rw [hnil] at hwaiters
    exact map_eq_nil_iff.mp hwaiters.eq_nil
  resumed_waiting := by
    rw [hresumptions, ((List.Perm.refl _).append hwaiters).nodup_iff]
    exact h.resumed_waiting
  held_waiting := by
    rw [(hheld.append hwaiters).nodup_iff]
    exact h.held_waiting
  issued := fun c hc => by
    rw [hresumptions, mem_append, (hheld.append hwaiters).mem_iff, ← mem_append] at hc
    rw [hcalls]
    exact h.issued c hc

theorem proceed_waiters (m : AsyncMutex) (call : ℕ) : (m.proceed call).waiters = m.waiters := by
  unfold AsyncMutex.proceed; split_ifs <;> rfl

theorem inv_proceed (h : Inv m) (call : ℕ) : Inv (m.proceed call) := by
  refine inv_of_perm h holders_proceed_perm ?_ ?_ ?_ ?_
  · rw [proceed_waiters]
  all_goals unfold AsyncMutex.proceed; split_ifs <;> rfl

theorem inv_reorderWaiters (h : Inv m) (orderedKeys : List String) : Inv (m.reorderWaiters orderedKeys) :=
  inv_of_perm h (List.Perm.refl _) ((reorderWaiters_perm m orderedKeys).map _) rfl rfl rfl

theorem inside_eq (h : Inv m) {call : ℕ} (hcall : call ∈ m.inside) :
    m.locked = true ∧ m.inside = [call] ∧ m.resumed = [] := by
  have hmem : call ∈ holders m := mem_append_left _ hcall
  have hlen := h.held
  split_ifs at hlen with hlocked
  · obtain ⟨c, hc⟩ := length_eq_one_iff.mp hlen
    rw [hc, mem_singleton] at hmem
    subst hmem
    rcases append_eq_singleton_iff.mp hc with ⟨hinside, -⟩ | ⟨hinside, hresumed⟩
    · rw [hinside] at hcall
      cases hcall
    · exact ⟨hlocked, hinside, hresumed⟩
  · rw [length_eq_zero_iff.mp hlen] at hmem
    cases hmem

theorem inv_leave (h : Inv m) (call : ℕ) : Inv (m.leave call) := by
  unfold AsyncMutex.leave
  split_ifs with hcall
  · obtain ⟨hlocked, hinside, hresumed⟩ := inside_eq h hcall
    have hrw := h.resumed_waiting
    have hissued := h.issued
    cases hwaiters : m.waiters with
    | nil =>
      rw [hwaiters] at hrw
      exact {
        held := by simp [holders, hinside, hresumed]
        idle := fun _ => rfl
        resumed_waiting := hrw
        held_waiting := by simp [holders, hinside, hresumed]
        issued := fun c hc => hissued c (by
          simp only [holders, hinside, hresumed, hwaiters, erase_cons_head] at hc ⊢
          simp at hc ⊢
          exact Or.inl hc) }
    | cons next waiters =>
      have hheld := h.held_waiting
      rw [hwaiters] at hrw hissued hheld
      have hmove : (m.resumptions ++ [next.call]) ++ waiters.map (·.call) =
          m.resumptions ++ (next :: waiters).map (·.call) := by simp
      exact {
        held := by simp [holders, hinside, hresumed, hlocked]
        idle := fun hfree => absurd (hlocked.symm.trans hfree) Bool.noConfusion
        resumed_waiting := hmove ▸ hrw
        held_waiting := by
          have := (nodup_append.mp hheld).2.1
          simpa [holders, hinside, hresumed] using this
        issued := fun c hc => hissued c (by
          simp only [holders, hinside, hresumed, erase_cons_head] at hc ⊢
          simp at hc ⊢
          tauto) }
  · exact h

theorem inv_step (h : Inv m) (e : Event) : Inv (step m e) := by
  cases e with
  | enter priority key => exact inv_enter h priority key
  | proceed call => exact inv_proceed h call
  | leave call => exact inv_leave h call
  | reorder orderedKeys => exact inv_reorderWaiters h orderedKeys

/-- **The lock excludes**: in every run from a free lock. -/
theorem run_exclusive (es : List Event) : Exclusive (final step {} es) ∧
    (holders (final step {} es) = [] → (final step {} es).waiters = []) := by
  have h := invariant_final (I := Inv) (fun _ e h => inv_step h e) es {} inv_free
  refine ⟨h.exclusive, fun hnone => h.idle (Bool.eq_false_iff.mpr fun hlocked => ?_)⟩
  have hheld := h.held
  rw [hnone, if_pos hlocked] at hheld
  cases hheld

end

end Memmy.AgentRuntime.SessionLock
