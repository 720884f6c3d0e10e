import Mathlib.Data.List.Perm.Subperm
import Memmy.AgentRuntime.TurnQueue
import Memmy.Lib.Unique

/-! # Shown order is run order

The snapshot sorts by the time a message was queued at, and the lock by the priority a call came with.
The two agree as long as every slot is put at its place among the waiters: the reordering of the
waiters gives the messages new times but leaves their priorities, so that a slot that comes later, with
its own time as priority, may be put elsewhere.

* `Placed`: the waiters before the place of a slot are shown before it, those after it behind it.
* `openItems_eq`: then the open items are the waiting slots, in this order.
* `queue_order`: runs whose slots are placed give the lock in the order of the snapshot; in every run
  the lock excludes. -/

namespace Memmy.AgentRuntime.TurnQueue

open Lib.KeyMap Lib.Refill Lib.Run Lib.Sort Lib.Unique List Option
open AgentRuntime.SessionLock

/-! ### The condition -/

def TurnSlot.item (x : TurnSlot) : QueueItem := ⟨x.key, x.queuedAt⟩

/-- `x` is shown before `y`. -/
def Before (x y : TurnSlot) : Prop := itemOrder x.item y.item = .lt

instance (x y : TurnSlot) : Decidable (Before x y) := inferInstanceAs (Decidable (_ = _))

def slotIds (s : State) : List String := s.turnSlots.filterMap (·.clientRequestId)

/-- No other list of the session has a message with this id. -/
def Clean (s : State) (id : String) : Prop :=
  id ≠ "" ∧ id ∉ s.admissions.map (·.clientRequestId) ∧
    id ∉ s.goalAdmissions.map (·.clientRequestId) ∧ id ∉ s.inbox.map (·.clientRequestId)

instance (s : State) (id : String) : Decidable (Clean s id) := inferInstanceAs (Decidable (_ ∧ _))

/-- **A slot is placed** when it is announced and the lock puts it behind the waiters that are shown
before it and before the others; a free lock takes any slot. -/
def Placed (s : State) (x : TurnSlot) : Prop :=
  s.lock.locked = true →
    x.announcedToWebui = true ∧ x.clientRequestId.isSome ∧ Clean s x.key ∧
    (∀ w ∈ s.lock.waiters.takeWhile (·.priority ≤ x.queuedAt), ∀ y ∈ s.turnSlots,
      y.call = some w.call → Before y x) ∧
    ∀ w ∈ s.lock.waiters.dropWhile (·.priority ≤ x.queuedAt), ∀ y ∈ s.turnSlots,
      y.call = some w.call → Before x y

instance (s : State) (x : TurnSlot) : Decidable (Placed s x) := by
  unfold Placed; infer_instance

def waitingCalls (s : State) : List ℕ := s.lock.waiters.map (·.call)

/-- The slot has not been given the lock. -/
def Waits (s : State) (x : TurnSlot) : Prop := ∀ c ∈ x.call, c ∈ waitingCalls s

instance (s : State) (x : TurnSlot) : Decidable (Waits s x) :=
  inferInstanceAs (Decidable (∀ c ∈ x.call, c ∈ waitingCalls s))

/-- **The steps of a queue in order**: ids are not used twice, a slot that comes to the lock is placed,
and no slot goes on under the call of another while open items are shown. -/
def Admitted (s : State) : Event → Prop
  | .arrive a => (∀ id ∈ a.clientRequestId, id ∉ slotIds s) ∧
    if visible s a then ∀ id ∈ a.clientRequestId, Clean s id else Placed s (directSlot a)
  | .openGate i => ∀ x ∈ s.turnSlots[i]?, x.call = none → Placed s x
  | .succeed call next _ => (∀ id ∈ next, id ∉ slotIds s) ∧ (Over s call → openItems (closed s call) = [])
  | .requeue item => item.clientRequestId ∉ slotIds s ∧ item.clientRequestId ≠ "" ∧
    item.clientRequestId ∉ s.goalAdmissions.map (·.clientRequestId) ∧
    item.clientRequestId ∉ s.inbox.map (·.clientRequestId)
  | .goal inbox goalAdmissions => ∀ x ∈ s.turnSlots, Waits s x →
    x.key ∉ goalAdmissions.map (·.clientRequestId) ∧ x.key ∉ inbox.map (·.clientRequestId)
  | _ => True

instance (s : State) (e : Event) : Decidable (Admitted s e) := by
  refine e.casesOn ?_ ?_ ?_ ?_ ?_ ?_ ?_ ?_ ?_ ?_ ?_ ?_ ?_ ?_ ?_ <;> intros <;> unfold Admitted <;> infer_instance

/-! ### The invariant -/

structure Inv (s : State) : Prop where
  lock : SessionLock.Inv s.lock
  ids : (slotIds s).Nodup
  calls : (s.turnSlots.filterMap (·.call)).Nodup
  issued : ∀ x ∈ s.turnSlots, ∀ c ∈ x.call, c < s.lock.calls
  dispatched : ∀ x ∈ s.turnSlots, ∀ c ∈ x.call, c ∈ holders s.lock ∨ c ∈ waitingCalls s
  /-- A slot that waits is shown. -/
  shown : ∀ x ∈ s.turnSlots, Waits s x →
    x.state = .queued ∧ x.announcedToWebui = true ∧ x.clientRequestId.isSome ∧ Clean s x.key
  keyed : ∀ w ∈ s.lock.waiters, ∀ x ∈ s.turnSlots, x.call = some w.call → w.key = x.key
  sorted : s.lock.waiters.Pairwise fun w w' => ∀ x ∈ s.turnSlots, ∀ y ∈ s.turnSlots,
    x.call = some w.call → y.call = some w'.call → Before x y

theorem inv_start (inbox : List InboxEntry) (admissions goalAdmissions : List QueueItem) :
    Inv { inbox := inbox, admissions := admissions, goalAdmissions := goalAdmissions } where
  lock := inv_free
  ids := nodup_nil
  calls := nodup_nil
  issued := nofun
  dispatched := nofun
  shown := nofun
  keyed := nofun
  sorted := List.Pairwise.nil

section
variable {s s' : State} {x y : TurnSlot} {orderedIds : List String} {call revision : ℕ}

theorem TurnSlot.some_key (h : x.clientRequestId.isSome) : x.clientRequestId = some x.key := by
  obtain ⟨id, hid⟩ := isSome_iff_exists.mp h
  simp [TurnSlot.key, hid]

theorem TurnSlot.item?_eq (h : x.clientRequestId.isSome) : x.item? = some x.item := by
  rw [TurnSlot.item?, TurnSlot.some_key h]
  rfl

/-- The slots of `s'` are slots of `s` that may have been given the lock. -/
structure Kept (s s' : State) : Prop where
  slots : ∀ x' ∈ s'.turnSlots, ∃ x ∈ s.turnSlots, x'.clientRequestId = x.clientRequestId ∧
    x'.queuedAt = x.queuedAt ∧ x'.call = x.call ∧ x'.announcedToWebui = x.announcedToWebui ∧
    (x'.state = x.state ∨ ∃ c ∈ holders s.lock, x.call = some c)
  ids : (slotIds s').Sublist (slotIds s)
  calls : (s'.turnSlots.filterMap (·.call)).Sublist (s.turnSlots.filterMap (·.call))
  waiters : s'.lock.waiters.Sublist s.lock.waiters
  issued : s.lock.calls ≤ s'.lock.calls
  dispatched : ∀ x' ∈ s'.turnSlots, ∀ c ∈ x'.call, c ∈ holders s.lock ∨ c ∈ waitingCalls s →
    c ∈ holders s'.lock ∨ c ∈ waitingCalls s'
  clean : ∀ x' ∈ s'.turnSlots, Waits s x' → Clean s x'.key → Clean s' x'.key

theorem inv_of_kept (h : Inv s) (hlock : SessionLock.Inv s'.lock) (hk : Kept s s') : Inv s' where
  lock := hlock
  ids := h.ids.sublist hk.ids
  calls := h.calls.sublist hk.calls
  issued := fun x' hx' c hc => by
    obtain ⟨x, hx, -, -, hcall, -⟩ := hk.slots x' hx'
    exact (h.issued x hx c (hcall ▸ hc)).trans_le hk.issued
  dispatched := fun x' hx' c hc => by
    obtain ⟨x, hx, -, -, hcall, -⟩ := hk.slots x' hx'
    exact hk.dispatched x' hx' c hc (h.dispatched x hx c (hcall ▸ hc))
  shown := fun x' hx' hw => by
    obtain ⟨x, hx, hid, -, hcall, hann, hstate⟩ := hk.slots x' hx'
    have hw' : Waits s x' := fun c hc => (hk.waiters.map _).mem (hw c hc)
    have hwx : Waits s x := fun c hc => hw' c (hcall ▸ hc)
    obtain ⟨hqueued, hannounced, hsome, hclean⟩ := h.shown x hx hwx
    have hkey : x'.key = x.key := by rw [TurnSlot.key, hid]; rfl
    refine ⟨?_, hann ▸ hannounced, hid ▸ hsome, hk.clean x' hx' hw' (hkey ▸ hclean)⟩
    rcases hstate with hstate | ⟨c, hc, hxc⟩
    · exact hstate.trans hqueued
    -- a call does not hold the lock while it waits for it
    · exact absurd (hwx c hxc) fun hcw =>
        (nodup_append.mp h.lock.held_waiting).2.2 c hc c hcw rfl
  keyed := fun w hw x' hx' hc => by
    obtain ⟨x, hx, hid, -, hcall, -⟩ := hk.slots x' hx'
    rw [h.keyed w (hk.waiters.mem hw) x hx (hcall ▸ hc), TurnSlot.key, TurnSlot.key, hid]
  sorted := (h.sorted.sublist hk.waiters).imp fun {w w'} hww' x' hx' y' hy' hxc hyc => by
    obtain ⟨x, hx, hid, hq, hcall, -⟩ := hk.slots x' hx'
    obtain ⟨y, hy, hid', hq', hcall', -⟩ := hk.slots y' hy'
    have hbefore := hww' x hx y hy (hcall ▸ hxc) (hcall' ▸ hyc)
    unfold Before TurnSlot.item TurnSlot.key at hbefore ⊢
    rw [hid, hid', hq, hq']
    exact hbefore

/-! ### Steps that only take slots away, or give them the lock -/

theorem kept_of_sublist (hsub : s'.turnSlots.Sublist s.turnSlots)
    (hwaiters : s'.lock.waiters.Sublist s.lock.waiters) (hcalls : s'.lock.calls = s.lock.calls)
    (hheld : ∀ x' ∈ s'.turnSlots, ∀ c ∈ x'.call, c ∈ holders s.lock ∨ c ∈ waitingCalls s →
      c ∈ holders s'.lock ∨ c ∈ waitingCalls s')
    (hclean : ∀ x' ∈ s'.turnSlots, Waits s x' → Clean s x'.key → Clean s' x'.key) : Kept s s' where
  slots := fun x' hx' => ⟨x', hsub.mem hx', rfl, rfl, rfl, rfl, Or.inl rfl⟩
  ids := hsub.filterMap _
  calls := hsub.filterMap _
  waiters := hwaiters
  issued := hcalls.ge
  dispatched := hheld
  clean := hclean

/-- Slots are taken away, and the lock stays. -/
theorem inv_sublist (h : Inv s) {turnSlots : List TurnSlot} (hsub : turnSlots.Sublist s.turnSlots) :
    Inv { s with turnSlots := turnSlots, queueRevision := revision } :=
  inv_of_kept h h.lock
    (kept_of_sublist hsub (List.Sublist.refl _) rfl (fun _ _ _ _ hc => hc) fun _ _ _ hc => hc)

theorem inv_announceFails (h : Inv s) (i : ℕ) : Inv (announceFails s i) := by
  unfold announceFails
  cases hi : s.turnSlots[i]? with
  | none => exact h
  | some x =>
    dsimp only
    split_ifs
    · exact inv_sublist h (eraseIdx_sublist _ _)
    · exact h

theorem inv_take (h : Inv s) (id : String) (admissions : List QueueItem) (revision : ℕ)
    (hadm : ∀ item ∈ admissions, item ∈ s.admissions ∨ item.clientRequestId = id)
    (hslot : ∃ x ∈ s.turnSlots, x.clientRequestId = some id) :
    Inv { s with
      turnSlots := s.turnSlots.eraseP (·.clientRequestId = some id)
      admissions := admissions
      queueRevision := revision } := by
  have hsub : (s.turnSlots.eraseP (·.clientRequestId = some id)).Sublist s.turnSlots := eraseP_sublist
  refine inv_of_kept h h.lock (kept_of_sublist hsub (List.Sublist.refl _) rfl (fun _ _ _ _ hc => hc)
    fun x' hx' hw hc => ⟨hc.1, fun hmem => ?_, hc.2.2⟩)
  obtain ⟨item, hitem, hkey⟩ := mem_map.mp hmem
  rcases hadm item hitem with hold | hid
  · exact hc.2.1 (mem_map.mpr ⟨item, hold, hkey⟩)
  -- the ids of the slots are distinct, and the slot of this id was taken out
  · have hsome := (h.shown x' (hsub.mem hx') hw).2.2.1
    have hx'id : x'.clientRequestId = some id := by rw [TurnSlot.some_key hsome, ← hkey, hid]
    obtain ⟨x, hx, hxid⟩ := hslot
    obtain ⟨y, front, back, -, hyid, hsplit, herase⟩ := exists_of_eraseP (p := (·.clientRequestId = some id))
      hx (decide_eq_true hxid)
    rw [herase] at hx'
    have hids := h.ids
    rw [slotIds, hsplit, filterMap_append, filterMap_cons_some (by simpa using hyid)] at hids
    have hnot := (nodup_middle.mp hids)
    rw [nodup_cons, ← filterMap_append] at hnot
    exact hnot.1 (mem_filterMap.mpr ⟨x', hx', hx'id⟩)

theorem queuedSlotOf_mem {id : String} (h : queuedSlotOf s id = some x) :
    ∃ x ∈ s.turnSlots, x.clientRequestId = some id := by
  unfold queuedSlotOf at h
  split_ifs at h
  obtain ⟨hfind, -⟩ := filter_eq_some_iff.mp h
  exact ⟨x, mem_of_find?_eq_some hfind, by simpa using find?_some hfind⟩

section
variable (h : Inv s)
include h

theorem inv_remove (id : String) : Inv (removeQueuedMessage s id) := by
  unfold removeQueuedMessage
  cases hslot : queuedSlotOf s id with
  | none => exact h
  | some x => exact inv_take h id _ _ (fun _ => Or.inl) (queuedSlotOf_mem hslot)

theorem inv_steer (id : String) : Inv (steerQueuedWebuiMessage s id) := by
  unfold steerQueuedWebuiMessage
  cases hslot : queuedSlotOf s id with
  | none => exact h
  | some x =>
    split_ifs
    · refine inv_take h id _ _ (fun item hitem => ?_) (queuedSlotOf_mem hslot)
      rcases mem_append.mp hitem with hitem | hitem
      · exact Or.inl hitem
      · exact Or.inr (by rw [mem_singleton.mp hitem])
    · exact h

theorem inv_lists (hslots : s'.turnSlots = s.turnSlots) (hlock : s'.lock = s.lock)
    (hclean : ∀ x ∈ s.turnSlots, Waits s x → Clean s x.key → Clean s' x.key) : Inv s' := by
  refine inv_of_kept h (hlock ▸ h.lock) (kept_of_sublist (by rw [hslots]) (by rw [hlock]) (by rw [hlock])
    (fun x' _ c _ hc => ?_) fun x' hx' hw hc => hclean x' (hslots ▸ hx') hw hc)
  unfold waitingCalls at hc ⊢
  rwa [hlock]

theorem inv_consume (id : String) : Inv (consume s id) :=
  inv_lists h rfl rfl fun _ _ _ hc =>
    ⟨hc.1, fun hmem => hc.2.1 (((filter_sublist).map _).mem hmem), hc.2.2⟩

theorem inv_goal {inbox : List InboxEntry} {goalAdmissions : List QueueItem}
    (ha : Admitted s (.goal inbox goalAdmissions)) :
    Inv { s with inbox := inbox, goalAdmissions := goalAdmissions } :=
  inv_lists h rfl rfl fun x hx hw hc => ⟨hc.1, hc.2.1, ha x hx hw⟩

theorem inv_map (f : TurnSlot → TurnSlot) (lock : AsyncMutex) (revision : ℕ)
    (hlock : SessionLock.Inv lock) (hwaiters : lock.waiters.Sublist s.lock.waiters)
    (hcalls : lock.calls = s.lock.calls)
    (hheld : ∀ c, c ∈ holders s.lock ∨ c ∈ waitingCalls s → c ∈ holders lock ∨ c ∈ lock.waiters.map (·.call))
    (hf : ∀ x ∈ s.turnSlots, (f x).clientRequestId = x.clientRequestId ∧ (f x).queuedAt = x.queuedAt ∧
      (f x).call = x.call ∧ (f x).announcedToWebui = x.announcedToWebui ∧
      ((f x).state = x.state ∨ ∃ c ∈ holders s.lock, x.call = some c)) :
    Inv { s with turnSlots := s.turnSlots.map f, lock := lock, queueRevision := revision } := by
  have hcongr : ∀ {β : Type} (g : TurnSlot → Option β), (∀ x ∈ s.turnSlots, g (f x) = g x) →
      (s.turnSlots.map f).filterMap g = s.turnSlots.filterMap g := by
    intro β g hg
    rw [filterMap_map]
    exact filterMap_congr hg
  refine inv_of_kept h hlock {
    slots := fun x' hx' => ?_
    ids := by rw [slotIds, hcongr _ fun x hx => (hf x hx).1]; exact List.Sublist.refl _
    calls := by rw [hcongr _ fun x hx => (hf x hx).2.2.1]
    waiters := hwaiters
    issued := hcalls.ge
    dispatched := fun x' _ c _ hc => hheld c hc
    clean := fun _ _ _ hc => hc }
  obtain ⟨x, hx, rfl⟩ := mem_map.mp hx'
  exact ⟨x, hx, hf x hx⟩

theorem inv_startTurn (call : ℕ) : Inv (start s call) := by
  unfold start
  split_ifs with hinside
  · refine inv_map h _ s.lock _ h.lock (List.Sublist.refl _) rfl (fun _ hc => hc) fun x _ => ?_
    split_ifs with hx
    · exact ⟨rfl, rfl, rfl, rfl, Or.inr ⟨call, mem_append_left _ hinside, hx⟩⟩
    · exact ⟨rfl, rfl, rfl, rfl, Or.inl rfl⟩
  · exact h

theorem inv_deliver (call : ℕ) : Inv (deliver s call) :=
  inv_map h _ s.lock s.queueRevision h.lock (List.Sublist.refl _) rfl (fun _ hc => hc) fun x _ => by
    split_ifs <;> exact ⟨rfl, rfl, rfl, rfl, Or.inl rfl⟩

theorem inv_proceedCall (call : ℕ) : Inv { s with lock := s.lock.proceed call } := by
  refine inv_of_kept h (inv_proceed h.lock call) (kept_of_sublist (List.Sublist.refl _) (by rw [proceed_waiters]) ?_
    (fun _ _ c _ hc => ?_) fun _ _ _ hc => hc)
  · unfold AsyncMutex.proceed
    split_ifs <;> rfl
  · unfold waitingCalls at hc ⊢
    rwa [proceed_waiters, holders_proceed_perm.mem_iff]

end

theorem leave_waiters (hinv : SessionLock.Inv s.lock) (hcall : call ∈ s.lock.inside) :
    (s.lock.leave call).waiters.Sublist s.lock.waiters ∧
    (s.lock.leave call).calls = s.lock.calls ∧
    ∀ c, c ≠ call → c ∈ holders s.lock ∨ c ∈ waitingCalls s →
      c ∈ holders (s.lock.leave call) ∨ c ∈ (s.lock.leave call).waiters.map (·.call) := by
  obtain ⟨-, hinside, hresumed⟩ := inside_eq hinv hcall
  unfold AsyncMutex.leave
  rw [if_pos hcall]
  cases hwaiters : s.lock.waiters with
  | nil =>
    refine ⟨List.Sublist.refl _, rfl, fun c hne hc => ?_⟩
    simp only [holders, hinside, hresumed, waitingCalls, hwaiters, append_nil,
      mem_singleton, map_nil, not_mem_nil, or_false] at hc
    exact absurd hc hne
  | cons next waiters =>
    refine ⟨sublist_cons_self _ _, rfl, fun c hne hc => ?_⟩
    rw [holders, hinside, hresumed, waitingCalls, hwaiters, append_nil, mem_singleton, map_cons, mem_cons] at hc
    rcases hc with hc | rfl | hc
    · exact absurd hc hne
    · exact Or.inl (by simp [holders])
    · exact Or.inr hc

theorem inv_closed (h : Inv s) (call : ℕ) : Inv (closed s call) := inv_sublist h filter_sublist

theorem call_ne_of_mem_closed (hx : x ∈ (closed s call).turnSlots) : x.call ≠ some call := by
  simpa using (mem_filter.mp hx).2

theorem inv_finish (h : Inv s) (call : ℕ) : Inv (finish s call) := by
  unfold finish
  split_ifs with hover
  · obtain ⟨hsub, hcalls, hheld⟩ := leave_waiters h.lock hover.1
    exact inv_of_kept (inv_closed h call) (inv_leave h.lock call) (kept_of_sublist (List.Sublist.refl _) hsub hcalls
      (fun x' hx' c hc hold => hheld c (fun he => call_ne_of_mem_closed hx' (he ▸ hc)) hold) fun _ _ _ hc => hc)
  · exact h

/-! ### New slots -/

theorem inv_perm (h : Inv s) {turnSlots : List TurnSlot} (hperm : turnSlots.Perm s.turnSlots) :
    Inv { s with turnSlots := turnSlots } where
  lock := h.lock
  ids := (hperm.filterMap _).nodup_iff.mpr h.ids
  calls := (hperm.filterMap _).nodup_iff.mpr h.calls
  issued := fun x hx => h.issued x (hperm.mem_iff.mp hx)
  dispatched := fun x hx => h.dispatched x (hperm.mem_iff.mp hx)
  shown := fun x hx => h.shown x (hperm.mem_iff.mp hx)
  keyed := fun w hw x hx => h.keyed w hw x (hperm.mem_iff.mp hx)
  sorted := h.sorted.imp fun hww' x hx y hy =>
    hww' x (hperm.mem_iff.mp hx) y (hperm.mem_iff.mp hy)

/-- **A slot that is announced** and has still to come to the lock. -/
theorem inv_announce (h : Inv s) (hcall : x.call = none) (hstate : x.state = .queued)
    (hannounced : x.announcedToWebui = true) (hsome : x.clientRequestId.isSome)
    (hfresh : x.key ∉ slotIds s) (hclean : Clean s x.key) :
    Inv { s with turnSlots := x :: s.turnSlots } where
  lock := h.lock
  ids := nodup_filterMap_cons h.ids fun id hid => by
    rw [TurnSlot.some_key hsome] at hid
    exact some.inj hid ▸ hfresh
  calls := nodup_filterMap_cons h.calls fun c hc => by
    rw [hcall] at hc
    cases hc
  issued := fun y hy c hc => by
    rcases mem_cons.mp hy with rfl | hy
    · rw [hcall] at hc; cases hc
    · exact h.issued y hy c hc
  dispatched := fun y hy c hc => by
    rcases mem_cons.mp hy with rfl | hy
    · rw [hcall] at hc; cases hc
    · exact h.dispatched y hy c hc
  shown := fun y hy hw => by
    rcases mem_cons.mp hy with rfl | hy
    · exact ⟨hstate, hannounced, hsome, hclean⟩
    · exact h.shown y hy hw
  keyed := fun w hw y hy hc => by
    rcases mem_cons.mp hy with rfl | hy
    · rw [hcall] at hc; cases hc
    · exact h.keyed w hw y hy hc
  sorted := h.sorted.imp fun hww' y hy z hz hyc hzc => by
    have hold : ∀ v ∈ x :: s.turnSlots, ∀ c, v.call = some c → v ∈ s.turnSlots := by
      intro v hv c hvc
      rcases mem_cons.mp hv with rfl | hv
      · rw [hcall] at hvc; cases hvc
      · exact hv
    exact hww' y (hold y hy _ hyc) z (hold z hz _ hzc) hyc hzc

/-! ### Slots that come to the lock -/

theorem waitingCalls_lt (h : SessionLock.Inv s.lock) {c : ℕ} (hc : c ∈ waitingCalls s) : c < s.lock.calls :=
  h.issued c (mem_append_right _ (mem_append_right _ hc))

/-- The slots with one more, whose call is the next of the lock. -/
def dispatched (s : State) (x : TurnSlot) : State :=
  { s with
    lock := (dispatchSlot s.lock x).1
    turnSlots := (dispatchSlot s.lock x).2 :: s.turnSlots }

theorem enter_locked (hlocked : s.lock.locked = true) : (dispatched s x).lock = { s.lock with
    calls := s.lock.calls + 1
    waiters := insertWaiter ⟨x.queuedAt, x.key, s.lock.calls⟩ s.lock.waiters } :=
  if_pos hlocked

theorem enter_free (hfree : ¬ s.lock.locked = true) : (dispatched s x).lock = { s.lock with
    calls := s.lock.calls + 1
    locked := true
    inside := s.lock.inside ++ [s.lock.calls] } :=
  if_neg hfree

theorem enter_calls : (dispatched s x).lock.calls = s.lock.calls + 1 := by
  by_cases hlocked : s.lock.locked = true
  · rw [enter_locked hlocked]
  · rw [enter_free hlocked]

theorem mem_waitingCalls_enter (hlocked : s.lock.locked = true) {c : ℕ} :
    c ∈ waitingCalls (dispatched s x) ↔ c = s.lock.calls ∨ c ∈ waitingCalls s := by
  unfold waitingCalls
  rw [enter_locked hlocked, ((insertWaiter_perm _ s.lock.waiters).map (·.call)).mem_iff, map_cons, mem_cons]

theorem mem_dispatched (hy : y ∈ (dispatched s x).turnSlots) :
    y = { x with call := some s.lock.calls } ∨ y ∈ s.turnSlots := mem_cons.mp hy

section
variable (h : Inv s)
include h

theorem call_ne_of_inv (hy : y ∈ s.turnSlots) : y.call ≠ some s.lock.calls :=
  fun hc => (h.issued y hy _ hc).ne rfl

theorem sorted_enter (hlocked : s.lock.locked = true) (hplaced : Placed s x) :
    (dispatched s x).lock.waiters.Pairwise fun w w' => ∀ y ∈ (dispatched s x).turnSlots,
      ∀ z ∈ (dispatched s x).turnSlots, y.call = some w.call → z.call = some w'.call →
        Before y z := by
  obtain ⟨-, -, -, hfront, hback⟩ := hplaced hlocked
  rw [enter_locked hlocked]
  have hold : ∀ w ∈ s.lock.waiters, ∀ y ∈ (dispatched s x).turnSlots, y.call = some w.call →
      y ∈ s.turnSlots := by
    intro w hw y hy hc
    rcases mem_dispatched hy with rfl | hy
    · have hlt := waitingCalls_lt h.lock (mem_map.mpr ⟨w, hw, rfl⟩)
      exact absurd (some.inj hc) hlt.ne'
    · exact hy
  have hnew : ∀ y ∈ (dispatched s x).turnSlots, y.call = some s.lock.calls → y.item = x.item := by
    intro y hy hc
    rcases mem_dispatched hy with rfl | hy
    · rfl
    · exact absurd hc (call_ne_of_inv h hy)
  have hsorted : s.lock.waiters.Pairwise fun w w' => ∀ y ∈ (dispatched s x).turnSlots,
      ∀ z ∈ (dispatched s x).turnSlots, y.call = some w.call → z.call = some w'.call →
        Before y z :=
    h.sorted.imp_of_mem fun {w w'} hw hw' hww' y hy z hz hyc hzc =>
      hww' y (hold w hw y hy hyc) z (hold w' hw' z hz hzc) hyc hzc
  refine pairwise_insertWaiter hsorted (fun w hw y hy z hz hyc hzc => ?_)
    fun w hw y hy z hz hyc hzc => ?_
  · have hbefore := hfront w hw y (hold w ((takeWhile_sublist _).mem hw) y hy hyc) hyc
    unfold Before at hbefore ⊢
    rwa [hnew z hz hzc]
  · have hbefore := hback w hw z (hold w ((dropWhile_sublist _).mem hw) z hz hzc) hzc
    unfold Before at hbefore ⊢
    rwa [hnew y hy hyc]

theorem inv_dispatch (hqueued : x.state = .queued)
    (hfresh : ∀ id ∈ x.clientRequestId, id ∉ slotIds s) (hplaced : Placed s x) :
    Inv (dispatched s x) where
  lock := inv_enter h.lock _ _
  ids := nodup_filterMap_cons h.ids hfresh
  calls := nodup_filterMap_cons h.calls fun c hc hmem => by
    obtain ⟨y, hy, hyc⟩ := mem_filterMap.mp hmem
    exact call_ne_of_inv h hy (hyc.trans (by rw [← some.inj hc]))
  issued := fun y hy c hc => by
    rw [enter_calls]
    rcases mem_dispatched hy with rfl | hy
    · rw [← some.inj hc]
      exact Nat.lt_succ_self _
    · exact (h.issued y hy c hc).trans (Nat.lt_succ_self _)
  dispatched := fun y hy c hc => by
    by_cases hlocked : s.lock.locked = true
    · have hholders : holders (dispatched s x).lock = holders s.lock := by
        rw [enter_locked hlocked]; rfl
      rw [hholders, mem_waitingCalls_enter hlocked]
      rcases mem_dispatched hy with rfl | hy
      · exact Or.inr (Or.inl (some.inj hc).symm)
      · exact (h.dispatched y hy c hc).imp id Or.inr
    · rw [waitingCalls, enter_free hlocked]
      rcases mem_dispatched hy with rfl | hy
      · exact Or.inl (by simp [holders, ← some.inj hc])
      · refine (h.dispatched y hy c hc).imp (fun hheld => ?_) id
        rcases mem_append.mp hheld with hin | hres
        · exact mem_append_left _ (mem_append_left _ hin)
        · exact mem_append_right _ hres
  shown := fun y hy hw => by
    by_cases hlocked : s.lock.locked = true
    · obtain ⟨hann, hsome, hclean, -⟩ := hplaced hlocked
      rcases mem_dispatched hy with rfl | hy
      · exact ⟨hqueued, hann, hsome, hclean⟩
      · exact h.shown y hy fun c hc =>
          ((mem_waitingCalls_enter hlocked).mp (hw c hc)).resolve_left fun he =>
            call_ne_of_inv h hy (he ▸ hc)
    · have hnone : waitingCalls (dispatched s x) = [] := by
        rw [waitingCalls, enter_free hlocked, h.lock.idle (Bool.eq_false_iff.mpr hlocked)]
        rfl
      rcases mem_dispatched hy with rfl | hy
      · have hmem := hw s.lock.calls rfl
        rw [hnone] at hmem
        cases hmem
      · exact h.shown y hy fun c hc => by
          have hmem := hw c hc
          rw [hnone] at hmem
          cases hmem
  keyed := fun w hw y hy hc => by
    by_cases hlocked : s.lock.locked = true
    · rw [enter_locked hlocked, (insertWaiter_perm _ s.lock.waiters).mem_iff, mem_cons] at hw
      rcases mem_dispatched hy with rfl | hy
      · rcases hw with rfl | hw
        · rfl
        · have hlt := waitingCalls_lt h.lock (mem_map.mpr ⟨w, hw, rfl⟩)
          exact absurd (some.inj hc) hlt.ne'
      · rcases hw with rfl | hw
        · exact absurd hc (call_ne_of_inv h hy)
        · exact h.keyed w hw y hy hc
    · rw [enter_free hlocked, h.lock.idle (Bool.eq_false_iff.mpr hlocked)] at hw
      cases hw
  sorted := by
    by_cases hlocked : s.lock.locked = true
    · exact sorted_enter h hlocked hplaced
    · rw [enter_free hlocked, h.lock.idle (Bool.eq_false_iff.mpr hlocked)]
      exact List.Pairwise.nil

theorem inv_arrive (a : Arrival) (ha : Admitted s (.arrive a)) : Inv (arrive s a) := by
  obtain ⟨hfresh, ha⟩ := ha
  unfold arrive
  split_ifs at ha ⊢ with hvisible
  · have hsome : a.clientRequestId.isSome := by
      exact (of_decide_eq_true hvisible).2.2
    have hid : a.clientRequestId = some (queuedSlot s a).key := TurnSlot.some_key (x := queuedSlot s a) hsome
    have hnew := inv_announce (x := queuedSlot s a) h rfl rfl rfl hsome (hfresh _ hid) (ha _ hid)
    exact inv_lists (inv_perm hnew (perm_append_singleton _ _)) rfl rfl fun _ _ _ hc => hc
  · have hnew := inv_dispatch (x := directSlot a) h rfl hfresh ha
    exact inv_perm hnew (perm_append_singleton _ _)

theorem inv_openGate (i : ℕ) (ha : Admitted s (.openGate i)) : Inv (openGate s i) := by
  unfold openGate
  cases hi : s.turnSlots[i]? with
  | none => exact h
  | some x =>
    dsimp only
    split_ifs with hcall
    · obtain ⟨hlt, rfl⟩ := List.getElem?_eq_some_iff.mp hi
      have hplaced := ha _ hi hcall
      have hx := getElem_mem hlt
      have hsub := eraseIdx_sublist s.turnSlots i
      have hperm := getElem_cons_eraseIdx_perm hlt
      have hrest : Inv { s with turnSlots := s.turnSlots.eraseIdx i } := inv_sublist h hsub
      have hqueued := (h.shown _ hx fun c hc => by rw [hcall] at hc; cases hc).1
      have hnew := inv_dispatch hrest hqueued
        (fun id hid => by
          have hids := (hperm.filterMap fun y : TurnSlot => y.clientRequestId).nodup_iff.mpr h.ids
          rw [filterMap_cons_some hid, nodup_cons] at hids
          exact hids.1)
        (fun hlocked => by
          obtain ⟨hann, hsome, hclean, hfront, hback⟩ := hplaced hlocked
          exact ⟨hann, hsome, hclean, fun w hw y hy => hfront w hw y (hsub.mem hy),
            fun w hw y hy => hback w hw y (hsub.mem hy)⟩)
      exact inv_perm hnew (set_perm_cons_eraseIdx hlt _)
    · exact h

theorem inv_requeue (item : QueueItem) (ha : Admitted s (.requeue item)) :
    Inv (scheduleRecoveredQueueSlot s item) := by
  obtain ⟨hfresh, hne, hgoal, hinbox⟩ := ha
  have hclean : Clean (consume s item.clientRequestId) item.clientRequestId := by
    refine ⟨hne, fun hmem => ?_, hgoal, hinbox⟩
    obtain ⟨x, hx, hkey⟩ := mem_map.mp hmem
    exact absurd hkey (by simpa using (mem_filter.mp hx).2)
  have hnew := inv_announce (x := recoveredSlot item) (inv_consume h item.clientRequestId) rfl rfl rfl
    rfl hfresh hclean
  refine inv_lists (inv_perm hnew ?_) rfl rfl fun _ _ _ hc => hc
  refine perm_middle.trans ?_
  rw [takeWhile_append_dropWhile]
  rfl

/-- A user of the lock without a slot. -/
theorem inv_enterOther (priority : ℕ) : Inv { s with lock := s.lock.enter priority "" } := by
  -- a slot that is neither announced nor kept stands for it
  let x : TurnSlot := { clientRequestId := none, queuedAt := priority }
  have hold : ∀ y ∈ s.turnSlots, y.call ≠ some s.lock.calls := fun y hy => call_ne_of_inv h hy
  by_cases hlocked : s.lock.locked = true
  · have hlock : s.lock.enter priority "" = { s.lock with
        calls := s.lock.calls + 1
        waiters := insertWaiter ⟨priority, "", s.lock.calls⟩ s.lock.waiters } := if_pos hlocked
    have hmem : ∀ c, c ∈ (s.lock.enter priority "").waiters.map (·.call) ↔
        c = s.lock.calls ∨ c ∈ waitingCalls s := fun c =>
      mem_waitingCalls_enter (x := x) hlocked
    exact {
      lock := inv_enter h.lock _ _
      ids := h.ids
      calls := h.calls
      issued := fun y hy c hc => by
        rw [hlock]
        exact (h.issued y hy c hc).trans (Nat.lt_succ_self _)
      dispatched := fun y hy c hc => by
        change c ∈ holders (s.lock.enter priority "") ∨ c ∈ (s.lock.enter priority "").waiters.map _
        rw [hmem, hlock]
        exact (h.dispatched y hy c hc).imp id Or.inr
      shown := fun y hy hw => h.shown y hy fun c hc =>
        ((hmem c).mp (hw c hc)).resolve_left fun he => hold y hy (he ▸ hc)
      keyed := fun w hw y hy hc => by
        rw [hlock, (insertWaiter_perm _ s.lock.waiters).mem_iff, mem_cons] at hw
        rcases hw with rfl | hw
        · exact absurd hc (hold y hy)
        · exact h.keyed w hw y hy hc
      sorted := by
        rw [hlock]
        exact pairwise_insertWaiter h.sorted (fun _ _ _ _ z hz _ hzc => absurd hzc (hold z hz))
          fun _ _ y hy _ _ hyc => absurd hyc (hold y hy) }
  · have hlock : s.lock.enter priority "" = { s.lock with
        calls := s.lock.calls + 1
        locked := true
        inside := s.lock.inside ++ [s.lock.calls] } := if_neg hlocked
    exact {
      lock := inv_enter h.lock _ _
      ids := h.ids
      calls := h.calls
      issued := fun y hy c hc => by
        rw [hlock]
        exact (h.issued y hy c hc).trans (Nat.lt_succ_self _)
      dispatched := fun y hy c hc => by
        rw [hlock]
        refine (h.dispatched y hy c hc).imp (fun hheld => ?_) id
        rcases mem_append.mp hheld with hin | hres
        · exact mem_append_left _ (mem_append_left _ hin)
        · exact mem_append_right _ hres
      shown := fun y hy hw => h.shown y hy fun c hc => by
        have hcw : c ∈ (s.lock.enter priority "").waiters.map (·.call) := hw c hc
        rwa [hlock] at hcw
      keyed := fun w hw y hy hc => by
        rw [hlock] at hw
        exact h.keyed w hw y hy hc
      sorted := by
        rw [hlock]
        exact h.sorted }

/-- The slot that goes on under the call of another has the lock. -/
theorem inv_succeed (call : ℕ) (next : Option String) (timestamp : ℕ)
    (hfresh : ∀ id ∈ next, id ∉ slotIds s) : Inv (succeed s call next timestamp) := by
  unfold succeed
  split_ifs with hover
  · by_cases hslot : ∃ x ∈ s.turnSlots, x.call = some call
    · obtain ⟨x, hx, hcall⟩ := hslot
      obtain ⟨front, back, hsplit⟩ := append_of_mem hx
      let x' : TurnSlot := { clientRequestId := next, queuedAt := timestamp, call := some call }
      have hother : ∀ y ∈ front ++ back, y.call ≠ some call := fun y hy hyc => by
        have hcalls := h.calls
        rw [hsplit, filterMap_append, filterMap_cons_some hcall] at hcalls
        have hnot := nodup_middle.mp hcalls
        rw [nodup_cons, ← filterMap_append] at hnot
        exact hnot.1 (mem_filterMap.mpr ⟨y, hy, hyc⟩)
      have hmem : ∀ y ∈ front ++ back, y ∈ s.turnSlots := fun y hy => by
        rw [hsplit, perm_middle.mem_iff]
        exact mem_cons_of_mem _ hy
      have hmap : s.turnSlots.map (fun y => if y.call = some call then x' else y) =
          front ++ x' :: back := by
        rw [hsplit, map_append, map_cons, if_pos hcall,
          map_congr_left fun y hy => if_neg (hother y (mem_append_left _ hy)),
          map_congr_left fun y hy => if_neg (hother y (mem_append_right _ hy))]
        simp
      have hinside : call ∈ holders s.lock := mem_append_left _ hover.1
      have hnotwaiting : call ∉ waitingCalls s := fun hw =>
        (nodup_append.mp h.lock.held_waiting).2.2 call hinside call hw rfl
      have hold : ∀ y ∈ x' :: (front ++ back), ∀ c ∈ waitingCalls s, y.call = some c → y ∈ s.turnSlots := by
        intro y hy c hc hyc
        rcases mem_cons.mp hy with rfl | hy
        · exact absurd (some.inj hyc ▸ hc) hnotwaiting
        · exact hmem y hy
      have hnew : Inv { s with turnSlots := x' :: (front ++ back) } := {
        lock := h.lock
        ids := nodup_filterMap_cons
          (h.ids.sublist (by
            rw [slotIds, hsplit]
            exact ((sublist_cons_self _ _).append_left _).filterMap _))
          fun id hid hin => by
            obtain ⟨y, hy, hyid⟩ := mem_filterMap.mp hin
            exact hfresh id hid (mem_filterMap.mpr ⟨y, hmem y hy, hyid⟩)
        calls := nodup_filterMap_cons
          (h.calls.sublist (by
            rw [hsplit]
            exact ((sublist_cons_self _ _).append_left _).filterMap _))
          fun c hc hin => by
            obtain ⟨y, hy, hyc⟩ := mem_filterMap.mp hin
            exact hother y hy (by rw [hyc, some.inj hc])
        issued := fun y hy c hc => by
          rcases mem_cons.mp hy with rfl | hy
          · rw [← some.inj hc]
            exact h.issued x hx call hcall
          · exact h.issued y (hmem y hy) c hc
        dispatched := fun y hy c hc => by
          rcases mem_cons.mp hy with rfl | hy
          · exact Or.inl (some.inj hc ▸ hinside)
          · exact h.dispatched y (hmem y hy) c hc
        shown := fun y hy hw => by
          rcases mem_cons.mp hy with rfl | hy
          · exact absurd (hw call rfl) hnotwaiting
          · exact h.shown y (hmem y hy) hw
        keyed := fun w hw y hy hyc =>
          h.keyed w hw y (hold y hy _ (mem_map.mpr ⟨w, hw, rfl⟩) hyc) hyc
        sorted := h.sorted.imp_of_mem fun {w w'} hw hw' hww' y hy z hz hyc hzc =>
          hww' y (hold y hy _ (mem_map.mpr ⟨w, hw, rfl⟩) hyc)
            z (hold z hz _ (mem_map.mpr ⟨w', hw', rfl⟩) hzc) hyc hzc }
      rw [hmap]
      exact inv_perm hnew perm_middle
    · have hmap : s.turnSlots.map (fun y => if y.call = some call then
          { clientRequestId := next, queuedAt := timestamp, call := some call : TurnSlot } else y) =
          s.turnSlots := by
        rw [map_congr_left fun y hy => if_neg fun hc => hslot ⟨y, hy, hc⟩]
        simp
      rw [hmap]
      exact h
  · exact h

end

/-! ### Reordering -/

theorem mem_orderedIds
    (h : reorderOutcome s orderedIds revision = .reordered) {id : String} (hid : id ∈ queueIds s) :
    id ∈ orderedIds := by
  unfold reorderOutcome at h
  split_ifs at h with hstale
  push Not at hstale
  obtain ⟨-, -, hlen, hnodup, hsub⟩ := hstale
  exact ((hnodup.subperm hsub).perm_of_length_le hlen.ge).mem_iff.mpr hid

/-- A slot with its new time. -/
def retimed (s : State) (orderedIds : List String) (x : TurnSlot) : TurnSlot :=
  if reorderable x then { x with queuedAt := queuedAtById s orderedIds x.key } else x

theorem retimed_fields : (retimed s orderedIds x).clientRequestId = x.clientRequestId ∧
    (retimed s orderedIds x).call = x.call ∧ (retimed s orderedIds x).state = x.state ∧
    (retimed s orderedIds x).announcedToWebui = x.announcedToWebui := by
  unfold retimed; split_ifs <;> exact ⟨rfl, rfl, rfl, rfl⟩

theorem reorderable_of_waits (h : Inv s) (hx : x ∈ s.turnSlots) (hw : Waits s x) : reorderable x = true := by
  obtain ⟨hqueued, hann, hsome, -⟩ := h.shown x hx hw
  simp [reorderable, shownQueued, hqueued, hann, hsome]

theorem waits_of_call {w : Waiter} (hw : w ∈ s.lock.waiters) (hc : x.call = some w.call) :
    Waits s x := fun c hxc => by
  rw [hc] at hxc
  exact some.inj hxc ▸ mem_map.mpr ⟨w, hw, rfl⟩

/-- **The waiters in the new order** are in the order of the new times. -/
theorem sorted_reorder (h : Inv s) (houtcome : reorderOutcome s orderedIds revision = .reordered) :
    (s.lock.reorderWaiters orderedIds).waiters.Pairwise fun w w' =>
      ∀ x ∈ s.turnSlots, ∀ y ∈ s.turnSlots, x.call = some w.call → y.call = some w'.call →
        Before (retimed s orderedIds x) (retimed s orderedIds y) := by
  have hranked : ∀ w ∈ s.lock.waiters, ∀ x ∈ s.turnSlots, x.call = some w.call →
      reorderable x = true ∧ x.key ∈ orderedIds ∧ w.key = x.key ∧ ranked orderedIds w = true := by
    intro w hw x hx hc
    have hwaits := waits_of_call hw hc
    have hre := reorderable_of_waits h hx hwaits
    have hmem : x.key ∈ orderedIds := mem_orderedIds houtcome (mem_append_left _
      (mem_map.mpr ⟨x, mem_filter.mpr ⟨hx, hre⟩, rfl⟩))
    have hkey := h.keyed w hw x hx hc
    exact ⟨hre, hmem, hkey, by simp [ranked, hkey, hmem, (h.shown x hx hwaits).2.2.2.1]⟩
  let live (w : Waiter) : Bool := s.turnSlots.any fun x => x.call = some w.call
  -- only the waiters with a slot count, and they are all among those that are sorted
  suffices hlive : ((s.lock.reorderWaiters orderedIds).waiters.filter live).Pairwise fun w w' =>
      ∀ x ∈ s.turnSlots, ∀ y ∈ s.turnSlots, x.call = some w.call → y.call = some w'.call →
        Before (retimed s orderedIds x) (retimed s orderedIds y) by
    refine (pairwise_filter.mp hlive).imp fun {w w'} hww' x hx y hy hxc hyc => ?_
    exact hww' (any_eq_true.mpr ⟨x, hx, decide_eq_true hxc⟩)
      (any_eq_true.mpr ⟨y, hy, decide_eq_true hyc⟩) x hx y hy hxc hyc
  have hperm := sortBy_perm (ascending (rank orderedIds)) (s.lock.waiters.filter (ranked orderedIds))
  unfold AsyncMutex.reorderWaiters
  rw [filter_refill hperm.length_eq fun w hw hlive => by
    obtain ⟨x, hx, hc⟩ := any_eq_true.mp hlive
    exact (hranked w hw x hx (of_decide_eq_true hc)).2.2.2]
  have hcalls : ((sortBy (ascending (rank orderedIds)) (s.lock.waiters.filter
      (ranked orderedIds))).map (·.call)).Nodup := by
    rw [(hperm.map _).nodup_iff]
    exact (nodup_append.mp h.lock.held_waiting).2.1.sublist (filter_sublist.map _)
  have hsorted := (pairwise_sortBy (ascending (rank orderedIds)) (s.lock.waiters.filter
    (ranked orderedIds))).and (pairwise_map.mp hcalls)
  refine (hsorted.imp_of_mem fun {w w'} hw hw' hww' x hx y hy hxc hyc => ?_).sublist
    filter_sublist
  have hin : ∀ v ∈ sortBy (ascending (rank orderedIds)) (s.lock.waiters.filter (ranked orderedIds)),
      v ∈ s.lock.waiters := fun v hv => mem_of_mem_filter ((mem_sortBy _).mp hv)
  obtain ⟨hrx, hmx, hkx, -⟩ := hranked w (hin w hw) x hx hxc
  obtain ⟨hry, hmy, hky, -⟩ := hranked w' (hin w' hw') y hy hyc
  have hle : orderedIds.idxOf x.key ≤ orderedIds.idxOf y.key := by
    have := ascending_isLE.mp hww'.1
    unfold rank at this
    rwa [hkx, hky] at this
  -- two slots have two keys, and two keys two ranks
  have hne : x.key ≠ y.key := fun hkey => by
    have hxs := (h.shown x hx (waits_of_call (hin w hw) hxc)).2.2.1
    have hys := (h.shown y hy (waits_of_call (hin w' hw') hyc)).2.2.1
    have hxy := eq_of_nodup_filterMap h.ids hx hy (TurnSlot.some_key hxs) (hkey ▸ TurnSlot.some_key hys)
    rw [hxy, hyc] at hxc
    exact hww'.2 (some.inj hxc).symm
  have hlt : orderedIds.idxOf x.key < orderedIds.idxOf y.key :=
    lt_of_le_of_ne hle fun he => hne ((idxOf_inj hmx).mp he)
  refine compareLex_eq_lt_of_left ?_
  change compare (retimed s orderedIds x).queuedAt (retimed s orderedIds y).queuedAt = .lt
  rw [retimed, retimed, if_pos hrx, if_pos hry, compare_lt_iff_lt]
  exact Nat.add_lt_add_left hlt _

theorem inv_reorderSlots (h : Inv s)
    (houtcome : reorderOutcome s orderedIds revision = .reordered) (next : ℕ) :
    Inv { s with
      turnSlots := s.turnSlots.map (retimed s orderedIds)
      lock := s.lock.reorderWaiters orderedIds
      queueRevision := next } := by
  have hback : ∀ x' ∈ s.turnSlots.map (retimed s orderedIds), ∃ x ∈ s.turnSlots,
      x' = retimed s orderedIds x := fun x' hx' => by
    obtain ⟨x, hx, rfl⟩ := mem_map.mp hx'
    exact ⟨x, hx, rfl⟩
  have hmem : ∀ c, c ∈ (s.lock.reorderWaiters orderedIds).waiters.map (·.call) ↔
      c ∈ waitingCalls s := fun c => ((reorderWaiters_perm s.lock orderedIds).map (·.call)).mem_iff
  exact {
    lock := inv_reorderWaiters h.lock orderedIds
    ids := by
      have hids : (s.turnSlots.map (retimed s orderedIds)).filterMap (·.clientRequestId) =
          slotIds s := by
        rw [filterMap_map]
        exact filterMap_congr fun x _ => retimed_fields.1
      rw [slotIds, hids]
      exact h.ids
    calls := by
      have hcalls : (s.turnSlots.map (retimed s orderedIds)).filterMap (·.call) =
          s.turnSlots.filterMap (·.call) := by
        rw [filterMap_map]
        exact filterMap_congr fun x _ => retimed_fields.2.1
      exact hcalls ▸ h.calls
    issued := fun x' hx' c hc => by
      obtain ⟨x, hx, rfl⟩ := hback x' hx'
      exact h.issued x hx c (retimed_fields.2.1 ▸ hc)
    dispatched := fun x' hx' c hc => by
      obtain ⟨x, hx, rfl⟩ := hback x' hx'
      exact (h.dispatched x hx c (retimed_fields.2.1 ▸ hc)).imp id (hmem c).mpr
    shown := fun x' hx' hw => by
      obtain ⟨x, hx, rfl⟩ := hback x' hx'
      obtain ⟨hid, hcall, hstate, hann⟩ := @retimed_fields s x orderedIds
      rw [hstate, hann, hid, TurnSlot.key, hid]
      exact h.shown x hx fun c hc => (hmem c).mp (hw c (hcall ▸ hc))
    keyed := fun w hw x' hx' hc => by
      obtain ⟨x, hx, rfl⟩ := hback x' hx'
      rw [TurnSlot.key, retimed_fields.1]
      exact h.keyed w ((reorderWaiters_perm s.lock orderedIds).mem_iff.mp hw) x hx
        (retimed_fields.2.1 ▸ hc)
    sorted := (sorted_reorder h houtcome).imp fun {w w'} hww' x' hx' y' hy' hxc hyc => by
      obtain ⟨x, hx, rfl⟩ := hback x' hx'
      obtain ⟨y, hy, rfl⟩ := hback y' hy'
      exact hww' x hx y hy (retimed_fields.2.1 ▸ hxc) (retimed_fields.2.1 ▸ hyc) }

theorem inv_reorder (h : Inv s) (orderedIds : List String) (revision : ℕ) :
    Inv (reorderQueuedWebuiMessages s orderedIds revision) := by
  unfold reorderQueuedWebuiMessages
  cases houtcome : reorderOutcome s orderedIds revision with
  | stale => exact h
  | unsupported => exact h
  | reordered =>
    split_ifs
    · exact inv_reorderSlots h houtcome _
    · refine inv_lists h rfl rfl fun x _ _ hc => ⟨hc.1, hc.2.1, hc.2.2.1, fun hmem => hc.2.2.2 ?_⟩
      obtain ⟨entry, hentry, hkey⟩ := mem_map.mp hmem
      rcases mem_of_mem_refill hentry with hold | hnew
      · exact mem_map.mpr ⟨entry, hold, hkey⟩
      · obtain ⟨id, -, hfound⟩ := mem_filterMap.mp hnew
        obtain ⟨old, hfind, rfl⟩ := map_eq_some_iff.mp hfound
        exact mem_map.mpr ⟨old, mem_of_find?_eq_some hfind, hkey⟩

theorem inv_step (h : Inv s) (e : Event) (ha : Admitted s e) : Inv (step s e) := by
  cases e with
  | arrive a => exact inv_arrive h a ha
  | openGate i => exact inv_openGate h i ha
  | announceFails i => exact inv_announceFails h i
  | proceed call => exact inv_proceedCall h call
  | start call => exact inv_startTurn h call
  | deliver call => exact inv_deliver h call
  | finish call => exact inv_finish h call
  | succeed call next timestamp => exact inv_succeed h call next timestamp ha.1
  | reorder orderedIds revision => exact inv_reorder h orderedIds revision
  | remove id => exact inv_remove h id
  | steer id => exact inv_steer h id
  | consume id => exact inv_consume h id
  | requeue item => exact inv_requeue h item ha
  | enter priority => exact inv_enterOther h priority
  | goal inbox goalAdmissions => exact inv_goal h ha

/-! ### The snapshot -/

theorem item_mem_items (h : Inv s) (hx : x ∈ s.turnSlots) (hw : Waits s x) :
    x.item ∈ (getQueueSnapshot s).items := by
  obtain ⟨hqueued, hann, hsome, -, hadm, hgoal, hinbox⟩ := h.shown x hx hw
  have hslot : ∀ y ∈ s.turnSlots, ∀ item, y.item? = some item → item.clientRequestId = x.key → y = x := by
    intro y hy item hitem hid
    obtain ⟨id, hyid, rfl⟩ := map_eq_some_iff.mp hitem
    exact eq_of_nodup_filterMap h.ids hy hx (hid ▸ hyid) (TurnSlot.some_key hsome)
  have hnot_inbox : ∀ entry ∈ s.inbox, entry.clientRequestId ≠ x.key := fun entry hentry he =>
    hinbox (mem_map.mpr ⟨entry, hentry, he⟩)
  rw [getQueueSnapshot, mem_sortBy, mem_filter]
  refine ⟨mem_ofList_of_unique ?_ fun item hitem hid => ?_, decide_eq_true fun hstarted => ?_⟩
  · refine mem_append_left _ (mem_filterMap.mpr ⟨x, mem_filter.mpr ⟨hx, ?_⟩, TurnSlot.item?_eq hsome⟩)
    simp [shownQueued, hqueued, hann]
  · rcases mem_append.mp hitem with hitem | hitem
    · obtain ⟨y, hy, hyi⟩ := mem_filterMap.mp hitem
      have hyx := hslot y (mem_of_mem_filter hy) item hyi hid
      rw [hyx, TurnSlot.item?_eq hsome] at hyi
      exact (some.inj hyi).symm
    · obtain ⟨entry, hentry, rfl⟩ := mem_map.mp hitem
      exact absurd hid (hnot_inbox entry (mem_of_mem_filter hentry))
  · obtain ⟨item, hitem, hid⟩ := mem_map.mp hstarted
    rcases mem_append.mp hitem with hitem | hitem
    · rcases mem_append.mp hitem with hitem | hitem
      · rcases mem_append.mp hitem with hitem | hitem
        · obtain ⟨y, hy, hyi⟩ := mem_filterMap.mp hitem
          have hyx := hslot y (mem_of_mem_filter hy) item hyi hid
          have hrunning := (mem_filter.mp hy).2
          rw [hyx] at hrunning
          simp [shownStarted, hqueued] at hrunning
        · obtain ⟨entry, hentry, rfl⟩ := mem_map.mp hitem
          exact hnot_inbox entry (mem_of_mem_filter hentry) hid
      · exact hadm (mem_map.mpr ⟨item, hitem, hid⟩)
    · exact hgoal (mem_map.mpr ⟨item, hitem, hid⟩)

theorem slot_of_openItem (h : Inv s) (hheld : ∀ x ∈ s.turnSlots, ∀ c ∈ x.call, c ∈ waitingCalls s)
    {item : QueueItem} (hitem : item ∈ openItems s) :
    ∃ x ∈ s.turnSlots, x.call.isSome ∧ item = x.item := by
  obtain ⟨hitems, hopen⟩ := mem_filter.mp hitem
  obtain ⟨x, hx, hopen⟩ := any_eq_true.mp hopen
  simp only [Bool.and_eq_true, decide_eq_true_iff] at hopen
  obtain ⟨⟨-, hid⟩, hcall⟩ := hopen
  have hw : Waits s x := hheld x hx
  obtain ⟨-, -, hsome, -, -, -, hinbox⟩ := h.shown x hx hw
  have hkey : x.key = item.clientRequestId := by rw [TurnSlot.key, hid]; rfl
  refine ⟨x, hx, hcall, ?_⟩
  rw [getQueueSnapshot, mem_sortBy] at hitems
  rcases mem_append.mp (mem_of_mem_ofList (mem_of_mem_filter hitems)) with hitem | hitem
  · obtain ⟨y, hy, hyi⟩ := mem_filterMap.mp hitem
    obtain ⟨id, hyid, rfl⟩ := map_eq_some_iff.mp hyi
    have hyx : y = x := eq_of_nodup_filterMap h.ids (mem_of_mem_filter hy) hx hyid hid
    rw [← hyx, TurnSlot.item, TurnSlot.key, hyid]
    rfl
  · obtain ⟨entry, hentry, rfl⟩ := mem_map.mp hitem
    exact absurd (List.mem_map.mpr ⟨entry, mem_of_mem_filter hentry, hkey.symm⟩) hinbox

/-! ### The two orders -/

instance : Std.TransCmp itemOrder := inferInstanceAs (Std.TransCmp (compareLex (ascending _) (ascending _)))

theorem eq_of_itemOrder {a b : QueueItem} (h : itemOrder a b = .eq) : a = b := by
  obtain ⟨hq, hid⟩ := compareLex_eq_eq.mp h
  obtain ⟨id, q⟩ := a
  obtain ⟨id', q'⟩ := b
  have hq : q = q' := compare_eq_iff_eq.mp hq
  have hid : id = id' := Std.LawfulEqCmp.eq_of_compare hid
  rw [hq, hid]

theorem slotOf_eq_some (h : Inv s) {w : Waiter} :
    slotOf s w = some x ↔ x ∈ s.turnSlots ∧ x.call = some w.call := by
  unfold slotOf
  constructor
  · exact fun hfind => ⟨mem_of_find?_eq_some hfind, by simpa using find?_some hfind⟩
  · rintro ⟨hx, hc⟩
    have hsome : (s.turnSlots.find? (·.call = some w.call)).isSome :=
      find?_isSome.mpr ⟨x, hx, decide_eq_true hc⟩
    obtain ⟨y, hy⟩ := isSome_iff_exists.mp hsome
    have hyc : y.call = some w.call := by simpa using find?_some hy
    rw [hy, eq_of_nodup_filterMap h.calls (mem_of_find?_eq_some hy) hx hyc hc]

theorem waitingSlots_sorted (h : Inv s) : (waitingSlots s).Pairwise Before :=
  pairwise_filterMap.mpr (h.sorted.imp fun {w w'} hww' x hx y hy => by
    obtain ⟨hxm, hxc⟩ := (slotOf_eq_some h).mp hx
    obtain ⟨hym, hyc⟩ := (slotOf_eq_some h).mp hy
    exact hww' x hxm y hym hxc hyc)

/-- **Shown order is run order.** When no slot has the lock, the open items of the snapshot are the
waiting slots in the order in which the lock is given to them. -/
theorem openItems_eq (h : Inv s) (hheld : ∀ x ∈ s.turnSlots, ∀ c ∈ x.call, c ∈ waitingCalls s) :
    (waitingSlots s).map TurnSlot.item = openItems s := by
  have hmem : ∀ item, item ∈ (waitingSlots s).map TurnSlot.item ↔ item ∈ openItems s := by
    intro item
    constructor
    · intro hitem
      obtain ⟨x, hx, rfl⟩ := mem_map.mp hitem
      obtain ⟨w, hw, hslot⟩ := mem_filterMap.mp hx
      obtain ⟨hxm, hxc⟩ := (slotOf_eq_some h).mp hslot
      obtain ⟨hqueued, hann, hsome, -⟩ := h.shown x hxm (hheld x hxm)
      refine mem_filter.mpr ⟨item_mem_items h hxm (hheld x hxm), any_eq_true.mpr ⟨x, hxm, ?_⟩⟩
      simp [shownQueued, hqueued, hann, hxc, TurnSlot.some_key hsome, TurnSlot.item]
    · intro hitem
      obtain ⟨x, hx, hcall, rfl⟩ := slot_of_openItem h hheld hitem
      obtain ⟨c, hc⟩ := isSome_iff_exists.mp hcall
      obtain ⟨w, hw, rfl⟩ := mem_map.mp (hheld x hx c hc)
      exact mem_map.mpr ⟨x, mem_filterMap.mpr ⟨w, hw, (slotOf_eq_some h).mpr ⟨hx, hc⟩⟩, rfl⟩
  have hsorted : ((waitingSlots s).map TurnSlot.item).Pairwise fun a b => itemOrder a b = .lt :=
    pairwise_map.mpr (waitingSlots_sorted h)
  have hnodup : ((waitingSlots s).map TurnSlot.item).Nodup := hsorted.imp fun {a b} hlt he => by
    have hself : itemOrder b b = .eq := Std.ReflCmp.compare_self
    rw [he, hself] at hlt
    cases hlt
  have hopen : (openItems s).Nodup := by
    refine List.Nodup.filter _ ?_
    rw [getQueueSnapshot, (sortBy_perm itemOrder _).nodup_iff]
    exact List.Nodup.filter _ (List.Nodup.of_map _ (nodup_ofList _))
  refine ((perm_ext_iff_of_nodup hnodup hopen).mpr hmem).eq_of_pairwise ?_
    (hsorted.imp fun {a b} hlt => by rw [hlt]; rfl)
    ((pairwise_sortBy itemOrder _).sublist filter_sublist)
  intro a b _ _ hab hba
  refine eq_of_itemOrder ?_
  have hswap : itemOrder b a = (itemOrder a b).swap := Std.OrientedCmp.eq_swap
  rw [hswap] at hba
  cases hcmp : itemOrder a b with
  | eq => rfl
  | lt => rw [hcmp] at hba; cases hba
  | gt => rw [hcmp] at hab; cases hab

theorem waits_of_over (h : Inv s) (hover : Over s call) :
    ∀ x ∈ (closed s call).turnSlots, ∀ c ∈ x.call, c ∈ waitingCalls (closed s call) := by
  intro x hx c hc
  obtain ⟨-, hinside, hresumed⟩ := inside_eq h.lock hover.1
  refine ((inv_closed h call).dispatched x hx c hc).resolve_left fun hheld => ?_
  have hheld : c ∈ s.lock.inside ++ s.lock.resumed := hheld
  rw [hinside, hresumed, append_nil, mem_singleton] at hheld
  exact call_ne_of_mem_closed hx (hheld ▸ hc)

theorem inOrder_of_inv (h : Inv s) {e : Event} (ha : Admitted s e) : InOrder s e := by
  cases e with
  | finish call =>
    intro hover
    have hinv := inv_closed h call
    have hheld := waits_of_over h hover
    rw [← openItems_eq hinv hheld, head?_map, Option.map_map]
    refine map_congr fun x hx => ?_
    obtain ⟨w, -, hslot⟩ := mem_filterMap.mp (mem_of_head? hx)
    have hxm := ((slotOf_eq_some hinv).mp hslot).1
    exact TurnSlot.some_key (hinv.shown x hxm (hheld x hxm)).2.2.1
  | succeed call next timestamp => exact ha.2
  | _ => trivial

/-! ### Runs -/

theorem exclusive_step (h : SessionLock.Inv s.lock) (e : Event) : SessionLock.Inv (step s e).lock := by
  cases e with
  | arrive a =>
    dsimp only [step, arrive]
    split_ifs
    · exact h
    · exact inv_enter h _ _
  | openGate i =>
    dsimp only [step, openGate]
    cases s.turnSlots[i]? with
    | none => exact h
    | some x =>
      dsimp only
      split_ifs
      · exact inv_enter h _ _
      · exact h
  | announceFails i =>
    dsimp only [step, announceFails]
    cases s.turnSlots[i]? with
    | none => exact h
    | some x =>
      dsimp only
      split_ifs <;> exact h
  | proceed call => exact inv_proceed h call
  | start call =>
    dsimp only [step, start]
    split_ifs <;> exact h
  | finish call =>
    dsimp only [step, finish]
    split_ifs
    · exact inv_leave h call
    · exact h
  | succeed call next timestamp =>
    dsimp only [step, succeed]
    split_ifs <;> exact h
  | reorder orderedIds revision =>
    dsimp only [step, reorderQueuedWebuiMessages]
    cases reorderOutcome s orderedIds revision with
    | reordered =>
      split_ifs
      · exact inv_reorderWaiters h orderedIds
      · exact h
    | _ => exact h
  | remove id =>
    dsimp only [step, removeQueuedMessage]
    cases queuedSlotOf s id <;> exact h
  | steer id =>
    dsimp only [step, steerQueuedWebuiMessage]
    cases queuedSlotOf s id with
    | none => exact h
    | some x =>
      split_ifs <;> exact h
  | enter priority => exact inv_enter h priority ""
  | _ => exact h

/-- **The queue of a session.** In every run the lock excludes and resumes a waiter at most once; and in
a run whose steps are admitted, whenever a turn ends the slot that starts next is the first open item
of the snapshot. -/
theorem queue_order (inbox : List InboxEntry) (admissions goalAdmissions : List QueueItem)
    (es : List Event) :
    (∀ t ∈ visited step ⟨{}, [], inbox, admissions, goalAdmissions, 0, none⟩ es, Exclusive t.lock) ∧
    ((∀ t ∈ taken step ⟨{}, [], inbox, admissions, goalAdmissions, 0, none⟩ es, Admitted t.1 t.2) →
      ∀ t ∈ taken step ⟨{}, [], inbox, admissions, goalAdmissions, 0, none⟩ es, InOrder t.1 t.2) := by
  refine ⟨fun t ht => ?_, fun hadmitted t ht => ?_⟩
  · exact (invariant (I := fun s => SessionLock.Inv s.lock) (fun _ e h => exclusive_step h e) es _
      inv_free t ht).exclusive
  · have hinv := invariant_of_steps (I := Inv) (P := Admitted) (fun _ e h ha => inv_step h e ha) es _
      (inv_start inbox admissions goalAdmissions) hadmitted _ (mem_visited_of_mem_taken _ ht)
    exact inOrder_of_inv hinv (hadmitted t ht)

end

/-! ### A steered message after a reordering -/

def message (id : String) (now : ℕ) : Arrival where
  clientRequestId := some id
  timestamp := now
  now := now

/-- A running turn, and three messages that wait. -/
def threeQueued : List Event :=
  [.arrive (message "running" 1), .start 0, .arrive (message "a" 100), .openGate 1,
    .arrive (message "b" 200), .openGate 2, .arrive (message "c" 300), .openGate 3]

/-- `b` is steered into the turn, `c` is put before `a`, and `b` comes back unconsumed. -/
def overtaking : List Event :=
  threeQueued ++ [.steer "b", .reorder ["c", "a"] 4, .requeue ⟨"b", 200⟩, .openGate 3]

/-- **The priorities keep the old order**: the snapshot shows `c`, `a`, `b`, but `c` waits with the
priority 300, and `b` with its 200 is put before it. -/
theorem recovered_steer_overtakes :
    (openItems (final step {} overtaking)).map (·.clientRequestId) = ["c", "a", "b"] ∧
    (waitingSlots (final step {} overtaking)).map (·.clientRequestId) =
      [some "b", some "c", some "a"] ∧
    ¬ InOrder (final step {} overtaking) (.finish 0) := by
  decide +kernel

def reordered : List Event := threeQueued ++ [.reorder ["c", "a", "b"] 3]

/-- Three messages in a new order, and the end of the turn. -/
theorem reordered_turn_in_order : InOrder (final step {} reordered) (.finish 0) :=
  (queue_order [] [] [] (reordered ++ [.finish 0])).2 (by decide +kernel)
    (final step {} reordered, .finish 0) (last_mem_taken step reordered {} (.finish 0))

end Memmy.AgentRuntime.TurnQueue
