import Memmy.Goal.Dispatch

/-! # Where the entries of the inbox go

A step leaves the entries of the inbox in their places, adds one, or takes one out: into the session,
with the turn it was reserved for, or because the user removed it (`Effect`, `effect_step`). So in
every run

* the ids of the inbox stay distinct, and each receipt is at exactly one place: in the inbox, with the
  one turn that stored it, or removed (`books_run`). -/

namespace Memmy.Goal.Dispatch

open Lib.Run Goal.State Goal.Runtime Goal.Inbox List

/-- What names the entries of an inbox. -/
def tags (inbox : List Entry) : List (String × ℕ) := inbox.map fun entry => (entry.id, entry.receipt)

/-- The inbox and all that has left it. -/
def books (s : State) : List (String × ℕ) × List Persisted × List Entry × ℕ :=
  (tags s.inbox, s.persisted, s.removed, s.receipts)

/-- What a step does to the books. -/
inductive Effect (s s' : State) : Prop where
  | kept (h : books s' = books s)
  | added (entry : Entry) (hid : ∀ e ∈ s.inbox, e.id ≠ entry.id) (hreceipt : entry.receipt = s.receipts)
      (h : books s' = (tags (s.inbox ++ [entry]), s.persisted, s.removed, s.receipts + 1))
  | stored (front back : List Entry) (entry : Entry) (turnId : String)
      (hinbox : s.inbox = front ++ entry :: back) (hturn : entry.turnId = some turnId)
      (h : books s' = (tags (front ++ back), s.persisted ++ [⟨entry, turnId⟩], s.removed, s.receipts))
  | removed (front back : List Entry) (entry : Entry) (hinbox : s.inbox = front ++ entry :: back)
      (h : books s' = (tags (front ++ back), s.persisted, s.removed ++ [entry], s.receipts))

variable {host : Host} {s s' : State} {k : ℕ} {t : String} {turn : Turn}

/-! ### The functions that leave the books as they are -/

theorem books_scheduleGoalWork (s : State) (goal : GoalState) : books (scheduleGoalWork s goal) = books s := by
  unfold scheduleGoalWork; split_ifs <;> rfl

theorem books_receive (s : State) (message : InboundMessage) : books (receive s message) = books s := by
  unfold receive; split_ifs <;> rfl

theorem books_openSlot (s : State) (message : InboundMessage) (c : Circumstances) :
    books (openSlot s message c) = books s := by
  unfold openSlot
  split_ifs <;> rfl

theorem books_dispatchContinuation (s : State) (t : String) (scheduled : GoalContinuation) :
    books (dispatchContinuation host s t scheduled) = books s := by
  unfold dispatchContinuation
  split
  · rfl
  · split
    · rfl
    · split
      · rfl
      · split_ifs <;> rfl

theorem books_dispatchNextGoalWork (s : State) (t : String) :
    books (dispatchNextGoalWork host s t) = books s := by
  unfold dispatchNextGoalWork
  split_ifs
  · rfl
  · rfl
  · rfl
  · split
    · rfl
    · exact books_dispatchContinuation s t _

theorem books_publish (s : State) (t : String) (ok : Bool) : books (publish s t ok) = books s := by
  unfold publish
  split
  · rfl
  · split
    · rfl
    · split_ifs
      · rfl
      · split <;> rfl

theorem books_startTurn (s : State) (k : ℕ) : books (startTurn s k) = books s := by
  unfold startTurn
  split
  · rfl
  · split_ifs <;> rfl

theorem books_reschedule (s : State) (turn : Turn) (outcome : Outcome) :
    books (reschedule s turn outcome) = books s := by
  unfold reschedule
  split
  · split_ifs
    · exact books_scheduleGoalWork s _
    · rfl
  · rfl

theorem books_finishTurn (s : State) (k : ℕ) (outcome : Outcome) :
    books (finishTurn host s k outcome) = books s := by
  unfold finishTurn
  split
  · rfl
  · split_ifs
    · rfl
    · exact books_reschedule _ _ _

theorem books_settleTask (s : State) (k : ℕ) : books (settleTask s k) = books s := by
  unfold settleTask
  split
  · rfl
  · split_ifs <;> rfl

theorem books_cancelTask (s : State) (k : ℕ) (forget : Bool) : books (cancelTask s k forget) = books s := by
  unfold cancelTask
  split <;> rfl

theorem tags_reset (inbox : List Entry) : tags (resetDispatchingInbox inbox) = tags inbox := by
  simp [tags, resetDispatchingInbox]

theorem books_registerActiveLease (s : State) (t : String) : books (registerActiveLease s t) = books s := by
  unfold registerActiveLease
  split <;> rfl

theorem inbox_registerActiveLease (s : State) (t : String) : (registerActiveLease s t).inbox = s.inbox := by
  unfold registerActiveLease
  split <;> rfl

theorem books_reserveEntry (s : State) (t : String) (saved : Bool) :
    books (reserveEntry s t saved) = books s := by
  unfold reserveEntry
  split
  · rfl
  · dsimp only
    split
    · next entry inbox h =>
      obtain ⟨front, e, back, he, -, rfl, rfl⟩ := reserveInboxEntry_eq_some h
      simp [books, tags, he]
    · rfl

/-! ### The functions that move an entry -/

theorem effect_keepInInbox (s : State) (message : InboundMessage) (c : Circumstances) :
    Effect s (keepInInbox s message c) := by
  unfold keepInInbox
  cases h : enqueueUserMessage message c.uuid s.receipts s.inbox with
  | error e => exact .kept rfl
  | ok inbox =>
    dsimp only
    by_cases hsaved : c.saved = true
    · rw [if_pos hsaved]
      rcases enqueueUserMessage_ok h with rfl | ⟨id, hid, rfl⟩
      · exact .kept (by simp [books])
      · refine .added (newEntry message id s.receipts) hid rfl ?_
        simp [books]
    · rw [if_neg hsaved]
      exact .kept rfl

theorem Effect.congr {s₁ s₁' : State} (h : Effect s₁ s₁') (hbooks : books s₁ = books s)
    (hinbox : s₁.inbox = s.inbox) (hbooks' : books s' = books s₁') : Effect s s' := by
  simp only [books, Prod.mk.injEq] at hbooks
  obtain ⟨-, hpersisted, hremoved, hreceipts⟩ := hbooks
  cases h with
  | kept h => exact .kept (by rw [hbooks', h, books, books, hinbox, hpersisted, hremoved, hreceipts])
  | added entry hid hreceipt h =>
    rw [hinbox] at hid h
    rw [hpersisted, hremoved, hreceipts] at h
    exact .added entry hid (hreceipt.trans hreceipts) (hbooks'.trans h)
  | stored front back entry turnId hmid hturn h =>
    rw [hinbox] at hmid
    rw [hpersisted, hremoved, hreceipts] at h
    exact .stored front back entry turnId hmid hturn (hbooks'.trans h)
  | removed front back entry hmid h =>
    rw [hinbox] at hmid
    rw [hpersisted, hremoved, hreceipts] at h
    exact .removed front back entry hmid (hbooks'.trans h)

theorem effect_takeMessage (s : State) (c : Circumstances) : Effect s (takeMessage host s c) := by
  unfold takeMessage
  split
  · exact .kept rfl
  · next message bus hbus =>
    split_ifs
    · exact .kept rfl
    · dsimp only
      split
      · exact (effect_keepInInbox { s with bus := bus } message c).congr rfl rfl rfl
      · exact .kept (books_openSlot { s with bus := bus } message c)
      · exact .kept rfl

theorem effect_persistGoalUserTurn (s : State) (turn : Turn) : Effect s (persistGoalUserTurn s turn) := by
  cases h : reservedEntry turn.turnId s.inbox with
  | none =>
    refine .kept ?_
    simp [persistGoalUserTurn, books, h, dropReserved_of_none h]
  | some entry =>
    obtain ⟨front, back, hinbox, hturn, hdrop⟩ := reservedEntry_eq_some h
    refine .stored front back entry turn.turnId hinbox hturn ?_
    simp [persistGoalUserTurn, books, h, hdrop]

theorem effect_stateBuild (s : State) (k : ℕ) (saved : Bool) : Effect s (stateBuild s k saved) := by
  unfold stateBuild
  split
  · exact .kept rfl
  · next turn _ =>
    split
    · exact .kept rfl
    · split
      · split_ifs <;> exact .kept rfl
      · dsimp only
        split
        · exact .kept rfl
        · split_ifs
          · exact .kept (books_registerActiveLease s turn.turnId)
          · exact (effect_persistGoalUserTurn (registerActiveLease s turn.turnId) turn).congr
              (books_registerActiveLease s _) (inbox_registerActiveLease s _) rfl
          · exact .kept (books_registerActiveLease s turn.turnId)

theorem effect_removeQueued (s : State) (entryId : String) : Effect s (removeQueued s entryId) := by
  unfold removeQueued
  split
  · next entry inbox h =>
    obtain ⟨-, front, back, hinbox, rfl⟩ := removeUnreservedInboxEntry_removed h
    exact .removed front back entry hinbox rfl
  · exact .kept rfl

/-- **What a step can do to the inbox.** -/
theorem effect_step (s : State) (e : Event) : Effect s (step host s e) := by
  cases e with
  | receive message => exact .kept (books_receive s message)
  | take c => exact effect_takeMessage s c
  | removeQueued entryId => exact effect_removeQueued s entryId
  | dispatch t => exact .kept (books_dispatchNextGoalWork s t)
  | reserve t saved => exact .kept (books_reserveEntry s t saved)
  | publish t ok => exact .kept (books_publish s t ok)
  | start k => exact .kept (books_startTurn s k)
  | build k saved => exact effect_stateBuild s k saved
  | finish k outcome => exact .kept (books_finishTurn s k outcome)
  | settle k => exact .kept (books_settleTask s k)
  | cancel k forget => exact .kept (books_cancelTask s k forget)
  | schedule goal => exact .kept (books_scheduleGoalWork s goal)
  | invalidate => exact .kept rfl
  | control e =>
    refine .kept ?_
    unfold step
    dsimp only
    split_ifs <;> rfl
  | restart =>
    refine .kept ?_
    simp [step, restart, books, tags_reset]

/-! ### The books -/

/-- The ids of the entries are distinct. -/
def IdsDistinct (s : State) : Prop := (s.inbox.map (·.id)).Nodup

/-- **Each receipt is at one place**: in the inbox, stored by one turn, or removed; and a turn stores
the entry that was reserved for it. -/
def StoredOnce (s : State) : Prop :=
  (s.inbox.map (·.receipt) ++ s.persisted.map (·.entry.receipt) ++ s.removed.map (·.receipt)).Perm
      (List.range s.receipts) ∧
    ∀ p ∈ s.persisted, p.entry.turnId = some p.turnId

theorem ids_of_tags (inbox : List Entry) : inbox.map (·.id) = (tags inbox).map Prod.fst := by
  simp [tags]

theorem receipts_of_tags (inbox : List Entry) : inbox.map (·.receipt) = (tags inbox).map Prod.snd := by
  simp [tags]

theorem distinct_of_effect (h : Effect s s') (hids : IdsDistinct s) : IdsDistinct s' := by
  unfold IdsDistinct at *
  rw [ids_of_tags] at *
  cases h with
  | kept h => rwa [(Prod.mk.inj h).1]
  | added entry hid hreceipt h =>
    rw [(Prod.mk.inj h).1, ← ids_of_tags, map_append, nodup_append']
    refine ⟨by rwa [ids_of_tags], by simp, ?_⟩
    rintro id hmem hone
    obtain ⟨e, he, rfl⟩ := mem_map.mp hmem
    exact hid e he (by simpa using hone)
  | stored front back entry turnId hinbox hturn h =>
    rw [(Prod.mk.inj h).1, ← ids_of_tags]
    rw [← ids_of_tags, hinbox] at hids
    exact hids.sublist (((sublist_cons_self entry back).append_left front).map _)
  | removed front back entry hinbox h =>
    rw [(Prod.mk.inj h).1, ← ids_of_tags]
    rw [← ids_of_tags, hinbox] at hids
    exact hids.sublist (((sublist_cons_self entry back).append_left front).map _)

/-- An entry that leaves the middle of the inbox goes to the end of another list. -/
theorem perm_moved (front back stored removed : List ℕ) (n : ℕ) :
    (front ++ back ++ (stored ++ [n]) ++ removed).Perm (front ++ n :: back ++ stored ++ removed) := by
  refine perm_iff_count.mpr fun m => ?_
  simp only [count_append, count_cons, count_nil]
  omega

theorem stored_of_effect (h : Effect s s') (hs : StoredOnce s) : StoredOnce s' := by
  obtain ⟨hperm, hturns⟩ := hs
  unfold StoredOnce
  rw [receipts_of_tags] at *
  cases h with
  | kept h =>
    simp only [books, Prod.mk.injEq] at h
    obtain ⟨h₁, h₂, h₃, h₄⟩ := h
    rw [h₁, h₂, h₃, h₄]
    exact ⟨hperm, hturns⟩
  | added entry hid hreceipt h =>
    simp only [books, Prod.mk.injEq] at h
    obtain ⟨h₁, h₂, h₃, h₄⟩ := h
    rw [h₁, h₂, h₃, h₄, range_succ, ← hreceipt]
    refine ⟨?_, hturns⟩
    refine List.Perm.trans ?_ (List.Perm.append_right [entry.receipt] (hreceipt ▸ hperm))
    simp only [tags, map_append, map_cons, map_nil, append_assoc]
    refine List.Perm.append_left _ ?_
    rw [← append_assoc (s.persisted.map _), singleton_append]
    exact (perm_append_singleton _ _).symm
  | stored front back entry turnId hinbox hturn h =>
    simp only [books, Prod.mk.injEq] at h
    obtain ⟨h₁, h₂, h₃, h₄⟩ := h
    rw [h₁, h₂, h₃, h₄]
    refine ⟨?_, ?_⟩
    · refine List.Perm.trans ?_ hperm
      rw [hinbox]
      simp only [tags, map_append, map_cons, map_nil]
      exact perm_moved _ _ _ _ _
    · intro p hp
      rcases mem_append.mp hp with hp | hp
      · exact hturns p hp
      · obtain rfl := mem_singleton.mp hp
        exact hturn
  | removed front back entry hinbox h =>
    simp only [books, Prod.mk.injEq] at h
    obtain ⟨h₁, h₂, h₃, h₄⟩ := h
    rw [h₁, h₂, h₃, h₄]
    refine ⟨?_, hturns⟩
    refine List.Perm.trans ?_ hperm
    rw [hinbox]
    simp only [tags, map_append, map_cons, map_nil]
    have h := perm_moved (front.map (·.receipt)) (back.map (·.receipt) ++
      s.persisted.map (·.entry.receipt)) (s.removed.map (·.receipt)) [] entry.receipt
    simpa [Function.comp_def] using h

theorem books_run (goalState : Option GoalState) (goalRoute : Option GoalRoute) (es : List Event) :
    ∀ s ∈ visited (step host) (start goalState goalRoute) es, IdsDistinct s ∧ StoredOnce s := by
  refine invariant (I := fun s => IdsDistinct s ∧ StoredOnce s) ?_ es _ ?_
  · intro s e h
    exact ⟨distinct_of_effect (effect_step s e) h.1, stored_of_effect (effect_step s e) h.2⟩
  · refine ⟨nodup_nil, ?_, ?_⟩
    · exact List.Perm.refl _
    · intro p hp
      cases hp

end Memmy.Goal.Dispatch
