import Memmy.AgentChat.Hidden
import Memmy.Lib.Unwinding

/-! # Which chat is open

The events of the server do to a chat the same whether it is open or not, but for a steer: a queued message that is
steered into the open chat loses its turn and its mark.

* `Heeded`: what an event may not come upon.
* `plain_*`: the reducers of the events, and `plain_reduceWsEvent` all of them.
* `openness_immaterial`: two runs with the same events of the server. -/

namespace Memmy.AgentChat

open Memmy.Desktop (Item Row)
open Lib.Run Lib.Unwinding List Option Bool Function

/-! ### The condition -/

def isSteered (item : Item) : Prop := (item.chatComposer && item.steer) = true ∧ item.turnId.isSome

/-- The snapshot is not older than what is recorded and what was observed. -/
def SnapshotApplies (s : State) (chatId : String) (revision : Option ℕ) : Prop :=
  (∀ r ∈ revision, ∀ current ∈ (s.chats chatId).queueRevision, current ≤ r) ∧
  ∀ r ∈ revision, ∀ desync ∈ (s.chats chatId).queueDesynced, desync.generation = s.connectionGeneration →
    desync.observedRevision ≤ r

/-- **The event steers a queued message into its turn.** -/
def Steers (s : State) (event : WsEvent) (clientRequestId : String) : Prop :=
  match event.body with
  | .messageDequeued revision id item steer => s.queueIncrementApplies event.chatId revision = true ∧ steer = true ∧
      event.turnId.isSome ∧ ∃ dequeued ∈ s.dequeuedItem event.chatId id item, dequeued.clientRequestId = clientRequestId
  | .messageSteered id => event.turnId.isSome ∧ ∃ row ∈ s.findRow event.chatId id, row.clientRequestId = clientRequestId
  | .messageQueueSnapshot revision _ started => SnapshotApplies s event.chatId revision ∧
      ∃ item ∈ started, isSteered item ∧ item.clientRequestId = clientRequestId
  | _ => False

def ReachesMessages (s : State) (event : WsEvent) : Prop :=
  ∃ content, event.body = .content content ∧ (∀ message, content ≠ .proactive message) ∧
    event.passesTranscriptOffset content (s.chats event.chatId) = true ∧
    (s.isClosedTurn event.chatId event.turnId = true → content.isCancellationTerminalFileEditEvent = true) ∧
    (content.isRetryWait = true → (s.chats event.chatId).stopInFlight = false)

/-- The event is not of another connection. -/
def Received (s : State) (event : WsEvent) : Prop := event.connectionGeneration.all (· = s.connectionGeneration) = true

/-- **What an event may not come upon**: no message is steered into the open chat before it is shown there, and
where content of another chat comes, the button of the open chat shows whether that is busy or has a stream. -/
structure HeededEvent (s : State) (event : WsEvent) : Prop where
  shown : Received s event → s.currentChatId = some event.chatId → ∀ id, Steers s event id →
    hasMessage (s.chats event.chatId).messages id = true
  settled : Received s event → ReachesMessages s event → ∀ current ∈ s.currentChatId, current ≠ event.chatId →
    s.isSending = (s.isChatBusy current || hasLiveStreamingMessage s.messages)

def Heeded (s : State) : Step → Prop
  | .server event => HeededEvent s event
  | _ => True

variable {p : Prop} {chatId : String} {s : State}

/-! ### The queue -/

theorem hasMessage_append (messages more : List Message) (id : String) :
    hasMessage (messages ++ more) id = (hasMessage messages id || hasMessage more id) :=
  any_append

section
variable (hs : s.Synced)
include hs

theorem plain_setQueuedMessagesForChat (items : State → List Row) (hitems : items s.hide = items s) :
    Plain p chatId (fun s => s.setQueuedMessagesForChat chatId (items s)) s :=
  Plain.modify hs (fun s chat => { chat with queuedMessages := items s }) (by rw [hitems]) fun _ => ⟨rfl, rfl, rfl⟩

theorem plain_removeQueuedMessageFromChat (id : String) :
    Plain p chatId (·.removeQueuedMessageFromChat chatId id) s :=
  plain_setQueuedMessagesForChat hs (fun s => (s.chats chatId).queuedMessages.filter fun row => row.clientRequestId ≠ id)
    rfl

theorem plain_markQueueDesynced (revision : ℕ) : Plain p chatId (·.markQueueDesynced chatId revision) s :=
  Plain.ite Iff.rfl (fun _ => Plain.same hs) fun _ =>
    Plain.modify hs (fun s chat => { chat with queueDesynced := some ⟨s.connectionGeneration, revision⟩ }) rfl
      fun _ => ⟨rfl, rfl, rfl⟩

theorem plain_applyQueueIncrement (revision : Option ℕ) {apply : State → State}
    (happly : Plain (p ∧ s.queueIncrementApplies chatId revision = true) chatId apply s) :
    Plain p chatId (fun s => s.applyQueueIncrement chatId revision apply) s := by
  have hplain : s.queueIncrementApplies chatId revision = true → Plain p chatId apply s := fun h =>
    ⟨happly.scope, happly.synced, fun hp => happly.sending ⟨hp, h⟩, fun hp => happly.hide ⟨hp, h⟩⟩
  cases revision with
  | none => exact hplain rfl
  | some revision =>
    cases hcurrent : (s.chats chatId).queueRevision with
    | none =>
      refine Plain.congr (f := (·.markQueueDesynced chatId revision)) ?_ (fun _ => ?_) (plain_markQueueDesynced hs _)
      · simp only [State.applyQueueIncrement, hcurrent]
      · simp only [State.applyQueueIncrement, show (s.hide.chats chatId).queueRevision = none from hcurrent]
    | some current =>
      refine Plain.congr (f := fun s => if current + 1 < revision then s.markQueueDesynced chatId revision
        else if revision ≤ current ∨ (s.chats chatId).queueDesynced.isSome then s
        else (apply s).modify chatId fun chat => { chat with queueRevision := some revision }) ?_ (fun _ => ?_) ?_
      · simp only [State.applyQueueIncrement, hcurrent]
      · simp only [State.applyQueueIncrement, show (s.hide.chats chatId).queueRevision = some current from hcurrent]
      refine Plain.ite Iff.rfl (fun _ => plain_markQueueDesynced hs _) fun hnext =>
        Plain.ite Iff.rfl (fun _ => Plain.same hs) fun hsynced => ?_
      have hp := hplain (by
        push Not at hsynced
        unfold State.queueIncrementApplies
        rw [hcurrent]
        refine and_eq_true_iff.mpr ⟨decide_eq_true (by omega), ?_⟩
        cases hdesynced : (s.chats chatId).queueDesynced with
        | none => rfl
        | some _ => exact absurd (by rw [hdesynced]; rfl) hsynced.2)
      exact hp.comp (Plain.modify hp.synced (fun _ chat => { chat with queueRevision := some revision }) rfl
        fun _ => ⟨rfl, rfl, rfl⟩)

theorem plain_writeMessages_map (change : List Message → List Message) :
    Plain p chatId (fun s => s.writeMessages chatId (change (s.chatMessagesForId chatId))) s :=
  Plain.congr (f := fun s => s.writeMessages chatId (change (s.chats chatId).messages))
    (by rw [hs.chatMessagesForId]) (fun _ => rfl) (Plain.writeMessages hs (fun s => change (s.chats chatId).messages) rfl)

theorem plain_clearOptimisticMessage (id : String) : Plain p chatId (·.clearOptimisticMessage chatId id) s := by
  refine Plain.ite ?_ (fun _ => ?_) fun _ => Plain.same hs
  · rw [hs.chatMessagesForId, State.chatMessagesForId_hide]
  have hwrite := @plain_writeMessages_map p chatId s hs fun messages =>
    messages.filter fun message => message.clientRequestId ≠ some id
  have hcleared := hwrite.comp (Plain.modify hwrite.synced (fun _ chat => { chat with optimisticSending := false }) rfl
    fun _ => ⟨rfl, rfl, rfl⟩)
  exact hcleared.comp (Plain.showBusy hcleared.synced (·.isChatBusy chatId))

theorem plain_clearOptimisticSend (id : String) : Plain p chatId (·.clearOptimisticSend chatId id) s := by
  refine Plain.ite Iff.rfl (fun _ => ?_) fun _ => plain_clearOptimisticMessage hs id
  have hremove := @plain_removeQueuedMessageFromChat p chatId s hs id
  exact hremove.comp (plain_clearOptimisticMessage hremove.synced id)

theorem plain_showOptimisticUserMessage (item : Item) :
    Plain p chatId (·.showOptimisticUserMessage chatId item) s := by
  refine Plain.ite ?_ (fun _ => Plain.same hs) fun _ => ?_
  · rw [hs.chatMessagesForId, State.chatMessagesForId_hide]
  have hwrite := @plain_writeMessages_map p chatId s hs fun messages =>
    appendUserMessage messages (some item.clientRequestId) none item.content item.media
  have hmodify := hwrite.comp (Plain.modify hwrite.synced (fun _ chat =>
    { chat with
      optimisticSending := true
      retryWaitStatus := none
      deliveryUncertain := false }) rfl fun _ => ⟨rfl, rfl, rfl⟩)
  have hshown := hmodify.comp (Plain.showBusy hmodify.synced fun _ => true)
  refine Plain.congr ?_ (fun _ => ?_) hshown
  · by_cases hopen : s.currentChatId = some chatId
    · simp [State.writeMessages, State.showBusy, State.modify, hopen, hs.not_drafted hopen]
    · simp [State.writeMessages, State.showBusy, State.modify, hopen]
  · simp [State.writeMessages, State.showBusy, State.modify, State.hide]

theorem plain_queueOptimisticUserMessage (item : Item) :
    Plain p chatId (·.queueOptimisticUserMessage chatId item) s := by
  have hmodify : Plain p chatId (fun s => s.modify chatId fun chat =>
      { chat with suppressAssistantStreamUntilTurnEnd := false }) s :=
    Plain.modify hs (fun _ chat => { chat with suppressAssistantStreamUntilTurnEnd := false }) rfl
      fun _ => ⟨rfl, rfl, rfl⟩
  exact hmodify.comp (plain_showOptimisticUserMessage hmodify.synced item)

theorem markSteerPending_open (id turnId : String) (hopen : s.currentChatId = some chatId) :
    s.markSteerPending chatId id turnId = s := by
  simp only [State.markSteerPending, State.syncCurrentMessages, State.modify, hopen, hs.messages_open hopen,
    update_self, update_idem, update_eq_self]
  rw [← hs.messages_open hopen, ← hopen]

theorem markSteerPending_closed (id turnId : String) (hclosed : s.currentChatId ≠ some chatId) :
    s.markSteerPending chatId id turnId =
      s.writeMessages chatId (markSteerPending (s.chatMessagesForId chatId) id turnId) := by
  have hsame : s.writeMessages chatId (markSteerPending (s.chatMessagesForId chatId) id turnId) =
      s.modify chatId fun chat =>
        { chat with messages := markSteerPending (s.chatMessagesForId chatId) id turnId } := by
    unfold State.writeMessages
    rw [if_neg hclosed]
    rfl
  rw [← (hs.writeMessages chatId _).syncCurrentMessages, hsame]
  rfl

theorem plain_markSteerPending (id turnId : String) (hp : p → s.currentChatId ≠ some chatId) :
    Plain p chatId (·.markSteerPending chatId id turnId) s := by
  by_cases hopen : s.currentChatId = some chatId
  · have hsame := markSteerPending_open hs id turnId hopen
    refine ⟨?_, ?_, fun _ hne => absurd hopen hne, fun h => absurd hopen (hp h)⟩
    · rw [hsame]
      exact Local.refl _ _
    · rw [hsame]
      exact hs
  · exact Plain.congr (markSteerPending_closed hs id turnId hopen) (fun _ => rfl)
      (plain_writeMessages_map hs fun messages => markSteerPending messages id turnId)

theorem plain_showQueuedMessage (item : Item) (turnId : Option String) (pending : Bool)
    (hp : p → pending = true → turnId.isSome → s.currentChatId = some chatId →
      hasMessage (s.chats chatId).messages item.clientRequestId = true) :
    Plain p chatId (·.showQueuedMessage chatId item turnId pending) s := by
  have hqueue := @plain_queueOptimisticUserMessage p chatId s hs item
  cases pending with
  | false =>
    refine Plain.ite ?_ (fun _ => Plain.same hs) fun _ => hqueue
    rw [hs.chatMessagesForId, State.chatMessagesForId_hide]
  | true =>
    cases turnId with
    | none =>
      refine Plain.ite ?_ (fun _ => Plain.same hs) fun _ => hqueue
      rw [hs.chatMessagesForId, State.chatMessagesForId_hide]
    | some turnId =>
      refine Plain.ite ?_ (fun _ => Plain.same hs) fun hnot =>
        hqueue.comp (plain_markSteerPending hqueue.synced _ _ fun h hopen => hnot ?_)
      · rw [hs.chatMessagesForId, State.chatMessagesForId_hide]
      · rw [hs.chatMessagesForId]
        exact hp h rfl rfl (hqueue.scope.current.symm.trans hopen)

omit hs in
theorem messages_removeQueuedMessageFromChat (s : State) (chatId id : String) :
    ((s.removeQueuedMessageFromChat chatId id).chats chatId).messages = (s.chats chatId).messages := by
  simp [State.removeQueuedMessageFromChat, State.setQueuedMessagesForChat]

/-- **Promoting a queued message** is plain, unless it is steered into the open chat and not shown there yet. -/
theorem plain_promoteQueuedMessage (item : Item) (turnId : Option String) (pending : Bool)
    (hp : p → pending = true → turnId.isSome → s.currentChatId = some chatId →
      hasMessage (s.chats chatId).messages item.clientRequestId = true) :
    Plain p chatId (·.promoteQueuedMessage chatId item turnId pending) s := by
  have hremove := @plain_removeQueuedMessageFromChat p chatId s hs item.clientRequestId
  refine hremove.comp (plain_showQueuedMessage hremove.synced item turnId pending fun h hpending hturn hopen => ?_)
  rw [messages_removeQueuedMessageFromChat]
  exact hp h hpending hturn hopen

end

/-! ### A snapshot of the queue -/

theorem hasMessage_filter_ne {messages : List Message} {id other : String} (hne : other ≠ id)
    (h : hasMessage messages other = true) :
    hasMessage (messages.filter fun message => message.clientRequestId ≠ some id) other = true := by
  obtain ⟨message, hmem, hid⟩ := any_eq_true.mp h
  have hid := of_decide_eq_true hid
  refine any_eq_true.mpr ⟨message, mem_filter.mpr ⟨hmem, decide_eq_true ?_⟩, decide_eq_true hid⟩
  rw [hid]
  exact fun heq => hne (some.inj heq)

theorem hasMessage_clearOptimisticMessage (hs : s.Synced) {id other : String} (hne : other ≠ id)
    (h : hasMessage (s.chats chatId).messages other = true) :
    hasMessage ((s.clearOptimisticMessage chatId id).chats chatId).messages other = true := by
  unfold State.clearOptimisticMessage
  dsimp only
  split_ifs
  · rw [State.showBusy_chats, State.modify_chats_self, State.writeMessages_chats_self, hs.chatMessagesForId]
    exact hasMessage_filter_ne hne h
  · exact h

theorem hasMessage_clearOptimisticSend (hs : s.Synced) {id other : String} (hne : other ≠ id)
    (h : hasMessage (s.chats chatId).messages other = true) :
    hasMessage ((s.clearOptimisticSend chatId id).chats chatId).messages other = true := by
  unfold State.clearOptimisticSend
  split_ifs
  · refine hasMessage_clearOptimisticMessage (@plain_removeQueuedMessageFromChat True chatId s hs id).synced hne ?_
    rw [messages_removeQueuedMessageFromChat]
    exact h
  · exact hasMessage_clearOptimisticMessage hs hne h

theorem hasMessage_markSteerPending (messages : List Message) (id turnId other : String) :
    hasMessage (markSteerPending messages id turnId) other = hasMessage messages other := by
  unfold hasMessage markSteerPending
  rw [List.any_map]
  refine congrArg (List.any messages) (funext fun message => ?_)
  simp only [comp_apply]
  split_ifs <;> rfl

theorem hasMessage_showOptimisticUserMessage (hs : s.Synced) (item : Item) {other : String}
    (h : hasMessage (s.chats chatId).messages other = true) :
    hasMessage ((s.showOptimisticUserMessage chatId item).chats chatId).messages other = true := by
  have happend : hasMessage (appendUserMessage (s.chats chatId).messages (some item.clientRequestId) none item.content
      item.media) other = true := by
    unfold appendUserMessage
    rw [hasMessage_append, h, Bool.true_or]
  unfold State.showOptimisticUserMessage
  dsimp only
  rw [hs.chatMessagesForId]
  split_ifs
  · exact h
  · rw [State.modify_chats_self]
    exact happend
  · rw [State.modify_chats_self]
    exact happend

theorem hasMessage_showQueuedMessage (hs : s.Synced) (item : Item) (turnId : Option String) (pending : Bool)
    {other : String} (h : hasMessage (s.chats chatId).messages other = true) :
    hasMessage ((s.showQueuedMessage chatId item turnId pending).chats chatId).messages other = true := by
  have hqueued : hasMessage ((s.queueOptimisticUserMessage chatId item).chats chatId).messages other = true := by
    have hmodify : (s.modify chatId fun chat =>
        { chat with suppressAssistantStreamUntilTurnEnd := false }).Synced := hs.modify fun _ => ⟨rfl, rfl, rfl⟩
    refine hasMessage_showOptimisticUserMessage hmodify item ?_
    rw [State.modify_chats_self]
    exact h
  have hsynced := (@plain_queueOptimisticUserMessage True chatId s hs item).synced
  unfold State.showQueuedMessage
  split_ifs
  · exact h
  · cases pending with
    | false => exact hqueued
    | true =>
      cases turnId with
      | none => exact hqueued
      | some turnId =>
        show hasMessage (((s.queueOptimisticUserMessage chatId item).markSteerPending chatId _ _).chats chatId).messages
          other = true
        by_cases hopen : (s.queueOptimisticUserMessage chatId item).currentChatId = some chatId
        · rw [markSteerPending_open hsynced _ _ hopen]
          exact hqueued
        · rw [markSteerPending_closed hsynced _ _ hopen, State.writeMessages_chats_self, hsynced.chatMessagesForId,
            hasMessage_markSteerPending]
          exact hqueued

theorem hasMessage_promoteQueuedMessage (hs : s.Synced) (item : Item) (turnId : Option String) (pending : Bool)
    {other : String} (h : hasMessage (s.chats chatId).messages other = true) :
    hasMessage ((s.promoteQueuedMessage chatId item turnId pending).chats chatId).messages other = true := by
  refine hasMessage_showQueuedMessage (@plain_removeQueuedMessageFromChat True chatId s hs _).synced item turnId pending
    ?_
  rw [messages_removeQueuedMessageFromChat]
  exact h

/-- What is started is promoted, if nothing of it is steered into the open chat and not shown there yet. -/
theorem plain_promoteAll : ∀ {rows : List Row} {s : State}, s.Synced →
    (p → ∀ row ∈ rows, isSteered row.item → s.currentChatId = some chatId →
      hasMessage (s.chats chatId).messages row.clientRequestId = true) →
    Plain p chatId (fun s => rows.foldl (fun s row => s.promoteQueuedMessage chatId row.item row.item.turnId
      (row.item.chatComposer && row.item.steer)) s) s
  | [], _, hs, _ => Plain.same hs
  | row :: rows, s, hs, hp => by
    have hrow := plain_promoteQueuedMessage (p := p) hs row.item row.item.turnId
      (row.item.chatComposer && row.item.steer) fun h hpending hturn hopen =>
        hp h row mem_cons_self ⟨hpending, hturn⟩ hopen
    refine hrow.comp (plain_promoteAll hrow.synced fun h next hnext hsteered hopen => ?_)
    exact hasMessage_promoteQueuedMessage hs _ _ _
      (hp h next (mem_cons_of_mem _ hnext) hsteered (hrow.scope.current.symm.trans hopen))

theorem hasMessage_clearAll {other : String} : ∀ {items : List Item} {s : State}, s.Synced →
    (∀ item ∈ items, other ≠ item.clientRequestId) → hasMessage (s.chats chatId).messages other = true →
    hasMessage ((items.foldl (fun s item => s.clearOptimisticSend chatId item.clientRequestId) s).chats
      chatId).messages other = true
  | [], _, _, _, h => h
  | item :: items, _, hs, hne, h =>
    @hasMessage_clearAll other items _ (@plain_clearOptimisticSend True chatId _ hs item.clientRequestId).synced
      (fun next hnext => hne next (mem_cons_of_mem _ hnext))
      (hasMessage_clearOptimisticSend hs (hne item mem_cons_self) h)

theorem plain_applyQueueSnapshot (hs : s.Synced) (revision : Option ℕ) (items started : List Item)
    (hp : p → SnapshotApplies s chatId revision → ∀ item ∈ started, isSteered item → s.currentChatId = some chatId →
      hasMessage (s.chats chatId).messages item.clientRequestId = true) :
    Plain p chatId (·.applyQueueSnapshot chatId revision items started) s := by
  refine Plain.ite Iff.rfl (fun _ => Plain.same hs) fun hnew => Plain.ite Iff.rfl (fun _ => Plain.same hs) fun hseen => ?_
  have happlies : SnapshotApplies s chatId revision := by
    refine ⟨fun r hr current hcurrent => ?_, fun r hr desync hdesync hgeneration => ?_⟩
    · by_contra hlt
      exact hnew ⟨r, hr, current, hcurrent, by omega⟩
    · by_contra hlt
      exact hseen ⟨r, hr, desync, hdesync, hgeneration, by omega⟩
  let startedIds := started.map Item.clientRequestId
  let waiting := items.filter fun item => item.clientRequestId ∉ startedIds
  let confirmedIds := startedIds ++ waiting.map Item.clientRequestId
  let pending := (s.chats chatId).queuedMessages.filter fun row =>
    row.status = .sending ∧ row.clientRequestId ∉ confirmedIds
  let rows := Desktop.Chat.sortedQueuedMessages (waiting.map (Row.mk · .queued) ++ pending)
  have hclear : Plain p chatId (fun s =>
      waiting.foldl (fun s item => s.clearOptimisticSend chatId item.clientRequestId) s) s :=
    Plain.foldl hs fun item _ s hs => plain_clearOptimisticSend hs item.clientRequestId
  have hrows := hclear.comp (plain_setQueuedMessagesForChat hclear.synced (fun _ => rows) rfl)
  have hpromote := hrows.comp (@plain_promoteAll p chatId (Desktop.Chat.sortedQueuedMessages
    (started.map (Row.mk · .queued))) _ hrows.synced fun h row hrow hsteered hopen => by
      obtain ⟨item, hitem, rfl⟩ := mem_map.mp ((Lib.Sort.sortBy_perm _ _).mem_iff.mp hrow)
      have hshown := hp h happlies item hitem hsteered (hrows.scope.current.symm.trans hopen)
      have hkept := @hasMessage_clearAll chatId item.clientRequestId waiting s hs (fun other hother heq => by
        have hnot := of_decide_eq_true (mem_filter.mp hother).2
        exact hnot (heq ▸ mem_map_of_mem hitem)) hshown
      unfold State.setQueuedMessagesForChat
      rw [State.modify_chats_self]
      exact hkept)
  have hrecorded := hpromote.comp (Plain.modify hpromote.synced (fun _ chat =>
    { chat with
      queueRevision := revision <|> chat.queueRevision
      queueDesynced := none }) rfl fun _ => ⟨rfl, rfl, rfl⟩)
  exact Plain.congr rfl (fun _ => rfl) hrecorded

/-! ### The other events of the queue -/

section
variable (hs : s.Synced)
include hs

/-- The rows once `item` is queued. -/
def queuedWith (chatId : String) (item : Item) (s : State) : List Row :=
  match (s.chats chatId).queuedMessages.findIdx? fun row => row.clientRequestId = item.clientRequestId with
  | some index => (s.chats chatId).queuedMessages.modify index fun row => { row with item := item }
  | none => (s.chats chatId).queuedMessages ++ [⟨item, .queued⟩]

theorem plain_messageQueued (revision : Option ℕ) (item : Item) :
    Plain p chatId (·.messageQueued chatId revision item) s := by
  have hacknowledge : Plain p chatId (·.acknowledgeQueued chatId item) s :=
    Plain.ite Iff.rfl (fun _ => plain_setQueuedMessagesForChat hs (fun s =>
      (s.chats chatId).queuedMessages.map fun row =>
        if row.clientRequestId = item.clientRequestId then { row with status := .queued } else row) rfl)
      fun _ => Plain.same hs
  refine hacknowledge.comp (plain_applyQueueIncrement hacknowledge.synced revision ?_)
  have hclear := fun p => @plain_clearOptimisticSend p chatId _ hacknowledge.synced item.clientRequestId
  exact (hclear _).comp (plain_setQueuedMessagesForChat (hclear True).synced (queuedWith chatId item) rfl)

theorem plain_messageDequeued (revision : Option ℕ) (id : String) (item : Option Item)
    (turnId : Option String) (steer : Bool)
    (hp : p → s.queueIncrementApplies chatId revision = true → steer = true → turnId.isSome →
      ∀ dequeued ∈ s.dequeuedItem chatId id item, s.currentChatId = some chatId →
        hasMessage (s.chats chatId).messages dequeued.clientRequestId = true) :
    Plain p chatId (·.messageDequeued chatId revision id item turnId steer) s := by
  refine plain_applyQueueIncrement hs revision (Plain.option (o := (·.dequeuedItem chatId id item)) rfl
    (fun _ => Plain.same hs) (fun dequeued hitem => plain_promoteQueuedMessage hs dequeued turnId
      (steer && turnId.isSome) fun h hpending hturn hopen => ?_) ?_ ?_)
  · exact hp h.1 h.2 (and_eq_true_iff.mp hpending).1 hturn dequeued hitem hopen
  · intro s h
    simp only [h]
  · intro s dequeued h
    simp only [h]

theorem plain_messageSteered (id : String) (turnId : Option String)
    (hp : p → turnId.isSome → ∀ row ∈ s.findRow chatId id, s.currentChatId = some chatId →
      hasMessage (s.chats chatId).messages row.clientRequestId = true) :
    Plain p chatId (·.messageSteered chatId id turnId) s := by
  refine Plain.option (o := (·.findRow chatId id)) rfl (fun _ => Plain.same hs) (fun row hrow =>
    plain_promoteQueuedMessage hs row.item turnId true fun h _ hturn hopen => hp h hturn row hrow hopen) ?_ ?_
  · intro s h
    simp only [State.messageSteered, h]
  · intro s row h
    simp only [State.messageSteered, h]

theorem plain_promoted (item : Item) : Plain p chatId (·.promoteQueuedMessage chatId item none false) s :=
  plain_promoteQueuedMessage hs item none false nofun

theorem plain_settleQueuedMessage (id : String) (removed : Bool) :
    Plain p chatId (·.settleQueuedMessage chatId id removed) s := by
  cases removed with
  | true => exact plain_removeQueuedMessageFromChat hs id
  | false =>
    refine Plain.option (o := (·.findRow chatId id)) rfl (fun _ => plain_removeQueuedMessageFromChat hs id)
      (fun row _ => plain_promoted hs row.item) ?_ ?_
    · intro s h
      simp only [State.settleQueuedMessage, h]
    · intro s row h
      simp only [State.settleQueuedMessage, h]

theorem plain_queueRemoveResult (revision : Option ℕ) (id : String) (removed : Bool) :
    Plain p chatId (·.queueRemoveResult chatId revision id removed) s := by
  have hsettle := @plain_settleQueuedMessage p chatId s hs id removed
  cases revision with
  | none => exact hsettle
  | some revision =>
    exact Plain.ite Iff.rfl (fun _ => hsettle.comp (plain_markQueueDesynced hsettle.synced revision)) fun _ => hsettle

theorem plain_messageAccepted (id : String) : Plain p chatId (·.messageAccepted chatId id) s := by
  refine Plain.option (o := (·.findRow chatId id)) rfl (fun _ => Plain.same hs) (fun row _ =>
    Plain.ite (q := fun _ => row.status = .sending) Iff.rfl (fun _ => plain_promoted hs row.item) fun _ => Plain.same hs)
    ?_ ?_
  · intro s h
    simp only [State.messageAccepted, h]
  · intro s row h
    simp only [State.messageAccepted, h]

end

/-! ### Turns -/

section
variable (hs : s.Synced)
include hs

theorem plain_clearRetryWaitStatusForChat : Plain p chatId (·.clearRetryWaitStatusForChat chatId) s := by
  have hmodify : Plain p chatId (fun s => s.modify chatId fun chat => { chat with retryWaitStatus := none }) s :=
    Plain.modify hs (fun _ chat => { chat with retryWaitStatus := none }) rfl fun _ => ⟨rfl, rfl, rfl⟩
  exact hmodify.comp (Plain.syncIfOpen hmodify.synced)

theorem plain_finishRetryWaitStatusForTurn (turnId : Option String) :
    Plain p chatId (·.finishRetryWaitStatusForTurn chatId turnId) s := by
  refine Plain.option (o := fun s => (s.chats chatId).retryWaitStatus) rfl (fun _ => Plain.same hs) (fun status _ =>
    Plain.ite (q := fun _ => !status.isRunning || (turnId.isSome && status.turnId.isSome && status.turnId ≠ turnId))
      Iff.rfl (fun _ => Plain.same hs) fun _ => plain_clearRetryWaitStatusForChat hs) ?_ ?_
  · intro s h
    simp only [State.finishRetryWaitStatusForTurn, h]
  · intro s status h
    simp only [State.finishRetryWaitStatusForTurn, h]

theorem plain_markClosedTurn (turnId : Option String) (reason : ClosedReason) :
    Plain p chatId (·.markClosedTurn chatId turnId reason) s := by
  cases turnId with
  | none => exact Plain.same hs
  | some turnId =>
    exact Plain.modify hs (fun _ chat =>
      { chat with
        activeTurnId := none
        closedTurnIds := State.withClosedTurn chat.closedTurnIds turnId reason }) rfl fun _ => ⟨rfl, rfl, rfl⟩

theorem plain_markChatIdle (source : State.MarkChatIdleSource) (latencyMs : Option ℕ)
    (turnId : Option String) : Plain p chatId (·.markChatIdle chatId source latencyMs turnId) s := by
  refine Plain.ite Iff.rfl (fun _ => Plain.same hs) fun _ => ?_
  have hfinished : Plain p chatId (fun s =>
      if source.shouldClearStreamingFlags then s.finishChatStreaming chatId latencyMs else s) s :=
    Plain.ite Iff.rfl (fun _ => plain_writeMessages_map hs (finishStreamingMessages · latencyMs)) fun _ => Plain.same hs
  have hretry := hfinished.comp (plain_finishRetryWaitStatusForTurn hfinished.synced turnId)
  have hclosed := hretry.comp (plain_markClosedTurn hretry.synced turnId source.closedReason)
  have hidle := hclosed.comp (Plain.modify hclosed.synced (fun _ chat =>
    { chat with
      suppressAssistantStreamUntilTurnEnd := false
      runStartedAt := some none
      goalRunClock := none
      runStatusVersion := chat.runStatusVersion + 1
      activeTurnId := none
      activeTurnSource := none
      optimisticSending := if source = .runStatusSnapshot then chat.optimisticSending else false
      stopInFlight := false }) rfl fun _ => ⟨rfl, rfl, rfl⟩)
  have hbusy := hidle.comp (Plain.showBusy hidle.synced fun _ => false)
  exact hbusy.comp (Plain.syncIfOpen hbusy.synced)

theorem plain_markChatRunning (startedAt : ℕ) (turnId : Option String) (source : Option TurnSource) :
    Plain p chatId (·.markChatRunning chatId startedAt turnId source) s := by
  refine Plain.modify hs _ ?_ fun _ => ⟨rfl, rfl, rfl⟩
  have hclock : s.hide.updateGoalRunClockForRunning chatId startedAt turnId =
      s.updateGoalRunClockForRunning chatId startedAt turnId := by
    unfold State.updateGoalRunClockForRunning
    rw [hs.goalStateForChat, (State.synced_hide s).goalStateForChat]
    rfl
  rw [hclock]

theorem plain_reconcileRunStatusSnapshot (status : RunStatus) (turnId : Option String) :
    Plain p chatId (·.reconcileRunStatusSnapshot chatId status turnId) s := by
  cases status with
  | running startedAt source =>
    cases startedAt with
    | none => exact Plain.same hs
    | some startedAt =>
      refine Plain.ite Iff.rfl (fun _ => Plain.same hs) fun _ => ?_
      have hrunning := @plain_markChatRunning p chatId s hs startedAt turnId source
      exact hrunning.comp (Plain.showBusy hrunning.synced (·.isChatBusy chatId))
  | idle =>
    have hidle := @plain_markChatIdle p chatId s hs .runStatusSnapshot none (turnId <|> (s.chats chatId).activeTurnId)
    exact Plain.congr rfl (fun _ => rfl) (hidle.comp (Plain.showBusy hidle.synced (·.isChatBusy chatId)))

theorem plain_updateRunStatus (status : RunStatus) (turnId : Option String) :
    Plain p chatId (·.updateRunStatus chatId status turnId) s := by
  have hidle : Plain p chatId (fun s =>
      if s.chatHasLiveStream chatId then s
      else
        let next := s.markChatIdle chatId .runStatusIdle none turnId
        next.showBusy chatId (next.isChatBusy chatId)) s := by
    refine Plain.ite ?_ (fun _ => Plain.same hs) fun _ => ?_
    · unfold State.chatHasLiveStream
      rw [hs.chatMessagesForId, State.chatMessagesForId_hide]
    have hidle := @plain_markChatIdle p chatId s hs .runStatusIdle none turnId
    exact hidle.comp (Plain.showBusy hidle.synced (·.isChatBusy chatId))
  cases status with
  | running startedAt source =>
    cases startedAt with
    | none => exact hidle
    | some startedAt =>
      have hrunning := @plain_markChatRunning p chatId s hs startedAt turnId source
      exact hrunning.comp (Plain.showBusy hrunning.synced (·.isChatBusy chatId))
  | idle => exact hidle

end

/-! ### Goal and plan -/

theorem plain_updateGoalState (hs : s.Synced) (goal : Goal) : Plain p chatId (·.updateGoalState chatId goal) s where
  scope := ⟨rfl, rfl, rfl, rfl, rfl, rfl, fun _ hne => update_of_ne hne _ _⟩
  synced := hs.update rfl rfl rfl rfl (fun h => ⟨hs.messages_open h, if_pos h, hs.taskPlanState_open h⟩)
    fun h => ⟨rfl, if_neg h, rfl⟩
  sending _ _ := rfl
  hide _ := rfl

theorem plain_updateTaskPlanState (hs : s.Synced) (plan : TaskPlan) :
    Plain p chatId (·.updateTaskPlanState chatId plan) s where
  scope := ⟨rfl, rfl, rfl, rfl, rfl, rfl, fun _ hne => update_of_ne hne _ _⟩
  synced := hs.update rfl rfl rfl rfl (fun h => ⟨hs.messages_open h, hs.goalState_open h, if_pos h⟩)
    fun h => ⟨rfl, rfl, if_neg h⟩
  sending _ _ := rfl
  hide _ := rfl

/-! ### Content of the open chat -/

section Content

variable (hs : s.Synced) (hopen : s.currentChatId = some chatId)
include hs hopen

theorem scoped_appendAssistantDelta (text : String) (turnId : Option String) :
    Scoped chatId (·.appendAssistantDelta text turnId) s :=
  Scoped.ite (fun _ => Iff.rfl) (fun _ => Scoped.same hs) fun _ =>
    Scoped.showMessages hs hopen
      (fun s => appendAssistantDelta s.messages text s.shouldLiveEventKeepChatBusy turnId) _ fun _ => rfl

theorem scoped_endAssistantStream (text : Option String) (resuming : Bool) (turnId : Option String) :
    Scoped chatId (·.endAssistantStream text resuming turnId) s :=
  Scoped.showMessages hs hopen (fun s => endAssistantStream s.messages text resuming turnId) _ fun _ => rfl

theorem scoped_appendReasoningDelta (text : String) (turnId : Option String) :
    Scoped chatId (·.appendReasoningDelta text turnId) s :=
  Scoped.ite (fun _ => Iff.rfl) (fun _ => Scoped.same hs) fun _ =>
    Scoped.showMessages hs hopen
      (fun s => appendReasoningDelta s.messages text s.shouldLiveEventKeepChatBusy turnId) _ fun _ => rfl

theorem scoped_closeReasoningStream (turnId : Option String) : Scoped chatId (·.closeReasoningStream turnId) s :=
  Scoped.showMessages hs hopen (fun s => closeReasoningStream s.messages turnId) _ fun _ => rfl

theorem scoped_appendCompleteReasoningMessage (text : String) (turnId : Option String) :
    Scoped chatId (·.appendCompleteReasoningMessage text turnId) s := by
  refine Scoped.ite (fun _ => Iff.rfl) (fun _ => Scoped.same hs) fun _ => ?_
  have hdelta := scoped_appendReasoningDelta hs hopen text turnId
  exact hdelta.comp (scoped_closeReasoningStream hdelta.synced (hdelta.scope.current.trans hopen) turnId)

theorem scoped_appendAssistantMessage (event : AssistantMessage) (turnId : Option String) :
    Scoped chatId (·.appendAssistantMessage event turnId) s :=
  Scoped.showMessages hs hopen (fun s => appendAssistantMessage s.messages event turnId) _ fun _ => rfl

theorem scoped_showSome (messages : State → Option (List Message)) (sending : State → Bool)
    (hsame : ∀ busy, messages { s with isSending := busy } = messages s) :
    Scoped chatId (fun s =>
      match messages s with
      | some messages => s.showMessages messages (sending s)
      | none => s) s := by
  cases hmessages : messages s with
  | none =>
    refine Scoped.congr (fun busy => ?_) (Scoped.same hs)
    rw [hsame, hmessages]
  | some list =>
    refine Scoped.congr (f := fun s => s.showMessages list (sending s)) (fun busy => ?_)
      (Scoped.showMessages hs hopen (fun _ => list) sending fun _ => rfl)
    rw [hsame, hmessages]

theorem scoped_appendToolProgress (describe : ToolEvent → String) (event : ToolProgress) (turnId : Option String) :
    Scoped chatId (·.appendToolProgress describe event turnId) s :=
  Scoped.ite (fun _ => Iff.rfl) (fun _ => Scoped.same hs) fun _ => scoped_showSome hs hopen
    (fun s => appendToolProgress describe s.messages event s.shouldLiveEventKeepChatBusy turnId) _ fun _ => rfl

theorem scoped_appendFileEditTrace (edits : List FileEdit) (cancellationTerminal : Bool) (turnId : Option String) :
    Scoped chatId (·.appendFileEditTrace chatId edits cancellationTerminal turnId) s :=
  Scoped.ite (fun _ => Iff.rfl) (fun _ => Scoped.same hs) fun _ => scoped_showSome hs hopen
    (fun s => appendFileEditTrace s.messages edits (!cancellationTerminal && s.shouldLiveEventKeepChatBusy)
      (cancellationTerminal || s.isClosedTurn chatId turnId) turnId) _ fun _ => rfl

theorem scoped_upsertContextCompactionDivider (event : Compaction) (turnId : Option String) :
    Scoped chatId (·.upsertContextCompactionDivider event turnId) s :=
  Scoped.showMessages hs hopen (fun s => upsertContextCompactionDivider s.messages event turnId) _ fun _ => rfl

theorem scoped_applyAgentQuestionResponse (response : QuestionResponse) :
    Scoped chatId (·.applyAgentQuestionResponse response) s :=
  Scoped.showMessages hs hopen (fun s => applyAgentQuestionResponse s.messages response) _ fun _ => rfl

theorem scoped_appendExternalUserMessage (id turnId : Option String) (text : String) (media : List String) :
    Scoped chatId (·.appendExternalUserMessage chatId id turnId text media) s := by
  have hshow : ∀ s : State, s.Synced → s.currentChatId = some chatId → Scoped chatId (fun s =>
      s.showMessages (appendExternalUserMessage s.messages id turnId text media) s.isSending) s :=
    fun s hs hopen => Scoped.showMessages hs hopen
      (fun s => appendExternalUserMessage s.messages id turnId text media) _ fun _ => rfl
  cases id with
  | none => exact hshow s hs hopen
  | some id =>
    have hremove : Scoped chatId (·.removeQueuedMessageFromChat chatId id) s :=
      Scoped.modify hs (fun s chat =>
        { chat with
          queuedMessages := (s.chats chatId).queuedMessages.filter fun row => row.clientRequestId ≠ id })
        (fun _ => rfl) fun _ => ⟨rfl, rfl, rfl⟩
    exact hremove.comp (hshow _ hremove.synced (hremove.scope.current.trans hopen))

/-- The wait that `upsertRetryWaitStatus` leaves. -/
def nextRetryWait (s : State) (chatId text : String) (turnId : Option String) : RetryWait :=
  match (s.chats chatId).retryWaitStatus.filter fun existing =>
      turnId.isNone || existing.turnId.isNone || existing.turnId = turnId with
  | some existing =>
    { existing with
      text := text
      isRunning := s.shouldLiveEventKeepChatBusy
      turnId := turnId <|> existing.turnId }
  | none =>
    { turnId := turnId
      anchorMessageId := State.lastUserMessageId s.messages
      text := text
      isRunning := s.shouldLiveEventKeepChatBusy }

theorem scoped_upsertRetryWaitStatus (text : String) (turnId : Option String) :
    Scoped chatId (·.upsertRetryWaitStatus chatId text turnId) s := by
  refine Scoped.ite (fun _ => Iff.rfl) (fun _ => Scoped.same hs) fun _ => ?_
  let next := nextRetryWait s chatId text turnId
  have hmodify : Scoped chatId (fun s => s.modify chatId fun chat => { chat with retryWaitStatus := some next }) s :=
    Scoped.modify hs (fun _ chat => { chat with retryWaitStatus := some next }) (fun _ => rfl) fun _ => ⟨rfl, rfl, rfl⟩
  have hshow := hmodify.comp (Scoped.showMessages hmodify.synced (hmodify.scope.current.trans hopen)
    (fun s => s.messages) (fun _ => s.shouldLiveEventKeepChatBusy) fun _ => rfl)
  exact Scoped.congr (fun _ => rfl) hshow

theorem scoped_finishRetryWaitStatusForTurn (turnId : Option String) :
    Scoped chatId (·.finishRetryWaitStatusForTurn chatId turnId) s := by
  cases hstatus : (s.chats chatId).retryWaitStatus with
  | none =>
    refine Scoped.congr (fun busy => ?_) (Scoped.same hs)
    simp only [State.finishRetryWaitStatusForTurn, hstatus]
  | some status =>
    refine Scoped.congr (f := fun s => if !status.isRunning || (turnId.isSome && status.turnId.isSome &&
        status.turnId ≠ turnId) then s else s.clearRetryWaitStatusForChat chatId) (fun busy => ?_)
      (Scoped.ite (fun _ => Iff.rfl) (fun _ => Scoped.same hs) fun _ => ?_)
    · simp only [State.finishRetryWaitStatusForTurn, hstatus]
    have hplain := @plain_clearRetryWaitStatusForChat True chatId s hs
    refine ⟨hplain.scope, hplain.synced, fun busy => ⟨busy, ?_⟩⟩
    simp only [State.clearRetryWaitStatusForChat, State.syncIfOpen, State.syncCurrentMessages,
      State.modify_currentChatId, hopen, if_true]
    rfl

theorem scoped_reduceContent (describe : ToolEvent → String) (turnId : Option String) (suppressing : Bool)
    (content : Content) : Scoped chatId (State.reduceContent describe chatId turnId suppressing content) s := by
  have hactive : Scoped chatId (·.finishRetryWaitStatusForTurn chatId turnId) s :=
    scoped_finishRetryWaitStatusForTurn hs hopen turnId
  have hsynced := hactive.synced
  have hopen' := hactive.scope.current.trans hopen
  cases content with
  | user id text media => exact scoped_appendExternalUserMessage hs hopen id turnId text media
  | retryWait text => exact scoped_upsertRetryWaitStatus hs hopen text turnId
  | proactive event => exact Scoped.same hs
  | delta text =>
    cases suppressing with
    | true => exact hactive
    | false => exact hactive.comp (scoped_appendAssistantDelta hsynced hopen' text turnId)
  | streamEnd text resuming =>
    cases suppressing with
    | true => exact hactive
    | false => exact hactive.comp (scoped_endAssistantStream hsynced hopen' text resuming turnId)
  | reasoningDelta text =>
    cases suppressing with
    | true => exact hactive
    | false => exact hactive.comp (scoped_appendReasoningDelta hsynced hopen' text turnId)
  | reasoningEnd =>
    cases suppressing with
    | true => exact hactive
    | false => exact hactive.comp (scoped_closeReasoningStream hsynced hopen' turnId)
  | progress event =>
    cases suppressing with
    | true => exact hactive
    | false => exact hactive.comp (scoped_appendToolProgress hsynced hopen' describe event turnId)
  | reasoning text =>
    cases suppressing with
    | true => exact hactive
    | false => exact hactive.comp (scoped_appendCompleteReasoningMessage hsynced hopen' text turnId)
  | message event =>
    have hmessage := hactive.comp (scoped_appendAssistantMessage hsynced hopen' event turnId)
    exact hmessage.comp (Scoped.ite (q := fun _ => event.hasMedia = true) (fun _ => Iff.rfl) (fun _ =>
      Scoped.modify hmessage.synced (fun _ chat => { chat with suppressAssistantStreamUntilTurnEnd := true })
        (fun _ => rfl) fun _ => ⟨rfl, rfl, rfl⟩) fun _ => Scoped.same hmessage.synced)
  | agentQuestionResponse response => exact hactive.comp (scoped_applyAgentQuestionResponse hsynced hopen' response)
  | fileEdit edits cancellationTerminal =>
    exact hactive.comp (scoped_appendFileEditTrace hsynced hopen' edits cancellationTerminal turnId)
  | contextCompaction event => exact hactive.comp (scoped_upsertContextCompactionDivider hsynced hopen' event turnId)

end Content

/-! ### Events -/

theorem plain_appendCronProactiveMessage (hs : s.Synced) (event : ProactiveMessage) :
    Plain p chatId (·.appendCronProactiveMessage chatId event) s := by
  let recorded (s : State) : Bool := event.deliveryId.any fun deliveryId =>
    deliveryId ∈ (s.chats chatId).proactiveDeliveryIds ||
      (s.chats chatId).messages.any fun message => message.proactiveDeliveryId = some deliveryId
  let messages (s : State) : List Message :=
    if recorded s then (s.chats chatId).messages
    else (s.chats chatId).messages ++ [{
      id := (event.deliveryId.map ("cron:" ++ ·)).getD (nextMessageId (s.chats chatId).messages .assistant)
      role := .assistant
      content := event.content
      media := event.media
      proactive := true
      proactiveTaskName := event.taskName
      proactiveDeliveryId := event.deliveryId }]
  have hmodify : Plain p chatId (fun s => s.modify chatId fun chat => chat.rememberProactiveDelivery event) s := by
    refine Plain.modify hs (fun _ chat => chat.rememberProactiveDelivery event) rfl fun chat => ?_
    unfold Chat.rememberProactiveDelivery
    cases event.deliveryId with
    | none => exact ⟨rfl, rfl, rfl⟩
    | some id => exact ⟨rfl, rfl, rfl⟩
  have hwrite := hmodify.comp (Plain.writeMessages hmodify.synced (fun _ => messages s) rfl)
  have hkept : Plain p chatId (fun s =>
      if (event.deliveryId.any (· ∈ (s.chats chatId).proactiveLiveDeliveryIds) || (recorded s && event.replayed)) then s
      else if Lib.Text.trim event.content = "" ∧ event.media = [] then s
      else (s.modify chatId fun chat => chat.rememberProactiveDelivery event).writeMessages chatId (messages s)) s :=
    Plain.ite Iff.rfl (fun _ => Plain.same hs) fun _ => Plain.ite Iff.rfl (fun _ => Plain.same hs) fun _ =>
      Plain.congr rfl (fun _ => rfl) hwrite
  refine Plain.congr ?_ (fun _ => rfl) hkept
  unfold State.appendCronProactiveMessage
  rw [hs.chatMessagesForId]

theorem plain_applyTranscriptOffset (hs : s.Synced) (event : WsEvent) (content : Content) :
    Plain p event.chatId (·.applyTranscriptOffset event content) s :=
  Plain.modify hs _ rfl fun _ => ⟨rfl, rfl, rfl⟩

theorem plain_reduceTurnContent (describe : ToolEvent → String) (hs : s.Synced) (event : WsEvent) (content : Content)
    (hbody : event.body = .content content) (hproactive : ∀ message, content ≠ .proactive message)
    (hsettled : p → ReachesMessages s event → ∀ current ∈ s.currentChatId, current ≠ event.chatId →
      s.isSending = (s.isChatBusy current || hasLiveStreamingMessage s.messages)) :
    Plain p event.chatId (fun s => State.reduceTurnContent describe s event content) s := by
  refine Plain.ite Iff.rfl (fun _ => Plain.same hs) fun hpasses => ?_
  have hoffset := @plain_applyTranscriptOffset p s hs event content
  have hsame : (s.applyTranscriptOffset event content).chats event.chatId =
      { s.chats event.chatId with
        transcriptOffset := if content.isOffsetGuarded then
          event.transcriptOffset <|> (s.chats event.chatId).transcriptOffset
          else (s.chats event.chatId).transcriptOffset } := State.modify_chats_self
  have hclosedTurn : (s.applyTranscriptOffset event content).isClosedTurn event.chatId event.turnId =
      s.isClosedTurn event.chatId event.turnId := by
    unfold State.isClosedTurn
    rw [hsame]
  refine hoffset.comp (g := fun s =>
    if s.isClosedTurn event.chatId event.turnId ∧ content.isCancellationTerminalFileEditEvent = false then s
    else if content.isRetryWait ∧ (s.chats event.chatId).stopInFlight then s.clearRetryWaitStatusForChat event.chatId
    else s.withScopedChatMessages event.chatId (State.reduceContent describe event.chatId event.turnId
      (s.chats event.chatId).suppressAssistantStreamUntilTurnEnd content)) ?_
  refine Plain.ite Iff.rfl (fun _ => Plain.same hoffset.synced) fun hopen => Plain.ite Iff.rfl
    (fun _ => plain_clearRetryWaitStatusForChat hoffset.synced) fun hretry => ?_
  have hreaches : ReachesMessages s event := by
    refine ⟨content, hbody, hproactive, by simpa using hpasses, fun hclosed => ?_, fun hwait => ?_⟩
    · rw [← hclosedTurn] at hclosed
      by_contra hnot
      exact hopen ⟨hclosed, eq_false_iff.mpr hnot⟩
    · rw [eq_false_iff]
      intro hstop
      exact hretry ⟨hwait, by rw [hsame]; exact hstop⟩
  have hscoped : ∀ {s' : State}, s'.Synced → s'.currentChatId = some event.chatId →
      Scoped event.chatId (State.reduceContent describe event.chatId event.turnId
        ((s.applyTranscriptOffset event content).chats event.chatId).suppressAssistantStreamUntilTurnEnd content) s' :=
    fun hs' hopen' => scoped_reduceContent hs' hopen' describe event.turnId _ content
  refine Plain.congr rfl (fun _ => rfl) (Scoped.plain hoffset.synced (hscoped hoffset.synced)
    (hscoped (State.synced_asOpen _ _) rfl) fun hp current hcurrent hne => ?_)
  have hbusy : (s.applyTranscriptOffset event content).isChatBusy current = s.isChatBusy current := by
    unfold State.isChatBusy State.effectiveRunStartedAtForChat
    rw [hoffset.scope.others current hne, hoffset.scope.sessions]
  rw [hbusy]
  exact hsettled hp hreaches current hcurrent hne

theorem plain_reduceChatContentEvent (describe : ToolEvent → String) (hs : s.Synced) (event : WsEvent)
    (content : Content) (hbody : event.body = .content content)
    (hsettled : p → ReachesMessages s event → ∀ current ∈ s.currentChatId, current ≠ event.chatId →
      s.isSending = (s.isChatBusy current || hasLiveStreamingMessage s.messages)) :
    Plain p event.chatId (fun s => State.reduceChatContentEvent describe s event content) s := by
  by_cases hproactive : ∃ message, content = .proactive message
  · obtain ⟨message, rfl⟩ := hproactive
    exact plain_appendCronProactiveMessage hs message
  · push Not at hproactive
    have hturn := plain_reduceTurnContent describe hs event content hbody hproactive hsettled
    refine Plain.congr ?_ (fun _ => ?_) hturn
    · unfold State.reduceChatContentEvent
      split
      · exact absurd rfl (hproactive _)
      · rfl
    · unfold State.reduceChatContentEvent
      split
      · exact absurd rfl (hproactive _)
      · rfl

/-- **Every event** concerns its chat alone, and does the same where no chat is open. -/
theorem plain_reduceWsEvent (describe : ToolEvent → String) (hs : s.Synced) (event : WsEvent) :
    Plain (HeededEvent s event) event.chatId (fun s => s.reduceWsEvent describe event) s := by
  refine Plain.ite Iff.rfl (fun _ => Plain.same hs) fun hgeneration => ?_
  have hreceived : Received s event := by
    unfold Received
    cases h : event.connectionGeneration with
    | none => rfl
    | some generation =>
      rw [h] at hgeneration
      simpa using hgeneration
  have hshown := fun (h : HeededEvent s event) (hopen : s.currentChatId = some event.chatId) (id : String)
    (hsteers : Steers s event id) => h.shown hreceived hopen id hsteers
  unfold Steers at hshown
  cases hbody : event.body with
  | content content =>
    exact plain_reduceChatContentEvent describe hs event content hbody fun h => h.settled hreceived
  | messageQueued revision item => exact plain_messageQueued hs revision item
  | messageDequeued revision id item steer =>
    rw [hbody] at hshown
    exact plain_messageDequeued hs revision id item event.turnId steer fun h happlies hsteer hturn dequeued hitem hopen =>
      hshown h hopen _ ⟨happlies, hsteer, hturn, dequeued, hitem, rfl⟩
  | messageSteered id =>
    rw [hbody] at hshown
    exact plain_messageSteered hs id event.turnId fun h hturn row hrow hopen => hshown h hopen _ ⟨hturn, row, hrow, rfl⟩
  | messageQueueRemoved revision id =>
    exact plain_applyQueueIncrement hs revision (plain_removeQueuedMessageFromChat hs id)
  | messageQueueSnapshot revision items started =>
    rw [hbody] at hshown
    exact plain_applyQueueSnapshot hs revision items started fun h happlies item hitem hsteered hopen =>
      hshown h hopen _ ⟨happlies, item, hitem, hsteered, rfl⟩
  | queueRemoveResult revision id removed => exact plain_queueRemoveResult hs revision id removed
  | messageAccepted id => exact plain_messageAccepted hs id
  | runStatusSnapshot status =>
    exact Plain.ite Iff.rfl (fun _ => Plain.same hs) fun _ => plain_reconcileRunStatusSnapshot hs status event.turnId
  | runStatus status => exact plain_updateRunStatus hs status event.turnId
  | goalState goal => exact plain_updateGoalState hs goal
  | taskPlanState plan => exact plain_updateTaskPlanState hs plan
  | turnEnd latencyMs => exact plain_markChatIdle hs .turnEnd latencyMs event.turnId
  | stopResult => exact plain_markChatIdle hs .stopResult none event.turnId

/-! ### Choosing a chat -/

theorem switchCurrentChat_synced (hs : s.Synced) (chatId : String) :
    (s.switchCurrentChat chatId).Synced ∧ (s.switchCurrentChat chatId).hide = s.hide := by
  unfold State.switchCurrentChat
  rw [hs.syncCurrentMessages]
  by_cases h : s.currentChatId = some chatId
  · rw [if_pos h]
    refine ⟨⟨hs.messages, ?_, ?_, Bool.noConfusion, fun hnone => ?_⟩, rfl⟩
    · show ((s.chats chatId).goalState <|> s.goalState) = s.currentChatId.bind fun current => (s.chats current).goalState
      rw [hs.goalState_open h, h]
      show _ = (s.chats chatId).goalState
      cases (s.chats chatId).goalState <;> rfl
    · show ((s.chats chatId).taskPlanState <|> s.taskPlanState) =
        s.currentChatId.bind fun current => (s.chats current).taskPlanState
      rw [hs.taskPlanState_open h, h]
      show _ = (s.chats chatId).taskPlanState
      cases (s.chats chatId).taskPlanState <;> rfl
    · rw [show s.currentChatId = none from hnone] at h
      cases h
  · rw [if_neg h]
    exact ⟨⟨rfl, rfl, rfl, nofun, nofun⟩, rfl⟩

theorem enterBlankDraft_synced (hs : s.Synced) : s.enterBlankDraft.Synced ∧ s.enterBlankDraft.hide = s.hide := by
  unfold State.enterBlankDraft
  rw [hs.syncCurrentMessages]
  exact ⟨State.synced_hide s, rfl⟩

/-! ### Runs -/

/-- **A run leaves** what its events of the server do where no chat is open. -/
theorem unwinds (describe : ToolEvent → String) :
    Unwinds (step describe) (fun s event => s.reduceWsEvent describe event) Step.serverEvent State.hide State.Synced
      Heeded where
  inv s e hs := by
    cases e with
    | server event => exact (plain_reduceWsEvent describe hs event).synced
    | switched chatId => exact (switchCurrentChat_synced hs chatId).1
    | blankDraft => exact (enterBlankDraft_synced hs).1
  silent s e hs hnone := by
    cases e with
    | server event => cases hnone
    | switched chatId => exact (switchCurrentChat_synced hs chatId).2
    | blankDraft => exact (enterBlankDraft_synced hs).2
  visible s e event hs hheeded hsome := by
    cases e with
    | server event' =>
      obtain rfl : event' = event := some.inj hsome
      exact (plain_reduceWsEvent describe hs event').hide hheeded
    | switched chatId => cases hsome
    | blankDraft => cases hsome

/-- **What an event of a chat leaves** of another: what is kept for it, and what is shown if it is open. -/
structure Undisturbed (describe : ToolEvent → String) (s : State) (event : WsEvent) : Prop where
  kept : ∀ other ≠ event.chatId, (s.reduceWsEvent describe event).chats other = s.chats other
  current : (s.reduceWsEvent describe event).currentChatId = s.currentChatId
  messages : s.currentChatId ≠ some event.chatId → (s.reduceWsEvent describe event).messages = s.messages
  goalState : s.currentChatId ≠ some event.chatId → (s.reduceWsEvent describe event).goalState = s.goalState
  taskPlanState : s.currentChatId ≠ some event.chatId → (s.reduceWsEvent describe event).taskPlanState = s.taskPlanState
  isSending : HeededEvent s event → s.currentChatId ≠ some event.chatId →
    (s.reduceWsEvent describe event).isSending = s.isSending

theorem undisturbed (describe : ToolEvent → String) (hs : s.Synced) (event : WsEvent) : Undisturbed describe s event := by
  have hplain := plain_reduceWsEvent describe hs event
  refine ⟨hplain.scope.others, hplain.scope.current, fun hclosed => ?_, fun hclosed => ?_, fun hclosed => ?_,
    hplain.sending⟩
  · rw [hplain.synced.messages, hplain.scope.current, hs.messages]
    cases hcurrent : s.currentChatId with
    | none => rfl
    | some current =>
      exact congrArg Chat.messages (hplain.scope.others current fun heq => hclosed (by rw [hcurrent, heq]))
  · rw [hplain.synced.goalState, hplain.scope.current, hs.goalState]
    cases hcurrent : s.currentChatId with
    | none => rfl
    | some current =>
      exact congrArg Chat.goalState (hplain.scope.others current fun heq => hclosed (by rw [hcurrent, heq]))
  · rw [hplain.synced.taskPlanState, hplain.scope.current, hs.taskPlanState]
    cases hcurrent : s.currentChatId with
    | none => rfl
    | some current =>
      exact congrArg Chat.taskPlanState (hplain.scope.others current fun heq => hclosed (by rw [hcurrent, heq]))

/-- **Which chat is open does not matter** to runs whose events heed the condition: two of them with the same events
of the server keep the same for every chat. In every run the copy of the open chat is what is kept for it, and an
event of one chat leaves the others as they are. -/
theorem openness_immaterial (describe : ToolEvent → String) (hs : s.Synced) (left right : List Step)
    (hsame : left.filterMap Step.serverEvent = right.filterMap Step.serverEvent) :
    ((∀ t ∈ taken (step describe) s left, Heeded t.1 t.2) → (∀ t ∈ taken (step describe) s right, Heeded t.1 t.2) →
      ∀ chatId, (final (step describe) s left).chats chatId = (final (step describe) s right).chats chatId) ∧
    (∀ s' ∈ visited (step describe) s left, s'.Synced) ∧
    ∀ t ∈ taken (step describe) s left, ∀ event, t.2 = .server event → Undisturbed describe t.1 event := by
  have hvisited : ∀ s' ∈ visited (step describe) s left, s'.Synced :=
    invariant (I := State.Synced) (fun s e hs => (unwinds describe).inv s e hs) left s hs
  refine ⟨fun hleft hright chatId => ?_, hvisited, fun t ht event _ => ?_⟩
  · have hhide := hide_final_eq (unwinds describe) hs hsame hleft hright
    exact congrFun (congrArg State.chats hhide) chatId
  · exact undisturbed describe (hvisited t.1 (mem_visited_of_mem_taken (step describe) ht)) event

/-! ### A message that is steered -/

def greeting : WsEvent where
  chatId := "b"
  turnId := some "turn"
  body := .content (.delta "hello")

theorem openness_immaterial_greeting :
    (final (step fun _ => "") init [.switched "a", .server greeting]).chats "b" =
      (final (step fun _ => "") init [.server greeting]).chats "b" := by
  refine (openness_immaterial (fun _ => "") State.synced_init [.switched "a", .server greeting] [.server greeting]
    rfl).1 ?_ ?_ "b"
  · simp only [taken_cons, taken_nil, forall_mem_cons]
    refine ⟨trivial, ⟨fun _ hopen => ?_, fun _ _ current hcurrent _ => ?_⟩, fun _ h => absurd h not_mem_nil⟩
    · exact absurd (some.inj hopen) (by decide)
    · obtain rfl : current = "a" := (some.inj hcurrent).symm
      decide +kernel
  · simp only [taken_cons, taken_nil, forall_mem_cons]
    exact ⟨⟨fun _ hopen => (by cases hopen), fun _ _ current hcurrent => (by cases hcurrent)⟩,
      fun _ h => absurd h not_mem_nil⟩

def request : Item where
  clientRequestId := "x"
  content := "hello"
  media := []
  queuedAt := 0
  chatComposer := true
  steer := false
  turnId := none

/-- A message is queued, and steered into the turn. -/
def steering : List Step :=
  [.server { chatId := "a", body := .messageQueued none request },
    .server { chatId := "a", turnId := some "turn", body := .messageSteered "x" }]

/-- **The message has lost its turn**, if its chat is open as it is steered. -/
theorem openness_material : ¬ ∀ chatId, (final (step fun _ => "") init (.switched "a" :: steering)).chats chatId =
    (final (step fun _ => "") init steering).chats chatId := by
  intro h
  have hpending := congrArg (fun chat => chat.messages.map fun message => message.queueSteerPending) (h "a")
  revert hpending
  decide +kernel

end Memmy.AgentChat
