import Memmy.Lib.Sort

/-! # The queue that the desktop shows

The agent holds the queue of a session and raises its revision with every mutation; the desktop keeps rows of its
own, which the events of one connection change. An increment is applied only at the revision after the recorded
one, a snapshot only if it is not older than that and than what was observed; the other events carry no revision.

A chat begins as `ready` leaves it: without rows and without a revision. Its messages are those of the user, since
no others have a client request id. -/

namespace Memmy.Desktop

open Lib.Sort

/-! ### Data -/

/-- `AgentQueuedMessage`, but for its status. -/
structure Item where
  clientRequestId : String
  content : String
  media : List String
  queuedAt : ℕ
  chatComposer : Bool
  steer : Bool
  turnId : Option String
deriving DecidableEq

inductive Status where
  | sending
  | queued
  | removing
  | steering
deriving DecidableEq

structure Row where
  item : Item
  status : Status
deriving DecidableEq

def Row.clientRequestId (row : Row) : String := row.item.clientRequestId

structure Message where
  clientRequestId : Option String
  content : String
  media : List String
  turnId : Option String
  queueSteerPending : Bool
deriving DecidableEq

/-- What the desktop keeps of a chat. -/
structure Chat where
  rows : List Row
  messages : List Message
  queueRevision : Option ℕ
  /-- `observedRevision`, if the chat is desynced. -/
  queueDesynced : Option ℕ
deriving DecidableEq

/-! ### The desktop -/

namespace Chat

variable (chat : Chat)

def hasMessage (clientRequestId : String) : Bool :=
  chat.messages.any fun message => message.clientRequestId = some clientRequestId

def hasRow (clientRequestId : String) : Bool := chat.rows.any fun row => row.clientRequestId = clientRequestId

def hasSending (clientRequestId : String) : Bool :=
  chat.rows.any fun row => row.clientRequestId = clientRequestId && row.status = .sending

def findRow (clientRequestId : String) : Option Row :=
  chat.rows.find? fun row => row.clientRequestId = clientRequestId

def markQueueDesynced (observedRevision : ℕ) : Chat :=
  if ∃ current ∈ chat.queueDesynced, observedRevision ≤ current then chat
  else { chat with queueDesynced := some observedRevision }

def applyQueueIncrement (revision : ℕ) (apply : Chat → Chat) : Chat :=
  match chat.queueRevision with
  | none => chat.markQueueDesynced revision
  | some current =>
    if current + 1 < revision then chat.markQueueDesynced revision
    else if revision ≤ current ∨ chat.queueDesynced.isSome then chat
    else { apply chat with queueRevision := some revision }

def sortedQueuedMessages (rows : List Row) : List Row :=
  sortBy (compareLex (ascending (·.item.queuedAt)) (ascending Row.clientRequestId)) rows

def removeQueuedMessageFromChat (clientRequestId : String) : Chat :=
  { chat with rows := chat.rows.filter fun row => row.clientRequestId ≠ clientRequestId }

def updateQueuedMessageStatus (clientRequestId : String) (status : Status) : Chat :=
  { chat with
    rows := chat.rows.map fun row =>
      if row.clientRequestId = clientRequestId then { row with status := status } else row }

/-- `queueOptimisticUserMessage`, for a chat that is busy or has a stream, or not. -/
def queueOptimisticUserMessage (item : Item) (queueIfBusy busy : Bool) : Chat :=
  if queueIfBusy ∧ (busy ∨ chat.rows ≠ []) then
    if chat.hasRow item.clientRequestId ∨ chat.hasMessage item.clientRequestId then chat
    else { chat with rows := chat.rows ++ [⟨item, .sending⟩] }
  else if chat.hasMessage item.clientRequestId then chat
  else
    { chat with
      messages := chat.messages ++ [{
        clientRequestId := some item.clientRequestId
        content := item.content
        media := item.media
        turnId := none
        queueSteerPending := false }] }

def promoteQueuedMessage (item : Item) (turnId : Option String) (queueSteerPending : Bool) : Chat :=
  let removed := chat.removeQueuedMessageFromChat item.clientRequestId
  if removed.hasMessage item.clientRequestId then removed
  else
    let promoted := removed.queueOptimisticUserMessage item false false
    if queueSteerPending ∧ turnId.isSome then
      { promoted with
        messages := promoted.messages.map fun message =>
          if message.clientRequestId = some item.clientRequestId then
            { message with
              turnId := turnId
              queueSteerPending := true }
          else message }
    else promoted

/-- `clearOptimisticSend`, with a client request id. -/
def clearOptimisticSend (clientRequestId : String) : Chat :=
  let cleared := if chat.hasSending clientRequestId then chat.removeQueuedMessageFromChat clientRequestId else chat
  { cleared with messages := cleared.messages.filter fun message => message.clientRequestId ≠ some clientRequestId }

def applyQueueSnapshot (revision : ℕ) (items started : List Item) : Chat :=
  if ∃ current ∈ chat.queueRevision, revision < current then chat
  else if ∃ observed ∈ chat.queueDesynced, revision < observed then chat
  else
    let startedIds := started.map Item.clientRequestId
    let waiting := items.filter fun item => item.clientRequestId ∉ startedIds
    let confirmedIds := startedIds ++ waiting.map Item.clientRequestId
    let pending := chat.rows.filter fun row => row.status = .sending ∧ row.clientRequestId ∉ confirmedIds
    let next := waiting.foldl (fun chat item => chat.clearOptimisticSend item.clientRequestId) chat
    let next := { next with rows := sortedQueuedMessages (waiting.map (Row.mk · .queued) ++ pending) }
    let next := (sortedQueuedMessages (started.map (Row.mk · .queued))).foldl (fun chat row =>
      chat.promoteQueuedMessage row.item row.item.turnId (row.item.chatComposer && row.item.steer)) next
    { next with
      queueRevision := some revision
      queueDesynced := none }

def messageQueued (revision : ℕ) (item : Item) : Chat :=
  let chat :=
    if chat.hasSending item.clientRequestId then chat.updateQueuedMessageStatus item.clientRequestId .queued else chat
  chat.applyQueueIncrement revision fun current =>
    let current := current.clearOptimisticSend item.clientRequestId
    if current.hasRow item.clientRequestId then
      { current with
        rows := current.rows.map fun row =>
          if row.clientRequestId = item.clientRequestId then { row with item := item } else row }
    else { current with rows := current.rows ++ [⟨item, .queued⟩] }

def messageDequeued (revision : ℕ) (clientRequestId : String) (item : Option Item) (turnId : Option String)
    (steer : Bool) : Chat :=
  chat.applyQueueIncrement revision fun current =>
    match item <|> (current.findRow clientRequestId).map Row.item with
    | some item => current.promoteQueuedMessage item turnId (steer && turnId.isSome)
    | none => current

def messageSteered (clientRequestId : String) (turnId : Option String) : Chat :=
  match chat.findRow clientRequestId with
  | some row => chat.promoteQueuedMessage row.item turnId true
  | none => chat

def messageQueueRemoved (revision : ℕ) (clientRequestId : String) : Chat :=
  chat.applyQueueIncrement revision fun current => current.removeQueuedMessageFromChat clientRequestId

/-- The outcome `removed`, or `already_dequeued`. -/
def queueRemoveResult (revision : ℕ) (clientRequestId : String) (removed : Bool) : Chat :=
  let next :=
    match removed, chat.findRow clientRequestId with
    | false, some row => chat.promoteQueuedMessage row.item none false
    | _, _ => chat.removeQueuedMessageFromChat clientRequestId
  if ∀ current ∈ chat.queueRevision, current < revision then next.markQueueDesynced revision else next

def messageAccepted (clientRequestId : String) : Chat :=
  match chat.findRow clientRequestId with
  | some row => if row.status = .sending then chat.promoteQueuedMessage row.item none false else chat
  | none => chat

def appendExternalUserMessage (clientRequestId turnId : Option String) (content : String) (media : List String) :
    Chat :=
  let chat := clientRequestId.elim chat chat.removeQueuedMessageFromChat
  match clientRequestId.bind fun id => chat.messages.findIdx? fun message => message.clientRequestId = some id with
  | some index =>
    { chat with
      messages := chat.messages.modify index fun message =>
        { message with
          content := if content = "" then message.content else content
          turnId := turnId <|> message.turnId
          media := if media = [] then message.media else media } }
  | none =>
    if turnId.isSome ∧ chat.messages.any fun message => message.turnId = turnId then chat
    else
      { chat with
        messages := chat.messages ++ [{
          clientRequestId := clientRequestId
          content := content
          media := media
          turnId := turnId
          queueSteerPending := false }] }

end Chat

/-! ### The agent -/

inductive Mutation where
  | queued (item : Item)
  | dequeued (clientRequestId : String) (item : Option Item) (turnId : Option String) (steer : Bool)
  | removed (clientRequestId : String)
  /-- Announced by a snapshot. -/
  | reordered (queuedAt : String → ℕ)

def mutate (queue : List Item) : Mutation → List Item
  | .queued item => queue ++ [item]
  | .dequeued clientRequestId _ _ _ => queue.filter fun item => item.clientRequestId ≠ clientRequestId
  | .removed clientRequestId => queue.filter fun item => item.clientRequestId ≠ clientRequestId
  | .reordered queuedAt => queue.map fun item => { item with queuedAt := queuedAt item.clientRequestId }

def isQueued (queue : List Item) (clientRequestId : String) : Bool :=
  queue.any fun item => item.clientRequestId = clientRequestId

/-- The agent queues what is not queued, and takes out what is. -/
def Mutation.valid (queue : List Item) : Mutation → Bool
  | .queued item => !isQueued queue item.clientRequestId
  | .dequeued clientRequestId item _ _ =>
    isQueued queue clientRequestId && item.all fun item => item.clientRequestId = clientRequestId
  | .removed clientRequestId => isQueued queue clientRequestId
  | .reordered _ => true

/-- The agent with its desktop: the mutations of the queue, of which the revision is the number. -/
structure State where
  mutations : List Mutation
  chat : Chat
  /-- The steers, starts and removals that were reported, with the revision at which they were. -/
  reported : List (String × ℕ)

/-- **The announced queue** after the mutation of the revision. -/
def State.queueAt (s : State) (revision : ℕ) : List Item := (s.mutations.take revision).foldl mutate []

/-! ### Steps -/

inductive Event where
  | mutated (mutation : Mutation)
  /-- `message_queued`, `message_dequeued` or `message_queue_removed` of the mutation with this index. -/
  | announced (index : ℕ)
  | snapshot (revision : ℕ) (started : List Item)
  | steered (revision : ℕ) (clientRequestId : String) (turnId : Option String)
  | removeResult (revision : ℕ) (clientRequestId : String) (removed : Bool)
  | accepted (clientRequestId : String)
  /-- `user`; it does not pass if its transcript offset was seen or its turn is closed. -/
  | user (revision : ℕ) (clientRequestId turnId : Option String) (content : String) (media : List String)
    (passes : Bool)
  | send (item : Item) (queueIfBusy busy : Bool)
  | sendRejected (clientRequestId : String)
  | removeStarted (clientRequestId : String)
  | steerStarted (clientRequestId : String)
  /-- `queueItemRemoveFailed`, `queueItemSteerReset` and `queueItemSteerFailed`. -/
  | controlFailed (clientRequestId : String)

/-- What the agent announces is so, an id is fresh, and only what is queued has its controls enabled. -/
def Possible (s : State) : Event → Prop
  | .mutated mutation => mutation.valid (s.queueAt s.mutations.length) = true
  | .announced index => index < s.mutations.length
  | .snapshot revision started => revision ≤ s.mutations.length ∧
      ∀ item ∈ started, isQueued (s.queueAt revision) item.clientRequestId = false
  | .steered revision clientRequestId _ => revision ≤ s.mutations.length ∧
      isQueued (s.queueAt revision) clientRequestId = false
  | .removeResult revision clientRequestId _ => revision ≤ s.mutations.length ∧
      isQueued (s.queueAt revision) clientRequestId = false
  | .user revision clientRequestId _ _ _ _ => revision ≤ s.mutations.length ∧
      ∀ id ∈ clientRequestId, isQueued (s.queueAt revision) id = false
  | .accepted _ => True
  | .send item _ _ => s.chat.hasRow item.clientRequestId = false ∧ s.chat.hasMessage item.clientRequestId = false
  | .sendRejected _ => True
  | .removeStarted clientRequestId => ∀ row ∈ s.chat.rows, row.clientRequestId = clientRequestId →
      row.status = .queued
  | .steerStarted clientRequestId => ∀ row ∈ s.chat.rows, row.clientRequestId = clientRequestId →
      row.status = .queued
  | .controlFailed clientRequestId => s.chat.hasSending clientRequestId = false

instance (s : State) : DecidablePred (Possible s)
  | .mutated _ => inferInstanceAs (Decidable (_ = _))
  | .announced _ => inferInstanceAs (Decidable (_ < _))
  | .snapshot _ _ => inferInstanceAs (Decidable (_ ∧ _))
  | .steered _ _ _ => inferInstanceAs (Decidable (_ ∧ _))
  | .removeResult _ _ _ => inferInstanceAs (Decidable (_ ∧ _))
  | .user _ _ _ _ _ _ => inferInstanceAs (Decidable (_ ∧ _))
  | .accepted _ => inferInstanceAs (Decidable True)
  | .send _ _ _ => inferInstanceAs (Decidable (_ ∧ _))
  | .sendRejected _ => inferInstanceAs (Decidable True)
  | .removeStarted _ => inferInstanceAs (Decidable (∀ row ∈ s.chat.rows, _ → _))
  | .steerStarted _ => inferInstanceAs (Decidable (∀ row ∈ s.chat.rows, _ → _))
  | .controlFailed _ => inferInstanceAs (Decidable (_ = _))

/-- The desktop receives the announcement of a mutation. -/
def Chat.announced (chat : Chat) (revision : ℕ) : Mutation → Chat
  | .queued item => chat.messageQueued revision item
  | .dequeued clientRequestId item turnId steer => chat.messageDequeued revision clientRequestId item turnId steer
  | .removed clientRequestId => chat.messageQueueRemoved revision clientRequestId
  | .reordered _ => chat

/-- What the announcement of a mutation reports. -/
def Mutation.reports : Mutation → List String
  | .dequeued clientRequestId _ _ _ => [clientRequestId]
  | .removed clientRequestId => [clientRequestId]
  | _ => []

def State.report (s : State) (revision : ℕ) (ids : List String) : State :=
  { s with reported := ids.map (·, revision) ++ s.reported }

/-- A step that is possible. -/
def State.perform (s : State) : Event → State
  | .mutated mutation => { s with mutations := s.mutations ++ [mutation] }
  | .announced index =>
    match s.mutations[index]? with
    | some mutation => { s with chat := s.chat.announced (index + 1) mutation }.report (index + 1) mutation.reports
    | none => s
  | .snapshot revision started =>
    { s with chat := s.chat.applyQueueSnapshot revision (s.queueAt revision) started }.report revision
      (started.map Item.clientRequestId)
  | .steered revision clientRequestId turnId =>
    { s with chat := s.chat.messageSteered clientRequestId turnId }.report revision [clientRequestId]
  | .removeResult revision clientRequestId removed =>
    { s with chat := s.chat.queueRemoveResult revision clientRequestId removed }.report revision [clientRequestId]
  | .accepted clientRequestId => { s with chat := s.chat.messageAccepted clientRequestId }
  | .user revision clientRequestId turnId content media passes =>
    { s with
      chat := if passes then s.chat.appendExternalUserMessage clientRequestId turnId content media else s.chat
      }.report revision clientRequestId.toList
  | .send item queueIfBusy busy => { s with chat := s.chat.queueOptimisticUserMessage item queueIfBusy busy }
  | .sendRejected clientRequestId => { s with chat := s.chat.clearOptimisticSend clientRequestId }
  | .removeStarted clientRequestId =>
    { s with chat := s.chat.updateQueuedMessageStatus clientRequestId .removing }
  | .steerStarted clientRequestId =>
    { s with chat := s.chat.updateQueuedMessageStatus clientRequestId .steering }
  | .controlFailed clientRequestId => { s with chat := s.chat.updateQueuedMessageStatus clientRequestId .queued }

/-- What is not possible does not happen. -/
def step (s : State) (event : Event) : State := if Possible s event then s.perform event else s

/-- A connection is ready. -/
def start (messages : List Message) : State where
  mutations := []
  chat := {
    rows := []
    messages := messages
    queueRevision := none
    queueDesynced := none }
  reported := []

end Memmy.Desktop
