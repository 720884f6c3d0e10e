import Memmy.AgentChat.Messages
import Memmy.Desktop.Queue

/-! # The chats of the desktop, and the one that is open

What the desktop keeps of every chat, and its copy of the messages, goal and plan of the open one. An event of a
chat is reduced with that chat's data; for a chat that is not open, `withScopedChatMessages` opens it, reduces the
event and restores what was shown.

The task list, notices, unseen markers and the choice of a model follow from other fields or are not read here. -/

namespace Memmy.AgentChat

open Memmy.Desktop (Item Row Status)

/-! ### Data -/

inductive TurnSourceKind where
  | gui
  | tui
  | im
deriving DecidableEq

structure TurnSource where
  kind : TurnSourceKind
  channel : String
deriving DecidableEq

inductive GoalStatus where
  | active
  | paused
  | blocked
  | usageLimited
  | budgetLimited
  | completed
deriving DecidableEq

/-- `AgentGoalState`, its other fields as JSON. -/
structure Goal where
  goalId : Option String
  status : Option GoalStatus
  timeUsedSeconds : ℕ
  rest : String
deriving DecidableEq

/-- `AgentTaskPlanState`, as JSON. -/
structure TaskPlan where
  json : String
deriving DecidableEq

structure GoalRunClock where
  goalId : String
  turnId : Option String
  startedAt : ℕ
  baseSeconds : ℕ
deriving DecidableEq

structure RetryWait where
  turnId : Option String
  anchorMessageId : Option String
  text : String
  isRunning : Bool
deriving DecidableEq

structure QueueDesync where
  generation : ℕ
  observedRevision : ℕ
deriving DecidableEq

inductive ClosedReason where
  | stopped
  | ended
deriving DecidableEq

/-- **What is kept for a chat**: the values under its id in the maps of the state. -/
structure Chat where
  messages : List Message := []
  queuedMessages : List Row := []
  queueRevision : Option ℕ := none
  queueDesynced : Option QueueDesync := none
  retryWaitStatus : Option RetryWait := none
  /-- `none` without an entry, `some none` for an idle chat. -/
  runStartedAt : Option (Option ℕ) := none
  runStatusVersion : ℕ := 0
  activeTurnId : Option String := none
  activeTurnSource : Option TurnSource := none
  transcriptOffset : Option ℕ := none
  closedTurnIds : List (String × ClosedReason) := []
  optimisticSending : Bool := false
  deliveryUncertain : Bool := false
  stopInFlight : Bool := false
  suppressAssistantStreamUntilTurnEnd : Bool := false
  proactiveDeliveryIds : List String := []
  proactiveLiveDeliveryIds : List String := []
  goalState : Option Goal := none
  goalRunClock : Option GoalRunClock := none
  taskPlanState : Option TaskPlan := none
deriving DecidableEq

structure State where
  connectionGeneration : ℕ
  recoveringGeneration : Option ℕ
  recoveringChatId : Option String
  /-- `run_started_at` of the session of a chat. -/
  sessionRunStartedAt : String → Option ℕ
  chats : String → Chat
  currentChatId : Option String
  blankDraftActive : Bool
  messages : List Message
  isSending : Bool
  goalState : Option Goal
  taskPlanState : Option TaskPlan

/-! ### Events -/

structure ProactiveMessage where
  deliveryId : Option String
  taskName : Option String
  content : String
  media : List String
  replayed : Bool
deriving DecidableEq

/-- A content event, its texts, media, reports and edits normalized. -/
inductive Content where
  | user (clientRequestId : Option String) (text : String) (media : List String)
  | agentQuestionResponse (response : QuestionResponse)
  | delta (text : String)
  | streamEnd (text : Option String) (resuming : Bool)
  | reasoningDelta (text : String)
  | reasoningEnd
  | progress (event : ToolProgress)
  | reasoning (text : String)
  | message (event : AssistantMessage)
  | proactive (event : ProactiveMessage)
  | fileEdit (edits : List FileEdit) (cancellationTerminal : Bool)
  | contextCompaction (event : Compaction)
  | retryWait (text : String)

inductive RunStatus where
  | running (startedAt : Option ℕ) (source : Option TurnSource)
  | idle

inductive Body where
  | content (content : Content)
  | messageQueued (revision : Option ℕ) (item : Item)
  | messageDequeued (revision : Option ℕ) (clientRequestId : String) (item : Option Item) (steer : Bool)
  | messageSteered (clientRequestId : String)
  | messageQueueRemoved (revision : Option ℕ) (clientRequestId : String)
  | messageQueueSnapshot (revision : Option ℕ) (items started : List Item)
  /-- The outcome `removed`, or `already_dequeued`. -/
  | queueRemoveResult (revision : Option ℕ) (clientRequestId : String) (removed : Bool)
  | messageAccepted (clientRequestId : String)
  | runStatusSnapshot (status : RunStatus)
  | runStatus (status : RunStatus)
  | goalState (goal : Goal)
  | taskPlanState (plan : TaskPlan)
  | turnEnd (latencyMs : Option ℕ)
  | stopResult

/-- `MemmyAgentWsEvent`, of a chat. -/
structure WsEvent where
  chatId : String
  connectionGeneration : Option ℕ := none
  turnId : Option String := none
  transcriptOffset : Option ℕ := none
  body : Body

namespace State

/-! ### Reading and writing -/

/-- `{ ...state, xByChatId: { ...state.xByChatId, [chatId]: x } }` -/
def modify (s : State) (chatId : String) (f : Chat → Chat) : State :=
  { s with chats := Function.update s.chats chatId (f (s.chats chatId)) }

def syncCurrentMessages (s : State) : State :=
  match s.currentChatId with
  | some chatId => s.modify chatId fun chat => { chat with messages := s.messages }
  | none => s

def syncIfOpen (s : State) (chatId : String) : State :=
  if s.currentChatId = some chatId then s.syncCurrentMessages else s

/-- The messages of a chat, and its copy if the chat is open. -/
def writeMessages (s : State) (chatId : String) (messages : List Message) : State :=
  { s.modify chatId fun chat => { chat with messages := messages } with
    messages := if s.currentChatId = some chatId then messages else s.messages }

def chatMessagesForId (s : State) (chatId : String) : List Message :=
  if s.currentChatId = some chatId then s.messages else (s.chats chatId).messages

def effectiveRunStartedAtForChat (s : State) (chatId : String) : Option ℕ :=
  (s.chats chatId).runStartedAt.getD (s.sessionRunStartedAt chatId)

def isChatBusy (s : State) (chatId : String) : Bool :=
  (s.effectiveRunStartedAtForChat chatId).isSome || (s.chats chatId).optimisticSending

def chatHasLiveStream (s : State) (chatId : String) : Bool := hasLiveStreamingMessage (s.chatMessagesForId chatId)

/-- A turn goes on unless it was stopped, or is idle and has no stream. -/
def shouldLiveEventKeepChatBusy (s : State) : Bool :=
  match s.currentChatId with
  | some chatId =>
    !(s.chats chatId).stopInFlight && (s.isChatBusy chatId || hasLiveStreamingMessage s.messages ||
      (s.chats chatId).runStartedAt ≠ some none)
  | none => false

/-- The button of the open chat shows whether it is busy. -/
def showBusy (s : State) (chatId : String) (busy : Bool) : State :=
  { s with isSending := if s.currentChatId = some chatId then busy else s.isSending }

/-! ### Choosing a chat -/

def switchCurrentChat (s : State) (chatId : String) : State :=
  let cached := s.syncCurrentMessages
  if cached.currentChatId = some chatId then
    { cached with
      blankDraftActive := false
      goalState := (cached.chats chatId).goalState <|> cached.goalState
      taskPlanState := (cached.chats chatId).taskPlanState <|> cached.taskPlanState
      isSending := cached.isChatBusy chatId }
  else
    { cached with
      currentChatId := some chatId
      messages := (cached.chats chatId).messages
      goalState := (cached.chats chatId).goalState
      taskPlanState := (cached.chats chatId).taskPlanState
      isSending := cached.isChatBusy chatId
      blankDraftActive := false }

def enterBlankDraft (s : State) : State :=
  { s.syncCurrentMessages with
    messages := []
    currentChatId := none
    isSending := false
    goalState := none
    taskPlanState := none
    blankDraftActive := true }

/-! ### The queue -/

def setQueuedMessagesForChat (s : State) (chatId : String) (items : List Row) : State :=
  s.modify chatId fun chat => { chat with queuedMessages := items }

def removeQueuedMessageFromChat (s : State) (chatId clientRequestId : String) : State :=
  s.setQueuedMessagesForChat chatId
    ((s.chats chatId).queuedMessages.filter fun row => row.clientRequestId ≠ clientRequestId)

def updateQueuedMessageStatus (s : State) (chatId clientRequestId : String) (status : Status) : State :=
  s.setQueuedMessagesForChat chatId ((s.chats chatId).queuedMessages.map fun row =>
    if row.clientRequestId = clientRequestId then { row with status := status } else row)

def findRow (s : State) (chatId clientRequestId : String) : Option Row :=
  (s.chats chatId).queuedMessages.find? fun row => row.clientRequestId = clientRequestId

def hasSending (s : State) (chatId clientRequestId : String) : Bool :=
  (s.chats chatId).queuedMessages.any fun row => row.clientRequestId = clientRequestId && row.status = .sending

def markQueueDesynced (s : State) (chatId : String) (observedRevision : ℕ) : State :=
  if ∃ current ∈ (s.chats chatId).queueDesynced,
      current.generation = s.connectionGeneration ∧ observedRevision ≤ current.observedRevision then s
  else s.modify chatId fun chat => { chat with queueDesynced := some ⟨s.connectionGeneration, observedRevision⟩ }

/-- An increment is applied at the revision after the recorded one, or if it has none. -/
def queueIncrementApplies (s : State) (chatId : String) : Option ℕ → Bool
  | none => true
  | some revision => (s.chats chatId).queueRevision.any (· + 1 = revision) && (s.chats chatId).queueDesynced.isNone

def applyQueueIncrement (s : State) (chatId : String) (revision : Option ℕ) (apply : State → State) : State :=
  match revision with
  | none => apply s
  | some revision =>
    match (s.chats chatId).queueRevision with
    | none => s.markQueueDesynced chatId revision
    | some current =>
      if current + 1 < revision then s.markQueueDesynced chatId revision
      else if revision ≤ current ∨ (s.chats chatId).queueDesynced.isSome then s
      else (apply s).modify chatId fun chat => { chat with queueRevision := some revision }

/-- The message that was shown when it was sent is removed. -/
def clearOptimisticMessage (s : State) (chatId clientRequestId : String) : State :=
  let currentMessages := s.chatMessagesForId chatId
  if hasMessage currentMessages clientRequestId then
    let messages := currentMessages.filter fun message => message.clientRequestId ≠ some clientRequestId
    let cleared := (s.writeMessages chatId messages).modify chatId fun chat => { chat with optimisticSending := false }
    cleared.showBusy chatId (cleared.isChatBusy chatId)
  else s

/-- `clearOptimisticSend`, with a client request id. -/
def clearOptimisticSend (s : State) (chatId clientRequestId : String) : State :=
  if s.hasSending chatId clientRequestId then
    (s.removeQueuedMessageFromChat chatId clientRequestId).clearOptimisticMessage chatId clientRequestId
  else s.clearOptimisticMessage chatId clientRequestId

def showOptimisticUserMessage (s : State) (chatId : String) (item : Item) : State :=
  let existingMessages := s.chatMessagesForId chatId
  if hasMessage existingMessages item.clientRequestId then s
  else
    let messages := appendUserMessage existingMessages (some item.clientRequestId) none item.content item.media
    let next := s.modify chatId fun chat =>
      { chat with
        messages := messages
        optimisticSending := true
        retryWaitStatus := none
        deliveryUncertain := false }
    if s.currentChatId = some chatId ∧ s.blankDraftActive = false then
      { next with
        messages := messages
        isSending := true }
    else next

/-- `queueOptimisticUserMessage` as a queued message is promoted: without focus, and not into the queue. -/
def queueOptimisticUserMessage (s : State) (chatId : String) (item : Item) : State :=
  (s.modify chatId fun chat =>
    { chat with suppressAssistantStreamUntilTurnEnd := false }).showOptimisticUserMessage chatId item

/-- The message was steered into the turn; if its chat is open, the copy is written over it. -/
def markSteerPending (s : State) (chatId clientRequestId turnId : String) : State :=
  let messages := AgentChat.markSteerPending (s.chatMessagesForId chatId) clientRequestId turnId
  (s.modify chatId fun chat => { chat with messages := messages }).syncCurrentMessages

/-- A message that left the queue is shown, if it is not yet. -/
def showQueuedMessage (s : State) (chatId : String) (item : Item) (turnId : Option String) (queueSteerPending : Bool) :
    State :=
  if hasMessage (s.chatMessagesForId chatId) item.clientRequestId then s
  else
    let promoted := s.queueOptimisticUserMessage chatId item
    match queueSteerPending, turnId with
    | true, some turnId => promoted.markSteerPending chatId item.clientRequestId turnId
    | _, _ => promoted

def promoteQueuedMessage (s : State) (chatId : String) (item : Item) (turnId : Option String)
    (queueSteerPending : Bool) : State :=
  (s.removeQueuedMessageFromChat chatId item.clientRequestId).showQueuedMessage chatId item turnId queueSteerPending

def applyQueueSnapshot (s : State) (chatId : String) (revision : Option ℕ) (items started : List Item) : State :=
  if ∃ r ∈ revision, ∃ current ∈ (s.chats chatId).queueRevision, r < current then s
  else if ∃ r ∈ revision, ∃ desync ∈ (s.chats chatId).queueDesynced,
      desync.generation = s.connectionGeneration ∧ r < desync.observedRevision then s
  else
    let startedIds := started.map Item.clientRequestId
    let waiting := items.filter fun item => item.clientRequestId ∉ startedIds
    let confirmedIds := startedIds ++ waiting.map Item.clientRequestId
    let pending := (s.chats chatId).queuedMessages.filter fun row =>
      row.status = .sending ∧ row.clientRequestId ∉ confirmedIds
    let next := waiting.foldl (fun s item => s.clearOptimisticSend chatId item.clientRequestId) s
    let next := next.setQueuedMessagesForChat chatId
      (Desktop.Chat.sortedQueuedMessages (waiting.map (Row.mk · .queued) ++ pending))
    let next := (Desktop.Chat.sortedQueuedMessages (started.map (Row.mk · .queued))).foldl (fun s row =>
      s.promoteQueuedMessage chatId row.item row.item.turnId (row.item.chatComposer && row.item.steer)) next
    next.modify chatId fun chat =>
      { chat with
        queueRevision := revision <|> chat.queueRevision
        queueDesynced := none }

/-- The row of a request that is still being sent is acknowledged, whatever the revision. -/
def acknowledgeQueued (s : State) (chatId : String) (item : Item) : State :=
  if s.hasSending chatId item.clientRequestId then s.updateQueuedMessageStatus chatId item.clientRequestId .queued
  else s

def setQueuedItem (s : State) (chatId : String) (item : Item) : State :=
  let current := (s.chats chatId).queuedMessages
  s.setQueuedMessagesForChat chatId <|
    match current.findIdx? fun row => row.clientRequestId = item.clientRequestId with
    | some index => current.modify index fun row => { row with item := item }
    | none => current ++ [⟨item, .queued⟩]

def messageQueued (s : State) (chatId : String) (revision : Option ℕ) (item : Item) : State :=
  (s.acknowledgeQueued chatId item).applyQueueIncrement chatId revision fun s =>
    (s.clearOptimisticSend chatId item.clientRequestId).setQueuedItem chatId item

/-- The item that a `message_dequeued` takes out. -/
def dequeuedItem (s : State) (chatId clientRequestId : String) (item : Option Item) : Option Item :=
  item <|> (s.findRow chatId clientRequestId).map Row.item

def messageDequeued (s : State) (chatId : String) (revision : Option ℕ) (clientRequestId : String)
    (item : Option Item) (turnId : Option String) (steer : Bool) : State :=
  s.applyQueueIncrement chatId revision fun s =>
    match s.dequeuedItem chatId clientRequestId item with
    | some item => s.promoteQueuedMessage chatId item turnId (steer && turnId.isSome)
    | none => s

def messageSteered (s : State) (chatId clientRequestId : String) (turnId : Option String) : State :=
  match s.findRow chatId clientRequestId with
  | some row => s.promoteQueuedMessage chatId row.item turnId true
  | none => s

def messageQueueRemoved (s : State) (chatId : String) (revision : Option ℕ) (clientRequestId : String) : State :=
  s.applyQueueIncrement chatId revision fun s => s.removeQueuedMessageFromChat chatId clientRequestId

/-- The queue does not have the message any more: it was removed, or started. -/
def settleQueuedMessage (s : State) (chatId clientRequestId : String) (removed : Bool) : State :=
  match removed, s.findRow chatId clientRequestId with
  | false, some row => s.promoteQueuedMessage chatId row.item none false
  | _, _ => s.removeQueuedMessageFromChat chatId clientRequestId

def queueRemoveResult (s : State) (chatId : String) (revision : Option ℕ) (clientRequestId : String)
    (removed : Bool) : State :=
  let next := s.settleQueuedMessage chatId clientRequestId removed
  match revision with
  | some revision =>
    if ∀ current ∈ (s.chats chatId).queueRevision, current < revision then next.markQueueDesynced chatId revision
    else next
  | none => next

def messageAccepted (s : State) (chatId clientRequestId : String) : State :=
  match s.findRow chatId clientRequestId with
  | some row => if row.status = .sending then s.promoteQueuedMessage chatId row.item none false else s
  | none => s

/-! ### Turns -/

def isClosedTurn (s : State) (chatId : String) (turnId : Option String) : Bool :=
  turnId.any fun turnId => (s.chats chatId).closedTurnIds.any (·.1 = turnId)

def closedTurnLimit : ℕ := 20

/-- The last closed turns, with one more. -/
def withClosedTurn (closed : List (String × ClosedReason)) (turnId : String) (reason : ClosedReason) :
    List (String × ClosedReason) :=
  let entries :=
    if closed.any (·.1 = turnId) then closed.map fun entry => if entry.1 = turnId then (turnId, reason) else entry
    else closed ++ [(turnId, reason)]
  entries.drop (entries.length - closedTurnLimit)

def markClosedTurn (s : State) (chatId : String) (turnId : Option String) (reason : ClosedReason) : State :=
  match turnId with
  | some turnId =>
    s.modify chatId fun chat =>
      { chat with
        activeTurnId := none
        closedTurnIds := withClosedTurn chat.closedTurnIds turnId reason }
  | none => s

def finishChatStreaming (s : State) (chatId : String) (latencyMs : Option ℕ) : State :=
  s.writeMessages chatId (finishStreamingMessages (s.chatMessagesForId chatId) latencyMs)

def clearRetryWaitStatusForChat (s : State) (chatId : String) : State :=
  (s.modify chatId fun chat => { chat with retryWaitStatus := none }).syncIfOpen chatId

def finishRetryWaitStatusForTurn (s : State) (chatId : String) (turnId : Option String) : State :=
  match (s.chats chatId).retryWaitStatus with
  | some status =>
    if !status.isRunning || (turnId.isSome && status.turnId.isSome && status.turnId ≠ turnId) then s
    else s.clearRetryWaitStatusForChat chatId
  | none => s

def goalStateForChat (s : State) (chatId : String) : Option Goal :=
  (s.chats chatId).goalState <|> if s.currentChatId = some chatId then s.goalState else none

def sameGoalRun (clock : GoalRunClock) (goalId : String) (startedAt : ℕ) (turnId : Option String) : Bool :=
  clock.goalId = goalId &&
    if clock.turnId.isSome && turnId.isSome then clock.turnId = turnId else clock.startedAt = startedAt

def newClock (goal : Option Goal) (startedAt : Option ℕ) (turnId : Option String) : Option GoalRunClock :=
  match goal, startedAt with
  | some goal, some startedAt =>
    (nonempty goal.goalId).bind fun goalId =>
      if goal.status = some .active then some ⟨goalId, turnId, startedAt, goal.timeUsedSeconds⟩ else none
  | _, _ => none

def updateGoalRunClockForRunning (s : State) (chatId : String) (startedAt : ℕ) (turnId : Option String) :
    Option GoalRunClock :=
  let goal := s.goalStateForChat chatId
  match (s.chats chatId).goalRunClock, goal.bind (nonempty ·.goalId) with
  | some current, some goalId =>
    if sameGoalRun current goalId startedAt turnId then some { current with turnId := turnId <|> current.turnId }
    else newClock goal (some startedAt) turnId
  | _, _ => newClock goal (some startedAt) turnId

def updateGoalRunClockForGoalState (s : State) (chatId : String) (goal : Goal) : Option GoalRunClock :=
  let startedAt := s.effectiveRunStartedAtForChat chatId
  let turnId := (s.chats chatId).activeTurnId
  match nonempty goal.goalId with
  | none => none
  | some goalId =>
    if goal.status = some .completed then none
    else
      match (s.chats chatId).goalRunClock, startedAt with
      | some current, some started =>
        if sameGoalRun current goalId started turnId then some current else newClock (some goal) startedAt turnId
      | _, _ => newClock (some goal) startedAt turnId

def markChatRunning (s : State) (chatId : String) (startedAt : ℕ) (turnId : Option String)
    (source : Option TurnSource) : State :=
  s.modify chatId fun chat =>
    { chat with
      runStartedAt := some (some startedAt)
      goalRunClock := s.updateGoalRunClockForRunning chatId startedAt turnId
      runStatusVersion := chat.runStatusVersion + 1
      activeTurnId := turnId <|> chat.activeTurnId
      activeTurnSource := source
      optimisticSending := false }

inductive MarkChatIdleSource where
  | turnEnd
  | runStatusIdle
  | stopResult
  | runStatusSnapshot
deriving DecidableEq

def MarkChatIdleSource.shouldClearStreamingFlags : MarkChatIdleSource → Bool
  | .turnEnd => true
  | .runStatusIdle => false
  | .stopResult => false
  | .runStatusSnapshot => true

def MarkChatIdleSource.closedReason : MarkChatIdleSource → ClosedReason
  | .stopResult => .stopped
  | _ => .ended

def markChatIdle (s : State) (chatId : String) (source : MarkChatIdleSource) (latencyMs : Option ℕ)
    (turnId : Option String) : State :=
  if ∃ active ∈ (s.chats chatId).activeTurnId, turnId ≠ some active then s
  else
    let finished := if source.shouldClearStreamingFlags then s.finishChatStreaming chatId latencyMs else s
    let closed := (finished.finishRetryWaitStatusForTurn chatId turnId).markClosedTurn chatId turnId source.closedReason
    ((closed.modify chatId fun chat =>
      { chat with
        suppressAssistantStreamUntilTurnEnd := false
        runStartedAt := some none
        goalRunClock := none
        runStatusVersion := chat.runStatusVersion + 1
        activeTurnId := none
        activeTurnSource := none
        optimisticSending := if source = .runStatusSnapshot then chat.optimisticSending else false
        stopInFlight := false }).showBusy chatId false).syncIfOpen chatId

def reconcileRunStatusSnapshot (s : State) (chatId : String) (status : RunStatus) (turnId : Option String) : State :=
  match status with
  | .running (some startedAt) source =>
    if s.isClosedTurn chatId turnId then s
    else
      let next := s.markChatRunning chatId startedAt turnId source
      next.showBusy chatId (next.isChatBusy chatId)
  | .running none _ => s
  | .idle =>
    let next := s.markChatIdle chatId .runStatusSnapshot none (turnId <|> (s.chats chatId).activeTurnId)
    next.showBusy chatId (next.isChatBusy chatId)

def updateRunStatus (s : State) (chatId : String) (status : RunStatus) (turnId : Option String) : State :=
  match status with
  | .running (some startedAt) source =>
    let next := s.markChatRunning chatId startedAt turnId source
    next.showBusy chatId (next.isChatBusy chatId)
  | _ =>
    if s.chatHasLiveStream chatId then s
    else
      let next := s.markChatIdle chatId .runStatusIdle none turnId
      next.showBusy chatId (next.isChatBusy chatId)

def updateGoalState (s : State) (chatId : String) (goal : Goal) : State :=
  { s.modify chatId fun chat =>
      { chat with
        goalState := some goal
        goalRunClock := s.updateGoalRunClockForGoalState chatId goal } with
    goalState := if s.currentChatId = some chatId then some goal else s.goalState }

def updateTaskPlanState (s : State) (chatId : String) (plan : TaskPlan) : State :=
  { s.modify chatId fun chat => { chat with taskPlanState := some plan } with
    taskPlanState := if s.currentChatId = some chatId then some plan else s.taskPlanState }

/-! ### Content of the open chat -/

/-- `syncCurrentMessages({ ...state, messages, isSending })` -/
def showMessages (s : State) (messages : List Message) (isSending : Bool) : State :=
  { s with
    messages := messages
    isSending := isSending }.syncCurrentMessages

def appendAssistantDelta (s : State) (text : String) (turnId : Option String) : State :=
  if text = "" then s
  else
    let keepBusy := s.shouldLiveEventKeepChatBusy
    s.showMessages (AgentChat.appendAssistantDelta s.messages text keepBusy turnId) keepBusy

def endAssistantStream (s : State) (text : Option String) (resuming : Bool) (turnId : Option String) : State :=
  s.showMessages (AgentChat.endAssistantStream s.messages text resuming turnId) s.isSending

def appendReasoningDelta (s : State) (text : String) (turnId : Option String) : State :=
  if text = "" then s
  else
    let keepBusy := s.shouldLiveEventKeepChatBusy
    s.showMessages (AgentChat.appendReasoningDelta s.messages text keepBusy turnId) keepBusy

def closeReasoningStream (s : State) (turnId : Option String) : State :=
  s.showMessages (AgentChat.closeReasoningStream s.messages turnId) s.isSending

def appendCompleteReasoningMessage (s : State) (text : String) (turnId : Option String) : State :=
  if text = "" then s else (s.appendReasoningDelta text turnId).closeReasoningStream turnId

def appendAssistantMessage (s : State) (event : AssistantMessage) (turnId : Option String) : State :=
  s.showMessages (AgentChat.appendAssistantMessage s.messages event turnId) s.isSending

def appendToolProgress (describe : ToolEvent → String) (s : State) (event : ToolProgress) (turnId : Option String) :
    State :=
  let keepBusy := s.shouldLiveEventKeepChatBusy
  if event.lines = [] then s
  else
    match AgentChat.appendToolProgress describe s.messages event keepBusy turnId with
    | some messages => s.showMessages messages keepBusy
    | none => s

def appendFileEditTrace (s : State) (chatId : String) (edits : List FileEdit) (cancellationTerminal : Bool)
    (turnId : Option String) : State :=
  let isOver := cancellationTerminal || s.isClosedTurn chatId turnId
  let keepBusy := !cancellationTerminal && s.shouldLiveEventKeepChatBusy
  if edits = [] ∨ (s.isClosedTurn chatId turnId = true ∧ cancellationTerminal = false) then s
  else
    match AgentChat.appendFileEditTrace s.messages edits keepBusy isOver turnId with
    | some messages => s.showMessages messages keepBusy
    | none => s

def upsertContextCompactionDivider (s : State) (event : Compaction) (turnId : Option String) : State :=
  s.showMessages (AgentChat.upsertContextCompactionDivider s.messages event turnId) s.isSending

def applyAgentQuestionResponse (s : State) (response : QuestionResponse) : State :=
  s.showMessages (AgentChat.applyAgentQuestionResponse s.messages response) s.isSending

def appendExternalUserMessage (s : State) (chatId : String) (clientRequestId turnId : Option String) (text : String)
    (media : List String) : State :=
  let s := clientRequestId.elim s (s.removeQueuedMessageFromChat chatId)
  s.showMessages (AgentChat.appendExternalUserMessage s.messages clientRequestId turnId text media) s.isSending

def lastUserMessageId (messages : List Message) : Option String :=
  (messages.reverse.find? fun message => message.role = .user).map Message.id

def upsertRetryWaitStatus (s : State) (chatId : String) (text : String) (turnId : Option String) : State :=
  if text = "" then s
  else
    let keepBusy := s.shouldLiveEventKeepChatBusy
    let next : RetryWait :=
      match (s.chats chatId).retryWaitStatus.filter fun existing =>
          turnId.isNone || existing.turnId.isNone || existing.turnId = turnId with
      | some existing =>
        { existing with
          text := text
          isRunning := keepBusy
          turnId := turnId <|> existing.turnId }
      | none =>
        { turnId := turnId
          anchorMessageId := lastUserMessageId s.messages
          text := text
          isRunning := keepBusy }
    (s.modify chatId fun chat => { chat with retryWaitStatus := some next }).showMessages s.messages keepBusy

/-! ### Content of any chat -/

def asOpen (s : State) (chatId : String) : State :=
  { s with
    currentChatId := some chatId
    messages := (s.chats chatId).messages
    isSending := s.isChatBusy chatId
    blankDraftActive := false
    goalState := (s.chats chatId).goalState
    taskPlanState := (s.chats chatId).taskPlanState }

/-- What was shown, after the chat was reduced as if it were open. -/
def restored (s reduced : State) (chatId : String) : State :=
  let reduced := reduced.modify chatId fun chat => { chat with messages := reduced.messages }
  { reduced with
    currentChatId := s.currentChatId
    messages := s.messages
    isSending := s.currentChatId.any fun current => reduced.isChatBusy current || hasLiveStreamingMessage s.messages
    blankDraftActive := s.blankDraftActive
    goalState := s.currentChatId.bind fun current => (reduced.chats current).goalState
    taskPlanState := s.currentChatId.bind fun current => (reduced.chats current).taskPlanState }

def withScopedChatMessages (s : State) (chatId : String) (reducer : State → State) : State :=
  if s.currentChatId = some chatId then reducer s else s.restored (reducer (s.asOpen chatId)) chatId

end State

/-- A delta or the end of a stream, which may come again from the transcript. -/
def Content.isOffsetGuarded : Content → Bool
  | .delta _ => true
  | .reasoningDelta _ => true
  | .streamEnd _ _ => true
  | _ => false

def Content.isCancellationTerminalFileEditEvent : Content → Bool
  | .fileEdit _ cancellationTerminal => cancellationTerminal
  | _ => false

def Content.isRetryWait : Content → Bool
  | .retryWait _ => true
  | _ => false

/-- The offset after an event that has one, if it is not one that was applied. -/
def WsEvent.passesTranscriptOffset (event : WsEvent) (content : Content) (chat : Chat) : Bool :=
  !content.isOffsetGuarded || event.transcriptOffset.all fun offset => chat.transcriptOffset.all (· < offset)

def proactiveDeliveryLimit : ℕ := 1024

/-- The last of the ids, with one more. -/
def rememberId (ids : List String) (id : String) : List String :=
  (ids ++ [id]).drop (ids.length + 1 - proactiveDeliveryLimit)

def Chat.rememberProactiveDelivery (chat : Chat) (event : ProactiveMessage) : Chat :=
  match event.deliveryId with
  | some id =>
    { chat with
      proactiveLiveDeliveryIds :=
        if event.replayed then chat.proactiveLiveDeliveryIds else rememberId chat.proactiveLiveDeliveryIds id
      proactiveDeliveryIds :=
        if id ∈ chat.proactiveDeliveryIds then chat.proactiveDeliveryIds else rememberId chat.proactiveDeliveryIds id }
  | none => chat

namespace State

def appendCronProactiveMessage (s : State) (chatId : String) (event : ProactiveMessage) : State :=
  let chat := s.chats chatId
  let previous := s.chatMessagesForId chatId
  let alreadyLive := event.deliveryId.any (· ∈ chat.proactiveLiveDeliveryIds)
  let alreadyRecorded := event.deliveryId.any fun deliveryId =>
    deliveryId ∈ chat.proactiveDeliveryIds || previous.any fun message => message.proactiveDeliveryId = some deliveryId
  if alreadyLive || (alreadyRecorded && event.replayed) then s
  else if Lib.Text.trim event.content = "" ∧ event.media = [] then s
  else
    let message : Message := {
      id := (event.deliveryId.map ("cron:" ++ ·)).getD (nextMessageId previous .assistant)
      role := .assistant
      content := event.content
      media := event.media
      proactive := true
      proactiveTaskName := event.taskName
      proactiveDeliveryId := event.deliveryId }
    let messages := if alreadyRecorded then previous else previous ++ [message]
    (s.modify chatId fun chat => chat.rememberProactiveDelivery event).writeMessages chatId messages

section Reducer

variable (describe : ToolEvent → String)

/-- A content event of the chat that is open, or as if it were. -/
def reduceContent (chatId : String) (turnId : Option String) (suppressing : Bool) (content : Content) (s : State) :
    State :=
  let active := if content.isRetryWait then s else s.finishRetryWaitStatusForTurn chatId turnId
  match content with
  | .user clientRequestId text media => s.appendExternalUserMessage chatId clientRequestId turnId text media
  | .retryWait text => s.upsertRetryWaitStatus chatId text turnId
  | .delta text => if suppressing then active else active.appendAssistantDelta text turnId
  | .streamEnd text resuming => if suppressing then active else active.endAssistantStream text resuming turnId
  | .reasoningDelta text => if suppressing then active else active.appendReasoningDelta text turnId
  | .reasoningEnd => if suppressing then active else active.closeReasoningStream turnId
  | .progress event => if suppressing then active else active.appendToolProgress describe event turnId
  | .reasoning text => if suppressing then active else active.appendCompleteReasoningMessage text turnId
  | .message event =>
    let next := active.appendAssistantMessage event turnId
    if event.hasMedia then next.modify chatId fun chat => { chat with suppressAssistantStreamUntilTurnEnd := true }
    else next
  | .agentQuestionResponse response => active.applyAgentQuestionResponse response
  | .fileEdit edits cancellationTerminal => active.appendFileEditTrace chatId edits cancellationTerminal turnId
  | .contextCompaction event => active.upsertContextCompactionDivider event turnId
  | .proactive _ => s

/-- The offset of an event that may come again is recorded. -/
def applyTranscriptOffset (s : State) (event : WsEvent) (content : Content) : State :=
  s.modify event.chatId fun chat =>
    { chat with
      transcriptOffset :=
        if content.isOffsetGuarded then event.transcriptOffset <|> chat.transcriptOffset else chat.transcriptOffset }

def reduceTurnContent (s : State) (event : WsEvent) (content : Content) : State :=
  if event.passesTranscriptOffset content (s.chats event.chatId) = false then s
  else
    let s := s.applyTranscriptOffset event content
    let suppressing := (s.chats event.chatId).suppressAssistantStreamUntilTurnEnd
    if s.isClosedTurn event.chatId event.turnId ∧ content.isCancellationTerminalFileEditEvent = false then s
    else if content.isRetryWait ∧ (s.chats event.chatId).stopInFlight then s.clearRetryWaitStatusForChat event.chatId
    else s.withScopedChatMessages event.chatId (reduceContent describe event.chatId event.turnId suppressing content)

def reduceChatContentEvent (s : State) (event : WsEvent) (content : Content) : State :=
  match content with
  | .proactive message => s.appendCronProactiveMessage event.chatId message
  | content => reduceTurnContent describe s event content

def reduceWsEvent (s : State) (event : WsEvent) : State :=
  if event.connectionGeneration.any (· ≠ s.connectionGeneration) then s
  else
    match event.body with
    | .content content => reduceChatContentEvent describe s event content
    | .messageQueued revision item => s.messageQueued event.chatId revision item
    | .messageDequeued revision clientRequestId item steer =>
      s.messageDequeued event.chatId revision clientRequestId item event.turnId steer
    | .messageSteered clientRequestId => s.messageSteered event.chatId clientRequestId event.turnId
    | .messageQueueRemoved revision clientRequestId => s.messageQueueRemoved event.chatId revision clientRequestId
    | .messageQueueSnapshot revision items started => s.applyQueueSnapshot event.chatId revision items started
    | .queueRemoveResult revision clientRequestId removed =>
      s.queueRemoveResult event.chatId revision clientRequestId removed
    | .messageAccepted clientRequestId => s.messageAccepted event.chatId clientRequestId
    | .runStatusSnapshot status =>
      if event.connectionGeneration.isSome ∧ s.recoveringGeneration = event.connectionGeneration ∧
          s.recoveringChatId = some event.chatId then s
      else s.reconcileRunStatusSnapshot event.chatId status event.turnId
    | .runStatus status => s.updateRunStatus event.chatId status event.turnId
    | .goalState goal => s.updateGoalState event.chatId goal
    | .taskPlanState plan => s.updateTaskPlanState event.chatId plan
    | .turnEnd latencyMs => s.markChatIdle event.chatId .turnEnd latencyMs event.turnId
    | .stopResult => s.markChatIdle event.chatId .stopResult none event.turnId

end Reducer

end State

/-! ### Steps -/

/-- An event of the server, or the user chooses a chat or a blank draft. -/
inductive Step where
  | server (event : WsEvent)
  | switched (chatId : String)
  | blankDraft

def step (describe : ToolEvent → String) (s : State) : Step → State
  | .server event => s.reduceWsEvent describe event
  | .switched chatId => s.switchCurrentChat chatId
  | .blankDraft => s.enterBlankDraft

def Step.serverEvent : Step → Option WsEvent
  | .server event => some event
  | _ => none

def init : State where
  connectionGeneration := 0
  recoveringGeneration := none
  recoveringChatId := none
  sessionRunStartedAt := fun _ => none
  chats := fun _ => {}
  currentChatId := none
  blankDraftActive := false
  messages := []
  isSending := false
  goalState := none
  taskPlanState := none

end Memmy.AgentChat
