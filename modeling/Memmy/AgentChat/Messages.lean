import Memmy.AgentChat.Traces
import Memmy.Lib.Text

/-! # The messages of a chat

What the events of a turn do to the messages of a chat, from the list before to the list after. `keepBusy` says
whether the turn goes on: what comes once it does not is marked as stopped by the user. Clock times are left out.

* `nextMessageId`, `nextActivitySegmentId`: ids that the messages do not have yet.
* `appendAssistantDelta`, `endAssistantStream`, `appendReasoningDelta`, `closeReasoningStream`: streamed text.
* `appendAssistantMessage`, `appendToolProgress`, `appendFileEditTrace`, `upsertContextCompactionDivider`: what comes
  whole.
* `finishStreamingMessages`: the end of a turn. -/

namespace Memmy.AgentChat

open Lib.Text

/-! ### Data -/

inductive Role where
  | user
  | assistant
  | tool
deriving DecidableEq

def Role.name : Role → String
  | .user => "user"
  | .assistant => "assistant"
  | .tool => "tool"

inductive MessageKind where
  | trace
  | message
  | narration
  | contextCompaction
deriving DecidableEq

inductive CompactionStatus where
  | running
  | done
  | error
deriving DecidableEq

/-- What is shown for a message, as JSON, with the id of its question. -/
structure AgentUi where
  questionRequestId : Option String
  json : String
deriving DecidableEq

structure QuestionResponse where
  requestId : String
  answers : List String
  cancelled : Bool
deriving DecidableEq

inductive ModelErrorCategory where
  | quotaExhausted
  | imageInputUnsupported
  | imageAnalysisFailed
  | modelFailed
deriving DecidableEq

/-- `MemmyAgentModelError`, its other fields as JSON. -/
structure ModelError where
  category : ModelErrorCategory
  rest : String
deriving DecidableEq

/-- `AgentChatMessage` -/
structure Message where
  id : String
  role : Role
  content : String
  turnId : Option String := none
  kind : Option MessageKind := none
  reasoning : Option String := none
  reasoningStreaming : Bool := false
  media : List String := []
  traces : List String := []
  toolEvents : List ToolEvent := []
  fileEdits : List FileEdit := []
  agentUi : Option AgentUi := none
  questionResponse : Option QuestionResponse := none
  questionInterrupted : Bool := false
  activitySegmentId : Option String := none
  compactionId : Option String := none
  compactionStatus : Option CompactionStatus := none
  latencyMs : Option ℕ := none
  isStreaming : Bool := false
  stoppedByUser : Bool := false
  modelError : Option ModelError := none
  clientRequestId : Option String := none
  proactiveDeliveryId : Option String := none
  /-- `proactiveDelivery === "cron"`. -/
  proactive : Bool := false
  proactiveTaskName : Option String := none
  queueSteerPending : Bool := false
deriving DecidableEq

namespace Message

variable (message : Message)

def hasText : Bool := trim message.content ≠ ""

def isOpen : Bool := message.isStreaming || message.reasoningStreaming

def isReasoningOnlyActivityMessage : Bool :=
  message.role = .assistant && message.kind ≠ some .trace && !message.hasText && (nonempty message.reasoning).isSome &&
    message.media = []

def hasLoadedMessagePayload : Bool :=
  message.hasText || message.reasoning.any (trim · ≠ "") || message.media ≠ [] || message.traces ≠ [] ||
    message.toolEvents ≠ [] || message.fileEdits ≠ []

/-- The message, stopped by the user unless the turn goes on. -/
def stopUnless (keepBusy : Bool) : Message :=
  if !keepBusy && message.hasLoadedMessagePayload then { message with stoppedByUser := true } else message

def close : Message :=
  { message with
    isStreaming := false
    reasoningStreaming := false }

/-- What is shown of the trace so far. -/
def previousTraces : List String :=
  if message.traces ≠ [] then message.traces else if message.content ≠ "" then [message.content] else []

end Message

def hasLiveStreamingMessage (messages : List Message) : Bool := messages.any Message.isOpen

/-! ### Ids -/

/-- The first of `stem-(length + 1)`, `stem-(length + 2)`, … that is not used; one of more than are used is not. -/
def firstUnused (stem : String) (used : List String) (length : ℕ) : String :=
  (((List.range (used.length + 1)).map fun k => stem ++ "-" ++ toString (length + 1 + k)).find?
    (· ∉ used)).getD ""

def nextMessageId (messages : List Message) (role : Role) : String :=
  firstUnused role.name (messages.map Message.id) messages.length

def nextActivitySegmentId (messages : List Message) : String :=
  firstUnused "activity" (messages.filterMap fun message => nonempty message.activitySegmentId) messages.length

/-! ### Positions -/

/-- The index of the last message with the property. -/
def lastIndex? (p : Message → Bool) (messages : List Message) : Option ℕ :=
  (messages.reverse.findIdx? p).map (messages.length - 1 - ·)

def inTurn (turnId : Option String) (message : Message) : Bool := turnId.isNone || message.turnId = turnId

/-- The last message of the turn, or of all if none is given. -/
def latestMessageIndexForTurn (messages : List Message) (turnId : Option String) : Option ℕ :=
  lastIndex? (fun message => !message.proactive && inTurn turnId message) messages

def previousMessageIndexForTurn (messages : List Message) (beforeIndex : ℕ) (turnId : Option String) : Option ℕ :=
  latestMessageIndexForTurn (messages.take beforeIndex) turnId

def latestForTurn (messages : List Message) (turnId : Option String) : Option (ℕ × Message) :=
  (latestMessageIndexForTurn messages turnId).bind fun index => messages[index]?.map (index, ·)

def currentTurnStartIndex (messages : List Message) : ℕ :=
  ((lastIndex? (fun message => message.role = .user) messages).map (· + 1)).getD 0

/-- The last message of the turn with the property; if no turn is given, of those after the last of the user. -/
def findLatest (messages : List Message) (turnId : Option String) (p : Message → Bool) : Option ℕ :=
  (lastIndex? (fun message => inTurn turnId message && p message) messages).filter fun index =>
    turnId.isSome || currentTurnStartIndex messages ≤ index

def findLatestFoldableAssistantAnswerIndex (messages : List Message) (turnId : Option String) : Option ℕ :=
  findLatest messages turnId fun message =>
    !message.proactive && message.role = .assistant && message.kind ≠ some .trace && message.kind ≠ some .narration &&
      message.hasText && message.media = []

def findLatestStreamingAssistantAnswerIndex (messages : List Message) (turnId : Option String) : Option ℕ :=
  findLatest messages turnId fun message =>
    message.role = .assistant && message.kind ≠ some .trace && message.isStreaming && message.hasText

def findFileEditTraceIndex (messages : List Message) (incoming : List FileEdit) (turnId : Option String) : Option ℕ :=
  findLatest messages turnId fun message =>
    message.kind = some .trace && message.fileEdits.any fun edit => incoming.any edit.sharesActivity

def findFileEditTraceIndexForToolEvents (messages : List Message) (events : List ToolEvent) (turnId : Option String) :
    Option ℕ :=
  findLatest messages turnId fun message =>
    message.kind = some .trace && message.fileEdits.any fun edit => events.any (fileEditMatchesToolEvent edit)

def findToolTraceIndexForToolEvents (messages : List Message) (events : List ToolEvent) (segmentId : String)
    (turnId : Option String) : Option ℕ :=
  findLatest messages turnId fun message =>
    message.kind = some .trace && (segmentId = "" || message.activitySegmentId = some segmentId) &&
      message.toolEvents.any fun event => events.any (toolEventsMatch event)

def findToolTraceSegmentIdForFileEdits (messages : List Message) (edits : List FileEdit) (turnId : Option String) :
    Option String :=
  ((findLatest messages turnId fun message =>
    message.kind = some .trace && message.toolEvents.any fun event =>
      edits.any (fileEditMatchesToolEvent · event)).bind (messages[·]?)).bind Message.activitySegmentId

/-! ### Segments of activity -/

def firstActivitySegmentIdInCurrentTurn (messages : List Message) : Option String :=
  (messages.drop (currentTurnStartIndex messages)).findSome? fun message => nonempty message.activitySegmentId

def currentTurnActivitySegmentId (messages : List Message) : String :=
  (firstActivitySegmentIdInCurrentTurn messages).getD (nextActivitySegmentId messages)

def findActivitySegmentIdByTurn (messages : List Message) (turnId : Option String) : Option String :=
  if turnId.isNone then none
  else messages.reverse.findSome? fun message =>
    if message.turnId = turnId then nonempty message.activitySegmentId else none

def currentOrTurnActivitySegmentId (messages : List Message) (turnId : Option String) : String :=
  (findActivitySegmentIdByTurn messages turnId).getD (currentTurnActivitySegmentId messages)

def Message.inSegment (message : Message) (messages : List Message) (turnId : Option String) : Message :=
  { message with
    activitySegmentId := message.activitySegmentId <|> some (currentOrTurnActivitySegmentId messages turnId) }

def closeLatestAssistantAnswerBeforeNewActivity (messages : List Message) (turnId : Option String) : List Message :=
  match findLatestFoldableAssistantAnswerIndex messages turnId with
  | some index => messages.modify index Message.close
  | none => messages

/-! ### Streamed text -/

def newStreamingAssistantMessage (messages : List Message) (text : String) (keepBusy : Bool) (turnId : Option String) :
    Message where
  id := nextMessageId messages .assistant
  role := .assistant
  content := text
  turnId := turnId
  isStreaming := keepBusy
  stoppedByUser := !keepBusy

/-- The last message was a thought, which ends as the text begins. -/
def closeThought (messages : List Message) (turnId : Option String) (last : Message) : Message :=
  last.close.inSegment messages turnId

def appendAssistantDelta (messages : List Message) (text : String) (keepBusy : Bool) (turnId : Option String) :
    List Message :=
  match latestForTurn messages turnId with
  | some (index, last) =>
    if last.isReasoningOnlyActivityMessage && last.isStreaming then
      let messages := messages.set index ((closeThought messages turnId last).stopUnless keepBusy)
      messages ++ [newStreamingAssistantMessage messages text keepBusy turnId]
    else if last.role = .assistant && last.isStreaming then
      let next :=
        { last with
          content := last.content ++ text
          turnId := turnId <|> last.turnId
          isStreaming := keepBusy }
      messages.set index (next.stopUnless keepBusy)
    else messages ++ [newStreamingAssistantMessage messages text keepBusy turnId]
  | none => messages ++ [newStreamingAssistantMessage messages text keepBusy turnId]

def endAssistantStream (messages : List Message) (text : Option String) (resuming : Bool) (turnId : Option String) :
    List Message :=
  let open? := (latestForTurn messages turnId).filter fun (_, last) => last.role = .assistant && last.isStreaming
  let closedIndex := open?.map Prod.fst
  let messages := (open?.map fun (index, last) =>
    messages.set index
      { last with
        content := text.getD last.content
        turnId := turnId <|> last.turnId }).getD messages
  if resuming then
    -- the text was a draft: more tools or text follow
    match closedIndex <|> findLatestFoldableAssistantAnswerIndex messages turnId with
    | some index =>
      messages.modify index fun target =>
        let folded := target.close.inSegment messages turnId
        if target.hasText && target.kind ≠ some .trace && target.media = [] then
          { folded with kind := some .narration }
        else folded
    | none => messages
  else
    match closedIndex with
    | some index =>
      messages.modify index fun target =>
        if target.kind = some .narration && target.hasText then
          { target with
            kind := none
            activitySegmentId := none }
        else target
    | none => messages

def appendReasoningDelta (messages : List Message) (text : String) (keepBusy : Bool) (turnId : Option String) :
    List Message :=
  match findLatestStreamingAssistantAnswerIndex messages turnId with
  | some answerIndex =>
    -- the thought before the answer goes on
    let previous := (previousMessageIndexForTurn messages answerIndex turnId).bind fun index =>
      messages[index]?.map (index, ·)
    match previous.filter fun (_, previous) => previous.role = .assistant && previous.kind ≠ some .trace &&
        (nonempty previous.reasoning).isSome with
    | some (index, previous) =>
      messages.set index { previous with reasoning := some (previous.reasoning.getD "" ++ text) }
    | none =>
      messages.insertIdx answerIndex {
        id := nextMessageId messages .assistant
        role := .assistant
        content := ""
        reasoning := some text
        turnId := turnId
        activitySegmentId := some (currentOrTurnActivitySegmentId messages turnId) }
  | none =>
    let messages := closeLatestAssistantAnswerBeforeNewActivity messages turnId
    match (latestForTurn messages turnId).filter fun (_, last) => last.role = .assistant && last.kind ≠ some .trace &&
        last.isStreaming && !last.hasText && last.media = [] with
    | some (index, last) =>
      let next :=
        { last with
          reasoning := some (last.reasoning.getD "" ++ text)
          reasoningStreaming := keepBusy
          turnId := turnId <|> last.turnId
          isStreaming := keepBusy }
      messages.set index ((next.inSegment messages turnId).stopUnless keepBusy)
    | none =>
      messages ++ [{
        id := nextMessageId messages .assistant
        role := .assistant
        content := ""
        reasoning := some text
        reasoningStreaming := keepBusy
        turnId := turnId
        activitySegmentId := some (currentOrTurnActivitySegmentId messages turnId)
        isStreaming := keepBusy
        stoppedByUser := !keepBusy }]

def closeReasoningStream (messages : List Message) (turnId : Option String) : List Message :=
  messages.map fun message =>
    if message.reasoningStreaming && inTurn turnId message then
      { message with
        reasoningStreaming := false
        isStreaming := if message.isReasoningOnlyActivityMessage then false else message.isStreaming }
    else message

/-! ### What comes whole -/

/-- A `message` of the assistant, its text and media normalized. -/
structure AssistantMessage where
  text : String
  media : List String
  hasMedia : Bool
  modelError : Option ModelError
  agentUi : Option AgentUi
  latencyMs : Option ℕ
deriving DecidableEq

def appendAssistantMessage (messages : List Message) (event : AssistantMessage) (turnId : Option String) :
    List Message :=
  let messages :=
    match latestForTurn messages turnId with
    | some (index, last) =>
      if last.isReasoningOnlyActivityMessage && last.isStreaming then
        messages.set index (closeThought messages turnId last)
      else messages
    | none => messages
  let target :=
    if event.agentUi.isSome then none
    else
      match (latestForTurn messages turnId).filter fun (_, last) => last.role = .assistant && last.isStreaming &&
          last.kind ≠ some .trace && last.kind ≠ some .narration with
      | some (index, _) => some index
      | none => findLatestStreamingAssistantAnswerIndex messages turnId
  let isImageError := event.modelError.any fun error =>
    error.category = .imageInputUnsupported || error.category = .imageAnalysisFailed
  let preservePartialImageAnswer := (target.bind (messages[·]?)).any Message.hasText && isImageError
  let append (messages : List Message) : List Message :=
    if trim event.text = "" && event.media = [] && event.modelError.isNone && event.agentUi.isNone then messages
    else
      messages ++ [{
        id := nextMessageId messages .assistant
        role := .assistant
        content := event.text
        turnId := turnId
        media := event.media
        modelError := event.modelError
        agentUi := event.agentUi
        latencyMs := event.latencyMs }]
  match target with
  | some index =>
    if preservePartialImageAnswer then append (messages.modify index Message.close)
    else
      messages.modify index fun target =>
        { target with
          content := if event.modelError.isSome || event.text ≠ "" then event.text else target.content
          media := if event.media ≠ [] then event.media else target.media
          modelError := event.modelError <|> target.modelError
          agentUi := event.agentUi <|> target.agentUi
          latencyMs := event.latencyMs <|> target.latencyMs
          turnId := turnId <|> target.turnId
          isStreaming := true }
  | none => append messages

/-- The reports of a `progress` or `tool_hint` message, with the lines that describe them. -/
structure ToolProgress where
  structuredEvents : List ToolEvent
  structuredLines : List String
  fallbackLine : String
deriving DecidableEq

def ToolProgress.lines (event : ToolProgress) : List String :=
  if event.structuredLines ≠ [] then event.structuredLines
  else if event.fallbackLine ≠ "" then [event.fallbackLine] else []

section ToolProgress

variable (describe : ToolEvent → String)

/-- The trace with the reports; `none` if it is the same. -/
def mergeToolTrace (target : Message) (event : ToolProgress) (segmentId : String) (keepBusy : Bool)
    (turnId : Option String) : Option Message :=
  let (traces, added) :=
    if event.structuredLines ≠ [] then mergeUniqueToolTraceLines target.previousTraces event.structuredLines
    else (target.previousTraces ++ event.lines, true)
  if !added && event.structuredEvents = [] then none
  else
    let toolEvents :=
      if event.structuredEvents ≠ [] then mergeToolProgressEvents describe target.toolEvents event.structuredEvents
      else target.toolEvents
    let next :=
      { target with
        kind := some .trace
        traces := traces
        content := traces.getLast?.getD ""
        toolEvents := toolEvents
        turnId := turnId <|> target.turnId
        activitySegmentId := target.activitySegmentId <|> some segmentId
        isStreaming := keepBusy && (event.structuredEvents = [] || !areToolEventsComplete toolEvents) }
    some (next.stopUnless keepBusy)

/-- Reports that have lines; `none` if they show nothing new. -/
def appendToolProgress (messages : List Message) (event : ToolProgress) (keepBusy : Bool) (turnId : Option String) :
    Option (List Message) :=
  let messages := closeLatestAssistantAnswerBeforeNewActivity messages turnId
  let relatedSegmentId := ((findFileEditTraceIndexForToolEvents messages event.structuredEvents turnId).bind
    (messages[·]?)).bind Message.activitySegmentId
  let currentSegmentId := relatedSegmentId.getD (currentOrTurnActivitySegmentId messages turnId)
  let existing := (findToolTraceIndexForToolEvents messages event.structuredEvents currentSegmentId turnId).bind
    fun index => messages[index]?.map (index, ·)
  let segmentId := (relatedSegmentId <|> existing.bind fun (_, trace) => trace.activitySegmentId).getD currentSegmentId
  let isLast (last : Message) : Bool :=
    last.kind = some .trace && last.fileEdits = [] && last.isOpen &&
      ((nonempty last.activitySegmentId).isNone || last.activitySegmentId = some segmentId) && inTurn turnId last
  match existing with
  | some (index, target) =>
    (mergeToolTrace describe target event segmentId keepBusy turnId).map (messages.set index ·)
  | none =>
    match messages.getLast?.filter isLast with
    | some last =>
      (mergeToolTrace describe last event segmentId keepBusy turnId).map (messages.set (messages.length - 1) ·)
    | none =>
      some (messages ++ [{
        id := nextMessageId messages .tool
        role := .tool
        kind := some .trace
        content := event.lines.getLast?.getD ""
        traces := event.lines
        toolEvents := event.structuredEvents
        turnId := turnId
        activitySegmentId := some segmentId
        isStreaming := keepBusy && (event.structuredEvents = [] || !areToolEventsComplete event.structuredEvents)
        stoppedByUser := !keepBusy }])

end ToolProgress

/-- Edits of files; `none` if none of them is shown and the turn was cancelled. -/
def appendFileEditTrace (messages : List Message) (normalized : List FileEdit) (keepBusy isOver : Bool)
    (turnId : Option String) : Option (List Message) :=
  let messages := closeLatestAssistantAnswerBeforeNewActivity messages turnId
  let relatedToolSegmentId := findToolTraceSegmentIdForFileEdits messages normalized turnId
  let segmentId := relatedToolSegmentId.getD (currentOrTurnActivitySegmentId messages turnId)
  match (findFileEditTraceIndex messages normalized turnId).bind fun index => messages[index]?.map (index, ·) with
  | some (index, target) =>
    let fileEdits := mergeFileEdits target.fileEdits normalized
    let next :=
      { target with
        kind := some .trace
        content := ""
        traces := []
        fileEdits := fileEdits
        turnId := turnId <|> target.turnId
        activitySegmentId := target.activitySegmentId <|> some segmentId
        isStreaming := keepBusy && !areFileEditsComplete fileEdits }
    some (messages.set index (next.stopUnless keepBusy))
  | none =>
    if isOver then none
    else
      some (messages ++ [{
        id := nextMessageId messages .tool
        role := .tool
        kind := some .trace
        content := ""
        fileEdits := normalized
        turnId := turnId
        activitySegmentId := some segmentId
        isStreaming := keepBusy && !areFileEditsComplete normalized
        stoppedByUser := !keepBusy }])

/-- A `context_compaction`, its id, status and text normalized. -/
structure Compaction where
  compactionId : String
  status : CompactionStatus
  content : String
deriving DecidableEq

def upsertContextCompactionDivider (messages : List Message) (event : Compaction) (turnId : Option String) :
    List Message :=
  let next (previous : Message) : Message :=
    { previous with
      role := .tool
      kind := some .contextCompaction
      content := event.content
      turnId := turnId <|> previous.turnId
      compactionId := some event.compactionId
      compactionStatus := some event.status
      isStreaming := event.status = .running
      traces := []
      toolEvents := []
      fileEdits := []
      activitySegmentId := none }
  match findLatest messages turnId fun message =>
      message.kind = some .contextCompaction && message.compactionId = some event.compactionId with
  | some index => messages.modify index next
  | none =>
    messages ++ [next {
      id := nextMessageId messages .tool
      role := .tool
      content := event.content }]

def applyAgentQuestionResponse (messages : List Message) (response : QuestionResponse) : List Message :=
  match messages.findIdx? fun message => message.agentUi.bind AgentUi.questionRequestId = some response.requestId with
  | some index =>
    messages.modify index fun message =>
      { message with
        questionResponse := some response
        questionInterrupted := message.questionInterrupted || response.cancelled }
  | none => messages

/-! ### Messages of the user -/

def hasMessage (messages : List Message) (clientRequestId : String) : Bool :=
  messages.any fun message => message.clientRequestId = some clientRequestId

def appendUserMessage (messages : List Message) (clientRequestId turnId : Option String) (content : String)
    (media : List String) : List Message :=
  messages ++ [{
    id := nextMessageId messages .user
    role := .user
    content := content
    clientRequestId := clientRequestId
    turnId := turnId
    media := media }]

/-- A `user` message: it is shown already, by its request or its turn, or added. -/
def appendExternalUserMessage (messages : List Message) (clientRequestId turnId : Option String) (content : String)
    (media : List String) : List Message :=
  match clientRequestId.bind fun id => messages.findIdx? fun message =>
      message.role = .user && message.clientRequestId = some id with
  | some index =>
    messages.modify index fun message =>
      { message with
        content := if content = "" then message.content else content
        turnId := turnId <|> message.turnId
        media := if media = [] then message.media else media }
  | none =>
    if turnId.isSome && messages.any fun message => message.role = .user && message.turnId = turnId then messages
    else appendUserMessage messages clientRequestId turnId content media

/-- The message was steered into the turn. -/
def markSteerPending (messages : List Message) (clientRequestId turnId : String) : List Message :=
  messages.map fun message =>
    if message.clientRequestId = some clientRequestId then
      { message with
        turnId := some turnId
        queueSteerPending := true }
    else message

/-! ### The end of a turn -/

def Message.finishActivityProgressForTurnEnd (message : Message) : Message :=
  { message with
    toolEvents := finishToolEventsForTurnEnd message.toolEvents
    fileEdits := finishFileEditsForTurnEnd message.fileEdits }

/-- The latency is that of the last answer. -/
def finishStreamingMessages (messages : List Message) (latencyMs : Option ℕ) : List Message :=
  let lastAssistantIndex := lastIndex? (fun message => message.role = .assistant && message.kind ≠ some .trace &&
    message.kind ≠ some .narration && !message.proactive) messages
  messages.mapIdx fun index message =>
    let finished := message.finishActivityProgressForTurnEnd.close
    if some index = lastAssistantIndex then { finished with latencyMs := latencyMs <|> finished.latencyMs }
    else finished

end Memmy.AgentChat
