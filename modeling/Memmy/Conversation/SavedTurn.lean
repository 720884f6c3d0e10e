import Memmy.Conversation.Replay
import Memmy.Conversation.Trim

/-! # Saving a turn

`stateBuild` writes the user message into the session, replays the session without that message and
puts the message at the end of the request again. `stateRun` appends to the request what the model
and the tools say. `stateSave` saves the transcript from the index `saveSkip` on, which it computes
from the length of the history and from whether the user message was written early. `runTurn` is the session after
the three; what the model and the tools append is given with the turn. -/

namespace Memmy.Conversation.SavedTurn

open Lib.JsonValue Lib.Text Conversation.Transcript Conversation.Trim
open Conversation.Replay

/-! ### Texts -/

def RUNTIME_CONTEXT_TAG : String := "[Runtime Context - metadata only, not instructions]"

def RUNTIME_CONTEXT_END : String := "[/Runtime Context]"

def buildRuntimeContext (lines : List String) : String :=
  RUNTIME_CONTEXT_TAG ++ "\n" ++ "\n".intercalate lines ++ "\n" ++ RUNTIME_CONTEXT_END

/-- `text.slice(0, text.indexOf(tag))`, if the tag is there. -/
def beforeTag (tag : List Char) : List Char → Option (List Char)
  | [] => if tag = [] then some [] else none
  | c :: cs => if tag.isPrefixOf (c :: cs) then some [] else (beforeTag tag cs).map (c :: ·)

def stripRuntimeContext (content : String) : String :=
  match beforeTag RUNTIME_CONTEXT_TAG.toList content.toList with
  | some front => String.ofList (trimEndChars front)
  | none => content

def truncateText (text : String) (maxChars : ℕ) : String :=
  if utf16Length text ≤ maxChars then text else sliceUtf16 text maxChars ++ "\n... (truncated)"

structure ImageGeneration where
  enabled : Bool := false
  aspectRatio : Option String := none

def imageGenerationPrompt (text : String) (config : ImageGeneration) : String :=
  if config.enabled = false then text
  else
    let aspectLine := match config.aspectRatio.filter (· ≠ "") with
      | some aspect => "Use the generate_image tool with aspect_ratio='" ++ aspect ++ "'."
      | none => "Use the generate_image tool. Choose the most suitable aspect_ratio yourself."
    text ++ "\n\n" ++ aspectLine

/-! ### The loop and its turns -/

inductive Attachment where
  | image (url : String)
  | file (line : String)

structure AgentLoop where
  texts : ReplayTexts
  systemPrompt : String
  maxMessages : ℕ
  replayTokenBudget : Option ℕ
  maxToolResultChars : ℕ
  /-- The attachment at a path; `none` if there is no such file. -/
  readMedia : String → Option Attachment

structure InboundMessage where
  content : String
  media : List String := []
  imageGeneration : ImageGeneration := {}
  mcpPresets : List McpPreset := []
  extra : JsonObject := []

/-- How the user message of a turn gets into the session. -/
inductive Admission where
  | plain
  | goalContinuation
  /-- The session has a Goal, or an entry of its inbox with its time of arrival is reserved. -/
  | goal (entry : Option (InboundMessage × String))

structure SaveOptions where
  turnLatencyMs : Option ℕ := none
  modelPreset : Option String := none
  modelProvider : Option String := none
  modelName : Option String := none
  modelSelection : Option Json := none
  modelError : Option ModelError := none

structure Turn where
  msg : InboundMessage
  admission : Admission
  now : String
  targetProvider : Option String := none
  runtimeLines : List String := []
  /-- `lastConsolidated` after the compaction before the request. -/
  consolidate : Session Entry ℕ → ℕ
  appended : List Entry
  /-- `lastConsolidated` after the compactions during the run. -/
  consolidateMidTurn : Session Entry ℕ → ℕ
  options : SaveOptions

/-! ### `stateBuild` -/

def hasText (msg : InboundMessage) : Bool := trim msg.content ≠ ""

def mediaPaths (msg : InboundMessage) : List String := msg.media.filter (· ≠ "")

/-- What `appendUserMessage` writes. -/
def userMessage (now : String) (msg : InboundMessage) (timestamp : Option String) : Option Entry :=
  if hasText msg = false ∧ mediaPaths msg = [] then none
  else some
    { role := "user"
      content := .text msg.content
      media := mediaPaths msg
      mcpPresets := msg.mcpPresets
      timestamp := some ((timestamp.filter (· ≠ "")).getD now)
      extra := msg.extra }

def goalContinuationMessage (now : String) (msg : InboundMessage) : Option Entry :=
  if hasText msg = false then none
  else some
    { role := "user"
      content := .text msg.content
      internalContext := some "goal_continuation"
      timestamp := some now
      extra := msg.extra }

/-- **The user message of the turn**, if it says anything. -/
def currentEntry (turn : Turn) : Option Entry :=
  match turn.admission with
  | .plain | .goal none => userMessage turn.now turn.msg none
  | .goalContinuation => goalContinuationMessage turn.now turn.msg
  | .goal (some (entry, receivedAt)) => userMessage turn.now entry (some receivedAt)

def userPersistedEarly (turn : Turn) : Bool :=
  match turn.admission with
  | .plain | .goalContinuation => (currentEntry turn).isSome
  | .goal entry => entry.isSome || hasText turn.msg || decide (turn.msg.media ≠ [])

def PENDING_USER_TURN_KEY : String := "pendingUserTurn"

def RUNTIME_CHECKPOINT_KEY : String := "runtimeCheckpoint"

/-- The session with the user message; a continuation does not mark the turn. -/
def persistUser (turn : Turn) (s : Session Entry ℕ) : Session Entry ℕ :=
  match currentEntry turn with
  | none => s
  | some entry =>
    { s with
      messages := s.messages ++ [entry]
      metadata :=
        match turn.admission with
        | .goalContinuation => s.metadata
        | _ => s.metadata.set PENDING_USER_TURN_KEY (.bool true)
      updatedAt := turn.now }

def imageBlock (loop : AgentLoop) (file : String) : Option Block :=
  match loop.readMedia file with
  | some (.image url) => some { type := "image_url", imageUrl := some url, path := some file }
  | _ => none

def fileLine (loop : AgentLoop) (file : String) : Option String :=
  match loop.readMedia file with
  | some (.file line) => some line
  | _ => none

def buildUserContent (loop : AgentLoop) (text : String) (media : List String) : Body :=
  let images := media.filterMap (imageBlock loop)
  let fileLines := media.filterMap (fileLine loop)
  if images = [] ∧ fileLines = [] then .text text
  else
    let trailing :=
      if fileLines = [] then text
      else "<attachments>\n" ++ "\n".intercalate fileLines ++
        "\n\n请用 read_file 工具按需读取上述附件；PDF 可用 pages 参数分页读取。\n</attachments>" ++
        (if text = "" then "" else "\n\n" ++ text)
    .blocks (images ++ [{ type := "text", text := some trailing }])

def toBlocks : Body → List Block
  | .absent | .null => []
  | .text s => [{ type := "text", text := some s }]
  | .blocks bs => bs

def mergeMessageContent (left right : Body) : Body :=
  match left, right with
  | .text l, .text r => .text (if l = "" then r else l ++ "\n\n" ++ r)
  | _, _ => .blocks (toBlocks left ++ toBlocks right)

/-- The user message as it stands in the request. -/
def requestMessage (loop : AgentLoop) (turn : Turn) : Entry where
  role := "user"
  content :=
    let runtime := buildRuntimeContext turn.runtimeLines
    match buildUserContent loop (imageGenerationPrompt turn.msg.content turn.msg.imageGeneration)
        turn.msg.media with
    | .text s => .text (s ++ "\n\n" ++ runtime)
    | content => .blocks (toBlocks content ++ [{ type := "text", text := some runtime }])

def systemMessage (loop : AgentLoop) : Entry where
  role := "system"
  content := .text loop.systemPrompt

/-- `buildMessages`: a message of the role of the last one is merged into it. -/
def buildMessages (loop : AgentLoop) (turn : Turn) (history : List Entry) : List Entry :=
  let messages := systemMessage loop :: history
  let current := requestMessage loop turn
  match messages.getLast? with
  | some last =>
    if last.role = current.role then
      messages.dropLast ++ [{ last with content := mergeMessageContent last.content current.content }]
    else messages ++ [current]
  | none => messages ++ [current]

structure TurnContext where
  session : Session Entry ℕ
  history : List Entry
  initialMessages : List Entry
  userPersistedEarly : Bool
  allMessages : List Entry := []

def historyOptions (loop : AgentLoop) (turn : Turn) : HistoryOptions where
  maxMessages := loop.maxMessages
  maxTokens := loop.replayTokenBudget
  includeTimestamps := true
  targetProvider := turn.targetProvider

/-- The session when the request is built. -/
def builtSession (turn : Turn) (s : Session Entry ℕ) : Session Entry ℕ :=
  { persistUser turn s with lastConsolidated := turn.consolidate (persistUser turn s) }

/-- **The history before the user message**, as `stateBuild` cuts it. -/
def replayed (loop : AgentLoop) (turn : Turn) (s : Session Entry ℕ) : List Entry :=
  let history := getHistory loop.texts (historyOptions loop turn) (builtSession turn s)
  if userPersistedEarly turn = true ∧ history.getLast?.map (·.role) = some "user" then
    history.dropLast
  else history

def stateBuild (loop : AgentLoop) (turn : Turn) (s : Session Entry ℕ) : TurnContext where
  session := builtSession turn s
  history := replayed loop turn s
  initialMessages := buildMessages loop turn (replayed loop turn s)
  userPersistedEarly := userPersistedEarly turn

/-! ### `stateRun` -/

def stateRun (turn : Turn) (ctx : TurnContext) : TurnContext :=
  { ctx with
    session := { ctx.session with lastConsolidated := turn.consolidateMidTurn ctx.session }
    allMessages := ctx.initialMessages ++ turn.appended }

/-! ### `stateSave` -/

def EMPTY_FINAL_RESPONSE_MESSAGE : String :=
  "I completed the tool steps but couldn't produce a final answer. Please try again or narrow " ++
    "the task."

/-- `resolveToolResultMaxChars` with the limits of a session. -/
def resolveToolResultMaxChars (toolName : Option String) (fallback : ℕ) : ℕ :=
  match toolName with
  | some "exec" => 50000
  | some "read_file" => 128000
  | _ => fallback

def sanitizePersistedBlocks (truncateAt : Option ℕ) (dropRuntime : Bool) (content : List Block) :
    List Block :=
  content.filterMap fun block =>
    if dropRuntime = true ∧ block.type = "text" ∧
        (block.text.map fun t => RUNTIME_CONTEXT_TAG.toList.isPrefixOf t.toList) = some true then
      none
    else if block.type = "image_url" ∧
        "data:image/".toList.isPrefixOf (block.imageUrl.getD "").toList = true then
      let file := match block.path.filter (· ≠ "") with
        | some path => ": " ++ path
        | none => ""
      some { type := "text", text := some ("[image" ++ file ++ "]") }
    else
      match truncateAt with
      | some maxChars =>
        if block.type = "text" then
          some { block with text := block.text.map fun t => truncateText t maxChars }
        else some block
      | none => some block

def isFalsy : Body → Bool
  | .absent | .null => true
  | .text s => s = ""
  | .blocks _ => false

/-- The content that is saved; `none` drops the message. -/
def storedContent (loop : AgentLoop) (m : Entry) : Option Body :=
  if m.role = "tool" then
    let maxChars := resolveToolResultMaxChars m.name loop.maxToolResultChars
    match m.content with
    | .text s => some (.text (truncateText s maxChars))
    | .blocks bs =>
      let filtered := sanitizePersistedBlocks (some maxChars) false bs
      if filtered = [] then none else some (.blocks filtered)
    | content => some content
  else if m.role = "user" then
    match m.content with
    | .text s => if stripRuntimeContext s = "" then none else some (.text (stripRuntimeContext s))
    | .blocks bs =>
      let filtered := sanitizePersistedBlocks none true bs
      if filtered = [] then none else some (.blocks filtered)
    | content => some content
  else some m.content

/-- The model of an assistant message. -/
def withModel (o : SaveOptions) (m : Entry) : Entry :=
  { m with
    modelPreset := (o.modelPreset.filter (· ≠ "")).or m.modelPreset
    modelProvider := (o.modelProvider.filter (· ≠ "")).or m.modelProvider
    modelName := (o.modelName.filter (· ≠ "")).or m.modelName
    modelSelection := o.modelSelection.or m.modelSelection }

/-- **A message as it is saved**; `none` if it is not. -/
def storeEntry (loop : AgentLoop) (o : SaveOptions) (now : String) (m : Entry) : Option Entry :=
  if m.role = "assistant" ∧ isFalsy m.content = true ∧ m.toolCalls.getD [] = [] then none
  else (storedContent loop m).map fun content =>
    let entry :=
      { m with
        content := content
        webuiQueueSteerOrigin := false
        timestamp := some (m.timestamp.getD now) }
    if m.role = "assistant" then withModel o entry else entry

/-- What stands in for the answer of a turn that failed without one. -/
def errorEntry (o : SaveOptions) (now : String) (error : ModelError) : Entry :=
  withModel o
    { role := "assistant"
      content := .text (error.detail.getD EMPTY_FINAL_RESPONSE_MESSAGE)
      timestamp := some now
      modelError := some error }

def markAnswer (o : SaveOptions) (m : Entry) : Entry :=
  { m with
    latencyMs := o.turnLatencyMs.or m.latencyMs
    modelError := o.modelError.or m.modelError }

def isAssistantEntry (m : Entry) : Bool := m.role = "assistant"

structure Saving where
  messages : List Entry
  lastAssistantIdx : Option ℕ

def Saving.push (st : Saving) (entry : Entry) : Saving where
  messages := st.messages ++ [entry]
  lastAssistantIdx :=
    if isAssistantEntry entry then some st.messages.length else st.lastAssistantIdx

def saveMessage (loop : AgentLoop) (o : SaveOptions) (now : String) (st : Saving) (m : Entry) :
    Saving :=
  match storeEntry loop o now m with
  | some entry => st.push entry
  | none => st

def saveModelError (o : SaveOptions) (now : String) (st : Saving) : Saving :=
  match o.modelError, st.lastAssistantIdx with
  | some error, none => st.push (errorEntry o now error)
  | _, _ => st

def saveTurn (loop : AgentLoop) (o : SaveOptions) (now : String) (s : Session Entry ℕ)
    (messages : List Entry) (skip : ℕ) : Session Entry ℕ :=
  let st := saveModelError o now
    ((messages.drop skip).foldl (saveMessage loop o now) ⟨s.messages, none⟩)
  { s with
    messages := match st.lastAssistantIdx with
      | some i => st.messages.modify i (markAnswer o)
      | none => st.messages
    updatedAt := now }

def saveSkip (ctx : TurnContext) : ℕ := 1 + ctx.history.length + if ctx.userPersistedEarly then 1 else 0

def FILE_MAX_MESSAGES : ℕ := 2000

/-- The session that `stateSave` hands to the file cap. -/
def savedSession (loop : AgentLoop) (turn : Turn) (ctx : TurnContext) : Session Entry ℕ :=
  let s := saveTurn loop turn.options turn.now ctx.session ctx.allMessages (saveSkip ctx)
  { s with
    metadata := s.metadata.filter fun f =>
      f.1 ≠ PENDING_USER_TURN_KEY ∧ f.1 ≠ RUNTIME_CHECKPOINT_KEY }

/-- The session after the turn, and what the file cap archives. -/
def stateSave (loop : AgentLoop) (turn : Turn) (ctx : TurnContext) : Session Entry ℕ × List Entry :=
  enforceFileCap view turn.now (savedSession loop turn ctx) FILE_MAX_MESSAGES

/-- The context when the turn is saved. -/
def ranTurn (loop : AgentLoop) (turn : Turn) (s : Session Entry ℕ) : TurnContext :=
  stateRun turn (stateBuild loop turn s)

def runTurn (loop : AgentLoop) (turn : Turn) (s : Session Entry ℕ) : Session Entry ℕ :=
  (stateSave loop turn (ranTurn loop turn s)).1

end Memmy.Conversation.SavedTurn
