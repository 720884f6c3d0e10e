import Memmy.Conversation.Transcript

/-! # The history of a model request

`getHistory` replays a session to the model: the part behind `lastConsolidated`, at most
`maxMessages` of it, from a user message on, without commands, with the contents as the model reads
them, and within a number of tokens. -/

namespace Memmy.Conversation.Replay

open Lib.JsonValue Lib.Text Conversation.Transcript

/-! ### Messages with all their fields -/

structure Block where
  type : String
  text : Option String := none
  imageUrl : Option String := none
  path : Option String := none
  deriving DecidableEq, Repr

inductive Body where
  | absent
  | null
  | text (s : String)
  | blocks (bs : List Block)
  deriving DecidableEq, Repr

structure McpPreset where
  name : String
  transport : String
  deriving DecidableEq, Repr

structure ModelError where
  category : String
  detail : Option String
  deriving DecidableEq, Repr

structure Entry where
  role : String
  content : Body := .absent
  toolCalls : Option (List ToolCall) := none
  toolCallId : Option String := none
  name : Option String := none
  reasoningContent : Option String := none
  thinkingBlocks : Option (List Json) := none
  extraContent : Option Json := none
  channelDelivery : Bool := false
  commandMessage : Bool := false
  internalContext : Option String := none
  media : List String := []
  mcpPresets : List McpPreset := []
  timestamp : Option String := none
  modelPreset : Option String := none
  modelProvider : Option String := none
  modelName : Option String := none
  modelSelection : Option Json := none
  latencyMs : Option ℕ := none
  modelError : Option ModelError := none
  webuiQueueSteerOrigin : Bool := false
  extra : JsonObject := []

/-- What the search for a legal start reads. -/
def view (m : Entry) : Message where
  role := m.role
  toolCalls := m.toolCalls.getD []
  toolCallId := m.toolCallId
  name := m.name
  channelDelivery := m.channelDelivery

/-! ### Contents -/

structure ReplayTexts where
  /-- An assistant text without thinking blocks, time stamps and tool echoes. -/
  sanitizeAssistantReplayText : String → String
  /-- A quarter of the length of the message as JSON, rounded up. -/
  estimateMessageTokens : Entry → ℕ

def imagePlaceholderText (filePath : String) : String :=
  if filePath = "" then "[image]" else "[image: " ++ filePath ++ "]"

def presetText (preset : McpPreset) : Option String :=
  let name := (trim preset.name).toLower
  if name = "" then none
  else
    let transport := if trim preset.transport = "" then "mcp" else trim preset.transport
    some ("[MCP Preset Attachment: @" ++ name ++ "; tool_prefix=mcp_" ++ name ++ "_; transport=" ++
      transport ++ "]")

def hasAssistantReplayState (m : Entry) : Bool :=
  m.toolCalls.isSome || m.reasoningContent.isSome || m.thinkingBlocks.isSome

/-- The text of a user message with its attachments. -/
def userText (m : Entry) (content : String) (includeTimestamps : Bool) : String :=
  let parts := [content].filter (· ≠ "") ++ (m.media.filter (· ≠ "")).map imagePlaceholderText ++
    m.mcpPresets.filterMap presetText
  let text := "\n".intercalate parts
  match m.timestamp with
  | some time =>
    if includeTimestamps ∧ time ≠ "" then "[Message Time: " ++ time ++ "]\n" ++ text else text
  | none => text

/-- `content` as it is replayed. -/
def replayContent (t : ReplayTexts) (m : Entry) (includeTimestamps : Bool) : Body :=
  match m.content with
  | .absent | .text _ =>
    let content := match m.content with
      | .text s => s
      | _ => ""
    if m.role = "assistant" then .text (t.sanitizeAssistantReplayText content)
    else if m.role = "user" then .text (userText m content includeTimestamps)
    else .text content
  | .null => .null
  | .blocks bs => .blocks bs

def isBlankText : Body → Bool
  | .text s => trim s = ""
  | _ => false

/-- An assistant message that says nothing is left out. -/
def synthesizeContent (t : ReplayTexts) (includeTimestamps : Bool) (m : Entry) : Option Entry :=
  let content := replayContent t m includeTimestamps
  if m.role = "assistant" ∧ isBlankText content = true ∧ hasAssistantReplayState m = false then none
  else some
    { role := m.role
      content := content
      toolCalls := m.toolCalls
      toolCallId := m.toolCallId
      name := m.name
      reasoningContent := m.reasoningContent
      thinkingBlocks := m.thinkingBlocks
      extraContent := m.extraContent }

/-- What another provider has thought is not replayed. -/
def sanitizeCrossProviderReplay (targetProvider : Option String) (m : Entry) : Entry :=
  match targetProvider with
  | none => m
  | some provider =>
    if m.role ≠ "assistant" ∨ provider = "" ∨ m.modelProvider = some provider then m
    else
      { m with
        reasoningContent := none
        thinkingBlocks := none
        extraContent := none }

/-! ### The window -/

structure HistoryOptions where
  maxMessages : ℕ := 120
  maxTokens : Option ℕ := none
  includeTimestamps : Bool := false
  targetProvider : Option String := none

def isUserEntry (m : Entry) : Bool := m.role = "user"

def alignWindowToUserTurn (messages : List Entry) : List Entry :=
  match messages.findIdx? isUserEntry with
  | some (i + 1) =>
    if (messages[i]?.map (·.channelDelivery)).getD false then messages.drop i
    else messages.drop (i + 1)
  | _ => messages

def fromLegalStart (messages : List Entry) : List Entry := messages.drop (findLegalMessageStart view messages)

/-- The loop over the token limit, newest message first. -/
def selectFrom (cost : Entry → ℕ) (maxTokens : ℕ) : List Entry → List Entry → ℕ → List Entry
  | [], selected, _ => selected
  | m :: older, selected, total =>
    if selected ≠ [] ∧ maxTokens < total + cost m then selected
    else selectFrom cost maxTokens older (m :: selected) (total + cost m)

def withinTokens (t : ReplayTexts) (maxTokens : ℕ) (out : List Entry) : List Entry :=
  let selected := selectFrom t.estimateMessageTokens maxTokens out.reverse [] 0
  fromLegalStart <|
    match selected.findIdx? isUserEntry with
    | some i => selected.drop i
    | none =>
      match lastUserIndex view out with
      | some i => out.drop i
      | none => selected

/-- The part of the session that is replayed, before its contents are made. -/
def replayWindow (o : HistoryOptions) (s : Session Entry ℕ) : List Entry :=
  let visible := s.messages.drop s.lastConsolidated
  let limit := if 0 < o.maxMessages then o.maxMessages else 120
  (fromLegalStart (alignWindowToUserTurn (visible.drop (visible.length - limit)))).filter
    fun m => !m.commandMessage

def replayMessage (t : ReplayTexts) (o : HistoryOptions) (m : Entry) : Option Entry :=
  synthesizeContent t o.includeTimestamps (sanitizeCrossProviderReplay o.targetProvider m)

def getHistory (t : ReplayTexts) (o : HistoryOptions) (s : Session Entry ℕ) : List Entry :=
  let out := (replayWindow o s).filterMap (replayMessage t o)
  fromLegalStart <|
    match o.maxTokens with
    | some maxTokens => if 0 < maxTokens ∧ out ≠ [] then withinTokens t maxTokens out else out
    | none => out

end Memmy.Conversation.Replay
