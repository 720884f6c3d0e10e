import Memmy.Streams.Response

/-! # The Anthropic provider

`parseResponse` reads a whole message, `consumeAnthropicStream` the events of a streamed one. The stream
writes each content block at its index and ends with `parseResponse` of what it has collected; it does not
collect the signatures of thinking blocks, and of the two usages it keeps that of the last event.

* `streamed_content`: the blocks of a legal stream are those of the message, without the signatures.
* `returns_iff`: a legal stream returns the message exactly when it has no signature and its last event
  reports the whole usage. -/

namespace Memmy.Streams.Anthropic

open Lib.Channels Lib.JsonValue Streams.Response

/-! ### The whole message -/

structure RawUsage where
  inputTokens : Option ℕ
  cacheCreationInputTokens : Option ℕ
  cacheReadInputTokens : Option ℕ
  outputTokens : Option ℕ

/-- A content block; a field that is not there is `none`. -/
structure RawBlock where
  type : String
  text : Option String := none
  id : Option String := none
  name : Option String := none
  thinking : Option String := none
  signature : Option String := none
  input : Option Json := none

structure RawMessage where
  content : List RawBlock
  stopReason : Option String
  usage : Option RawUsage

def textOf (block : RawBlock) : Option String :=
  if block.type = "text" then some (block.text.getD "") else none

def toolCallOf (p : ToolJson) (block : RawBlock) : Option ToolCallRequest :=
  if block.type = "tool_use" then
    some ⟨block.id.getD "", block.name.getD "", parseToolArguments p block.input⟩
  else none

def thinkingOf (block : RawBlock) : Option ThinkingBlock :=
  if block.type = "thinking" then
    some (.thinking (block.thinking.getD "") (block.signature.getD ""))
  else none

def reasoningOf (block : RawBlock) : Option String :=
  if block.type = "thinking" then some (block.thinking.getD "") else none

/-- `stopMap[stop_reason ?? ""] ?? stop_reason ?? "stop"` -/
def finishReason : Option String → String
  | some "tool_use" => "tool_calls"
  | some "end_turn" => "stop"
  | some "max_tokens" => "length"
  | some reason => reason
  | none => "stop"

def usageOf : Option RawUsage → JsonObject
  | none => []
  | some usage =>
    let cacheCreation := usage.cacheCreationInputTokens.getD 0
    let cacheRead := usage.cacheReadInputTokens.getD 0
    let output := usage.outputTokens.getD 0
    let prompt := usage.inputTokens.getD 0 + cacheCreation + cacheRead
    [("prompt_tokens", tokens prompt), ("completion_tokens", tokens output),
      ("total_tokens", tokens (prompt + output))] ++
      (if cacheCreation ≠ 0 then [("cache_creation_input_tokens", tokens cacheCreation)] else []) ++
      (if cacheRead ≠ 0 then
        [("cache_read_input_tokens", tokens cacheRead), ("cached_tokens", tokens cacheRead)]
      else [])

def parseResponse (p : ToolJson) (message : RawMessage) : LLMResponse where
  content := textOrNull (String.join (message.content.filterMap textOf))
  toolCalls := message.content.filterMap (toolCallOf p)
  finishReason := finishReason message.stopReason
  usage := usageOf message.usage
  thinkingBlocks := blocksOrNull (message.content.filterMap thinkingOf)
  reasoningContent := textOrNull (String.join (message.content.filterMap reasoningOf))

/-! ### The stream -/

inductive BlockDelta where
  | text (text : String)
  | thinking (thinking : String)
  | inputJson (partialJson : String)
  | signature (signature : String)
  | other

inductive BlockEvent where
  | start (block : RawBlock)
  | delta (delta : BlockDelta)
  | stop

inductive Event where
  | messageStart (usage : Option RawUsage)
  | block (index : ℕ) (event : BlockEvent)
  | messageDelta (stopReason : Option String) (usage : Option RawUsage)
  | messageStop
  | ping

/-- The arguments of a tool call as they arrive. -/
structure ToolState where
  callId : String
  name : String
  args : String

/-- The last two events of the message, the blocks by index, the tool calls by index, and the deltas of the
content that were delivered. -/
structure State where
  finalMessage : Option (String × Option RawUsage)
  content : List (Option RawBlock)
  toolBlocks : List (Option ToolState)
  deltas : List String

/-- Before the first event. -/
def State.empty : State := ⟨none, [], [], []⟩

/-- What one index holds: `content[index]` and `toolBlocks.get(index)`. -/
abbrev Slot : Type := Option RawBlock × Option ToolState

/-- An event of a block changes the block and the tool call of its index. -/
def handleBlock (slot : Slot) : BlockEvent → Slot
  | .start block =>
    (some block, if block.type = "tool_use" then
      some ⟨block.id.getD "", block.name.getD "", ""⟩ else slot.2)
  | .delta (.text text) =>
    let block := slot.1.getD { type := "text" }
    (some { block with type := "text", text := some ((slot.1.bind (·.text)).getD "" ++ text) }, slot.2)
  | .delta (.thinking thinking) =>
    let block := slot.1.getD { type := "thinking" }
    (some { block with
      type := "thinking"
      thinking := some ((slot.1.bind (·.thinking)).getD "" ++ thinking) }, slot.2)
  | .delta (.inputJson partialJson) =>
    let state := slot.2.getD ⟨"", "", ""⟩
    (slot.1, some { state with args := state.args ++ partialJson })
  | .delta (.signature _) => slot
  | .delta .other => slot
  | .stop => slot

/-- The slot is written where it holds something. -/
def write {β : Type} (index : ℕ) (value : Option β) (l : List (Option β)) : List (Option β) :=
  match value with
  | some b => put b index l
  | none => l

/-- The content delta that an event delivers. -/
def contentDelta : BlockEvent → List String
  | .delta (.text text) => [text]
  | _ => []

def handleEvent (s : State) : Event → State
  | .block index event =>
    let slot := handleBlock (get s.content index, get s.toolBlocks index) event
    { s with
      content := write index slot.1 s.content
      toolBlocks := write index slot.2 s.toolBlocks
      deltas := s.deltas ++ contentDelta event }
  | .messageDelta (some stopReason) usage =>
    if stopReason = "" then s else { s with finalMessage := some (stopReason, usage) }
  | _ => s

/-- A tool call gets its arguments. -/
def closeTool (p : ToolJson) (slot : Slot) : Option RawBlock :=
  match slot.2 with
  | none => slot.1
  | some state =>
    let block := slot.1.getD { type := "tool_use" }
    some { block with
      type := "tool_use"
      id := some (block.id.getD state.callId)
      name := some (block.name.getD state.name)
      input := some (.obj (parseToolArguments p (some (.str state.args)))) }

def consumeAnthropicStream (p : ToolJson) (events : List Event) : Streamed :=
  let s := events.foldl handleEvent .empty
  let content := (List.range (max s.content.length s.toolBlocks.length)).map fun index =>
    closeTool p (get s.content index, get s.toolBlocks index)
  ⟨parseResponse p ⟨values content, s.finalMessage.map (·.1), s.finalMessage.bind (·.2)⟩, s.deltas⟩

/-! ### Legal streams -/

/-- What a delta adds to the text, the thinking, the signature or the arguments of its block. -/
def BlockDelta.part (kind : BlockDelta → Option String) (deltas : List BlockDelta) : String :=
  String.join (deltas.filterMap kind)

def BlockDelta.text? : BlockDelta → Option String
  | text t => some t
  | _ => none

def BlockDelta.thinking? : BlockDelta → Option String
  | thinking t => some t
  | _ => none

def BlockDelta.signature? : BlockDelta → Option String
  | signature t => some t
  | _ => none

def BlockDelta.inputJson? : BlockDelta → Option String
  | inputJson t => some t
  | _ => none

/-- The deltas of a text block are texts, and others that carry none of the four parts. -/
def OnlyParts (kinds : List (BlockDelta → Option String)) (deltas : List BlockDelta) : Prop :=
  ∀ d ∈ deltas, d = .other ∨ ∃ kind ∈ kinds, (kind d).isSome = true

/-- The deltas of a block `block` of the message, after its empty `start`. -/
inductive BlockStream (p : ToolJson) : RawBlock → RawBlock → List BlockDelta → Prop where
  | text (deltas : List BlockDelta) (h : OnlyParts [BlockDelta.text?] deltas) :
    BlockStream p { type := "text", text := some (BlockDelta.part BlockDelta.text? deltas) }
      { type := "text", text := some "" } deltas
  | thinking (deltas : List BlockDelta)
    (h : OnlyParts [BlockDelta.thinking?, BlockDelta.signature?] deltas) :
    BlockStream p
      { type := "thinking"
        thinking := some (BlockDelta.part BlockDelta.thinking? deltas)
        signature := some (BlockDelta.part BlockDelta.signature? deltas) }
      { type := "thinking", thinking := some "", signature := some "" } deltas
  | toolUse (id name : String) (deltas : List BlockDelta) (h : OnlyParts [BlockDelta.inputJson?] deltas) :
    BlockStream p
      { type := "tool_use"
        id := some id
        name := some name
        input := some (.obj
          (parseToolArguments p (some (.str (BlockDelta.part BlockDelta.inputJson? deltas))))) }
      { type := "tool_use", id := some id, name := some name, input := some (.obj []) } deltas
  | other (block : RawBlock) (htype : block.type ∉ ["text", "thinking", "tool_use"])
    (deltas : List BlockDelta) (h : OnlyParts [] deltas) : BlockStream p block block deltas

/-- The events at the index of a block of the message, or at no block of it. -/
def SlotStream (p : ToolJson) (block : Option RawBlock) (events : List BlockEvent) : Prop :=
  match block with
  | none => events = []
  | some block => ∃ start deltas, BlockStream p block start deltas ∧
    events = .start start :: deltas.map .delta ++ [.stop]

def Event.block? : Event → Option (ℕ × BlockEvent)
  | block index event => some (index, event)
  | _ => none

/-- The events of the blocks, each with its index. -/
def blockEvents (events : List Event) : List (ℕ × BlockEvent) := events.filterMap Event.block?

/-- The content deltas, each with the index of its block. -/
def textEvents (events : List (ℕ × BlockEvent)) : List (ℕ × String) := deltaEvents contentDelta events

/-- The usage of the message: what the last event reports, and the rest from the first one. -/
def mergeUsage : Option RawUsage → Option RawUsage → Option RawUsage
  | some first, some last => some ⟨last.inputTokens.or first.inputTokens,
      last.cacheCreationInputTokens.or first.cacheCreationInputTokens,
      last.cacheReadInputTokens.or first.cacheReadInputTokens, last.outputTokens.or first.outputTokens⟩
  | first, last => last.or first

/-- **A legal stream of a message:** the events of each block in their order, those of different blocks in
any interleaving, the texts in the order of their blocks, the usage in the first or the last event. -/
structure Legal (p : ToolJson) (message : RawMessage) (lastUsage : Option RawUsage)
    (events : List Event) : Prop where
  shape : ∃ firstUsage body, events = .messageStart firstUsage :: body ++
      [.messageDelta message.stopReason lastUsage, .messageStop] ∧
    (∀ e ∈ body, e = .ping ∨ (Event.block? e).isSome = true) ∧
    message.usage = mergeUsage firstUsage lastUsage
  slots : ∀ index, SlotStream p message.content[index]? (channel index (blockEvents events))
  texts : (textEvents (blockEvents events)).Pairwise (·.1 ≤ ·.1)
  stopReason : message.stopReason ≠ some ""

/-! ### What the stream collects -/

theorem handleBlock_none {slot : Slot} {event : BlockEvent} :
    ((handleBlock slot event).1 = none → slot.1 = none) ∧
      ((handleBlock slot event).2 = none → slot.2 = none) := by
  cases event with
  | start block =>
    refine ⟨nofun, fun h => ?_⟩
    by_cases htype : block.type = "tool_use"
    · rw [handleBlock, if_pos htype] at h
      cases h
    · rwa [handleBlock, if_neg htype] at h
  | delta d => cases d <;> simp [handleBlock]
  | stop => exact ⟨id, id⟩

theorem get_write {β : Type} {index : ℕ} {value : Option β} {l : List (Option β)}
    (h : value = none → get l index = none) (i : ℕ) :
    get (write index value l) i = if i = index then value else get l i := by
  cases value with
  | some b => exact get_put b index i l
  | none =>
    by_cases hi : i = index
    · rw [if_pos hi, hi]
      exact h rfl
    · rw [if_neg hi]
      rfl

def slotAt (s : State) (index : ℕ) : Slot := (get s.content index, get s.toolBlocks index)

theorem slotAt_block (s : State) (index : ℕ) (event : BlockEvent) (i : ℕ) :
    slotAt (handleEvent s (.block index event)) i =
      if i = index then handleBlock (slotAt s index) event else slotAt s i := by
  have hnone := @handleBlock_none (slotAt s index) event
  change (get (write index (handleBlock (slotAt s index) event).1 s.content) i,
    get (write index (handleBlock (slotAt s index) event).2 s.toolBlocks) i) = _
  rw [get_write hnone.1, get_write hnone.2]
  by_cases hi : i = index
  · rw [if_pos hi, if_pos hi, if_pos hi]
  · rw [if_neg hi, if_neg hi, if_neg hi]
    rfl

theorem handleEvent_messageDelta (s : State) (stopReason : Option String) (usage : Option RawUsage) :
    ∃ final, handleEvent s (.messageDelta stopReason usage) = { s with finalMessage := final } := by
  cases stopReason with
  | none => exact ⟨_, rfl⟩
  | some reason =>
    unfold handleEvent
    dsimp only
    split_ifs
    · exact ⟨_, rfl⟩
    · exact ⟨_, rfl⟩

/-- **A slot holds what the events of its index make of an empty one.** -/
theorem slotAt_foldl (index : ℕ) : ∀ (events : List Event) (s : State),
    slotAt (events.foldl handleEvent s) index =
      (channel index (blockEvents events)).foldl handleBlock (slotAt s index)
  | [], _ => rfl
  | event :: events, s => by
    rw [List.foldl_cons, slotAt_foldl index events]
    cases event with
    | block i event =>
      rw [slotAt_block]
      by_cases hi : index = i
      · subst hi
        simp [blockEvents, Event.block?, channel]
      · simp [blockEvents, Event.block?, channel, hi, Ne.symm hi]
    | messageDelta stopReason usage =>
      obtain ⟨final, hfinal⟩ := handleEvent_messageDelta s stopReason usage
      rw [hfinal]
      rfl
    | _ => rfl

theorem deltas_foldl : ∀ (events : List Event) (s : State), (events.foldl handleEvent s).deltas =
      s.deltas ++ (textEvents (blockEvents events)).map (·.2)
  | [], s => (List.append_nil _).symm
  | event :: events, s => by
    rw [List.foldl_cons, deltas_foldl events]
    cases event with
    | block i event =>
      simp [blockEvents, Event.block?, textEvents, map_snd_deltaEvents, handleEvent]
    | messageDelta stopReason usage =>
      obtain ⟨final, hfinal⟩ := handleEvent_messageDelta s stopReason usage
      rw [hfinal]
      rfl
    | _ => rfl

theorem finalMessage_foldl : ∀ {body : List Event} (s : State),
    (∀ e ∈ body, e = .ping ∨ (Event.block? e).isSome = true) →
    (body.foldl handleEvent s).finalMessage = s.finalMessage
  | [], _, _ => rfl
  | event :: body, s, h => by
    obtain ⟨hevent, hbody⟩ := List.forall_mem_cons.mp h
    rw [List.foldl_cons, finalMessage_foldl _ hbody]
    rcases hevent with rfl | hblock
    · rfl
    · cases event with
      | block index event => rfl
      | _ => cases hblock

/-! ### One block -/

/-- A block as the stream collects it: without its signature. -/
def unsigned (block : RawBlock) : RawBlock :=
  if block.type = "thinking" then { block with signature := some "" } else block

theorem part_cons (kind : BlockDelta → Option String) (d : BlockDelta) (deltas : List BlockDelta) :
    BlockDelta.part kind (d :: deltas) = (kind d).getD "" ++ BlockDelta.part kind deltas := by
  unfold BlockDelta.part
  rw [List.filterMap_cons]
  cases kind d with
  | none => simp
  | some text => rw [String.join_cons]; rfl

/-- **The parts of one kind** are appended to what the slot holds of it. -/
theorem foldl_parts {kinds : List (BlockDelta → Option String)} {f : BlockDelta → Option String}
    (slot : String → Slot) (hslot : ∀ text d, (d = .other ∨ ∃ kind ∈ kinds, (kind d).isSome = true) →
      handleBlock (slot text) (.delta d) = slot (text ++ (f d).getD "")) :
    ∀ {deltas : List BlockDelta} (text : String), OnlyParts kinds deltas →
      (deltas.map BlockEvent.delta).foldl handleBlock (slot text) = slot (text ++ BlockDelta.part f deltas)
  | [], text, _ => by simp [BlockDelta.part]
  | d :: deltas, text, h => by
    obtain ⟨hd, hdeltas⟩ := List.forall_mem_cons.mp h
    rw [List.map_cons, List.foldl_cons, part_cons, hslot text d hd, ← String.append_assoc]
    exact foldl_parts slot hslot _ hdeltas

theorem foldl_other (slot : Slot) : ∀ {deltas : List BlockDelta}, OnlyParts [] deltas →
    (deltas.map BlockEvent.delta).foldl handleBlock slot = slot
  | [], _ => rfl
  | d :: deltas, h => by
    obtain ⟨hd, hdeltas⟩ := List.forall_mem_cons.mp h
    rw [List.map_cons, List.foldl_cons]
    cases d with
    | other => exact foldl_other slot hdeltas
    | _ => simp at hd

theorem closeTool_of_stream {p : ToolJson} {block : Option RawBlock} {events : List BlockEvent}
    (h : SlotStream p block events) :
    closeTool p (events.foldl handleBlock (none, none)) = block.map unsigned := by
  cases block with
  | none =>
    rw [show events = [] from h]
    rfl
  | some block =>
    obtain ⟨start, deltas, hstream, rfl⟩ := h
    rw [List.cons_append, List.foldl_cons, List.foldl_append]
    cases hstream with
    | text _ h =>
      change closeTool p (((deltas.map .delta).foldl handleBlock
        (some { type := "text", text := some "" }, none))) = _
      rw [foldl_parts (f := BlockDelta.text?) (fun text => (some { type := "text", text := some text }, none))
        (fun text d hd => by cases d <;> simp_all [handleBlock, BlockDelta.text?]) "" h, String.empty_append]
      rfl
    | thinking _ h =>
      change closeTool p (((deltas.map .delta).foldl handleBlock
        (some { type := "thinking", thinking := some "", signature := some "" }, none))) = _
      rw [foldl_parts (f := BlockDelta.thinking?)
        (fun text => (some { type := "thinking", thinking := some text, signature := some "" }, none))
        (fun text d hd => by cases d <;> simp_all [handleBlock, BlockDelta.thinking?, BlockDelta.signature?]) "" h,
        String.empty_append]
      rfl
    | toolUse id name _ h =>
      change closeTool p (((deltas.map .delta).foldl handleBlock
        (some { type := "tool_use", id := some id, name := some name, input := some (.obj []) },
          some ⟨id, name, ""⟩))) = _
      rw [foldl_parts (f := BlockDelta.inputJson?) (fun args => (_, some ⟨id, name, args⟩))
        (fun args d hd => by cases d <;> simp_all [handleBlock, BlockDelta.inputJson?]) "" h, String.empty_append]
      rfl
    | other _ htype _ h =>
      simp only [List.mem_cons, List.not_mem_nil, or_false, not_or] at htype
      rw [foldl_other _ h]
      simp only [List.foldl_cons, List.foldl_nil, handleBlock, if_neg htype.2.2, closeTool,
        Option.map_some, unsigned, if_neg htype.2.1]

/-! ### The whole stream -/

section

variable {p : ToolJson} {message : RawMessage} {lastUsage : Option RawUsage} {events : List Event}

/-- The message that the stream has collected. -/
def collected (message : RawMessage) (lastUsage : Option RawUsage) : RawMessage where
  content := message.content.map unsigned
  stopReason := message.stopReason
  usage := if message.stopReason.isSome then lastUsage else none

section
variable (h : Legal p message lastUsage events)
include h

theorem finalMessage_of_legal : (events.foldl handleEvent .empty).finalMessage =
      message.stopReason.map fun reason => (reason, lastUsage) := by
  obtain ⟨firstUsage, body, rfl, hbody, -⟩ := h.shape
  rw [List.foldl_append, List.foldl_cons]
  have hnone : (body.foldl handleEvent
      (handleEvent .empty (.messageStart firstUsage))).finalMessage = none :=
    finalMessage_foldl _ hbody
  cases hreason : message.stopReason with
  | none => exact hnone
  | some reason =>
    have hne : reason ≠ "" := fun he => h.stopReason (by rw [hreason, he])
    simp only [List.foldl_cons, List.foldl_nil, handleEvent, if_neg hne]
    rfl

/-- **The blocks of a legal stream** are those of the message, without the signatures. -/
theorem streamed_content : values ((List.range (max (events.foldl handleEvent .empty).content.length
      (events.foldl handleEvent .empty).toolBlocks.length)).map fun index =>
      closeTool p (slotAt (events.foldl handleEvent .empty) index)) =
    message.content.map unsigned := by
  have hslot : ∀ index, closeTool p (slotAt (events.foldl handleEvent .empty) index) =
      message.content[index]?.map unsigned := by
    intro index
    rw [slotAt_foldl]
    exact closeTool_of_stream (h.slots index)
  have hvalues : ∀ index, get ((List.range (max (events.foldl handleEvent .empty).content.length
      (events.foldl handleEvent .empty).toolBlocks.length)).map fun index =>
      closeTool p (slotAt (events.foldl handleEvent .empty) index)) index =
      message.content[index]?.bind (some ∘ unsigned) := by
    intro index
    rw [get_map_range, hslot]
    · cases message.content[index]? <;> rfl
    · intro i hi
      obtain ⟨hcontent, htools⟩ := max_le_iff.mp hi
      unfold slotAt
      rw [get_of_length_le hcontent, get_of_length_le htools]
      rfl
  rw [values_eq hvalues, List.filterMap_eq_map]

theorem consume_of_legal :
    (consumeAnthropicStream p events).response = parseResponse p (collected message lastUsage) := by
  change parseResponse p ⟨values ((List.range (max (events.foldl handleEvent .empty).content.length
      (events.foldl handleEvent .empty).toolBlocks.length)).map fun index =>
      closeTool p (slotAt (events.foldl handleEvent .empty) index)),
    (events.foldl handleEvent .empty).finalMessage.map (·.1),
    (events.foldl handleEvent .empty).finalMessage.bind (·.2)⟩ = _
  rw [streamed_content h, finalMessage_of_legal h]
  unfold collected
  cases message.stopReason <;> rfl

end

theorem apply_unsigned {β : Type} {f : RawBlock → β} (hf : ∀ block : RawBlock, block.type = "thinking" →
    f { block with signature := some "" } = f block) (block : RawBlock) : f (unsigned block) = f block := by
  unfold unsigned
  by_cases h : block.type = "thinking"
  · rw [if_pos h, hf block h]
  · rw [if_neg h]

theorem thinking_unsigned_iff (blocks : List RawBlock) :
    (blocks.map unsigned).filterMap thinkingOf = blocks.filterMap thinkingOf ↔
      ∀ block ∈ blocks, block.type = "thinking" → block.signature.getD "" = "" := by
  induction blocks with
  | nil => simp
  | cons block blocks ih =>
    rw [List.forall_mem_cons, ← ih, List.map_cons]
    by_cases h : block.type = "thinking"
    · have hunsigned : thinkingOf (unsigned block) = some (.thinking (block.thinking.getD "") "") := by
        rw [unsigned, if_pos h, thinkingOf, if_pos h]
        rfl
      have hblock : thinkingOf block =
          some (.thinking (block.thinking.getD "") (block.signature.getD "")) := if_pos h
      rw [List.filterMap_cons_some hunsigned, List.filterMap_cons_some hblock, List.cons.injEq,
        ThinkingBlock.thinking.injEq]
      exact and_congr_left fun _ => ⟨fun he _ => he.2.symm, fun he => ⟨rfl, (he h).symm⟩⟩
    · have hblock : thinkingOf block = none := if_neg h
      rw [unsigned, if_neg h, List.filterMap_cons_none hblock, List.filterMap_cons_none hblock]
      exact ⟨fun he => ⟨fun ht => absurd ht h, he⟩, And.right⟩

theorem deltas_of_stream {block : Option RawBlock} {blockEvents : List BlockEvent}
    (h : SlotStream p block blockEvents) :
    String.join (blockEvents.flatMap contentDelta) = (block.bind textOf).getD "" := by
  cases block with
  | none =>
    rw [show blockEvents = [] from h]
    rfl
  | some block =>
    obtain ⟨start, deltas, hstream, rfl⟩ := h
    have htext : ∀ deltas : List BlockDelta,
        (deltas.map BlockEvent.delta).flatMap contentDelta = deltas.filterMap BlockDelta.text? := by
      intro deltas
      induction deltas with
      | nil => rfl
      | cons d deltas ih => cases d <;> simp [contentDelta, BlockDelta.text?, List.filterMap_cons, ih]
    have hall : (.start start :: deltas.map .delta ++ [.stop] : List BlockEvent).flatMap contentDelta =
        deltas.filterMap BlockDelta.text? := by
      rw [List.cons_append, List.flatMap_cons, List.flatMap_append, htext]
      exact List.append_nil _
    have hnone : ∀ {kinds : List (BlockDelta → Option String)}, OnlyParts kinds deltas →
        (∀ kind ∈ kinds, ∀ t, kind (.text t) = none) → deltas.filterMap BlockDelta.text? = [] := by
      intro kinds honly hkinds
      refine List.filterMap_eq_nil_iff.mpr fun d hd => ?_
      rcases honly d hd with rfl | ⟨kind, hkind, hsome⟩
      · rfl
      · cases d with
        | text t => rw [hkinds kind hkind t] at hsome; cases hsome
        | _ => rfl
    rw [hall]
    cases hstream with
    | text _ h => rfl
    | thinking _ h =>
      rw [hnone h (by simp [BlockDelta.thinking?, BlockDelta.signature?])]
      rfl
    | toolUse id name _ h =>
      rw [hnone h (by simp [BlockDelta.inputJson?])]
      rfl
    | other _ htype _ h =>
      simp only [List.mem_cons, not_or] at htype
      rw [hnone h (by simp), Option.bind_some, textOf, if_neg htype.1]
      rfl

theorem deltas_of_legal (h : Legal p message lastUsage events) :
    String.join (consumeAnthropicStream p events).deltas =
      String.join (message.content.filterMap textOf) := by
  have hdeltas : (consumeAnthropicStream p events).deltas =
      (textEvents (blockEvents events)).map (·.2) := deltas_foldl events .empty
  rw [hdeltas]
  refine join_deltaEvents h.texts (fun i hi => ?_) fun i => deltas_of_stream (h.slots i)
  have hslot := h.slots i
  rwa [List.getElem?_eq_none hi] at hslot

/-- **A legal stream returns the message** exactly when no block of it has a signature and its last event,
where it has a reason to stop, reports the whole usage. -/
theorem returns_iff (h : Legal p message lastUsage events) :
    (consumeAnthropicStream p events).Returns (parseResponse p message) ↔
      (∀ block ∈ message.content, block.type = "thinking" → block.signature.getD "" = "") ∧
      usageOf (if message.stopReason.isSome then lastUsage else none) = usageOf message.usage := by
  have hfields : parseResponse p (collected message lastUsage) =
      { parseResponse p message with
        usage := usageOf (if message.stopReason.isSome then lastUsage else none)
        thinkingBlocks := blocksOrNull ((message.content.map unsigned).filterMap thinkingOf) } := by
    unfold parseResponse collected
    simp only [List.filterMap_map, Function.comp_def, apply_unsigned (f := textOf) fun _ _ => rfl,
      apply_unsigned (f := toolCallOf p) fun _ _ => rfl, apply_unsigned (f := reasoningOf) fun _ _ => rfl]
  unfold Streamed.Returns
  rw [consume_of_legal h, deltas_of_legal h, ← thinking_unsigned_iff]
  constructor
  · rintro ⟨heq, -⟩
    exact ⟨blocksOrNull_inj (congrArg LLMResponse.thinkingBlocks heq), congrArg LLMResponse.usage heq⟩
  · rintro ⟨hthinking, husage⟩
    rw [hfields, hthinking, husage]
    exact ⟨rfl, (textOrNull_getD _).symm⟩

end

end Memmy.Streams.Anthropic
