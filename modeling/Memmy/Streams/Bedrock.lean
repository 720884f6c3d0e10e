import Memmy.Streams.Response

/-! # The Bedrock provider

`parseResponse` reads a whole response, `parseStreamEvent` the events of a streamed one. Texts and thoughts
are joined as they come, the arguments of tool calls by the index of their block, and a thinking block is
pushed when its block stops, unless its text is empty.

* `returns_iff`: a legal stream returns the response exactly when no thinking block of it has an empty
  text. -/

namespace Memmy.Streams.Bedrock

open Lib.Channels Lib.JsonValue Streams.Response Function String

/-! ### The whole response -/

/-- A content block of the response. -/
inductive Block where
  | text (text : String)
  | toolUse (id name : String) (input : Json)
  | reasoningText (text : String) (signature : Option String)
  | redacted (content : Json)
  | other

structure RawUsage where
  inputTokens : Option ℕ
  outputTokens : Option ℕ
  totalTokens : Option ℕ
  cacheReadInputTokens : Option ℕ
  cacheWriteInputTokens : Option ℕ

structure RawResponse where
  content : List Block
  stopReason : Option String
  usage : Option RawUsage

def finishReason : Option String → String
  | some "end_turn" => "stop"
  | some "tool_use" => "tool_calls"
  | some "max_tokens" => "length"
  | some reason => reason
  | none => "stop"

def usageOf : Option RawUsage → JsonObject
  | none => []
  | some usage =>
    let prompt := usage.inputTokens.getD 0
    let completion := usage.outputTokens.getD 0
    let cacheRead := usage.cacheReadInputTokens.getD 0
    let cacheWrite := usage.cacheWriteInputTokens.getD 0
    [("prompt_tokens", tokens prompt), ("completion_tokens", tokens completion),
      ("total_tokens", tokens (usage.totalTokens.getD (prompt + completion)))] ++
      (if cacheRead ≠ 0 then
        [("cached_tokens", tokens cacheRead), ("cache_read_input_tokens", tokens cacheRead)] else []) ++
      (if cacheWrite ≠ 0 then [("cache_creation_input_tokens", tokens cacheWrite)] else [])

def textOf : Block → Option String
  | .text text => some text
  | _ => none

/-- Only an object is taken as the arguments. -/
def toolCallOf : Block → Option ToolCallRequest
  | .toolUse id name (.obj fields) => some ⟨id, name, fields⟩
  | .toolUse id name _ => some ⟨id, name, []⟩
  | _ => none

def reasoningOf : Block → Option String
  | .reasoningText text _ => some text
  | _ => none

/-- `parseReasoning(block)`; the base64 text of redacted bytes stands for them. -/
def thinkingOf : Block → Option ThinkingBlock
  | .reasoningText text signature => some (.thinking text (signature.getD ""))
  | .redacted content => some (.redacted content)
  | _ => none

def parseResponse (response : RawResponse) : LLMResponse where
  content := textOrNull (String.join (response.content.filterMap textOf))
  toolCalls := response.content.filterMap toolCallOf
  finishReason := finishReason response.stopReason
  usage := usageOf response.usage
  thinkingBlocks := blocksOrNull (response.content.filterMap thinkingOf)
  reasoningContent := textOrNull (String.join (response.content.filterMap reasoningOf))

/-! ### The stream -/

inductive BlockDelta where
  | text (text : String)
  | toolUse (input : String)
  | reasoningText (text : String)
  | signature (signature : String)
  | redacted (content : Json)
  | other

inductive BlockEvent where
  | start (toolUse : Option (String × String))
  | delta (delta : BlockDelta)
  | stop

inductive Event where
  | block (index : ℕ) (event : BlockEvent)
  | messageStop (stopReason : Option String)
  | metadata (usage : Option RawUsage)
  | other

structure ToolBuffer where
  id : String
  name : String
  input : String

structure ReasoningBuffer where
  text : String
  signature : String
  redactedContent : Option Json

structure State where
  contentParts : List String
  reasoningParts : List String
  thinkingBlocks : List ThinkingBlock
  /-- `toolBuffers` and `state.reasoningBuffers`: their values stand in the order of the indices. -/
  toolBuffers : List (Option ToolBuffer)
  reasoningBuffers : ℕ → Option ReasoningBuffer
  stopReason : Option String
  usage : Option RawUsage

def closeReasoning (buffer : ReasoningBuffer) : Option ThinkingBlock :=
  if buffer.text ≠ "" then some (.thinking buffer.text buffer.signature)
  else buffer.redactedContent.map .redacted

def setReasoning (s : State) (index : ℕ) (change : ReasoningBuffer → ReasoningBuffer) : State :=
  let buffer := change ((s.reasoningBuffers index).getD ⟨"", "", none⟩)
  { s with reasoningBuffers := Function.update s.reasoningBuffers index (some buffer) }

def parseStreamEvent (s : State) : Event → State
  | .block index (.start (some (id, name))) =>
    { s with toolBuffers := put ⟨id, name, ""⟩ index s.toolBuffers }
  | .block _ (.start none) => s
  | .block _ (.delta (.text text)) => { s with contentParts := s.contentParts ++ [text] }
  | .block index (.delta (.toolUse input)) =>
    let buffer := (get s.toolBuffers index).getD ⟨"", "", ""⟩
    { s with toolBuffers := put { buffer with input := buffer.input ++ input } index s.toolBuffers }
  | .block index (.delta (.reasoningText text)) =>
    { (setReasoning s index fun buffer => { buffer with text := buffer.text ++ text }) with
      reasoningParts := s.reasoningParts ++ [text] }
  | .block index (.delta (.signature signature)) =>
    setReasoning s index fun buffer => { buffer with signature := signature }
  | .block index (.delta (.redacted content)) =>
    setReasoning s index fun buffer => { buffer with redactedContent := some content }
  | .block _ (.delta .other) => s
  | .block index .stop =>
    match s.reasoningBuffers index with
    | none => s
    | some buffer => { s with
      thinkingBlocks := s.thinkingBlocks ++ (closeReasoning buffer).toList
      reasoningBuffers := Function.update s.reasoningBuffers index none }
  | .messageStop stopReason => { s with stopReason := stopReason }
  | .metadata usage => { s with usage := usage.or s.usage }
  | .other => s

def State.empty : State := ⟨[], [], [], [], fun _ => none, none, none⟩

/-- `streamResult`; every part of the content was delivered as it came, an empty one aside. -/
def chatStream (p : ToolJson) (events : List Event) : Streamed :=
  let s := events.foldl parseStreamEvent State.empty
  ⟨⟨textOrNull (String.join s.contentParts),
    (values s.toolBuffers).map fun buffer =>
      ⟨buffer.id, buffer.name, parseToolArguments p (some (.str buffer.input))⟩,
    finishReason s.stopReason, usageOf s.usage, blocksOrNull s.thinkingBlocks,
    textOrNull (String.join s.reasoningParts)⟩, s.contentParts.filter (· ≠ "")⟩

/-! ### Legal streams -/

/-- The events of a block of the response, or at an index where there is none. -/
inductive BlockStream (p : ToolJson) : Option Block → List BlockEvent → Prop where
  | none : BlockStream p none []
  | text (parts : List String) :
    BlockStream p (some (.text (String.join parts))) (parts.map (fun part => .delta (.text part)) ++ [.stop])
  | toolUse (id name : String) (parts : List String) :
    BlockStream p
      (some (.toolUse id name (.obj (parseToolArguments p (some (.str (String.join parts)))))))
      (.start (some (id, name)) :: parts.map (fun part => .delta (.toolUse part)) ++ [.stop])
  | reasoningText (parts : List String) (signature : Option String) :
    BlockStream p (some (.reasoningText (String.join parts) signature))
      (parts.map (fun part => .delta (.reasoningText part)) ++
        (signature.map fun signature => .delta (.signature signature)).toList ++ [.stop])
  | redacted (content : Json) : BlockStream p (some (.redacted content)) [.delta (.redacted content), .stop]
  | other : BlockStream p (some .other) [.delta .other, .stop]

def Event.block? : Event → Option (ℕ × BlockEvent)
  | block index event => some (index, event)
  | _ => none

def blockEvents (events : List Event) : List (ℕ × BlockEvent) := events.filterMap Event.block?

def contentDelta : BlockEvent → List String
  | .delta (.text text) => [text]
  | _ => []

def reasoningDelta : BlockEvent → List String
  | .delta (.reasoningText text) => [text]
  | _ => []

/-- The event that ends a block. -/
def isStop (e : ℕ × BlockEvent) : Bool :=
  match e.2 with
  | .stop => true
  | _ => false

/-- **A legal stream of a response:** the events of each block in their order, those of the tool calls in any
interleaving, the texts, the thoughts and the ends of the blocks in the order of the blocks. -/
structure Legal (p : ToolJson) (response : RawResponse) (events : List Event) : Prop where
  shape : ∃ body, events = body ++ [.messageStop response.stopReason, .metadata response.usage] ∧
    ∀ e ∈ body, e = .other ∨ (Event.block? e).isSome = true
  blocks : ∀ index, BlockStream p response.content[index]? (channel index (blockEvents events))
  texts : (deltaEvents contentDelta (blockEvents events)).Pairwise (·.1 ≤ ·.1)
  thoughts : (deltaEvents reasoningDelta (blockEvents events)).Pairwise (·.1 ≤ ·.1)
  stops : ((blockEvents events).filter isStop).Pairwise (·.1 ≤ ·.1)

/-! ### One block -/

/-- What an event does to the tool buffer of its index. -/
def toolStep (buffer : Option ToolBuffer) : BlockEvent → Option ToolBuffer
  | .start (some (id, name)) => some ⟨id, name, ""⟩
  | .delta (.toolUse input) =>
    some { buffer.getD ⟨"", "", ""⟩ with input := (buffer.getD ⟨"", "", ""⟩).input ++ input }
  | _ => buffer

/-- What an event does to the reasoning buffer of its index. -/
def reasoningStep (buffer : Option ReasoningBuffer) : BlockEvent → Option ReasoningBuffer
  | .delta (.reasoningText text) =>
    some { buffer.getD ⟨"", "", none⟩ with text := (buffer.getD ⟨"", "", none⟩).text ++ text }
  | .delta (.signature signature) => some { buffer.getD ⟨"", "", none⟩ with signature := signature }
  | .delta (.redacted content) => some { buffer.getD ⟨"", "", none⟩ with redactedContent := some content }
  | .stop => none
  | _ => buffer

def pushed (buffer : Option ReasoningBuffer) : BlockEvent → List ThinkingBlock
  | .stop => (buffer.bind closeReasoning).toList
  | _ => []

/-- The thinking blocks that the events of one index push. -/
def pushedBy : Option ReasoningBuffer → List BlockEvent → List ThinkingBlock
  | _, [] => []
  | buffer, event :: events => pushed buffer event ++ pushedBy (reasoningStep buffer event) events

/-- The thinking block of a block as the stream keeps it: none for an empty text. -/
def keptThinking : Block → Option ThinkingBlock
  | .reasoningText text signature => if text ≠ "" then some (.thinking text (signature.getD "")) else none
  | .redacted content => some (.redacted content)
  | _ => none

section
variable {events : List BlockEvent}

variable {p : ToolJson} {block : Option Block} {events : List BlockEvent}

theorem foldl_toolUse (id name : String) : ∀ (parts : List String) (input : String),
    (parts.map fun part => BlockEvent.delta (.toolUse part)).foldl toolStep (some ⟨id, name, input⟩) =
      some ⟨id, name, input ++ join parts⟩
  | [], input => by simp
  | part :: parts, input => by
    rw [List.map_cons, List.foldl_cons, join_cons, ← append_assoc]
    exact foldl_toolUse id name parts (input ++ part)

theorem foldl_id {β : Type} {step : β → BlockEvent → β} (buffer : β)
    (h : ∀ event ∈ events, ∀ buffer, step buffer event = buffer) : events.foldl step buffer = buffer := by
  induction events with
  | nil => rfl
  | cons event events ih =>
    obtain ⟨hevent, h⟩ := List.forall_mem_cons.mp h
    rw [List.foldl_cons, hevent, ih h]

def request (p : ToolJson) (buffer : ToolBuffer) : ToolCallRequest :=
  ⟨buffer.id, buffer.name, parseToolArguments p (some (.str buffer.input))⟩

theorem tool_of_stream (h : BlockStream p block events) :
    (events.foldl toolStep none).map (request p) = block.bind toolCallOf := by
  cases h with
  | none => rfl
  | text parts =>
    rw [foldl_id]
    · rfl
    · intro event hevent buffer
      simp only [List.mem_append, List.mem_map, List.mem_singleton] at hevent
      rcases hevent with ⟨part, -, rfl⟩ | rfl
      · rfl
      · rfl
  | toolUse id name parts =>
    rw [List.cons_append, List.foldl_cons, List.foldl_append]
    change ((((parts.map fun part => BlockEvent.delta (.toolUse part)).foldl toolStep
      (some ⟨id, name, ""⟩))).map (request p)) = _
    rw [foldl_toolUse, empty_append]
    rfl
  | reasoningText parts signature =>
    rw [foldl_id]
    · rfl
    · intro event hevent buffer
      simp only [List.mem_append, List.mem_map, List.mem_singleton, Option.mem_toList,
        Option.map_eq_some_iff] at hevent
      rcases hevent with (⟨part, -, rfl⟩ | ⟨part, -, rfl⟩) | rfl
      · rfl
      · rfl
      · rfl
  | redacted content => rfl
  | other => rfl

theorem pushedBy_append (buffer : Option ReasoningBuffer) : ∀ (events rest : List BlockEvent),
    (∀ event ∈ events, event ≠ .stop) →
    pushedBy buffer (events ++ rest) = pushedBy (events.foldl reasoningStep buffer) rest
  | [], _, _ => rfl
  | event :: events, rest, h => by
    obtain ⟨hevent, h⟩ := List.forall_mem_cons.mp h
    have hnone : pushed buffer event = [] := by
      cases event with
      | stop => exact absurd rfl hevent
      | _ => rfl
    rw [List.cons_append, pushedBy, hnone, List.nil_append, List.foldl_cons]
    exact pushedBy_append _ events rest h

theorem foldl_reasoningText : ∀ (parts : List String) (buffer : Option ReasoningBuffer),
    ((parts.map fun part => BlockEvent.delta (.reasoningText part)).foldl reasoningStep buffer).getD
      ⟨"", "", none⟩ =
    { buffer.getD ⟨"", "", none⟩ with text := (buffer.getD ⟨"", "", none⟩).text ++ join parts }
  | [], buffer => by simp
  | part :: parts, buffer => by
    rw [List.map_cons, List.foldl_cons, foldl_reasoningText parts, join_cons, ← append_assoc]
    rfl

theorem bind_closeReasoning (buffer : Option ReasoningBuffer) :
    buffer.bind closeReasoning = closeReasoning (buffer.getD ⟨"", "", none⟩) := by
  cases buffer <;> rfl

theorem pushedBy_of_stream (h : BlockStream p block events) :
    pushedBy none events = (block.bind keptThinking).toList := by
  cases h with
  | none => rfl
  | text parts =>
    rw [pushedBy_append none _ _ (by simp), foldl_id none (by simp [reasoningStep])]
    rfl
  | toolUse id name parts =>
    rw [pushedBy_append none (.start _ :: _) _ (by simp), foldl_id none (by simp [reasoningStep])]
    rfl
  | reasoningText parts signature =>
    have hbuffer : ((parts.map (fun part => BlockEvent.delta (.reasoningText part)) ++
        (signature.map fun signature => BlockEvent.delta (.signature signature)).toList).foldl
        reasoningStep none).getD ⟨"", "", none⟩ = ⟨join parts, signature.getD "", none⟩ := by
      rw [List.foldl_append]
      have htext := foldl_reasoningText parts none
      cases signature with
      | none => exact htext
      | some signature =>
        change ReasoningBuffer.mk _ signature _ = _
        rw [htext]
        rfl
    rw [pushedBy_append none _ _ (by
      intro event hevent
      simp only [List.mem_append, List.mem_map, Option.mem_toList, Option.map_eq_some_iff] at hevent
      rcases hevent with ⟨part, -, rfl⟩ | ⟨part, -, rfl⟩ <;> simp)]
    change (_ ++ []) = _
    rw [List.append_nil, pushed, bind_closeReasoning, hbuffer, Option.bind_some, keptThinking, closeReasoning]
    by_cases hempty : join parts = ""
    · simp [hempty]
    · simp [hempty]
  | redacted content => rfl
  | other => rfl

theorem flatMap_none (parts : List String) : parts.flatMap (fun _ => ([] : List String)) = [] :=
  List.flatMap_eq_nil_iff.mpr fun _ _ => rfl

theorem content_of_stream (h : BlockStream p block events) :
    join (events.flatMap contentDelta) = (block.bind textOf).getD "" := by
  cases h with
  | none => rfl
  | text parts =>
    rw [List.flatMap_append, List.flatMap_map]
    simp [contentDelta, textOf]
  | toolUse id name parts => simp [contentDelta, textOf, List.flatMap_map, flatMap_none]
  | reasoningText parts signature =>
    cases signature <;> simp [contentDelta, textOf, List.flatMap_map, flatMap_none]
  | redacted content => rfl
  | other => rfl

theorem reasoning_of_stream (h : BlockStream p block events) :
    join (events.flatMap reasoningDelta) = (block.bind reasoningOf).getD "" := by
  cases h with
  | none => rfl
  | text parts => simp [reasoningDelta, reasoningOf, List.flatMap_map, flatMap_none]
  | toolUse id name parts => simp [reasoningDelta, reasoningOf, List.flatMap_map, flatMap_none]
  | reasoningText parts signature =>
    cases signature <;> simp [reasoningDelta, reasoningOf, List.flatMap_map]
  | redacted content => rfl
  | other => rfl

end

/-! ### What the stream collects -/

/-- The thinking blocks that are pushed, each with its index. -/
def pushLog : (ℕ → Option ReasoningBuffer) → List (ℕ × BlockEvent) → List (ℕ × ThinkingBlock)
  | _, [] => []
  | buffers, e :: events =>
    (pushed (buffers e.1) e.2).map (fun block => (e.1, block)) ++
      pushLog (Function.update buffers e.1 (reasoningStep (buffers e.1) e.2)) events

theorem channel_pushLog (index : ℕ) : ∀ (buffers : ℕ → Option ReasoningBuffer)
    (events : List (ℕ × BlockEvent)),
    channel index (pushLog buffers events) = pushedBy (buffers index) (channel index events)
  | _, [] => rfl
  | buffers, e :: events => by
    rw [pushLog, channel_append, channel_pushLog index]
    by_cases he : e.1 = index
    · have hfirst : channel index ((pushed (buffers e.1) e.2).map fun block => (e.1, block)) =
          pushed (buffers index) e.2 := by
        simp [channel, he, List.filter_map, comp_def]
      have hrest : channel index (e :: events) = e.2 :: channel index events := by
        simp [channel, he]
      rw [hfirst, hrest, pushedBy, he, update_self]
    · have hfirst : channel index ((pushed (buffers e.1) e.2).map fun block => (e.1, block)) = [] := by
        simp [channel, he, List.filter_map, comp_def]
      have hrest : channel index (e :: events) = channel index events := by
        simp [channel, he]
      rw [hfirst, hrest, List.nil_append, update_of_ne (Ne.symm he)]

theorem pushLog_sublist : ∀ (buffers : ℕ → Option ReasoningBuffer) (events : List (ℕ × BlockEvent)),
    ((pushLog buffers events).map (·.1)).Sublist ((events.filter isStop).map (·.1))
  | _, [] => List.Sublist.slnil
  | buffers, (index, event) :: events => by
    have ih := pushLog_sublist (Function.update buffers index (reasoningStep (buffers index) event)) events
    rw [pushLog, List.map_append]
    cases event with
    | stop =>
      change (List.map _ (List.map _ ((buffers index).bind closeReasoning).toList) ++ _).Sublist _
      cases (buffers index).bind closeReasoning with
      | none => exact ih.cons _
      | some block => exact ih.cons_cons _
    | _ =>
      exact ih

/-- **What an event of a block changes,** at its index and in the parts that are joined. -/
structure Stepped (s s' : State) (index : ℕ) (event : BlockEvent) : Prop where
  contentParts : s'.contentParts = s.contentParts ++ contentDelta event
  reasoningParts : s'.reasoningParts = s.reasoningParts ++ reasoningDelta event
  thinkingBlocks : s'.thinkingBlocks = s.thinkingBlocks ++ pushed (s.reasoningBuffers index) event
  reasoningBuffers : s'.reasoningBuffers =
    Function.update s.reasoningBuffers index (reasoningStep (s.reasoningBuffers index) event)
  toolBuffers : ∀ i, get s'.toolBuffers i =
    if i = index then toolStep (get s.toolBuffers index) event else get s.toolBuffers i
  stopReason : s'.stopReason = s.stopReason
  usage : s'.usage = s.usage

theorem stepped (s : State) (index : ℕ) (event : BlockEvent) :
    Stepped s (parseStreamEvent s (.block index event)) index event := by
  have hsame : ∀ i, get s.toolBuffers i =
      if i = index then get s.toolBuffers index else get s.toolBuffers i := by
    intro i
    by_cases hi : i = index
    · rw [if_pos hi, hi]
    · rw [if_neg hi]
  have hkept : s.reasoningBuffers = Function.update s.reasoningBuffers index (s.reasoningBuffers index) :=
    (update_eq_self ..).symm
  cases event with
  | start toolUse =>
    cases toolUse with
    | none => exact ⟨by simp [parseStreamEvent, contentDelta], by simp [parseStreamEvent, reasoningDelta],
        by simp [parseStreamEvent, pushed], hkept, hsame, rfl, rfl⟩
    | some tool => exact ⟨by simp [parseStreamEvent, contentDelta],
        by simp [parseStreamEvent, reasoningDelta], by simp [parseStreamEvent, pushed], hkept,
        fun i => get_put _ index i _, rfl, rfl⟩
  | delta d =>
    cases d with
    | text text => exact ⟨rfl, by simp [parseStreamEvent, reasoningDelta],
        by simp [parseStreamEvent, pushed], hkept, hsame, rfl, rfl⟩
    | toolUse input => exact ⟨by simp [parseStreamEvent, contentDelta],
        by simp [parseStreamEvent, reasoningDelta], by simp [parseStreamEvent, pushed], hkept,
        fun i => get_put _ index i _, rfl, rfl⟩
    | reasoningText text => exact ⟨by simp [parseStreamEvent, contentDelta, setReasoning], rfl,
        by simp [parseStreamEvent, pushed, setReasoning], rfl, hsame, rfl, rfl⟩
    | signature signature => exact ⟨by simp [parseStreamEvent, contentDelta, setReasoning],
        by simp [parseStreamEvent, reasoningDelta, setReasoning],
        by simp [parseStreamEvent, pushed, setReasoning], rfl, hsame, rfl, rfl⟩
    | redacted content => exact ⟨by simp [parseStreamEvent, contentDelta, setReasoning],
        by simp [parseStreamEvent, reasoningDelta, setReasoning],
        by simp [parseStreamEvent, pushed, setReasoning], rfl, hsame, rfl, rfl⟩
    | other => exact ⟨by simp [parseStreamEvent, contentDelta], by simp [parseStreamEvent, reasoningDelta],
        by simp [parseStreamEvent, pushed], hkept, hsame, rfl, rfl⟩
  | stop =>
    cases hbuffer : s.reasoningBuffers index with
    | none =>
      have hstate : parseStreamEvent s (.block index .stop) = s := by
        simp only [parseStreamEvent, hbuffer]
      rw [hstate]
      exact ⟨by simp [contentDelta], by simp [reasoningDelta], by simp [pushed, hbuffer],
        by rw [reasoningStep, ← hbuffer]; exact hkept, hsame, rfl, rfl⟩
    | some buffer =>
      have hstate : parseStreamEvent s (.block index .stop) = { s with
          thinkingBlocks := s.thinkingBlocks ++ (closeReasoning buffer).toList
          reasoningBuffers := Function.update s.reasoningBuffers index none } := by
        simp only [parseStreamEvent, hbuffer]
      rw [hstate]
      exact ⟨by simp [contentDelta], by simp [reasoningDelta], by simp [pushed, hbuffer], rfl, hsame,
        rfl, rfl⟩

/-- **What the events of the blocks make of a state.** -/
structure Collected (s s' : State) (events : List (ℕ × BlockEvent)) : Prop where
  contentParts : s'.contentParts = s.contentParts ++ (deltaEvents contentDelta events).map (·.2)
  reasoningParts : s'.reasoningParts = s.reasoningParts ++ (deltaEvents reasoningDelta events).map (·.2)
  thinkingBlocks : s'.thinkingBlocks =
    s.thinkingBlocks ++ (pushLog s.reasoningBuffers events).map (·.2)
  toolBuffers : ∀ index, get s'.toolBuffers index =
    (channel index events).foldl toolStep (get s.toolBuffers index)
  stopReason : s'.stopReason = s.stopReason
  usage : s'.usage = s.usage

theorem foldl_blocks : ∀ {body : List Event} (s : State),
    (∀ e ∈ body, e = .other ∨ (Event.block? e).isSome = true) →
    Collected s (body.foldl parseStreamEvent s) (blockEvents body)
  | [], s, _ => ⟨(List.append_nil _).symm, (List.append_nil _).symm, (List.append_nil _).symm,
      fun _ => rfl, rfl, rfl⟩
  | event :: body, s, h => by
    obtain ⟨hevent, hbody⟩ := List.forall_mem_cons.mp h
    rw [List.foldl_cons]
    have ih := foldl_blocks (parseStreamEvent s event) hbody
    rcases hevent with rfl | hblock
    · exact ih
    · cases event with
      | block index event =>
        have hstep := stepped s index event
        have hevents : blockEvents (.block index event :: body) = (index, event) :: blockEvents body := rfl
        rw [hevents]
        refine ⟨?_, ?_, ?_, fun i => ?_, ih.stopReason.trans hstep.stopReason, ih.usage.trans hstep.usage⟩
        · rw [ih.contentParts, hstep.contentParts, List.append_assoc, map_snd_deltaEvents,
            map_snd_deltaEvents, List.flatMap_cons]
        · rw [ih.reasoningParts, hstep.reasoningParts, List.append_assoc, map_snd_deltaEvents,
            map_snd_deltaEvents, List.flatMap_cons]
        · rw [ih.thinkingBlocks, hstep.thinkingBlocks, hstep.reasoningBuffers, pushLog, List.append_assoc,
            List.map_append, List.map_map]
          exact congrArg _ (congrArg (· ++ _) (List.map_id _).symm)
        · rw [ih.toolBuffers, hstep.toolBuffers]
          by_cases hi : i = index
          · subst hi
            simp [channel]
          · simp [channel, hi, Ne.symm hi]
      | _ => cases hblock

/-! ### The whole stream -/

section

variable {p : ToolJson} {response : RawResponse} {events : List Event}

section
variable (h : Legal p response events)
include h

theorem collected_of_legal : ∃ s,
    Collected .empty s (blockEvents events) ∧ events.foldl parseStreamEvent .empty =
      { s with stopReason := response.stopReason, usage := response.usage } := by
  obtain ⟨body, rfl, hbody⟩ := h.shape
  have hcollected := foldl_blocks State.empty hbody
  have hevents : blockEvents (body ++ [.messageStop response.stopReason, .metadata response.usage]) =
      blockEvents body := by
    unfold blockEvents
    rw [List.filterMap_append]
    exact List.append_nil _
  refine ⟨_, hevents ▸ hcollected, ?_⟩
  rw [List.foldl_append]
  have husage : (response.usage.or (body.foldl parseStreamEvent .empty).usage) = response.usage := by
    rw [hcollected.usage]
    exact Option.or_none
  simp only [List.foldl_cons, List.foldl_nil, parseStreamEvent, husage]

theorem channel_nil_of_length {index : ℕ}
    (hle : response.content.length ≤ index) : channel index (blockEvents events) = [] := by
  have hblock := h.blocks index
  rw [List.getElem?_eq_none hle] at hblock
  generalize channel index (blockEvents events) = blockEvents at hblock
  cases hblock
  rfl

theorem tools_of_legal {s : State} (hs : Collected .empty s (blockEvents events)) :
    (values s.toolBuffers).map (request p) = response.content.filterMap toolCallOf := by
  rw [← List.reduceOption_map]
  refine values_eq fun index => ?_
  rw [get_map, hs.toolBuffers]
  exact tool_of_stream (h.blocks index)

theorem thinking_of_legal {s : State} (hs : Collected .empty s (blockEvents events)) :
    s.thinkingBlocks = response.content.filterMap keptThinking := by
  have hsorted : (pushLog (fun _ => none) (blockEvents events)).Pairwise (·.1 ≤ ·.1) := by
    have hstops := List.pairwise_map.mpr h.stops
    exact List.pairwise_map.mp (hstops.sublist (pushLog_sublist _ _))
  have hchannel : ∀ index, channel index (pushLog (fun _ => none) (blockEvents events)) =
      (response.content[index]?.bind keptThinking).toList := by
    intro index
    rw [channel_pushLog]
    exact pushedBy_of_stream (h.blocks index)
  have hlt : ∀ e ∈ pushLog (fun _ => none) (blockEvents events), e.1 < response.content.length := by
    intro e he
    by_contra hle
    have hnone : channel e.1 (pushLog (fun _ => none) (blockEvents events)) = [] := by
      rw [hchannel, List.getElem?_eq_none (Nat.le_of_not_lt hle)]
      rfl
    exact channel_eq_nil_iff.mp hnone (mem_opened.mpr (List.mem_map.mpr ⟨e, he, rfl⟩))
  have hstate : s.thinkingBlocks = (pushLog (fun _ => none) (blockEvents events)).map (·.2) := hs.thinkingBlocks
  rw [hstate, map_snd_eq_flatMap response.content.length hsorted hlt, ← filterMap_range_getElem?,
    List.filterMap_eq_flatMap_toList]
  exact List.flatMap_congr fun index _ => hchannel index

end

/-- No thinking block has an empty text. -/
def NoEmptyThought (response : RawResponse) : Prop :=
  ∀ block ∈ response.content, ∀ signature, block ≠ .reasoningText "" signature

theorem keptThinking_iff (blocks : List Block) :
    blocks.filterMap keptThinking = blocks.filterMap thinkingOf ↔
      ∀ block ∈ blocks, ∀ signature, block ≠ .reasoningText "" signature := by
  have hle : ∀ blocks : List Block,
      (blocks.filterMap keptThinking).length ≤ (blocks.filterMap thinkingOf).length := by
    intro blocks
    rw [List.length_filterMap_eq_countP, List.length_filterMap_eq_countP]
    refine List.countP_mono_left fun block _ hkept => ?_
    cases block with
    | reasoningText text signature => rfl
    | redacted content => rfl
    | _ => cases hkept
  induction blocks with
  | nil => simp
  | cons block blocks ih =>
    rw [List.forall_mem_cons]
    refine Iff.trans ?_ (and_congr_right fun _ => ih)
    cases block with
    | reasoningText text signature =>
      have hthinking : thinkingOf (.reasoningText text signature) =
          some (.thinking text (signature.getD "")) := rfl
      by_cases htext : text = ""
      · have hkept : keptThinking (.reasoningText text signature) = none := if_neg fun h => h htext
        rw [List.filterMap_cons_none hkept, List.filterMap_cons_some hthinking]
        refine ⟨fun heq => ?_, fun h => absurd (by rw [htext]) (h.1 signature)⟩
        have hlength := hle blocks
        rw [heq, List.length_cons] at hlength
        omega
      · have hkept : keptThinking (.reasoningText text signature) =
            some (.thinking text (signature.getD "")) := if_pos htext
        rw [List.filterMap_cons_some hkept, List.filterMap_cons_some hthinking, List.cons.injEq]
        refine ⟨fun h => ⟨fun signature heq => ?_, h.2⟩, fun h => ⟨rfl, h.2⟩⟩
        injection heq with heq
        exact htext heq
    | redacted content =>
      have hkept : keptThinking (.redacted content) = some (.redacted content) := rfl
      have hthinking : thinkingOf (.redacted content) = some (.redacted content) := rfl
      rw [List.filterMap_cons_some hkept, List.filterMap_cons_some hthinking, List.cons.injEq]
      exact ⟨fun h => ⟨fun _ heq => (nomatch heq), h.2⟩, fun h => ⟨rfl, h.2⟩⟩
    | text | toolUse | other =>
      refine ⟨fun h => ⟨fun _ heq => (nomatch heq), h⟩, fun h => h.2⟩

/-- **A legal stream returns the response** exactly when no thinking block of it has an empty text. -/
theorem returns_iff (h : Legal p response events) :
    (chatStream p events).Returns (parseResponse response) ↔ NoEmptyThought response := by
  obtain ⟨s, hs, hfold⟩ := collected_of_legal h
  have hcontent : join s.contentParts = join (response.content.filterMap textOf) := by
    rw [show s.contentParts = (deltaEvents contentDelta (blockEvents events)).map (·.2) from
      hs.contentParts]
    exact join_deltaEvents h.texts (fun i hi => channel_nil_of_length h hi) fun i =>
      content_of_stream (h.blocks i)
  have hreasoning : join s.reasoningParts =
      join (response.content.filterMap reasoningOf) := by
    rw [show s.reasoningParts = (deltaEvents reasoningDelta (blockEvents events)).map (·.2) from
      hs.reasoningParts]
    exact join_deltaEvents h.thoughts (fun i hi => channel_nil_of_length h hi) fun i =>
      reasoning_of_stream (h.blocks i)
  have hdeltas : join (s.contentParts.filter (· ≠ "")) = join s.contentParts := by
    induction s.contentParts with
    | nil => rfl
    | cons part parts ih =>
      by_cases hpart : part = ""
      · rw [List.filter_cons_of_neg (by simpa using hpart), ih, join_cons, hpart, empty_append]
      · rw [List.filter_cons_of_pos (by simpa using hpart), join_cons, ih, join_cons]
  unfold Streamed.Returns chatStream NoEmptyThought
  rw [hfold, ← keptThinking_iff]
  simp only [hcontent, hreasoning, hdeltas, thinking_of_legal h hs, textOrNull_getD, and_true]
  have htools : ((values s.toolBuffers).map fun buffer => (⟨buffer.id, buffer.name,
      parseToolArguments p (some (.str buffer.input))⟩ : ToolCallRequest)) =
      response.content.filterMap toolCallOf := tools_of_legal h hs
  rw [htools]
  constructor
  · exact fun heq => blocksOrNull_inj (congrArg LLMResponse.thinkingBlocks heq)
  · intro heq
    rw [heq]
    rfl

end

end Memmy.Streams.Bedrock
