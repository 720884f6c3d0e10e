import Memmy.Streams.Anthropic
import Memmy.Streams.Bedrock
import Memmy.Streams.Compat
import Memmy.Streams.Responses

/-! # Streamed and whole responses

Each provider has two parsers of a response. `streams_return_iff` says when the streaming one returns what
the other returns, for every legal stream; the streams of `Example` are legal and return something else. -/

namespace Memmy.Streams.SameResponse

open Lib.Channels Lib.JsonValue Streams.Response List

section

variable {p : ToolJson} {message : Anthropic.RawMessage} {lastUsage : Option Anthropic.RawUsage}
  {messageEvents : List Anthropic.Event} {response : Responses.RawResponse}
  {responseEvents : List Responses.Event} {env : Compat.Env} {choice : Compat.Choice}
  {usage : Option JsonObject} {chunks : List Compat.Chunk} {last : Compat.Chunk}
  {converse : Bedrock.RawResponse} {converseEvents : List Bedrock.Event}

/-- **When the stream returns the response,** provider by provider: without a signature and with the whole
usage in the last event; completed, with its usage and the `call_id` in all events; answered and thought
once, with the calls in order and the usage in the last chunk; and without an empty thought. -/
theorem streams_return_iff (hmessage : Anthropic.Legal p message lastUsage messageEvents)
    (hresponse : Responses.Legal response responseEvents)
    (hchoice : Compat.Legal env choice usage chunks last)
    (hconverse : Bedrock.Legal p converse converseEvents) :
    ((Anthropic.consumeAnthropicStream p messageEvents).Returns (Anthropic.parseResponse p message) ↔
      (∀ block ∈ message.content, block.type = "thinking" → block.signature.getD "" = "") ∧
      Anthropic.usageOf (if message.stopReason.isSome then lastUsage else none) =
        Anthropic.usageOf message.usage) ∧
    ((∃ s, Responses.consumeSdkStream p responseEvents = some s ∧
        s.Returns (Responses.parseResponseOutput p response)) ↔
      response.status = some "completed" ∧ response.usage.isSome = true ∧
      Responses.Named responseEvents) ∧
    ((Compat.chatStream env chunks).Returns
        (Compat.parseResponse env (Compat.responseOf choice usage)) ↔
      Compat.AnswersItself env choice ∧ Compat.ThinksOnce choice chunks ∧
      Compat.CallsInOrder choice chunks ∧
      Compat.extractUsage env last.usage = Compat.extractUsage env usage) ∧
    ((Bedrock.chatStream p converseEvents).Returns (Bedrock.parseResponse converse) ↔
      Bedrock.NoEmptyThought converse) :=
  ⟨Anthropic.returns_iff hmessage, Responses.returns_iff hresponse, Compat.returns_iff hchoice,
    Bedrock.returns_iff hconverse⟩

end

/-! ### Four streams -/

namespace Example

/-- The arguments of the calls below are `{}`. -/
def toolJson : ToolJson := ⟨fun _ => [], fun _ => ""⟩

section Anthropic

open Anthropic

def thinkingDeltas : List BlockDelta := [.thinking "Let me ", .thinking "see.", .signature "EqQB"]

def textDeltas : List BlockDelta := [.text "4", .text "2"]

/-- A signed thought and an answer. -/
def message : RawMessage where
  content := [
    { type := "thinking"
      thinking := some (BlockDelta.part BlockDelta.thinking? thinkingDeltas)
      signature := some (BlockDelta.part BlockDelta.signature? thinkingDeltas) },
    { type := "text"
      text := some (BlockDelta.part BlockDelta.text? textDeltas) }]
  stopReason := some "end_turn"
  usage := some ⟨some 10, none, none, some 5⟩

def thinkingEvents : List BlockEvent :=
  .start { type := "thinking", thinking := some "", signature := some "" } ::
    thinkingDeltas.map .delta ++ [.stop]

def answerEvents : List BlockEvent :=
  .start { type := "text", text := some "" } :: textDeltas.map .delta ++ [.stop]

def messageEvents : List Event :=
  .messageStart (some ⟨some 10, none, none, none⟩) ::
    (thinkingEvents.map (.block 0) ++ answerEvents.map (.block 1)) ++
    [.messageDelta (some "end_turn") (some ⟨none, none, none, some 5⟩), .messageStop]

open BlockDelta

theorem message_legal : Legal toolJson message (some ⟨none, none, none, some 5⟩) messageEvents where
  shape := by
    refine ⟨_, _, rfl, ?_, rfl⟩
    simp [thinkingEvents, answerEvents, thinkingDeltas, textDeltas, Event.block?]
  slots := by
    intro index
    rcases index with _ | _ | _
    · exact ⟨_, thinkingDeltas, .thinking _ (by
        simp [OnlyParts, thinkingDeltas, thinking?, signature?]), rfl⟩
    · exact ⟨_, textDeltas, .text _ (by simp [OnlyParts, textDeltas, text?]), rfl⟩
    · rfl
  texts := by
    have htexts : textEvents (blockEvents messageEvents) = [(1, "4"), (1, "2")] := rfl
    rw [htexts]
    simp
  stopReason := by simp [message]

theorem message_lost : ¬ (consumeAnthropicStream toolJson messageEvents).Returns
    (parseResponse toolJson message) := by
  rw [returns_iff message_legal]
  rintro ⟨hsigned, -⟩
  have hsignature : part signature? thinkingDeltas = "" := hsigned _ (mem_cons_self) rfl
  simp [part, signature?, thinkingDeltas, filterMap_cons] at hsignature

end Anthropic

section Responses

open Responses

def call : OutputItem :=
  { type := "function_call", callId := some "call_1", id := some "fc_1", name := "now"
    arguments := some "{}" }

def response : RawResponse := ⟨[call], some [("input_tokens", tokens 3)], some "completed"⟩

/-- The deltas of the arguments carry the id of their item, and no `call_id`. -/
def responseEvents : List Event :=
  [.other, .item 0 (.added { call with arguments := some "" }), .item 0 (.argumentsDelta none "{}"),
    .item 0 (.done call), .completed response]

theorem response_legal : Legal response responseEvents where
  shape := by
    refine ⟨[.other, .item 0 (.added { call with arguments := some "" }),
      .item 0 (.argumentsDelta none "{}"), .item 0 (.done call)], _, rfl, .completed rfl, ?_⟩
    simp [Event.item?]
  items := by
    intro index
    rcases index with _ | index
    · have harguments : ArgumentEvents "call_1" [.argumentsDelta none "{}"] "{}" :=
        .delta none "{}" (Or.inl rfl) .nil
      exact ItemStream.functionCall call rfl "call_1" "{}" rfl rfl _ harguments
    · exact ItemStream.none
  order := by
    have hopened : opened (itemEvents responseEvents) = [0] := rfl
    rw [hopened]
    simp
  texts := by
    have htexts : textEvents (itemEvents responseEvents) = [] := rfl
    rw [htexts]
    simp
  callIds := by
    rintro (_ | i) (_ | j) item item' hi hj _ _ _
    · rfl
    · cases hj
    · cases hi
    · cases hi

theorem response_lost : ¬ ∃ s, consumeSdkStream toolJson responseEvents = some s ∧
    s.Returns (parseResponseOutput toolJson response) := by
  rw [returns_iff response_legal]
  rintro ⟨-, -, hnamed⟩
  exact hnamed (0, .argumentsDelta none "{}") (by simp [itemEvents, responseEvents, Event.item?]) rfl

end Responses

section Compat

open Compat

def env : Env where
  toolJson := toolJson
  reasoningAsContent := false
  shortToolId _ := "abcdefghi"
  number
    | .num n => n
    | _ => .nan
  noChoices _ := ⟨none, [], "error", [], none, none⟩
  structuredError _ := none

def choice : Choice := ⟨⟨some "Hi", none, none, [], none⟩, some "stop"⟩

def usage : Option JsonObject := some [("prompt_tokens", tokens 3)]

def lastChunk : Chunk := .choice ⟨none, none, none, [], none⟩ (some "stop") none

/-- The usage comes with the first chunk. -/
def chunks : List Chunk := [.choice ⟨some "Hi", none, none, [], none⟩ none usage, lastChunk]

theorem choice_legal : Legal env choice usage chunks lastChunk where
  ends := rfl
  parsed := by
    intro chunk hchunk
    simp only [chunks, mem_cons, not_mem_nil, or_false] at hchunk
    rcases hchunk with rfl | rfl
    · exact Or.inl ⟨_, rfl⟩
    · exact Or.inl ⟨_, rfl⟩
  usages := by simp [chunks, lastChunk, Chunk.usage]
  content := by simp [Splits, deltas, chunks, lastChunk, Chunk.delta?, choice, String.join_cons]
  reasoningContent := by simp [Splits, deltas, chunks, lastChunk, Chunk.delta?, choice, String.join_cons]
  reasoning := by simp [Splits, deltas, chunks, lastChunk, Chunk.delta?, choice, String.join_cons]
  noReasoningContent := by simp [deltas, chunks, lastChunk, Chunk.delta?]
  finishReason := by
    simp [Given, chunks, lastChunk, Chunk.finishReason?, choice, keep, truthy]
  indexed := by simp [deltas, chunks, lastChunk, Chunk.delta?]
  legacy h := nomatch h
  noLegacy := by simp [deltas, chunks, lastChunk, Chunk.delta?]
  toolCalls := by
    intro _ index
    cases index <;> rfl
  ids := nodup_nil

theorem choice_lost : ¬ (chatStream env chunks).Returns
    (parseResponse env (responseOf choice usage)) := by
  rw [returns_iff choice_legal]
  rintro ⟨-, -, -, husage⟩
  have hlast : extractUsage env lastChunk.usage = [] := rfl
  have hwhole : (extractUsage env usage).length = 3 := rfl
  rw [← husage, hlast] at hwhole
  cases hwhole

end Compat

section Bedrock

open Bedrock

/-- A signed thought whose text is withheld. -/
def converse : RawResponse where
  content := [.reasoningText (String.join []) (some "EqQB"), .text (String.join ["42"])]
  stopReason := some "end_turn"
  usage := none

def converseEvents : List Event :=
  [.block 0 (.delta (.signature "EqQB")), .block 0 .stop, .block 1 (.delta (.text "42")), .block 1 .stop] ++
    [.messageStop (some "end_turn"), .metadata none]

theorem converse_legal : Legal toolJson converse converseEvents where
  shape := ⟨_, rfl, by simp [Event.block?]⟩
  blocks := by
    intro index
    match index with
    | 0 => exact .reasoningText [] (some "EqQB")
    | 1 => exact .text ["42"]
    | _ + 2 => exact .none
  texts := by
    have htexts : deltaEvents contentDelta (blockEvents converseEvents) = [(1, "42")] := rfl
    rw [htexts]
    simp
  thoughts := by
    have hthoughts : deltaEvents reasoningDelta (blockEvents converseEvents) = [] := rfl
    rw [hthoughts]
    simp
  stops := by
    have hstops : (blockEvents converseEvents).filter isStop = [(0, .stop), (1, .stop)] := rfl
    rw [hstops]
    simp

theorem converse_lost : ¬ (chatStream toolJson converseEvents).Returns (parseResponse converse) := by
  rw [returns_iff converse_legal]
  exact fun h => h _ mem_cons_self (some "EqQB") rfl

end Bedrock

/-- The four streams are legal, and none returns its response. -/
theorem four_lost :
    (Anthropic.Legal toolJson message (some ⟨none, none, none, some 5⟩) messageEvents ∧
      ¬ (Anthropic.consumeAnthropicStream toolJson messageEvents).Returns
        (Anthropic.parseResponse toolJson message)) ∧
    (Responses.Legal response responseEvents ∧
      ¬ ∃ s, Responses.consumeSdkStream toolJson responseEvents = some s ∧
        s.Returns (Responses.parseResponseOutput toolJson response)) ∧
    (Compat.Legal env choice usage chunks lastChunk ∧
      ¬ (Compat.chatStream env chunks).Returns
        (Compat.parseResponse env (Compat.responseOf choice usage))) ∧
    (Bedrock.Legal toolJson converse converseEvents ∧
      ¬ (Bedrock.chatStream toolJson converseEvents).Returns (Bedrock.parseResponse converse)) :=
  ⟨⟨message_legal, message_lost⟩, ⟨response_legal, response_lost⟩, ⟨choice_legal, choice_lost⟩,
    ⟨converse_legal, converse_lost⟩⟩

theorem four_return_iff :
    ((Anthropic.consumeAnthropicStream toolJson messageEvents).Returns
        (Anthropic.parseResponse toolJson message) ↔
      (∀ block ∈ message.content, block.type = "thinking" → block.signature.getD "" = "") ∧
      Anthropic.usageOf (some ⟨none, none, none, some 5⟩) = Anthropic.usageOf message.usage) ∧
    ((∃ s, Responses.consumeSdkStream toolJson responseEvents = some s ∧
        s.Returns (Responses.parseResponseOutput toolJson response)) ↔
      response.status = some "completed" ∧ response.usage.isSome = true ∧
      Responses.Named responseEvents) ∧
    ((Compat.chatStream env chunks).Returns
        (Compat.parseResponse env (Compat.responseOf choice usage)) ↔
      Compat.AnswersItself env choice ∧ Compat.ThinksOnce choice chunks ∧
      Compat.CallsInOrder choice chunks ∧
      Compat.extractUsage env lastChunk.usage = Compat.extractUsage env usage) ∧
    ((Bedrock.chatStream toolJson converseEvents).Returns (Bedrock.parseResponse converse) ↔
      Bedrock.NoEmptyThought converse) :=
  streams_return_iff message_legal response_legal choice_legal converse_legal

end Example

end Memmy.Streams.SameResponse
