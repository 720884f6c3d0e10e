import Memmy.Lib.JsonValue
import Memmy.Lib.Overlap

/-! # Restoring the checkpoint of an interrupted turn

While a turn runs, the runner keeps in the session's metadata what of it is not among the messages yet:
the assistant message, the results of the tools that finished and the calls that did not
(`AgentRunner.checkpoint`). `restoreRuntimeCheckpoint` rebuilds messages from it, an unfinished call as
an error result, and writes behind the session's messages what they do not already end with.

* `restored_iff`: the restoration keeps, adds and repeats what it should for every session and every
  checkpoint; each declared call has exactly one answer behind the assistant message exactly when no two
  results carry one id (`AnswersDistinct`). It is so behind every copy of the message in the session
  exactly when, besides, no older copy is answered already (`Unanswered`). -/

namespace Memmy.AgentRuntime.Checkpoint

open Lib.JsonValue Lib.Overlap List

/-! ### Messages -/

structure Message where
  role : String
  content : Json := .null
  toolCallId : Option String := none
  name : Option String := none
  toolCalls : Option (List Json) := none
  reasoningContent : Option String := none
  thinkingBlocks : Option (List Json) := none
  finishReason : Option String := none
  internalContext : Option String := none
  timestamp : Option String := none

/-- `value ?? null` of a list. -/
def listOrNull : Option (List Json) → Json
  | none => .null
  | some items => .arr items

/-- What `checkpointMessageKey` compares. -/
structure MessageKey where
  role : String
  content : String
  toolCallId : Option String
  name : Option String
  toolCalls : String
  reasoningContent : Option String
  thinkingBlocks : String
  deriving DecidableEq

/-- `checkpointMessageKey(message)`; `stringify` is `JSON.stringify`. -/
def checkpointMessageKey (stringify : Json → String) (message : Message) : MessageKey where
  role := message.role
  content := stringify message.content
  toolCallId := message.toolCallId
  name := message.name
  toolCalls := stringify (listOrNull message.toolCalls)
  reasoningContent := message.reasoningContent
  thinkingBlocks := stringify (listOrNull message.thinkingBlocks)

/-- `buildAssistantMessage(content, opts)` -/
def buildAssistantMessage (content : Option String) (toolCalls : List Json) (reasoningContent : Option String)
    (thinkingBlocks : Option (List Json)) (finishReason : Option String) : Message where
  role := "assistant"
  content := .str (content.getD "")
  toolCalls := if toolCalls = [] then none else some toolCalls
  reasoningContent := reasoningContent.filter (· ≠ "")
  thinkingBlocks := thinkingBlocks.filter fun blocks => !blocks.isEmpty
  finishReason := finishReason.filter (· ≠ "")

/-! ### What the runner keeps -/

structure ToolCallRequest where
  id : String
  name : String
  /-- The JSON text of the arguments, without credentials. -/
  arguments : String
  extra : JsonObject := []
  functionExtra : JsonObject := []

def ToolCallRequest.toOpenAIToolCall (call : ToolCallRequest) : Json :=
  .obj ([("id", .str call.id), ("type", .str "function"),
    ("function", .obj ([("name", .str call.name), ("arguments", .str call.arguments)] ++ call.functionExtra))]
    ++ call.extra)

structure LLMResponse where
  content : Option String
  toolCalls : List ToolCallRequest
  reasoningContent : Option String
  thinkingBlocks : Option (List Json)
  finishReason : String

/-- `assistantMessage(response)` -/
def assistantMessage (response : LLMResponse) : Message :=
  buildAssistantMessage (some (response.content.getD ""))
    (response.toolCalls.map ToolCallRequest.toOpenAIToolCall) response.reasoningContent
    response.thinkingBlocks (some response.finishReason)

/-- The metadata `runtimeCheckpoint`, as far as it is read again. -/
structure Payload where
  assistantMessage : Option Message
  completedToolResults : List Message
  pendingToolCalls : List Json

/-- The message of a call that was executed. -/
def toolMessage (call : ToolCallRequest) (result : Json) : Message where
  role := "tool"
  content := result
  toolCallId := some call.id
  name := some call.name

/-- **What the runner emits**: each phase with what it is made of. An interrupted batch has for each call
the result, if it was executed; a batch that was not aborted has a result for every call. -/
inductive Emission where
  | awaitingTools (response : LLMResponse)
  | toolsInterrupted (response : LLMResponse) (results : List (Option Json))
  | toolsCompleted (response : LLMResponse) (results : List Json)
      (complete : results.length = response.toolCalls.length)
  | finalResponse (content : Option String) (reasoningContent : Option String)
      (thinkingBlocks : Option (List Json)) (finishReason : Option String)

def executed (calls : List ToolCallRequest) (results : List (Option Json)) : List (ToolCallRequest × Json) :=
  (calls.zip results).filterMap fun item => item.2.map fun result => (item.1, result)

/-- The calls that no result was made for: `!completedIds.has(call.id)`. -/
def unfinished (calls : List ToolCallRequest) (results : List (Option Json)) : List ToolCallRequest :=
  calls.filter fun call => call.id ∉ (executed calls results).map (·.1.id)

def Emission.assistant : Emission → Message
  | awaitingTools response => assistantMessage response
  | toolsInterrupted response _ => assistantMessage response
  | toolsCompleted response _ _ => assistantMessage response
  | finalResponse content reasoningContent thinkingBlocks finishReason =>
    buildAssistantMessage content [] reasoningContent thinkingBlocks finishReason

def Emission.completed : Emission → List (ToolCallRequest × Json)
  | awaitingTools _ => []
  | toolsInterrupted response results => executed response.toolCalls results
  | toolsCompleted response results _ => response.toolCalls.zip results
  | finalResponse .. => []

def Emission.pending : Emission → List ToolCallRequest
  | awaitingTools response => response.toolCalls
  | toolsInterrupted response results => unfinished response.toolCalls results
  | toolsCompleted .. => []
  | finalResponse .. => []

/-- **The payload of an emission.** -/
def Emission.payload (e : Emission) : Payload where
  assistantMessage := some e.assistant
  completedToolResults := e.completed.map fun item => toolMessage item.1 item.2
  pendingToolCalls := e.pending.map ToolCallRequest.toOpenAIToolCall

/-! ### Restoring -/

structure Session where
  messages : List Message
  runtimeCheckpoint : Option Payload := none
  pendingUserTurn : Bool := false
  updatedAt : String

/-- `{ ...message, timestamp: message.timestamp ?? now }` -/
def stamped (now : String) (message : Message) : Message :=
  { message with timestamp := some (message.timestamp.getD now) }

/-- The field `name` of a record, when it is a text. -/
def textField (name : String) (call : JsonObject) : Option String := (JsonObject.get? call name).bind Json.str?

/-- The error result of a call that did not finish. -/
def interrupted (now : String) (call : JsonObject) : Message where
  role := "tool"
  toolCallId := textField "id" call
  name :=
    let function := (JsonObject.get? call "function").bind Json.record?
    some (((function.bind (textField "name")).or (textField "name" call)).getD "tool")
  content := .str "Error: Task interrupted before this tool finished."
  timestamp := some now

/-- The messages that `restoreRuntimeCheckpoint` rebuilds. -/
def restoredMessages (now : String) (checkpoint : Payload) : List Message :=
  checkpoint.assistantMessage.toList.map (stamped now) ++
    checkpoint.completedToolResults.map (stamped now) ++
    (checkpoint.pendingToolCalls.filterMap Json.record?).map (interrupted now)

/-- **`restoreRuntimeCheckpoint(session)`**; `now` is the clock. -/
def restoreRuntimeCheckpoint (stringify : Json → String) (now : String) (session : Session) : Session × Bool :=
  match session.runtimeCheckpoint with
  | none => (session, false)
  | some checkpoint =>
    ({
      messages := join (checkpointMessageKey stringify) session.messages (restoredMessages now checkpoint)
      runtimeCheckpoint := none
      pendingUserTurn := false
      updatedAt := now }, true)

/-! ### What a restoration has to do -/

/-- `setRuntimeCheckpoint(session, payload)` -/
def setRuntimeCheckpoint (session : Session) (payload : Payload) : Session :=
  { session with runtimeCheckpoint := some payload }

def declaredIds (message : Message) : List String :=
  (message.toolCalls.getD []).filterMap fun call => call.record?.bind (textField "id")

def answeredId (message : Message) : Option String := if message.role = "tool" then message.toolCallId else none

/-- Every call that the assistant message declares has exactly one answer among the messages. -/
def Answered (assistant : Message) (messages : List Message) : Prop :=
  ∀ id ∈ declaredIds assistant, (messages.filterMap answeredId).count id = 1

section Restored

variable (stringify : Json → String) (now : String) (session : Session) (e : Emission)

/-- A session with the checkpoint of an emission, restored. -/
def afterwards : Session := (restoreRuntimeCheckpoint stringify now (setRuntimeCheckpoint session e.payload)).1

/-- A message that the checkpoint's assistant message cannot be told from. -/
def Copy (message : Message) : Prop :=
  checkpointMessageKey stringify message = checkpointMessageKey stringify e.assistant

/-- **What a restoration has to do.** -/
structure Restored : Prop where
  kept : session.messages <+: (afterwards stringify now session e).messages
  /-- Only messages of the checkpoint are added. -/
  only : (afterwards stringify now session e).messages.drop session.messages.length <:+
    restoredMessages now e.payload
  /-- None of those that the session ends with. -/
  missing : ∀ n, Overlaps (checkpointMessageKey stringify) session.messages (restoredMessages now e.payload) n →
    (afterwards stringify now session e).messages.drop session.messages.length <:+
      (restoredMessages now e.payload).drop n
  /-- The calls of the assistant message that stands last are answered. -/
  answered : ∃ before assistant after,
    (afterwards stringify now session e).messages = before ++ assistant :: after ∧
      Copy stringify e assistant ∧ (∀ message ∈ after, ¬ Copy stringify e message) ∧
      Answered e.assistant after
  again : ∀ now', (afterwards stringify now' (afterwards stringify now session e) e).messages =
    (afterwards stringify now session e).messages

/-- The calls are answered behind every copy of the assistant message. -/
def AnsweredEverywhere : Prop := ∀ before assistant after,
  (afterwards stringify now session e).messages = before ++ assistant :: after →
    Copy stringify e assistant → Answered e.assistant after

/-- No two results that the checkpoint has or announces carry one id. -/
def Emission.AnswersDistinct : Prop := (e.completed.map (·.1.id) ++ e.pending.map (·.id)).Nodup

/-- **No copy of the assistant message is answered in the session**, except by an end of the session that is
a beginning of the checkpoint's messages. -/
def Unanswered : Prop := ∀ before assistant after, session.messages = before ++ assistant :: after →
  Copy stringify e assistant → ∃ middle tail, assistant :: after = middle ++ tail ∧
    Overlaps (checkpointMessageKey stringify) session.messages (restoredMessages now e.payload) tail.length ∧
    ∀ id ∈ declaredIds e.assistant, id ∉ middle.filterMap answeredId

end Restored

/-! ### The rebuilt messages -/

section Rebuilt
variable {message : Message} {tools : List Message} {calls : List ToolCallRequest}

variable {stringify : Json → String} {now : String} {e : Emission}

/-- The results behind the assistant message. -/
def toolMessages (now : String) (e : Emission) : List Message :=
  e.payload.completedToolResults.map (stamped now) ++
    (e.payload.pendingToolCalls.filterMap Json.record?).map (interrupted now)

open Emission

theorem restoredMessages_payload (now : String) (e : Emission) :
    restoredMessages now e.payload = stamped now e.assistant :: toolMessages now e := by
  simp [restoredMessages, toolMessages, payload]

theorem keys_restoredMessages (now now' : String) (e : Emission) :
    (restoredMessages now e.payload).map (checkpointMessageKey stringify) =
      (restoredMessages now' e.payload).map (checkpointMessageKey stringify) := by
  unfold restoredMessages
  simp only [map_append, map_map]
  rfl

theorem role_assistant (e : Emission) : e.assistant.role = "assistant" := by
  cases e <;> rfl

theorem role_of_mem_toolMessages (h : message ∈ toolMessages now e) : message.role = "tool" := by
  rcases mem_append.mp h with h | h
  · obtain ⟨result, hresult, rfl⟩ := mem_map.mp h
    obtain ⟨item, -, rfl⟩ := mem_map.mp hresult
    rfl
  · obtain ⟨call, -, rfl⟩ := mem_map.mp h
    rfl

theorem answers_congr {messages messages' : List Message}
    (h : messages.map (checkpointMessageKey stringify) = messages'.map (checkpointMessageKey stringify)) :
    messages.filterMap answeredId = messages'.filterMap answeredId := by
  have hmap : ∀ l : List Message, l.filterMap answeredId =
      (l.map (checkpointMessageKey stringify)).filterMap
        fun key : MessageKey => if key.role = "tool" then key.toolCallId else none := by
    intro l
    rw [filterMap_map]
    rfl
  rw [hmap, hmap, h]

theorem role_of_copy (h : Copy stringify e message) : message.role = "assistant" := by
  have hrole : message.role = e.assistant.role := congrArg MessageKey.role h
  rw [hrole, role_assistant]

theorem answeredId_of_copy (h : Copy stringify e message) : answeredId message = none := by
  rw [answeredId, role_of_copy h, if_neg (by decide)]

/-- The messages with the keys of the results are no copies. -/
theorem not_copy_of_key
    (h : tools.map (checkpointMessageKey stringify) = (toolMessages now e).map (checkpointMessageKey stringify))
    (hmem : message ∈ tools) : ¬ Copy stringify e message := by
  intro hcopy
  have hkey : checkpointMessageKey stringify message ∈ (toolMessages now e).map (checkpointMessageKey stringify) :=
    h ▸ mem_map_of_mem hmem
  obtain ⟨result, hresult, heq⟩ := mem_map.mp hkey
  have hrole : result.role = message.role := congrArg MessageKey.role heq
  rw [role_of_mem_toolMessages hresult, role_of_copy hcopy] at hrole
  exact absurd hrole (by decide)

/-! ### Declared and answered ids -/

theorem record?_toOpenAIToolCall (call : ToolCallRequest) :
    (call.toOpenAIToolCall.record?).bind (textField "id") = some call.id := by
  simp [ToolCallRequest.toOpenAIToolCall, Json.record?, textField, JsonObject.get?, Json.str?]

theorem declaredIds_assistantMessage (response : LLMResponse) :
    declaredIds (assistantMessage response) = response.toolCalls.map (·.id) := by
  have hids : ∀ calls : List ToolCallRequest,
      (calls.map ToolCallRequest.toOpenAIToolCall).filterMap
        (fun call => call.record?.bind (textField "id")) = calls.map (·.id) := by
    intro calls
    rw [filterMap_map, ← filterMap_eq_map]
    exact filterMap_congr fun call _ => record?_toOpenAIToolCall call
  by_cases h : response.toolCalls = []
  · simp [declaredIds, assistantMessage, buildAssistantMessage, h]
  · simp only [declaredIds, assistantMessage, buildAssistantMessage, map_eq_nil_iff, if_neg h, Option.getD_some]
    exact hids _

/-- The ids that the results of a checkpoint answer. -/
theorem answers_toolMessages (now : String) (e : Emission) :
    (toolMessages now e).filterMap answeredId = e.completed.map (·.1.id) ++ e.pending.map (·.id) := by
  have hpending : ∀ calls : List ToolCallRequest,
      (((calls.map ToolCallRequest.toOpenAIToolCall).filterMap Json.record?).map (interrupted now)).filterMap
        answeredId = calls.map (·.id) := by
    intro calls
    rw [filterMap_map, filterMap_map, filterMap_filterMap, ← filterMap_eq_map]
    exact filterMap_congr fun call _ => record?_toOpenAIToolCall call
  unfold toolMessages
  rw [filterMap_append, payload, hpending]
  congr 1
  rw [map_map, filterMap_map, ← filterMap_eq_map]
  rfl

theorem mem_executed_or_unfinished (results : List (Option Json)) {id : String} (h : id ∈ calls.map (·.id)) :
    id ∈ (executed calls results).map (·.1.id) ∨ id ∈ (unfinished calls results).map (·.id) := by
  obtain ⟨call, hcall, rfl⟩ := mem_map.mp h
  by_cases hid : call.id ∈ (executed calls results).map (·.1.id)
  · exact Or.inl hid
  · exact Or.inr (mem_map_of_mem (mem_filter.mpr ⟨hcall, by simpa using hid⟩))

theorem mem_calls_of_executed {results : List (Option Json)}
    {item : ToolCallRequest × Json} (h : item ∈ executed calls results) : item.1 ∈ calls := by
  obtain ⟨pair, hpair, hitem⟩ := mem_filterMap.mp h
  obtain ⟨result, -, rfl⟩ := Option.map_eq_some_iff.mp hitem
  exact (of_mem_zip hpair).1

theorem mem_answers_iff (e : Emission) (id : String) :
    id ∈ e.completed.map (·.1.id) ++ e.pending.map (·.id) ↔ id ∈ declaredIds e.assistant := by
  cases e with
  | awaitingTools response =>
    rw [assistant, declaredIds_assistantMessage]
    rfl
  | toolsInterrupted response results =>
    rw [assistant, declaredIds_assistantMessage, mem_append]
    constructor
    · rintro (h | h)
      · obtain ⟨item, hitem, rfl⟩ := mem_map.mp h
        exact mem_map_of_mem (mem_calls_of_executed hitem)
      · obtain ⟨call, hcall, rfl⟩ := mem_map.mp h
        exact mem_map_of_mem (mem_of_mem_filter hcall)
    · exact mem_executed_or_unfinished results
  | toolsCompleted response results complete =>
    rw [assistant, declaredIds_assistantMessage]
    simp only [completed, pending, map_nil, append_nil]
    have hzip : (response.toolCalls.zip results).map (·.1) = response.toolCalls :=
      map_fst_zip (Nat.le_of_eq complete.symm)
    conv_rhs => rw [← hzip, map_map]
    rfl
  | finalResponse content reasoningContent thinkingBlocks finishReason =>
    simp [completed, pending, assistant, declaredIds, buildAssistantMessage]

theorem answered_iff
    (h : tools.map (checkpointMessageKey stringify) = (toolMessages now e).map (checkpointMessageKey stringify)) :
    Answered e.assistant tools ↔ e.AnswersDistinct := by
  unfold Answered Emission.AnswersDistinct
  rw [answers_congr h, answers_toolMessages, nodup_iff_count_eq_one]
  exact forall_congr' fun id => by rw [mem_answers_iff]

end Rebuilt

/-! ### The restored session -/

section Main

variable (stringify : Json → String) (now : String) (session : Session) (e : Emission)

theorem messages_afterwards : (afterwards stringify now session e).messages =
    join (checkpointMessageKey stringify) session.messages (restoredMessages now e.payload) := rfl

theorem afterwards_split : ∃ before saved assistant tools,
    (afterwards stringify now session e).messages = before ++ assistant :: tools ∧
      Copy stringify e assistant ∧
      tools.map (checkpointMessageKey stringify) = (toolMessages now e).map (checkpointMessageKey stringify) ∧
      session.messages = before ++ saved ∧ saved <+: assistant :: tools ∧
      saved.length = overlap (checkpointMessageKey stringify) session.messages
        (restoredMessages now e.payload) := by
  obtain ⟨before, tail, saved, hjoin, hkeys, hsession, hprefix, hlen⟩ :=
    join_split (checkpointMessageKey stringify) session.messages (restoredMessages now e.payload)
  rw [restoredMessages_payload, map_cons] at hkeys
  cases tail with
  | nil => cases hkeys
  | cons assistant tools =>
    rw [map_cons, List.cons.injEq] at hkeys
    exact ⟨before, saved, assistant, tools, hjoin, hkeys.1, hkeys.2, hsession, hprefix, hlen⟩

variable {stringify now session e}

/-- Where the last entry of a kind stands is one place. -/
theorem last_unique {α : Type*} {p : α → Prop} {before before' after after' : List α} {x x' : α}
    (h : before ++ x :: after = before' ++ x' :: after') (hx : p x) (hx' : p x')
    (hafter : ∀ y ∈ after, ¬ p y) (hafter' : ∀ y ∈ after', ¬ p y) : after = after' := by
  rcases append_eq_append_iff.mp h with ⟨between, -, hrest⟩ | ⟨between, -, hrest⟩
  · cases between with
    | nil => exact (List.cons.inj hrest).2
    | cons y between =>
      refine absurd hx' (hafter x' ?_)
      rw [(List.cons.inj hrest).2]
      exact mem_append_right _ mem_cons_self
  · cases between with
    | nil => exact (List.cons.inj hrest).2.symm
    | cons y between =>
      refine absurd hx (hafter' x ?_)
      rw [(List.cons.inj hrest).2]
      exact mem_append_right _ mem_cons_self

theorem restored_of_distinct (h : e.AnswersDistinct) : Restored stringify now session e where
  kept := prefix_append _ _
  only := by
    rw [messages_afterwards, join, drop_left]
    exact drop_suffix _ _
  missing := by
    intro n hn
    rw [messages_afterwards, join, drop_left]
    exact drop_suffix_drop_left _ (le_overlap hn)
  answered := by
    obtain ⟨before, -, assistant, tools, hout, hcopy, hkeys, -⟩ := afterwards_split stringify now session e
    exact ⟨before, assistant, tools, hout, hcopy, fun message => not_copy_of_key hkeys,
      (answered_iff hkeys).mpr h⟩
  again := fun now' => join_join (keys_restoredMessages now' now e)

theorem distinct_of_restored (h : Restored stringify now session e) : e.AnswersDistinct := by
  obtain ⟨before, -, assistant, tools, hout, hcopy, hkeys, -⟩ := afterwards_split stringify now session e
  obtain ⟨before', assistant', after, hout', hcopy', hlast, hanswered⟩ := h.answered
  have hafter : after = tools := last_unique (hout'.symm.trans hout) hcopy' hcopy hlast
    fun message => not_copy_of_key hkeys
  rw [hafter] at hanswered
  exact (answered_iff hkeys).mp hanswered

theorem answered_append {assistant : Message} {middle : List Message}
    (h : Answered assistant tools) : Answered assistant (middle ++ tools) ↔
      ∀ id ∈ declaredIds assistant, id ∉ middle.filterMap answeredId := by
  refine forall₂_congr fun id hid => ?_
  rw [filterMap_append, count_append, h id hid, ← count_eq_zero]
  omega

theorem everywhere_of_unanswered (hdistinct : e.AnswersDistinct) (h : Unanswered stringify now session e) :
    AnsweredEverywhere stringify now session e := by
  obtain ⟨before, saved, assistant, tools, hout, hcopy, hkeys, hsession, -, hsaved⟩ :=
    afterwards_split stringify now session e
  have htools := (answered_iff hkeys).mpr hdistinct
  intro before' copy after hsplit hcopy'
  rcases append_eq_append_iff.mp (hout.symm.trans hsplit) with
    ⟨between, -, hrest⟩ | ⟨between, hbefore, hrest⟩
  · cases between with
    | nil =>
      rw [← (List.cons.inj hrest).2]
      exact htools
    | cons message between =>
      refine absurd hcopy' (not_copy_of_key hkeys ?_)
      rw [(List.cons.inj hrest).2]
      exact mem_append_right _ mem_cons_self
  · cases between with
    | nil =>
      rw [(List.cons.inj hrest).2]
      exact htools
    | cons message between =>
      -- an older copy: what stands between it and the restored one is in the session
      have hmessage : message = copy := (List.cons.inj hrest).1.symm
      have hafter : after = (between ++ [assistant]) ++ tools := by
        rw [append_assoc]
        exact (List.cons.inj hrest).2
      rw [hbefore, hmessage, append_assoc, cons_append] at hsession
      obtain ⟨middle, tail, hmiddle, hoverlap, hnone⟩ := h before' copy _ hsession hcopy'
      have hle := le_overlap hoverlap
      have hlist : copy :: between <+: middle ++ tail := by
        rw [← hmiddle]
        exact prefix_append (copy :: between) saved
      have hprefix : copy :: between <+: middle := by
        refine prefix_of_prefix_length_le hlist (prefix_append _ _) ?_
        have hlen := congrArg List.length hmiddle
        simp only [length_cons, length_append] at hlen ⊢
        omega
      obtain ⟨rest, rfl⟩ := hprefix
      rw [hafter, answered_append htools]
      intro id hid hmem
      refine hnone id hid ?_
      rw [filterMap_append, filterMap_cons_none (answeredId_of_copy hcopy')]
      rw [filterMap_append, filterMap_cons_none (answeredId_of_copy hcopy), filterMap_nil, append_nil] at hmem
      exact mem_append_left _ hmem

theorem unanswered_of_everywhere (hdistinct : e.AnswersDistinct)
    (h : AnsweredEverywhere stringify now session e) : Unanswered stringify now session e := by
  obtain ⟨before, saved, assistant, tools, hout, hcopy, hkeys, hsession, hprefix, hsaved⟩ :=
    afterwards_split stringify now session e
  have htools := (answered_iff hkeys).mpr hdistinct
  have hoverlap := overlap_overlaps (checkpointMessageKey stringify) session.messages
    (restoredMessages now e.payload)
  rw [← hsaved] at hoverlap
  intro before' copy after hsplit hcopy'
  rcases append_eq_append_iff.mp (hsession.symm.trans hsplit) with
    ⟨between, -, hrest⟩ | ⟨between, hbefore, hrest⟩
  · -- the copy is the saved one
    refine ⟨[], copy :: after, rfl, ?_, nofun⟩
    cases between with
    | nil =>
      rw [← nil_append (copy :: after), ← hrest]
      exact hoverlap
    | cons message between =>
      refine absurd hcopy' (not_copy_of_key hkeys ?_)
      rw [hrest, cons_append, cons_prefix_cons] at hprefix
      exact hprefix.2.subset (mem_append_right _ mem_cons_self)
  · cases between with
    | nil =>
      refine ⟨[], copy :: after, rfl, ?_, nofun⟩
      rw [hrest]
      exact hoverlap
    | cons message between =>
      have hmessage : message = copy := (List.cons.inj hrest).1.symm
      rw [hbefore, hmessage, append_assoc, cons_append] at hout
      have hanswered := h before' copy _ hout hcopy'
      have hlist : between ++ assistant :: tools = (between ++ [assistant]) ++ tools := by simp
      rw [hlist, answered_append htools] at hanswered
      refine ⟨copy :: between, saved, ?_, hoverlap, ?_⟩
      · rw [(List.cons.inj hrest).2]
        rfl
      · intro id hid hmem
        refine hanswered id hid ?_
        rw [filterMap_append]
        rw [filterMap_cons_none (answeredId_of_copy hcopy')] at hmem
        exact mem_append_left _ hmem

theorem distinct_of_everywhere (h : AnsweredEverywhere stringify now session e) : e.AnswersDistinct := by
  obtain ⟨before, -, assistant, tools, hout, hcopy, hkeys, -⟩ := afterwards_split stringify now session e
  exact (answered_iff hkeys).mp (h before assistant tools hout hcopy)

variable (stringify now session e)

/-- **When a restoration does what it has to do**: exactly when no two results carry one id. Behind every
copy of the assistant message the calls are then answered once exactly when no older copy is answered. -/
theorem restored_iff : (Restored stringify now session e ↔ e.AnswersDistinct) ∧
    (AnsweredEverywhere stringify now session e ↔ e.AnswersDistinct ∧ Unanswered stringify now session e) :=
  ⟨⟨distinct_of_restored, restored_of_distinct⟩,
    fun h => ⟨distinct_of_everywhere h, unanswered_of_everywhere (distinct_of_everywhere h) h⟩,
    fun h => everywhere_of_unanswered h.1 h.2⟩

/-- Two calls of one id are announced twice. -/
theorem not_restored_twice : ¬ ∀ (stringify : Json → String) (now : String) (session : Session) (e : Emission),
    Restored stringify now session e := by
  intro h
  have hdistinct := distinct_of_restored (h (fun _ => "") "" ⟨[], none, false, ""⟩
    (.awaitingTools ⟨none, [⟨"call_0", "exec", "\x7b\x7d", [], []⟩, ⟨"call_0", "exec", "\x7b\x7d", [], []⟩],
      none, none, "tool_calls"⟩))
  unfold Emission.AnswersDistinct at hdistinct
  exact absurd hdistinct (by decide)

end Main

end Memmy.AgentRuntime.Checkpoint
