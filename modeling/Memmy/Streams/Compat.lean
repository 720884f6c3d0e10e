import Mathlib.Algebra.Order.BigOperators.Group.List
import Memmy.Streams.Response

/-! # The OpenAI-compatible provider

`parseResponse` reads a whole response, `parseChunks` the chunks of a streamed one. The chunks are joined by
the kind of their parts: contents, thoughts, and the fragments of the tool calls by the index they carry. The
calls stand in the order in which their indices came first, and the usage is that of the last chunk.

* `toolBuffers_eq`: the calls that the chunks have collected, by index.
* `returns_iff`: when the chunks of a legal stream return the response. -/

namespace Memmy.Streams.Compat

open Lib.Channels Lib.Text Lib.JsonValue Streams.Response List Option

/-! ### The whole response -/

structure RawToolCall where
  id : Option String
  callId : Option String
  /-- `call.function.name`, else `call.name`. -/
  name : Option String
  /-- `call.function.arguments`, else `call.arguments`. -/
  arguments : Option Json

/-- The `function_call` of the older protocol. -/
structure LegacyCall where
  name : Option String
  arguments : Option String

structure Message where
  content : Option String
  reasoningContent : Option String
  reasoning : Option String
  toolCalls : List RawToolCall
  functionCall : Option LegacyCall

structure Choice where
  message : Message
  finishReason : Option String

structure RawResponse where
  choices : List Choice
  usage : Option JsonObject

/-- A text that is neither missing nor empty. -/
def truthy (text : Option String) : Bool := text.any (· ≠ "")

/-! ### The stream's chunks -/

/-- A part of a tool call. -/
structure Fragment where
  id : Option String
  name : Option String
  arguments : Option String

structure ToolDelta where
  index : Option ℕ
  fragment : Fragment

structure Delta where
  content : Option String
  reasoningContent : Option String
  reasoning : Option String
  toolCalls : List ToolDelta
  functionCall : Option LegacyCall

inductive Chunk where
  | plain (text : String)
  /-- A chunk without choices, with its `content ?? output_text`. -/
  | noChoice (text : Option String) (usage : Option JsonObject)
  | choice (delta : Delta) (finishReason : Option String) (usage : Option JsonObject)

/-- The provider, and what it takes from outside: random ids, `Number(value)`, and the answers to a
response without choices that is an error or a text. -/
structure Env where
  toolJson : ToolJson
  reasoningAsContent : Bool
  shortToolId : ℕ → String
  number : Json → JsNumber
  noChoices : RawResponse → LLMResponse
  structuredError : Chunk → Option LLMResponse

/-- `Number(usage[key] ?? 0)` -/
def countOf (env : Env) (usage : JsonObject) (key : String) : Json :=
  .num (match JsonObject.get? usage key with
    | none => .finite 0
    | some .null => .finite 0
    | some value => env.number value)

/-- The cached tokens, where a number other than zero is found first. -/
def cachedTokens (env : Env) (usage : JsonObject) : Option JsNumber :=
  ([(JsonObject.get? usage "prompt_tokens_details").bind Json.record? |>.bind
      (JsonObject.get? · "cached_tokens"),
    JsonObject.get? usage "cached_tokens",
    JsonObject.get? usage "prompt_cache_hit_tokens"].reduceOption.map env.number).find?
      fun n => n ≠ .finite 0 ∧ n ≠ .nan

def extractUsage (env : Env) : Option JsonObject → JsonObject
  | none => []
  | some usage =>
    let counted := JsonObject.set (JsonObject.set (JsonObject.set usage
      "prompt_tokens" (countOf env usage "prompt_tokens"))
      "completion_tokens" (countOf env usage "completion_tokens"))
      "total_tokens" (countOf env usage "total_tokens")
    match cachedTokens env usage with
    | some cached => JsonObject.set counted "cached_tokens" (.num cached)
    | none => counted

/-- `parseToolCalls(calls)`; the draw of a random id is named by the place of the call. -/
def parseToolCalls (env : Env) (calls : List RawToolCall) : List ToolCallRequest :=
  calls.mapIdx fun i call => ⟨(call.id.or call.callId).getD (env.shortToolId i), call.name.getD "",
    parseToolArguments env.toolJson call.arguments⟩

/-- What has been read of the choices. -/
structure Read where
  content : Option String
  reasoningContent : Option String
  finishReason : String
  rawToolCalls : List RawToolCall

/-- The thought of a choice stands in for its answer; one of a truncated choice does not. -/
def promoted (env : Env) (content : Option String) (finishReason : String) (choice : Choice) : Bool :=
  !truthy content && decide (choice.finishReason.getD finishReason ≠ "length") &&
    truthy choice.message.reasoning && env.reasoningAsContent

def readChoice (env : Env) (r : Read) (choice : Choice) : Read :=
  let msg := choice.message
  let finishReason := if truthy choice.finishReason then choice.finishReason.getD "" else r.finishReason
  let content := if truthy r.content then r.content else msg.content
  { content := if promoted env content finishReason choice then msg.reasoning else content
    reasoningContent :=
      if truthy r.reasoningContent then r.reasoningContent else msg.reasoningContent.or msg.reasoning
    finishReason := finishReason
    rawToolCalls := r.rawToolCalls ++ msg.toolCalls }

def parseResponse (env : Env) (response : RawResponse) : LLMResponse :=
  if response.choices = [] then env.noChoices response
  else
    let r := response.choices.foldl (readChoice env) ⟨none, none, "stop", []⟩
    ⟨r.content, parseToolCalls env r.rawToolCalls, r.finishReason, extractUsage env response.usage, none,
      r.reasoningContent⟩

/-! ### The stream -/

structure Buffer where
  id : String
  name : String
  arguments : String

structure State where
  contentParts : List String
  reasoningParts : List String
  toolBuffers : List (ℕ × Buffer)
  finishReason : String
  usage : JsonObject

/-- A truthy value replaces the one that was kept. -/
def keep (kept : String) (value : Option String) : String :=
  if truthy value then value.getD "" else kept

def changeBuffer (buf : Buffer) (fragment : Fragment) : Buffer where
  id := keep buf.id fragment.id
  name := keep buf.name fragment.name
  arguments := buf.arguments ++ fragment.arguments.getD ""

/-- The fragments of a delta, each with its index; a legacy call is at index 0. -/
def fragmentsOf (delta : Delta) : List (ℕ × Fragment) :=
  (delta.toolCalls.mapIdx fun hint call => (call.index.getD hint, call.fragment)) ++
    (delta.functionCall.map fun call => (0, ⟨none, call.name, call.arguments⟩)).toList

def partOf (text : Option String) : List String := if truthy text then [text.getD ""] else []

/-- A structured error ends the parse. -/
def handleChunk (env : Env) (s : State) (chunk : Chunk) : Except LLMResponse State :=
  match chunk with
  | .plain text => .ok { s with contentParts := s.contentParts ++ [text] }
  | .noChoice text usage =>
    match env.structuredError chunk with
    | some error => .error error
    | none => .ok { s with
      usage := extractUsage env usage
      contentParts := s.contentParts ++ partOf text }
  | .choice delta finishReason usage =>
    .ok {
      finishReason := keep s.finishReason finishReason
      contentParts := s.contentParts ++ partOf delta.content
      reasoningParts := s.reasoningParts ++ partOf (delta.reasoningContent.or delta.reasoning)
      toolBuffers := (fragmentsOf delta).foldl
        (fun m e => upsert ⟨"", "", ""⟩ (changeBuffer · e.2) e.1 m) s.toolBuffers
      usage := extractUsage env usage }

/-- The calls get their ids: one that is missing or that was seen is drawn. -/
def assignIds (env : Env) : List String → ℕ → List Buffer → List ToolCallRequest
  | _, _, [] => []
  | seen, draw, buf :: bufs =>
    let (id, draw) := if buf.id = "" then (env.shortToolId draw, draw + 1) else (buf.id, draw)
    let (id, draw) := if id ∈ seen then (env.shortToolId draw, draw + 1) else (id, draw)
    ⟨id, buf.name, parseToolArguments env.toolJson (some (.str buf.arguments))⟩ ::
      assignIds env (id :: seen) draw bufs

def State.empty : State := ⟨[], [], [], "stop", []⟩

def parseChunks (env : Env) (chunks : List Chunk) : LLMResponse :=
  match chunks.foldlM (handleChunk env) State.empty with
  | .error error => error
  | .ok s =>
    ⟨textOrNull (String.join s.contentParts), assignIds env [] 0 (s.toolBuffers.map (·.2)),
      s.finishReason, s.usage, none, textOrNull (String.join s.reasoningParts)⟩

/-- The content that `chatStream` delivers of a chunk. -/
def deliveredOf : Chunk → List String
  | .choice delta _ _ => partOf delta.content
  | _ => []

def chatStream (env : Env) (chunks : List Chunk) : Streamed :=
  ⟨parseChunks env chunks, chunks.flatMap deliveredOf⟩

/-! ### Legal streams -/

def Chunk.delta? : Chunk → Option Delta
  | choice delta _ _ => some delta
  | _ => none

def Chunk.finishReason? : Chunk → Option String
  | choice _ finishReason _ => finishReason
  | _ => none

def Chunk.usage : Chunk → Option JsonObject
  | plain _ => none
  | noChoice _ usage => usage
  | choice _ _ usage => usage

def deltas (chunks : List Chunk) : List Delta := chunks.filterMap Chunk.delta?

def fragments (chunks : List Chunk) : List (ℕ × Fragment) := (deltas chunks).flatMap fragmentsOf

/-- A text is split at any points. -/
def Splits (text : Option String) (parts : List (Option String)) : Prop :=
  String.join (parts.map (·.getD "")) = text.getD ""

/-- A value is given in one of the parts at least, and nothing else is. -/
def Given (value : String) (parts : List (Option String)) : Prop :=
  (∀ part ∈ parts, truthy part = true → part = some value) ∧ (value ≠ "" → some value ∈ parts)

/-- The fragments of a tool call, or at an index where there is none. -/
def ToolStream (call : Option RawToolCall) (fragments : List Fragment) : Prop :=
  match call with
  | none => fragments = []
  | some call => ∃ id name arguments, id ≠ "" ∧ call.id = some id ∧ call.name = some name ∧
    call.arguments = some (.str arguments) ∧
    Given id (fragments.map (·.id)) ∧ Given name (fragments.map (·.name)) ∧
    String.join (fragments.map fun f => f.arguments.getD "") = arguments

/-- **A legal stream of a response** of one choice: its texts and the arguments of its calls split at any
points, the fragments of the calls in any interleaving, its usage in some of the chunks. -/
structure Legal (env : Env) (choice : Choice) (usage : Option JsonObject) (chunks : List Chunk)
    (last : Chunk) : Prop where
  ends : chunks.getLast? = some last
  parsed : ∀ chunk ∈ chunks, (∃ delta, chunk.delta? = some delta) ∨
    ∃ usage, chunk = .noChoice none usage ∧ env.structuredError chunk = none
  usages : ∀ chunk ∈ chunks, chunk.usage = none ∨ chunk.usage = usage
  content : Splits choice.message.content ((deltas chunks).map (·.content))
  reasoningContent : Splits choice.message.reasoningContent ((deltas chunks).map (·.reasoningContent))
  reasoning : Splits choice.message.reasoning ((deltas chunks).map (·.reasoning))
  noReasoningContent : choice.message.reasoningContent = none →
    ∀ delta ∈ deltas chunks, delta.reasoningContent = none
  finishReason : Given (keep "" choice.finishReason) (chunks.map Chunk.finishReason?)
  indexed : ∀ delta ∈ deltas chunks, ∀ call ∈ delta.toolCalls, call.index.isSome = true
  legacy : choice.message.functionCall.isSome = true →
    choice.message.toolCalls = [] ∧ ∃ delta ∈ deltas chunks, delta.functionCall.isSome = true
  noLegacy : choice.message.functionCall = none → ∀ delta ∈ deltas chunks, delta.functionCall = none
  toolCalls : choice.message.functionCall = none →
    ∀ index, ToolStream choice.message.toolCalls[index]? (channel index (fragments chunks))
  ids : (choice.message.toolCalls.map (·.id)).Nodup

/-! ### What the chunks make -/

/-- The state after chunks that are no error. -/
def chunkState (env : Env) (chunks : List Chunk) : State where
  contentParts := chunks.flatMap deliveredOf
  reasoningParts := (deltas chunks).flatMap fun d => partOf (d.reasoningContent.or d.reasoning)
  toolBuffers := (fragments chunks).foldl (fun m e => upsert ⟨"", "", ""⟩ (changeBuffer · e.2) e.1 m) []
  finishReason := (chunks.map Chunk.finishReason?).foldl keep "stop"
  usage := (chunks.map Chunk.usage).foldl (fun _ usage => extractUsage env usage) []

theorem foldlM_chunks {env : Env} {chunks : List Chunk}
    (h : ∀ chunk ∈ chunks, (∃ delta, chunk.delta? = some delta) ∨
      ∃ usage, chunk = .noChoice none usage ∧ env.structuredError chunk = none) :
    chunks.foldlM (handleChunk env) State.empty = .ok (chunkState env chunks) := by
  induction chunks using List.reverseRecOn with
  | nil => rfl
  | append_singleton chunks chunk ih =>
    have ih := ih fun x hx => h x (mem_append_left _ hx)
    rw [foldlM_append, ih]
    change handleChunk env _ chunk >>= pure = _
    rcases h chunk (mem_append_right _ (mem_singleton_self _)) with
      ⟨delta, hdelta⟩ | ⟨usage, rfl, herror⟩
    · cases chunk with
      | choice d finishReason usage =>
        unfold handleChunk chunkState deltas fragments deltas
        simp [filterMap_append, Chunk.delta?, Chunk.finishReason?, Chunk.usage, deliveredOf]
      | _ => cases hdelta
    · have hnone : List.filterMap Chunk.delta? [.noChoice none usage] = [] := rfl
      unfold handleChunk chunkState deltas fragments deltas
      simp [herror, hnone, filterMap_append, Chunk.delta?, Chunk.finishReason?, Chunk.usage, deliveredOf,
        keep, truthy, partOf]

theorem toolBuffers_eq (env : Env) (chunks : List Chunk) :
    (chunkState env chunks).toolBuffers = (opened (fragments chunks)).map fun index =>
      (index, (channel index (fragments chunks)).foldl changeBuffer ⟨"", "", ""⟩) :=
  foldl_upsert (fun _ => Buffer.mk "" "" "") changeBuffer (fragments chunks)

theorem join_partOf {α : Type*} (f : α → Option String) (l : List α) :
    String.join (l.flatMap fun x => partOf (f x)) = String.join (l.map fun x => (f x).getD "") := by
  rw [join_flatMap]
  refine congrArg String.join (map_congr_left fun x _ => ?_)
  unfold partOf
  cases f x with
  | none => rfl
  | some text =>
    by_cases htext : text = ""
    · simp [truthy, htext]
    · simp [truthy, htext, String.join_cons]

theorem foldl_keep {value : String} : ∀ {parts : List (Option String)} (start : String),
    (∀ part ∈ parts, truthy part = true → part = some value) →
    (value ≠ "" → some value ∈ parts ∨ start = value) →
    parts.foldl keep start = if value = "" then start else value
  | [], start, _, hgiven => by
    by_cases hvalue : value = ""
    · rw [if_pos hvalue]
      rfl
    · rw [if_neg hvalue]
      exact (hgiven hvalue).resolve_left not_mem_nil
  | part :: parts, start, honly, hgiven => by
    obtain ⟨hpart, honly⟩ := forall_mem_cons.mp honly
    rw [foldl_cons]
    by_cases htruthy : truthy part = true
    · have heq := hpart htruthy
      have hvalue : value ≠ "" := by
        rintro rfl
        rw [heq] at htruthy
        cases htruthy
      have hkeep : keep start part = value := by rw [keep, if_pos htruthy, heq]; rfl
      rw [foldl_keep _ honly fun _ => Or.inr hkeep, if_neg hvalue, if_neg hvalue]
    · have hkeep : keep start part = start := if_neg htruthy
      rw [hkeep]
      refine foldl_keep start honly fun hvalue => ?_
      rcases hgiven hvalue with hmem | hstart
      · rcases mem_cons.mp hmem with rfl | hmem
        · exact absurd (by simpa [truthy] using hvalue) htruthy
        · exact Or.inl hmem
      · exact Or.inr hstart

theorem foldl_changeBuffer : ∀ (fragments : List Fragment) (buf : Buffer),
    fragments.foldl changeBuffer buf =
      ⟨(fragments.map (·.id)).foldl keep buf.id, (fragments.map (·.name)).foldl keep buf.name,
        buf.arguments ++ String.join (fragments.map fun f => f.arguments.getD "")⟩
  | [], buf => by simp
  | f :: fragments, buf => by
    rw [foldl_cons, foldl_changeBuffer fragments]
    simp [changeBuffer, String.join_cons, String.append_assoc]

theorem buffer_of_stream {call : RawToolCall} {fragments : List Fragment}
    (h : ToolStream (some call) fragments) : ∃ id name arguments, id ≠ "" ∧ call.id = some id ∧
      call.name = some name ∧ call.arguments = some (.str arguments) ∧
      fragments.foldl changeBuffer ⟨"", "", ""⟩ = ⟨id, name, arguments⟩ := by
  obtain ⟨id, name, arguments, hid, hcallId, hname, harguments, hids, hnames, hjoin⟩ := h
  refine ⟨id, name, arguments, hid, hcallId, hname, harguments, ?_⟩
  rw [foldl_changeBuffer, foldl_keep "" hids.1 fun h => Or.inl (hids.2 h),
    foldl_keep "" hnames.1 fun h => Or.inl (hnames.2 h), hjoin, if_neg hid]
  by_cases hempty : name = ""
  · simp [hempty]
  · simp [hempty]

/-- Ids that are there and differ stay. -/
theorem assignIds_eq (env : Env) : ∀ (bufs : List Buffer) (seen : List String) (draw : ℕ),
    (∀ buf ∈ bufs, buf.id ≠ "" ∧ buf.id ∉ seen) → (bufs.map (·.id)).Nodup →
    assignIds env seen draw bufs = bufs.map fun buf =>
      ⟨buf.id, buf.name, parseToolArguments env.toolJson (some (.str buf.arguments))⟩
  | [], _, _, _, _ => rfl
  | buf :: bufs, seen, draw, h, hnodup => by
    obtain ⟨⟨hne, hseen⟩, h⟩ := forall_mem_cons.mp h
    obtain ⟨hfresh, hnodup⟩ := nodup_cons.mp hnodup
    have htail : ∀ b ∈ bufs, b.id ≠ "" ∧ b.id ∉ buf.id :: seen := by
      intro b hb
      refine ⟨(h b hb).1, fun hmem => ?_⟩
      rcases mem_cons.mp hmem with heq | hmem
      · exact hfresh (mem_map.mpr ⟨b, hb, heq⟩)
      · exact (h b hb).2 hmem
    unfold assignIds
    simp only [if_neg hne, if_neg hseen, map_cons]
    rw [assignIds_eq env bufs _ _ htail hnodup]

theorem length_assignIds (env : Env) : ∀ (bufs : List Buffer) (seen : List String) (draw : ℕ),
    (assignIds env seen draw bufs).length = bufs.length
  | [], _, _ => rfl
  | buf :: bufs, seen, draw => by
    unfold assignIds
    simp only [length_cons, length_assignIds env bufs]

/-! ### The whole stream -/

section

variable {env : Env} {choice : Choice} {usage : Option JsonObject} {chunks : List Chunk} {last : Chunk}

def responseOf (choice : Choice) (usage : Option JsonObject) : RawResponse := ⟨[choice], usage⟩

/-- The answer of a choice is its content, and this is not an empty text. -/
def AnswersItself (env : Env) (choice : Choice) : Prop :=
  promoted env choice.message.content "stop" choice = false ∧ choice.message.content ≠ some ""

/-- The thought of a choice is not an empty text, and where it is under `reasoning_content`, no delta has a
thought under `reasoning` alone. -/
def ThinksOnce (choice : Choice) (chunks : List Chunk) : Prop :=
  choice.message.reasoningContent.or choice.message.reasoning ≠ some "" ∧
  (choice.message.reasoningContent.isSome = true → ∀ delta ∈ deltas chunks,
    delta.reasoningContent = none → delta.reasoning.getD "" = "")

/-- The calls are not of the older protocol, and their indices come in order. -/
def CallsInOrder (choice : Choice) (chunks : List Chunk) : Prop :=
  choice.message.functionCall = none ∧ (opened (fragments chunks)).Pairwise (· < ·)

theorem parseResponse_eq (env : Env) (choice : Choice) (usage : Option JsonObject) :
    parseResponse env (responseOf choice usage) =
      ⟨if promoted env choice.message.content "stop" choice then choice.message.reasoning
        else choice.message.content,
        parseToolCalls env choice.message.toolCalls,
        keep "stop" choice.finishReason, extractUsage env usage, none,
        choice.message.reasoningContent.or choice.message.reasoning⟩ := by
  have hpromoted : promoted env choice.message.content (keep "stop" choice.finishReason) choice =
      promoted env choice.message.content "stop" choice := by
    unfold promoted keep
    cases choice.finishReason <;> rfl
  rw [← hpromoted]
  rfl

theorem chatStream_of_legal (h : Legal env choice usage chunks last) :
    chatStream env chunks =
      ⟨⟨textOrNull (choice.message.content.getD ""),
        assignIds env [] 0 ((chunkState env chunks).toolBuffers.map (·.2)),
        keep "stop" choice.finishReason, extractUsage env last.usage, none,
        textOrNull (String.join ((deltas chunks).map fun d =>
          (d.reasoningContent.or d.reasoning).getD ""))⟩, chunks.flatMap deliveredOf⟩ ∧
    String.join (chunks.flatMap deliveredOf) = choice.message.content.getD "" := by
  have hcontent : String.join (chunks.flatMap deliveredOf) = choice.message.content.getD "" := by
    have hdeltas : chunks.flatMap deliveredOf = (deltas chunks).flatMap fun d => partOf d.content := by
      clear h
      induction chunks with
      | nil => rfl
      | cons chunk chunks ih =>
        cases chunk with
        | choice d finishReason usage => exact congrArg (partOf d.content ++ ·) ih
        | _ => exact ih
    have hsplits := h.content
    unfold Splits at hsplits
    rw [List.map_map] at hsplits
    rw [hdeltas, join_partOf]
    exact hsplits
  have hfinish : (chunks.map Chunk.finishReason?).foldl keep "stop" = keep "stop" choice.finishReason := by
    rw [foldl_keep "stop" h.finishReason.1 fun hne => Or.inl (h.finishReason.2 hne)]
    unfold keep
    by_cases htruthy : truthy choice.finishReason = true
    · rw [if_pos htruthy, if_pos htruthy]
      refine if_neg fun hempty => ?_
      cases hreason : choice.finishReason with
      | none => rw [hreason] at htruthy; cases htruthy
      | some reason =>
        rw [hreason] at htruthy hempty
        exact absurd hempty (by simpa [truthy] using htruthy)
    · rw [if_neg htruthy, if_neg htruthy, if_pos rfl]
  have husage : (chunks.map Chunk.usage).foldl (fun _ usage => extractUsage env usage) [] =
      extractUsage env last.usage := by
    obtain ⟨body, rfl⟩ := getLast?_eq_some_iff.mp h.ends
    rw [map_append, foldl_append]
    rfl
  refine ⟨?_, hcontent⟩
  unfold chatStream parseChunks
  rw [foldlM_chunks h.parsed]
  unfold chunkState
  simp only [hcontent, hfinish, husage, join_partOf]

/-! ### Each part of the response -/

theorem content_iff (env : Env) (choice : Choice) :
    textOrNull (choice.message.content.getD "") =
      (if promoted env choice.message.content "stop" choice then choice.message.reasoning
        else choice.message.content) ↔ AnswersItself env choice := by
  unfold AnswersItself
  by_cases hpromoted : promoted env choice.message.content "stop" choice = true
  · rw [if_pos hpromoted, hpromoted]
    refine ⟨fun heq => ?_, fun h => (nomatch h.1)⟩
    unfold promoted at hpromoted
    simp only [Bool.and_eq_true, Bool.not_eq_true'] at hpromoted
    obtain ⟨⟨⟨hcontent, -⟩, hreasoning⟩, -⟩ := hpromoted
    have hnone : textOrNull (choice.message.content.getD "") = none := by
      cases hmessage : choice.message.content with
      | none => rfl
      | some text =>
        rw [hmessage] at hcontent
        simp only [truthy, any_some, decide_eq_false_iff_not, not_not] at hcontent
        simp [textOrNull, hcontent]
    rw [← heq, hnone] at hreasoning
    cases hreasoning
  · rw [if_neg hpromoted]
    have hfalse : promoted env choice.message.content "stop" choice = false := by simpa using hpromoted
    rw [hfalse]
    exact (textOrNull_eq_iff _).trans ⟨fun h => ⟨rfl, h⟩, And.right⟩

/-- A delta with a thought under `reasoning` alone makes the streamed thought longer. -/
theorem reasoning_ne {text : String} (h : Legal env choice usage chunks last)
    (htext : choice.message.reasoningContent = some text) {delta : Delta} (hdelta : delta ∈ deltas chunks)
    (hnone : delta.reasoningContent = none) (hreasoning : delta.reasoning.getD "" ≠ "") :
    String.join ((deltas chunks).map fun d => (d.reasoningContent.or d.reasoning).getD "") ≠ text := by
  have hsplits : String.join ((deltas chunks).map fun d => d.reasoningContent.getD "") = text := by
    have hsplits := h.reasoningContent
    unfold Splits at hsplits
    rwa [List.map_map, htext] at hsplits
  intro heq
  have hlength := congrArg String.length (heq.trans hsplits.symm)
  rw [String.length_join, String.length_join, List.map_map, List.map_map] at hlength
  refine absurd hlength.symm (ne_of_lt (sum_lt_sum _ _ (fun d _ => ?_) ⟨delta, hdelta, ?_⟩))
  · simp only [Function.comp_apply]
    cases d.reasoningContent with
    | none => exact Nat.zero_le _
    | some text => exact le_refl _
  · simp only [Function.comp_apply, hnone, none_or]
    refine Nat.pos_of_ne_zero fun hzero => hreasoning ?_
    exact String.length_eq_zero_iff.mp hzero

theorem reasoning_iff (h : Legal env choice usage chunks last) :
    textOrNull (String.join ((deltas chunks).map fun d =>
      (d.reasoningContent.or d.reasoning).getD "")) =
      choice.message.reasoningContent.or choice.message.reasoning ↔ ThinksOnce choice chunks := by
  unfold ThinksOnce
  cases hcontent : choice.message.reasoningContent with
  | none =>
    have hsplits : String.join ((deltas chunks).map fun d =>
        (d.reasoningContent.or d.reasoning).getD "") = choice.message.reasoning.getD "" := by
      have hsplits := h.reasoning
      unfold Splits at hsplits
      rw [List.map_map] at hsplits
      rw [← hsplits]
      refine congrArg String.join (map_congr_left fun d hd => ?_)
      rw [h.noReasoningContent hcontent d hd]
      rfl
    rw [hsplits, none_or, textOrNull_eq_iff]
    exact ⟨fun h => ⟨h, fun h => (nomatch h)⟩, And.left⟩
  | some text =>
    by_cases halone : ∀ delta ∈ deltas chunks, delta.reasoningContent = none → delta.reasoning.getD "" = ""
    · have hsplits : String.join ((deltas chunks).map fun d =>
          (d.reasoningContent.or d.reasoning).getD "") = text := by
        have hsplits := h.reasoningContent
        unfold Splits at hsplits
        rw [List.map_map, hcontent] at hsplits
        refine Eq.trans (congrArg String.join (map_congr_left fun d hd => ?_)) hsplits
        simp only [Function.comp_apply]
        cases hd' : d.reasoningContent with
        | none => exact halone d hd hd'
        | some text => rfl
      rw [hsplits]
      exact (textOrNull_eq_iff (some text)).trans ⟨fun h => ⟨h, fun _ => halone⟩, And.left⟩
    · push Not at halone
      obtain ⟨delta, hdelta, hnone, hreasoning⟩ := halone
      refine ⟨fun heq => ?_, fun hthinks => absurd (hthinks.2 rfl delta hdelta hnone) hreasoning⟩
      have hjoin := congrArg (Option.getD · "") heq
      simp only [textOrNull_getD] at hjoin
      exact absurd hjoin (reasoning_ne h hcontent hdelta hnone hreasoning)

/-- The call that the fragments of an index make. -/
def requestAt (env : Env) (chunks : List Chunk) (index : ℕ) : ToolCallRequest :=
  let buf := (channel index (fragments chunks)).foldl changeBuffer ⟨"", "", ""⟩
  ⟨buf.id, buf.name, parseToolArguments env.toolJson (some (.str buf.arguments))⟩

section
variable (h : Legal env choice usage chunks last)
include h

section
variable (hlegacy : choice.message.functionCall = none)
include hlegacy

theorem requestAt_id {index : ℕ} {call : RawToolCall} (hcall : choice.message.toolCalls[index]? = some call) :
    call.id = some (requestAt env chunks index).id ∧ (requestAt env chunks index).id ≠ "" ∧
      call.name = some (requestAt env chunks index).name ∧
      (requestAt env chunks index).arguments = parseToolArguments env.toolJson call.arguments := by
  have hstream := h.toolCalls hlegacy index
  rw [hcall] at hstream
  obtain ⟨id, name, arguments, hid, hcallId, hname, harguments, hbuf⟩ := buffer_of_stream hstream
  unfold requestAt
  rw [hbuf, harguments]
  exact ⟨hcallId, hid, hname, rfl⟩

theorem mem_fragments_iff (index : ℕ) :
    channel index (fragments chunks) ≠ [] ↔ index < choice.message.toolCalls.length := by
  have hstream := h.toolCalls hlegacy index
  constructor
  · intro hne
    by_contra hle
    rw [getElem?_eq_none (Nat.le_of_not_lt hle)] at hstream
    exact hne hstream
  · intro hlt hnil
    rw [getElem?_eq_getElem hlt, hnil] at hstream
    obtain ⟨id, _, _, hid, -, -, -, hids, -⟩ := hstream
    exact not_mem_nil (hids.2 hid)

/-- The calls of the response are those of its indices in order. -/
theorem parseToolCalls_eq : parseToolCalls env choice.message.toolCalls =
      (List.range choice.message.toolCalls.length).map (requestAt env chunks) := by
  refine ext_getElem? fun index => ?_
  unfold parseToolCalls
  rw [getElem?_mapIdx, getElem?_map]
  by_cases hlt : index < choice.message.toolCalls.length
  · obtain ⟨hid, -, hname, harguments⟩ := requestAt_id h hlegacy (getElem?_eq_getElem hlt)
    rw [getElem?_range hlt, getElem?_eq_getElem hlt, map_some, map_some]
    generalize requestAt env chunks index = request at hid hname harguments ⊢
    rw [hid, hname, ← harguments]
    rfl
  · rw [getElem?_eq_none (Nat.le_of_not_lt hlt), getElem?_eq_none (by simpa using hlt)]
    rfl

theorem index_of_request {index : ℕ} (hindex : index < choice.message.toolCalls.length) :
    (choice.message.toolCalls.map (·.id)).idxOf (some (requestAt env chunks index).id) = index := by
  obtain ⟨hid, -⟩ := requestAt_id h hlegacy (getElem?_eq_getElem hindex)
  have hbound : index < (choice.message.toolCalls.map (·.id)).length := by simpa using hindex
  have hget : (choice.message.toolCalls.map (·.id))[index] = some (requestAt env chunks index).id := by
    rw [getElem_map]
    exact hid
  rw [← hget]
  exact h.ids.idxOf_getElem _ _

theorem streamedCalls_eq : assignIds env [] 0 ((chunkState env chunks).toolBuffers.map (·.2)) =
      (opened (fragments chunks)).map (requestAt env chunks) := by
  have hlt : ∀ index ∈ opened (fragments chunks), index < choice.message.toolCalls.length :=
    fun index hindex => (mem_fragments_iff h hlegacy index).mp fun hnil =>
      channel_eq_nil_iff.mp hnil hindex
  rw [toolBuffers_eq, List.map_map]
  refine (assignIds_eq env _ [] 0 (fun buf hbuf => ?_) ?_).trans (by rw [List.map_map]; rfl)
  · obtain ⟨index, hindex, rfl⟩ := mem_map.mp hbuf
    exact ⟨(requestAt_id h hlegacy (getElem?_eq_getElem (hlt index hindex))).2.1, not_mem_nil⟩
  · rw [List.map_map]
    refine (nodup_map_iff_inj_on (nodup_opened _)).mpr fun i hi j hj heq => ?_
    have hi' := index_of_request h hlegacy (hlt i hi)
    have hj' := index_of_request h hlegacy (hlt j hj)
    have heq : (requestAt env chunks i).id = (requestAt env chunks j).id := heq
    rw [heq] at hi'
    exact hi'.symm.trans hj'

end

theorem calls_iff : assignIds env [] 0 ((chunkState env chunks).toolBuffers.map (·.2)) =
      parseToolCalls env choice.message.toolCalls ↔ CallsInOrder choice chunks := by
  unfold CallsInOrder
  cases hlegacy : choice.message.functionCall with
  | some call =>
    refine ⟨fun heq => ?_, fun h => (nomatch h.1)⟩
    obtain ⟨hnil, delta, hdelta, hsome⟩ := h.legacy (by rw [hlegacy]; rfl)
    have hlength := congrArg List.length heq
    rw [length_assignIds, toolBuffers_eq, hnil, List.map_map, length_map] at hlength
    have hmem : (0, _) ∈ fragments chunks := mem_flatMap.mpr ⟨delta, hdelta,
      mem_append_right _ (mem_toList.mpr (map_eq_some_iff.mpr
        ⟨_, eq_some_of_isSome hsome, rfl⟩))⟩
    have hopened : 0 ∈ opened (fragments chunks) := mem_opened.mpr (mem_map.mpr ⟨_, hmem, rfl⟩)
    rw [eq_nil_of_length_eq_zero hlength] at hopened
    exact absurd hopened not_mem_nil
  | none =>
    rw [streamedCalls_eq h hlegacy, parseToolCalls_eq h hlegacy]
    constructor
    · intro heq
      refine ⟨rfl, ?_⟩
      have hback : ∀ l : List ℕ, (∀ i ∈ l, i < choice.message.toolCalls.length) →
          (l.map (requestAt env chunks)).map (fun request =>
            (choice.message.toolCalls.map (·.id)).idxOf (some request.id)) = l := by
        intro l hl
        rw [List.map_map]
        exact (map_congr_left fun i hi => index_of_request h hlegacy (hl i hi)).trans
          (map_id _)
      have hlt : ∀ index ∈ opened (fragments chunks), index < choice.message.toolCalls.length :=
        fun index hindex => (mem_fragments_iff h hlegacy index).mp fun hnil =>
          channel_eq_nil_iff.mp hnil hindex
      rw [← hback _ hlt, heq, hback _ fun i hi => mem_range.mp hi]
      exact pairwise_lt_range
    · rintro ⟨-, hsorted⟩
      rw [opened_eq_range hsorted (mem_fragments_iff h hlegacy)]

/-- **A legal stream returns the response** exactly when the choice answers by a content that is not empty,
thinks once, has its calls in order and reports its usage in the last chunk. -/
theorem returns_iff : (chatStream env chunks).Returns (parseResponse env (responseOf choice usage)) ↔
      AnswersItself env choice ∧ ThinksOnce choice chunks ∧ CallsInOrder choice chunks ∧
      extractUsage env last.usage = extractUsage env usage := by
  obtain ⟨hstream, hdeltas⟩ := chatStream_of_legal h
  unfold Streamed.Returns
  rw [hstream, parseResponse_eq, hdeltas, ← content_iff env choice, ← reasoning_iff h, ← calls_iff h]
  constructor
  · rintro ⟨heq, -⟩
    obtain ⟨hcontent, hcalls, -, husage, -, hreasoning⟩ := LLMResponse.mk.injEq .. ▸ heq
    exact ⟨hcontent, hreasoning, hcalls, husage⟩
  · rintro ⟨hcontent, hreasoning, hcalls, husage⟩
    refine ⟨?_, (textOrNull_getD _).symm⟩
    rw [hcontent, hreasoning, hcalls, husage]

end

end

end Memmy.Streams.Compat
