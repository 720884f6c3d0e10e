import Mathlib.Data.List.Sort
import Memmy.Streams.Response

/-! # The Responses API

`parseResponseOutput` reads a whole response, `consumeSdkStream` the events of a streamed one. The stream
keeps the function calls by the `call_id` of their events; an event of the arguments that carries the id or
the index of its item, but no `call_id`, is kept as a call of its own.

* `toolItems_eq`: the calls that a stream has kept, by call id.
* `returns_iff`: a legal stream returns the response exactly when the response is completed and reports its
  usage, and all events of arguments carry the `call_id`. -/

namespace Memmy.Streams.Responses

open Lib.Channels Lib.JsonValue Streams.Response List Option

/-! ### The whole response -/

structure ContentPart where
  type : String
  text : Option String

structure OutputItem where
  type : String
  content : List ContentPart := []
  summary : List (Option String) := []
  callId : Option String := none
  id : Option String := none
  name : String := ""
  arguments : Option String := none

structure RawResponse where
  output : List OutputItem
  usage : Option JsonObject
  status : Option String

/-- The text of a message; a refusal has none. -/
def messageText (item : OutputItem) : Option String :=
  if item.type = "message" then
    some (String.join ((item.content.filter fun c => c.type = "output_text" || c.text.any (· ≠ "")).map
      fun c => c.text.getD ""))
  else none

def reasoningText (item : OutputItem) : Option String :=
  if item.type = "reasoning" then some (String.join (item.summary.map (·.getD ""))) else none

/-- `` `${call_id ?? "call_0"}|${id ?? "fc_0"}` `` -/
def callRequest (p : ToolJson) (callId id : Option String) (name : String) (arguments : Option String) :
    ToolCallRequest :=
  ⟨callId.getD "call_0" ++ "|" ++ id.getD "fc_0", name, parseToolArguments p (arguments.map .str)⟩

def functionCall (p : ToolJson) (item : OutputItem) : Option ToolCallRequest :=
  if item.type = "function_call" then some (callRequest p item.callId item.id item.name item.arguments)
  else none

/-- `mapFinishReason(status)` -/
def mapFinishReason : Option String → String
  | some "incomplete" => "length"
  | some "failed" => "error"
  | some "cancelled" => "error"
  | _ => "stop"

def countedKeys : List String :=
  ["prompt_tokens", "input_tokens", "completion_tokens", "output_tokens", "total_tokens"]

/-- `a ?? b ?? 0` of the usage. -/
def countOf (usage : JsonObject) (keys : List String) : Json :=
  ((keys.filterMap fun key => JsonObject.get? usage key).find? fun value =>
    match value with
    | .null => false
    | _ => true).getD (tokens 0)

def usageOf (usage : JsonObject) : JsonObject :=
  [("prompt_tokens", countOf usage ["prompt_tokens", "input_tokens"]),
    ("completion_tokens", countOf usage ["completion_tokens", "output_tokens"]),
    ("total_tokens", countOf usage ["total_tokens"])] ++
    usage.filter fun field => field.1 ∉ countedKeys

def parseResponseOutput (p : ToolJson) (data : RawResponse) : LLMResponse where
  content := textOrNull (String.join (data.output.filterMap messageText))
  toolCalls := data.output.filterMap (functionCall p)
  finishReason := mapFinishReason data.status
  usage := usageOf (data.usage.getD [])
  thinkingBlocks := none
  reasoningContent := textOrNull (String.join (data.output.filterMap reasoningText))

/-! ### The stream -/

/-- An event of an item of the output. An event of the arguments carries the `call_id` or does not. -/
inductive ItemEvent where
  | textDelta (delta : String)
  | added (item : OutputItem)
  | argumentsDelta (callId : Option String) (delta : String)
  | argumentsDone (callId : Option String) (arguments : Option String)
  | done (item : OutputItem)

inductive Event where
  | item (outputIndex : ℕ) (event : ItemEvent)
  | completed (response : RawResponse)
  | failed
  | other

structure ToolItem where
  callId : Option String
  id : Option String
  name : String
  arguments : Option String

structure State where
  text : String
  finish : String
  usage : JsonObject
  reasoning : Option String
  /-- The `Map` by `call_id`; the key may be `undefined`. -/
  toolItems : List (Option String × ToolItem)
  deltas : List String

/-- The item that an event of the arguments opens when there is none with its `call_id`. -/
def newItem (callId : Option String) : ToolItem := ⟨callId, some "fc_0", "", none⟩

/-- What an event does to the item of its `call_id`. -/
def changeItem (item : ToolItem) : ItemEvent → ToolItem
  | .textDelta _ => item
  | .added added => ⟨added.callId, added.id, added.name, some (added.arguments.getD "")⟩
  | .argumentsDelta _ delta => { item with arguments := some (item.arguments.getD "" ++ delta) }
  | .argumentsDone _ arguments =>
    { item with arguments := some ((arguments.or item.arguments).getD "") }
  | .done done => ⟨done.callId, done.id, done.name, some ((done.arguments.or item.arguments).getD "")⟩

/-- The `call_id` that an event names, when it is one of a function call. -/
def callKey : ItemEvent → Option (Option String)
  | .textDelta _ => none
  | .added item => if item.type = "function_call" then some item.callId else none
  | .argumentsDelta callId _ => some callId
  | .argumentsDone callId _ => some callId
  | .done item => if item.type = "function_call" then some item.callId else none

def contentDelta : ItemEvent → List String
  | .textDelta delta => [delta]
  | _ => []

/-- `error` and `response.failed` throw. -/
def handleEvent (s : State) : Event → Option State
  | .failed => none
  | .other => some s
  | .item _ event =>
    some { s with
      text := s.text ++ String.join (contentDelta event)
      deltas := s.deltas ++ contentDelta event
      toolItems := match callKey event with
        | none => s.toolItems
        | some key => upsert (newItem key) (changeItem · event) key s.toolItems }
  | .completed response =>
    some { s with
      finish := mapFinishReason response.status
      usage := (response.usage.map usageOf).getD s.usage
      reasoning := textOrNull (String.join (response.output.filterMap reasoningText)) }

def State.empty : State := ⟨"", "stop", [], none, [], []⟩

/-- The call of an item that the stream has kept. -/
def keptCall (p : ToolJson) (item : ToolItem) : ToolCallRequest :=
  callRequest p item.callId item.id item.name item.arguments

/-- `consumeSdkStream` and the response its callers make of the tuple; `none` when it throws. -/
def consumeSdkStream (p : ToolJson) (events : List Event) : Option Streamed :=
  (events.foldlM handleEvent State.empty).map fun s =>
    ⟨⟨textOrNull s.text, s.toolItems.map fun entry => keptCall p entry.2, s.finish, s.usage, none,
      s.reasoning⟩, s.deltas⟩

/-! ### Legal streams -/

/-- The events of the arguments of a call, with the deltas of which they are the whole. -/
inductive ArgumentEvents (callId : String) : List ItemEvent → String → Prop where
  | nil : ArgumentEvents callId [] ""
  | delta {events : List ItemEvent} {arguments : String} (named : Option String) (delta : String)
    (hnamed : named = none ∨ named = some callId) (h : ArgumentEvents callId events arguments) :
    ArgumentEvents callId (events ++ [.argumentsDelta named delta]) (arguments ++ delta)
  | done {events : List ItemEvent} {arguments : String} (named : Option String)
    (hnamed : named = none ∨ named = some callId) (h : ArgumentEvents callId events arguments) :
    ArgumentEvents callId (events ++ [.argumentsDone named (some arguments)]) arguments

/-- The events of one item of the output, or at an index where there is none. -/
inductive ItemStream : Option OutputItem → List ItemEvent → Prop where
  | none : ItemStream none []
  | message (item : OutputItem) (htype : item.type = "message") (deltas : List String)
    (h : messageText item = some (String.join deltas)) :
    ItemStream (some item) (.added { item with content := [] } :: deltas.map .textDelta ++ [.done item])
  | functionCall (item : OutputItem) (htype : item.type = "function_call") (callId arguments : String)
    (hcall : item.callId = some callId) (harguments : item.arguments = some arguments)
    (events : List ItemEvent) (h : ArgumentEvents callId events arguments) :
    ItemStream (some item) (.added { item with arguments := some "" } :: events ++ [.done item])
  | other (item : OutputItem) (htype : item.type ∉ ["message", "function_call"]) :
    ItemStream (some item) [.added item, .done item]

def Event.item? : Event → Option (ℕ × ItemEvent)
  | item outputIndex event => some (outputIndex, event)
  | _ => none

def itemEvents (events : List Event) : List (ℕ × ItemEvent) := events.filterMap Event.item?

/-- The content deltas, each with the index of its item. -/
def textEvents (events : List (ℕ × ItemEvent)) : List (ℕ × String) := deltaEvents contentDelta events

/-- The event that closes a stream tells the status of the response. -/
inductive Closes (response : RawResponse) : Event → Prop where
  | completed (h : response.status = some "completed") : Closes response (.completed response)
  | incomplete (h : response.status = some "incomplete") : Closes response .other
  | failed (h : response.status = some "failed") : Closes response .failed

/-- **A legal stream of a response:** the events of each item in their order, those of different items in
any interleaving, the items and the texts in the order of the output, and the event of its status. -/
structure Legal (response : RawResponse) (events : List Event) : Prop where
  shape : ∃ body last, events = body ++ [last] ∧ Closes response last ∧
    ∀ e ∈ body, e = .other ∨ (Event.item? e).isSome = true
  items : ∀ index, ItemStream response.output[index]? (channel index (itemEvents events))
  order : (opened (itemEvents events)).Pairwise (· < ·)
  texts : (textEvents (itemEvents events)).Pairwise (·.1 ≤ ·.1)
  callIds : ∀ (i j : ℕ) (item item' : OutputItem), response.output[i]? = some item →
    response.output[j]? = some item' → item.type = "function_call" → item'.type = "function_call" →
    item.callId = item'.callId → i = j

/-- All events of arguments carry the `call_id`. -/
def Named (events : List Event) : Prop := ∀ e ∈ itemEvents events, callKey e.2 ≠ some none

/-! ### What the stream keeps -/

/-- The events of function calls, under their `call_id`. -/
def callEvents (events : List (ℕ × ItemEvent)) : List (Option String × ItemEvent) :=
  rekey (fun e => callKey e.2) events

def keptState (events : List (ℕ × ItemEvent)) : State :=
  { State.empty with
    text := String.join ((textEvents events).map (·.2))
    deltas := (textEvents events).map (·.2)
    toolItems := (callEvents events).foldl
      (fun m e => upsert (newItem e.1) (changeItem · e.2) e.1 m) [] }

theorem keptState_snoc (events : List (ℕ × ItemEvent)) (index : ℕ) (event : ItemEvent) :
    handleEvent (keptState events) (.item index event) = some (keptState (events ++ [(index, event)])) := by
  have htext : (textEvents (events ++ [(index, event)])).map (·.2) =
      (textEvents events).map (·.2) ++ contentDelta event := by
    unfold textEvents
    rw [map_snd_deltaEvents, map_snd_deltaEvents, flatMap_append, flatMap_singleton]
  have hcalls : callEvents (events ++ [(index, event)]) =
      callEvents events ++ ((callKey event).map fun k => (k, event)).toList := rekey_snoc _ _ _
  unfold keptState handleEvent
  simp only [htext, hcalls, foldl_append, String.join_append]
  cases callKey event <;> rfl

/-- **What the stream has kept of the items:** their texts, and the calls by their `call_id`. -/
theorem foldlM_body {body : List Event} (h : ∀ e ∈ body, e = .other ∨ (Event.item? e).isSome = true) :
    body.foldlM handleEvent State.empty = some (keptState (itemEvents body)) := by
  induction body using List.reverseRecOn with
  | nil => rfl
  | append_singleton body e ih =>
    have ih := ih fun x hx => h x (mem_append_left _ hx)
    rw [foldlM_append, ih]
    change handleEvent _ e >>= pure = _
    rcases h e (mem_append_right _ (mem_singleton_self e)) with rfl | hitem
    · unfold itemEvents
      rw [filterMap_append]
      exact congrArg some (congrArg keptState (append_nil _).symm)
    · cases e with
      | item index event =>
        rw [keptState_snoc]
        unfold itemEvents
        rw [filterMap_append]
        rfl
      | _ => cases hitem

theorem toolItems_eq (events : List (ℕ × ItemEvent)) :
    (keptState events).toolItems = (opened (callEvents events)).map fun k =>
      (k, (channel k (callEvents events)).foldl changeItem (newItem k)) :=
  foldl_upsert newItem changeItem (callEvents events)

/-! ### One item -/

/-- The `call_id` of an item that is a function call. -/
def itemKey (item : Option OutputItem) : Option (Option String) :=
  item.bind fun item => if item.type = "function_call" then some item.callId else none

variable {events : List ItemEvent} {item : Option OutputItem}

theorem itemStream_none (h : ItemStream none events) : events = [] := by
  cases h
  rfl

theorem itemStream_ne_nil {item : OutputItem} (h : ItemStream (some item) events) : events ≠ [] := by
  cases h <;> simp

variable {event : ItemEvent} {k : Option String}

theorem argument_of_mem {callId arguments : String}
    (h : ArgumentEvents callId events arguments) (he : event ∈ events) :
    contentDelta event = [] ∧ (callKey event = some none ∨ callKey event = some (some callId)) := by
  induction h with
  | nil => exact absurd he not_mem_nil
  | delta named delta hnamed _ ih | done named hnamed _ ih =>
    rcases mem_append.mp he with he | he
    · exact ih he
    · rw [mem_singleton.mp he]
      refine ⟨rfl, ?_⟩
      rcases hnamed with rfl | rfl
      · exact Or.inl rfl
      · exact Or.inr rfl

section
variable (h : ItemStream item events)
include h

theorem callKey_of_stream (he : event ∈ events) : callKey event = some none ∨ callKey event = itemKey item := by
  cases h with
  | none => exact absurd he not_mem_nil
  | message item htype deltas _ =>
    right
    have hkey : itemKey (some item) = none := by simp [itemKey, htype]
    rw [hkey]
    simp only [cons_append, mem_cons, mem_append, List.mem_map, not_mem_nil, or_false] at he
    rcases he with rfl | ⟨delta, -, rfl⟩ | rfl
    · simp [callKey, htype]
    · rfl
    · simp [callKey, htype]
  | functionCall item htype callId arguments hcall _ argumentEvents h =>
    have hkey : itemKey (some item) = some (some callId) := by simp [itemKey, htype, hcall]
    rw [hkey]
    simp only [cons_append, mem_cons, mem_append, not_mem_nil, or_false] at he
    rcases he with rfl | he | rfl
    · exact Or.inr (by simp [callKey, htype, hcall])
    · exact (argument_of_mem h he).2
    · exact Or.inr (by simp [callKey, htype, hcall])
  | other item htype =>
    right
    simp only [mem_cons, not_mem_nil, or_false, not_or] at htype he
    have hkey : itemKey (some item) = none := by simp [itemKey, htype.2]
    rw [hkey]
    rcases he with rfl | rfl
    · simp [callKey, htype.2]
    · simp [callKey, htype.2]

theorem itemKey_ne_none : itemKey item ≠ some none := by
  cases h with
  | none => exact fun hk => nomatch hk
  | functionCall item htype callId arguments hcall _ argumentEvents h => simp [itemKey, htype, hcall]
  | message item htype _ _ => simp [itemKey, htype]
  | other item htype =>
    simp only [mem_cons, not_mem_nil, or_false, not_or] at htype
    simp [itemKey, htype.2]

theorem exists_of_itemKey (hk : itemKey item = some k) : ∃ event ∈ events, callKey event = some k := by
  cases h with
  | none => cases hk
  | functionCall item htype callId arguments hcall _ argumentEvents h =>
    refine ⟨.done item, mem_append_right _ (mem_singleton_self _), ?_⟩
    simpa [itemKey, callKey] using hk
  | message item htype _ _ => simp [itemKey, htype] at hk
  | other item htype =>
    simp only [mem_cons, not_mem_nil, or_false, not_or] at htype
    simp [itemKey, htype.2] at hk

theorem keptCall_of_stream {p : ToolJson} (hk : itemKey item = some k) (start : ToolItem) :
    some (keptCall p (events.foldl changeItem start)) = item.bind (functionCall p) := by
  cases h with
  | none => cases hk
  | functionCall item htype callId arguments hcall harguments argumentEvents h =>
    rw [foldl_append, bind_some, functionCall, if_pos htype, harguments]
    change some (callRequest p item.callId item.id item.name
      (some ((item.arguments.or _).getD ""))) = _
    rw [harguments]
    rfl
  | message item htype _ _ => simp [itemKey, htype] at hk
  | other item htype =>
    simp only [mem_cons, not_mem_nil, or_false, not_or] at htype
    simp [itemKey, htype.2] at hk

end

theorem functionCall_eq_none {p : ToolJson} (h : itemKey item = none) : item.bind (functionCall p) = none := by
  cases item with
  | none => rfl
  | some item =>
    unfold itemKey at h
    rw [bind_some] at h ⊢
    by_cases htype : item.type = "function_call"
    · rw [if_pos htype] at h
      cases h
    · exact if_neg htype

theorem deltas_of_stream (h : ItemStream item events) :
    String.join (events.flatMap contentDelta) = (item.bind messageText).getD "" := by
  cases h with
  | none => rfl
  | message item htype deltas h =>
    have hdeltas : (deltas.map ItemEvent.textDelta).flatMap contentDelta = deltas := by
      rw [flatMap_map]
      exact flatMap_singleton' deltas
    rw [cons_append, flatMap_cons, flatMap_append, hdeltas, bind_some, h]
    exact congrArg String.join (append_nil _)
  | functionCall item htype _ _ _ _ argumentEvents h =>
    have hnone : argumentEvents.flatMap contentDelta = [] :=
      flatMap_eq_nil_iff.mpr fun event he => (argument_of_mem h he).1
    rw [cons_append, flatMap_cons, flatMap_append, hnone, bind_some, messageText, htype]
    rfl
  | other item htype =>
    simp only [mem_cons, not_or] at htype
    rw [bind_some, messageText, if_neg htype.1]
    rfl

/-! ### The whole stream -/

section
variable {k : Option String}

variable {p : ToolJson} {response : RawResponse} {events : List Event}

theorem opened_of_legal (h : Legal response events) :
    opened (itemEvents events) = List.range response.output.length := by
  refine opened_eq_range h.order fun index => ?_
  have hitem := h.items index
  constructor
  · intro hne
    by_contra hle
    rw [getElem?_eq_none (Nat.le_of_not_lt hle)] at hitem
    exact hne (itemStream_none hitem)
  · intro hlt
    rw [getElem?_eq_getElem hlt] at hitem
    exact itemStream_ne_nil hitem

theorem text_of_legal (h : Legal response events) :
    String.join ((textEvents (itemEvents events)).map (·.2)) =
      String.join (response.output.filterMap messageText) := by
  refine join_deltaEvents h.texts (fun index hi => ?_) fun index => deltas_of_stream (h.items index)
  have hitem := h.items index
  rw [getElem?_eq_none hi] at hitem
  exact itemStream_none hitem

/-- The `call_id` of the item at an index. -/
def keyAt (response : RawResponse) (index : ℕ) : Option (Option String) := itemKey response.output[index]?

theorem exists_of_keyAt {index : ℕ} (h : keyAt response index = some k) :
    ∃ item, response.output[index]? = some item ∧ item.type = "function_call" ∧ item.callId = k := by
  obtain ⟨item, hitem, hk⟩ := bind_eq_some_iff.mp h
  by_cases htype : item.type = "function_call"
  · rw [if_pos htype] at hk
    exact ⟨item, hitem, htype, some.inj hk⟩
  · rw [if_neg htype] at hk
    cases hk

theorem keyAt_inj (h : Legal response events) {i j : ℕ}
    (hi : keyAt response i = some k) (hj : keyAt response j = some k) : i = j := by
  obtain ⟨item, hitem, htype, hcall⟩ := exists_of_keyAt hi
  obtain ⟨item', hitem', htype', hcall'⟩ := exists_of_keyAt hj
  exact h.callIds i j item item' hitem hitem' htype htype' (hcall.trans hcall'.symm)

theorem calls_eq (p : ToolJson) (response : RawResponse) :
    response.output.filterMap (functionCall p) =
      (List.range response.output.length).filterMap fun index =>
        response.output[index]?.bind (functionCall p) :=
  (filterMap_range_getElem? _ _).symm

theorem mem_channel {e : ℕ × ItemEvent} (he : e ∈ itemEvents events) : e.2 ∈ channel e.1 (itemEvents events) :=
  mem_map.mpr ⟨e, mem_filter.mpr ⟨he, decide_eq_true rfl⟩, rfl⟩

/-- **With the `call_id` in all events,** the stream returns the calls of the response. -/
theorem calls_of_named (h : Legal response events) (hnamed : Named events) :
    (keptState (itemEvents events)).toolItems.map (fun entry => keptCall p entry.2) =
      response.output.filterMap (functionCall p) := by
  have hkey : ∀ e ∈ itemEvents events, callKey e.2 = keyAt response e.1 := fun e he =>
    (callKey_of_stream (h.items e.1) (mem_channel he)).resolve_left (hnamed e he)
  have hopened : opened (callEvents (itemEvents events)) =
      (List.range response.output.length).filterMap (keyAt response) := by
    rw [← opened_of_legal h]
    exact opened_rekey hkey fun e _ e' _ k hk hk' => keyAt_inj h hk hk'
  rw [toolItems_eq, hopened, List.map_map, map_filterMap, calls_eq]
  refine filterMap_congr fun index _ => ?_
  cases hk : keyAt response index with
  | none => exact (functionCall_eq_none hk).symm
  | some k =>
    have hchannel : channel k (callEvents (itemEvents events)) = channel index (itemEvents events) :=
      channel_rekey hk hkey fun e _ he => keyAt_inj h he hk
    rw [map_some, Function.comp_apply, hchannel]
    exact keptCall_of_stream (h.items index) hk (newItem k)

theorem length_calls_of_not_named (h : Legal response events) (hnamed : ¬ Named events) :
    (response.output.filterMap (functionCall p)).length <
      (keptState (itemEvents events)).toolItems.length := by
  have hnone : none ∈ opened (callEvents (itemEvents events)) := by
    unfold Named at hnamed
    push Not at hnamed
    obtain ⟨e, he, hkey⟩ := hnamed
    refine mem_opened.mpr (mem_map.mpr ⟨(none, e.2), ?_, rfl⟩)
    exact mem_filterMap.mpr ⟨e, he, map_eq_some_iff.mpr ⟨none, hkey, rfl⟩⟩
  have hkeys : ∀ k ∈ (List.range response.output.length).filterMap (keyAt response),
      k ∈ opened (callEvents (itemEvents events)) ∧ k ≠ none := by
    intro k hk
    obtain ⟨index, -, hindex⟩ := mem_filterMap.mp hk
    obtain ⟨event, hevent, hkey⟩ := exists_of_itemKey (h.items index) hindex
    obtain ⟨e, he, rfl⟩ := mem_map.mp hevent
    refine ⟨mem_opened.mpr (mem_map.mpr ⟨(k, e.2), ?_, rfl⟩), ?_⟩
    · exact mem_filterMap.mpr
        ⟨e, (mem_filter.mp he).1, map_eq_some_iff.mpr ⟨k, hkey, rfl⟩⟩
    · rintro rfl
      exact itemKey_ne_none (h.items index) hindex
  have hnodup : (none :: (List.range response.output.length).filterMap (keyAt response)).Nodup := by
    refine nodup_cons.mpr ⟨fun hk => (hkeys none hk).2 rfl, ?_⟩
    exact List.Nodup.filterMap (fun i j k hi hj => keyAt_inj h hi hj) nodup_range
  have hsubset : (none :: (List.range response.output.length).filterMap (keyAt response)) ⊆
      opened (callEvents (itemEvents events)) :=
    cons_subset.mpr ⟨hnone, fun k hk => (hkeys k hk).1⟩
  have hlength := (subperm_of_subset hnodup hsubset).length_le
  have hcount : (response.output.filterMap (functionCall p)).length =
      ((List.range response.output.length).filterMap (keyAt response)).length := by
    rw [calls_eq, length_filterMap_eq_countP, length_filterMap_eq_countP]
    refine countP_congr fun index _ => ?_
    unfold keyAt itemKey
    cases response.output[index]? with
    | none => rfl
    | some item =>
      simp only [bind_some, functionCall]
      by_cases htype : item.type = "function_call"
      · rw [if_pos htype, if_pos htype]
        rfl
      · rw [if_neg htype, if_neg htype]
        rfl
  rw [toolItems_eq, length_map, hcount]
  exact hlength

theorem consume_of_legal (h : Legal response events) :
    ∃ last, Closes response last ∧ events.foldlM handleEvent State.empty =
      handleEvent (keptState (itemEvents events)) last := by
  obtain ⟨body, last, rfl, hlast, hbody⟩ := h.shape
  have hitems : itemEvents (body ++ [last]) = itemEvents body := by
    unfold itemEvents
    rw [filterMap_append]
    cases hlast <;> exact append_nil _
  refine ⟨last, hlast, ?_⟩
  rw [foldlM_append, foldlM_body hbody, hitems]
  change handleEvent _ last >>= pure = _
  rw [bind_pure]

theorem usage_iff (usage : Option JsonObject) :
    (usage.map usageOf).getD [] = usageOf (usage.getD []) ↔ usage.isSome = true := by
  cases usage with
  | none => exact ⟨fun h => (nomatch h), fun h => (nomatch h)⟩
  | some usage => exact ⟨fun _ => rfl, fun _ => rfl⟩

/-- **A legal stream returns the response** exactly when the response is completed and reports its usage, and
all events of arguments carry the `call_id`. -/
theorem returns_iff (h : Legal response events) :
    (∃ s, consumeSdkStream p events = some s ∧ s.Returns (parseResponseOutput p response)) ↔
      response.status = some "completed" ∧ response.usage.isSome = true ∧ Named events := by
  obtain ⟨last, hlast, hfold⟩ := consume_of_legal h
  unfold consumeSdkStream
  rw [hfold]
  cases hlast with
  | failed hstatus =>
    rw [hstatus]
    exact ⟨fun ⟨s, hs, _⟩ => (nomatch hs), fun h => (nomatch h.1)⟩
  | incomplete hstatus =>
    rw [hstatus]
    refine ⟨?_, fun h => nomatch h.1⟩
    rintro ⟨s, hs, heq, -⟩
    obtain rfl := some.inj hs
    have hfinish : "stop" = mapFinishReason response.status := congrArg LLMResponse.finishReason heq
    rw [hstatus] at hfinish
    exact absurd hfinish (by decide)
  | completed hstatus =>
    rw [hstatus]
    constructor
    · rintro ⟨s, hs, heq, -⟩
      obtain rfl := some.inj hs
      refine ⟨rfl, (usage_iff _).mp (congrArg LLMResponse.usage heq), ?_⟩
      by_contra hnamed
      have hcalls : (keptState (itemEvents events)).toolItems.map (fun entry => keptCall p entry.2) =
          response.output.filterMap (functionCall p) := congrArg LLMResponse.toolCalls heq
      have hlength := length_calls_of_not_named (p := p) h hnamed
      rw [← hcalls, length_map] at hlength
      exact lt_irrefl _ hlength
    · rintro ⟨-, husage, hnamed⟩
      have husage' := (usage_iff response.usage).mpr husage
      refine ⟨_, rfl, ?_, ?_⟩
      · change LLMResponse.mk (textOrNull (String.join ((textEvents (itemEvents events)).map (·.2))))
          ((keptState (itemEvents events)).toolItems.map fun entry => keptCall p entry.2)
          (mapFinishReason response.status) ((response.usage.map usageOf).getD []) none
          (textOrNull (String.join (response.output.filterMap reasoningText))) = _
        rw [text_of_legal h, calls_of_named h hnamed, husage']
        rfl
      · exact (textOrNull_getD _).symm

end

end Memmy.Streams.Responses
