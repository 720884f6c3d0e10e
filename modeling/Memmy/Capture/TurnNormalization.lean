import Memmy.Capture.Blocks

/-! # What is captured of a completed turn

The request that completes a turn is cleaned of injected memory (`sanitizeTurnCompleteRequest`): texts and
values lose their memory blocks, and the results of recall calls are replaced by a placeholder. The tool
calls are then put together with their results (`normalizeCompleteTurnToolCalls`), by the invocation ids or,
where neither list has any, by position (`matchToolResultIndices`).

* `matchToolResultIndices_iff`: which result is matched to which call.
* `Matched.left_unique`, `Matched.right_unique`: no result is matched to two calls, and no call to two.
* `normalizedCall_congr`: a call is captured by itself and the result matched to it. -/

namespace Memmy.Capture.TurnNormalization

open Lib.JsonValue Lib.Text Capture.ContextTags List Option

/-! ### Reading a record -/

/-- `record[key]` of a value, `none` where it is no record or `undefined`. -/
def field (value : Json) (key : String) : Option Json :=
  value.record?.bind fun record => JsonObject.get? record key

/-- `stringFromRecord`, `{}` standing for what is no record. -/
def stringFromRecord (value : Json) (key : String) : Option String := (field value key).bind Json.str?

/-- `typeof value === "string" && value.trim() ? value : undefined` -/
def nonBlank (value : Option Json) : Option String := (value.bind Json.str?).filter fun s => trim s ≠ ""

def timeFromRecord (value : Json) (key : String) : Option String := nonBlank (field value key)

def errorMessageFromUnknown (value : Option Json) : Option String :=
  match nonBlank value with
  | some s => some (trim s)
  | none => value.bind fun v => stringFromRecord v "message"

def isNullish : Option Json → Bool
  | none => true
  | some .null => true
  | some _ => false

/-- `firstDefined`: the first that is neither `undefined` nor `null`. -/
def firstDefined (values : List (Option Json)) : Option Json :=
  (values.find? fun value => !isNullish value).join

def boolField (value : Json) (key : String) : Option Bool :=
  match field value key with
  | some (.bool b) => some b
  | _ => none

/-! ### Calls and results -/

/-- The keys an invocation id is read from. -/
def invocationIdKeys : List String := ["call_id", "tool_call_id", "toolCallId", "id"]

def toolInvocationId (value : Json) : Option String :=
  invocationIdKeys.findSome? fun key => nonBlank (field value key)

/-- Where the id stands in the other list: `resultsById.get(id)`. -/
def indicesOf (resultIds : List (Option String)) (id : String) : List ℕ :=
  resultIds.zipIdx.filterMap fun p => if p.1 = some id then some p.2 else none

def matchToolResultIndices (toolCalls toolResults : List Json) : List (Option ℕ) :=
  let callIds := toolCalls.map toolInvocationId
  let resultIds := toolResults.map toolInvocationId
  if toolCalls.length = toolResults.length ∧ callIds.all (·.isNone) ∧ resultIds.all (·.isNone) then
    (List.range toolCalls.length).map some
  else
    callIds.map fun callId =>
      match callId with
      | none => none
      | some id =>
        if callIds.count (some id) ≠ 1 then none
        else
          match indicesOf resultIds id with
          | [index] => some index
          | _ => none

/-- `isRecord(value.function) ? value.function : {}` -/
def functionOf (value : Json) : Json :=
  match field value "function" with
  | some (.obj fields) => .obj fields
  | _ => .obj []

def toolNameFromToolCall (value : Json) : Option String :=
  (stringFromRecord value "name").or ((stringFromRecord value "toolName").or
    (stringFromRecord (functionOf value) "name"))

def toolNameFromToolResult (value : Json) : Option String :=
  (stringFromRecord value "name").or ((stringFromRecord value "toolName").or
    (stringFromRecord value "tool_name"))

/-! ### The request -/

/-- `TurnCompleteRequest`: the fields that are cleaned; a list is `none` where the request has no array. -/
structure TurnCompleteRequest where
  query : Option String
  answer : Option String
  toolCalls : Option (List Json)
  toolResults : Option (List Json)

namespace TurnCompleteRequest

/-- `Array.isArray(request.toolCalls) ? request.toolCalls : []` -/
def calls (request : TurnCompleteRequest) : List Json := request.toolCalls.getD []

def results (request : TurnCompleteRequest) : List Json := request.toolResults.getD []

end TurnCompleteRequest

/-- `pairedToolNames.get(index)`: of the calls that the result is matched to, the last one's name counts. -/
def pairedToolName (toolCalls toolResults : List Json) (index : ℕ) : Option String :=
  (((matchToolResultIndices toolCalls toolResults).zip toolCalls).reverse.find? fun p =>
    p.1 = some index).bind fun p => toolNameFromToolCall p.2

def sanitizeCompleteTurnToolResult (value : Json) (pairedToolName : Option String) : Json :=
  let toolName := (toolNameFromToolResult value).or pairedToolName
  if isMemmyRecallToolName toolName then
    .obj ([("name", .str (toolName.getD "")), ("output", .str (memmyRecallToolPlaceholder toolName))] ++
      match toolInvocationId value with
      | some id => [("toolCallId", .str id)]
      | none => [])
  else sanitizeMemmyProtocolValue value

def sanitizeTurnCompleteRequest (request : TurnCompleteRequest) : TurnCompleteRequest where
  query := some (sanitizeMemmyProtocolText (request.query.getD ""))
  answer := some (sanitizeMemmyProtocolText (request.answer.getD ""))
  toolCalls := request.toolCalls.map fun toolCalls => toolCalls.map sanitizeMemmyProtocolValue
  toolResults := request.toolResults.map fun toolResults =>
    toolResults.mapIdx fun index result =>
      sanitizeCompleteTurnToolResult result (pairedToolName request.calls request.results index)

structure ToolCallPayload where
  id : Option String
  name : String
  input : Option Json
  output : Option Json
  status : Option String
  error : Option String
  errorCode : Option String
  success : Option Bool
  startedAt : Option String
  endedAt : Option String
  thinkingBefore : Option String
  assistantTextBefore : Option String

def normalizeCompleteTurnToolCall (value : Json) (pairedResult : Option Json) : Option ToolCallPayload :=
  if value.record?.isNone then none
  else
    match toolNameFromToolCall value with
    | none => none
    | some name =>
      if name = "" then none
      else
        let result : Json := (pairedResult.filter fun r => r.record?.isSome).getD (.obj [])
        let error := (errorMessageFromUnknown (field value "error")).or
          ((errorMessageFromUnknown (field result "error")).or
            (if boolField result "success" = some false then errorMessageFromUnknown (field result "message")
              else none))
        let success : Option Bool := (boolField value "success").or ((boolField result "success").or
          (if error.getD "" ≠ "" then some false else none))
        some {
          id := toolInvocationId value
          name := name
          input := firstDefined [field value "input", field value "args", field value "arguments",
            field (functionOf value) "arguments"]
          output := firstDefined [field value "output", field value "result", field result "output",
            field result "result", field result "content", pairedResult]
          status := (stringFromRecord value "status").or (stringFromRecord result "status")
          error := error
          errorCode := (stringFromRecord value "errorCode").or ((stringFromRecord value "error_code").or
            ((stringFromRecord result "errorCode").or (stringFromRecord result "error_code")))
          success := success
          startedAt := (timeFromRecord value "startedAt").or (timeFromRecord value "started_at")
          endedAt := (timeFromRecord value "endedAt").or (timeFromRecord value "ended_at")
          thinkingBefore := (stringFromRecord value "thinkingBefore").or
            (stringFromRecord value "thinking_before")
          assistantTextBefore := (stringFromRecord value "assistantTextBefore").or
            (stringFromRecord value "assistant_text_before") }

def normalizeCompleteTurnToolResults (request : TurnCompleteRequest) : List Json := request.results

/-- The result that a call is captured with. -/
def matchedResult (toolCalls toolResults : List Json) (i : ℕ) : Option Json :=
  ((matchToolResultIndices toolCalls toolResults)[i]?.join).bind fun j => toolResults[j]?

/-- The call at `index` as it is captured. -/
def normalizedCall (toolCalls toolResults : List Json) (index : ℕ) : Option ToolCallPayload :=
  toolCalls[index]?.bind fun call =>
    normalizeCompleteTurnToolCall call (matchedResult toolCalls toolResults index)

def normalizeCompleteTurnToolCalls (request : TurnCompleteRequest) : List ToolCallPayload :=
  let calls := request.calls
  let results := normalizeCompleteTurnToolResults request
  (List.range calls.length).filterMap (normalizedCall calls results)

/-- What the capture of a completed turn keeps of the request. -/
structure Captured where
  query : String
  answer : String
  toolCalls : List ToolCallPayload
  toolResults : List Json

def capture (request : TurnCompleteRequest) : Captured :=
  let sanitized := sanitizeTurnCompleteRequest request
  { query := sanitized.query.getD ""
    answer := sanitized.answer.getD ""
    toolCalls := normalizeCompleteTurnToolCalls sanitized
    toolResults := normalizeCompleteTurnToolResults sanitized }

/-! ### The matching -/

/-- No invocation id at all in two lists of one length. -/
def Positional (toolCalls toolResults : List Json) : Prop :=
  toolCalls.length = toolResults.length ∧ (∀ call ∈ toolCalls, toolInvocationId call = none) ∧
    ∀ result ∈ toolResults, toolInvocationId result = none

/-- **The result `j` is the one of the call `i`:** by position where there are no ids, else by an id that is
unique on both sides. -/
def Matched (toolCalls toolResults : List Json) (i j : ℕ) : Prop :=
  (Positional toolCalls toolResults ∧ i = j ∧ i < toolCalls.length) ∨
  ∃ id, (toolCalls.map toolInvocationId)[i]? = some (some id) ∧
    (toolCalls.map toolInvocationId).count (some id) = 1 ∧
    (toolResults.map toolInvocationId)[j]? = some (some id) ∧
    (toolResults.map toolInvocationId).count (some id) = 1

variable {toolCalls toolResults : List Json} {id : String}

variable {resultIds : List (Option String)}

theorem mem_indicesOf {j : ℕ} : j ∈ indicesOf resultIds id ↔ resultIds[j]? = some (some id) := by
  unfold indicesOf
  rw [mem_filterMap]
  constructor
  · rintro ⟨⟨x, k⟩, hmem, hif⟩
    have hx := mem_zipIdx_iff_getElem?.mp hmem
    split_ifs at hif with h
    cases hif
    rw [hx, h]
  · exact fun h => ⟨(some id, j), mem_zipIdx_iff_getElem?.mpr h, if_pos rfl⟩

theorem length_indicesOf (resultIds : List (Option String)) (id : String) :
    (indicesOf resultIds id).length = resultIds.count (some id) := by
  suffices h : ∀ k, ((resultIds.zipIdx k).filterMap fun p => if p.1 = some id then some p.2 else none).length =
      resultIds.count (some id) from h 0
  induction resultIds with
  | nil => exact fun _ => rfl
  | cons x resultIds ih =>
    by_cases hx : x = some id
    · simp [hx, ih]
    · simp [hx, ih]

theorem indicesOf_eq_singleton {j : ℕ} :
    indicesOf resultIds id = [j] ↔ resultIds[j]? = some (some id) ∧ resultIds.count (some id) = 1 := by
  rw [← mem_indicesOf, ← length_indicesOf]
  constructor
  · intro h
    rw [h]
    exact ⟨mem_singleton_self _, rfl⟩
  · rintro ⟨hmem, hlen⟩
    obtain ⟨k, hk⟩ := length_eq_one_iff.mp hlen
    rw [hk] at hmem ⊢
    rw [mem_singleton.mp hmem]

theorem positional_iff (toolCalls toolResults : List Json) : Positional toolCalls toolResults ↔
    toolCalls.length = toolResults.length ∧ (toolCalls.map toolInvocationId).all (·.isNone) = true ∧
      (toolResults.map toolInvocationId).all (·.isNone) = true := by
  simp [Positional, List.all_eq_true]

theorem Positional.getElem? (h : Positional toolCalls toolResults) (i : ℕ)
    (id : String) : (toolCalls.map toolInvocationId)[i]? ≠ some (some id) := by
  intro hid
  rw [getElem?_map, map_eq_some_iff] at hid
  obtain ⟨call, hcall, hid⟩ := hid
  rw [h.2.1 call (mem_of_getElem? hcall)] at hid
  cases hid

theorem length_matchToolResultIndices (toolCalls toolResults : List Json) :
    (matchToolResultIndices toolCalls toolResults).length = toolCalls.length := by
  unfold matchToolResultIndices
  simp only
  split_ifs <;> simp

/-- **Which result is matched to which call.** -/
theorem matchToolResultIndices_iff {i j : ℕ} :
    (matchToolResultIndices toolCalls toolResults)[i]? = some (some j) ↔ Matched toolCalls toolResults i j := by
  unfold matchToolResultIndices
  by_cases hpos : Positional toolCalls toolResults
  · rw [if_pos ((positional_iff _ _).mp hpos)]
    rw [getElem?_map, map_eq_some_iff]
    constructor
    · rintro ⟨k, hk, hkj⟩
      obtain ⟨hlt, rfl⟩ := List.getElem?_eq_some_iff.mp hk
      cases hkj
      rw [length_range] at hlt
      exact Or.inl ⟨hpos, by simp, hlt⟩
    · rintro (⟨-, rfl, hlt⟩ | ⟨id, hid, -⟩)
      · exact ⟨i, getElem?_range hlt, rfl⟩
      · exact absurd hid (hpos.getElem? i id)
  · rw [if_neg fun h => hpos ((positional_iff _ _).mpr h), getElem?_map, map_eq_some_iff]
    constructor
    · rintro ⟨callId, hcall, hmatch⟩
      cases callId with
      | none => cases hmatch
      | some id =>
        simp only at hmatch
        by_cases hcount : (toolCalls.map toolInvocationId).count (some id) = 1
        · rw [if_neg (not_not.mpr hcount)] at hmatch
          split at hmatch
          · rename_i index hindex
            cases hmatch
            exact Or.inr ⟨id, hcall, hcount, indicesOf_eq_singleton.mp hindex⟩
          · cases hmatch
        · rw [if_pos hcount] at hmatch
          cases hmatch
    · rintro (⟨h, -⟩ | ⟨id, hcall, hcount, hresult⟩)
      · exact absurd h hpos
      · refine ⟨some id, hcall, ?_⟩
        simp only
        rw [if_neg (not_not.mpr hcount), indicesOf_eq_singleton.mpr hresult]

/-- An id that is there once stands at one place. -/
theorem index_unique {ids : List (Option String)} {i i' : ℕ} (h : ids.count (some id) = 1)
    (hi : ids[i]? = some (some id)) (hi' : ids[i']? = some (some id)) : i = i' := by
  have hsame := (indicesOf_eq_singleton.mpr ⟨hi, h⟩).symm.trans (indicesOf_eq_singleton.mpr ⟨hi', h⟩)
  exact (List.cons.inj hsame).1

/-- **No result is matched to two calls.** -/
theorem Matched.left_unique {i i' j : ℕ}
    (h : Matched toolCalls toolResults i j) (h' : Matched toolCalls toolResults i' j) : i = i' := by
  rcases h with ⟨hpos, hij, -⟩ | ⟨id, hcall, hcount, hresult, -⟩
  · rcases h' with ⟨-, hij', -⟩ | ⟨id', hcall', -⟩
    · exact hij.trans hij'.symm
    · exact absurd hcall' (hpos.getElem? _ _)
  · rcases h' with ⟨hpos, -⟩ | ⟨id', hcall', -, hresult', -⟩
    · exact absurd hcall (hpos.getElem? _ _)
    · obtain rfl : id = id' := by simpa using hresult.symm.trans hresult'
      exact index_unique hcount hcall hcall'

/-- **No call is matched to two results.** -/
theorem Matched.right_unique {i j j' : ℕ}
    (h : Matched toolCalls toolResults i j) (h' : Matched toolCalls toolResults i j') : j = j' := by
  have hj := matchToolResultIndices_iff.mpr h
  rw [matchToolResultIndices_iff.mpr h'] at hj
  simpa using hj.symm

/-- **The value is the result matched to the call `i`.** -/
def IsResultOf (toolCalls toolResults : List Json) (i : ℕ) (value : Json) : Prop :=
  ∃ j, Matched toolCalls toolResults i j ∧ toolResults[j]? = some value

theorem matchedResult_eq_some {i : ℕ} {value : Json} :
    matchedResult toolCalls toolResults i = some value ↔ IsResultOf toolCalls toolResults i value := by
  unfold matchedResult IsResultOf
  rw [bind_eq_some_iff]
  refine exists_congr fun j => and_congr_left' ?_
  rw [← matchToolResultIndices_iff, join_eq_some_iff]

/-- **A call is captured by itself and the one result matched to it,** whatever else the requests contain. -/
theorem normalizedCall_congr {toolCalls' toolResults' : List Json} {i i' : ℕ}
    (hcall : toolCalls[i]? = toolCalls'[i']?)
    (hresult : ∀ value,
      IsResultOf toolCalls toolResults i value ↔ IsResultOf toolCalls' toolResults' i' value) :
    normalizedCall toolCalls toolResults i = normalizedCall toolCalls' toolResults' i' := by
  have hmatched : matchedResult toolCalls toolResults i = matchedResult toolCalls' toolResults' i' := by
    refine Option.ext fun value => ?_
    rw [matchedResult_eq_some, matchedResult_eq_some, hresult]
  unfold normalizedCall
  rw [hcall, hmatched]

end Memmy.Capture.TurnNormalization
