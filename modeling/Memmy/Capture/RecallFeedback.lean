import Memmy.Capture.TurnNormalization

/-! # Recalled memory and what is captured

Two requests that complete a turn and differ only in what a recall tool answered, or in the text of memory
blocks, should be captured alike.

* `Varied`: one such difference; `NoFeedback`: no number of them shows in what is captured.
* `sanitize_varied`: a request without recalled output on a call, whose recall results are all replaced, is
  cleaned to the same request after each difference, and stays such a request.
* `noFeedback_iff`: exactly these requests have no feedback, and every call is captured by itself and the one
  result matched to it. -/

namespace Memmy.Capture.RecallFeedback

open Lib.JsonValue Capture.ContextTags Capture.Blocks List Option Bool Function
open Capture.TurnNormalization

/-! ### Outputs of recall calls -/

def IsRecallCall (call : Json) : Prop := isMemmyRecallToolName (toolNameFromToolCall call) = true

/-- Some recall call among the calls has the result matched to it. -/
def MatchedToRecall (toolCalls toolResults : List Json) (j : ℕ) : Prop :=
  ∃ i call, toolCalls[i]? = some call ∧ IsRecallCall call ∧ Matched toolCalls toolResults i j

/-- **The result may be the output of a recall call:** it bears the name of such a tool, is matched to a recall
call, or has no name, is matched to no call, and has no id or that of a recall call. -/
def IsRecallResult (toolCalls toolResults : List Json) (j : ℕ) (result : Json) : Prop :=
  isMemmyRecallToolName (toolNameFromToolResult result) = true ∨
  MatchedToRecall toolCalls toolResults j ∨
  (toolNameFromToolResult result = none ∧ (∀ i, ¬ Matched toolCalls toolResults i j) ∧
    ∃ call ∈ toolCalls, IsRecallCall call ∧
      (toolInvocationId result = none ∨ toolInvocationId result = toolInvocationId call))

/-- The places on a call where its output is read. -/
def outputKeys : List String := ["output", "result"]

/-- **One difference:** in the text of a memory block, in an output that a recall call carries itself, or in the
output that a result holds; ids and names stay. -/
inductive Varied : TurnCompleteRequest → TurnCompleteRequest → Prop
  | query {r : TurnCompleteRequest} {text text' : String} (h : r.query = some text)
      (hvary : BlockStep text.toList text'.toList) : Varied r { r with query := some text' }
  | answer {r : TurnCompleteRequest} {text text' : String} (h : r.answer = some text)
      (hvary : BlockStep text.toList text'.toList) : Varied r { r with answer := some text' }
  | call {r : TurnCompleteRequest} {before after : List Json} {call call' : Json}
      (h : r.toolCalls = some (before ++ call :: after)) (hvary : ValueStep call call')
      (hid : toolInvocationId call' = toolInvocationId call)
      (hname : toolNameFromToolCall call' = toolNameFromToolCall call) :
      Varied r { r with toolCalls := some (before ++ call' :: after) }
  | resultText {r : TurnCompleteRequest} {before after : List Json} {result result' : Json}
      (h : r.toolResults = some (before ++ result :: after)) (hvary : ValueStep result result')
      (hid : toolInvocationId result' = toolInvocationId result)
      (hname : toolNameFromToolResult result' = toolNameFromToolResult result) :
      Varied r { r with toolResults := some (before ++ result' :: after) }
  | inline {r : TurnCompleteRequest} {before after : List Json} {fields : JsonObject} {key : String}
      {output output' : Json} (h : r.toolCalls = some (before ++ .obj fields :: after))
      (hrecall : IsRecallCall (.obj fields)) (hkey : key ∈ outputKeys)
      (hold : JsonObject.get? fields key = some output) (hnull : isNullish (some output) = false)
      (hnull' : isNullish (some output') = false) :
      Varied r { r with toolCalls := some (before ++ .obj (JsonObject.set fields key output') :: after) }
  | result {r : TurnCompleteRequest} {before after : List Json} {result result' : Json}
      (h : r.toolResults = some (before ++ result :: after))
      (hrecall : IsRecallResult r.calls r.results before.length result)
      (hid : toolInvocationId result' = toolInvocationId result)
      (hname : toolNameFromToolResult result' = toolNameFromToolResult result) :
      Varied r { r with toolResults := some (before ++ result' :: after) }

/-- **Recalled memory does not feed back:** what is captured does not show what was recalled. -/
def NoFeedback (r : TurnCompleteRequest) : Prop :=
  ∀ r', Relation.ReflTransGen Varied r r' → capture r' = capture r

/-- **Each call is captured by itself and the one result matched to it.** -/
def OwnResultOnly (r : TurnCompleteRequest) : Prop :=
  let s := sanitizeTurnCompleteRequest r
  (∀ i i' j, Matched s.calls s.results i j → Matched s.calls s.results i' j → i = i') ∧
  (∀ i j j', Matched s.calls s.results i j → Matched s.calls s.results i j' → j = j') ∧
  ∀ r' i i', let s' := sanitizeTurnCompleteRequest r'
    s.calls[i]? = s'.calls[i']? →
    (∀ value, IsResultOf s.calls s.results i value ↔ IsResultOf s'.calls s'.results i' value) →
    normalizedCall s.calls s.results i = normalizedCall s'.calls s'.results i'

/-! ### The condition -/

/-- **No recall call carries its output itself.** -/
def NoInlineOutput (r : TurnCompleteRequest) : Prop :=
  ∀ call ∈ r.calls, IsRecallCall call → ∀ key ∈ outputKeys, isNullish (field call key) = true

/-- The result bears the name of a recall tool, or bears no name and is matched to a recall call. -/
def Replaced (toolCalls toolResults : List Json) (j : ℕ) (result : Json) : Prop :=
  isMemmyRecallToolName (toolNameFromToolResult result) = true ∨
  (toolNameFromToolResult result = none ∧ MatchedToRecall toolCalls toolResults j)

/-- **Whatever may be the output of a recall call is replaced.** -/
def AllReplaced (r : TurnCompleteRequest) : Prop :=
  ∀ j result, r.results[j]? = some result → IsRecallResult r.calls r.results j result →
    Replaced r.calls r.results j result

/-! ### What a difference leaves: ids and names -/

def callFrame (call : Json) : Option String × Option String :=
  (toolInvocationId call, toolNameFromToolCall call)

def resultFrame (result : Json) : Option String × Option String :=
  (toolInvocationId result, toolNameFromToolResult result)

/-- The two requests have the same ids and names at the same places. -/
structure SameFrame (r r' : TurnCompleteRequest) : Prop where
  calls : r'.calls.map callFrame = r.calls.map callFrame
  results : r'.results.map resultFrame = r.results.map resultFrame

variable {result : Json} {toolCalls toolResults : List Json} {r : TurnCompleteRequest}

/-- The matching looks at ids only. -/
theorem matching_congr {toolCalls' toolResults' : List Json}
    (hcalls : toolCalls'.map toolInvocationId = toolCalls.map toolInvocationId)
    (hresults : toolResults'.map toolInvocationId = toolResults.map toolInvocationId) :
    matchToolResultIndices toolCalls' toolResults' = matchToolResultIndices toolCalls toolResults := by
  have hlen : toolCalls'.length = toolCalls.length := by simpa using congrArg List.length hcalls
  have hlen' : toolResults'.length = toolResults.length := by simpa using congrArg List.length hresults
  unfold matchToolResultIndices
  simp only [hcalls, hresults, hlen, hlen']

namespace SameFrame

variable {r r' : TurnCompleteRequest}

theorem symm (h : SameFrame r r') : SameFrame r' r := ⟨h.calls.symm, h.results.symm⟩

theorem callIds (h : SameFrame r r') : r'.calls.map toolInvocationId = r.calls.map toolInvocationId := by
  simpa [comp_def, callFrame] using congrArg (List.map Prod.fst) h.calls

theorem resultIds (h : SameFrame r r') : r'.results.map toolInvocationId = r.results.map toolInvocationId := by
  simpa [comp_def, resultFrame] using congrArg (List.map Prod.fst) h.results

theorem matching (h : SameFrame r r') :
    matchToolResultIndices r'.calls r'.results = matchToolResultIndices r.calls r.results :=
  matching_congr h.callIds h.resultIds

variable {j : ℕ}

section
variable (h : SameFrame r r')
include h

theorem matched {i : ℕ} : Matched r'.calls r'.results i j ↔ Matched r.calls r.results i j := by
  rw [← matchToolResultIndices_iff, ← matchToolResultIndices_iff, h.matching]

theorem call {i : ℕ} {call : Json} (hcall : r.calls[i]? = some call) :
    ∃ call', r'.calls[i]? = some call' ∧ callFrame call' = callFrame call := by
  have hframe := congrArg (fun l => l[i]?) h.calls
  simp only [getElem?_map, hcall, map_some] at hframe
  exact map_eq_some_iff.mp hframe

theorem matchedToRecall (hrecall : MatchedToRecall r.calls r.results j) :
    MatchedToRecall r'.calls r'.results j := by
  obtain ⟨i, call, hcall, hname, hmatched⟩ := hrecall
  obtain ⟨call', hcall', hframe⟩ := h.call hcall
  refine ⟨i, call', hcall', ?_, h.matched.mpr hmatched⟩
  unfold IsRecallCall at hname ⊢
  rwa [show toolNameFromToolCall call' = toolNameFromToolCall call from congrArg Prod.snd hframe]

theorem isRecallResult {result' : Json}
    (hframe : resultFrame result' = resultFrame result) (hrecall : IsRecallResult r.calls r.results j result) :
    IsRecallResult r'.calls r'.results j result' := by
  have hid : toolInvocationId result' = toolInvocationId result := congrArg Prod.fst hframe
  have hname : toolNameFromToolResult result' = toolNameFromToolResult result := congrArg Prod.snd hframe
  unfold IsRecallResult
  rw [hid, hname]
  rcases hrecall with hown | hmatched | ⟨hnone, hfree, call, hcall, hrecall, hids⟩
  · exact Or.inl hown
  · exact Or.inr (Or.inl (h.matchedToRecall hmatched))
  · obtain ⟨i, hi⟩ := mem_iff_getElem?.mp hcall
    obtain ⟨call', hcall', hcallFrame⟩ := h.call hi
    have hfree' : ∀ i, ¬ Matched r'.calls r'.results i j := fun i hm => hfree i (h.matched.mp hm)
    refine Or.inr (Or.inr ⟨hnone, hfree', call', mem_of_getElem? hcall', ?_, ?_⟩)
    · unfold IsRecallCall at hrecall ⊢
      rwa [show toolNameFromToolCall call' = toolNameFromToolCall call from congrArg Prod.snd hcallFrame]
    · rwa [show toolInvocationId call' = toolInvocationId call from congrArg Prod.fst hcallFrame]

theorem replaced {result' : Json}
    (hframe : resultFrame result' = resultFrame result) (hreplaced : Replaced r.calls r.results j result) :
    Replaced r'.calls r'.results j result' := by
  have hname : toolNameFromToolResult result' = toolNameFromToolResult result := congrArg Prod.snd hframe
  unfold Replaced
  rw [hname]
  exact hreplaced.imp_right fun ⟨hnone, hmatched⟩ => ⟨hnone, h.matchedToRecall hmatched⟩

end

end SameFrame

/-! ### The names that results are replaced by -/

variable {call : Json} {fields : JsonObject} {values : List (Option Json)} {r' : TurnCompleteRequest} {j : ℕ}

variable {i : ℕ}

theorem getElem?_zip {index : Option ℕ} :
    ((matchToolResultIndices toolCalls toolResults).zip toolCalls)[i]? = some (index, call) ↔
      (matchToolResultIndices toolCalls toolResults)[i]? = some index ∧ toolCalls[i]? = some call :=
  getElem?_zip_eq_some

theorem pairedToolName_of_matched
    (hcall : toolCalls[i]? = some call) (h : Matched toolCalls toolResults i j) :
    pairedToolName toolCalls toolResults j = toolNameFromToolCall call := by
  unfold pairedToolName
  have hmem := mem_of_getElem? (getElem?_zip.mpr ⟨matchToolResultIndices_iff.mpr h, hcall⟩)
  cases hfind : ((matchToolResultIndices toolCalls toolResults).zip toolCalls).reverse.find? fun p =>
      p.1 = some j with
  | none =>
    have := find?_eq_none.mp hfind _ (mem_reverse.mpr hmem)
    simp at this
  | some p =>
    obtain ⟨index, call'⟩ := p
    have hindex : index = some j := by simpa using find?_some hfind
    obtain ⟨i', hi'⟩ := mem_iff_getElem?.mp (mem_reverse.mp (mem_of_find?_eq_some hfind))
    obtain ⟨hmatch', hcall'⟩ := getElem?_zip.mp hi'
    rw [hindex] at hmatch'
    obtain rfl := (matchToolResultIndices_iff.mp hmatch').left_unique h
    rw [hcall] at hcall'
    cases hcall'
    rfl

theorem pairedToolName_eq_none
    (h : ∀ i, ¬ Matched toolCalls toolResults i j) : pairedToolName toolCalls toolResults j = none := by
  unfold pairedToolName
  rw [bind_eq_none_iff]
  intro p hp
  obtain ⟨index, call⟩ := p
  have hindex : index = some j := by simpa using find?_some hp
  obtain ⟨i, hi⟩ := mem_iff_getElem?.mp (mem_reverse.mp (mem_of_find?_eq_some hp))
  refine absurd (matchToolResultIndices_iff.mp ?_) (h i)
  rw [← hindex]
  exact (getElem?_zip.mp hi).1

theorem isRecall_pairedToolName :
    isMemmyRecallToolName (pairedToolName toolCalls toolResults j) = true ↔
      MatchedToRecall toolCalls toolResults j := by
  by_cases h : ∃ i, Matched toolCalls toolResults i j
  · obtain ⟨i, hi⟩ := h
    have hlen := (List.getElem?_eq_some_iff.mp (matchToolResultIndices_iff.mpr hi)).1
    rw [length_matchToolResultIndices] at hlen
    have hcall := getElem?_eq_getElem hlen
    rw [pairedToolName_of_matched hcall hi]
    constructor
    · exact fun hname => ⟨i, _, hcall, hname, hi⟩
    · rintro ⟨i', call, hcall', hname, hi'⟩
      obtain rfl := hi.left_unique hi'
      rw [hcall] at hcall'
      cases hcall'
      exact hname
  · rw [not_exists] at h
    rw [pairedToolName_eq_none h]
    refine iff_of_false (by decide) ?_
    rintro ⟨i, -, -, -, hi⟩
    exact h i hi

theorem isRecall_or_iff :
    isMemmyRecallToolName ((toolNameFromToolResult result).or (pairedToolName toolCalls toolResults j)) = true ↔
      Replaced toolCalls toolResults j result := by
  unfold Replaced
  cases toolNameFromToolResult result with
  | none =>
    rw [none_or, isRecall_pairedToolName]
    simp [show isMemmyRecallToolName none = false from rfl]
  | some name => simp

theorem SameFrame.pairedToolName (h : SameFrame r r') (j : ℕ) :
    pairedToolName r'.calls r'.results j = pairedToolName r.calls r.results j := by
  by_cases hex : ∃ i, Matched r.calls r.results i j
  · obtain ⟨i, hi⟩ := hex
    have hlen := (List.getElem?_eq_some_iff.mp (matchToolResultIndices_iff.mpr hi)).1
    rw [length_matchToolResultIndices] at hlen
    have hcall := getElem?_eq_getElem hlen
    obtain ⟨call', hcall', hframe⟩ := h.call hcall
    rw [pairedToolName_of_matched hcall hi, pairedToolName_of_matched hcall' (h.matched.mpr hi)]
    exact congrArg Prod.snd hframe
  · rw [not_exists] at hex
    rw [pairedToolName_eq_none hex, pairedToolName_eq_none fun i hi => hex i (h.matched.mp hi)]

/-! ### One difference -/

theorem callFrame_set {key : String} (hkey : key ∈ outputKeys) (output : Json) :
    callFrame (.obj (JsonObject.set fields key output)) = callFrame (.obj fields) := by
  have hfield : ∀ other, other ∉ outputKeys →
      field (.obj (JsonObject.set fields key output)) other = field (.obj fields) other :=
    fun other hother => JsonObject.get?_set_of_ne (fun h => hother (by rwa [h])) output
  have hid : toolInvocationId (.obj (JsonObject.set fields key output)) = toolInvocationId (.obj fields) := by
    unfold toolInvocationId invocationIdKeys
    simp only [findSome?_cons, findSome?_nil, hfield "call_id" (by decide),
      hfield "tool_call_id" (by decide), hfield "toolCallId" (by decide), hfield "id" (by decide)]
  have hname : toolNameFromToolCall (.obj (JsonObject.set fields key output)) =
      toolNameFromToolCall (.obj fields) := by
    unfold toolNameFromToolCall stringFromRecord functionOf
    simp only [hfield "name" (by decide), hfield "toolName" (by decide), hfield "function" (by decide)]
  unfold callFrame
  rw [hid, hname]

theorem sameFrame_of_varied (h : Varied r r') : SameFrame r r' := by
  cases h with
  | query => exact ⟨rfl, rfl⟩
  | answer => exact ⟨rfl, rfl⟩
  | call h _ hid hname =>
    refine ⟨?_, rfl⟩
    simp [TurnCompleteRequest.calls, h, callFrame, hid, hname]
  | resultText h _ hid hname =>
    refine ⟨rfl, ?_⟩
    simp [TurnCompleteRequest.results, h, resultFrame, hid, hname]
  | inline h _ hkey =>
    refine ⟨?_, rfl⟩
    simp [TurnCompleteRequest.calls, h, callFrame_set hkey]
  | result h _ hid hname =>
    refine ⟨rfl, ?_⟩
    simp [TurnCompleteRequest.results, h, resultFrame, hid, hname]

theorem field_sanitize (value : Json) (key : String) :
    field (sanitizeMemmyProtocolValue value) key = (field value key).map sanitizeMemmyProtocolValue := by
  unfold field
  rw [record?_sanitize]
  cases value.record? with
  | none => rfl
  | some record => exact get?_sanitizeFields record key

theorem isNullish_sanitize (value : Option Json) :
    isNullish (value.map sanitizeMemmyProtocolValue) = isNullish value := by
  cases value with
  | none => rfl
  | some j => cases j <;> simp [sanitizeMemmyProtocolValue, isNullish]

theorem NoInlineOutput.of_sanitize (hframe : SameFrame r r')
    (hcalls : r'.calls.map sanitizeMemmyProtocolValue = r.calls.map sanitizeMemmyProtocolValue)
    (h : NoInlineOutput r) : NoInlineOutput r' := by
  intro call' hmem hrecall key hkey
  obtain ⟨i, hi⟩ := mem_iff_getElem?.mp hmem
  obtain ⟨call, hcall, hsame⟩ := hframe.symm.call hi
  have hclean : sanitizeMemmyProtocolValue call' = sanitizeMemmyProtocolValue call := by
    have hat := congrArg (fun l => l[i]?) hcalls
    simpa only [getElem?_map, hi, hcall, map_some, some.injEq] using hat
  have hname : IsRecallCall call := by
    unfold IsRecallCall at hrecall ⊢
    rwa [show toolNameFromToolCall call = toolNameFromToolCall call' from congrArg Prod.snd hsame]
  rw [← isNullish_sanitize, ← field_sanitize, hclean, field_sanitize, isNullish_sanitize]
  exact h call (mem_of_getElem? hcall) hname key hkey

theorem AllReplaced.of_sameFrame (hframe : SameFrame r r') (h : AllReplaced r) : AllReplaced r' := by
  intro j result' hj hrecall
  have hsame := congrArg (fun l => l[j]?) hframe.results
  simp only [getElem?_map, hj, map_some] at hsame
  obtain ⟨result, hresult, hframe'⟩ := map_eq_some_iff.mp hsame.symm
  exact hframe.replaced hframe'.symm (h j result hresult (hframe.symm.isRecallResult hframe' hrecall))

theorem sanitizeResult_congr {result' : Json} {paired : Option String}
    (hid : toolInvocationId result' = toolInvocationId result)
    (hname : toolNameFromToolResult result' = toolNameFromToolResult result)
    (h : isMemmyRecallToolName ((toolNameFromToolResult result).or paired) = true ∨
      sanitizeMemmyProtocolValue result' = sanitizeMemmyProtocolValue result) :
    sanitizeCompleteTurnToolResult result' paired = sanitizeCompleteTurnToolResult result paired := by
  unfold sanitizeCompleteTurnToolResult
  simp only [hid, hname]
  by_cases hrecall : isMemmyRecallToolName ((toolNameFromToolResult result).or paired) = true
  · rw [if_pos hrecall, if_pos hrecall]
  · rw [if_neg hrecall, if_neg hrecall]
    exact h.resolve_left hrecall

/-- The cleaned results of two requests that differ in one result. -/
theorem sanitizedResults_congr {before after : List Json} {result' : Json}
    (h : r.toolResults = some (before ++ result :: after))
    (hframe : SameFrame r { r with toolResults := some (before ++ result' :: after) })
    (hsame : sanitizeCompleteTurnToolResult result' (pairedToolName r.calls r.results before.length) =
      sanitizeCompleteTurnToolResult result (pairedToolName r.calls r.results before.length)) :
    sanitizeTurnCompleteRequest { r with toolResults := some (before ++ result' :: after) } =
      sanitizeTurnCompleteRequest r := by
  unfold sanitizeTurnCompleteRequest
  simp only [h, map_some, hframe.pairedToolName]
  simp only [mapIdx_append, mapIdx_cons, Nat.zero_add, hsame]

/-- **After one difference** a request without recalled output on a call, whose recall results are all
replaced, is cleaned to the same request. -/
theorem sanitize_varied (hinline : NoInlineOutput r) (hreplaced : AllReplaced r)
    (h : Varied r r') : sanitizeTurnCompleteRequest r' = sanitizeTurnCompleteRequest r := by
  have hframe := sameFrame_of_varied h
  cases h with
  | query h hvary =>
    unfold sanitizeTurnCompleteRequest
    simp only [h, getD_some, sanitizeText_of_blockStep hvary]
    rfl
  | answer h hvary =>
    unfold sanitizeTurnCompleteRequest
    simp only [h, getD_some, sanitizeText_of_blockStep hvary]
    rfl
  | call h hvary =>
    have hpaired := hframe.pairedToolName
    unfold sanitizeTurnCompleteRequest
    simp only [h, hpaired, map_some, map_append, map_cons, sanitizeValue_of_valueStep hvary]
  | resultText h hvary hid hname =>
    exact sanitizedResults_congr h hframe
      (sanitizeResult_congr hid hname (Or.inr (sanitizeValue_of_valueStep hvary).symm))
  | inline h hrecall hkey hold hnull =>
    exfalso
    have hnone := hinline _ (by simp [TurnCompleteRequest.calls, h]) hrecall _ hkey
    rw [show field (.obj _) _ = _ from hold, hnull] at hnone
    exact false_ne_true hnone
  | result h hrecall hid hname =>
    refine sanitizedResults_congr h hframe (sanitizeResult_congr hid hname (Or.inl ?_))
    exact isRecall_or_iff.mpr (hreplaced _ _ (by simp [TurnCompleteRequest.results, h]) hrecall)

theorem calls_sanitize (r : TurnCompleteRequest) :
    (sanitizeTurnCompleteRequest r).calls = r.calls.map sanitizeMemmyProtocolValue := by
  unfold sanitizeTurnCompleteRequest TurnCompleteRequest.calls
  cases r.toolCalls <;> rfl

theorem results_sanitize (r : TurnCompleteRequest) :
    (sanitizeTurnCompleteRequest r).results = r.results.mapIdx fun index result =>
      sanitizeCompleteTurnToolResult result (pairedToolName r.calls r.results index) := by
  unfold sanitizeTurnCompleteRequest
  simp only [TurnCompleteRequest.results]
  cases r.toolResults <;> rfl

theorem toolResults_capture (r : TurnCompleteRequest) :
    (capture r).toolResults = (sanitizeTurnCompleteRequest r).results := rfl

theorem noInlineOutput_varied (hinline : NoInlineOutput r)
    (hreplaced : AllReplaced r) (h : Varied r r') : NoInlineOutput r' := by
  refine hinline.of_sanitize (sameFrame_of_varied h) ?_
  have hclean := congrArg TurnCompleteRequest.calls (sanitize_varied hinline hreplaced h)
  rwa [calls_sanitize, calls_sanitize] at hclean

/-- **A request that meets the condition** is captured alike after any number of differences. -/
theorem noFeedback_of (hinline : NoInlineOutput r) (hreplaced : AllReplaced r) : NoFeedback r := by
  intro r' h
  suffices hall : sanitizeTurnCompleteRequest r' = sanitizeTurnCompleteRequest r ∧ NoInlineOutput r' ∧
      AllReplaced r' by
    unfold capture
    rw [hall.1]
  induction h with
  | refl => exact ⟨rfl, hinline, hreplaced⟩
  | tail _ hstep ih =>
    obtain ⟨hclean, hinline', hreplaced'⟩ := ih
    exact ⟨(sanitize_varied hinline' hreplaced' hstep).trans hclean,
      noInlineOutput_varied hinline' hreplaced' hstep, hreplaced'.of_sameFrame (sameFrame_of_varied hstep)⟩

/-! ### A result that is not replaced -/

/-- A result with the id and the name of another and an output of its own. -/
def resultWith (result : Json) (output : String) : Json :=
  .obj ([("output", .str output)] ++
    (match toolInvocationId result with
      | some id => [("call_id", .str id)]
      | none => []) ++
    match toolNameFromToolResult result with
      | some name => [("name", .str name)]
      | none => [])

theorem nonBlank_of_id {id : String} (h : toolInvocationId result = some id) :
    nonBlank (some (.str id)) = some id := by
  obtain ⟨key, -, hkey⟩ := exists_of_findSome?_eq_some h
  obtain ⟨-, hfilter⟩ := filter_eq_some_iff.mp hkey
  exact filter_eq_some_iff.mpr ⟨rfl, hfilter⟩

theorem resultFrame_resultWith (result : Json) (output : String) :
    toolInvocationId (resultWith result output) = toolInvocationId result ∧
    toolNameFromToolResult (resultWith result output) = toolNameFromToolResult result := by
  unfold resultWith
  constructor
  · cases hid : toolInvocationId result with
    | none =>
      cases toolNameFromToolResult result <;>
        simp [toolInvocationId, invocationIdKeys, field, Json.record?, JsonObject.get?, nonBlank]
    | some id =>
      have hkept := nonBlank_of_id hid
      cases toolNameFromToolResult result <;>
        simp [toolInvocationId, invocationIdKeys, field, Json.record?, JsonObject.get?, hkept]
  · cases toolInvocationId result <;> cases toolNameFromToolResult result <;>
      simp [toolNameFromToolResult, stringFromRecord, field, Json.record?, JsonObject.get?, Json.str?]

theorem output_resultWith (result : Json) (output : String) :
    field (sanitizeMemmyProtocolValue (resultWith result output)) "output" =
      some (.str (sanitizeMemmyProtocolText output)) := by
  rw [field_sanitize]
  unfold resultWith
  simp [field, Json.record?, JsonObject.get?, sanitizeMemmyProtocolValue]

/-- Two outputs that are cleaned to two texts. -/
theorem sanitizeText_ne : sanitizeMemmyProtocolText "0" ≠ sanitizeMemmyProtocolText "1" := by decide +kernel

theorem NoFeedback.same {r₀ r₁ : TurnCompleteRequest} (h : NoFeedback r) (h₀ : Varied r r₀)
    (h₁ : Varied r r₁) : capture r₀ = capture r₁ :=
  (h r₀ (Relation.ReflTransGen.single h₀)).trans (h r₁ (Relation.ReflTransGen.single h₁)).symm

/-- The request with another result at `j`. -/
def putResult (r : TurnCompleteRequest) (results : List Json) (j : ℕ) (result : Json) : TurnCompleteRequest :=
  { r with toolResults := some (results.take j ++ result :: results.drop (j + 1)) }

/-- **A recall result that is not replaced shows** in what is captured. -/
theorem allReplaced_of (h : NoFeedback r) : AllReplaced r := by
  intro j result hj hrecall
  by_contra hnot
  cases hresults : r.toolResults with
  | none =>
    unfold TurnCompleteRequest.results at hj
    rw [hresults] at hj
    cases hj
  | some results =>
    have hlist : r.results = results := by
      unfold TurnCompleteRequest.results
      rw [hresults]
      rfl
    rw [hlist] at hj
    obtain ⟨hlt, hget⟩ := List.getElem?_eq_some_iff.mp hj
    have hsplit : results = results.take j ++ result :: results.drop (j + 1) := by
      rw [← hget, getElem_cons_drop, take_append_drop]
    have hlength : (results.take j).length = j := by
      rw [length_take]
      omega
    have hvaried : ∀ output, Varied r (putResult r results j (resultWith result output)) :=
      fun output => .result (hresults.trans (congrArg some hsplit)) (by rwa [hlength])
        (resultFrame_resultWith result output).1 (resultFrame_resultWith result output).2
    have hshown : ∀ output, (capture (putResult r results j (resultWith result output))).toolResults[j]? =
        some (sanitizeMemmyProtocolValue (resultWith result output)) := by
      intro output
      have hframe := sameFrame_of_varied (hvaried output)
      have hclean : sanitizeCompleteTurnToolResult (resultWith result output)
          (pairedToolName r.calls r.results j) = sanitizeMemmyProtocolValue (resultWith result output) := by
        unfold sanitizeCompleteTurnToolResult
        simp only [(resultFrame_resultWith result output).2]
        exact if_neg fun hname => hnot (isRecall_or_iff.mp hname)
      have hat : (results.take j ++ resultWith result output :: results.drop (j + 1))[j]? =
          some (resultWith result output) := by
        rw [getElem?_append_right (by omega), hlength, Nat.sub_self]
        rfl
      rw [toolResults_capture, results_sanitize, getElem?_mapIdx, hframe.pairedToolName]
      rw [← hclean]
      exact congrArg (Option.map _) hat
    have hsame := h.same (hvaried "0") (hvaried "1")
    have hoff := (hshown "0").symm.trans ((congrArg (fun c => c.toolResults[j]?) hsame).trans (hshown "1"))
    have hfield := congrArg (fun v => field v "output") (some.inj hoff)
    simp only [output_resultWith, some.injEq, Json.str.injEq] at hfield
    exact sanitizeText_ne hfield

/-! ### An output that a call carries -/

theorem stringFromRecord_sanitize (value : Json) (key : String) :
    stringFromRecord (sanitizeMemmyProtocolValue value) key =
      (stringFromRecord value key).map sanitizeMemmyProtocolText := by
  unfold stringFromRecord
  rw [field_sanitize]
  cases field value key with
  | none => rfl
  | some j => exact str?_sanitize j

theorem functionOf_sanitize (value : Json) :
    functionOf (sanitizeMemmyProtocolValue value) = sanitizeMemmyProtocolValue (functionOf value) := by
  unfold functionOf
  rw [field_sanitize]
  cases field value "function" with
  | none => simp [sanitizeMemmyProtocolValue, sanitizeFields]
  | some j => cases j <;> simp [sanitizeMemmyProtocolValue, sanitizeFields]

theorem toolNameFromToolCall_sanitize (call : Json) : toolNameFromToolCall (sanitizeMemmyProtocolValue call) =
    (toolNameFromToolCall call).map sanitizeMemmyProtocolText := by
  unfold toolNameFromToolCall
  rw [functionOf_sanitize]
  simp only [stringFromRecord_sanitize]
  cases stringFromRecord call "name" <;> cases stringFromRecord call "toolName" <;> rfl

theorem sanitize_set (fields : JsonObject) (key : String) (output : Json) :
    sanitizeMemmyProtocolValue (.obj (JsonObject.set fields key output)) =
      .obj (JsonObject.set (sanitizeFields fields) key (sanitizeMemmyProtocolValue output)) := by
  rw [sanitizeMemmyProtocolValue, sanitizeFields_eq, sanitizeFields_eq]
  congr 1
  have hhas : JsonObject.has (fields.map fun f => (f.1, sanitizeMemmyProtocolValue f.2)) key =
      JsonObject.has fields key := by
    simp [JsonObject.has, comp_def]
  unfold JsonObject.set
  rw [hhas]
  split_ifs
  · rw [List.map_map, List.map_map]
    refine map_congr_left fun f _ => ?_
    simp only [comp_apply]
    split_ifs <;> rfl
  · rw [map_append, map_cons, map_nil]

theorem IsRecallCall.name (h : IsRecallCall call) :
    ∃ name, toolNameFromToolCall (sanitizeMemmyProtocolValue call) = some name ∧ name ≠ "" := by
  have hclean : ∀ name ∈ ["memmy_memory_search", "memmy_memory_get"],
      sanitizeMemmyProtocolText name = name ∧ name ≠ "" := by decide +kernel
  unfold IsRecallCall isMemmyRecallToolName at h
  rw [toolNameFromToolCall_sanitize]
  rcases or_eq_true _ _ ▸ h with h | h
  all_goals
    rw [of_decide_eq_true h, map_some]
    refine ⟨_, rfl, ?_⟩
    exact (hclean _ (by decide)).2

theorem firstDefined_of_nullish {value : Option Json} (h : isNullish value = true) :
    firstDefined (value :: values) = firstDefined values := by
  unfold firstDefined
  rw [find?_cons, h]
  rfl

theorem firstDefined_of_some {value : Json} (h : isNullish (some value) = false) :
    firstDefined (some value :: values) = some value := by
  unfold firstDefined
  rw [find?_cons, h]
  rfl

theorem normalizeCall_output {name : String} (paired : Option Json)
    (hname : toolNameFromToolCall call = some name) (hne : name ≠ "") :
    ∃ payload rest, normalizeCompleteTurnToolCall call paired = some payload ∧
      payload.output = firstDefined (field call "output" :: field call "result" :: rest) := by
  have hrecord : call.record?.isNone = false := by
    cases call with
    | obj fields => rfl
    | _ => cases hname
  unfold normalizeCompleteTurnToolCall
  rw [if_neg (by rw [hrecord]; exact false_ne_true), hname]
  simp only
  rw [if_neg hne]
  exact ⟨_, _, rfl, rfl⟩

/-- Two lists of what is kept agree only where each answer does. -/
theorem filterMap_injOn {α β : Type} {f g : α → Option β} : ∀ {l : List α},
    (∀ a ∈ l, (f a).isSome = (g a).isSome) → l.filterMap f = l.filterMap g → ∀ a ∈ l, f a = g a
  | [], _, _, a, ha => absurd ha not_mem_nil
  | b :: l, hsome, heq, a, ha => by
    have hb := hsome b mem_cons_self
    have hrest : ∀ a ∈ l, (f a).isSome = (g a).isSome := fun a ha => hsome a (mem_cons_of_mem _ ha)
    cases hf : f b with
    | none =>
      rw [hf, isSome_none, eq_comm, isSome_eq_false_iff, isNone_iff_eq_none] at hb
      rw [filterMap_cons_none hf, filterMap_cons_none hb] at heq
      rcases mem_cons.mp ha with rfl | ha
      · rw [hf, hb]
      · exact filterMap_injOn hrest heq a ha
    | some x =>
      rw [hf, isSome_some, eq_comm, isSome_iff_exists] at hb
      obtain ⟨y, hy⟩ := hb
      rw [filterMap_cons_some hf, filterMap_cons_some hy] at heq
      obtain ⟨hxy, heq⟩ := List.cons.inj heq
      rcases mem_cons.mp ha with rfl | ha
      · rw [hf, hy, hxy]
      · exact filterMap_injOn hrest heq a ha

/-- The request with another call at `i`. -/
def putCall (r : TurnCompleteRequest) (calls : List Json) (i : ℕ) (call : Json) : TurnCompleteRequest :=
  { r with toolCalls := some (calls.take i ++ call :: calls.drop (i + 1)) }

theorem exists_outputKey {key : String} (hkey : key ∈ outputKeys)
    (h : isNullish (field (.obj fields) key) = false) : ∃ key' ∈ outputKeys, ∃ old,
      JsonObject.get? fields key' = some old ∧ isNullish (some old) = false ∧
      ∀ (output : String) (rest : List (Option Json)), firstDefined
        (field (sanitizeMemmyProtocolValue (.obj (JsonObject.set fields key' (.str output)))) "output" ::
          field (sanitizeMemmyProtocolValue (.obj (JsonObject.set fields key' (.str output)))) "result" ::
          rest) =
        some (.str (sanitizeMemmyProtocolText output)) := by
  have hheld : ∀ key, isNullish (field (.obj fields) key) = false →
      ∃ old, JsonObject.get? fields key = some old ∧ isNullish (some old) = false := by
    intro key h
    change isNullish (JsonObject.get? fields key) = false at h
    cases hget : JsonObject.get? fields key with
    | none =>
      rw [hget] at h
      cases h
    | some old => exact ⟨old, rfl, by rwa [hget] at h⟩
  have hset : ∀ key output,
      field (sanitizeMemmyProtocolValue (.obj (JsonObject.set fields key (.str output)))) key =
      some (.str (sanitizeMemmyProtocolText output)) := by
    intro key output
    rw [sanitize_set, sanitizeMemmyProtocolValue]
    exact JsonObject.get?_set_self _ _ _
  by_cases hout : isNullish (field (.obj fields) "output") = true
  · have hresult : key = "result" := by
      rcases mem_cons.mp hkey with rfl | hkey
      · rw [hout] at h
        cases h
      · exact mem_singleton.mp hkey
    subst hresult
    obtain ⟨old, hold, hnull⟩ := hheld _ h
    refine ⟨"result", by decide, old, hold, hnull, fun output rest => ?_⟩
    rw [firstDefined_of_nullish, hset, firstDefined_of_some rfl]
    rw [field_sanitize, isNullish_sanitize]
    rw [show field (.obj (JsonObject.set fields "result" (.str output))) "output" = _ from
      JsonObject.get?_set_of_ne (by decide) _]
    exact hout
  · obtain ⟨old, hold, hnull⟩ := hheld "output" (eq_false_iff.mpr hout)
    refine ⟨"output", by decide, old, hold, hnull, fun output rest => ?_⟩
    rw [hset, firstDefined_of_some rfl]

/-- Cleaned calls with one call in two variants: the rest is captured alike, so the variants are. -/
theorem normalizedCall_of_captured {calls results : List Json} {call₀ call₁ : Json}
    (hi : i < calls.length) (hid : toolInvocationId call₀ = toolInvocationId call₁)
    (hsome : ∀ call ∈ [call₀, call₁], ∀ paired, (normalizeCompleteTurnToolCall call paired).isSome = true)
    (h : (List.range calls.length).filterMap (normalizedCall (calls.set i call₀) results) =
      (List.range calls.length).filterMap (normalizedCall (calls.set i call₁) results)) :
    ∃ paired, normalizeCompleteTurnToolCall call₀ paired = normalizeCompleteTurnToolCall call₁ paired := by
  have hmatching : matchToolResultIndices (calls.set i call₀) results =
      matchToolResultIndices (calls.set i call₁) results := by
    refine matching_congr ?_ rfl
    rw [map_set, map_set, hid]
  have hpaired : ∀ k,
      matchedResult (calls.set i call₀) results k = matchedResult (calls.set i call₁) results k := by
    intro k
    unfold matchedResult
    rw [hmatching]
  have hself : ∀ call, normalizedCall (calls.set i call) results i =
      normalizeCompleteTurnToolCall call (matchedResult (calls.set i call) results i) := by
    intro call
    unfold normalizedCall
    rw [getElem?_set_self hi, bind_some]
  have hother : ∀ k, k ≠ i →
      normalizedCall (calls.set i call₀) results k = normalizedCall (calls.set i call₁) results k := by
    intro k hk
    unfold normalizedCall
    rw [getElem?_set_ne (Ne.symm hk), getElem?_set_ne (Ne.symm hk), hpaired]
  have hat := filterMap_injOn (fun k _ => ?_) h i (mem_range.mpr hi)
  · rw [hself, hself, hpaired] at hat
    exact ⟨_, hat⟩
  · by_cases hk : k = i
    · rw [hk, hself, hself, hsome call₀ (by simp), hsome call₁ (by simp)]
    · rw [hother k hk]

/-- **An output that a recall call carries shows** in what is captured. -/
theorem noInlineOutput_of (h : NoFeedback r) : NoInlineOutput r := by
  intro call hmem hrecall key hkey
  by_contra hnot
  rw [not_eq_true] at hnot
  obtain ⟨fields, rfl⟩ : ∃ fields, call = .obj fields := by
    cases call with
    | obj fields => exact ⟨fields, rfl⟩
    | _ => cases hnot
  obtain ⟨key, hkey, old, hold, hnull, hread⟩ := exists_outputKey hkey hnot
  cases hcalls : r.toolCalls with
  | none =>
    unfold TurnCompleteRequest.calls at hmem
    rw [hcalls] at hmem
    cases hmem
  | some calls =>
    have hlist : r.calls = calls := by
      unfold TurnCompleteRequest.calls
      rw [hcalls]
      rfl
    rw [hlist] at hmem
    obtain ⟨i, hlt, hget⟩ := mem_iff_getElem.mp hmem
    have hsplit : calls = calls.take i ++ .obj fields :: calls.drop (i + 1) := by
      rw [← hget, getElem_cons_drop, take_append_drop]
    -- the call with another output, as it is and cleaned
    let variant (output : String) : Json := .obj (JsonObject.set fields key (.str output))
    have hvaried : ∀ output, Varied r (putCall r calls i (variant output)) := fun output =>
      .inline (hcalls.trans (congrArg some hsplit)) hrecall hkey hold hnull rfl
    have hnamed : ∀ output, IsRecallCall (variant output) := by
      intro output
      unfold IsRecallCall at hrecall ⊢
      rwa [show toolNameFromToolCall (variant output) = _ from
        congrArg Prod.snd (callFrame_set hkey (.str output))]
    have hclean : ∀ output, (sanitizeTurnCompleteRequest (putCall r calls i (variant output))).calls =
        (calls.map sanitizeMemmyProtocolValue).set i (sanitizeMemmyProtocolValue (variant output)) := by
      intro output
      rw [calls_sanitize, ← map_set, set_eq_take_append_cons_drop, if_pos hlt]
      rfl
    have hresults : ∀ output, (sanitizeTurnCompleteRequest (putCall r calls i (variant output))).results =
        (sanitizeTurnCompleteRequest r).results := by
      intro output
      have hframe := sameFrame_of_varied (hvaried output)
      rw [results_sanitize, results_sanitize]
      simp only [hframe.pairedToolName]
      rfl
    have hcaptured : ∀ output, (capture (putCall r calls i (variant output))).toolCalls =
        (List.range (calls.map sanitizeMemmyProtocolValue).length).filterMap (normalizedCall
          ((calls.map sanitizeMemmyProtocolValue).set i (sanitizeMemmyProtocolValue (variant output)))
          (sanitizeTurnCompleteRequest r).results) := by
      intro output
      have hunfold : (capture (putCall r calls i (variant output))).toolCalls =
        (List.range (sanitizeTurnCompleteRequest (putCall r calls i (variant output))).calls.length).filterMap
          (normalizedCall (sanitizeTurnCompleteRequest (putCall r calls i (variant output))).calls
            (sanitizeTurnCompleteRequest (putCall r calls i (variant output))).results) := rfl
      rw [hunfold, hclean, hresults, length_set]
    have hoff := congrArg Captured.toolCalls (h.same (hvaried "0") (hvaried "1"))
    rw [hcaptured, hcaptured] at hoff
    have hid : toolInvocationId (sanitizeMemmyProtocolValue (variant "0")) =
        toolInvocationId (sanitizeMemmyProtocolValue (variant "1")) := by
      rw [sanitize_set, sanitize_set]
      exact congrArg Prod.fst ((callFrame_set hkey _).trans (callFrame_set hkey _).symm)
    have hsome : ∀ call ∈ [sanitizeMemmyProtocolValue (variant "0"), sanitizeMemmyProtocolValue (variant "1")],
        ∀ paired, (normalizeCompleteTurnToolCall call paired).isSome = true := by
      have hsome : ∀ output paired, (normalizeCompleteTurnToolCall
          (sanitizeMemmyProtocolValue (variant output)) paired).isSome = true := by
        intro output paired
        obtain ⟨name, hname, hne⟩ := (hnamed output).name
        obtain ⟨p, _, hp, -⟩ := normalizeCall_output paired hname hne
        rw [hp]
        rfl
      intro call hcall
      rcases mem_cons.mp hcall with rfl | hcall
      · exact hsome "0"
      · rw [mem_singleton.mp hcall]
        exact hsome "1"
    obtain ⟨paired, hpaired⟩ := normalizedCall_of_captured (by rwa [length_map]) hid hsome hoff
    obtain ⟨name₀, hname₀, hne₀⟩ := (hnamed "0").name
    obtain ⟨name₁, hname₁, hne₁⟩ := (hnamed "1").name
    obtain ⟨p₀, rest₀, hp₀, hout₀⟩ := normalizeCall_output paired hname₀ hne₀
    obtain ⟨p₁, rest₁, hp₁, hout₁⟩ := normalizeCall_output paired hname₁ hne₁
    rw [hp₀, hp₁] at hpaired
    have hsame := congrArg ToolCallPayload.output (some.inj hpaired)
    rw [hout₀, hout₁, hread, hread] at hsame
    exact sanitizeText_ne (by simpa using hsame)

/-! ### The condition is exact -/

theorem ownResultOnly (r : TurnCompleteRequest) : OwnResultOnly r :=
  ⟨fun _ _ _ h h' => h.left_unique h', fun _ _ _ h h' => h.right_unique h',
    fun _ _ _ hcall hresult => normalizedCall_congr hcall hresult⟩

/-- **Recalled memory does not feed back, and each call is captured by its own result,** exactly where no
recall call carries its output and every result that may be one's is replaced. -/
theorem noFeedback_iff (r : TurnCompleteRequest) :
    (NoFeedback r ∧ OwnResultOnly r) ↔ (NoInlineOutput r ∧ AllReplaced r) := by
  constructor
  · rintro ⟨h, -⟩
    exact ⟨noInlineOutput_of h, allReplaced_of h⟩
  · rintro ⟨hinline, hreplaced⟩
    exact ⟨noFeedback_of hinline hreplaced, ownResultOnly r⟩

namespace Example

/-- A recall call that carries its output. -/
def request : TurnCompleteRequest where
  query := some "What did we decide?"
  answer := some "Done."
  toolCalls := some [.obj [
    ("id", .str "call-1"),
    ("name", .str "memmy_memory_search"),
    ("output", .str "The key is 4711.")]]
  toolResults := none

/-- The output of the call is captured. -/
theorem inline_output_captured : ¬ NoFeedback request := by
  intro h
  have hrecall : IsRecallCall (request.calls.headD .null) := by
    unfold IsRecallCall
    decide +kernel
  have hnone := noInlineOutput_of h _ mem_cons_self hrecall "output" (by decide)
  exact absurd hnone (by decide +kernel)

end Example

end Memmy.Capture.RecallFeedback
