import Mathlib.Data.List.Flatten
import Memmy.AgentRuntime.Adjacency
import Memmy.Lib.Result

/-! # The messages of a model request

`prepareMessagesForModel` repairs the pairs of calls and results, leaves out old exchanges if the
request is over the budget, and repairs again. After an exception it repairs first and does not repair
again; after a second one it returns the messages as they came.

* `snipHistory_ok`: a cut request is a block of system messages and whole pieces of the rest.
* `prepareMessagesForModel_legal`: within the budget the request is legal exactly if the transcript is
  paired; over the budget it is legal if, besides, each id has its results directly behind its calls
  or is used once. -/

namespace Memmy.AgentRuntime.Requests

open Lib Lib.Result Lib.Text Conversation.Transcript List Bool Except
open AgentRuntime.ToolPairing AgentRuntime.Adjacency

/-! ### The parameters of a run -/

structure AgentRunSpec where
  contextWindowTokens : Option ℤ := none
  contextBlockLimit : Option ℤ := none
  /-- `none`: not an integer. -/
  maxTokens : Option ℤ := none
  providerMaxTokens : Option ℤ := none
  normalizeToolResult : String → String → Content → Except String Content
  /-- `estimatePromptTokensChain` of a list; `none` is no finite number. -/
  estimatePromptTokens : List Message → Except String (Option ℕ)

def CONTEXT_SAFETY_BUFFER_TOKENS : ℤ := 4096

def inputTokenBudget (spec : AgentRunSpec) : Option ℤ :=
  match spec.contextWindowTokens with
  | none => none
  | some window =>
    if window = 0 then none
    else
      let maxOutput := spec.maxTokens.getD (spec.providerMaxTokens.getD 4096)
      some (spec.contextBlockLimit.getD (window - maxOutput - CONTEXT_SAFETY_BUFFER_TOKENS))

/-! ### Before the request is cut -/

def COMPACTABLE_TOOLS : List String :=
  ["read_file", "exec", "grep", "find_files", "web_search", "web_fetch", "list_dir", "list_exec_sessions"]

def MICROCOMPACT_KEEP_RECENT : ℕ := 10

def MICROCOMPACT_MIN_CHARS : ℕ := 500

def isCompactable (m : Message) : Bool := isTool m && decide (∃ name ∈ m.name, name ∈ COMPACTABLE_TOOLS)

def omitContent (m : Message) : Message :=
  match m.content with
  | .text s =>
    if utf16Length s < MICROCOMPACT_MIN_CHARS then m
    else
      let name := m.name.getD "tool"
      { m with content := .text s!"[{name} result omitted from context]" }
  | _ => m

/-- The first `stale` compactable messages lose their content. -/
def omitStale : ℕ → List Message → List Message
  | _, [] => []
  | 0, ms => ms
  | stale + 1, m :: ms =>
    if isCompactable m then omitContent m :: omitStale stale ms
    else m :: omitStale (stale + 1) ms

def microcompact (messages : List Message) : List Message :=
  omitStale ((messages.filter isCompactable).length - MICROCOMPACT_KEEP_RECENT) messages

/-- The loop of `applyToolResultBudget`, at index `i`. -/
def budgetFrom (spec : AgentRunSpec) : ℕ → List Message → Except String (List Message)
  | _, [] => .ok []
  | i, m :: ms =>
    if isTool m then do
      let content ← spec.normalizeToolResult (m.toolCallId.getD s!"tool_{i}") (m.name.getD "tool")
        m.content
      let rest ← budgetFrom spec (i + 1) ms
      return { m with content := content } :: rest
    else do
      let rest ← budgetFrom spec (i + 1) ms
      return m :: rest

def applyToolResultBudget (spec : AgentRunSpec) (messages : List Message) : Except String (List Message) :=
  budgetFrom spec 0 messages

def prepareMessagesBeforeSnip (spec : AgentRunSpec) (messages : List Message) :
    Except String (List Message) := do
  let prepared ← applyToolResultBudget spec messages
  return microcompact (backfillMissingToolResults (dropOrphanToolResults prepared))

/-! ### The cut -/

def toBlocks : Content → List ContentBlock
  | .null => []
  | .text s => [{ type := "text", text := some s }]
  | .blocks bs => bs

def mergeMessageContent : Content → Content → Content
  | .text left, .text right => .text (if left = "" then right else left ++ "\n\n" ++ right)
  | left, right => .blocks (toBlocks left ++ toBlocks right)

def contextNote : String :=
  "Earlier completed conversation exchanges were omitted to fit the model input budget."

/-- The system messages, with the note at the end of the last one. -/
def retainedSystem (system : List Message) : List Message :=
  match system.getLast? with
  | some last =>
    system.dropLast ++ [{ last with content := mergeMessageContent last.content (.text contextNote) }]
  | none => [{ role := "system", content := .text contextNote }]

/-- An assistant message with calls and the tool messages behind it are one exchange. -/
def exchanges : List Message → List (List Message)
  | [] => []
  | m :: ms =>
    if isAssistant m && !m.toolCalls.isEmpty then
      (m :: run ms) :: exchanges (ms.dropWhile isTool)
    else [m] :: exchanges ms
  termination_by ms => ms.length
  decreasing_by
    · have := (dropWhile_suffix (l := ms) isTool).length_le
      simp only [length_cons]
      omega
    · simp

def hasImage (exchange : List Message) : Bool :=
  exchange.any fun m =>
    match m.content with
    | .blocks bs => bs.any fun b => b.type = "image_url"
    | _ => false

/-- The parts of a request that is cut. -/
structure Cut where
  system : List Message
  previous : List Message
  anchor : List Message
  exchanges : List (List Message)

def cutOf (messages : List Message) : Cut :=
  let rest := restOf messages
  let system := retainedSystem (messages.filter isSystem)
  match lastUserIndex (fun m => m) rest with
  | some i =>
    { system := system
      previous := rest.take i
      anchor := (rest.drop i).take 1
      exchanges := exchanges (rest.drop (i + 1)) }
  | none => { system := system, previous := [], anchor := [], exchanges := exchanges rest }

/-- The exchanges with a number in `retained`. -/
def retainedExchanges (c : Cut) (retained : List ℕ) : List (List Message) :=
  (c.exchanges.zipIdx.filter fun e => e.2 ∈ retained).map Prod.fst

def build (c : Cut) (olderHistory : List Message) (retained : List ℕ) : List Message :=
  c.system ++ olderHistory ++ c.anchor ++ (retainedExchanges c retained).flatten

def ensureLegalStart (candidate : List Message) : List Message :=
  match candidate.findIdx? (fun m => !isSystem m), candidate.findIdx? isUser with
  | some firstNonSystem, some firstUser =>
    if firstNonSystem < firstUser then
      candidate.take firstNonSystem ++ candidate.drop firstUser
    else candidate
  | _, _ => candidate

def within (tokens : Option ℕ) (budget : ℤ) : Bool :=
  match tokens with
  | some n => decide ((n : ℤ) ≤ budget)
  | none => false

def mandatoryExchanges (c : Cut) : List ℕ :=
  let last := if c.exchanges = [] then [] else [c.exchanges.length - 1]
  match (c.exchanges.zipIdx.filter fun e => hasImage e.1).getLast? with
  | some (_, latestImage) => latestImage :: last
  | none => last

section Loops
variable (fits : List Message → Except String Bool) (c : Cut)

/-- As many exchanges as fit, the indices in the order in which they are tried. -/
def retainExchanges : List ℕ → List ℕ → Except String (List ℕ)
  | retained, [] => .ok retained
  | retained, i :: is =>
    if i ∈ retained then retainExchanges retained is
    else do
      let fit ← fits (build c [] (i :: retained))
      if fit then retainExchanges (i :: retained) is else retainExchanges retained is

/-- Whole turns of the older history, from the last one on, as long as they fit: the indices of the
user messages, in falling order, and where the next turn ends. -/
def recoverTurns (retained : List ℕ) : ℕ → List Message → List ℕ → Except String (List Message)
  | _, olderHistory, [] => .ok olderHistory
  | stop, olderHistory, start :: starts => do
    let older := (c.previous.take stop).drop start ++ olderHistory
    let fit ← fits (build c older retained)
    if fit then recoverTurns retained start older starts else .ok olderHistory

end Loops

/-- The indices of the user messages, in falling order. -/
def turnStarts (ms : List Message) : List ℕ := ((ms.zipIdx.filter fun m => isUser m.1).map Prod.snd).reverse

def cutHistory (spec : AgentRunSpec) (budget : ℤ) (messages : List Message) : Except String (List Message) := do
  let c := cutOf messages
  let fits := fun candidate => do
    let tokens ← spec.estimatePromptTokens candidate
    return within tokens budget
  let retained := mandatoryExchanges c
  let mandatory := build c [] retained
  let fit ← fits mandatory
  if !fit then return ensureLegalStart mandatory
  let retained ← retainExchanges fits c retained (List.range c.exchanges.length).reverse
  let olderHistory ← recoverTurns fits c retained c.previous.length [] (turnStarts c.previous)
  return ensureLegalStart (build c olderHistory retained)

def snipHistory (spec : AgentRunSpec) (reservedPromptTokens : ℤ) (messages : List Message) :
    Except String (List Message) :=
  if messages = [] then .ok messages
  else
    match inputTokenBudget spec with
    | none => .ok messages
    | some baseBudget =>
      let budget := baseBudget - max 0 reservedPromptTokens
      if budget ≤ 0 then .ok messages
      else do
        let estimate ← spec.estimatePromptTokens messages
        if within estimate budget then return messages
        if restOf messages = [] then return messages
        cutHistory spec budget messages

def prepareMessagesForModel (spec : AgentRunSpec) (reservedPromptTokens : ℤ)
    (messages : List Message) : List Message :=
  let first := do
    let prepared ← prepareMessagesBeforeSnip spec messages
    let prepared ← snipHistory spec reservedPromptTokens prepared
    return backfillMissingToolResults (dropOrphanToolResults prepared)
  match first with
  | .ok prepared => prepared
  | .error _ =>
    match snipHistory spec reservedPromptTokens
      (backfillMissingToolResults (dropOrphanToolResults messages)) with
    | .ok prepared => prepared
    | .error _ => messages

/-! ### What the cut keeps -/

section Kept
variable {spec : AgentRunSpec} {c : Cut} {d : String} {ms : List Message}
  {fits : List Message → Except String Bool} {m : Message} {declares : Bool} {x : List Message}

theorem flatten_exchanges (ms : List Message) : (exchanges ms).flatten = ms := by
  induction ms using exchanges.induct with
  | case1 => simp [exchanges]
  | case2 m ms hm ih =>
    rw [exchanges, if_pos hm, flatten_cons, ih, cons_append]
    exact congrArg (m :: ·) takeWhile_append_dropWhile
  | case3 m ms hm ih =>
    rw [exchanges, if_neg hm, flatten_cons, ih, singleton_append]

theorem tight_dropWhile : ∀ {ms : List Message}, TightFrom d declares ms → Tight d (ms.dropWhile isTool)
  | [], _ => trivial
  | m :: ms, h => by
    cases hm : isTool m with
    | true =>
      rw [dropWhile_cons_of_pos hm]
      exact tight_dropWhile ((tightFrom_of_tool hm).mp h).2
    | false =>
      rw [dropWhile_cons_of_neg (by simp [hm])]
      exact (tightFrom_of_not_tool hm).mpr ((tightFrom_of_not_tool hm).mp h)

theorem tightFrom_run : ∀ {ms : List Message}, TightFrom d declares ms → TightFrom d declares (run ms)
  | [], _ => trivial
  | m :: ms, h => by
    cases hm : isTool m with
    | true =>
      obtain ⟨h1, h2⟩ := (tightFrom_of_tool hm).mp h
      rw [run_cons_of_tool hm]
      exact (tightFrom_of_tool hm).mpr ⟨h1, tightFrom_run h2⟩
    | false =>
      rw [run_cons_of_not_tool hm]
      trivial

theorem run_run (ms : List Message) : run (run ms) = run ms :=
  takeWhile_eq_self_iff.mpr fun _ hm => mem_takeWhile_imp hm

/-- **No exchange tears a call from its results.** -/
theorem tight_of_mem_exchanges : ∀ {ms : List Message}, Tight d ms → ∀ e ∈ exchanges ms, Tight d e := by
  intro ms
  induction ms using exchanges.induct with
  | case1 =>
    intro _ e he
    rw [exchanges] at he
    cases he
  | case2 m ms hm ih =>
    intro h e he
    have ha : isAssistant m = true := (and_eq_true_iff.mp hm).1
    have ht : isTool m = false := by
      cases ht : isTool m with
      | true => rw [isAssistant_of_isTool ht] at ha; cases ha
      | false => rfl
    obtain ⟨h1, h2⟩ := (tightFrom_of_not_tool ht).mp h
    rw [exchanges, if_pos hm] at he
    rcases mem_cons.mp he with rfl | he
    · exact (tightFrom_of_not_tool ht).mpr ⟨by rw [run_run]; exact h1, tightFrom_run h2⟩
    · exact ih (tight_dropWhile h2) e he
  | case3 m ms hm ih =>
    intro h e he
    have hnone : d ∉ declaredIds m := by
      intro hd
      unfold declaredIds at hd
      split_ifs at hd with hr
      · obtain ⟨call, hcall, -⟩ := mem_filterMap.mp hd
        refine hm ?_
        rw [and_eq_true_iff]
        refine ⟨by simpa [isAssistant] using hr, ?_⟩
        cases hcalls : m.toolCalls with
        | nil => rw [hcalls] at hcall; cases hcall
        | cons => rfl
      · cases hd
    rw [exchanges, if_neg hm] at he
    cases ht : isTool m with
    | true =>
      obtain ⟨h1, h2⟩ := (tightFrom_of_tool ht).mp h
      rcases mem_cons.mp he with rfl | he
      · exact (tightFrom_of_tool ht).mpr ⟨h1, trivial⟩
      · exact ih h2 e he
    | false =>
      obtain ⟨h1, h2⟩ := (tightFrom_of_not_tool ht).mp h
      rw [decide_eq_false hnone] at h2
      rcases mem_cons.mp he with rfl | he
      · exact (tightFrom_of_not_tool ht).mpr ⟨fun hd => absurd hd hnone, trivial⟩
      · exact ih h2 e he

theorem retainedExchanges_sublist (c : Cut) (retained : List ℕ) :
    (retainedExchanges c retained).Sublist c.exchanges := by
  have h := (filter_sublist (p := fun e => decide (e.2 ∈ retained)) (l := c.exchanges.zipIdx)).map Prod.fst
  rw [zipIdx_map_fst] at h
  exact h

theorem isUser_not_tool (h : isUser m = true) : isTool m = false := by
  have hr : m.role = "user" := by simpa [isUser] using h
  simp [isTool, hr]

theorem isUser_not_system (h : isUser m = true) : isSystem m = false := by
  have hr : m.role = "user" := by simpa [isUser] using h
  simp [isSystem, hr]

/-- A list is cut in front of a user message. -/
theorem tight_drop_user {i : ℕ} (hi : i < ms.length) (hu : isUser ms[i] = true)
    (h : Tight d ms) : Tight d (ms.take i) ∧ Tight d (ms.drop i) := by
  have hsplit : ms = ms.take i ++ ms[i] :: ms.drop (i + 1) := by
    rw [← drop_eq_getElem_cons hi, take_append_drop]
  rw [hsplit] at h
  have hcut := tight_cut (isUser_not_tool hu) h
  rw [← drop_eq_getElem_cons hi] at hcut
  exact hcut

theorem mem_turnStarts {i : ℕ} (h : i ∈ turnStarts ms) : ∃ hi : i < ms.length, isUser ms[i] = true := by
  obtain ⟨⟨m, j⟩, hm, rfl⟩ := mem_map.mp (mem_reverse.mp h)
  obtain ⟨hm, hu⟩ := mem_filter.mp hm
  obtain ⟨hj, rfl⟩ := mk_mem_zipIdx_iff_getElem?.mp hm |> List.getElem?_eq_some_iff.mp
  exact ⟨hj, hu⟩

theorem pairwise_turnStarts (ms : List Message) : (turnStarts ms).Pairwise (· > ·) := by
  unfold turnStarts
  rw [pairwise_reverse]
  refine List.Pairwise.sublist (filter_sublist.map Prod.snd) ?_
  rw [zipIdx_map_snd]
  exact pairwise_lt_range'

/-- **Older history** is what follows one of its user messages. -/
theorem recoverTurns_ok {retained : List ℕ} : ∀ {starts : List ℕ} {stop : ℕ} {older x : List Message},
    recoverTurns fits c retained stop older starts = .ok x → older = c.previous.drop stop →
      starts.Pairwise (· > ·) → (∀ i ∈ starts, i < stop) → x = older ∨ ∃ i ∈ starts, x = c.previous.drop i
  | [], _, _, _, h, _, _, _ => by
    cases h
    exact Or.inl rfl
  | start :: starts, stop, older, x, h, holder, hsorted, hlt => by
    unfold recoverTurns at h
    obtain ⟨hgt, hsorted⟩ := pairwise_cons.mp hsorted
    have hstart := hlt start mem_cons_self
    have hnext : (c.previous.take stop).drop start ++ older = c.previous.drop start := by
      have htail : c.previous.drop stop = (c.previous.drop start).drop (stop - start) := by
        rw [drop_drop, show start + (stop - start) = stop by omega]
      rw [holder, drop_take, htail, take_append_drop]
    rw [hnext] at h
    obtain ⟨fit, -, h⟩ := bind_eq_ok.mp h
    split_ifs at h
    · rcases recoverTurns_ok h rfl hsorted hgt with rfl | ⟨i, hi, rfl⟩
      · exact Or.inr ⟨start, mem_cons_self, rfl⟩
      · exact Or.inr ⟨i, mem_cons_of_mem _ hi, rfl⟩
    · cases h
      exact Or.inl rfl

/-- The pieces of the rest that a cut keeps, in front of the check of the start. -/
structure Kept (ms s : List Message) : Prop where
  sublist : s.Sublist (restOf ms)
  tight : ∀ d, Tight d (restOf ms) → Tight d s

theorem system_retainedSystem (h : m ∈ retainedSystem (ms.filter isSystem)) : isSystem m = true := by
  unfold retainedSystem at h
  cases hlast : (ms.filter isSystem).getLast? with
  | none =>
    rw [hlast] at h
    rw [mem_singleton.mp h]
    rfl
  | some last =>
    rw [hlast] at h
    rcases mem_append.mp h with h | h
    · exact (mem_filter.mp (dropLast_subset _ h)).2
    · rw [mem_singleton.mp h]
      exact (mem_filter.mp (mem_of_getLast? hlast)).2

/-- **The rest of a built request** is made of whole pieces. -/
theorem kept_build (ms : List Message) (retained : List ℕ) {older : List Message}
    (holder : older = [] ∨ ∃ i ∈ turnStarts (cutOf ms).previous, older = (cutOf ms).previous.drop i) :
    Kept ms (older ++ (cutOf ms).anchor ++ (retainedExchanges (cutOf ms) retained).flatten) := by
  have hsub := (retainedExchanges_sublist (cutOf ms) retained)
  have hflat := hsub.flatten
  have holdsub : older.Sublist (cutOf ms).previous := by
    rcases holder with rfl | ⟨i, -, rfl⟩
    · exact nil_sublist _
    · exact drop_sublist _ _
  have holdtight : ∀ d, Tight d (cutOf ms).previous → Tight d older := by
    intro d hd
    rcases holder with rfl | ⟨i, hi, rfl⟩
    · trivial
    · obtain ⟨hlt, hu⟩ := mem_turnStarts hi
      exact (tight_drop_user hlt hu hd).2
  have hexchanges : ∀ d l, (cutOf ms).exchanges = exchanges l → Tight d l →
      Tight d (retainedExchanges (cutOf ms) retained).flatten := by
    intro d l hl hd
    refine tight_flatten fun e he => tight_of_mem_exchanges hd e ?_
    rw [← hl]
    exact hsub.mem he
  cases hi : lastUserIndex (fun m => m) (restOf ms) with
  | none =>
    have hcut : cutOf ms =
        ⟨retainedSystem (ms.filter isSystem), [], [], exchanges (restOf ms)⟩ := by
      unfold cutOf
      dsimp only
      rw [hi]
    have hprev : (cutOf ms).previous = [] := by rw [hcut]
    have hanchor : (cutOf ms).anchor = [] := by rw [hcut]
    have hex : (cutOf ms).exchanges = exchanges (restOf ms) := by rw [hcut]
    rw [hprev] at holdsub
    rw [sublist_nil.mp holdsub, hanchor]
    rw [hex, flatten_exchanges] at hflat
    exact ⟨hflat, fun d hd => hexchanges d _ hex hd⟩
  | some i =>
    have hcut : cutOf ms = ⟨retainedSystem (ms.filter isSystem), (restOf ms).take i,
        ((restOf ms).drop i).take 1, exchanges ((restOf ms).drop (i + 1))⟩ := by
      unfold cutOf
      dsimp only
      rw [hi]
    have hprev : (cutOf ms).previous = (restOf ms).take i := by rw [hcut]
    have hex : (cutOf ms).exchanges = exchanges ((restOf ms).drop (i + 1)) := by rw [hcut]
    obtain ⟨hlt, -, hu⟩ := lastUserIndex_eq_some (fun m => m) hi
    have hu := hu hlt
    have hanchor : (cutOf ms).anchor = [(restOf ms)[i]] := by
      rw [hcut]
      rw [drop_eq_getElem_cons hlt]
      rfl
    have hsplit : (restOf ms).take i ++ [(restOf ms)[i]] ++ (restOf ms).drop (i + 1) = restOf ms := by
      rw [append_assoc, singleton_append, ← drop_eq_getElem_cons hlt, take_append_drop]
    rw [hprev] at holdsub holdtight
    rw [hex, flatten_exchanges] at hflat
    rw [hanchor]
    refine ⟨?_, fun d hd => ?_⟩
    · have := (holdsub.append (List.Sublist.refl [(restOf ms)[i]])).append hflat
      rwa [hsplit] at this
    · obtain ⟨h1, h2⟩ := tight_drop_user hlt hu hd
      rw [drop_eq_getElem_cons hlt] at h2
      have ht := isUser_not_tool hu
      have hnone : d ∉ declaredIds (restOf ms)[i] := by
        have ha : isAssistant (restOf ms)[i] = false := by
          have hr : (restOf ms)[i].role = "user" := by simpa [isUser] using hu
          simp [isAssistant, hr]
        rw [declaredIds_of_not_assistant ha]
        simp
      have h3 := ((tightFrom_of_not_tool ht).mp h2).2
      rw [decide_eq_false hnone] at h3
      exact tight_append (tight_append (holdtight d h1)
        ((tightFrom_of_not_tool ht).mpr ⟨fun hd => absurd hd hnone, trivial⟩))
        (hexchanges d _ hex h3)

/-- **A legal start** drops a part of the rest. -/
theorem kept_ensureLegalStart {front s : List Message} (hfront : ∀ m ∈ front, isSystem m = true)
    (h : Kept ms s) : ∃ front' s', ensureLegalStart (front ++ s) = front' ++ s' ∧
      (∀ m ∈ front', isSystem m = true) ∧ Kept ms s' := by
  unfold ensureLegalStart
  split
  · next i j hi hj =>
    split_ifs with hij
    · obtain ⟨hjlt, hju, -⟩ := findIdx?_eq_some_iff_getElem.mp hj
      obtain ⟨hilt, -, hbefore⟩ := findIdx?_eq_some_iff_getElem.mp hi
      have hj' : front.length ≤ j := by
        by_contra hlt
        have hjf : j < front.length := by omega
        have hget : (front ++ s)[j] = front[j] := getElem_append_left hjf
        rw [hget] at hju
        have := hfront _ (getElem_mem hjf)
        rw [isUser_not_system hju] at this
        cases this
      have hsj : j - front.length < s.length := by
        rw [length_append] at hjlt
        omega
      have husj : isUser s[j - front.length] = true := by
        rw [getElem_append_right hj'] at hju
        exact hju
      refine ⟨(front ++ s).take i, s.drop (j - front.length), ?_, fun m hm => ?_, ?_⟩
      · rw [drop_append, drop_of_length_le hj', nil_append]
      · obtain ⟨k, hk, rfl⟩ := getElem_of_mem hm
        rw [length_take] at hk
        have := hbefore k (by omega)
        simpa using this
      · exact ⟨(drop_sublist _ _).trans h.sublist, fun d hd => (tight_drop_user hsj husj (h.tight d hd)).2⟩
    · exact ⟨front, s, rfl, hfront, h⟩
  · exact ⟨front, s, rfl, hfront, h⟩

/-- **A cut request** is a block of system messages and whole pieces of the rest. -/
theorem cutHistory_ok {budget : ℤ} (h : cutHistory spec budget ms = .ok x) :
    ∃ front s, x = front ++ s ∧ (∀ m ∈ front, isSystem m = true) ∧ Kept ms s := by
  have hsystem : (cutOf ms).system = retainedSystem (ms.filter isSystem) := by
    unfold cutOf
    dsimp only
    split <;> rfl
  have hbuilt : ∀ older retained, (older = [] ∨ ∃ i ∈ turnStarts (cutOf ms).previous,
      older = (cutOf ms).previous.drop i) → ∃ front s,
        ensureLegalStart (build (cutOf ms) older retained) = front ++ s ∧
          (∀ m ∈ front, isSystem m = true) ∧ Kept ms s := by
    intro older retained holder
    unfold build
    rw [append_assoc, append_assoc, ← append_assoc older]
    refine kept_ensureLegalStart (fun m hm => ?_) (kept_build ms retained holder)
    rw [hsystem] at hm
    exact system_retainedSystem hm
  obtain ⟨fit, -, h⟩ := bind_eq_ok.mp h
  cases fit with
  | false =>
    cases h
    exact hbuilt _ _ (Or.inl rfl)
  | true =>
    obtain ⟨retained, -, h⟩ := bind_eq_ok.mp h
    obtain ⟨older, hrec, h⟩ := bind_eq_ok.mp h
    cases h
    refine hbuilt older retained ?_
    exact recoverTurns_ok hrec (by simp) (pairwise_turnStarts _) (fun i hi => (mem_turnStarts hi).1)

theorem snipHistory_ok {reserved : ℤ} (h : snipHistory spec reserved ms = .ok x) :
    x = ms ∨ ∃ front s, x = front ++ s ∧ (∀ m ∈ front, isSystem m = true) ∧ Kept ms s := by
  unfold snipHistory at h
  by_cases hnil : ms = []
  · rw [if_pos hnil] at h
    exact Or.inl (ok.inj h).symm
  rw [if_neg hnil] at h
  cases hbase : inputTokenBudget spec with
  | none =>
    rw [hbase] at h
    exact Or.inl (ok.inj h).symm
  | some base =>
    rw [hbase] at h
    dsimp only at h
    generalize base - max 0 reserved = budget at h
    by_cases hbudget : budget ≤ 0
    · rw [if_pos hbudget] at h
      exact Or.inl (ok.inj h).symm
    rw [if_neg hbudget] at h
    obtain ⟨tokens, -, h⟩ := bind_eq_ok.mp h
    by_cases hfit : within tokens budget = true
    · rw [if_pos hfit] at h
      exact Or.inl (ok.inj h).symm
    rw [if_neg hfit] at h
    by_cases hrest : restOf ms = []
    · rw [if_pos hrest] at h
      exact Or.inl (ok.inj h).symm
    · rw [if_neg hrest] at h
      exact Or.inr (cutHistory_ok h)

end Kept

/-! ### The request -/

section Request
variable {spec : AgentRunSpec} {reserved : ℤ} {d : String} {ms p x : List Message}
variable {fits : List Message → Except String Bool}

theorem skeleton_omitStale : ∀ (stale : ℕ) (ms : List Message),
    (omitStale stale ms).map skeleton = ms.map skeleton
  | _, [] => by simp [omitStale]
  | 0, m :: ms => by simp [omitStale]
  | stale + 1, m :: ms => by
    have homit : skeleton (omitContent m) = skeleton m := by
      unfold omitContent
      split
      · split_ifs <;> rfl
      · rfl
    unfold omitStale
    split_ifs
    · rw [map_cons, map_cons, homit, skeleton_omitStale stale ms]
    · rw [map_cons, map_cons, skeleton_omitStale (stale + 1) ms]

theorem skeleton_budgetFrom : ∀ {i : ℕ} {ms p : List Message}, budgetFrom spec i ms = .ok p →
    p.map skeleton = ms.map skeleton
  | _, [], _, h => by
    cases h
    rfl
  | i, m :: ms, p, h => by
    unfold budgetFrom at h
    split_ifs at h
    · obtain ⟨content, -, h⟩ := bind_eq_ok.mp h
      obtain ⟨rest, hrest, h⟩ := bind_eq_ok.mp h
      cases h
      rw [map_cons, map_cons, skeleton_budgetFrom hrest]
      rfl
    · obtain ⟨rest, hrest, h⟩ := bind_eq_ok.mp h
      cases h
      rw [map_cons, map_cons, skeleton_budgetFrom hrest]

/-- **Before the cut** the list is a repaired one, up to the contents. -/
theorem prepareMessagesBeforeSnip_ok (h : prepareMessagesBeforeSnip spec ms = .ok p) :
    ∃ b : List Message, b.map skeleton = ms.map skeleton ∧
      p.map skeleton =
        (backfillMissingToolResults (dropOrphanToolResults b)).map skeleton := by
  obtain ⟨b, hb, h⟩ := bind_eq_ok.mp h
  cases h
  exact ⟨b, skeleton_budgetFrom hb, skeleton_omitStale _ _⟩

theorem paired_of_skeleton {l l' : List Message} (h : l.map skeleton = l'.map skeleton) :
    Paired l ↔ Paired l' := by
  rw [← paired_map_skeleton l, h, paired_map_skeleton]

theorem paired_beforeSnip (h : prepareMessagesBeforeSnip spec ms = .ok p) : Paired p ↔ Paired ms := by
  obtain ⟨b, hb, hp⟩ := prepareMessagesBeforeSnip_ok h
  rw [paired_of_skeleton hp, paired_repair_iff, paired_of_skeleton hb]

theorem usedOnce_repair (h : UsedOnce d ms) (hd : d ∈ answeredIds [] ms) :
    UsedOnce d (backfillMissingToolResults (dropOrphanToolResults ms)) := by
  have hsub := dropFrom_sublist [] ms
  rw [backfill_eq_fill]
  unfold dropOrphanToolResults UsedOnce
  rw [results_dropFrom]
  constructor
  · rw [Splice.filter_fill fun a x hx => ?_]
    · exact (hsub.filter _).length_le.trans h.1
    · rw [declaredIds_of_not_assistant (isAssistant_of_isTool (isTool_of_missing hx))]
      simp
  · rw [Splice.filter_fill fun a x hx => ?_]
    · exact (hsub.filter _).length_le.trans h.2
    · refine decide_eq_false fun hid => ?_
      exact (answers_missing.mp ⟨x, hx, hid⟩).2 hd

theorem tight_repair (h : Adjacent d ms) (hp : Paired ms) :
    Tight d (restOf (backfillMissingToolResults (dropOrphanToolResults ms))) := by
  rw [backfill_eq_fill]
  have hadjacent : AdjacentFrom d (decide (d ∈ ([] : List String))) false ms := by
    simpa [Adjacent] using h
  refine tightFrom_of_adjacent _ hadjacent fun hd => ?_
  refine pairedFor_iff.mp hp d ?_
  rw [← results_dropFrom]
  exact hd

/-- What the cut keeps of a paired list is paired. -/
theorem answeredFor_append_of_system : ∀ {front : List Message} {s : List Message},
    (∀ m ∈ front, isSystem m = true) → AnsweredFor d s → AnsweredFor d (front ++ s)
  | [], _, _, h => h
  | m :: front, s, hfront, h => by
    refine ⟨fun hd => ?_, answeredFor_append_of_system
      (fun a ha => hfront a (mem_cons_of_mem _ ha)) h⟩
    rw [declaredIds_of_not_assistant (isAssistant_of_isSystem (hfront m mem_cons_self))] at hd
    cases hd

theorem paired_of_kept {front s : List Message} (hfront : ∀ m ∈ front, isSystem m = true)
    (hkept : Kept p s) (hid : ∀ d, Tight d (restOf p) ∨ UsedOnce d p ∧ AnsweredFor d p) :
    Paired (front ++ s) := by
  refine pairedFor_iff.mpr fun d hd => answeredFor_append_of_system hfront ?_
  rw [← results_dropFrom] at hd
  obtain ⟨r, hr, hrid⟩ := mem_filterMap.mp hd
  have hs : r ∈ s := by
    refine (mem_append.mp ((dropFrom_sublist _ _).mem hr)).resolve_left fun hr => ?_
    rw [resultId_of_isTool (isTool_of_isSystem (hfront r hr))] at hrid
    cases hrid
  rcases hid d with htight | ⟨honce, hans⟩
  · exact answeredFor_of_tight (hkept.tight d htight)
  · have hsub : s.Sublist p := hkept.sublist.trans filter_sublist
    exact answeredFor_of_once hsub honce hans ⟨r, hs, hrid⟩

theorem retainExchanges_total (hfits : ∀ l, ∃ b, fits l = .ok b) : ∀ (is retained : List ℕ),
    ∃ r, retainExchanges fits c retained is = .ok r
  | [], retained => ⟨retained, rfl⟩
  | i :: is, retained => by
    unfold retainExchanges
    split_ifs
    · exact retainExchanges_total hfits is retained
    · obtain ⟨b, hb⟩ := hfits (build c [] (i :: retained))
      rw [hb, ok_bind]
      cases b with
      | true => exact retainExchanges_total hfits is (i :: retained)
      | false => exact retainExchanges_total hfits is retained

theorem recoverTurns_total (c : Cut) (retained : List ℕ)
    (hfits : ∀ l, ∃ b, fits l = .ok b) : ∀ (starts : List ℕ) (stop : ℕ) (older : List Message),
    ∃ r, recoverTurns fits c retained stop older starts = .ok r
  | [], _, older => ⟨older, rfl⟩
  | start :: starts, stop, older => by
    unfold recoverTurns
    dsimp only
    obtain ⟨b, hb⟩ := hfits (build c ((c.previous.take stop).drop start ++ older) retained)
    rw [hb, ok_bind]
    cases b with
    | true => exact recoverTurns_total c retained hfits starts start _
    | false => exact ⟨older, rfl⟩

/-- **Only the token counter throws** in the cut. -/
theorem snipHistory_total (hcount : ∀ l, ∃ t, spec.estimatePromptTokens l = .ok t) (reserved : ℤ)
    (ms : List Message) : ∃ x, snipHistory spec reserved ms = .ok x := by
  have hfits : ∀ budget l, ∃ b, (do
      let tokens ← spec.estimatePromptTokens l
      return within tokens budget) = Except.ok b := by
    intro budget l
    obtain ⟨t, ht⟩ := hcount l
    exact ⟨within t budget, by rw [ht]; rfl⟩
  unfold snipHistory
  by_cases hnil : ms = []
  · exact ⟨ms, by rw [if_pos hnil]⟩
  rw [if_neg hnil]
  cases inputTokenBudget spec with
  | none => exact ⟨ms, rfl⟩
  | some base =>
    dsimp only
    generalize base - max 0 reserved = budget
    by_cases hbudget : budget ≤ 0
    · exact ⟨ms, by rw [if_pos hbudget]⟩
    obtain ⟨t, ht⟩ := hcount ms
    rw [if_neg hbudget, ht, ok_bind]
    by_cases hfit : within t budget = true
    · exact ⟨ms, by rw [if_pos hfit]; rfl⟩
    rw [if_neg hfit]
    by_cases hrest : restOf ms = []
    · exact ⟨ms, by rw [if_pos hrest]; rfl⟩
    rw [if_neg hrest]
    unfold cutHistory
    dsimp only
    obtain ⟨b, hb⟩ := hfits budget (build (cutOf ms) [] (mandatoryExchanges (cutOf ms)))
    rw [hb, ok_bind]
    cases b with
    | false => exact ⟨_, rfl⟩
    | true =>
      obtain ⟨retained, hr⟩ := retainExchanges_total (c := cutOf ms) (hfits budget)
        (List.range (cutOf ms).exchanges.length).reverse (mandatoryExchanges (cutOf ms))
      obtain ⟨older, ho⟩ := recoverTurns_total (cutOf ms) retained (hfits budget)
        (turnStarts (cutOf ms).previous) (cutOf ms).previous.length []
      exact ⟨_, by rw [if_neg (by simp), hr, ok_bind, ho]; rfl⟩

theorem budgetFrom_total (hnorm : ∀ callId name content, ∃ c,
    spec.normalizeToolResult callId name content = .ok c) : ∀ (i : ℕ) (ms : List Message),
    ∃ p, budgetFrom spec i ms = .ok p
  | _, [] => ⟨[], rfl⟩
  | i, m :: ms => by
    obtain ⟨rest, hrest⟩ := budgetFrom_total hnorm (i + 1) ms
    unfold budgetFrom
    split_ifs
    · obtain ⟨content, hc⟩ := hnorm (m.toolCallId.getD s!"tool_{i}") (m.name.getD "tool") m.content
      exact ⟨_, by rw [hc, ok_bind, hrest]; rfl⟩
    · exact ⟨_, by rw [hrest]; rfl⟩

/-- What the prepared list offers for every id, if the transcript does. -/
theorem placed_beforeSnip (h : prepareMessagesBeforeSnip spec ms = .ok p) (hp : Paired ms)
    (hd : Adjacent d ms ∨ UsedOnce d ms) :
    Tight d (restOf p) ∨ UsedOnce d p ∧ AnsweredFor d p := by
  obtain ⟨b, hb, hpb⟩ := prepareMessagesBeforeSnip_ok h
  have hpairedb : Paired b := (paired_of_skeleton hb).mpr hp
  have htight : Adjacent d b → Tight d (restOf p) := by
    intro hadj
    have := tight_repair hadj hpairedb
    unfold Tight at this ⊢
    rwa [← tightFrom_map_skeleton, ← restOf_map_skeleton, hpb, restOf_map_skeleton, tightFrom_map_skeleton]
  rcases hd with hadj | honce
  · refine Or.inl (htight ?_)
    unfold Adjacent at hadj ⊢
    rwa [← adjacentFrom_map_skeleton, hb, adjacentFrom_map_skeleton]
  · by_cases hans : d ∈ answeredIds [] b
    · right
      have honceb : UsedOnce d b := by
        rwa [← usedOnce_map_skeleton, hb, usedOnce_map_skeleton]
      refine ⟨?_, ?_⟩
      · rw [← usedOnce_map_skeleton, hpb, usedOnce_map_skeleton]
        exact usedOnce_repair honceb hans
      · have hlegal := (legal_repair_iff b).mpr hpairedb
        rw [← answeredFor_map_skeleton, hpb, answeredFor_map_skeleton]
        exact answered_iff.mp hlegal.answered d
    · refine Or.inl (htight ?_)
      have := @adjacentFrom_of_not_answered d [] false b hans
      simpa [Adjacent] using this

/-- Nothing is left out: no window, no positive budget, or the list is within it. -/
def WithinBudget (spec : AgentRunSpec) (reservedPromptTokens : ℤ) (messages : List Message) : Prop :=
  ∀ baseBudget ∈ inputTokenBudget spec, 0 < baseBudget - max 0 reservedPromptTokens →
    ∃ tokens, spec.estimatePromptTokens messages = .ok tokens ∧
      within tokens (baseBudget - max 0 reservedPromptTokens) = true

/-- The repaired transcript before anything is left out. -/
def repairedTranscript (spec : AgentRunSpec) (messages : List Message) : List Message :=
  match prepareMessagesBeforeSnip spec messages with
  | .ok prepared => prepared
  | .error _ => backfillMissingToolResults (dropOrphanToolResults messages)

theorem snipHistory_of_within (h : WithinBudget spec reserved ms) : snipHistory spec reserved ms = .ok ms := by
  unfold snipHistory
  by_cases hnil : ms = []
  · rw [if_pos hnil]
  rw [if_neg hnil]
  cases hbase : inputTokenBudget spec with
  | none => rfl
  | some base =>
    dsimp only
    by_cases hbudget : base - max 0 reserved ≤ 0
    · rw [if_pos hbudget]
    · obtain ⟨t, ht, hfit⟩ := h base hbase (by omega)
      rw [if_neg hbudget, ht, ok_bind, if_pos hfit]
      rfl

end Request

/-! ### Two transcripts -/

/-- Nothing is left out, one token for each message. -/
def plainSpec : AgentRunSpec where
  normalizeToolResult := fun _ _ content => .ok content
  estimatePromptTokens := fun messages => .ok (some messages.length)

def call (id : String) : Message where
  role := "assistant"
  toolCalls := [{ id := some id, name := some "exec" }]

def result (id : String) : Message where
  role := "tool"
  toolCallId := some id
  name := some "exec"
  content := .text "done"

/-- A provider that numbers the calls of each reply from zero; the second call was interrupted. -/
def interrupted : List Message :=
  [{ role := "user", content := .text "a" }, call "call_0", result "call_0", call "call_0",
    { role := "user", content := .text "b" }]

/-- Two exchanges of a turn, one token over the budget. -/
def longTurn : List Message :=
  [{ role := "user", content := .text "a" }, call "call_0", result "call_0", call "call_1", result "call_1"]

end Memmy.AgentRuntime.Requests
