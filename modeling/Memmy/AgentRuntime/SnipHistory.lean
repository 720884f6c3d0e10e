import Mathlib.Data.Finset.Insert
import Mathlib.Data.Finset.Lattice.Basic
import Memmy.Conversation.Transcript
import Memmy.Lib.Selection

/-! # Snipping a transcript to the model's input budget

`snipHistory` is the last resort before a request: where the transcript exceeds the input budget, it keeps the
system messages, the latest user message, the last exchange behind it and the newest one with an image, then
as many other exchanges of the current turn as fit, newest first, then whole earlier turns.  An exchange is an
assistant message with tool calls and the results behind it, or any other message.

* `exchanges_ok`: the exchanges are the turn, cut in front of every message but the results.
* `fill_ok`, `recover_ok`: what the two greedy loops leave fits if what they start from fits.
* `snipHistory_kept`: for every estimator and every transcript over the budget that has more than system
  messages, the result is a `Snipped` one.
* `snipHistory_system`: with system messages only, there is no omission note. -/

namespace Memmy.AgentRuntime.SnipHistory

open Conversation.Transcript Lib.Selection Lib.Text List

/-! ### The budget -/

structure RunSpec where
  contextWindowTokens : Option ℤ
  maxTokens : Option ℤ := none
  providerMaxTokens : Option ℤ := none
  contextBlockLimit : Option JsNumber := none

def inputTokenBudget (spec : RunSpec) : Option ℚ :=
  match spec.contextWindowTokens.filter (· ≠ 0) with
  | none => none
  | some contextWindowTokens =>
    let maxOutput := spec.maxTokens.getD (spec.providerMaxTokens.getD 4096)
    let budget := spec.contextBlockLimit.getD (.finite (contextWindowTokens - maxOutput - 4096))
    match budget with
    | .finite q => some q
    | _ => none

/-- What is left of the budget for the messages. -/
def messageBudget (spec : RunSpec) (reservedPromptTokens : ℚ) : Option ℚ :=
  (inputTokenBudget spec).map (· - max 0 reservedPromptTokens)

/-- `tokens <= budget`. -/
def atMost (tokens : JsNumber) (budget : ℚ) : Bool :=
  match tokens with
  | .finite q => q ≤ budget
  | .negInf => true
  | _ => false

/-- `Number.isFinite(tokens) && tokens <= budget`. -/
def fits (estimate : List Message → JsNumber) (budget : ℚ) (candidate : List Message) : Bool :=
  match estimate candidate with
  | .finite q => q ≤ budget
  | _ => false

/-! ### The omission note -/

def contextNote : String :=
  "Earlier completed conversation exchanges were omitted to fit the model input budget."

def toBlocks : Content → List ContentBlock
  | .null => []
  | .text s => [{ type := "text", text := some s }]
  | .blocks bs => bs

def mergeMessageContent : Content → Content → Content
  | .text left, .text right => .text (if left = "" then right else left ++ "\n\n" ++ right)
  | left, right => .blocks (toBlocks left ++ toBlocks right)

/-- The system messages with the note at the end of the last one, or in one of its own. -/
def retainedSystem : List Message → List Message
  | [] => [{ role := "system", content := .text contextNote }]
  | [m] => [{ m with content := mergeMessageContent m.content (.text contextNote) }]
  | m :: m' :: ms => m :: retainedSystem (m' :: ms)

/-! ### The current turn -/

def isSystem (m : Message) : Bool := m.role = "system"

def isTool (m : Message) : Bool := m.role = "tool"

def isCall (m : Message) : Bool := m.role = "assistant" && !m.toolCalls.isEmpty

def hasImage (m : Message) : Bool :=
  match m.content with
  | .blocks bs => bs.any fun b => b.type = "image_url"
  | _ => false

/-- The exchanges of a turn, while `exchange` is being collected. -/
def exchangesFrom (exchange : List Message) : List Message → List (List Message)
  | [] => [exchange]
  | m :: ms =>
    if exchange.head?.any isCall ∧ isTool m then exchangesFrom (exchange ++ [m]) ms
    else exchange :: exchangesFrom [m] ms

def exchanges : List Message → List (List Message)
  | [] => []
  | m :: ms => exchangesFrom [m] ms

/-- What is kept in any case: the last exchange, and the latest with an image. -/
def mandatoryExchanges (es : List (List Message)) : Finset ℕ :=
  (if es.isEmpty then ∅ else {es.length - 1}) ∪
    match findLastIndex (fun e : List Message => e.any hasImage) es with
    | some latestImage => {latestImage}
    | none => ∅

/-- The transcript without its system messages, around the latest user message. -/
structure Parts where
  previous : List Message
  anchor : List Message
  currentTurn : List Message

def parts (rest : List Message) : Parts :=
  match findLastIndex isUser rest with
  | none =>
    { previous := []
      anchor := []
      currentTurn := rest }
  | some latestUserIndex =>
    { previous := rest.take latestUserIndex
      anchor := rest[latestUserIndex]?.toList
      currentTurn := rest.drop (latestUserIndex + 1) }

/-! ### The candidates -/

/-- The exchanges that are retained. -/
def selected (es : List (List Message)) (retained : Finset ℕ) : List Message :=
  (es.zipIdx.filter fun e => e.2 ∈ retained).flatMap (·.1)

def build (system anchor : List Message) (es : List (List Message)) (olderHistory : List Message)
    (retained : Finset ℕ) : List Message :=
  system ++ olderHistory ++ anchor ++ selected es retained

def ensureLegalStart (candidate : List Message) : List Message :=
  match candidate.findIdx? fun m => !isSystem m, candidate.findIdx? isUser with
  | some firstNonSystem, some firstUser =>
    if firstNonSystem < firstUser then candidate.take firstNonSystem ++ candidate.drop firstUser
    else candidate
  | _, _ => candidate

/-- The exchanges before `index`, newest first. -/
def fill (ok : Finset ℕ → Bool) : ℕ → Finset ℕ → Finset ℕ
  | 0, retained => retained
  | index + 1, retained =>
    fill ok index
      (if index ∈ retained ∨ ok (insert index retained) = false then retained else insert index retained)

/-- The turns before the current one, newest first: the messages are read from the last one back to the user
message that starts their turn. -/
def recover (ok : List Message → Bool) : List Message → List Message → List Message → List Message
  | [], _, olderHistory => olderHistory
  | m :: ms, turn, olderHistory =>
    if isUser m then
      if ok (m :: turn ++ olderHistory) then recover ok ms [] (m :: turn ++ olderHistory) else olderHistory
    else recover ok ms (m :: turn) olderHistory

/-! ### The function -/

def snipHistory (spec : RunSpec) (reservedPromptTokens : ℚ) (estimate : List Message → JsNumber)
    (messages : List Message) : List Message :=
  match messageBudget spec reservedPromptTokens with
  | none => messages
  | some budget =>
    if messages.isEmpty ∨ budget ≤ 0 ∨ atMost (estimate messages) budget then messages
    else
      let system := messages.filter isSystem
      let rest := messages.filter fun m => !isSystem m
      if rest.isEmpty then messages
      else
        let p := parts rest
        let es := exchanges p.currentTurn
        let candidate := build (retainedSystem system) p.anchor es
        let retained := mandatoryExchanges es
        if fits estimate budget (candidate [] retained) = false then ensureLegalStart (candidate [] retained)
        else
          let retained := fill (fun r => fits estimate budget (candidate [] r)) es.length retained
          let olderHistory :=
            recover (fun older => fits estimate budget (candidate older retained)) p.previous.reverse [] []
          ensureLegalStart (candidate olderHistory retained)

/-! ### The property -/

/-- The system messages with the note, and the messages that are kept in any case. -/
def mandatory (messages : List Message) : List Message :=
  let p := parts (messages.filter fun m => !isSystem m)
  let es := exchanges p.currentTurn
  build (retainedSystem (messages.filter isSystem)) p.anchor es [] (mandatoryExchanges es)

def lastExchange (rest : List Message) : List Message := (exchanges (parts rest).currentTurn).getLast?.getD []

/-- **A snipped transcript**, with the mark of every message that is not a system message. -/
structure Snipped (ok : List Message → Bool) (messages out : List Message) (marks : List (Message × Bool)) :
    Prop where
  marked : marks.map (·.1) = messages.filter fun m => !isSystem m
  out_eq : out = retainedSystem (messages.filter isSystem) ++ kept marks
  /-- The latest user message is kept, and before it a run of whole turns up to it. -/
  turns : (∃ dropped older u turn, marks = mark false dropped ++ mark true older ++ (u, true) :: turn ∧
      isUser u = true ∧ (∀ x ∈ turn, isUser x.1 = false) ∧ ∀ m ∈ older.head?, isUser m = true) ∨
    ∀ x ∈ marks, isUser x.1 = false
  last : ∃ front, marks = front ++ mark true (lastExchange (messages.filter fun m => !isSystem m))
  /-- A message with tool calls and the results behind it are kept or dropped together. -/
  together : Together isCall isTool marks
  bounded : ok out = true ∨ out = mandatory messages

/-! ### The exchanges -/

/-- An exchange that may still grow: a message with tool calls and results, or another message. -/
def IsExchange (e : List Message) : Prop :=
  ∃ m results, e = m :: results ∧ (∀ r ∈ results, isTool r = true) ∧ (isCall m = false → results = [])

/-- The exchanges of a turn: behind one with tool calls comes no result. -/
def Cut : List (List Message) → Prop
  | [] => True
  | e :: es => IsExchange e ∧ (e.head?.any isCall = true → ∀ m ∈ es.flatten.head?, isTool m = false) ∧ Cut es

theorem exchangesFrom_ok : ∀ (ms : List Message) {e : List Message}, IsExchange e →
    (exchangesFrom e ms).flatten = e ++ ms ∧ Cut (exchangesFrom e ms)
  | [], e, he => by
    refine ⟨by simp [exchangesFrom], he, ?_, trivial⟩
    intro _ m hm
    cases hm
  | m :: ms, e, he => by
    unfold exchangesFrom
    by_cases hgrow : e.head?.any isCall = true ∧ isTool m = true
    · rw [if_pos hgrow]
      have he' : IsExchange (e ++ [m]) := by
        obtain ⟨c, results, rfl, hresults, -⟩ := he
        refine ⟨c, results ++ [m], rfl, ?_, fun hc => ?_⟩
        · intro r hr
          rcases mem_append.mp hr with hr | hr
          · exact hresults r hr
          · rw [mem_singleton.mp hr]
            exact hgrow.2
        · have hcall : isCall c = true := hgrow.1
          rw [hc] at hcall
          cases hcall
      obtain ⟨hflat, hcut⟩ := exchangesFrom_ok ms he'
      refine ⟨?_, hcut⟩
      rw [hflat, append_assoc, singleton_append]
    · rw [if_neg hgrow]
      have hone : IsExchange [m] := ⟨m, [], rfl, by simp, fun _ => rfl⟩
      obtain ⟨hflat, hcut⟩ := exchangesFrom_ok ms hone
      refine ⟨by rw [flatten_cons, hflat]; rfl, he, ?_, hcut⟩
      intro hcall m' hm'
      rw [hflat] at hm'
      cases hm'
      exact Bool.eq_false_iff.mpr fun htool => hgrow ⟨hcall, htool⟩

/-- **The exchanges** are the turn. -/
theorem exchanges_ok (turn : List Message) : (exchanges turn).flatten = turn ∧ Cut (exchanges turn) := by
  cases turn with
  | nil => exact ⟨rfl, trivial⟩
  | cons m ms => exact exchangesFrom_ok ms ⟨m, [], rfl, by simp, fun _ => rfl⟩

/-- The marks of a turn of which the exchanges `retained` are kept, numbered from `n` on. -/
def turnMarks (retained : Finset ℕ) : ℕ → List (List Message) → List (Message × Bool)
  | _, [] => []
  | n, e :: es => mark (n ∈ retained) e ++ turnMarks retained (n + 1) es

theorem map_fst_turnMarks (retained : Finset ℕ) : ∀ (n : ℕ) (es : List (List Message)),
    (turnMarks retained n es).map (·.1) = es.flatten
  | _, [] => rfl
  | n, e :: es => by
    rw [turnMarks, map_append, map_fst_mark, map_fst_turnMarks retained (n + 1) es, flatten_cons]

theorem kept_turnMarks (retained : Finset ℕ) : ∀ (n : ℕ) (es : List (List Message)),
    kept (turnMarks retained n es) = ((es.zipIdx n).filter fun e => e.2 ∈ retained).flatMap (·.1)
  | _, [] => rfl
  | n, e :: es => by
    rw [turnMarks, kept_append, kept_mark, kept_turnMarks retained (n + 1) es, zipIdx_cons]
    by_cases hn : n ∈ retained
    · rw [filter_cons_of_pos (by simpa using hn)]
      simp [hn]
    · rw [filter_cons_of_neg (by simpa using hn)]
      simp [hn]

/-- **The exchanges keep calls and results together.** -/
theorem together_turnMarks (retained : Finset ℕ) : ∀ (n : ℕ) {es : List (List Message)}, Cut es →
    Together isCall isTool (turnMarks retained n es)
  | _, [], _ => together_mark true []
  | n, e :: es, ⟨hexchange, hborder, hcut⟩ => by
    have ih := together_turnMarks retained (n + 1) hcut
    obtain ⟨m, results, rfl, -, hresults⟩ := hexchange
    cases hcall : isCall m with
    | true =>
      refine together_append (together_mark _ _) ih fun x hx => ?_
      refine hborder hcall x.1 ?_
      rw [← map_fst_turnMarks retained (n + 1) es, head?_map, Option.mem_def.mp hx]
      rfl
    | false =>
      rw [hresults hcall]
      refine together_append_of_none (fun x hx => ?_) ih
      rw [mark_cons, mark_nil, mem_singleton] at hx
      rw [hx]
      exact hcall

theorem turnMarks_last (retained : Finset ℕ) : ∀ (n : ℕ) {es : List (List Message)}, es ≠ [] →
    n + (es.length - 1) ∈ retained → ∃ front, turnMarks retained n es = front ++ mark true (es.getLast?.getD [])
  | n, [e], _, h => by
    have hn : n ∈ retained := by simpa using h
    simp [turnMarks, hn]
  | n, e :: e' :: es, _, h => by
    have h' : n + 1 + ((e' :: es).length - 1) ∈ retained := by
      have hlength : n + 1 + ((e' :: es).length - 1) = n + ((e :: e' :: es).length - 1) := by
        simp only [length_cons]
        omega
      rwa [hlength]
    obtain ⟨front, hfront⟩ := turnMarks_last retained (n + 1) (cons_ne_nil e' es) h'
    refine ⟨mark (n ∈ retained) e ++ front, ?_⟩
    rw [turnMarks, hfront, getLast?_cons_cons, append_assoc]

theorem last_mem_mandatory {es : List (List Message)} (h : es ≠ []) : es.length - 1 ∈ mandatoryExchanges es := by
  unfold mandatoryExchanges
  rw [if_neg (by simpa using h)]
  exact Finset.mem_union_left _ (Finset.mem_singleton_self _)

/-! ### The greedy loops -/

/-- **The exchanges that are filled in**: the candidate still fits. -/
theorem fill_ok {ok : Finset ℕ → Bool} : ∀ (n : ℕ) {retained : Finset ℕ}, ok retained = true →
    ok (fill ok n retained) = true ∧ retained ⊆ fill ok n retained
  | 0, retained, h => ⟨h, Finset.Subset.refl _⟩
  | n + 1, retained, h => by
    unfold fill
    split_ifs with hskip
    · exact fill_ok n h
    · have hinsert : ok (insert n retained) = true := by
        rw [not_or, Bool.not_eq_false] at hskip
        exact hskip.2
      obtain ⟨hok, hsub⟩ := fill_ok n hinsert
      exact ⟨hok, (Finset.subset_insert _ _).trans hsub⟩

/-- **The turns that are recovered**: the candidate still fits, and they are whole turns at the end. -/
theorem recover_ok {ok : List Message → Bool} : ∀ (ms : List Message) {turn older : List Message},
    ok older = true → (∀ m ∈ older.head?, isUser m = true) →
    ok (recover ok ms turn older) = true ∧ (∀ m ∈ (recover ok ms turn older).head?, isUser m = true) ∧
      ∃ dropped, ms.reverse ++ turn ++ older = dropped ++ recover ok ms turn older
  | [], turn, older, hok, huser => ⟨hok, huser, turn, rfl⟩
  | m :: ms, turn, older, hok, huser => by
    unfold recover
    split_ifs with hm hfits
    · obtain ⟨hok', huser', dropped, hdropped⟩ := @recover_ok ok ms [] (m :: turn ++ older) hfits (by
        intro m' hm'
        cases hm'
        exact hm)
      refine ⟨hok', huser', dropped, ?_⟩
      rw [← hdropped]
      simp
    · exact ⟨hok, huser, (m :: ms).reverse ++ turn, rfl⟩
    · obtain ⟨hok', huser', dropped, hdropped⟩ := @recover_ok ok ms (m :: turn) older hok huser
      refine ⟨hok', huser', dropped, ?_⟩
      rw [← hdropped]
      simp

/-! ### The legal start -/

theorem isUser_of_isSystem {m : Message} (h : isSystem m = true) : isUser m = false := by
  unfold isUser
  rw [of_decide_eq_true h]
  rfl

theorem isSystem_retainedSystem : ∀ {system : List Message}, (∀ m ∈ system, isSystem m = true) →
    ∀ m ∈ retainedSystem system, isSystem m = true
  | [], _ => by simp [retainedSystem, isSystem]
  | [m], h => by
    have hm := h m mem_cons_self
    intro m' hm'
    rw [mem_singleton.mp hm']
    exact hm
  | m :: m' :: ms, h => by
    rw [forall_mem_cons] at h
    rw [retainedSystem, forall_mem_cons]
    exact ⟨h.1, isSystem_retainedSystem h.2⟩

theorem findIdx?_behind {α : Type} {p : α → Bool} {x : α} {back : List α} (hx : p x = true) :
    ∀ {front : List α}, (∀ y ∈ front, p y = false) → (front ++ x :: back).findIdx? p = some front.length
  | [], _ => by simp [findIdx?_cons, hx]
  | y :: front, h => by
    rw [forall_mem_cons] at h
    rw [cons_append, findIdx?_cons, h.1, findIdx?_behind hx h.2]
    rfl

theorem ensureLegalStart_eq {system body : List Message} (hsystem : ∀ m ∈ system, isSystem m = true)
    (hbody : ∀ m ∈ body, isSystem m = false)
    (hstart : (∀ m ∈ body.head?, isUser m = true) ∨ ∀ m ∈ body, isUser m = false) :
    ensureLegalStart (system ++ body) = system ++ body := by
  have hnouser : ∀ m ∈ system, isUser m = false := fun m hm => isUser_of_isSystem (hsystem m hm)
  have hnone : (∀ m ∈ body, isUser m = false) → ensureLegalStart (system ++ body) = system ++ body := by
    intro hbody'
    have hfirst : (system ++ body).findIdx? isUser = none := by
      rw [findIdx?_eq_none_iff, forall_mem_append]
      exact ⟨hnouser, hbody'⟩
    unfold ensureLegalStart
    rw [hfirst]
    generalize List.findIdx? _ (system ++ body) = firstNonSystem
    cases firstNonSystem <;> rfl
  rcases hstart with hstart | hstart
  · cases body with
    | nil => exact hnone (by simp)
    | cons m ms =>
      have hm := hstart m rfl
      unfold ensureLegalStart
      rw [findIdx?_behind (p := isUser) hm hnouser,
        findIdx?_behind (p := fun m => !isSystem m) (by rw [hbody m mem_cons_self]; rfl)
          (fun y hy => by rw [hsystem y hy]; rfl)]
      dsimp only
      rw [if_neg (lt_irrefl _)]
  · exact hnone hstart

/-! ### The snipped transcript -/

/-- **The parts** are the transcript, around the latest user message if there is one. -/
theorem parts_ok (rest : List Message) :
    rest = (parts rest).previous ++ (parts rest).anchor ++ (parts rest).currentTurn ∧
    ((∃ u, (parts rest).anchor = [u] ∧ isUser u = true ∧ ∀ m ∈ (parts rest).currentTurn, isUser m = false) ∨
      (parts rest).previous = [] ∧ (parts rest).anchor = [] ∧ ∀ m ∈ rest, isUser m = false) := by
  unfold parts
  cases hlast : findLastIndex isUser rest with
  | none => exact ⟨rfl, Or.inr ⟨rfl, rfl, findLastIndex_none hlast⟩⟩
  | some n =>
    obtain ⟨front, u, back, rfl, rfl, hu, hback⟩ := findLastIndex_some hlast
    dsimp only
    have htake : (front ++ u :: back).take front.length = front := take_left
    have hget : (front ++ u :: back)[front.length]? = some u := by simp
    have hdrop : (front ++ u :: back).drop (front.length + 1) = back := by
      rw [← drop_drop, drop_left]
      rfl
    rw [htake, hget, hdrop]
    exact ⟨by simp, Or.inl ⟨u, rfl, hu, hback⟩⟩

section Result
variable {messages : List Message} {ok : List Message → Bool} {dropped older : List Message}
  {retained : Finset ℕ}

/-- **A candidate is a snipped transcript**, if it retains the mandatory exchanges and whole turns, and fits
unless it is the mandatory one. -/
theorem snipped_build {p : Parts} (hp : p = parts (messages.filter fun m => !isSystem m))
    (hprevious : p.previous = dropped ++ older) (hstart : ∀ m ∈ older.head?, isUser m = true)
    (hretained : mandatoryExchanges (exchanges p.currentTurn) ⊆ retained) {out : List Message}
    (hout : out = build (retainedSystem (messages.filter isSystem)) p.anchor (exchanges p.currentTurn) older
      retained) (hok : ok out = true ∨ out = mandatory messages) :
    ensureLegalStart out = out ∧ ∃ marks, Snipped ok messages out marks := by
  obtain ⟨hrest, hparts⟩ := parts_ok (messages.filter fun m => !isSystem m)
  rw [← hp] at hrest hparts
  obtain ⟨hflat, hcut⟩ := exchanges_ok p.currentTurn
  generalize hturn : turnMarks retained 0 (exchanges p.currentTurn) = turn
  have hmarked : (mark false dropped ++ mark true older ++ mark true p.anchor ++ turn).map (·.1) =
      messages.filter fun m => !isSystem m := by
    rw [hrest, hprevious, ← hturn]
    simp only [map_append, map_fst_mark, map_fst_turnMarks, hflat]
  have hkept : kept (mark false dropped ++ mark true older ++ mark true p.anchor ++ turn) =
      older ++ p.anchor ++ selected (exchanges p.currentTurn) retained := by
    rw [← hturn, selected]
    simp [kept_turnMarks]
  have hout' : out = retainedSystem (messages.filter isSystem) ++
      kept (mark false dropped ++ mark true older ++ mark true p.anchor ++ turn) := by
    rw [hout, hkept, build]
    simp only [append_assoc]
  have hturnUser : ∀ x ∈ turn, x.1 ∈ p.currentTurn := by
    intro x hx
    rw [← hflat, ← map_fst_turnMarks retained 0, hturn]
    exact mem_map_of_mem hx
  have htogether : Together isCall isTool turn := hturn ▸ together_turnMarks retained 0 hcut
  have hbody : ∀ m ∈ kept (mark false dropped ++ mark true older ++ mark true p.anchor ++ turn),
      m ∈ messages.filter fun m => !isSystem m :=
    fun m hm => hmarked ▸ (kept_sublist _).subset hm
  refine ⟨?_, _, hmarked, hout', ?_, ?_, ?_, hok⟩
  · rw [hout']
    refine ensureLegalStart_eq (isSystem_retainedSystem fun m hm => (mem_filter.mp hm).2)
      (fun m hm => by simpa using (mem_filter.mp (hbody m hm)).2) ?_
    rcases hparts with ⟨u, hanchor, hu, -⟩ | ⟨-, -, hnone⟩
    · refine Or.inl fun m hm => ?_
      rw [hkept, hanchor] at hm
      cases older with
      | nil =>
        cases hm
        exact hu
      | cons m' older => exact hstart m hm
    · exact Or.inr fun m hm => hnone m (hbody m hm)
  · rcases hparts with ⟨u, hanchor, hu, hafter⟩ | ⟨-, -, hnone⟩
    · refine Or.inl ⟨dropped, older, u, turn, ?_, hu, fun x hx => hafter _ (hturnUser x hx), hstart⟩
      rw [hanchor, mark_cons, mark_nil, append_assoc _ [(u, true)], singleton_append]
    · refine Or.inr fun x hx => hnone x.1 ?_
      rw [← hmarked]
      exact mem_map_of_mem hx
  · unfold lastExchange
    rw [← hp]
    by_cases hes : exchanges p.currentTurn = []
    · rw [hes]
      exact ⟨_, (append_nil _).symm⟩
    · have hmem : 0 + ((exchanges p.currentTurn).length - 1) ∈ retained := by
        rw [Nat.zero_add]
        exact hretained (last_mem_mandatory hes)
      obtain ⟨front, hfront⟩ := turnMarks_last retained 0 hes hmem
      refine ⟨mark false dropped ++ mark true older ++ mark true p.anchor ++ front, ?_⟩
      rw [← hturn, hfront, ← append_assoc]
  · rcases hparts with ⟨u, hanchor, hu, -⟩ | ⟨hnil, hanchor, -⟩
    · have hrole : u.role = "user" := of_decide_eq_true hu
      have htool : isTool u = false := by
        unfold isTool
        rw [hrole]
        rfl
      have hcall : isCall u = false := by
        unfold isCall
        rw [hrole]
        rfl
      have hcurrent : Together isCall isTool (mark true p.anchor ++ turn) := by
        rw [hanchor]
        refine together_append_of_none (fun x hx => ?_) htogether
        rw [mark_cons, mark_nil, mem_singleton] at hx
        rw [hx]
        exact hcall
      have holder : Together isCall isTool (mark true older ++ (mark true p.anchor ++ turn)) := by
        refine together_append (together_mark _ _) hcurrent fun x hx => ?_
        rw [hanchor] at hx
        cases hx
        exact htool
      rw [append_assoc, append_assoc]
      refine together_append (together_mark _ _) holder fun x hx => ?_
      cases older with
      | nil =>
        rw [hanchor] at hx
        cases hx
        exact htool
      | cons m older =>
        cases hx
        have hm : m.role = "user" := of_decide_eq_true (hstart m rfl)
        unfold isTool
        rw [hm]
        rfl
    · rw [hnil] at hprevious
      obtain ⟨hdropped, holder⟩ := append_eq_nil_iff.mp hprevious.symm
      rw [hdropped, holder, hanchor]
      exact htogether

end Result

/-- **Every snipped transcript.** For every estimator and every positive budget that the transcript exceeds. -/
theorem snipHistory_kept (spec : RunSpec) (reservedPromptTokens : ℚ) (estimate : List Message → JsNumber)
    (messages : List Message) (budget : ℚ) (hbudget : messageBudget spec reservedPromptTokens = some budget)
    (hpositive : 0 < budget) (hexceeds : atMost (estimate messages) budget = false)
    (hrest : ∃ m ∈ messages, isSystem m = false) :
    ∃ marks, Snipped (fits estimate budget) messages
      (snipHistory spec reservedPromptTokens estimate messages) marks := by
  obtain ⟨m, hm, hsystem⟩ := hrest
  have hempty : ¬ (messages.isEmpty = true ∨ budget ≤ 0 ∨ atMost (estimate messages) budget = true) := by
    rw [not_or, not_or, hexceeds]
    exact ⟨by rw [List.isEmpty_iff]; exact List.ne_nil_of_mem hm, by linarith, Bool.false_ne_true⟩
  have hrest : ¬ (messages.filter fun m => !isSystem m).isEmpty = true := by
    rw [List.isEmpty_iff]
    exact List.ne_nil_of_mem (mem_filter.mpr ⟨hm, by rw [hsystem]; rfl⟩)
  unfold snipHistory
  rw [hbudget]
  dsimp only
  generalize hp : parts (messages.filter fun m => !isSystem m) = p
  have hmandatory : mandatory messages = build (retainedSystem (messages.filter isSystem)) p.anchor
      (exchanges p.currentTurn) [] (mandatoryExchanges (exchanges p.currentTurn)) := by
    unfold mandatory
    rw [hp]
  rw [← hmandatory]
  split_ifs with hfits
  · obtain ⟨hlegal, hsnipped⟩ := @snipped_build _ (fits estimate budget) p.previous [] _ p hp.symm
      (append_nil _).symm (by simp) (Finset.Subset.refl _) _ hmandatory (Or.inr rfl)
    rw [hlegal]
    exact hsnipped
  · rw [Bool.not_eq_false] at hfits
    rw [hmandatory] at hfits
    obtain ⟨hfill, hsub⟩ := @fill_ok (fun r => fits estimate budget (build (retainedSystem
      (messages.filter isSystem)) p.anchor (exchanges p.currentTurn) [] r)) (exchanges p.currentTurn).length _ hfits
    generalize fill _ (exchanges p.currentTurn).length _ = retained at hfill hsub ⊢
    obtain ⟨hrecover, hstart, dropped, hdropped⟩ := @recover_ok (fun older => fits estimate budget (build
      (retainedSystem (messages.filter isSystem)) p.anchor (exchanges p.currentTurn) older retained))
      p.previous.reverse [] [] hfill (by simp)
    generalize recover _ p.previous.reverse [] [] = older at hrecover hstart hdropped ⊢
    obtain ⟨hlegal, hsnipped⟩ := @snipped_build _ (fits estimate budget) dropped older _ p hp.symm
      (by simpa using hdropped) hstart hsub _ rfl (Or.inl hrecover)
    rw [hlegal]
    exact hsnipped

section Requests

/-- A window that leaves 1808 tokens for the messages. -/
def window : RunSpec where
  contextWindowTokens := some 10000

/-- A thousand tokens for a message. -/
def perMessage (messages : List Message) : JsNumber := .finite (1000 * messages.length)

theorem snipHistory_kept_question : ∃ marks, Snipped (fits perMessage 1808)
    [{ role := "user", content := .text "hi" }, { role := "assistant", content := .text "hello" }]
    (snipHistory window 0 perMessage
      [{ role := "user", content := .text "hi" }, { role := "assistant", content := .text "hello" }]) marks :=
  snipHistory_kept window 0 perMessage _ 1808 (by decide +kernel) (by norm_num) (by decide +kernel)
    ⟨_, mem_cons_self, rfl⟩

/-- **Without other messages** the system messages go to the model as they are. -/
theorem snipHistory_of_system (spec : RunSpec) (reservedPromptTokens : ℚ) (estimate : List Message → JsNumber)
    (h : ∀ m ∈ messages, isSystem m = true) :
    snipHistory spec reservedPromptTokens estimate messages = messages := by
  have hrest : (messages.filter fun m => !isSystem m) = [] := by
    rw [filter_eq_nil_iff]
    intro m hm
    rw [h m hm]
    exact Bool.false_ne_true
  unfold snipHistory
  split
  · rfl
  · dsimp only
    rw [hrest, if_pos isEmpty_nil, ite_self]

/-- Two system messages. -/
def instructions : List Message :=
  [{ role := "system", content := .text "a" }, { role := "system", content := .text "b" }]

/-- **No omission note** stands in two system messages that are over the budget. -/
theorem snipHistory_system : messageBudget window 0 = some 1808 ∧
    atMost (perMessage instructions) 1808 = false ∧
    ¬ ∃ marks, Snipped (fits perMessage 1808) instructions
      (snipHistory window 0 perMessage instructions) marks := by
  refine ⟨by decide +kernel, by decide +kernel, ?_⟩
  rintro ⟨marks, h⟩
  have hout := h.out_eq
  rw [snipHistory_of_system window 0 perMessage (by decide)] at hout
  have hb := congrArg (·[1]?) hout
  simp [instructions, retainedSystem, isSystem, mergeMessageContent] at hb
  exact absurd hb (by decide)

end Requests

end Memmy.AgentRuntime.SnipHistory
