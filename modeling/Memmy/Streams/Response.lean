import Memmy.Lib.Channels
import Memmy.Lib.JsonValue

/-! # A model response

What a provider's parsers return, and what a streaming parser delivers on the way. -/

namespace Memmy.Streams.Response

open Lib.Channels Lib.Text Lib.JsonValue List

structure ToolCallRequest where
  id : String
  name : String
  arguments : JsonObject

inductive ThinkingBlock where
  | thinking (thinking signature : String)
  | redacted (content : Json)

structure LLMResponse where
  content : Option String
  toolCalls : List ToolCallRequest
  finishReason : String
  usage : JsonObject
  thinkingBlocks : Option (List ThinkingBlock)
  reasoningContent : Option String

/-- `text || null` -/
def textOrNull (text : String) : Option String := if text = "" then none else some text

/-- `blocks.length ? blocks : null` -/
def blocksOrNull (blocks : List ThinkingBlock) : Option (List ThinkingBlock) :=
  if blocks = [] then none else some blocks

/-- What `parseToolArguments` makes of a text that is not blank (`JSON.parse` with its repairs), and
`String(value)`. -/
structure ToolJson where
  parseText : String → JsonObject
  stringOf : Json → String

/-- `parseToolArguments(value)`; `none` is `undefined`. -/
def parseToolArguments (p : ToolJson) : Option Json → JsonObject
  | none => []
  | some .null => []
  | some (.obj fields) => fields
  | some value =>
    let text := trim (match value with
      | .str s => s
      | value => p.stringOf value)
    if text = "" then [] else p.parseText text

/-- A number of tokens. -/
def tokens (n : ℕ) : Json := .num (.finite n)

/-- A response that was streamed, and the deltas of its content in the order of their delivery. -/
structure Streamed where
  response : LLMResponse
  deltas : List String

/-- **The stream returns the response** `r`, and has delivered its content. -/
def Streamed.Returns (s : Streamed) (r : LLMResponse) : Prop :=
  s.response = r ∧ String.join s.deltas = s.response.content.getD ""

theorem textOrNull_getD (text : String) : (textOrNull text).getD "" = text := by
  unfold textOrNull
  by_cases h : text = ""
  · rw [if_pos h, h]
    rfl
  · rw [if_neg h]
    rfl

theorem textOrNull_eq_iff (text : Option String) : textOrNull (text.getD "") = text ↔ text ≠ some "" := by
  cases text with
  | none => exact ⟨fun _ h => (nomatch h), fun _ => rfl⟩
  | some text =>
    unfold textOrNull
    by_cases h : text = ""
    · subst h
      exact ⟨fun h => (nomatch h), fun h => absurd rfl h⟩
    · simp [h]

theorem blocksOrNull_inj {l m : List ThinkingBlock} (h : blocksOrNull l = blocksOrNull m) : l = m := by
  unfold blocksOrNull at h
  by_cases hl : l = []
  · by_cases hm : m = []
    · rw [hl, hm]
    · rw [if_pos hl, if_neg hm] at h
      cases h
  · by_cases hm : m = []
    · rw [if_neg hl, if_pos hm] at h
      cases h
    · rw [if_neg hl, if_neg hm] at h
      exact Option.some.inj h

/-! ### Joined texts -/

variable {α : Type*}

theorem join_flatMap (g : α → List String) (l : List α) :
    String.join (l.flatMap g) = String.join (l.map fun x => String.join (g x)) := by
  induction l with
  | nil => rfl
  | cons x l ih =>
    rw [flatMap_cons, String.join_append, ih, map_cons, String.join_cons]

theorem join_filterMap (f : α → Option String) (l : List α) :
    String.join (l.filterMap f) = String.join (l.map fun x => (f x).getD "") := by
  induction l with
  | nil => rfl
  | cons x l ih =>
    rw [filterMap_cons, map_cons, String.join_cons, ← ih]
    cases f x with
    | none => simp
    | some text => rw [String.join_cons]; rfl

/-- The texts of a stream in the order of its channels are the texts of its channels. -/
theorem join_of_sorted {n : ℕ} {l : List (ℕ × String)} (hsorted : l.Pairwise (·.1 ≤ ·.1))
    (hlt : ∀ e ∈ l, e.1 < n) :
    String.join (l.map (·.2)) = String.join ((List.range n).map fun i => String.join (channel i l)) := by
  rw [map_snd_eq_flatMap n hsorted hlt, join_flatMap]

theorem map_range_getElem? {β : Type*} (f : Option α → β) (l : List α) :
    (List.range l.length).map (fun i => f l[i]?) = l.map fun x => f (some x) := by
  refine ext_getElem (by simp) fun i hi _ => ?_
  simp at hi
  simp [hi]

theorem filterMap_range_getElem? {β : Type*} (f : α → Option β) (l : List α) :
    (List.range l.length).filterMap (fun i => l[i]?.bind f) = l.filterMap f := by
  have hmap := congrArg (List.filterMap id) (map_range_getElem? (·.bind f) l)
  rw [filterMap_map, filterMap_map] at hmap
  exact hmap

/-! ### The deltas of a stream -/

section

variable {ε α : Type*} (f : ε → List String)

/-- The deltas that the events deliver, each with the index of its event. -/
def deltaEvents (events : List (ℕ × ε)) : List (ℕ × String) :=
  events.flatMap fun e => (f e.2).map fun text => (e.1, text)

theorem map_snd_deltaEvents (events : List (ℕ × ε)) :
    (deltaEvents f events).map (·.2) = events.flatMap fun e => f e.2 := by
  unfold deltaEvents
  rw [map_flatMap]
  refine flatMap_congr fun e _ => ?_
  rw [map_map]
  exact map_id _

theorem channel_deltaEvents (index : ℕ) (events : List (ℕ × ε)) :
    channel index (deltaEvents f events) = (channel index events).flatMap f := by
  induction events with
  | nil => rfl
  | cons e events ih =>
    unfold deltaEvents at ih ⊢
    rw [flatMap_cons, channel_append, ih]
    by_cases he : e.1 = index
    · have hfirst : channel index ((f e.2).map fun text => (e.1, text)) = f e.2 := by
        simp [channel, he, filter_map, Function.comp_def]
      rw [hfirst, channel, channel, filter_cons_of_pos (by simpa using he), map_cons, flatMap_cons]
    · have hfirst : channel index ((f e.2).map fun text => (e.1, text)) = [] := by
        simp [channel, he, filter_map, Function.comp_def]
      rw [hfirst, nil_append, channel, channel, filter_cons_of_neg (by simpa using he)]

variable {f}

/-- **The deltas deliver the texts of the items,** when they come in the order of the items. -/
theorem join_deltaEvents {items : List α} {text : α → Option String} {events : List (ℕ × ε)}
    (hsorted : (deltaEvents f events).Pairwise (·.1 ≤ ·.1))
    (hnil : ∀ i, items.length ≤ i → channel i events = [])
    (h : ∀ i, String.join ((channel i events).flatMap f) = (items[i]?.bind text).getD "") :
    String.join ((deltaEvents f events).map (·.2)) = String.join (items.filterMap text) := by
  have hlt : ∀ e ∈ deltaEvents f events, e.1 < items.length := by
    intro e he
    by_contra hle
    have hnone : channel e.1 (deltaEvents f events) = [] := by
      rw [channel_deltaEvents, hnil e.1 (Nat.le_of_not_lt hle)]
      rfl
    exact channel_eq_nil_iff.mp hnone (mem_opened.mpr (mem_map.mpr ⟨e, he, rfl⟩))
  have hitems := map_range_getElem? (fun item => (item.bind text).getD "") items
  rw [join_of_sorted hsorted hlt, join_filterMap]
  refine (congrArg String.join (map_congr_left fun i _ => ?_)).trans (congrArg String.join hitems)
  rw [channel_deltaEvents]
  exact h i

end

end Memmy.Streams.Response
