import Memmy.Lib.JsonValue

/-! # Messages and sessions

The fields of a message that the trimming of a session and the preparation of a model request read.
The tool calls of an assistant message and the result messages are paired by their ids: an id that
is missing or empty is no id (`truthyId`). `findLegalMessageStart` is where a window of messages may
begin without an orphan tool result. -/

namespace Memmy.Conversation.Transcript

open Lib.JsonValue List

structure ToolCall where
  id : Option String
  name : Option String := none
  deriving DecidableEq, Repr

structure ContentBlock where
  type : String
  text : Option String := none
  deriving DecidableEq, Repr

inductive Content where
  | null
  | text (s : String)
  | blocks (bs : List ContentBlock)
  deriving DecidableEq, Repr

structure Message where
  role : String
  content : Content := .null
  toolCalls : List ToolCall := []
  toolCallId : Option String := none
  name : Option String := none
  /-- A channel has sent it to the user on its own. -/
  channelDelivery : Bool := false
  deriving DecidableEq, Repr

/-- A session over messages of type `M`. Its `lastConsolidated` is an index; what a file holds there is
any number. -/
structure Session (M C : Type) where
  key : String
  messages : List M
  metadata : JsonObject := []
  lastConsolidated : C
  createdAt : String
  updatedAt : String

namespace Session

variable {M N C : Type}

def map (f : N → M) (s : Session N C) : Session M C := { s with messages := s.messages.map f }

/-- Every message with its position. -/
def numbered (s : Session M C) : Session (M × ℕ) C := { s with messages := s.messages.zipIdx }

@[simp] theorem map_messages (f : N → M) (s : Session N C) : (s.map f).messages = s.messages.map f := rfl

@[simp] theorem map_lastConsolidated (f : N → M) (s : Session N C) :
    (s.map f).lastConsolidated = s.lastConsolidated := rfl

@[simp] theorem numbered_messages (s : Session M C) : s.numbered.messages = s.messages.zipIdx := rfl

@[simp] theorem numbered_lastConsolidated (s : Session M C) :
    s.numbered.lastConsolidated = s.lastConsolidated := rfl

theorem map_numbered (s : Session M C) : s.numbered.map Prod.fst = s := by
  simp [map, numbered, zipIdx_map_fst]

end Session

/-- An id as a condition sees it: the empty string is false. -/
def truthyId (id : Option String) : Option String := id.filter (· ≠ "")

def declaredIds (msg : Message) : List String :=
  if msg.role = "assistant" then msg.toolCalls.filterMap fun c => truthyId c.id else []

/-- The id a tool message answers. -/
def resultId (msg : Message) : Option String :=
  if msg.role = "tool" then truthyId msg.toolCallId else none

def isUser (msg : Message) : Bool := msg.role = "user"

variable {M N : Type} (view : M → Message)

/-- The loop of `findLegalMessageStart`, at index `i`. -/
def legalStartFrom : ℕ → ℕ → List String → List M → ℕ
  | _, start, _, [] => start
  | i, start, declared, m :: ms =>
    match resultId (view m) with
    | some id =>
      if id ∈ declared then legalStartFrom (i + 1) start declared ms
      else legalStartFrom (i + 1) (i + 1) [] ms
    | none => legalStartFrom (i + 1) start (declaredIds (view m) ++ declared) ms

def findLegalMessageStart (messages : List M) : ℕ := legalStartFrom view 0 0 [] messages

/-- Every tool result with an id answers an id declared before it. -/
def NoOrphans : List String → List M → Prop
  | _, [] => True
  | declared, m :: ms =>
    (∀ id ∈ resultId (view m), id ∈ declared) ∧ NoOrphans (declaredIds (view m) ++ declared) ms

theorem declaredIds_of_resultId {msg : Message} {id : String} (h : resultId msg = some id) :
    declaredIds msg = [] := by
  unfold resultId at h
  unfold declaredIds
  split_ifs at h with ht
  rw [if_neg (by rw [ht]; decide)]

theorem legalStartFrom_eq_of_noOrphans : ∀ (ms : List M) (i start : ℕ) (declared : List String),
    NoOrphans view declared ms → legalStartFrom view i start declared ms = start
  | [], _, _, _, _ => rfl
  | m :: ms, i, start, declared, ⟨h1, h2⟩ => by
    unfold legalStartFrom
    split
    · next id hid =>
      rw [if_pos (h1 id hid)]
      rw [declaredIds_of_resultId hid, nil_append] at h2
      exact legalStartFrom_eq_of_noOrphans ms _ _ _ h2
    · exact legalStartFrom_eq_of_noOrphans ms _ _ _ h2

theorem legalStartFrom_spec : ∀ (ms : List M) (i start : ℕ) (declared : List String),
    (legalStartFrom view i start declared ms = start ∧ NoOrphans view declared ms) ∨
      ∃ k < ms.length, legalStartFrom view i start declared ms = i + k + 1 ∧ NoOrphans view [] (ms.drop (k + 1))
  | [], _, _, _ => Or.inl ⟨rfl, trivial⟩
  | m :: ms, i, start, declared => by
    have later : ∀ start' declared',
        (∃ k < ms.length, legalStartFrom view (i + 1) start' declared' ms = i + 1 + k + 1 ∧
          NoOrphans view [] (ms.drop (k + 1))) →
        ∃ k < (m :: ms).length, legalStartFrom view (i + 1) start' declared' ms = i + k + 1 ∧
          NoOrphans view [] ((m :: ms).drop (k + 1)) := by
      rintro start' declared' ⟨k, hk, h1, h2⟩
      exact ⟨k + 1, by simpa using hk, by omega, by simpa using h2⟩
    cases hid : resultId (view m) with
    | some id =>
      have hnil := declaredIds_of_resultId hid
      by_cases hd : id ∈ declared
      · simp only [legalStartFrom, hid, if_pos hd]
        rcases legalStartFrom_spec ms (i + 1) start declared with ⟨h1, h2⟩ | h
        · exact Or.inl ⟨h1, by simpa [NoOrphans, hid, hnil] using ⟨hd, h2⟩⟩
        · exact Or.inr (later _ _ h)
      · simp only [legalStartFrom, hid, if_neg hd]
        right
        rcases legalStartFrom_spec ms (i + 1) (i + 1) [] with ⟨h1, h2⟩ | h
        · exact ⟨0, by simp, by omega, by simpa using h2⟩
        · exact later _ _ h
    | none =>
      simp only [legalStartFrom, hid]
      rcases legalStartFrom_spec ms (i + 1) start (declaredIds (view m) ++ declared) with
        ⟨h1, h2⟩ | h
      · exact Or.inl ⟨h1, by simpa [NoOrphans, hid] using h2⟩
      · exact Or.inr (later _ _ h)

/-- A window cut at its legal start needs no second cut. -/
theorem findLegalMessageStart_drop (ms : List M) :
    findLegalMessageStart view (ms.drop (findLegalMessageStart view ms)) = 0 := by
  unfold findLegalMessageStart
  rcases legalStartFrom_spec view ms 0 0 [] with ⟨h, hn⟩ | ⟨k, -, h, hn⟩
  · rw [h, drop_zero]; exact legalStartFrom_eq_of_noOrphans view _ _ _ _ hn
  · rw [h, Nat.zero_add]; exact legalStartFrom_eq_of_noOrphans view _ _ _ _ hn

theorem legalStartFrom_map (f : N → M) : ∀ (ms : List N) (i start : ℕ) (declared : List String),
    legalStartFrom view i start declared (ms.map f) =
      legalStartFrom (fun n => view (f n)) i start declared ms
  | [], _, _, _ => rfl
  | n :: ns, i, start, declared => by
    simp only [map_cons, legalStartFrom, legalStartFrom_map f ns]

theorem findLegalMessageStart_map (f : N → M) (ms : List N) :
    findLegalMessageStart view (ms.map f) = findLegalMessageStart (fun n => view (f n)) ms :=
  legalStartFrom_map view f ms 0 0 []

/-- The index of the last user message. -/
def lastUserIndex : List M → Option ℕ
  | [] => none
  | m :: ms =>
    match lastUserIndex ms with
    | some i => some (i + 1)
    | none => if isUser (view m) then some 0 else none

theorem lastUserIndex_map (f : N → M) : ∀ ms : List N,
    lastUserIndex view (ms.map f) = lastUserIndex (fun n => view (f n)) ms
  | [] => rfl
  | n :: ns => by simp only [map_cons, lastUserIndex, lastUserIndex_map f ns]

theorem lastUserIndex_eq_none : ∀ {ms : List M},
    lastUserIndex view ms = none ↔ ∀ m ∈ ms, isUser (view m) = false
  | [] => by simp [lastUserIndex]
  | m :: ms => by
    unfold lastUserIndex
    cases h : lastUserIndex view ms with
    | some i =>
      have := mt lastUserIndex_eq_none.mpr (by rw [h]; simp)
      simp only [reduceCtorEq, false_iff, forall_mem_cons]
      exact fun hc => this hc.2
    | none =>
      have hms := lastUserIndex_eq_none.mp h
      by_cases hu : isUser (view m) = true
      · simp [hu]
      · simpa [hu] using hms

theorem lastUserIndex_eq_some : ∀ {ms : List M} {i : ℕ}, lastUserIndex view ms = some i →
    i < ms.length ∧ (∀ m ∈ ms.drop (i + 1), isUser (view m) = false) ∧
      ∀ h : i < ms.length, isUser (view ms[i]) = true
  | [], _, h => by simp [lastUserIndex] at h
  | m :: ms, i, h => by
    unfold lastUserIndex at h
    cases hms : lastUserIndex view ms with
    | some j =>
      rw [hms] at h
      simp only [Option.some.injEq] at h
      subst h
      obtain ⟨h1, h2, h3⟩ := lastUserIndex_eq_some hms
      exact ⟨by simpa using h1, by simpa using h2, fun hj => by simpa using h3 h1⟩
    | none =>
      rw [hms] at h
      split_ifs at h with hu
      cases h
      exact ⟨by simp, by simpa using (lastUserIndex_eq_none view).mp hms, fun _ => by simpa using hu⟩

end Memmy.Conversation.Transcript
