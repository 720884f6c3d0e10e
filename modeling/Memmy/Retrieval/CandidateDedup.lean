import Mathlib.Algebra.Order.Ring.Rat
import Mathlib.Data.Rat.Defs
import Memmy.Lib.Groups
import Memmy.Lib.JsonValue
import Memmy.Lib.KeyMap
import Memmy.Lib.Sort

/-! # Copies of a native turn among the candidates

The same turn of a local agent can have been written under several accounts. Before the ranking,
`deduplicateCrossAccountMemoryCandidates` groups the candidates by the key of their native turn, keeps the
best of each group, gives it the best score of each channel and the vectors that it lacks, and notes for
each candidate which memory stands for it.

The key holds the conversation of the candidate's session. Where the session has none of its own, the
conversation of the memory stands in, and what is found for a session is kept for the later candidates
of it (`Cache`). -/

namespace Memmy.Retrieval.CandidateDedup

open Lib Lib.Groups Lib.JsonValue Lib.Sort Lib.Text

/-! ### Memories -/

inductive RetrievalChannel where
  | vec
  | vecSummary
  | vecAction
  | fts
  | pattern
  | structural
  deriving DecidableEq, Repr

def RetrievalChannel.all : List RetrievalChannel := [vec, vecSummary, vecAction, fts, pattern, structural]

theorem RetrievalChannel.mem_all (channel : RetrievalChannel) : channel ∈ all := by
  cases channel <;> decide

/-- `SeededChannelScores` -/
abbrev ChannelScores : Type := RetrievalChannel → Option ℚ

inductive VectorField where
  | vecSummary
  | vecAction
  | vec
  deriving DecidableEq, Repr

/-- The vectors that are attached to a memory, and which of them are to be stored. -/
structure VectorState (V : Type) where
  value : VectorField → Option V
  dirty : VectorField → Bool

structure MemoryRow (V : Type) where
  id : String
  userId : String
  conversationId : Option String
  sessionId : Option String
  memoryLayer : String
  memoryValue : String
  info : JsonObject
  internalInfo : JsonObject
  contentHash : Option String
  createdAt : String
  vectors : VectorState V

structure SessionRow where
  conversationId : Option String
  source : String
  profileId : String
  projectId : Option String
  workspaceId : Option String
  metadata : JsonObject

/-- The sessions of the store, the user whose memories are preferred, and `stableHash` of a scope and of a
text. -/
structure Context where
  getSession : String → Option SessionRow
  preferredUserId : String
  hashScope : Option String → Option String → Option String → String
  hashText : String → String

/-! ### The key of a native turn -/

/-- `text(value)` -/
def text : Option Json → Option String
  | some (.str s) => if trim s = "" then none else some (trim s)
  | _ => none

/-- `value?.trim() || undefined` -/
def trimmed (value : Option String) : Option String := (value.map trim).filter (· ≠ "")

/-- What `stableHash({ source, profileId, namespaceKey, conversationId })` is made of. -/
structure NativeConversation where
  source : String
  profileId : String
  namespaceKey : String
  conversationId : String
  deriving DecidableEq, Repr

inductive Step where
  | index (n : ℚ)
  | content (hash : String)
  deriving DecidableEq, Repr

/-- What `stableHash({ nativeConversation, turnId, stepIndex })` is made of. -/
structure TurnKey where
  conversation : NativeConversation
  turnId : String
  step : Step
  deriving DecidableEq, Repr

/-- A session whose native conversation is known, `undefined` included. -/
abbrev Cache : Type := String → Option (Option NativeConversation)

section Key

variable {V : Type} (c : Context)

/-- What `nativeConversationKey` finds for a session when it is asked with this memory. -/
def nativeConversation (sessionId : String) (memory : MemoryRow V) : Option NativeConversation := do
  let session ← c.getSession sessionId
  let conversationId ← (trimmed session.conversationId).or (trimmed memory.conversationId)
  let source ← trimmed (some session.source)
  let profileId ← trimmed (some session.profileId)
  let tenantId := (text (JsonObject.get? session.metadata "tenant_id")).or
    (text (JsonObject.get? session.metadata "tenantId"))
  let namespaceKey := (text (JsonObject.get? session.metadata "source_namespace_key")).getD
    (c.hashScope tenantId session.projectId session.workspaceId)
  return ⟨source, profileId, namespaceKey, conversationId⟩

/-- The session of a memory: an empty id is none. -/
def sessionOf (memory : MemoryRow V) : Option String := memory.sessionId.filter (· ≠ "")

/-- `nativeConversationKey(memory, repos, cache)` -/
def nativeConversationKey (cache : Cache) (memory : MemoryRow V) : Option NativeConversation × Cache :=
  match sessionOf memory with
  | none => (none, cache)
  | some sessionId =>
    match cache sessionId with
    | some key => (key, cache)
    | none =>
      let key := nativeConversation c sessionId memory
      (key, Function.update cache sessionId (some key))

/-- A trace of a turn: another layer and work memories have no native turn. -/
def isTrace (memory : MemoryRow V) : Bool :=
  memory.memoryLayer = "L1" &&
    (JsonObject.get? memory.internalInfo "memory_kind").bind Json.str? ≠ some "work_memory"

def turnOf (memory : MemoryRow V) : Option (String × Step) :=
  let trace := ((JsonObject.get? memory.internalInfo "trace").bind Json.record?).or
    ((JsonObject.get? memory.info "trace").bind Json.record?)
  let turnId := (text (JsonObject.get? memory.info "turn_id")).or
    (text (trace.bind fun trace => JsonObject.get? trace "turn_id"))
  let step := match trace.bind fun trace => JsonObject.get? trace "step_index" with
    | some (.num (.finite n)) => .index n
    | _ => .content (memory.contentHash.getD (c.hashText memory.memoryValue))
  turnId.map fun turnId => (turnId, step)

/-- The key of a memory whose session has the given conversation. -/
def keyIn (conversation : Option NativeConversation) (memory : MemoryRow V) : Option TurnKey := do
  let conversation ← conversation
  let turn ← turnOf c memory
  return ⟨conversation, turn.1, turn.2⟩

/-- `duplicateKey(memory, repos, nativeConversationBySessionId)` -/
def duplicateKey (cache : Cache) (memory : MemoryRow V) : Option TurnKey × Cache :=
  if isTrace memory then
    let (conversation, cache) := nativeConversationKey c cache memory
    (keyIn c conversation memory, cache)
  else (none, cache)

end Key

/-! ### The groups and their representatives -/

/-- A key of the map of groups: `unique:${index}:${id}`, or the key of a native turn. -/
inductive GroupKey where
  | unique (index : ℕ) (id : String)
  | turn (key : TurnKey)
  deriving DecidableEq, Repr

def groupKeyOf (key : Option TurnKey) (index : ℕ) (id : String) : GroupKey :=
  match key with
  | none => .unique index id
  | some key => .turn key

section Dedup

variable {V : Type} (c : Context) (scores : String → Option ChannelScores)

/-- One candidate: it joins the group of its native turn; a unique key is always new. -/
def addCandidate (state : List (Group GroupKey (MemoryRow V)) × Cache) (item : MemoryRow V × ℕ) :
    List (Group GroupKey (MemoryRow V)) × Cache :=
  let (key, cache) := duplicateKey c state.2 item.1
  (add state.1 (groupKeyOf key item.2 item.1.id) item.2 item.1, cache)

/-- `candidateScore(memory, scores)` -/
def candidateScore (id : String) : ℚ :=
  match scores id with
  | none => 0
  | some channels => (RetrievalChannel.all.filterMap channels).foldl max 0

/-- Preferred user, score, creation time, id. -/
def candidateOrder : MemoryRow V → MemoryRow V → Ordering :=
  compareLex (descending fun memory => decide (memory.userId = c.preferredUserId))
    (compareLex (descending fun memory => candidateScore scores memory.id)
      (compareLex (ascending MemoryRow.createdAt) (ascending MemoryRow.id)))

/-- The vectors that the representative lacks are attached to it. -/
def attachMissing (vectors other : VectorState V) : VectorState V where
  value field := (vectors.value field).or (other.value field)
  dirty field := vectors.dirty field || ((vectors.value field).isNone && (other.value field).isSome)

def attachVectors (representative : MemoryRow V) (members : List (MemoryRow V)) : MemoryRow V :=
  if members.length = 1 then representative
  else { representative with
    vectors := members.foldl (fun vectors memory => attachMissing vectors memory.vectors) representative.vectors }

/-- The greater of a channel's score and another one. -/
def mergeChannel (current score : Option ℚ) : Option ℚ :=
  match score, current with
  | none, current => current
  | some score, none => some score
  | some score, some current => if current < score then some score else some current

/-- The best score of each channel. -/
def mergeScores (members : List (MemoryRow V)) : ChannelScores :=
  members.foldl (fun merged memory channel =>
    mergeChannel (merged channel) ((scores memory.id).bind fun channels => channels channel)) fun _ => none

/-- The scores that are kept for a representative. -/
def scoresOf (representative : MemoryRow V) (members : List (MemoryRow V)) : Option ChannelScores :=
  if members.length = 1 then scores representative.id
  else if RetrievalChannel.all.any fun channel => (mergeScores scores members channel).isSome then
    some (mergeScores scores members)
  else none

structure DedupResult (V : Type) where
  memories : List (MemoryRow V)
  channelScoresByMemory : List (String × ChannelScores)
  memoryIdByMemoryId : List (String × String)

namespace DedupResult

variable (result : DedupResult V)

/-- `memoryIdByMemoryId.get(id)` -/
def representativeId (id : String) : Option String :=
  (KeyMap.get? Prod.fst result.memoryIdByMemoryId id).map (·.2)

/-- `channelScoresByMemory.get(id)` -/
def channelScores (id : String) : Option ChannelScores :=
  (KeyMap.get? Prod.fst result.channelScoresByMemory id).map (·.2)

end DedupResult

/-- The groups, in the order of their first members, each with its representative. -/
def selectedGroups (memories : List (MemoryRow V)) : List (MemoryRow V × List (MemoryRow V)) :=
  let groups := (memories.zipIdx.foldl (addCandidate c) ([], fun _ => none)).1
  (sortBy (ascending Group.firstIndex) groups).filterMap fun group =>
    (sortBy (candidateOrder c scores) group.members).head?.map fun representative =>
      (representative, group.members)

/-- **`deduplicateCrossAccountMemoryCandidates(input)`** -/
def deduplicateCrossAccountMemoryCandidates (memories : List (MemoryRow V)) : DedupResult V :=
  let selected := selectedGroups c scores memories
  {
    memories := selected.map fun group => attachVectors group.1 group.2
    channelScoresByMemory := KeyMap.ofList Prod.fst (selected.filterMap fun group =>
      (scoresOf scores group.1 group.2).map fun channels => (group.1.id, channels))
    memoryIdByMemoryId := KeyMap.ofList Prod.fst (selected.flatMap fun group =>
      group.2.map fun memory => (memory.id, group.1.id)) }

end Dedup

end Memmy.Retrieval.CandidateDedup
