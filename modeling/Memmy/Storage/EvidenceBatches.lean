import Memmy.Lib.Blocks
import Memmy.Storage.Jobs

/-! # The evidence batches of the world model

The traces of a session are numbered as they are registered. `freezeBatches` cuts those behind the
cursor of the session, up to a bound, into batches of at most twenty raw turns, gives each the next
number of the scope, and queues one job for each target field. A call that throws changes nothing.
The keys of a scope are hashes; `scopeKeyOf` stands for the hash. Random ids are inputs.

* `registerInputTrace`: the next trace of a session.
* `freezeBatches`: the batches of a session up to a bound.
* `DbOp`, `applyDbOp`: a call, and the database after it. -/

namespace Memmy.Storage.EvidenceBatches

open Lib.Rows Lib.Sort Lib.Blocks
open Storage.Jobs

/-! ### Rows -/

inductive BatchTrigger where
  | newTask
  | tokenCompaction
  | tokenCompactionAttempt
  | sessionClose
  | episodeIdleClose
  deriving DecidableEq, Repr

inductive TargetField where
  | generalRulesAndSafetyConstraints
  | projectContract
  | domainKnowledge
  deriving DecidableEq, Repr

def TargetField.text : TargetField → String
  | generalRulesAndSafetyConstraints => "general_rules_and_safety_constraints"
  | projectContract => "project_contract"
  | domainKnowledge => "domain_knowledge"

structure Session where
  id : String
  userId : String
  projectId : Option String
  protocolVersion : Option ℕ

structure InputTrace where
  sessionId : String
  traceSeq : ℕ
  l1MemoryId : String
  rawTurnId : String
  episodeId : Option String
  createdAt : ℕ

structure Scope where
  scopeKey : String
  userId : String
  projectId : Option String
  nextScopeSeq : ℕ
  updatedAt : ℕ

structure Feedback where
  id : String
  rawTurnId : Option String
  l1MemoryId : Option String
  createdAt : ℕ

structure Batch where
  id : String
  scopeKey : String
  scopeSeq : ℕ
  userId : String
  projectId : Option String
  sessionId : String
  trigger : BatchTrigger
  startTraceSeq : ℕ
  endTraceSeq : ℕ
  l1MemoryIds : List String
  rawTurnIds : List String
  feedbackIds : List String
  createdAt : ℕ

structure BatchTarget where
  batchId : String
  targetField : TargetField
  fieldScopeKey : String
  scopeSeq : ℕ
  updatedAt : ℕ

structure Db where
  sessions : List Session
  feedback : List Feedback
  traces : List InputTrace := []
  /-- `l3_world_model_session_cursors`: the session and `last_scheduled_seq`. -/
  cursors : List (String × ℕ) := []
  scopes : List Scope := []
  batches : List Batch := []
  targets : List BatchTarget := []
  jobs : List Job := []

/-! ### Traces -/

def requireV2Session (db : Db) (sessionId : String) : Except String Session :=
  match db.sessions.find? fun s => s.id = sessionId with
  | none => .error s!"session not found: {sessionId}"
  | some session =>
    if session.protocolVersion = some 2 then .ok session
    else .error "l3_world_model_protocol_v2_required"

def sessionTraces (db : Db) (sessionId : String) : List InputTrace :=
  db.traces.filter fun t => t.sessionId = sessionId

/-- `COALESCE(MAX(trace_seq), 0)`. -/
def maxTraceSeq (traces : List InputTrace) : ℕ := (traces.map (·.traceSeq)).foldr max 0

structure TraceInput where
  sessionId : String
  l1MemoryId : String
  rawTurnId : String
  episodeId : Option String := none
  createdAt : ℕ

def registerInputTrace (input : TraceInput) (db : Db) : Except String (Db × InputTrace) := do
  let session ← requireV2Session db input.sessionId
  match (sessionTraces db input.sessionId).find? fun t => t.l1MemoryId = input.l1MemoryId with
  | some existing => .ok (db, existing)
  | none =>
    let trace : InputTrace :=
      { sessionId := session.id
        traceSeq := maxTraceSeq (sessionTraces db session.id) + 1
        l1MemoryId := input.l1MemoryId
        rawTurnId := input.rawTurnId
        episodeId := input.episodeId
        createdAt := input.createdAt }
    .ok ({ db with traces := db.traces ++ [trace] }, trace)

/-! ### Batches -/

structure FreezeInput where
  sessionId : String
  trigger : BatchTrigger
  throughL1MemoryId : Option String := none
  episodeId : Option String := none
  at_ : ℕ
  newBatchId : ℕ → String
  newJobId : ℕ → TargetField → String

def cursorOf (db : Db) (sessionId : String) : ℕ :=
  ((db.cursors.find? fun c => c.1 = sessionId).map (·.2)).getD 0

def ensureCursor (db : Db) (sessionId : String) : Db :=
  if db.cursors.any fun c => c.1 = sessionId then db
  else { db with cursors := db.cursors ++ [(sessionId, 0)] }

def setCursor (db : Db) (sessionId : String) (seq : ℕ) : Db :=
  { db with cursors := update (fun c => decide (c.1 = sessionId)) (fun c => (c.1, seq)) db.cursors }

/-- The three rules for the last trace of the call. An empty text is a missing one. -/
def endTraceSeq (input : FreezeInput) (db : Db) (session : Session) : Except String ℕ :=
  let traces := sessionTraces db session.id
  match input.throughL1MemoryId.filter (· ≠ "") with
  | some through =>
    match traces.find? fun t => t.l1MemoryId = through with
    | none => .error "through L1 memory does not belong to the L3 World Model session trace"
    | some trace => .ok trace.traceSeq
  | none =>
    if input.trigger = .episodeIdleClose then
      match input.episodeId.filter (· ≠ "") with
      | none => .error "episode_idle_close requires episodeId"
      | some episodeId => .ok (maxTraceSeq (traces.filter fun t => t.episodeId = some episodeId))
    else .ok (maxTraceSeq traces)

def splitL3TracesByRawTurn (traces : List InputTrace) (maxRawTurns : ℕ) : List (List InputTrace) :=
  chunks maxRawTurns (groupBy (·.rawTurnId) traces)

def getScope (db : Db) (userId : String) (projectId : Option String) : Option Scope :=
  db.scopes.find? fun s => s.userId = userId && s.projectId = projectId

def targetFields (projectId : Option String) : List TargetField :=
  if projectId.any (· ≠ "") then [.projectContract, .domainKnowledge]
  else [.generalRulesAndSafetyConstraints]

def l3WorldModelFieldScopeKey (scopeKey : String) (field : TargetField) : String := s!"{scopeKey}:{field.text}"

def feedbackIdsForBatch (db : Db) (l1MemoryIds rawTurnIds : List String) : List String :=
  ((sortBy (compareLex (ascending (·.createdAt)) (ascending (·.id)))
    (db.feedback.filter fun f => f.rawTurnId.any (fun t => decide (t ∈ rawTurnIds)) ||
      f.l1MemoryId.any fun m => decide (m ∈ l1MemoryIds))).map (·.id)).eraseDups

section
variable (scopeKeyOf : String → Option String → String)

def ensureScope (db : Db) (userId : String) (projectId : Option String) (at_ : ℕ) :
    Except String (Db × Scope) :=
  let scopeKey := scopeKeyOf userId projectId
  let known := db.scopes.any fun s => s.scopeKey = scopeKey
  if !known && (getScope db userId projectId).isSome then
    .error "UNIQUE constraint failed: l3_world_model_scopes.user_id"
  else
    let new : Scope := { scopeKey, userId, projectId, nextScopeSeq := 1, updatedAt := at_ }
    let db := if known then db else { db with scopes := db.scopes ++ [new] }
    match getScope db userId projectId with
    | some scope =>
      if scope.scopeKey = scopeKey then .ok (db, scope)
      else .error "corrupt L3 World Model scope ownership"
    | none => .error "corrupt L3 World Model scope ownership"

def claimedScope (at_ : ℕ) (s : Scope) : Scope :=
  { s with nextScopeSeq := s.nextScopeSeq + 1, updatedAt := at_ }

/-- The number that the `UPDATE ... RETURNING` claims. -/
def claimScopeSeq (db : Db) (scopeKey : String) (at_ : ℕ) : Except String (Db × ℕ) :=
  match db.scopes.find? fun s => s.scopeKey = scopeKey with
  | none => .error "failed to claim L3 World Model scope sequence"
  | some scope =>
    .ok ({ db with
      scopes := update (fun s => decide (s.scopeKey = scopeKey)) (claimedScope at_) db.scopes },
      scope.nextScopeSeq)

def insertBatch (batch : Batch) (db : Db) : Except String Db :=
  if db.batches.any fun b => b.id = batch.id then
    .error "UNIQUE constraint failed: l3_world_model_evidence_batches.id"
  else if db.batches.any fun b => b.scopeKey = batch.scopeKey && b.scopeSeq = batch.scopeSeq then
    .error "UNIQUE constraint failed: l3_world_model_evidence_batches.scope_key"
  else .ok { db with batches := db.batches ++ [batch] }

def insertTarget (target : BatchTarget) (db : Db) : Except String Db :=
  if db.targets.any fun t => (t.batchId = target.batchId && t.targetField = target.targetField) ||
      (t.fieldScopeKey = target.fieldScopeKey && t.scopeSeq = target.scopeSeq) then
    .error "UNIQUE constraint failed: l3_world_model_batch_targets"
  else .ok { db with targets := db.targets ++ [target] }

def fieldJob (session : Session) (batch : Batch) (id : String) (field : TargetField) (at_ : ℕ) : Job where
  id := id
  jobType := "l3_world_model_update"
  status := .queued
  dedupeKey := some s!"l3_world_model:{batch.id}:{field.text}"
  userId := session.userId
  sessionId := some session.id
  scopeKey := some (l3WorldModelFieldScopeKey batch.scopeKey field)
  scopeSeq := some batch.scopeSeq
  payload := { fields := [("batchId", .str batch.id), ("targetField", .str field.text)] }
  attempts := 0
  maxAttempts := 3
  createdAt := at_
  updatedAt := at_

def insertField (session : Session) (batch : Batch) (newJobId : TargetField → String) (at_ : ℕ)
    (db : Db) (field : TargetField) : Except String Db := do
  let target : BatchTarget :=
    { batchId := batch.id
      targetField := field
      fieldScopeKey := l3WorldModelFieldScopeKey batch.scopeKey field
      scopeSeq := batch.scopeSeq
      updatedAt := at_ }
  let db ← insertTarget target db
  let jobs ← insertImmutableJob (fieldJob session batch (newJobId field) field at_) db.jobs
  .ok { db with jobs := jobs }

def chunkBatch (input : FreezeInput) (db : Db) (session : Session) (scopeKey : String)
    (scopeSeq : ℕ) (i : ℕ) (chunk : List InputTrace) : Batch :=
  let l1MemoryIds := chunk.map (·.l1MemoryId)
  let rawTurnIds := (chunk.map (·.rawTurnId)).eraseDups
  { id := input.newBatchId i
    scopeKey, scopeSeq
    userId := session.userId
    projectId := session.projectId
    sessionId := session.id
    trigger := input.trigger
    startTraceSeq := (ends (chunk.map (·.traceSeq))).1
    endTraceSeq := (ends (chunk.map (·.traceSeq))).2
    l1MemoryIds, rawTurnIds
    feedbackIds := feedbackIdsForBatch db l1MemoryIds rawTurnIds
    createdAt := input.at_ }

def freezeChunk (input : FreezeInput) (session : Session) (scopeKey : String) (db : Db)
    (chunk : List InputTrace × ℕ) : Except String Db := do
  let (db, scopeSeq) ← claimScopeSeq db scopeKey input.at_
  let batch := chunkBatch input db session scopeKey scopeSeq chunk.2 chunk.1
  let db ← insertBatch batch db
  (targetFields session.projectId).foldlM
    (insertField session batch (input.newJobId chunk.2) input.at_) db

structure FreezeResult where
  scheduled : Bool
  throughL1MemoryId : Option String := none
  throughTraceSeq : Option ℕ := none
  batchIds : List String := []
  targetCount : ℕ := 0

/-- The traces of a call. -/
def tracesBetween (db : Db) (sessionId : String) (after through : ℕ) : List InputTrace :=
  sortBy (ascending (·.traceSeq))
    ((sessionTraces db sessionId).filter fun t => after < t.traceSeq && t.traceSeq ≤ through)

def freezeBatches (input : FreezeInput) (db : Db) : Except String (Db × FreezeResult) := do
  let session ← requireV2Session db input.sessionId
  let db := ensureCursor db session.id
  let cursor := cursorOf db session.id
  let through ← endTraceSeq input db session
  if through ≤ cursor then
    .ok (db, { scheduled := false
               throughL1MemoryId := input.throughL1MemoryId
               throughTraceSeq := if through = 0 then none else some through })
  else
    let traces := tracesBetween db session.id cursor through
    if traces = [] then .ok (db, { scheduled := false })
    else
      let parts := splitL3TracesByRawTurn traces 20
      let (db, scope) ← ensureScope scopeKeyOf db session.userId session.projectId input.at_
      let db ← parts.zipIdx.foldlM (freezeChunk input session scope.scopeKey) db
      .ok (setCursor db session.id through,
        { scheduled := true
          throughL1MemoryId := traces.getLast?.map (·.l1MemoryId)
          throughTraceSeq := some through
          batchIds := parts.zipIdx.map fun p => input.newBatchId p.2
          targetCount := parts.length * (targetFields session.projectId).length })

/-! ### Calls -/

inductive DbOp where
  | registerInputTrace (input : TraceInput)
  | freezeBatches (input : FreezeInput)

/-- The database after a call. -/
def applyDbOp (db : Db) : DbOp → Db
  | .registerInputTrace input => ((registerInputTrace input db).toOption.map (·.1)).getD db
  | .freezeBatches input => ((freezeBatches scopeKeyOf input db).toOption.map (·.1)).getD db

end

end Memmy.Storage.EvidenceBatches
