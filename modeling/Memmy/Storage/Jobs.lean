import Memmy.Lib.JsonValue
import Memmy.Lib.Rows
import Memmy.Lib.Sort

/-! # The job queue of the memory store

The operations of `RuntimeRepository` on the table `evolution_jobs`, each one transaction. Times are
milliseconds; an ISO time of the table compares like the number. What the queries read in other tables
is in `Surroundings`, what they write there (batches, changes, processing states) is left out.

* `leaseQueuedJobs`: takes the eligible jobs in the order of the queue.
* `completeJob`, `failJob`, `deferProcessingJob` and the `requeue` operations give a job back.
* `enqueueJob` merges a job into an active one with the same key; `armWorkMemoryIdleFlush` also takes
  rows that are done.
* `JobOp`, `applyOp`: an operation, and the table after it. An operation that throws changes nothing. -/

namespace Memmy.Storage.Jobs

open Lib.JsonValue Lib.Rows Lib.Sort

/-! ### Rows -/

inductive JobStatus where
  | queued
  | leased
  | succeeded
  | failed
  | deadLetter
  deriving DecidableEq, Repr

namespace JobStatus

/-- `status IN ('queued', 'leased', 'failed')`. -/
def isActive : JobStatus → Bool
  | queued | leased | failed => true
  | succeeded | deadLetter => false

/-- A job that is done, one way or the other. -/
def isTerminal : JobStatus → Bool
  | succeeded | deadLetter => true
  | queued | leased | failed => false

end JobStatus

structure Payload where
  runAfter : Option ℕ := none
  fields : JsonObject := []

/-- `json_extract(payload_json, '$.key')`, for a text. -/
def Payload.text? (payload : Payload) (key : String) : Option String :=
  match payload.fields.get? key with
  | some (.str s) => some s
  | _ => none

structure Job where
  id : String
  jobType : String
  status : JobStatus
  dedupeKey : Option String := none
  userId : String
  sessionId : Option String := none
  episodeId : Option String := none
  targetMemoryId : Option String := none
  scopeKey : Option String := none
  scopeSeq : Option ℕ := none
  payload : Payload := {}
  attempts : ℕ
  maxAttempts : ℕ
  leasedUntil : Option ℕ := none
  lastError : Option String := none
  createdAt : ℕ
  updatedAt : ℕ

structure MemoryInfo where
  id : String
  memoryLayer : String
  agentId : Option String
  tags : List String
  pluginAlgorithm : Option String
  createdAt : ℕ

/-- What the queries on jobs read in the other tables. -/
structure Surroundings where
  memories : List MemoryInfo := []
  /-- `memory_processing_state`: the memory and its state. -/
  processing : List (String × String) := []
  /-- `memory_vector_entries`: the memory and the field. -/
  vectors : List (String × String) := []

/-! ### The order of the queue -/

def isAgentSource (m : MemoryInfo) : Bool :=
  (m.pluginAlgorithm.any fun a => a.startsWith "memory.add.import_async.") ||
    m.tags.any fun t => t.toLower = "agent-source"

def isOnboardingFirstReport (m : MemoryInfo) : Bool :=
  (m.agentId.getD "").toLower = "memmy-onboarding" ||
    m.tags.any fun t => t.toLower = "first-encounter-report" || t.toLower = "onboarding-report"

def targetMemoryMatches (w : Surroundings) (p : MemoryInfo → Bool) (job : Job) : Bool :=
  w.memories.any fun m => job.targetMemoryId = some m.id && p m

def evolutionJobPriority (w : Surroundings) (job : Job) : ℤ :=
  let onboarding := targetMemoryMatches w isOnboardingFirstReport job
  let imported := targetMemoryMatches w isAgentSource job
  let interactiveL1 := targetMemoryMatches w (fun m => m.memoryLayer = "L1" && !isAgentSource m) job
  let source := job.payload.text? "source"
  let t := job.jobType
  if t ∈ ["trace_summary", "import_summary", "observation_extract", "embedding"] ∧ onboarding then -100
  else if source = some "memory.processing.manual_retry" then 0
  else if t ∈ ["trace_summary", "import_summary"] ∧
      (source = some "startup.processing_repair" ∨ source = some "startup.placeholder_summary_repair") then 90
  else if t ∈ ["trace_summary", "observation_extract"] ∨ (t = "embedding" ∧ interactiveL1) then 1
  else if t = "import_summary" ∨ (t = "embedding" ∧ imported) then 2
  else if t = "embedding" then 3
  else if t = "episode_idle_close" then 10
  else if t = "episode_title" then 15
  else if t = "reflection" then 20
  else if t = "decision_repair" then 25
  else if t = "reward" then 30
  else if t = "span_big_turn" then 35
  else if t = "l2_association" then 40
  else if t = "l2_induction" then 50
  else if t = "project_environment_profile" then 55
  else if t ∈ ["l3_abstraction", "l3_world_model_update"] then 60
  else if t = "skill_crystallization" then 70
  else if t = "skill_cluster_assign" then 72
  else if t = "skill_batch_evolve" then 73
  else if t = "skill_trial_resolve" then 80
  else 100

/-- The newest memory first, for the jobs that process a memory; the others behind them. -/
def recency (w : Surroundings) (job : Job) : ℕ :=
  if job.jobType ∈ ["trace_summary", "import_summary", "observation_extract", "embedding"] ∧
      job.targetMemoryId.isSome then
    ((w.memories.find? fun m => job.targetMemoryId = some m.id).map (·.createdAt)).getD
      job.createdAt + 1
  else 0

def stageRank (job : Job) : ℕ :=
  if job.jobType ∈ ["trace_summary", "import_summary", "observation_extract"] then 0
  else if job.jobType = "embedding" then 1
  else 2

/-- `evolutionJobOrderSql`; the rows of the table are in the order of `rowid`. -/
def evolutionJobOrder (w : Surroundings) : Job → Job → Ordering :=
  compareLex (ascending (evolutionJobPriority w))
    (compareLex (descending (recency w))
      (compareLex (ascending stageRank)
        (compareLex (ascending fun job => if job.status = .leased then 0 else 1) (ascending (·.createdAt)))))

/-! ### Leases -/

structure LeaseOptions where
  limit : ℕ := 10
  leaseSeconds : ℕ := 60
  targetMemoryIds : Option (List String) := none
  priorityCohortOnly : Bool := false
  allowedJobTypes : Option (List String) := none
  excludedJobTypes : List String := []

/-- The jobs of one key run one after the other. -/
def isScoped (job : Job) : Bool := job.jobType = "l3_world_model_update" || job.jobType = "work_memory_extract"

/-- A reward waits for the summary of its trace. -/
def awaitsSummary (w : Surroundings) (job : Job) : Bool :=
  job.jobType = "reward" &&
    match job.payload.text? "l1MemoryId" with
    | none => false
    | some l1 =>
      (job.payload.text? "polarity").all (· = "positive") &&
        w.memories.any (fun m => m.id = l1) &&
        (w.processing.any fun p => p.1 = l1 &&
          (p.2 = "embedding_pending" || p.2 = "embedding" || p.2 = "summary_pending" ||
            p.2 = "summarizing")) &&
        !w.vectors.any fun v => v.1 = l1 && v.2 = "vec_summary"

def isDue (now : ℕ) (job : Job) : Bool :=
  job.status = .queued || (job.status = .leased && job.leasedUntil.any fun t => t ≤ now)

/-- Another job of the key is leased. -/
def keyLeased (jobs : List Job) (job : Job) : Bool :=
  jobs.any fun other => other.jobType = job.jobType && other.scopeKey = job.scopeKey &&
    other.status = .leased && other.id ≠ job.id

/-- An earlier job of the key is not done. -/
def keyBlocked (jobs : List Job) (job : Job) : Bool :=
  jobs.any fun other => other.jobType = job.jobType && other.scopeKey = job.scopeKey &&
    (match other.scopeSeq, job.scopeSeq with
      | some a, some b => decide (a < b)
      | _, _ => false) &&
    other.status.isActive

def isCandidate (w : Surroundings) (o : LeaseOptions) (now : ℕ) (jobs : List Job) (job : Job) :
    Bool :=
  isDue now job && decide (job.attempts < job.maxAttempts) && !awaitsSummary w job &&
    (job.payload.runAfter.all fun t => t ≤ now) &&
    (!isScoped job || (job.scopeKey.isSome && job.scopeSeq.isSome && !keyLeased jobs job &&
      !keyBlocked jobs job)) &&
    (o.allowedJobTypes.all fun types => decide (job.jobType ∈ types)) &&
    decide (job.jobType ∉ o.excludedJobTypes) &&
    (o.targetMemoryIds.all fun ids => job.targetMemoryId.any fun id => decide (id ∈ ids))

/-- The rows that one call leases. -/
def leaseRows (w : Surroundings) (o : LeaseOptions) (now : ℕ) (jobs : List Job) : List Job :=
  if o.targetMemoryIds = some [] ∨ o.allowedJobTypes = some [] then []
  else
    let candidates :=
      (sortBy (evolutionJobOrder w) (jobs.filter (isCandidate w o now jobs))).take o.limit
    match candidates.head? with
    | none => []
    | some first =>
      if o.priorityCohortOnly then
        candidates.filter fun row => evolutionJobPriority w row = evolutionJobPriority w first
      else candidates

def leasedRow (until_ now : ℕ) (row : Job) : Job :=
  { row with
    status := .leased
    attempts := row.attempts + 1
    leasedUntil := some until_
    updatedAt := now }

/-- The table and the jobs that the caller gets. -/
def leaseQueuedJobs (w : Surroundings) (o : LeaseOptions) (now : ℕ) (jobs : List Job) : List Job × List Job :=
  let rows := leaseRows w o now jobs
  let until_ := now + o.leaseSeconds * 1000
  (update (fun row => decide (row.id ∈ rows.map (·.id))) (leasedRow until_ now) jobs,
    rows.map (leasedRow until_ now))

/-! ### Giving a job back -/

def hasId (id : String) (row : Job) : Bool := row.id = id

def completedRow (now : ℕ) (row : Job) : Job :=
  { row with status := .succeeded, leasedUntil := none, updatedAt := now }

def completeJob (id : String) (now : ℕ) (jobs : List Job) : List Job :=
  update (hasId id) (completedRow now) jobs

def deferredRow (runAfter now : ℕ) (row : Job) : Job :=
  { row with
    status := .queued
    leasedUntil := none
    attempts := row.attempts - 1
    updatedAt := now
    payload := { row.payload with runAfter := some runAfter } }

def deferProcessingJob (id : String) (runAfter now : ℕ) (jobs : List Job) : List Job :=
  update (fun row => hasId id row && row.status = .leased) (deferredRow runAfter now) jobs

/-- The first `limit` failed jobs with attempts left. -/
def requeueFailedRows (w : Surroundings) (limit : ℕ) (targetMemoryIds : Option (List String))
    (jobs : List Job) : List Job :=
  (sortBy (evolutionJobOrder w) (jobs.filter fun row =>
    row.status = .failed && decide (row.attempts < row.maxAttempts) &&
      (targetMemoryIds.all fun ids => row.targetMemoryId.any fun id => decide (id ∈ ids)))).take limit

def requeuedFailedRow (now : ℕ) (row : Job) : Job :=
  { row with status := .queued, leasedUntil := none, updatedAt := now }

def requeueFailedJobs (w : Surroundings) (limit : ℕ) (targetMemoryIds : Option (List String))
    (now : ℕ) (jobs : List Job) : List Job :=
  let rows := requeueFailedRows w limit targetMemoryIds jobs
  update (fun row => decide (row.id ∈ rows.map (·.id))) (requeuedFailedRow now) jobs

def requeuedLeasedRow (now : ℕ) (row : Job) : Job :=
  { row with
    status := .queued
    attempts := row.attempts - 1
    leasedUntil := none
    updatedAt := now }

def requeueLeasedJobsAfterRestart (now : ℕ) (jobs : List Job) : List Job :=
  update (fun row => row.status = .leased) (requeuedLeasedRow now) jobs

def requeueUnstartedLeasedJobs (ids : List String) (now : ℕ) (jobs : List Job) : List Job :=
  update (fun row => row.status = .leased && decide (row.id ∈ ids)) (requeuedLeasedRow now) jobs

def requeueExpiredLeasedJobsExcept (excludedJobTypes : List String) (now : ℕ) (jobs : List Job) :
    List Job :=
  update (fun row => row.status = .leased && (row.leasedUntil.any fun t => t ≤ now) &&
    decide (row.jobType ∉ excludedJobTypes)) (requeuedLeasedRow now) jobs

/-- A dead letter stays one; every other status is overwritten. -/
def failedRow (error : String) (now : ℕ) (forceDeadLetter : Bool) (row : Job) : Job :=
  if row.status = .deadLetter then row
  else
    { row with
      status := if forceDeadLetter || decide (row.maxAttempts ≤ row.attempts) then .deadLetter
        else .failed
      leasedUntil := none
      lastError := some error
      updatedAt := now }

/-- `uq_evolution_jobs_active_dedupe`: another active row has the key of `job`, which is active. -/
def dedupeClash (job : Job) (jobs : List Job) : Bool :=
  job.status.isActive && job.dedupeKey.isSome &&
    jobs.any fun row => row.id ≠ job.id && row.status.isActive && row.dedupeKey = job.dedupeKey

/-- An update of one row that the unique index may refuse. -/
def updateActive (id : String) (f : Job → Job) (jobs : List Job) : Except String (List Job) :=
  if (jobs.find? (hasId id)).any fun row => dedupeClash (f row) jobs then
    .error "UNIQUE constraint failed: evolution_jobs.dedupe_key"
  else .ok (update (hasId id) f jobs)

def failJob (id error : String) (now : ℕ) (forceDeadLetter : Bool) (jobs : List Job) :
    Except String (List Job) :=
  updateActive id (failedRow error now forceDeadLetter) jobs

def jobOfTarget (jobs : List Job) (target : String × String) : Option Job :=
  jobs.find? fun row => row.jobType = "l3_world_model_update" &&
    row.payload.text? "batchId" = some target.1 && row.payload.text? "targetField" = some target.2 &&
    row.status.isActive

/-- `deleteScopeMemory`, on the jobs: those of the pending targets of the scope, then those of the
environment of its project. -/
def deleteScopeMemory (pendingTargets : List (String × String)) (userId : String)
    (projectId : Option String) (now : ℕ) (jobs : List Job) : List Job :=
  let closed := pendingTargets.foldl (fun jobs target =>
    match jobOfTarget jobs target with
    | some job => update (hasId job.id) (completedRow now) jobs
    | none => jobs) jobs
  match projectId with
  | none => closed
  | some project =>
    update (fun row => row.jobType = "project_environment_profile" && row.userId = userId &&
      row.payload.text? "projectId" = some project &&
      (row.status = .queued || row.status = .failed))
      (fun row => { completedRow now row with lastError := none }) closed

/-! ### New jobs -/

def isImmutableType (jobType : String) : Bool :=
  jobType = "l3_world_model_update" || jobType = "project_environment_profile"

/-- An insertion, with the unique keys of the table. -/
def insertRow (job : Job) (jobs : List Job) : Except String (List Job) :=
  if jobs.any fun row => row.id = job.id then .error "UNIQUE constraint failed: evolution_jobs.id"
  else if jobs.any fun row => isImmutableType row.jobType && isImmutableType job.jobType &&
      row.dedupeKey.isSome && row.dedupeKey = job.dedupeKey then
    .error "UNIQUE constraint failed: evolution_jobs.dedupe_key"
  else if dedupeClash job jobs then .error "UNIQUE constraint failed: evolution_jobs.dedupe_key"
  else if jobs.any fun row => row.scopeKey.isSome && row.scopeKey = job.scopeKey &&
      row.scopeSeq.isSome && row.scopeSeq = job.scopeSeq then
    .error "UNIQUE constraint failed: evolution_jobs.scope_key, evolution_jobs.scope_seq"
  else .ok (jobs ++ [job])

/-- The earlier `runAfter` stays. -/
def mergeJobPayload (existing next : Payload) : Payload where
  fields := existing.fields.merge next.fields
  runAfter :=
    match existing.runAfter, next.runAfter with
    | some a, some b => some (if a ≤ b then a else b)
    | a, none => a
    | none, b => b

def getActiveJobByDedupeKey (w : Surroundings) (dedupeKey : String) (jobs : List Job) : Option Job :=
  (sortBy (evolutionJobOrder w)
    (jobs.filter fun row => row.dedupeKey = some dedupeKey && row.status.isActive)).head?

def mergedRow (job : Job) (payload : Payload) (row : Job) : Job :=
  { row with
    status := if row.status = .failed then .queued else row.status
    sessionId := job.sessionId.orElse fun _ => row.sessionId
    episodeId := job.episodeId.orElse fun _ => row.episodeId
    targetMemoryId := job.targetMemoryId.orElse fun _ => row.targetMemoryId
    payload := payload
    maxAttempts := max row.maxAttempts job.maxAttempts
    leasedUntil := if row.status = .failed then none else row.leasedUntil
    lastError := if row.status = .failed then none else row.lastError
    updatedAt := job.updatedAt }

/-- The active job that an enqueued one is merged into. -/
def existingJob (w : Surroundings) (job : Job) (jobs : List Job) : Option Job :=
  match job.dedupeKey with
  | some key => if key = "" then none else getActiveJobByDedupeKey w key jobs
  | none => none

def enqueueJob (w : Surroundings) (job : Job) (jobs : List Job) : Except String (List Job) :=
  match existingJob w job jobs with
  | some existing =>
    .ok (update (hasId existing.id) (mergedRow job (mergeJobPayload existing.payload job.payload))
      jobs)
  | none => insertRow job jobs

def insertImmutableJob (job : Job) (jobs : List Job) : Except String (List Job) :=
  if !isImmutableType job.jobType then
    .error "immutable L3 job must use an L3 World Model job type"
  else if job.dedupeKey.all (· = "") then .error "immutable L3 job requires dedupeKey"
  else if job.jobType = "l3_world_model_update" ∧ (job.scopeKey.all (· = "") ∨ job.scopeSeq = none) then
    .error "L3 field update job requires scopeKey and scopeSeq"
  else if job.jobType = "project_environment_profile" ∧ (!job.scopeKey.all (· = "") ∨ job.scopeSeq ≠ none) then
    .error "project environment job must not enter Trace field FIFO"
  else if job.status ≠ .queued ∨ job.attempts ≠ 0 then
    .error "immutable L3 job must start queued with zero attempts"
  else insertRow job jobs

structure ArmInput where
  sessionId : String
  userId : String
  lastActivityAt : ℕ
  runAfter : ℕ
  now : ℕ
  newId : String

def idleFlushKey (sessionId : String) : String := s!"work_memory_idle_flush:{sessionId}"

def armPayload (input : ArmInput) : Payload where
  runAfter := some input.runAfter
  fields := [("lastActivityAt", .num (.finite input.lastActivityAt))]

def getJobByDedupeKey (dedupeKey : String) (jobs : List Job) : Option Job :=
  (sortBy (compareLex (ascending (·.createdAt)) (ascending (·.id)))
    (jobs.filter fun row => row.dedupeKey = some dedupeKey)).head?

def armedRow (input : ArmInput) (row : Job) : Job :=
  { row with
    status := .queued
    payload := armPayload input
    attempts := 0
    leasedUntil := none
    lastError := none
    updatedAt := input.now }

def newFlushJob (input : ArmInput) : Job where
  id := input.newId
  jobType := "work_memory_idle_flush"
  status := .queued
  dedupeKey := some (idleFlushKey input.sessionId)
  userId := input.userId
  sessionId := some input.sessionId
  payload := armPayload input
  attempts := 0
  maxAttempts := 3
  createdAt := input.now
  updatedAt := input.now

def armWorkMemoryIdleFlush (input : ArmInput) (jobs : List Job) : Except String (List Job) :=
  match getJobByDedupeKey (idleFlushKey input.sessionId) jobs with
  | some existing => updateActive existing.id (armedRow input) jobs
  | none => insertRow (newFlushJob input) jobs

/-! ### Operations -/

inductive JobOp where
  | lease (w : Surroundings) (o : LeaseOptions) (now : ℕ)
  | complete (id : String) (now : ℕ)
  | fail (id error : String) (now : ℕ) (forceDeadLetter : Bool)
  | defer (id : String) (runAfter now : ℕ)
  | requeueFailed (w : Surroundings) (limit : ℕ) (targetMemoryIds : Option (List String)) (now : ℕ)
  | requeueAfterRestart (now : ℕ)
  | requeueUnstarted (ids : List String) (now : ℕ)
  | requeueExpired (excludedJobTypes : List String) (now : ℕ)
  | deleteScope (pendingTargets : List (String × String)) (userId : String)
      (projectId : Option String) (now : ℕ)
  | enqueue (w : Surroundings) (job : Job)
  | insertImmutable (job : Job)
  | arm (input : ArmInput)

/-- The table after an operation. -/
def applyOp (jobs : List Job) : JobOp → List Job
  | .lease w o now => (leaseQueuedJobs w o now jobs).1
  | .complete id now => completeJob id now jobs
  | .fail id error now force => (failJob id error now force jobs).toOption.getD jobs
  | .defer id runAfter now => deferProcessingJob id runAfter now jobs
  | .requeueFailed w limit targets now => requeueFailedJobs w limit targets now jobs
  | .requeueAfterRestart now => requeueLeasedJobsAfterRestart now jobs
  | .requeueUnstarted ids now => requeueUnstartedLeasedJobs ids now jobs
  | .requeueExpired excluded now => requeueExpiredLeasedJobsExcept excluded now jobs
  | .deleteScope targets userId projectId now => deleteScopeMemory targets userId projectId now jobs
  | .enqueue w job => (enqueueJob w job jobs).toOption.getD jobs
  | .insertImmutable job => (insertImmutableJob job jobs).toOption.getD jobs
  | .arm input => (armWorkMemoryIdleFlush input jobs).toOption.getD jobs

end Memmy.Storage.Jobs
