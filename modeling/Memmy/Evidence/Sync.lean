import Mathlib.Data.Prod.Lex
import Memmy.Evidence.Origin
import Memmy.Lib.Newest
import Memmy.Lib.Rows
import Memmy.Lib.Walk

/-! # External evidence: uploads, withdrawals and what they touch

An upload is accepted if its revision is newer than the stored one and no parent was deleted; its memory
and all that depends on it are scheduled for extraction. A withdrawal leaves a tombstone, also for a record
that was never uploaded, and takes the dependent memories and the Skills with it.

* `schedule`, `invalidateDependentExternalEvidence`: extraction from the stored content.
* `retractExternalEvidenceSkills`, `retractDependentExternalEvidence`: what a withdrawal takes with it.
* `syncExternalEvidence`, `deleteMemory`: the calls. -/

namespace Memmy.Evidence

open Lib.Sort Lib.Newest Lib.Rows Lib.Walk

/-! ### The store -/

/-- What the key of a Skill candidate is a hash of. -/
structure SkillKey where
  userId : String
  tenantId : Option String
  projectId : Option String
  profileId : String
  namespaceSource : String
  source : String
  groupId : String
  revision : String
deriving DecidableEq

/-- A Skill suggested from observation memories. -/
structure SkillCandidate where
  id : ℕ
  skillKey : SkillKey
  status : MemoryStatus
  source : String
  owner : RuntimeNamespace
  sourceRecordIds : List String
  sourceMemoryIds : List ℕ
  humanModified : Bool
  createdAt : String
  updatedAt : String
deriving DecidableEq

/-- A job of type `observation_extract`. It is active until it succeeds or is given up. -/
structure ExtractJob where
  id : ℕ
  targetMemoryId : ℕ
  contentHash : String
  generation : Generation
  active : Bool
deriving DecidableEq

/-- The state of `memory_processing_state` as far as the summary stage goes. -/
inductive ProcessingState where
  | summaryPending
  | summarizing
  | failed
  | later
deriving DecidableEq

structure ProcessingRow where
  state : ProcessingState
  activeJobId : Option ℕ
deriving DecidableEq

structure Store where
  observations : List MemoryRow := []
  skills : List SkillCandidate := []
  jobs : List ExtractJob := []
  processing : ℕ → Option ProcessingRow := fun _ => none
  nextId : ℕ := 0

/-- `repos.memories.get`: deleted rows are not seen. -/
def Store.get (s : Store) (id : ℕ) : Option MemoryRow :=
  s.observations.find? fun m => m.id = id && m.status ≠ .deleted

/-- `UPDATE memories ... WHERE id = ?` -/
def put (m : MemoryRow) (rows : List MemoryRow) : List MemoryRow := update (·.id = m.id) (fun _ => m) rows

/-! ### Deletion -/

def MemoryRow.withdrawn (now : String) (m : MemoryRow) : MemoryRow :=
  { m with
    status := .deleted
    version := m.version + 1
    updatedAt := now }

def softDelete (id : ℕ) (now : String) (rows : List MemoryRow) : List MemoryRow :=
  update (fun m => m.id = id && m.status ≠ .deleted) (MemoryRow.withdrawn now) rows

inductive RetractReason where
  | sourceDeleted
  | sourceUpdated
deriving DecidableEq

/-- A Skill whose source changed: what a human wrote is kept as an archived text. -/
def SkillCandidate.retracted (reason : RetractReason) (now : String) (k : SkillCandidate) :
    SkillCandidate :=
  if reason = .sourceUpdated ∧ k.humanModified then
    { k with
      status := .archived
      updatedAt := now }
  else
    { k with
      status := .deleted
      updatedAt := now }

/-- `memories.list({ memoryLayer: "Skill", ... }, 10_000)` -/
def listedSkills (skills : List SkillCandidate) : List SkillCandidate :=
  newest (fun k => toLex (k.createdAt, toLex (k.updatedAt, k.id))) 10000
    (skills.filter (·.status ≠ .deleted))

def retractExternalEvidenceSkills (sourceMemoryId : ℕ) (now : String) (reason : RetractReason)
    (skills : List SkillCandidate) : List SkillCandidate :=
  update (fun k => decide (k ∈ listedSkills skills) && decide (sourceMemoryId ∈ k.sourceMemoryIds))
    (SkillCandidate.retracted reason now) skills

/-- The memory depends on the record under the source, in the namespace of `root`. -/
def dependsOn (root : MemoryRow) (source parentRecordId : String) (m : MemoryRow) : Bool :=
  m.namespaceId = root.namespaceId && externalEvidenceSourceMatchesMemory m source &&
    decide (parentRecordId ∈ m.evidence.parentSourceRecordIds)

/-- The memories of the owner of `root`, as `memories.list` lists them. -/
def candidates (rows : List MemoryRow) (root : MemoryRow) : List MemoryRow :=
  sortBy (compareLex (descending (·.createdAt)) (compareLex (descending (·.updatedAt)) (descending (·.id))))
    (rows.filter fun m =>
      m.status ≠ .deleted && m.evidence.owner.userId = root.evidence.owner.userId && m.id ≠ root.id)

/-- The memories that depend on the record, directly or through others. -/
def dependents (rows : List MemoryRow) (root : MemoryRow) (source recordId : String) : List MemoryRow :=
  walk (dependsOn root source) (·.evidence.sourceRecordId) recordId (candidates rows root)

/-- One memory is withdrawn, with the Skills that name it. -/
def withdrawOne (now : String) (s : Store) (m : MemoryRow) : Store :=
  { s with
    observations := softDelete m.id now s.observations
    skills := retractExternalEvidenceSkills m.id now .sourceDeleted s.skills }

def retractDependentExternalEvidence (s : Store) (root : MemoryRow) (source sourceRecordId now : String) :
    Store :=
  (dependents s.observations root source sourceRecordId).foldl (withdrawOne now) s

/-! ### Scheduling an extraction -/

/-- `enqueueJob` with the key `observation_extract:memory:generation`. -/
def enqueueExtract (s : Store) (targetMemoryId : ℕ) (contentHash : String) (generation : Generation) :
    Store × ℕ :=
  match s.jobs.find? fun j => j.active && j.targetMemoryId = targetMemoryId && j.generation = generation with
  | some job =>
    ({ s with jobs := update (·.id = job.id) (fun j => { j with contentHash := contentHash }) s.jobs }, job.id)
  | none =>
    let job : ExtractJob := ⟨s.nextId, targetMemoryId, contentHash, generation, true⟩
    ({ s with
        jobs := s.jobs ++ [job]
        nextId := s.nextId + 1 },
      s.nextId)

/-- The row with the content it was uploaded with, to be extracted. -/
def MemoryRow.scheduled (reason now : String) (m : MemoryRow) : MemoryRow :=
  let raw := if m.evidence.sourceContent ≠ "" then m.evidence.sourceContent else m.memoryValue
  let title := if m.evidence.sourceTitle ≠ "" then m.evidence.sourceTitle else m.title
  let summary := if m.evidence.sourceSummary ≠ "" then m.evidence.sourceSummary else m.summary
  { m with
    status := .activated
    memoryValue := raw
    title := title
    summary := summary
    version := m.version + 1
    updatedAt := now
    evidence := { m.evidence with
      sourceContent := raw
      sourceTitle := title
      sourceSummary := summary }
    observation := some ⟨.pending, ⟨m.id, m.evidence.revision, raw, reason, now⟩⟩ }

def schedule (reason now : String) (s : Store) (m : MemoryRow) : Store :=
  if m.status = .deleted then s
  else
    let saved := m.scheduled reason now
    let s := { s with observations := put saved s.observations }
    let enqueued := enqueueExtract s saved.id saved.memoryValue
      ⟨m.id, m.evidence.revision, saved.memoryValue, reason, now⟩
    { enqueued.1 with
      processing := Function.update enqueued.1.processing saved.id (some ⟨.summaryPending, some enqueued.2⟩) }

/-- One memory whose parent changed. -/
def invalidateOne (now : String) (s : Store) (m : MemoryRow) : Store :=
  schedule "evidence.parent_updated" now
    { s with skills := retractExternalEvidenceSkills m.id now .sourceUpdated s.skills } m

def invalidateDependentExternalEvidence (s : Store) (root : MemoryRow) (source recordId now : String) :
    Store :=
  (dependents s.observations root source recordId).foldl (invalidateOne now) s

/-! ### The calls -/

/-- What an upload brings, after the checks on its texts. -/
structure Upload where
  content : String
  title : String
  summary : String
  startedAt : String
  endedAt : String
  historyId : Option String
  parents : List String
  content_ne : content ≠ ""
  title_ne : title ≠ ""
  summary_ne : summary ≠ ""
deriving DecidableEq

inductive SyncAction where
  | upsert (upload : Upload)
  | delete
deriving DecidableEq

structure SyncRequest where
  owner : RuntimeNamespace
  source : String
  sourceRecordId : String
  revision : String
  action : SyncAction
deriving DecidableEq

def SyncRequest.key (r : SyncRequest) : EvidenceKey :=
  externalEvidenceMemoryKey r.owner r.source r.sourceRecordId

structure SyncAnswer where
  id : ℕ
  deleted : Bool
  revision : String
  duplicate : Bool
deriving DecidableEq

/-- The tombstone of a record that was never uploaded. -/
def placeholder (id : ℕ) (key : EvidenceKey) (r : SyncRequest) (now : String) : MemoryRow where
  id := id
  memoryKey := key
  status := .activated
  memoryValue := "[deleted external evidence]"
  title := "Deleted external evidence"
  summary := ""
  version := 1
  createdAt := now
  updatedAt := now
  evidence := ⟨r.source, r.sourceRecordId, r.revision, r.owner, "", "", [], none, "", "", ""⟩
  observation := none

def Store.insert (s : Store) (m : MemoryRow) : Store :=
  { s with
    observations := s.observations ++ [m]
    nextId := s.nextId + 1 }

/-- The branch of a deletion, also taken by an upload with a deleted parent. -/
def withdraw (s : Store) (key : EvidenceKey) (existing : Option MemoryRow) (r : SyncRequest)
    (now : String) : Store × SyncAnswer :=
  let start := match existing with
    | some m => (s, m)
    | none =>
      let m := placeholder s.nextId key r now
      (s.insert m, m)
  let root := start.2
  (retractDependentExternalEvidence (withdrawOne now start.1 root) root r.source r.sourceRecordId now,
    ⟨root.id, true, r.revision, false⟩)

def uploadedEvidence (r : SyncRequest) (u : Upload) : ExternalEvidence where
  source := r.source
  sourceRecordId := r.sourceRecordId
  revision := r.revision
  owner := r.owner
  startedAt := u.startedAt
  endedAt := u.endedAt
  parentSourceRecordIds := u.parents
  historyId := u.historyId
  sourceContent := u.content
  sourceTitle := u.title
  sourceSummary := u.summary

/-- The row of an upload: inserted, or written over the stored one. -/
def uploadedRow (s : Store) (key : EvidenceKey) (existing : Option MemoryRow) (r : SyncRequest)
    (u : Upload) : MemoryRow :=
  match existing with
  | some m =>
    { m with
      status := .activated
      memoryValue := u.content
      title := u.title
      summary := u.summary
      version := m.version + 1
      updatedAt := u.startedAt
      evidence := uploadedEvidence r u }
  | none =>
    ⟨s.nextId, key, .activated, u.content, u.title, u.summary, 1, u.startedAt, u.startedAt,
      uploadedEvidence r u, none⟩

/-- Only the revision is new. -/
def MemoryRow.sameUpload (m : MemoryRow) (u : Upload) : Bool :=
  m.observation.isSome && m.evidence.sourceContent = u.content && m.evidence.sourceTitle = u.title &&
    m.evidence.sourceSummary = u.summary && m.evidence.startedAt = u.startedAt &&
    m.evidence.endedAt = u.endedAt && m.evidence.parentSourceRecordIds = u.parents

def MemoryRow.revised (r : SyncRequest) (u : Upload) (now : String) (m : MemoryRow) : MemoryRow :=
  { m with
    version := m.version + 1
    updatedAt := now
    evidence := { m.evidence with
      revision := r.revision
      source := r.source
      historyId := u.historyId
      owner := r.owner } }

/-- The upload is written, and extraction scheduled for it and for what depends on it. -/
def saveUpload (s : Store) (key : EvidenceKey) (existing : Option MemoryRow) (r : SyncRequest)
    (u : Upload) (now : String) : Store × SyncAnswer :=
  let row := uploadedRow s key existing r u
  let s := match existing with
    | some _ => { s with observations := put row s.observations }
    | none => s.insert row
  let s := schedule "evidence.sync" now
    { s with skills := retractExternalEvidenceSkills row.id now .sourceUpdated s.skills } row
  (invalidateDependentExternalEvidence s (row.scheduled "evidence.sync" now) r.source r.sourceRecordId now,
    ⟨row.id, false, r.revision, false⟩)

/-- A record that the upload names as its parent was deleted. -/
def parentDeleted (s : Store) (r : SyncRequest) (u : Upload) : Bool :=
  u.parents.any fun p =>
    (lookupExternalEvidence s.observations r.owner r.source p).2.any (·.status = .deleted)

def syncExternalEvidence (s : Store) (r : SyncRequest) (now : String) : Store × SyncAnswer :=
  let found := lookupExternalEvidence s.observations r.owner r.source r.sourceRecordId
  match found.2 with
  | none =>
    match r.action with
    | .delete => withdraw s found.1 none r now
    | .upsert u =>
      if parentDeleted s r u then withdraw s found.1 none r now
      else saveUpload s found.1 none r u now
  | some m =>
    if m.status = .deleted then (s, ⟨m.id, true, r.revision, true⟩)
    else match r.action with
    | .delete => withdraw s found.1 (some m) r now
    | .upsert u =>
      if r.revision ≤ m.evidence.revision then (s, ⟨m.id, false, m.evidence.revision, true⟩)
      else if parentDeleted s r u then withdraw s found.1 (some m) r now
      else if m.sameUpload u then
        ({ s with observations := put (m.revised r u now) s.observations }, ⟨m.id, false, r.revision, false⟩)
      else saveUpload s found.1 (some m) r u now

/-- `deleteMemory` of an observation memory or of a Skill candidate that passed the checks of its scope. -/
def deleteMemory (s : Store) (id : ℕ) (now : String) : Store :=
  match s.get id with
  | some m => retractDependentExternalEvidence (withdrawOne now s m) m m.evidence.source
      m.evidence.sourceRecordId now
  | none =>
    { s with
      skills := update (fun k => k.id = id && k.status ≠ .deleted)
        (SkillCandidate.retracted .sourceDeleted now) s.skills }

end Memmy.Evidence
