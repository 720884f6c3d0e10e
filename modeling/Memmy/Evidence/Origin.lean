import Mathlib.Data.String.Basic
import Memmy.Lib.Sort

/-! # External evidence: rows and their identity

A source record is stored as one observation memory, found by a key that is a hash of the namespace, the
source and the id of the record; here a hash is written as the value it is taken of. Computer History is
written under the source `computer_history` and, by older producers, under `memmy`: in the namespace of
source `memmy` a row under the older key is found for the newer name if it is recognisable as History.

* `externalEvidenceMemoryKey`, `lookupExternalEvidence`: the row of a source record.
* `externalEvidenceSourceMatchesMemory`: whether a row counts as one of a source.
* `namespaceIdFromContext`: the text by which rows of one namespace are told. -/

namespace Memmy.Evidence

open Lib.Sort

/-- A normalised namespace. -/
structure RuntimeNamespace where
  source : String
  profileId : String
  projectId : Option String
  workspaceId : Option String
  userId : String
  tenantId : Option String
deriving DecidableEq

def namespaceIdFromContext (n : RuntimeNamespace) : String :=
  ":".intercalate (([n.tenantId.getD "", n.userId, (n.projectId.or n.workspaceId).getD "", n.source,
    n.profileId]).filter (· ≠ ""))

/-- What the key of a source record is a hash of. -/
structure EvidenceKey where
  userId : String
  tenantId : Option String
  projectId : Option String
  profileId : String
  namespaceSource : String
  source : String
  sourceRecordId : String
deriving DecidableEq

def externalEvidenceMemoryKey (n : RuntimeNamespace) (source sourceRecordId : String) : EvidenceKey where
  userId := n.userId
  tenantId := n.tenantId
  projectId := n.projectId
  profileId := n.profileId
  namespaceSource := n.source
  source := source
  sourceRecordId := sourceRecordId

/-! ### Observation memories -/

inductive MemoryStatus where
  | activated
  | resolving
  | archived
  | deleted
deriving DecidableEq

inductive ExtractionStatus where
  | pending
  | processed
  | skipped
deriving DecidableEq

/-- What the generation of a scheduled extraction is a hash of. -/
structure Generation where
  memoryId : ℕ
  revision : String
  raw : String
  reason : String
  scheduledAt : String
deriving DecidableEq

structure ObservationState where
  status : ExtractionStatus
  generation : Generation
deriving DecidableEq

/-- `internal_info.external_evidence`. `owner` is its `namespace` and `historyId` the one of its
provenance. -/
structure ExternalEvidence where
  source : String
  sourceRecordId : String
  revision : String
  owner : RuntimeNamespace
  startedAt : String
  endedAt : String
  parentSourceRecordIds : List String
  historyId : Option String
  sourceContent : String
  sourceTitle : String
  sourceSummary : String
deriving DecidableEq

/-- A memory of kind `observed_activity`. Its agent is the source of its namespace, and it is deleted
(`deleted_at`) exactly when its status says so. -/
structure MemoryRow where
  id : ℕ
  memoryKey : EvidenceKey
  status : MemoryStatus
  memoryValue : String
  title : String
  summary : String
  version : ℕ
  createdAt : String
  updatedAt : String
  evidence : ExternalEvidence
  observation : Option ObservationState
deriving DecidableEq

namespace MemoryRow

def Live (m : MemoryRow) : Prop := m.status ≠ .deleted

instance (m : MemoryRow) : Decidable m.Live := inferInstanceAs (Decidable (_ ≠ _))

def isObservationMemoryProcessed (m : MemoryRow) : Bool :=
  m.observation.any (·.status = .processed) && m.status = .activated

def isSkipped (m : MemoryRow) : Bool := m.observation.any (·.status = .skipped)

def generation? (m : MemoryRow) : Option Generation := m.observation.map (·.generation)

def namespaceId (m : MemoryRow) : String := namespaceIdFromContext m.evidence.owner

/-- The key of the record under the source that the row names. -/
def sourceKey (m : MemoryRow) : EvidenceKey :=
  externalEvidenceMemoryKey m.evidence.owner m.evidence.source m.evidence.sourceRecordId

end MemoryRow

/-! ### Computer History under two names -/

/-- The text matches `\d{4}-\d{2}-\d{2}T\d{2}-\d{2}-\d{2}Z?-(10min|6h)-summary`. -/
def isHistoryRecordId (value : String) : Bool :=
  let chars := value.toList
  let shape := "0000-00-00T00-00-00".toList
  decide (shape.length ≤ chars.length) &&
    (shape.zip chars).all (fun p => if p.1 = '0' then p.2.isDigit else p.2 = p.1) &&
    decide (chars.drop shape.length ∈ ["-10min-summary".toList, "Z-10min-summary".toList,
      "-6h-summary".toList, "Z-6h-summary".toList])

/-- The two names of the producer. -/
def isHistorySource (source : String) : Bool := source = "memmy" || source = "computer_history"

def externalEvidenceSourcesMatch (left right : String) : Bool :=
  left = right || isHistorySource left && isHistorySource right

def isLegacyHistoryEvidence (m : MemoryRow) (sourceRecordId : String) : Bool :=
  externalEvidenceSourcesMatch m.evidence.source "computer_history" &&
    m.evidence.sourceRecordId = sourceRecordId &&
    (m.evidence.historyId = some sourceRecordId || isHistoryRecordId sourceRecordId)

def externalEvidenceSourceMatchesMemory (m : MemoryRow) (source : String) : Bool :=
  m.evidence.source = source ||
    m.evidence.owner.source = "memmy" && externalEvidenceSourcesMatch m.evidence.source source &&
      isLegacyHistoryEvidence m m.evidence.sourceRecordId

/-! ### Finding the row of a record -/

/-- `ORDER BY updated_at DESC, id DESC LIMIT 1` -/
def getByKeyIncludingDeleted (rows : List MemoryRow) (key : EvidenceKey) : Option MemoryRow :=
  (sortBy (compareLex (descending (·.updatedAt)) (descending (·.id))) (rows.filter (·.memoryKey = key))).head?

/-- The key under which a record is stored, and its row. -/
def lookupExternalEvidence (rows : List MemoryRow) (n : RuntimeNamespace)
    (source sourceRecordId : String) : EvidenceKey × Option MemoryRow :=
  let key := externalEvidenceMemoryKey n source sourceRecordId
  let canonical := getByKeyIncludingDeleted rows key
  if source = "computer_history" ∧ n.source = "memmy" then
    let legacyKey := externalEvidenceMemoryKey n "memmy" sourceRecordId
    match getByKeyIncludingDeleted rows legacyKey with
    | some legacy =>
      if isLegacyHistoryEvidence legacy sourceRecordId then
        if legacy.status = .deleted then (legacyKey, some legacy)
        else if canonical.isSome then (key, canonical) else (legacyKey, some legacy)
      else (key, canonical)
    | none => (key, canonical)
  else (key, canonical)

end Memmy.Evidence
