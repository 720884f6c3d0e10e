import Mathlib.Data.List.Basic

/-! # A scan of Agent sources between its awaits

One call of `runScan` as the executor sees it: what it was started with, whether its `AbortController`
has fired, and where it waits. A scan detects the requested adapters, stages the messages of each, prepares
each source, ingests its turns and its Skills, and writes the state of the source; before every item it
looks whether the executor is paused. What it reads of the adapters, of its staging store and of the memory
service comes to it as an `Answer`; the loops themselves are `toDetect`, `toStage`, `toPrepare` and `toIngest`.

A check of `waitWhilePaused` stands at a `Place`. Before a source the scan calls it itself (`Place.direct`),
for an item it calls `checkpoint`, which looks at the signal first and may give the event loop a turn. -/

namespace Memmy.AgentSource

inductive ScanMode where
  | initialSubset
  | incremental
  | full
deriving DecidableEq

/-- What `normalizeScanInput` makes of a request. -/
structure ScanRequest where
  sourceId : String
  mode : Option ScanMode
deriving DecidableEq

def sameScanRequest (left right : ScanRequest) : Bool :=
  left.sourceId = right.sourceId ∧ (right.mode = none ∨ left.mode = right.mode)

structure ScanProgress where
  sourceId : String
  phase : String
  current : ℕ
  total : ℕ
  message : String
deriving DecidableEq

inductive ConnectionStatus where
  | notConnected
  | skillInstalled
  | pluginInstalled
deriving DecidableEq

structure PersistedSourceState where
  status : ConnectionStatus
  autoInjectSuppressed : Bool
  messageCount : ℕ
  lastScannedAt : Option ℕ
  latestSeenAt : Option ℕ
  contentHash : Option String
deriving DecidableEq

def emptySourceState : PersistedSourceState where
  status := .notConnected
  autoInjectSuppressed := false
  messageCount := 0
  lastScannedAt := none
  latestSeenAt := none
  contentHash := none

/-- `sources`, by source. -/
abbrev Sources := List (String × PersistedSourceState)

def Sources.get? (sources : Sources) (sourceId : String) : Option PersistedSourceState :=
  (sources.find? (·.1 = sourceId)).map (·.2)

/-- `{ ...sources, [sourceId]: state }` -/
def Sources.set (sources : Sources) (sourceId : String) (state : PersistedSourceState) : Sources :=
  if sources.any (·.1 = sourceId) then
    sources.map fun entry => if entry.1 = sourceId then (sourceId, state) else entry
  else sources ++ [(sourceId, state)]

/-- A source whose messages are staged. -/
structure Stage where
  sourceId : String
  mode : ScanMode
  stored : PersistedSourceState
  scanErrorCount : ℕ
  contentHash : Option String

/-- What `ingestStagedMessages` and `ingestAgentSkills` return. -/
structure IngestResult where
  written : ℕ
  skillsWritten : ℕ
  staged : ℕ
  messageCount : ℕ
  errorCount : ℕ
  skillErrorCount : ℕ
  latestSeenAt : Option ℕ
  retryFrom : Option ℕ
  hasUncommittedSkips : Bool

/-- The state of a source after its turns were ingested. -/
def nextSourceState (stage : Stage) (result : IngestResult) (now : ℕ) : PersistedSourceState :=
  let clean := stage.scanErrorCount = 0 ∧ result.errorCount = 0 ∧ result.skillErrorCount = 0 ∧
    !result.hasUncommittedSkips
  { stage.stored with
    messageCount :=
      if stage.mode = .incremental then stage.stored.messageCount + result.messageCount else result.messageCount
    lastScannedAt := if clean then some now else stage.stored.lastScannedAt
    contentHash := if clean ∧ stage.contentHash.isSome then stage.contentHash else stage.stored.contentHash
    latestSeenAt :=
      if clean then (result.retryFrom.orElse fun _ => result.latestSeenAt).orElse fun _ => stage.stored.latestSeenAt
      else stage.stored.latestSeenAt }

/-! ### Where a scan waits -/

/-- What the scan does after it has looked at the pause. -/
inductive Place where
  | detect
  | stage
  | prepare
  | hash
  | ingest
  /-- A staged message is read for its turn. -/
  | page
  | turn
  /-- The walk over the Skill files goes on. -/
  | skill
  | addSkill
  | write
  | final
deriving DecidableEq

/-- The places before which the scan calls `waitWhilePaused` itself. -/
def Place.direct : Place → Bool
  | .detect | .prepare | .ingest => true
  | _ => false

/-- The checks a loop can come to after the work of a place. -/
def Place.follows : Place → List Place
  | .ingest | .page | .turn => [.page, .turn, .skill, .write]
  | .skill | .addSkill => [.skill, .write]
  | .hash | .prepare => [.hash]
  | _ => []

inductive Wait where
  | readState
  | openStore
  /-- In the promise of `waitWhilePaused`; `again` tells the second look of a checkpoint. -/
  | blocked (place : Place) (again : Bool)
  /-- The promise is resolved, the loop of `waitWhilePaused` has not looked again. -/
  | woken (place : Place) (again : Bool)
  /-- The look is behind, its caller has not gone on. -/
  | passed (place : Place) (again : Bool)
  | yielding (place : Place)
  | detecting
  /-- For the next message of the adapter. -/
  | scanning
  /-- For a directory or a file of the Skills. -/
  | walking
  | makingDirectory
  | writingFile
  | renaming
  | removingTemporary (failure : Option String)
  | thrown (error : String)
  | cleaning (outcome : Option String)
  | settled (outcome : Option String)
  /-- Only the `finally` is left. -/
  | called
deriving DecidableEq

structure Scan where
  /-- Its `AbortController`. -/
  id : ℕ
  job : ℕ
  request : ScanRequest
  aborted : Bool
  canceled : Bool
  opened : Bool
  /-- The modes of the unfinished sources in its store. -/
  preserved : List (String × ScanMode)
  adapters : List String
  available : List String
  unstaged : List String
  staging : Option Stage
  /-- The sources a loop is done with. -/
  staged : List Stage
  /-- The sources the loop has left, the current one first. -/
  rest : List Stage
  /-- The state being written, and the file it is written in. -/
  pending : Option (PersistedSourceState × Sources)
  result : Option IngestResult
  failureCount : ℕ
  unfinished : Bool
  wait : Wait

/-- `runScan` has not returned. -/
def Scan.Unsettled (r : Scan) : Prop :=
  match r.wait with
  | .settled _ | .called => False
  | _ => True

instance (r : Scan) : Decidable r.Unsettled := by
  unfold Scan.Unsettled
  split <;> infer_instance

/-- It waits for the pause to end. -/
def Wait.isBlocked : Wait → Bool
  | .blocked _ _ => true
  | _ => false

/-- The promise of `waitWhilePaused` is resolved. -/
def Scan.wake (r : Scan) : Scan :=
  match r.wait with
  | .blocked place again => { r with wait := .woken place again }
  | _ => r

/-- Its signal fires, which rejects the promise of `waitWhilePaused`; a second abort does nothing, nor does a
listener that was added after the first. -/
def Scan.abort (r : Scan) : Scan :=
  if r.aborted then r
  else { r with
    aborted := true
    wait := if r.wait.isBlocked then .thrown "Agent source scan canceled" else r.wait }

inductive Answer where
  | done
  | fail (error : String)
  | yield
  | opened (preserved : List (String × ScanMode))
  | available (yes : Bool)
  | emitted (progress : Option ScanProgress)
  | ended
  /-- The loop over the items of a source comes to its next check. -/
  | next (place : Place)
  | hashed (contentHash : String)
  | turn (submitted : Bool) (progress : ScanProgress) (place : Place)
  | ingested (result : IngestResult)
  /-- Whether the store holds no more results than the limit. -/
  | finished (withinLimit : Bool)

/-! ### The loops over the sources -/

/-- What a loop comes to. -/
inductive Stop where
  | check (place : Place)
  | stage
deriving DecidableEq

def toIngest (r : Scan) : Scan × Stop :=
  match r.rest with
  | [] => (r, .check .final)
  | _ :: _ => (r, .check .ingest)

def toPrepare (r : Scan) : Scan × Stop :=
  match r.rest with
  | [] =>
    toIngest { r with
      rest := r.staged
      staged := [] }
  | _ :: _ => (r, .check .prepare)

def toStage (r : Scan) : Scan × Stop :=
  match r.unstaged with
  | [] =>
    toPrepare { r with
      rest := r.staged
      staged := [] }
  | _ :: _ => (r, .stage)

def toDetect (r : Scan) : Scan × Stop :=
  match r.adapters with
  | [] => toStage { r with unstaged := r.available }
  | _ :: _ => (r, .check .detect)

/-- The mode in which a source is staged. -/
def modeOf (r : Scan) (sourceId : String) (stored : PersistedSourceState) : ScanMode :=
  (r.request.mode.orElse fun _ => (r.preserved.find? (·.1 = sourceId)).map (·.2)).getD
    (if stored.lastScannedAt.isSome then .incremental else .initialSubset)

/-- `stageStandaloneSource` is called. -/
def beginStage (r : Scan) (sources : Sources) : Scan :=
  match r.unstaged with
  | [] => r
  | sourceId :: unstaged =>
    let stored := (sources.get? sourceId).getD emptySourceState
    { r with
      unstaged := unstaged
      staging := some ⟨sourceId, modeOf r sourceId stored, stored, 0, none⟩
      wait := .scanning }

/-- `stageStandaloneSource` returns. -/
def stageEnd (r : Scan) (scanErrorCount : ℕ) : Scan × Stop :=
  toStage { r with
    staging := none
    staged := r.staged ++ r.staging.toList.map fun stage => { stage with scanErrorCount := scanErrorCount } }

/-- `prepareStandaloneSource` returns. -/
def prepareEnd (r : Scan) (contentHash : String) : Scan × Stop :=
  toPrepare { r with
    rest := r.rest.tail
    staged := r.staged ++ r.rest.head?.toList.map fun stage => { stage with contentHash := some contentHash } }

/-- The state of the source is written. -/
def ingestEnd (r : Scan) (errors : ℕ) (hasUncommittedSkips : Bool) : Scan × Stop :=
  toIngest { r with
    rest := r.rest.tail
    pending := none
    result := none
    failureCount := r.failureCount + errors
    unfinished := r.unfinished || decide (errors > 0) || hasUncommittedSkips }

/-- The adapter has answered `detect`; `none` when the one that was asked for is not there. -/
def detected (r : Scan) (yes : Bool) : Option (Scan × Stop) :=
  if yes then
    some (toDetect { r with
      adapters := r.adapters.tail
      available := r.available ++ r.adapters.head?.toList })
  else if r.request.sourceId = "all" then some (toDetect { r with adapters := r.adapters.tail })
  else none

end Memmy.AgentSource
