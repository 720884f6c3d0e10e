import Mathlib.Algebra.GroupWithZero.Nat
import Memmy.AgentSource.Scan

/-! # The executor of Agent source scans

The variables of `createAgentSourceExecutor`, its entry points `startScan`, `pauseScan`, `cancelScan` and
`dispose`, the automation, and the steps of its running scans. An entry point runs without an await and is one
event; a scan is advanced by one event from one await to the next, with the answer it waited for; its
`then`, `catch` and `finally` callbacks are events of their own. Scans and their controllers are numbered, and
so are jobs, in place of the random part of a job id.

The turns submitted and the states written are kept in `log`, each with whether a pause stood (`held`: no
start has been requested for the paused scan, and no cancel) and whether the scan was canceled. -/

namespace Memmy.AgentSource

structure AgentSourceScanState where
  running : Bool
  jobId : Option ℕ
  sourceId : Option String
  mode : Option ScanMode
  progress : Option ScanProgress
  startedAt : Option ℕ
  completedAt : Option ℕ
  error : Option String
deriving DecidableEq

def emptyScanState : AgentSourceScanState where
  running := false
  jobId := none
  sourceId := none
  mode := none
  progress := none
  startedAt := none
  completedAt := none
  error := none

inductive Phase where
  | stage
  | prepare
  | ingest
  | summarize
  | done
  | failed
deriving DecidableEq

/-- The `scan_meta` row of a scan store. -/
structure ScanMeta where
  jobId : ℕ
  sourceId : String
  mode : ScanMode
  phase : Phase
  updatedAt : ℕ
  error : Option String
deriving DecidableEq

inductive Automation where
  | off
  | timer (startup : Bool)
  /-- `runAutomation` has begun. -/
  | working (startup : Bool)
deriving DecidableEq

inductive Effect where
  | started
  | resumed
  | submitted
  | addedSkill
  /-- The state file. -/
  | wroteState
  | setSource
  | setStatus
deriving DecidableEq

structure Entry where
  effect : Effect
  automatic : Bool
  held : Bool
  canceled : Bool
deriving DecidableEq

structure State where
  disposed : Bool
  scan : AgentSourceScanState
  paused : Bool
  controller : Option ℕ
  activeRequest : Option ScanRequest
  progressBeforePause : Option ScanProgress
  /-- The scan whose promise `resumePausedScan` resolves. -/
  resume : Option ℕ
  canceledJobs : List ℕ
  scans : List Scan
  sources : Sources
  stateFile : Sources
  stores : List ScanMeta
  automation : Automation
  nextId : ℕ
  nextJob : ℕ
  held : Option ScanRequest
  everCanceled : List ℕ
  log : List Entry

namespace State

variable (s : State)

def setScan (r : Scan) : State := { s with scans := s.scans.map fun x => if x.id = r.id then r else x }

/-- An effect of a running scan. -/
def record (effect : Effect) (r : Scan) : State :=
  { s with log := s.log ++ [⟨effect, false, s.held.isSome, r.canceled⟩] }

/-! ### Pause, resume and abort -/

/-- `resumePausedScan?.(); resumePausedScan = undefined` -/
def wake : State :=
  { s with
    resume := none
    scans := s.scans.map fun r => if s.resume = some r.id then r.wake else r }

/-- `controller.abort()`; the listener of a scan in `waitWhilePaused` also clears the callback. -/
def abort (id : ℕ) : State :=
  { s with
    resume := if s.scans.any fun r => r.id = id ∧ ¬ r.aborted ∧ r.wait.isBlocked then none else s.resume
    scans := s.scans.map fun r => if r.id = id then r.abort else r }

/-- The controller that may be there is aborted. -/
def abortController : State :=
  match s.controller with
  | none => s
  | some id => s.abort id

def throw (r : Scan) (error : String) : State := s.setScan { r with wait := .thrown error }

/-- `waitWhilePaused`, up to its first await. -/
def waitWhilePaused (r : Scan) (place : Place) (again : Bool) : State :=
  if s.paused then
    { s.setScan { r with wait := .blocked place again } with resume := some r.id }
  else if r.aborted then s.throw r "Agent source scan canceled"
  else s.setScan { r with wait := .passed place again }

/-- `checkpoint`, around its turn of the event loop. -/
def checkpoint (r : Scan) (place : Place) (again : Bool) : State :=
  if r.aborted then s.throw r "Agent source scan canceled" else s.waitWhilePaused r place again

/-- A scan looks at the pause, itself or by its checkpoint. -/
def check (r : Scan) (place : Place) : State :=
  if place.direct then s.waitWhilePaused r place false else s.checkpoint r place false

/-! ### Scan stores -/

/-- `saveMeta`, which updates the row that is there. -/
def saveMeta (r : Scan) (mode : Option ScanMode) (phase : Phase) (error : Option String) (now : ℕ) : State :=
  { s with stores := s.stores.map fun m =>
      if m.jobId = r.job then { m with
        mode := mode.getD m.mode
        phase := phase
        updatedAt := now
        error := error }
      else m }

/-- `openMemoryAgentSourceScanStore` -/
def openStore (r : Scan) (now : ℕ) : State :=
  if s.stores.any (·.jobId = r.job) then s
  else { s with stores := s.stores ++ [{
    jobId := r.job
    sourceId := r.request.sourceId
    mode := r.request.mode.getD .incremental
    phase := .stage
    updatedAt := now
    error := none }] }

def removeStore (job : ℕ) : State := { s with stores := s.stores.filter (·.jobId ≠ job) }

/-! ### Steps of a running scan -/

/-- What a loop has come to. -/
def arrive (now : ℕ) : Scan × Stop → State
  | (r, .check place) => s.check r place
  | (r, .stage) =>
    let r' := beginStage r s.sources
    (s.saveMeta r' (r'.staging.map (·.mode)) .stage none now).setScan r'

/-- The progress callback of a scan. -/
def onProgress (r : Scan) (progress : ScanProgress) : State :=
  if s.scan.jobId = some r.job ∧ ¬ r.aborted ∧ ¬ s.paused then
    { s with
      progressBeforePause := some progress
      scan := { s.scan with progress := some progress } }.record .setStatus r
  else s

/-- An error among the messages of an adapter ends its staging, an abort the scan. -/
def stageFailed (now : ℕ) (r : Scan) (error : String) : State :=
  if r.aborted then s.throw r error else s.arrive now (stageEnd r 1)

/-- The scan goes on behind its look at the pause. -/
def proceed (now : ℕ) (r : Scan) : Place → Answer → State
  | .detect, .done =>
    if r.aborted then s.throw r "Agent source scan canceled" else s.setScan { r with wait := .detecting }
  | .stage, .done => s.setScan { r with wait := .scanning }
  | .stage, .fail error => s.stageFailed now r error
  | .prepare, .next place =>
    if r.aborted then s.throw r "Agent source scan canceled"
    else if place ∈ Place.prepare.follows then
      (s.saveMeta r (r.rest.head?.map (·.mode)) .prepare none now).check r place
    else s
  | .prepare, .hashed contentHash =>
    if r.aborted then s.throw r "Agent source scan canceled"
    else (s.saveMeta r (r.rest.head?.map (·.mode)) .prepare none now).arrive now (prepareEnd r contentHash)
  | .hash, .next place => if place ∈ Place.hash.follows then s.check r place else s
  | .hash, .hashed contentHash => s.arrive now (prepareEnd r contentHash)
  | .ingest, .next place =>
    if r.aborted then s.throw r "Agent source scan canceled"
    else if place ∈ Place.ingest.follows then
      (s.saveMeta r (r.rest.head?.map (·.mode)) .ingest none now).check r place
    else s
  | .page, .next place => if place ∈ Place.page.follows then s.check r place else s
  | .turn, .turn submitted progress place =>
    if r.aborted then s.throw r "Agent source scan canceled"
    else if place ∈ Place.turn.follows then
      let s' := if submitted then s.record .submitted r else s
      (s'.onProgress r progress).check r place
    else s
  | .skill, .done => s.setScan { r with wait := .walking }
  | .skill, .next place => if place ∈ Place.skill.follows then s.check r place else s
  | .addSkill, .next place =>
    if place ∈ Place.addSkill.follows then (s.record .addedSkill r).check r place else s
  | .write, .ingested result =>
    match r.rest with
    | [] => s
    | stage :: _ =>
      let next := nextSourceState stage result now
      s.setScan { r with
        result := some result
        pending := some (next, s.sources.set stage.sourceId next)
        wait := .makingDirectory }
  | _, .fail error => s.throw r error
  | _, _ => s

/-- The end of `runScan`: the clean-up of a canceled job, or the return. -/
def leave (r : Scan) (outcome : Option String) : State :=
  if r.job ∈ s.canceledJobs then s.setScan { r with wait := .cleaning outcome }
  else s.setScan { r with wait := .settled outcome }

/-- Behind the final check: the store is closed, or removed when all went well. -/
def finish (now : ℕ) (r : Scan) (withinLimit : Bool) : State :=
  let outcome :=
    if r.failureCount > 0 then some "Agent source scan completed with import failures" else none
  let s' := s.saveMeta r none (if r.failureCount > 0 then .failed else .done) outcome now
  let completed := r.failureCount = 0 ∧ !r.unfinished ∧ withinLimit
  (if completed then s'.removeStore r.job else s').leave r outcome

/-- An error reaches the `catch` of `runScan`. -/
def caught (now : ℕ) (r : Scan) (error : String) : State :=
  (if r.opened then s.saveMeta r none .failed (some error) now else s).leave r (some error)

/-- `writeState` has returned: the state in memory and the reported progress follow. -/
def written (now : ℕ) (r : Scan) : State :=
  if r.aborted then s.throw r "Agent source scan canceled"
  else if s.scan.jobId ≠ some r.job then s.throw r "Agent source scan was replaced"
  else
    match r.rest, r.pending, r.result with
    | stage :: _, some (next, _), some result =>
      let errors := stage.scanErrorCount + result.errorCount + result.skillErrorCount
      let s₁ := { s with sources := s.sources.set stage.sourceId next }.record .setSource r
      let s₂ := s₁.saveMeta r (some stage.mode) .summarize none now
      let s₃ := { s₂ with scan := { s₂.scan with progress := some {
        sourceId := stage.sourceId
        phase := "done"
        current := result.staged
        total := result.staged
        message := s!"Imported {result.written} memories and {result.skillsWritten} skills" } } }
      (s₃.record .setStatus r).arrive now (ingestEnd r errors result.hasUncommittedSkips)
    | _, _, _ => s

/-- The `then` or the `catch` of `startScan`. -/
def callBack (now : ℕ) (r : Scan) : Option String → State
  | none =>
    let s' := s.setScan { r with wait := .called }
    if s.scan.jobId ≠ some r.job then s'
    else { s' with scan := { s.scan with
      running := false
      completedAt := some now } }.record .setStatus r
  | some error =>
    let s' := s.setScan { r with wait := .called }
    if s.scan.jobId ≠ some r.job ∨ r.aborted then s'
    else { s' with scan := { s.scan with
      running := false
      completedAt := some now
      error := some error } }.record .setStatus r

/-- The `finally` of `startScan`. -/
def forget (r : Scan) : State :=
  let s' := { s with scans := s.scans.filter (·.id ≠ r.id) }
  if s.controller = some r.id then
    { s' with
      controller := none
      activeRequest := none
      paused := false
      progressBeforePause := none
      resume := none }
  else s'

/-- A scan goes on from the await it is in. -/
def advance (now : ℕ) (r : Scan) (answer : Answer) : State :=
  match r.wait, answer with
  | .readState, .done => s.setScan { r with wait := .openStore }
  | .readState, .fail error => s.setScan { r with wait := .settled (some error) }
  | .openStore, .opened preserved =>
    (s.openStore r now).arrive now (toDetect { r with
      opened := true
      preserved := preserved })
  | .openStore, .fail error => s.throw r error
  | .woken place again, .done => s.waitWhilePaused r place again
  | .passed place again, .yield =>
    if ¬ place.direct ∧ ¬ again then s.setScan { r with wait := .yielding place } else s
  | .passed .final _, .finished withinLimit => s.finish now r withinLimit
  | .passed place _, answer => s.proceed now r place answer
  | .yielding place, .done => s.checkpoint r place true
  | .detecting, .available yes =>
    match detected r yes with
    | some stop => s.arrive now stop
    | none => s.throw r "The source is not installed"
  | .detecting, .fail error => s.throw r error
  | .scanning, .emitted progress =>
    (match progress with
    | some progress => s.onProgress r progress
    | none => s).check r .stage
  | .scanning, .ended => s.arrive now (stageEnd r 0)
  | .scanning, .fail error => s.stageFailed now r error
  | .walking, .next place =>
    if place ∈ Place.addSkill :: Place.skill.follows then s.check r place else s
  | .walking, .fail error => s.throw r error
  | .makingDirectory, .done =>
    if r.aborted then s.throw r "Agent source scan canceled" else s.setScan { r with wait := .writingFile }
  | .makingDirectory, .fail error => s.throw r error
  | .writingFile, .done =>
    if r.aborted then s.setScan { r with wait := .removingTemporary (some "Agent source scan canceled") }
    else s.setScan { r with wait := .renaming }
  | .writingFile, .fail error => s.setScan { r with wait := .removingTemporary (some error) }
  | .renaming, .done =>
    match r.pending with
    | some (_, file) =>
      ({ s with stateFile := file }.record .wroteState r).setScan { r with wait := .removingTemporary none }
    | none => s
  | .renaming, .fail error => s.setScan { r with wait := .removingTemporary (some error) }
  | .removingTemporary none, .done => s.written now r
  | .removingTemporary none, .fail error => s.throw r error
  | .removingTemporary (some error), _ => s.throw r error
  | .thrown error, .done => s.caught now r error
  | .cleaning outcome, .done =>
    { s.removeStore r.job with canceledJobs := s.canceledJobs.filter (· ≠ r.job) }.setScan
      { r with wait := .settled outcome }
  | .cleaning _, .fail error =>
    { s with canceledJobs := s.canceledJobs.filter (· ≠ r.job) }.setScan { r with wait := .settled (some error) }
  | .settled outcome, .done => s.callBack now r outcome
  | .called, .done => s.forget r
  | _, _ => s

end State

/-! ### Entry points -/

def COMPLETED_DETAILS_RETENTION_MS : ℕ := 60 * 60 * 1000

/-- The unfinished store of a job for the same sources that was changed last. -/
def findReusableScanJob (stores : List ScanMeta) (sourceId : String) (mode : Option ScanMode)
    (excludedJobs : List ℕ) : Option ℕ :=
  (stores.foldl (fun (selected : Option ScanMeta) row =>
    if row.jobId ∉ excludedJobs ∧ row.phase ≠ .done ∧ row.sourceId = sourceId ∧
        (mode = none ∨ mode = some row.mode) ∧ (selected.all fun best => best.updatedAt < row.updatedAt) then
      some row
    else selected) none).map (·.jobId)

/-- The stores that stay when a job is looked for: those of jobs done long ago are removed. -/
def pruneStores (stores : List ScanMeta) (excludedJobs : List ℕ) (now : ℕ) : List ScanMeta :=
  stores.filter fun row => ¬ (row.jobId ∉ excludedJobs ∧ row.phase = .done ∧
    row.updatedAt + COMPLETED_DETAILS_RETENTION_MS < now)

inductive ScanError where
  | shuttingDown
  | alreadyRunning
  | pausedOther
  | paused
deriving DecidableEq

def newScan (s : State) (registry : List String) (request : ScanRequest) (job : ℕ) : Scan where
  id := s.nextId
  job := job
  request := request
  aborted := false
  canceled := false
  opened := false
  preserved := []
  adapters := if request.sourceId = "all" then registry else [request.sourceId]
  available := []
  unstaged := []
  staging := none
  staged := []
  rest := []
  pending := none
  result := none
  failureCount := 0
  unfinished := false
  wait :=
    if request.sourceId = "all" ∨ request.sourceId ∈ registry then .readState
    else .settled (some "Unknown source")

/-- A new scan, on the store of an unfinished job where there is one. -/
def beginScan (registry : List String) (s : State) (automatic : Bool) (request : ScanRequest) (now : ℕ) :
    State × ℕ :=
  let reused := findReusableScanJob s.stores request.sourceId request.mode s.canceledJobs
  let jobId := reused.getD s.nextJob
  ({ s with
    scan := {
      running := true
      jobId := some jobId
      sourceId := some request.sourceId
      mode := request.mode
      progress := none
      startedAt := some now
      completedAt := none
      error := none }
    stores := pruneStores s.stores s.canceledJobs now
    activeRequest := some request
    progressBeforePause := none
    controller := some s.nextId
    scans := s.scans ++ [newScan s registry request jobId]
    nextId := s.nextId + 1
    nextJob := s.nextJob + 1
    log := s.log ++ [⟨.started, automatic, s.held.isSome, decide (jobId ∈ s.everCanceled)⟩]
    held := if automatic = false ∧ s.held.any (sameScanRequest · request) then none else s.held }, jobId)

/-- The paused scan goes on. -/
def resumeScan (s : State) (automatic : Bool) (request : ScanRequest) : State :=
  let s' : State := { s with
    paused := false
    scan := { s.scan with
      running := true
      progress := some (s.progressBeforePause.getD {
        sourceId := request.sourceId
        phase := "scan"
        current := 0
        total := 0
        message := "Scanning Agent history" })
      error := none }
    log := s.log ++ [⟨.resumed, automatic, s.held.isSome, false⟩]
    held := if automatic = false ∧ s.held.any (sameScanRequest · request) then none else s.held }
  s'.wake

def startScan (registry : List String) (s : State) (automatic : Bool) (request : ScanRequest) (now : ℕ) :
    State × Except ScanError ℕ :=
  if s.disposed then (s, .error .shuttingDown)
  else if s.scan.running then (s, .error .alreadyRunning)
  else
    match s.paused, s.controller, s.activeRequest, s.scan.jobId with
    | true, some _, some active, some jobId =>
      if sameScanRequest active request then (resumeScan s automatic request, .ok jobId)
      else (s, .error .pausedOther)
    | true, _, _, _ => (s, .error .paused)
    | false, _, _, _ =>
      let (s', jobId) := beginScan registry s automatic request now
      (s', .ok jobId)

def pauseScan (s : State) : State :=
  match s.paused, s.scan.running, s.controller, s.activeRequest with
  | false, true, some _, some active =>
    { s with
      progressBeforePause := s.scan.progress
      paused := true
      scan := { s.scan with
        running := false
        progress := some {
          sourceId := (s.scan.progress.map (·.sourceId)).getD active.sourceId
          phase := "stopped"
          current := (s.scan.progress.map (·.current)).getD 0
          total := (s.scan.progress.map (·.total)).getD 0
          message := "Agent source scan paused" } }
      held := some active }
  | _, _, _, _ => s

/-- The pause is over, the controller aborted, and the callback that is left called. -/
def stop (s : State) : State := { s.abortController with paused := false }.wake

def markCanceled (s : State) : State :=
  { s with
    scans := s.scans.map fun r => if s.controller = some r.id then { r with canceled := true } else r
    everCanceled := s.everCanceled ++ s.scan.jobId.toList }

def cancelScan (s : State) : State :=
  if s.controller = none ∧ ¬ s.paused then s
  else
    { stop (markCanceled s) with
      canceledJobs := s.canceledJobs ++ s.scan.jobId.toList.filter (· ∉ s.canceledJobs)
      scan := emptyScanState
      activeRequest := none
      progressBeforePause := none
      held := none }

/-- `dispose`, up to its awaits. -/
def dispose (s : State) : State :=
  { stop s with
    disposed := true
    automation :=
      match s.automation with
      | .working startup => .working startup
      | _ => .off
    held := none }

/-! ### Events -/

inductive Event where
  | startScan (request : ScanRequest) (now : ℕ)
  | pauseScan
  | cancelScan
  | dispose
  | startAutomation (startup : Bool)
  | tick
  | connect (sourceId : String) (state : PersistedSourceState)
  | tickScan (enabled : Bool) (now : ℕ)
  | advance (id : ℕ) (answer : Answer) (now : ℕ)

def allSources : ScanRequest where
  sourceId := "all"
  mode := none

section Step

variable (registry : List String)

/-- The timer is set again when a tick is over. -/
def reschedule (s : State) : State := { s with automation := if s.disposed then .off else .timer false }

def step (s : State) : Event → State
  | .startScan request now => (startScan registry s false request now).1
  | .pauseScan => pauseScan s
  | .cancelScan => cancelScan s
  | .dispose => dispose s
  | .startAutomation startup =>
    if s.automation = .off ∧ ¬ s.disposed then { s with automation := .timer startup } else s
  | .tick =>
    match s.automation with
    | .timer startup =>
      if s.disposed ∨ s.scan.running then reschedule s else { s with automation := .working startup }
    | _ => s
  | .connect sourceId state =>
    match s.automation with
    | .working _ =>
      { s with
        sources := s.sources.set sourceId state
        stateFile := s.sources.set sourceId state
        log := s.log ++ [⟨.wroteState, true, s.held.isSome, false⟩] }
    | _ => s
  | .tickScan enabled now =>
    match s.automation with
    | .working _ =>
      reschedule (if enabled ∧ ¬ s.disposed then (startScan registry s true allSources now).1 else s)
    | _ => s
  | .advance id answer now =>
    match s.scans.find? (·.id = id) with
    | some r => s.advance now r answer
    | none => s

end Step

/-- An executor before its first scan, with the state file and the scan stores it finds. -/
def start (sources : Sources) (stores : List ScanMeta) : State where
  disposed := false
  scan := emptyScanState
  paused := false
  controller := none
  activeRequest := none
  progressBeforePause := none
  resume := none
  canceledJobs := []
  scans := []
  sources := sources
  stateFile := sources
  stores := stores
  automation := .off
  nextId := 0
  nextJob := (stores.map (·.jobId)).sum + 1
  held := none
  everCanceled := []
  log := []

end Memmy.AgentSource
