import Memmy.Lib.Sort
import Memmy.Lib.Text

/-! # The cron service

A running `CronService` keeps its jobs in memory and writes them to the store file after every change;
outside a pass of the timer it reads them back, so the list in memory stands for both. Another process
appends its changes to `action.jsonl`; `mergeAction` plays the lines onto the list before a pass, between
two jobs of a pass and before a call outside a pass. Times are whole milliseconds, and the clock does
not go back.

* `Row`: a job with the identity of its object and of its schedule object, which `executeJob` compares.
* `Update`: a line of another process with the snapshot its edit was based on.
* `Firing`: a job as the timer starts it; `State.log` lists them, the newest first. -/

namespace Memmy.Cron.Service

open Lib.Sort Lib.Text

/-! ### Jobs -/

inductive ScheduleKind where
  | oneTime
  | every
  | cron
  deriving DecidableEq, Repr

structure CronSchedule where
  kind : ScheduleKind
  atMs : Option ℤ := none
  /-- `at`, a date as text. -/
  date : Option String := none
  everyMs : Option ℤ := none
  expr : Option String := none
  tz : Option String := none
  deriving DecidableEq, Repr

structure CronPayload where
  kind : String := "agentTurn"
  message : String := ""
  prompt : String := ""
  deliver : Bool := false
  channel : Option String := none
  recipient : Option String := none
  chatId : Option String := none
  sessionKey : Option String := none
  deriving DecidableEq, Repr

structure CronRunRecord where
  runAtMs : ℤ
  durationMs : ℤ
  status : String
  error : Option String
  deriving DecidableEq, Repr

structure CronJobState where
  nextRunAtMs : Option ℤ := none
  lastRunAtMs : Option ℤ := none
  lastStatus : Option String := none
  lastError : Option String := none
  runHistory : List CronRunRecord := []
  deriving DecidableEq, Repr

structure CronJob where
  id : String
  name : String := ""
  enabled : Bool := true
  schedule : CronSchedule
  payload : CronPayload := {}
  state : CronJobState := {}
  system : Bool := false
  createdAtMs : ℤ := 0
  updatedAtMs : ℤ := 0
  deleteAfterRun : Bool := false
  deriving DecidableEq, Repr

/-! ### Schedules -/

/-- The dates and cron expressions of the platform and of the expression parser. -/
structure Calendar where
  parseDate : String → Option ℤ
  /-- `parse(expr, { currentDate, tz }).next()`. -/
  nextInstant : String → ℤ → Option String → Option ℤ
  nextInstant_gt : ∀ {expr : String} {base next : ℤ} {tz : Option String},
    nextInstant expr base tz = some next → base < next
  validTimezone : String → Bool

/-- The number of fields between white space. -/
def fieldCount : Bool → List Char → ℕ
  | _, [] => 0
  | inField, c :: cs =>
    if isJsSpace c then fieldCount false cs
    else if inField then fieldCount true cs
    else fieldCount true cs + 1

variable (cal : Calendar)

def computeCronNextRun (expr : String) (baseMs : ℤ) (timeZone : Option String) : Option ℤ :=
  if fieldCount false expr.toList ≠ 5 then none else cal.nextInstant expr baseMs timeZone

def computeNextRun (schedule : CronSchedule) (baseMs : ℤ) : Option ℤ :=
  match schedule.kind with
  | .oneTime =>
    schedule.atMs.or ((schedule.date.filter (· ≠ "")).bind cal.parseDate)
  | .every =>
    match schedule.everyMs with
    | some interval => if interval ≤ 0 then none else some (baseMs + interval)
    | none => none
  | .cron =>
    match schedule.expr.filter (· ≠ "") with
    | some expr => computeCronNextRun cal expr baseMs schedule.tz
    | none => none

def advanceInterval (schedule : CronSchedule) (scheduledForMs endedAtMs : ℤ) : Option ℤ :=
  match schedule.everyMs with
  | none => none
  | some interval =>
    if interval ≤ 0 then none
    else if endedAtMs < scheduledForMs then some scheduledForMs
    else some (scheduledForMs + ((endedAtMs - scheduledForMs) / interval + 1) * interval)

/-- `validateScheduleForAdd` does not throw. -/
def validForAdd (schedule : CronSchedule) : Bool :=
  match schedule.tz.filter (· ≠ "") with
  | none => true
  | some tz => decide (schedule.kind = .cron) && cal.validTimezone tz

/-! ### Edits -/

structure JobPatch where
  name : Option String := none
  schedule : Option CronSchedule := none
  message : Option String := none
  deliver : Option Bool := none
  /-- `none` leaves the field as it is. -/
  channel : Option (Option String) := none
  recipient : Option (Option String) := none
  deleteAfterRun : Option Bool := none
  deriving DecidableEq, Repr

inductive Edit where
  | enable (enabled : Bool)
  | update (patch : JobPatch)
  deriving DecidableEq, Repr

/-- The edit sets a schedule. -/
def Edit.reschedules : Edit → Bool
  | .enable _ => false
  | .update patch => patch.schedule.isSome

def isSystem (job : CronJob) : Bool := job.payload.kind = "systemEvent" || job.system

def patchPayload (patch : JobPatch) (payload : CronPayload) : CronPayload :=
  { payload with
    message := patch.message.getD payload.message
    prompt := patch.message.getD payload.prompt
    deliver := patch.deliver.getD payload.deliver
    channel := patch.channel.getD payload.channel
    recipient := patch.recipient.getD payload.recipient
    chatId := patch.recipient.getD payload.chatId }

/-- The job after the edit; `none` if it is refused. -/
def editJob (now : ℤ) (edit : Edit) (job : CronJob) : Option CronJob :=
  match edit with
  | .enable enabled =>
    some { job with
      enabled := enabled
      updatedAtMs := now
      state :=
        { job.state with
          nextRunAtMs := if enabled then computeNextRun cal job.schedule now else none } }
  | .update patch =>
    if isSystem job = true ∨ patch.schedule.any (fun s => !validForAdd cal s) = true then none
    else
      let schedule := patch.schedule.getD job.schedule
      some { job with
        schedule := schedule
        name := patch.name.getD job.name
        payload := patchPayload patch job.payload
        deleteAfterRun := patch.deleteAfterRun.getD job.deleteAfterRun
        updatedAtMs := now
        state :=
          { job.state with
            nextRunAtMs :=
              if job.enabled = true ∧ patch.schedule.isSome = true then
                computeNextRun cal schedule now
              else job.state.nextRunAtMs } }

structure NewJob where
  id : String
  name : String
  schedule : CronSchedule
  payload : CronPayload := {}
  deleteAfterRun : Bool := false
  deriving DecidableEq, Repr

/-- The job that `addJob` makes. -/
def newJob (now : ℤ) (new : NewJob) : CronJob where
  id := new.id
  name := new.name
  schedule := new.schedule
  payload := new.payload
  state := { nextRunAtMs := computeNextRun cal new.schedule now }
  createdAtMs := now
  updatedAtMs := now
  deleteAfterRun := new.deleteAfterRun

/-! ### The service -/

structure Row where
  job : CronJob
  ref : ℕ
  scheduleRef : ℕ
  deriving DecidableEq, Repr

/-- An `update` line: the edit of another process, at time `editedAt`, of the job as a snapshot had
it. The line carries the whole job. -/
structure Update where
  base : CronJob
  edit : Edit
  editedAt : ℤ
  job : CronJob
  deriving DecidableEq, Repr

inductive Line where
  | add (job : CronJob)
  | update (u : Update)
  | del (jobId : String)
  deriving DecidableEq, Repr

structure Firing where
  id : String
  scheduleRef : ℕ
  kind : ScheduleKind
  scheduledFor : ℤ
  started : ℤ
  deriving DecidableEq, Repr

/-- The job that the pass has started and that has not ended. -/
structure Active where
  id : String
  ref : ℕ
  scheduleRef : ℕ
  scheduledFor : ℤ
  started : ℤ
  executed : List String
  deriving DecidableEq, Repr

structure State where
  jobs : List Row
  lines : List Line := []
  now : ℤ
  active : Option Active := none
  nextRef : ℕ
  log : List Firing := []
  retired : List String := []
  deriving DecidableEq, Repr

/-- `jobs.set(id, job)`: a key that is there keeps its place. -/
def setRow (jobs : List Row) (row : Row) : List Row :=
  if jobs.any (fun r => r.job.id = row.job.id) then
    jobs.map fun r => if r.job.id = row.job.id then row else r
  else jobs ++ [row]

def findRow (jobs : List Row) (id : String) : Option Row := jobs.find? fun r => r.job.id = id

/-- The rows that `p` selects are removed. -/
def removeRows (p : Row → Bool) (s : State) : State :=
  { s with
    jobs := s.jobs.filter fun r => !p r
    retired := ((s.jobs.filter p).map (·.job.id)).filter
      (fun id => s.log.any fun f => f.id = id) ++ s.retired }

/-- A job with a schedule of its own takes its place. -/
def putRow (job : CronJob) (s : State) : State :=
  { s with
    jobs := setRow s.jobs { job := job, ref := s.nextRef, scheduleRef := s.nextRef + 1 }
    nextRef := s.nextRef + 2 }

def laterRun : Option ℤ → Option ℤ → Bool
  | some a, some b => b < a
  | some _, none => true
  | none, _ => false

/-- The result of a run that the snapshot has not seen is kept. -/
def keepResult (current job : CronJob) : CronJob :=
  if laterRun current.state.lastRunAtMs job.state.lastRunAtMs then
    { job with
      state :=
        { job.state with
          lastRunAtMs := current.state.lastRunAtMs
          lastStatus := current.state.lastStatus
          lastError := current.state.lastError
          runHistory := current.state.runHistory } }
  else job

/-- One line of `mergeAction`. -/
def mergeLine (s : State) : Line → State
  | .del jobId => if jobId = "" then s else removeRows (fun r => r.job.id = jobId) s
  | .add job => putRow job s
  | .update u =>
    match findRow s.jobs u.job.id with
    | none => putRow u.job s
    | some current =>
      let job := keepResult current.job u.job
      if u.edit.reschedules then putRow job s
      else
        { s with
          jobs := setRow s.jobs { job := job, ref := s.nextRef, scheduleRef := current.scheduleRef }
          nextRef := s.nextRef + 1 }

def mergeAction (s : State) : State := s.lines.foldl mergeLine { s with lines := [] }

/-- `loadStore`: during a pass the list is taken as it is. -/
def loadStore (s : State) : State :=
  match s.active with
  | some _ => s
  | none => mergeAction s

def isDue (now : ℤ) (executed : List String) (r : Row) : Bool :=
  r.job.enabled && !executed.contains r.job.id &&
    (r.job.state.nextRunAtMs.map fun next => decide (next ≤ now)).getD false

/-- One-time jobs first, then by their deadlines. -/
def dueOrder : Row → Row → Ordering :=
  compareLex (descending fun r => if r.job.schedule.kind = .oneTime then 1 else 0)
    (ascending fun r => r.job.state.nextRunAtMs.getD 0)

def nextDue (s : State) (executed : List String) : Option Row :=
  (sortBy dueOrder (s.jobs.filter (isDue s.now executed))).head?

def fire (s : State) (executed : List String) (row : Row) : State :=
  match row.job.state.nextRunAtMs with
  | none => s
  | some scheduledFor =>
    { s with
      active := some
        { id := row.job.id
          ref := row.ref
          scheduleRef := row.scheduleRef
          scheduledFor := scheduledFor
          started := s.now
          executed := row.job.id :: executed }
      log :=
        { id := row.job.id
          scheduleRef := row.scheduleRef
          kind := row.job.schedule.kind
          scheduledFor := scheduledFor
          started := s.now } :: s.log }

/-- The loop of `onTimer` up to the next job. -/
def runPass (executed : List String) (s : State) : State :=
  let s := mergeAction s
  match nextDue s executed with
  | none => s
  | some row => fire s executed row

def onTimer (s : State) : State :=
  match s.active with
  | some _ => s
  | none => runPass [] (loadStore s)

def MAX_RUN_HISTORY : ℕ := 20

/-- The result of the run, on the job object. -/
def recordRun (a : Active) (ended : ℤ) (error : Option String) (job : CronJob) : CronJob :=
  let status := if error.isSome then "error" else "ok"
  let record : CronRunRecord :=
    { runAtMs := a.started
      durationMs := max 0 (ended - a.started)
      status := status
      error := error }
  let history := job.state.runHistory ++ [record]
  { job with
    updatedAtMs := ended
    state :=
      { job.state with
        lastRunAtMs := some a.started
        lastStatus := some status
        lastError := error
        runHistory := history.drop (history.length - MAX_RUN_HISTORY) } }

/-- The deadline that follows the run of a job that is still as it was started. -/
def finishRow (a : Active) (ended : ℤ) (row : Row) : Row :=
  { row with
    job :=
      { row.job with
        enabled := decide (row.job.schedule.kind ≠ .oneTime) && row.job.enabled
        state :=
          { row.job.state with
            nextRunAtMs :=
              match row.job.schedule.kind with
              | .oneTime => none
              | .every => advanceInterval row.job.schedule a.scheduledFor ended
              | .cron => computeNextRun cal row.job.schedule ended } } }

/-- The end of `executeJob`: a job that was deleted, disabled or rescheduled meanwhile keeps its
edit. -/
def completeJob (a : Active) (error : Option String) (s : State) : State :=
  let s := { s with active := none }
  match findRow s.jobs a.id with
  | none => s
  | some found =>
    if found.ref ≠ a.ref then s
    else
      let row := { found with job := recordRun a s.now error found.job }
      if row.job.enabled = false ∨ row.scheduleRef ≠ a.scheduleRef ∨
          row.job.state.nextRunAtMs ≠ some a.scheduledFor then
        { s with jobs := setRow s.jobs row }
      else if row.job.schedule.kind = .oneTime ∧ row.job.deleteAfterRun = true then
        removeRows (fun r => r.job.id = a.id) s
      else { s with jobs := setRow s.jobs (finishRow cal a s.now row) }

/-! ### Steps -/

inductive Op where
  | tick (ms : ℕ)
  | externalAdd (new : NewJob)
  | externalEdit (base : CronJob) (edit : Edit)
  | externalDel (jobId : String)
  | load
  | add (job : CronJob)
  | addJob (new : NewJob)
  | registerSystemJob (job : CronJob)
  | unregisterSystemJob (jobId : String)
  | removeJob (jobId : String)
  | removeForSessions (sessionKeys : List String)
  | edit (jobId : String) (edit : Edit)
  | timer
  | complete (error : Option String)
  deriving Repr

/-- A job that is put there by a call is not a removed one that came back. -/
def putJob (job : CronJob) (s : State) : State :=
  let s := putRow job s
  { s with retired := s.retired.filter (· ≠ job.id) }

/-- An edit of the row, in place. -/
def editRow (jobId : String) (edit : Edit) (s : State) : State :=
  match findRow s.jobs jobId with
  | none => s
  | some row =>
    match editJob cal s.now edit row.job with
    | none => s
    | some job =>
      { s with
        jobs := setRow s.jobs
          { row with
            job := job
            scheduleRef := if edit.reschedules then s.nextRef else row.scheduleRef }
        nextRef := s.nextRef + 1 }

def step (s : State) : Op → State
  | .tick ms => { s with now := s.now + ms }
  | .externalAdd new =>
    if validForAdd cal new.schedule then
      { s with lines := s.lines ++ [.add (newJob cal s.now new)] }
    else s
  | .externalEdit base edit =>
    match editJob cal s.now edit base with
    | none => s
    | some job =>
      { s with
        lines := s.lines ++
          [.update { base := base, edit := edit, editedAt := s.now, job := job }] }
  | .externalDel jobId => { s with lines := s.lines ++ [.del jobId] }
  | .load => loadStore s
  | .add job => putJob job (loadStore s)
  | .addJob new =>
    let s := loadStore s
    -- The id is drawn at random and is not there.
    if validForAdd cal new.schedule = true ∧ findRow s.jobs new.id = none then
      putJob (newJob cal s.now new) s
    else s
  | .registerSystemJob job =>
    let s := loadStore s
    putJob
      { job with
        system := true
        state := { nextRunAtMs := computeNextRun cal job.schedule s.now }
        createdAtMs := s.now
        updatedAtMs := s.now } s
  | .unregisterSystemJob jobId =>
    removeRows (fun r => r.job.id = jobId && isSystem r.job) (loadStore s)
  | .removeJob jobId => removeRows (fun r => r.job.id = jobId && !isSystem r.job) (loadStore s)
  | .removeForSessions sessionKeys =>
    removeRows (fun r => !isSystem r.job &&
      ((r.job.payload.sessionKey.filter (· ≠ "")).map fun key => sessionKeys.contains key).getD false)
      (loadStore s)
  | .edit jobId edit => editRow cal jobId edit (loadStore s)
  | .timer => onTimer s
  | .complete error =>
    match s.active with
    | none => s
    | some a => runPass a.executed (completeJob cal a error s)

/-- The service with its jobs, before anything has happened. -/
def start (jobs : List CronJob) (now : ℤ) : State where
  jobs := jobs.zipIdx.map fun p => { job := p.1, ref := 2 * p.2, scheduleRef := 2 * p.2 + 1 }
  now := now
  nextRef := 2 * jobs.length

end Memmy.Cron.Service
