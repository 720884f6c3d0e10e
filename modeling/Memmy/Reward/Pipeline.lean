import Memmy.Lib.Rows
import Memmy.Reward.Backpropagation

/-! # The reward of a closed episode

A reward job reads the traces of an episode from the list of the newest thousand memories, asks a model for
the score, writes the score to the episode and the values to the traces, and finalizes the episode
(`RewardPipeline.applyReward`). It gives way where it waits for the model and, when repairs are on, after the
update of each trace; what the rest of the service writes in between are the other events.

* `Store`: the tables that the job reads and writes.
* `finalizeClosedEpisode`: the jobs that a closed episode still needs.
* `startReward`, `answerReward`, `resumeReward`: the job from one wait to the next.
* `step`: one event. -/

namespace Memmy.Reward

open Lib.Sort

/-! ### The store -/

inductive MemoryLayer where
  | l1
  | l2
  | l3
  | skill
  deriving DecidableEq

inductive MemoryStatus where
  | activated
  | resolving
  | archived
  | deleted
  deriving DecidableEq

/-- `properties.internal_info.trace` -/
structure Trace where
  episodeId : Option String
  ts : Option ℚ
  reflection : Option String
  alpha : Option ℚ
  value : Option ℚ
  rHuman : Option ℚ
  userText : String
  agentText : String
  toolCalls : ℕ
  deriving DecidableEq

structure MemoryRow where
  id : String
  memoryLayer : MemoryLayer
  status : MemoryStatus
  deletedAt : Option ℕ
  createdAt : ℕ
  updatedAt : ℕ
  timeline : ℚ
  trace : Option Trace
  reflectionScored : Bool
  capturePending : Bool
  deriving DecidableEq

/-- `traceMetaFromMemory` -/
def MemoryRow.traceMeta (m : MemoryRow) : Option TraceMeta :=
  if m.memoryLayer = .l1 then
    m.trace.map fun t => {
      id := m.id
      episodeId := t.episodeId
      ts := t.ts.getD m.timeline
      reflection := t.reflection
      alpha := t.alpha.getD 0
      userText := t.userText
      agentText := t.agentText
      toolCalls := t.toolCalls }
  else none

inductive EpisodeStatus where
  | opened
  | processing
  | closed
  deriving DecidableEq

inductive RewardPhase where
  | final
  | feedback
  deriving DecidableEq

structure RewardDetail where
  rHuman : ℚ
  phase : RewardPhase
  skipped : Bool
  traceIds : List String
  deriving DecidableEq

structure EpisodeRecord where
  id : String
  status : EpisodeStatus
  l1MemoryIds : List String
  feedbackIds : List String
  rTask : Option ℚ
  rewardDetail : Option RewardDetail
  rewardDirty : Bool
  deriving DecidableEq

structure FeedbackRow where
  id : String
  feedback : Feedback

structure Store where
  memories : List MemoryRow
  episodes : List EpisodeRecord
  feedback : List FeedbackRow

namespace Store

/-- `repos.memories.get(id)` -/
def getMemory (s : Store) (id : String) : Option MemoryRow :=
  s.memories.find? fun m => m.id = id ∧ m.deletedAt = none

def getEpisode (s : Store) (id : String) : Option EpisodeRecord := s.episodes.find? (·.id = id)

def getFeedback (s : Store) (id : String) : Option Feedback := (s.feedback.find? (·.id = id)).map (·.feedback)

/-- `ORDER BY created_at DESC, updated_at DESC, id DESC` -/
def listOrder : MemoryRow → MemoryRow → Ordering :=
  compareLex (descending MemoryRow.createdAt)
    (compareLex (descending MemoryRow.updatedAt) (descending MemoryRow.id))

/-- `memories.list({ memoryLayer: "L1", status: "activated" }, limit)` -/
def listActivated (s : Store) (limit : ℕ) : List MemoryRow :=
  (sortBy listOrder (s.memories.filter fun m =>
    m.deletedAt = none ∧ m.memoryLayer = .l1 ∧ m.status = .activated)).take limit

/-- A memory is written: the row of its id, or a new one. -/
def putMemory (s : Store) (m : MemoryRow) : Store :=
  { s with
    memories :=
      if s.memories.any (·.id = m.id) then Lib.Rows.update (·.id = m.id) (fun _ => m) s.memories
      else s.memories ++ [m] }

def updateEpisode (s : Store) (id : String) (f : EpisodeRecord → EpisodeRecord) : Store :=
  { s with episodes := Lib.Rows.update (·.id = id) f s.episodes }

end Store

/-! ### Jobs -/

/-- What a reward job's payload says of feedback. -/
structure JobPayload where
  l1MemoryId : Option String
  implicitChannel : Bool
  polarity : Option String
  magnitude : Option ℚ
  rationale : Option String

inductive JobType where
  | reward
  | reflection
  deriving DecidableEq

structure Job where
  jobType : JobType
  episodeId : Option String
  targetMemoryId : Option String
  payload : JobPayload

/-- `payloadHasFeedback` -/
def JobPayload.hasFeedback (p : JobPayload) : Bool :=
  p.polarity.isSome || p.magnitude.isSome || p.rationale.isSome

/-- The feedback that stands for the payload. -/
def JobPayload.feedback (p : JobPayload) : Feedback where
  channel := if p.implicitChannel then .implicit else .explicit
  polarity :=
    if p.polarity = some "negative" then .negative
    else if p.polarity = some "neutral" then .neutral
    else .positive
  magnitude := some (p.magnitude.getD 1)

def noFeedbackPayload (l1MemoryId : Option String) : JobPayload where
  l1MemoryId := l1MemoryId
  implicitChannel := false
  polarity := none
  magnitude := none
  rationale := none

/-- What a reward job still has to do when it has updated some traces. -/
structure Updating where
  rHuman : ℚ
  rewarded : Bool
  assigned : List TraceUpdate
  pending : List TraceUpdate
  stamp : ℕ

/-- What a reward job waits for. -/
inductive Wait where
  | scoring (fallback : ℚ)
  | repairing (u : Updating)

/-- A reward job that runs: the episode of its source, and the traces it has read. -/
structure Running where
  job : Job
  episodeId : Option String
  phase : RewardPhase
  traces : List TraceMeta
  wait : Wait

/-- A reward that was written to an episode, with the store before it. -/
structure Written where
  store : Store
  episodeId : String
  skipped : Bool

/-- A reward job that ended: what it assigned, and the store when it ended. -/
structure Finished where
  store : Store
  episodeId : Option String
  phase : RewardPhase
  traces : List TraceMeta
  assigned : List TraceUpdate

structure State where
  store : Store
  queue : List Job
  running : List Running
  failed : List Job
  written : List Written
  finished : List Finished

/-! ### Closed episodes -/

def episodeRewardWasSkipped (episode : EpisodeRecord) : Bool :=
  match episode.rewardDetail with
  | some detail => detail.skipped
  | none => false

def activeL1MemoryIds (s : Store) (episode : EpisodeRecord) : List String :=
  episode.l1MemoryIds.filter fun id => (s.getMemory id).map (·.status) = some .activated

def episodeHasRewardForReflection (s : Store) (episode : EpisodeRecord) : Bool :=
  match episode.rTask, episode.rewardDetail with
  | some _, some detail =>
    decide (episode.status = .closed) && decide (detail.phase = .final) && !detail.skipped &&
      decide (detail.traceIds = activeL1MemoryIds s episode)
  | _, _ => false

def episodeHasPendingCaptureDecision (s : Store) (episode : EpisodeRecord) : Bool :=
  episode.l1MemoryIds.any fun id => ((s.getMemory id).map (·.capturePending)).getD false

/-- `hasEpisodeJob(episode.id, jobType, ["queued", "leased", "failed"])` -/
def hasEpisodeJob (s : State) (id : String) (jobType : JobType) : Bool :=
  (s.queue ++ s.running.map (·.job) ++ s.failed).any fun job =>
    job.episodeId = some id ∧ job.jobType = jobType

def enqueueEpisodeReflection (s : State) (episode : EpisodeRecord) : List Job :=
  if episode.status ≠ .closed ∨ episodeHasPendingCaptureDecision s.store episode ∨
      hasEpisodeJob s episode.id .reflection then []
  else
    let unscored := (episode.l1MemoryIds.filterMap s.store.getMemory).filter fun m =>
      m.memoryLayer = .l1 ∧ m.status = .activated ∧ !m.reflectionScored
    match sortBy (ascending fun m : MemoryRow => (m.trace.bind (·.ts)).getD m.timeline) unscored with
    | [] => []
    | target :: _ => [{
        jobType := .reflection
        episodeId := some episode.id
        targetMemoryId := some target.id
        payload := noFeedbackPayload none }]

def feedbackTargetFromEpisode (s : Store) (episode : EpisodeRecord) : Option MemoryRow :=
  (episode.l1MemoryIds.reverse.filterMap s.getMemory).find? fun m => m.traceMeta.isSome

def enqueueEpisodeRewardAfterReflection (s : State) (episode : EpisodeRecord) : List Job :=
  if episode.status ≠ .closed ∨ episodeHasPendingCaptureDecision s.store episode ∨
      episodeHasRewardForReflection s.store episode ∨ episodeRewardWasSkipped episode ∨
      (hasEpisodeJob s episode.id .reward ∧ !episode.rewardDirty) then []
  else
    match feedbackTargetFromEpisode s.store episode with
    | none => []
    | some target =>
      match (episode.feedbackIds.reverse.filterMap s.store.getFeedback).head? with
      | none => [{
          jobType := .reward
          episodeId := some episode.id
          targetMemoryId := none
          payload := noFeedbackPayload (some target.id) }]
      | some feedback => [{
          jobType := .reward
          episodeId := some episode.id
          targetMemoryId := none
          payload := {
            l1MemoryId := some target.id
            implicitChannel := decide (feedback.channel = .implicit)
            polarity := some (match feedback.polarity with
              | .positive => "positive"
              | .negative => "negative"
              | .neutral => "neutral")
            magnitude := feedback.magnitude
            rationale := none } }]

/-- `finalizeClosedEpisode`, its titles left out. -/
def finalizeClosedEpisode (s : State) (id : String) : List Job :=
  match s.store.getEpisode id with
  | none => []
  | some current =>
    if current.status ≠ .closed ∨ current.l1MemoryIds.length = 0 then []
    else if episodeHasPendingCaptureDecision s.store current then []
    else if episodeRewardWasSkipped current then []
    else
      match enqueueEpisodeReflection s current with
      | [] =>
        if episodeHasRewardForReflection s.store current then []
        else enqueueEpisodeRewardAfterReflection s current
      | jobs => jobs

/-! ### The job -/

section Job

variable (cfg : RewardConfig) (rewardSkipReason : List TraceMeta → Option String)

/-- `rewardSourceForJob`, the trace of the source. -/
def rewardSourceForJob (s : Store) (job : Job) : Option TraceMeta :=
  let traceOf (id : Option String) : Option TraceMeta := (id.bind s.getMemory).bind (·.traceMeta)
  (traceOf job.targetMemoryId).or ((traceOf job.payload.l1MemoryId).or (job.episodeId.bind fun episodeId =>
    let l1MemoryIds := ((s.getEpisode episodeId).map (·.l1MemoryIds)).getD []
    let episodeMemories :=
      if l1MemoryIds.length > 0 then l1MemoryIds.filterMap s.getMemory else s.listActivated 1000
    (sortBy (ascending TraceMeta.ts) ((episodeMemories.filterMap (·.traceMeta)).filter
      (·.episodeId = some episodeId))).head?))

def latestEpisodeFeedback (episodeFeedback : List Feedback) : Option Feedback :=
  (episodeFeedback.reverse.find? (·.channel = .explicit)).or episodeFeedback.getLast?

/-- `fallbackFeedback.rHuman` -/
def fallbackScore (episodeFeedback : List Feedback) (payload : JobPayload) : ℚ :=
  heuristicHumanScore
    (match latestEpisodeFeedback episodeFeedback with
      | some feedback => [feedback]
      | none => if payload.hasFeedback then [payload.feedback] else [])

def episodeTraces (s : Store) (episodeId : Option String) : List TraceMeta :=
  sortBy (ascending TraceMeta.ts)
    (((s.listActivated 1000).filterMap (·.traceMeta)).filter (·.episodeId = episodeId))

/-- The columns that `updateEpisodeReward` sets. -/
def EpisodeRecord.withReward (detail : RewardDetail) (e : EpisodeRecord) : EpisodeRecord :=
  { e with
    rTask := some detail.rHuman
    rewardDetail := some detail
    rewardDirty := false }

/-- `updateEpisodeReward`, with what is written where the episode is there. -/
def updateEpisodeReward (s : State) (id : String) (detail : RewardDetail) : State :=
  if (s.store.getEpisode id).isSome then
    { s with
      store := s.store.updateEpisode id (EpisodeRecord.withReward detail)
      written := s.written ++ [⟨s.store, id, detail.skipped⟩] }
  else s

def episodeFeedback (s : Store) (trace : TraceMeta) : List Feedback :=
  (((trace.episodeId.bind s.getEpisode).map (·.feedbackIds)).getD []).filterMap s.getFeedback

/-- The job as it calls the model. -/
def scoringJob (s : Store) (job : Job) (trace : TraceMeta) : Running where
  job := job
  episodeId := trace.episodeId
  phase := if (trace.episodeId.bind s.getEpisode).isSome then .final else .feedback
  traces := episodeTraces s trace.episodeId
  wait := .scoring (fallbackScore (episodeFeedback s trace) job.payload)

def skipReason (s : Store) (job : Job) (trace : TraceMeta) : Option String :=
  if (episodeFeedback s trace).length > 0 ∨ job.payload.hasFeedback then none
  else rewardSkipReason (episodeTraces s trace.episodeId)

/-- `applyReward`, up to the call of the model. -/
def startReward (s : State) (job : Job) : State :=
  match rewardSourceForJob s.store job with
  | none => s
  | some trace =>
    if ((trace.episodeId.bind s.store.getEpisode).map (·.status)).getD .closed ≠ .closed then s
    else
      match skipReason rewardSkipReason s.store job trace, trace.episodeId with
      | some _, some id => updateEpisodeReward s id {
          rHuman := 0
          phase := (scoringJob s.store job trace).phase
          skipped := true
          traceIds := [] }
      | _, _ => { s with running := s.running ++ [scoringJob s.store job trace] }

def updateTraceScore (m : MemoryRow) (u : TraceUpdate) (rHuman : ℚ) (stamp : ℕ) : MemoryRow :=
  let trace := m.trace.getD {
    episodeId := none
    ts := none
    reflection := none
    alpha := none
    value := none
    rHuman := none
    userText := ""
    agentText := ""
    toolCalls := 0 }
  { m with
    trace := some { trace with
      value := some u.value
      alpha := some u.alpha
      rHuman := some rHuman }
    updatedAt := stamp }

/-- The end of `applyReward`; the job is leased until it returns. -/
def finishReward (s : State) (r : Running) (u : Updating) : State :=
  let jobs :=
    match r.episodeId with
    | some id => if u.rewarded then finalizeClosedEpisode { s with running := s.running ++ [r] } id else []
    | none => []
  { s with
    queue := s.queue ++ jobs
    finished := s.finished ++ [⟨s.store, r.episodeId, r.phase, r.traces, u.assigned⟩] }

/-- The updates from here, up to the next repair or to the end. -/
def runUpdates (s : State) (r : Running) (u : Updating) : List TraceUpdate → State
  | [] => finishReward s r u
  | update :: pending =>
    match s.store.getMemory update.traceId with
    | none => runUpdates s r u pending
    | some current =>
      let s' := { s with store := s.store.putMemory (updateTraceScore current update u.rHuman u.stamp) }
      let u' := { u with assigned := u.assigned ++ [update] }
      if cfg.valueDistributionRepairEnabled then
        { s' with running := s'.running ++ [{ r with wait := .repairing { u' with pending := pending } }] }
      else runUpdates s' r u' pending

/-- `scoreFeedbackWithLlm`; the answer is `none` where the model is not configured or fails. -/
def scoreFeedbackWithLlm (fallback : ℚ) (answer : Option RewardAxes) : ℚ :=
  match answer with
  | some axes => if cfg.llmScoring then combineRewardAxes axes else fallback
  | none => fallback

/-- From the answer of the model to the first repair or to the end. -/
def answerReward (s : State) (r : Running) (fallback : ℚ) (answer : Option RewardAxes) (stamp : ℕ) : State :=
  let rHuman := scoreFeedbackWithLlm cfg fallback answer
  let rewarded := (r.episodeId.bind s.store.getEpisode).isSome
  let s' :=
    match r.episodeId with
    | some id => updateEpisodeReward s id {
        rHuman := rHuman
        phase := r.phase
        skipped := false
        traceIds := r.traces.map (·.id) }
    | none => s
  runUpdates cfg s' r ⟨rHuman, rewarded, [], [], stamp⟩ (backpropagateTraces cfg r.traces rHuman)

end Job

/-! ### Events -/

inductive Event where
  | putMemory (m : MemoryRow)
  | createEpisode (id : String)
  | appendEpisodeTurn (id : String) (m : MemoryRow)
  | closeEpisode (id : String)
  | reopenEpisode (id : String)
  | addFeedback (row : FeedbackRow) (episodeId l1MemoryId rationale : Option String)
  | finalizeClosedEpisode (id : String)
  /-- A reflection job is taken from the queue; what it writes are other events. -/
  | takeReflection (i : ℕ)
  | startReward (i : ℕ)
  | answerReward (i : ℕ) (answer : Option RewardAxes) (stamp : ℕ)
  | resumeReward (i : ℕ)
  | failReward (i : ℕ)
  | retry (i : ℕ)

def feedbackPayload (feedback : Feedback) (l1MemoryId rationale : Option String) : JobPayload where
  l1MemoryId := l1MemoryId
  implicitChannel := decide (feedback.channel = .implicit)
  polarity := some (match feedback.polarity with
    | .positive => "positive"
    | .negative => "negative"
    | .neutral => "neutral")
  magnitude := feedback.magnitude
  rationale := rationale

def newEpisode (id : String) : EpisodeRecord where
  id := id
  status := .opened
  l1MemoryIds := []
  feedbackIds := []
  rTask := none
  rewardDetail := none
  rewardDirty := false

/-- `uniq([...list, value])` -/
def appendUniq (list : List String) (value : String) : List String :=
  if value ∈ list then list else list ++ [value]

section Step

variable (cfg : RewardConfig) (rewardSkipReason : List TraceMeta → Option String)

def addFeedback (s : State) (row : FeedbackRow) (episodeId l1MemoryId rationale : Option String) : State :=
  let store := { s.store with feedback := s.store.feedback ++ [row] }
  let store :=
    match episodeId with
    | some id => store.updateEpisode id fun e => { e with feedbackIds := appendUniq e.feedbackIds row.id }
    | none => store
  let status : EpisodeStatus := ((episodeId.bind store.getEpisode).map (·.status)).getD .closed
  let jobs : List Job :=
    if (l1MemoryId.isSome ∨ episodeId.isSome) ∧ status ≠ .opened then [{
      jobType := .reward
      episodeId := episodeId
      targetMemoryId := none
      payload := feedbackPayload row.feedback l1MemoryId rationale }]
    else []
  { s with
    store := store
    queue := s.queue ++ jobs }

def step (s : State) : Event → State
  | .putMemory m => { s with store := s.store.putMemory m }
  | .createEpisode id =>
    if (s.store.getEpisode id).isSome then s
    else { s with store := { s.store with episodes := s.store.episodes ++ [newEpisode id] } }
  | .appendEpisodeTurn id m =>
    if (s.store.getEpisode id).isSome then
      { s with store := (s.store.putMemory m).updateEpisode id fun e =>
          { e with l1MemoryIds := appendUniq e.l1MemoryIds m.id } }
    else s
  | .closeEpisode id =>
    match s.store.getEpisode id with
    | none => s
    | some episode =>
      if episode.status = .closed then s
      else
        let s' := { s with store := s.store.updateEpisode id fun e => { e with status := .closed } }
        { s' with queue := s'.queue ++ finalizeClosedEpisode s' id }
  | .reopenEpisode id =>
    { s with store := s.store.updateEpisode id fun e => { e with
        status := .opened
        rTask := none
        rewardDetail := none
        rewardDirty := true } }
  | .addFeedback row episodeId l1MemoryId rationale => addFeedback s row episodeId l1MemoryId rationale
  | .finalizeClosedEpisode id => { s with queue := s.queue ++ finalizeClosedEpisode s id }
  | .takeReflection i =>
    match s.queue[i]? with
    | some job => if job.jobType = .reflection then { s with queue := s.queue.eraseIdx i } else s
    | none => s
  | .startReward i =>
    match s.queue[i]? with
    | some job =>
      if job.jobType = .reward then startReward rewardSkipReason { s with queue := s.queue.eraseIdx i } job else s
    | none => s
  | .answerReward i answer stamp =>
    match s.running[i]? with
    | some r =>
      match r.wait with
      | .scoring fallback =>
        answerReward cfg { s with running := s.running.eraseIdx i } r fallback answer stamp
      | .repairing _ => s
    | none => s
  | .resumeReward i =>
    match s.running[i]? with
    | some r =>
      match r.wait with
      | .repairing u => runUpdates cfg { s with running := s.running.eraseIdx i } r u u.pending
      | .scoring _ => s
    | none => s
  | .failReward i =>
    match s.running[i]? with
    | some r =>
      { s with
        running := s.running.eraseIdx i
        failed := s.failed ++ [r.job] }
    | none => s
  | .retry i =>
    match s.failed[i]? with
    | some job =>
      { s with
        failed := s.failed.eraseIdx i
        queue := s.queue ++ [job] }
    | none => s

end Step

/-- An empty service. -/
def start : State where
  store := ⟨[], [], []⟩
  queue := []
  running := []
  failed := []
  written := []
  finished := []

end Memmy.Reward
