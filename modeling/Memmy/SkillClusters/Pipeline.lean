import Memmy.Lib.Run
import Memmy.SkillClusters.Features

/-! # Skill clusters: the jobs

Two kinds of jobs write the clusters. One assigns an episode, after a vector was computed for it; the other
lets a cluster learn from its members, and asks a model up to two times. Between two awaits a job is not
interrupted; at an await others may run, and the job may end there.

* `refreshClusterFeatures`, `createCluster`: an episode comes to a cluster.
* `beginEvolve`, `finishGenerate`, `writeMetaSkill`: the row of a cluster is read, and written back as a whole.
* `step`: one event. The state also keeps what every assignment was made with. -/

namespace Memmy.SkillClusters

open Lib.Sort

/-! ### Tables -/

structure EpisodeRecord where
  id : String
  userId : String
  projectId : Option String
  rTask : Option ℚ
  updatedAt : ℕ
  isTest : Bool

structure SkillClusterMemberRecord where
  clusterId : String
  episodeId : String
  outcome : Outcome
  rTask : Option ℚ
  assignedAt : ℕ
deriving DecidableEq

/-- An evolve job at its first await, with the row that it has read. -/
structure Evolving where
  cluster : SkillClusterRecord
  /-- The usable Skill of the cluster. -/
  existingSkill : Option String
  top6 : List String
  now : ℕ

/-- A job at an await. -/
inductive Job
  | assigning (episode : EpisodeRecord) (turns : List Turn)
  | generating (e : Evolving)
  /-- `updateMetaSkill`; a job that is inside the `try` also has the row for the way back. -/
  | updatingMeta (cluster : SkillClusterRecord) (onError : Option SkillClusterRecord)

structure World where
  episodes : List EpisodeRecord := []
  clusters : List SkillClusterRecord := []
  members : List SkillClusterMemberRecord := []
  jobs : List (String × Job) := []
  /-- What the episodes were assigned with, the last one first. -/
  assigned : List EpisodeSkillFeatures := []

variable (config : Clustering)

def World.getEpisode (w : World) (id : String) : Option EpisodeRecord := w.episodes.find? (·.id = id)

def World.getSkillCluster (w : World) (id : String) : Option SkillClusterRecord := w.clusters.find? (·.id = id)

def World.listSkillClusterMembers (w : World) (clusterId : String) : List SkillClusterMemberRecord :=
  w.members.filter (·.clusterId = clusterId)

/-- `getSkillClusterForEpisode`: the cluster of the last row of the episode. -/
def World.getSkillClusterForEpisode (w : World) (episodeId : String) : Option SkillClusterRecord :=
  let rows := sortBy (descending (·.assignedAt)) (w.members.filter (·.episodeId = episodeId))
  (rows.filterMap fun m => w.getSkillCluster m.clusterId).head?

def World.listSkillClustersByScope (w : World) (userId : String) (projectId : Option String) :
    List SkillClusterRecord :=
  let rows := w.clusters.filter fun c => c.userId = userId &&
    (projectId.isNone || projectId = some "" || c.projectId = projectId || c.projectId.isNone)
  (sortBy (descending (·.updatedAt)) rows).take 200

/-- `updateSkillCluster`: all columns, but for the owner. -/
def World.updateSkillCluster (w : World) (cluster : SkillClusterRecord) : World :=
  { w with clusters := w.clusters.map fun c =>
      if c.id = cluster.id then { cluster with userId := c.userId } else c }

def World.upsertSkillClusterMember (w : World) (member : SkillClusterMemberRecord) : World :=
  let same (m : SkillClusterMemberRecord) : Bool :=
    m.clusterId = member.clusterId && m.episodeId = member.episodeId
  if w.members.any same then { w with members := w.members.map fun m => if same m then member else m }
  else { w with members := w.members ++ [member] }

/-! ### Assignment -/

def seedMetaSkillMd : String :=
  "You extract a callable SOP from RawTurn evidence.\n\nUseful skill: an executor following steps can " ++
  "reproduce the key actions and checks from successful traces — not restate the user request.\n" ++
  "steps.body must land on commands, artifacts, acceptance checks, or recovery moves seen in successful " ++
  "RawTurns.\nBan fluff: \"carefully check / verify the result / handle as needed\" is not a useful step.\n" ++
  "One-off filenames go in parameters, never in name.\n" ++
  "Failures only enter anti_pattern / preconditions, never steps.\n" ++
  "Stop abstraction at a re-executable program, not \"use the relevant tools to process the task\"."

/-- `createCluster`, with a new id. -/
def createCluster (episode : EpisodeRecord) (features : EpisodeSkillFeatures) (id : String) (now : ℕ) :
    SkillClusterRecord where
  id := id
  userId := episode.userId
  projectId := episode.projectId
  tools := features.tools
  artifacts := features.artifacts
  toolBigrams := features.toolBigrams
  centroid := features.queryVec
  skillMemoryId := none
  metaSkillMd := seedMetaSkillMd
  processedEpisodeIds := []
  memberCount := 1
  updatedAt := now

/-- `refreshClusterFeatures`: the row with the episode. -/
def World.refreshClusterFeatures (w : World) (cluster : SkillClusterRecord) (features : EpisodeSkillFeatures)
    (now : ℕ) : SkillClusterRecord :=
  cluster.refresh features ((w.listSkillClusterMembers cluster.id).any (·.episodeId = features.episodeId)) now

/-- The cluster that an episode comes to: its own, or the one that was decided on. -/
def World.clusterFor (w : World) (episode : EpisodeRecord) (features : EpisodeSkillFeatures) :
    Option SkillClusterRecord :=
  match w.getSkillClusterForEpisode episode.id with
  | some existing => some existing
  | none => (decideClusterAssignment config features
      (w.listSkillClustersByScope episode.userId episode.projectId)).bind fun c => w.getSkillCluster c.id

def memberRow (clusterId : String) (episode : EpisodeRecord) (now : ℕ) : SkillClusterMemberRecord where
  clusterId := clusterId
  episodeId := episode.id
  outcome := classifySkillOutcome config episode.rTask
  rTask := episode.rTask
  assignedAt := now

/-- `assignCluster` after the await: the cluster is refreshed or created, then the member is written. -/
def World.assign (w : World) (episode : EpisodeRecord) (features : EpisodeSkillFeatures) (newId : String)
    (now : ℕ) : World :=
  let (written, clusterId) : World × String := match w.clusterFor config episode features with
    | some cluster => (w.updateSkillCluster (w.refreshClusterFeatures cluster features now), cluster.id)
    | none => ({ w with clusters := w.clusters ++ [createCluster episode features newId now] }, newId)
  { written.upsertSkillClusterMember (memberRow config clusterId episode now) with
    assigned := features :: w.assigned }

/-! ### Evolution -/

def markProcessed (cluster : SkillClusterRecord) (episodeIds : List String) (now : ℕ) : SkillClusterRecord :=
  { cluster with
    processedEpisodeIds := uniqSorted (cluster.processedEpisodeIds ++ episodeIds)
    updatedAt := now }

/-- The last write of `updateMetaSkill`. -/
def World.writeMetaSkill (w : World) (cluster : SkillClusterRecord) (metaSkillMd : String) (now : ℕ) : World :=
  w.updateSkillCluster
    { cluster with
      metaSkillMd := metaSkillMd
      updatedAt := now }

/-- `cluster.metaSkillMd || SEED_META_SKILL_MD` -/
def previousMeta (cluster : SkillClusterRecord) : String :=
  if cluster.metaSkillMd = "" then seedMetaSkillMd else cluster.metaSkillMd

def World.endJob (w : World) (job : String) : World := { w with jobs := w.jobs.filter (·.1 ≠ job) }

/-- The job goes on to another await. -/
def World.await (w : World) (job : String) (state : Job) : World :=
  { w.endJob job with jobs := (w.endJob job).jobs ++ [(job, state)] }

/-- `await updateMetaSkill(...)`: without a model there is nothing to wait for. -/
def World.updateMetaSkill (w : World) (job : String) (cluster : SkillClusterRecord)
    (onError : Option SkillClusterRecord) (rejectReason : Option String) (now : ℕ) : World :=
  if config.usesLlm then w.await job (.updatingMeta cluster onError)
  else
    let metaSkillMd := match rejectReason with
      | some reason => seedMetaSkillMd ++ "\n\nLast reject: " ++ reason
      | none => previousMeta cluster
    (w.endJob job).writeMetaSkill cluster metaSkillMd now

/-- The members with a score, as they are now. -/
def World.scoredMembers (w : World) (clusterId : String) : List Top6Member :=
  (w.listSkillClusterMembers clusterId).filterMap fun m => (w.getEpisode m.episodeId).bind fun e =>
    e.rTask.map fun _ => ⟨e.id, classifySkillOutcome config e.rTask, e.updatedAt⟩

/-- `evolveCluster` up to its first await; `usable` says whether the Skill of the cluster is there and neither
archived nor deleted. -/
def World.beginEvolve (w : World) (job clusterId : String) (usable : Bool) (now : ℕ) : World :=
  match w.getSkillCluster clusterId with
  | none => w
  | some cluster =>
    let top6 := selectTop6Members config (w.scoredMembers config cluster.id)
    let existingSkill := if usable then cluster.skillMemoryId else none
    if top6.isEmpty then w
    else match decideEvolveBranch existingSkill.isSome (top6.map (·.outcome)) with
      | .skipUnknownOnly => w.updateMetaSkill config job cluster none (some "unknown_only_no_skill") now
      | .skipNoSuccessAnchor =>
        let next := markProcessed cluster (top6.map (·.episodeId)) now
        (w.updateSkillCluster next).updateMetaSkill config job next none (some "failure_only_no_skill") now
      | _ =>
        if config.usesLlm then w.await job (.generating ⟨cluster, existingSkill, top6.map (·.episodeId), now⟩)
        else w.updateMetaSkill config job cluster none (some "llm_disabled") now

/-- What comes of `generateProcedure`. -/
inductive Generated
  | failed (reason : String)
  /-- `verifyDirectSkillDraft` has refused the draft. -/
  | rejected (reason : String)
  /-- `upsertSkill` has written a Skill; the row of an existing one keeps its id. -/
  | accepted (memoryId : String)

/-- The Skill that was written. -/
def Evolving.skillMemoryId (e : Evolving) (memoryId : String) : String := e.existingSkill.getD memoryId

/-- `evolveCluster` after `generateProcedure`. -/
def World.finishGenerate (w : World) (job : String) (e : Evolving) : Generated → World
  | .failed reason => w.updateMetaSkill config job e.cluster none (some reason) e.now
  | .rejected reason =>
    let next := markProcessed e.cluster e.top6 e.now
    (w.updateSkillCluster next).updateMetaSkill config job next (some e.cluster) (some reason) e.now
  | .accepted memoryId =>
    let next := markProcessed e.cluster e.top6 e.now
    let withSkill := { next with skillMemoryId := some (e.skillMemoryId memoryId) }
    ((w.updateSkillCluster next).updateSkillCluster withSkill).updateMetaSkill config job withSkill
      (some e.cluster) none e.now

/-! ### Steps -/

inductive Event
  | episode (e : EpisodeRecord)
  | beginAssign (job episodeId : String) (turns : List Turn)
  /-- The vector has come, or has failed. -/
  | finishAssign (job : String) (queryVec : Option Lib.Mean.Vec) (newId : String) (now : ℕ)
  | beginEvolve (job clusterId : String) (usable : Bool) (now : ℕ)
  | finishGenerate (job : String) (generated : Generated)
  /-- The model has answered with a text, or has failed. -/
  | finishMeta (job : String) (content : Option String) (now : ℕ)
  | failMeta (job : String) (reason : String) (now : ℕ)
  | crash (job : String)

def World.job (w : World) (id : String) : Option Job := (w.jobs.find? (·.1 = id)).map (·.2)

def step (w : World) : Event → World
  | .episode e => { w with episodes := w.episodes.filter (·.id ≠ e.id) ++ [e] }
  | .beginAssign job episodeId turns =>
    match w.job job, w.getEpisode episodeId with
    | none, some episode =>
      if episode.isTest || episode.rTask.isNone then w else w.await job (.assigning episode turns)
    | _, _ => w
  | .finishAssign job queryVec newId now =>
    match w.job job with
    | some (.assigning episode turns) =>
      if newId ∈ w.clusters.map (·.id) then w
      else
        let features := extractEpisodeSkillFeatures episode.id episode.userId episode.projectId turns queryVec
        (w.endJob job).assign config episode features newId now
    | _ => w
  | .beginEvolve job clusterId usable now =>
    match w.job job with
    | none => w.beginEvolve config job clusterId usable now
    | _ => w
  | .finishGenerate job generated =>
    match w.job job with
    | some (.generating e) => w.finishGenerate config job e generated
    | _ => w
  | .finishMeta job content now =>
    match w.job job with
    | some (.updatingMeta cluster _) =>
      let metaSkillMd := match content.map Lib.Text.trim with
        | some text => if text = "" then previousMeta cluster else text
        | none => previousMeta cluster
      (w.endJob job).writeMetaSkill cluster metaSkillMd now
    | _ => w
  | .failMeta job reason now =>
    match w.job job with
    | some (.updatingMeta _ (some cluster)) => w.updateMetaSkill config job cluster none (some reason) now
    | some (.updatingMeta _ none) => w.endJob job
    | _ => w
  | .crash job => w.endJob job

end Memmy.SkillClusters
