import Memmy.Lib.Mean
import Memmy.Lib.Sort
import Memmy.Lib.Text

/-! # Skill clusters: episodes and where they belong

An episode is described by the tools it called, the artifacts it mentions and the vector of its first query.
It joins the cluster that it is closest to, or starts one.

* `uniqSorted`, `mergeCentroid`: how a cluster takes in an episode.
* `decideClusterAssignment`: the cluster that an episode joins; the score is a parameter, since it is an angle.
* `selectTop6Members`, `decideEvolveBranch`: which members a cluster learns from, and what it does. -/

namespace Memmy.SkillClusters

open Lib.Mean Lib.Sort Lib.Text List

/-! ### Features -/

def uniqSorted (values : List String) : List String :=
  sortBy (ascending id) ((values.map trim).filter (· ≠ "")).eraseDups

/-- A name that `uniqSorted` leaves as it is. -/
def Trimmed (x : String) : Prop := trim x = x ∧ x ≠ ""

variable {values : List String} {x : String}

theorem mem_uniqSorted : x ∈ uniqSorted values ↔ (∃ y ∈ values, trim y = x) ∧ x ≠ "" := by
  unfold uniqSorted
  simp

theorem trimmed_of_mem (h : x ∈ uniqSorted values) : Trimmed x := by
  obtain ⟨⟨y, -, rfl⟩, hne⟩ := mem_uniqSorted.mp h
  exact ⟨trim_trim y, hne⟩

theorem mem_uniqSorted_of_mem (h : x ∈ values) (hx : Trimmed x) : x ∈ uniqSorted values :=
  mem_uniqSorted.mpr ⟨⟨x, h, hx.1⟩, hx.2⟩

/-- `ARTIFACT_EXTENSIONS` -/
def artifactExtensions : List String :=
  ["xlsx", "xls", "xlsm", "csv", "tsv", "pptx", "ppt", "pdf", "docx", "doc", "json", "parquet", "txt", "md",
    "html", "xml", "yaml", "yml"]

theorem trimmed_of_extension : ∀ x ∈ artifactExtensions, Trimmed x := by
  unfold Trimmed
  decide +kernel

/-- A raw turn, by what is found in its texts. -/
structure Turn where
  toolNames : List String
  artifacts : List String
  artifacts_mem : ∀ x ∈ artifacts, x ∈ artifactExtensions

/-- A vector, if there is one with coordinates. -/
def present (v : Option Vec) : Option Vec := v.filter (· ≠ [])

structure EpisodeSkillFeatures where
  episodeId : String
  userId : String
  projectId : Option String
  tools : List String
  artifacts : List String
  toolBigrams : List String
  queryVec : Option Vec

def toolBigrams (toolsInOrder : List String) : List String :=
  let pairs := (toolsInOrder.zip toolsInOrder.tail).filter fun p => p.1 ≠ "" && p.2 ≠ "" && p.1 ≠ p.2
  sortBy (ascending id) (pairs.map fun p => p.1 ++ ">" ++ p.2).eraseDups

def extractEpisodeSkillFeatures (episodeId userId : String) (projectId : Option String) (turns : List Turn)
    (queryVec : Option Vec) : EpisodeSkillFeatures :=
  let toolsInOrder := turns.flatMap (·.toolNames)
  { episodeId := episodeId
    userId := userId
    projectId := projectId
    tools := uniqSorted toolsInOrder
    artifacts := sortBy (ascending id) (turns.flatMap (·.artifacts)).eraseDups
    toolBigrams := toolBigrams toolsInOrder
    queryVec := queryVec }

/-- The tools and artifacts of an episode stay as they are in a cluster. -/
structure EpisodeSkillFeatures.Clean (f : EpisodeSkillFeatures) : Prop where
  tools : ∀ x ∈ f.tools, Trimmed x
  artifacts : ∀ x ∈ f.artifacts, Trimmed x

theorem clean_extracted (episodeId userId : String) (projectId : Option String) (turns : List Turn)
    (queryVec : Option Vec) : (extractEpisodeSkillFeatures episodeId userId projectId turns queryVec).Clean where
  tools _ h := trimmed_of_mem h
  artifacts x h := by
    obtain ⟨turn, -, hx⟩ := mem_flatMap.mp (mem_eraseDups.mp ((mem_sortBy _).mp h))
    exact trimmed_of_extension x (turn.artifacts_mem x hx)

/-! ### Clusters -/

structure SkillClusterRecord where
  id : String
  userId : String
  projectId : Option String
  tools : List String
  artifacts : List String
  toolBigrams : List String
  centroid : Option Vec
  skillMemoryId : Option String
  metaSkillMd : String
  processedEpisodeIds : List String
  memberCount : ℕ
  updatedAt : ℕ
deriving DecidableEq

def mergeCentroid (current incoming : Option Vec) (memberCount : ℕ) : Option Vec :=
  match present incoming with
  | none => current
  | some v => match present current with
    | none => some v
    | some c => if memberCount = 0 ∨ c.length ≠ v.length then some v else some (running c v memberCount)

/-- `uniqSorted` and `mergeCentroid` on the row of a cluster. -/
def SkillClusterRecord.refresh (cluster : SkillClusterRecord) (features : EpisodeSkillFeatures)
    (alreadyMember : Bool) (now : ℕ) : SkillClusterRecord :=
  { cluster with
    tools := uniqSorted (cluster.tools ++ features.tools)
    artifacts := uniqSorted (cluster.artifacts ++ features.artifacts)
    toolBigrams := uniqSorted (cluster.toolBigrams ++ features.toolBigrams)
    centroid := mergeCentroid cluster.centroid features.queryVec cluster.memberCount
    memberCount := if alreadyMember then cluster.memberCount else cluster.memberCount + 1
    updatedAt := now }

/-! ### Decisions -/

inductive Outcome
  | success
  | failure
  | unknown
deriving DecidableEq

/-- The configuration, with the score of an episode in a cluster and the least score that is enough. -/
structure Clustering where
  scoreClusterJoin : EpisodeSkillFeatures → SkillClusterRecord → Option (ℚ × ℚ)
  outcomeSuccess : ℚ
  outcomeFailure : ℚ
  batchSuccessLimit : ℕ
  batchFailureLimit : ℕ
  maxBatchSize : ℕ
  /-- `useLlm`, with a model that is configured. -/
  usesLlm : Bool

variable (config : Clustering)

def classifySkillOutcome (rTask : Option ℚ) : Outcome :=
  match rTask with
  | none => .unknown
  | some r =>
    if config.outcomeSuccess ≤ r then .success else if r ≤ config.outcomeFailure then .failure else .unknown

/-- The loop over the clusters: the best one so far, with its score. -/
def betterCluster (features : EpisodeSkillFeatures) (best : Option (SkillClusterRecord × ℚ))
    (cluster : SkillClusterRecord) : Option (SkillClusterRecord × ℚ) :=
  if cluster.userId ≠ features.userId then best
  else if features.projectId.isSome && cluster.projectId.isSome && features.projectId ≠ cluster.projectId then best
  else match config.scoreClusterJoin features cluster with
    | none => best
    | some (score, tau) =>
      if score < tau then best
      else match best with
        | none => some (cluster, score)
        | some (b, s) => if s < score then some (cluster, score) else some (b, s)

/-- The cluster to join, none to create one. -/
def decideClusterAssignment (features : EpisodeSkillFeatures) (clusters : List SkillClusterRecord) :
    Option SkillClusterRecord :=
  (clusters.foldl (betterCluster config features) none).map (·.1)

structure Top6Member where
  episodeId : String
  outcome : Outcome
  updatedAt : ℕ

/-- `push`: one more member, if it is new and there is room. -/
def pushMember (selected : List Top6Member) (item : Top6Member) : List Top6Member :=
  if item.episodeId ∈ selected.map (·.episodeId) ∨ config.maxBatchSize ≤ selected.length then selected
  else selected ++ [item]

def selectTop6Members (members : List Top6Member) : List Top6Member :=
  let byTime := compareLex (descending fun m : Top6Member => m.updatedAt) (ascending (·.episodeId))
  let of (outcome : Outcome) := sortBy byTime (members.filter (·.outcome = outcome))
  ((of .success).take config.batchSuccessLimit ++ (of .failure).take config.batchFailureLimit ++
    (of .success ++ of .failure ++ of .unknown)).foldl (pushMember config) []

inductive DirectSkillEvolveAction
  | crystallize
  | rebuild
  | skipNoSuccessAnchor
  | skipUnknownOnly
deriving DecidableEq

/-- `decideEvolveBranch`, without the scope of a rebuild. -/
def decideEvolveBranch (hasSkill : Bool) (batch : List Outcome) : DirectSkillEvolveAction :=
  if hasSkill then .rebuild
  else if .success ∈ batch then .crystallize
  else if .failure ∈ batch then .skipNoSuccessAnchor
  else .skipUnknownOnly

end Memmy.SkillClusters
