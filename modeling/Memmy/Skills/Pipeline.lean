import Mathlib.Algebra.Order.Field.Rat
import Mathlib.Data.Prod.Lex
import Mathlib.Data.String.Basic
import Memmy.Lib.Newest
import Memmy.Lib.Run
import Memmy.Skills.Steps

/-! # Skills: what writes them

A Skill has a status of its own beside the status of its row, and is read through
`skillMetaFromMemory`, which knows three of the four statuses that are written.

* `invalidatePolicySource`: the Skills of a policy that no longer holds lose it, and what it alone
  supported; they are suspended if too little is left.
* `consolidateCompatibleSkillsForPolicy`: compatible Skills become one.
* `beginCrystallization`, `finishCrystallization`: a Skill is written from a policy, before and after the
  answer of the model.
* `applySkillRewardDriftForPolicy`, `updateSkillTrialStats`: a Skill follows the gain of its policies and
  its trials.
* `step`: one of these, with what was invalidated and suspended so far. -/

namespace Memmy.Skills

open Lib.Newest Lib.Sort

/-! ### Policies -/

inductive PolicyStatus
  | candidate
  | active
  | verificationRequired
  | quarantined
  | superseded
  | archived
deriving DecidableEq

structure Policy where
  id : String
  userId : String
  status : PolicyStatus
  /-- `policyRequiresRevalidation`: it is dynamic, and its date has passed. -/
  requiresRevalidation : Bool
  gain : ℚ
deriving DecidableEq

/-- `policyIsEligibleForDownstream` -/
def Policy.isEligible (policy : Policy) : Bool := policy.status = .active && !policy.requiresRevalidation

/-! ### Skills -/

inductive LifecycleStatus
  | candidate
  | active
  | archived
deriving DecidableEq

/-- The status that is stored in a Skill. -/
inductive StoredStatus
  | lifecycle (status : LifecycleStatus)
  | suspended
deriving DecidableEq

inductive MemoryStatus
  | activated
  | resolving
  | archived
  | deleted
deriving DecidableEq

structure Skill where
  id : String
  memoryKey : Option String
  userId : String
  createdAt : ℕ
  updatedAt : ℕ
  memoryStatus : MemoryStatus
  /-- `isReadOnlySkillMemory`: marked as such, or not made by the service. -/
  isReadOnly : Bool
  stored : StoredStatus
  eta : ℚ
  trialsAttempted : ℕ
  trialsPassed : ℕ
  repairOrigin : Bool
  sourcePolicyIds : List String
  steps : List Step
deriving DecidableEq

/-- `statusField(skill, "status", ["candidate", "active", "archived"])` -/
def StoredStatus.field : StoredStatus → Option LifecycleStatus
  | .lifecycle status => some status
  | .suspended => none

/-- The status that `skillMetaFromMemory` reads. -/
def Skill.status (s : Skill) : LifecycleStatus := s.stored.field.getD .candidate

def Skill.isDeleted (s : Skill) : Bool := s.memoryStatus = .deleted

/-- A Skill that can be retrieved. -/
def Skill.isLive (s : Skill) : Bool := s.memoryStatus = .activated || s.memoryStatus = .resolving

def memoryStatusForSkillStatus : LifecycleStatus → MemoryStatus
  | .archived => .archived
  | .candidate => .resolving
  | .active => .activated

/-! ### The rows -/

/-- `memories.update` -/
def update (s : Skill) (skills : List Skill) : List Skill := skills.map fun s' => if s'.id = s.id then s else s'

def updateAll (f : Skill → Skill) (written skills : List Skill) : List Skill :=
  written.foldl (fun skills s => update (f s) skills) skills

/-- The insertion of a row fails if its id is taken. -/
def insert (s : Skill) (skills : List Skill) : List Skill :=
  if skills.any (·.id = s.id) then skills else skills ++ [s]

/-- `ORDER BY created_at DESC, updated_at DESC, id DESC` -/
def listOrder (s : Skill) : Lex (ℕ × Lex (ℕ × String)) := toLex (s.createdAt, toLex (s.updatedAt, s.id))

/-- `memories.list({ memoryLayer: "Skill" }, 1000)` -/
def listSkills (skills : List Skill) : List Skill := newest listOrder 1000 (skills.filter fun s => !s.isDeleted)

/-- `memories.list({ memoryLayer: "Skill", status: ["activated", "resolving"] }, 1000)` -/
def listLiveSkills (skills : List Skill) : List Skill := newest listOrder 1000 (skills.filter (·.isLive))

/-- `memories.get` -/
def getSkill (id : String) (skills : List Skill) : Option Skill :=
  skills.find? fun s => s.id = id && !s.isDeleted

/-- `memories.getByKey` -/
def getByKey (key : String) (skills : List Skill) : Option Skill :=
  (newest (·.updatedAt) 1 (skills.filter fun s => s.memoryKey = some key && !s.isDeleted)).head?

/-! ### Invalidation -/

def Skill.activeIds (policies : String → Option Policy) (s : Skill) : List String :=
  s.sourcePolicyIds.filter fun id => (policies id).any (·.isEligible)

/-- What is left of a Skill when only some of its policies are active. -/
def Skill.invalidated (policies : String → Option Policy) (now : ℕ) (s : Skill) : Skill :=
  let activeIds := s.activeIds policies
  let kept := keptStep activeIds s.sourcePolicyIds
  let steps := s.steps.filterMap kept
  let removedRequiredStep := s.steps.any fun st => st.isRequired && (kept st).isNone
  let shouldArchive := activeIds = [] || removedRequiredStep || (s.steps ≠ [] && steps = [])
  { s with
    stored := if shouldArchive then .suspended else .lifecycle s.status
    memoryStatus := if shouldArchive then .archived else memoryStatusForSkillStatus s.status
    sourcePolicyIds := activeIds
    steps := steps
    updatedAt := now }

/-- The Skills that an invalidation writes. -/
def affectedSkills (policyId : String) (skills : List Skill) : List Skill :=
  (listLiveSkills skills).filter fun s => policyId ∈ s.sourcePolicyIds && !s.isReadOnly

def invalidatePolicySource (policies : String → Option Policy) (policyId : String) (now : ℕ)
    (skills : List Skill) : List Skill :=
  updateAll (Skill.invalidated policies now) (affectedSkills policyId skills) skills

/-! ### Consolidation -/

/-- Which Skills are compatible: with the policy, and with one another. -/
structure Compatibility where
  /-- `skillPolicyCompatibility(skill, policy) >= 0.8` -/
  skillPolicy : Skill → Bool
  forMerge : Skill → Skill → Bool

def mutableSkillsForPolicy (policy : Policy) (skills : List Skill) : List Skill :=
  (listSkills skills).filter fun s => s.userId = policy.userId && s.status ≠ .archived && !s.isReadOnly

def compareSkillMergeTargets : Skill → Skill → Ordering :=
  compareLex (descending fun s => if s.status = .active then 1 else 0)
    (compareLex (descending (·.trialsPassed)) (compareLex (ascending (·.createdAt)) (ascending (·.id))))

/-- The Skills that are merged, the one that is kept first. -/
def mergeCandidates (c : Compatibility) (target : Option Skill) (mutableSkills : List Skill) : List Skill :=
  let compatible := sortBy compareSkillMergeTargets (mutableSkills.filter c.skillPolicy)
  match target.or compatible.head? with
  | none => []
  | some seed => sortBy compareSkillMergeTargets
      (seed :: mutableSkills.filter fun s => s.id ≠ seed.id && c.skillPolicy s && c.forMerge seed s)

variable (t : TextRules)

/-- The Skill that the others are merged into. -/
def Skill.mergedFrom (candidates : List Skill) (now : ℕ) (canonical : Skill) : Skill :=
  let status : LifecycleStatus := if candidates.any (·.status = .active) then .active else .candidate
  { canonical with
    stored := .lifecycle status
    memoryStatus := memoryStatusForSkillStatus status
    sourcePolicyIds := uniq (candidates.flatMap (·.sourcePolicyIds))
    steps := mergeCompatibleSkillProcedures t (candidates.map fun s => (s.sourcePolicyIds, s.steps))
    updatedAt := now }

/-- A Skill that was merged into another one. -/
def Skill.alias (now : ℕ) (s : Skill) : Skill :=
  { s with
    stored := .lifecycle .archived
    memoryStatus := .archived
    updatedAt := now }

/-- The Skill that is asked for, if it can be written. -/
def findTarget (policy : Policy) (targetSkillId : Option String) (skills : List Skill) : Option Skill :=
  targetSkillId.bind fun id => (mutableSkillsForPolicy policy skills).find? (·.id = id)

/-- The rows after the consolidation, and the Skill that it is about. -/
def consolidateCompatibleSkillsForPolicy (c : Compatibility) (policy : Policy) (now : ℕ)
    (targetSkillId : Option String) (allowTargetMerge : Bool) (skills : List Skill) :
    List Skill × Option Skill :=
  let mutableSkills := mutableSkillsForPolicy policy skills
  let target := findTarget policy targetSkillId skills
  if target.isSome ∧ !allowTargetMerge then (skills, target)
  else match mergeCandidates c target mutableSkills with
    | [] => (skills, none)
    | [canonical] => (skills, some canonical)
    | canonical :: aliases =>
      let saved := canonical.mergedFrom t (canonical :: aliases) now
      (updateAll (Skill.alias now) aliases (update saved skills), some saved)

/-! ### Crystallization -/

/-- A crystallization that waits for the answer of the model, with what it has read. -/
structure Pending where
  policy : Policy
  userId : String
  existing : Option Skill

/-- The answer of the model, and what else a new Skill takes from outside. -/
structure Draft where
  /-- The titles and the texts of the steps. -/
  steps : List (String × String)
  /-- The steps are among the sections that a rebuild may change. -/
  stepsAllowed : Bool
  eta : ℚ
  id : String
  memoryKey : String

def Draft.procedure (d : Draft) : List Step := d.steps.map fun s =>
  { id := none
    title := s.1
    body := s.2
    required := none
    core := none
    supportingPolicyIds := [] }

/-- The steps of the draft, over those of the Skill if there is one. -/
def Draft.rebuilt (d : Draft) : Option Skill → List Step
  | none => d.procedure
  | some s => if d.stepsAllowed then mergeSkillSteps t s.steps d.procedure else s.steps

/-- The Skill that is written. -/
def Pending.crystallized (x : Pending) (d : Draft) (now : ℕ) : Skill where
  id := (x.existing.map (·.id)).getD d.id
  memoryKey := some ((x.existing.bind (·.memoryKey)).getD d.memoryKey)
  userId := x.userId
  createdAt := now
  updatedAt := now
  memoryStatus := .resolving
  isReadOnly := false
  stored := .lifecycle .candidate
  eta := d.eta
  trialsAttempted := (x.existing.map (·.trialsAttempted)).getD 0
  trialsPassed := (x.existing.map (·.trialsPassed)).getD 0
  repairOrigin := false
  sourcePolicyIds := uniq (x.policy.id :: (x.existing.map (·.sourcePolicyIds)).getD [])
  steps := attachSkillStepPolicySources t ((x.existing.map (·.steps)).getD []) x.policy.id
    (d.rebuilt t x.existing)

/-- `isArchivedEvolutionMemory` -/
def Skill.isArchived (s : Skill) : Bool := s.memoryStatus = .archived || s.status = .archived

/-- The row of `previous` with what is written. -/
def Skill.rewrittenBy (previous s : Skill) : Skill :=
  { s with
    id := previous.id
    memoryKey := previous.memoryKey
    userId := previous.userId
    createdAt := previous.createdAt }

def upsertEvolutionMemory (s : Skill) (skills : List Skill) : List Skill :=
  match s.memoryKey.bind fun key => getByKey key skills with
  | none => insert s skills
  | some previous => if previous.isArchived then insert s skills else update (previous.rewrittenBy s) skills

/-! ### Drift and trials -/

def clamp01 (x : ℚ) : ℚ := max 0 (min 1 x)

structure SkillConfig where
  candidateTrials : ℕ
  minEtaForRetrieval : ℚ
  repairCandidateMinEta : ℚ
  archiveEta : ℚ

/-- `updateSkillStats` -/
def Skill.withStats (attempted passed : ℕ) (eta : ℚ) (status : LifecycleStatus) (now : ℕ) (s : Skill) :
    Skill :=
  { s with
    trialsAttempted := attempted
    trialsPassed := passed
    eta := eta
    stored := .lifecycle status
    memoryStatus := memoryStatusForSkillStatus status
    updatedAt := now }

def skillEtaAfterRewardDrift (currentEta magnitude : ℚ) : ℚ :=
  clamp01 (7 / 10 * clamp01 currentEta + 3 / 10 * clamp01 magnitude)

def skillStatusAfterRewardDrift (currentStatus : LifecycleStatus) (eta archiveEta : ℚ) : LifecycleStatus :=
  if currentStatus ≠ .archived ∧ eta < archiveEta then .archived else currentStatus

/-- A Skill after the drift, itself if nothing has changed. -/
def Skill.drifted (config : SkillConfig) (gain : ℚ) (now : ℕ) (s : Skill) : Skill :=
  let eta := skillEtaAfterRewardDrift s.eta gain
  let status := skillStatusAfterRewardDrift s.status eta config.archiveEta
  if eta = s.eta ∧ status = s.status then s
  else s.withStats s.trialsAttempted s.trialsPassed eta status now

/-- The Skills that a drift reads. -/
def skillsToDrift (policyId : String) (skills : List Skill) : List Skill :=
  (listSkills skills).filter fun s => policyId ∈ s.sourcePolicyIds

def applySkillRewardDriftForPolicy (config : SkillConfig) (policyId : String) (gain : ℚ) (now : ℕ)
    (skills : List Skill) : List Skill :=
  updateAll (Skill.drifted config gain now) (skillsToDrift policyId skills) skills

def skillEtaAfterTrial (currentEta : ℚ) (previousAttempts previousPasses nextAttempts nextPasses : ℕ) : ℚ :=
  let previousPasses := min previousPasses previousAttempts
  let nextAttempts := max previousAttempts nextAttempts
  let nextPasses := min nextPasses nextAttempts
  let priorEta := clamp01 (currentEta * (1 + previousAttempts) - previousPasses)
  clamp01 ((priorEta + nextPasses) / (1 + nextAttempts))

def skillStatusAfterTrial (config : SkillConfig) (currentStatus : LifecycleStatus) (eta : ℚ)
    (trialsAttempted : ℕ) (repairOrigin : Bool) : LifecycleStatus :=
  let promoteFloor := if repairOrigin then config.repairCandidateMinEta else config.minEtaForRetrieval
  let status : LifecycleStatus :=
    if currentStatus = .candidate ∧ max 1 config.candidateTrials ≤ trialsAttempted then
      if promoteFloor ≤ eta then .active else .archived
    else currentStatus
  if status = .active ∧ eta < config.archiveEta then .archived else status

/-- A Skill with so many resolved trials. -/
def Skill.tried (config : SkillConfig) (attempted passed now : ℕ) (s : Skill) : Skill :=
  let eta := if 0 < attempted then
    skillEtaAfterTrial s.eta s.trialsAttempted s.trialsPassed attempted passed else s.eta
  s.withStats attempted passed eta
    (skillStatusAfterTrial config s.status eta attempted s.repairOrigin) now

def updateSkillTrialStats (config : SkillConfig) (skillId : String) (attempted passed now : ℕ)
    (skills : List Skill) : List Skill :=
  match getSkill skillId skills with
  | none => skills
  | some s => update (s.tried config attempted passed now) skills

/-! ### Steps -/

structure World where
  skills : List Skill := []
  policies : String → Option Policy := fun _ => none
  pending : List Pending := []
  /-- The policies that were invalidated, and have not become eligible since. -/
  invalidated : List String := []
  /-- The Skills that an invalidation has suspended. -/
  suspended : List String := []

inductive Event
  | setPolicy (id : String) (policy : Option Policy)
  | invalidate (policyId : String)
  /-- A crystallization runs until it waits for the model, or is left out for its cooldown; the policy is
  as the job has read it. -/
  | beginCrystallization (policy : Policy) (userId : String) (skillId : Option String) (isFanout : Bool)
      (c : Compatibility) (inCooldown : Bool)
  /-- The model answers; without a draft nothing is written. -/
  | finishCrystallization (i : ℕ) (draft : Option Draft)
  | drift (policyId : String) (gain : ℚ)
  | trial (skillId : String) (attempted passed : ℕ)

/-- The Skills of the policy, in the order of the list. -/
def directSkills (policy : Policy) (skills : List Skill) : List Skill :=
  (mutableSkillsForPolicy policy skills).filter fun s => policy.id ∈ s.sourcePolicyIds

/-- Several Skills are crystallized one by one, by jobs of their own. -/
def fansOut (policy : Policy) (skillId : Option String) (skills : List Skill) : Bool :=
  skillId.isNone && 1 < (directSkills policy skills).length

/-- The Skill that a crystallization is about. -/
def targetSkillId (policy : Policy) (skillId : Option String) (skills : List Skill) : Option String :=
  skillId.or ((directSkills policy skills).head?.map (·.id))

variable (config : SkillConfig)

def step (w : World) (e : Event × ℕ) : World :=
  match e.1 with
  | .setPolicy id policy =>
    { w with
      policies := Function.update w.policies id policy
      invalidated := if policy.any (·.isEligible) then w.invalidated.filter (· ≠ id) else w.invalidated }
  | .invalidate policyId =>
    { w with
      skills := invalidatePolicySource w.policies policyId e.2 w.skills
      invalidated := policyId :: w.invalidated
      suspended := w.suspended ++ ((affectedSkills policyId w.skills).filter fun s =>
        (s.invalidated w.policies e.2).stored = .suspended).map (·.id) }
  | .beginCrystallization policy userId skillId isFanout c inCooldown =>
    if !policy.isEligible || fansOut policy skillId w.skills then w
    else
      let found := consolidateCompatibleSkillsForPolicy t c policy e.2
        (targetSkillId policy skillId w.skills) (!isFanout) w.skills
      { w with
        skills := found.1
        pending := if inCooldown then w.pending else w.pending ++ [⟨policy, userId, found.2⟩] }
  | .finishCrystallization i draft =>
    match w.pending[i]?, draft with
    | some x, some d =>
      { w with
        skills := upsertEvolutionMemory (x.crystallized t d e.2) w.skills
        pending := w.pending.eraseIdx i }
    | _, _ => { w with pending := w.pending.eraseIdx i }
  | .drift policyId gain =>
    { w with skills := applySkillRewardDriftForPolicy config policyId gain e.2 w.skills }
  | .trial skillId attempted passed =>
    { w with skills := updateSkillTrialStats config skillId attempted passed e.2 w.skills }

end Memmy.Skills
