import Memmy.Lib.KeyMap
import Memmy.Lib.Result
import Memmy.Lib.Run
import Memmy.Storage.EvidenceBatches

/-! # Writes to the world model of a scope

The world model of a user, or of one of its projects, is one memory with four fields.  The targets of the
evidence batches write three of them (`applyTraceTarget`), the scans of a project the fourth (`applyProfile`), and
the memory may be deleted in between (`deleteScopeMemory`).  Every operation is one transaction.

* `upsertField_ok`: a write sets one field, and the other three stay.
* `applyTraceTarget_ok`, `applyProfile_ok`: what these operations have checked, and what they change.
* `settled_step`: a target that has left the queue does not come back.
* `writes_guarded`: along every run, each target leaves the queue once and writes once, over the field that its
  model has seen; a scan that is no longer current writes nothing. -/

namespace Memmy.Storage.WorldModel

open Lib.KeyMap Lib.Result Lib.Run Lib.Text Option List Bool Except
open Memmy.Storage.EvidenceBatches (TargetField l3WorldModelFieldScopeKey)

/-! ### Fields -/

inductive FieldName where
  | generalRulesAndSafetyConstraints
  | projectEnvironmentProfile
  | projectContract
  | domainKnowledge
  deriving DecidableEq, Repr

structure Fields where
  generalRulesAndSafetyConstraints : Option String := none
  projectEnvironmentProfile : Option String := none
  projectContract : Option String := none
  domainKnowledge : Option String := none
  deriving DecidableEq, Repr

namespace Fields

def get (f : Fields) : FieldName → Option String
  | .generalRulesAndSafetyConstraints => f.generalRulesAndSafetyConstraints
  | .projectEnvironmentProfile => f.projectEnvironmentProfile
  | .projectContract => f.projectContract
  | .domainKnowledge => f.domainKnowledge

def set (f : Fields) (name : FieldName) (value : Option String) : Fields :=
  match name with
  | .generalRulesAndSafetyConstraints => { f with generalRulesAndSafetyConstraints := value }
  | .projectEnvironmentProfile => { f with projectEnvironmentProfile := value }
  | .projectContract => { f with projectContract := value }
  | .domainKnowledge => { f with domainKnowledge := value }

@[simp] theorem get_set_self (f : Fields) (name : FieldName) (value : Option String) :
    (f.set name value).get name = value := by
  cases name <;> rfl

theorem get_set_of_ne (f : Fields) {name other : FieldName} (h : other ≠ name) (value : Option String) :
    (f.set name value).get other = f.get other := by
  cases name <;> cases other <;> first | rfl | exact absurd rfl h

@[simp] theorem set_get (f : Fields) (name : FieldName) : f.set name (f.get name) = f := by
  cases name <;> rfl

/-- `renderL3WorldModelFields(fields)` is empty. -/
def blank (f : Fields) : Bool :=
  [f.generalRulesAndSafetyConstraints, f.projectEnvironmentProfile, f.projectContract, f.domainKnowledge].all
    fun v => v.all fun text => trim text = ""

end Fields

def fieldOf : TargetField → FieldName
  | .generalRulesAndSafetyConstraints => .generalRulesAndSafetyConstraints
  | .projectContract => .projectContract
  | .domainKnowledge => .domainKnowledge

/-- `normalizeL3WorldModelFieldValue` -/
def normalizeFieldValue (value : Option String) : Option String := value.filter fun text => trim text ≠ ""

/-- `assertL3WorldModelFieldOwnership` -/
def assertFieldOwnership (projectId : Option String) (field : FieldName) : Except String Unit :=
  if projectId = none ∧ field ≠ .generalRulesAndSafetyConstraints then
    .error "a no-project L3 World Model can only own general rules"
  else if projectId ≠ none ∧ field = .generalRulesAndSafetyConstraints then
    .error "a project L3 World Model cannot own general rules"
  else .ok ()

/-! ### The tables -/

inductive MemoryStatus where
  | activated
  | archived
  | deleted
  deriving DecidableEq, Repr

/-- A world-model memory, version 2. -/
structure Memory where
  id : String
  userId : String
  projectId : Option String
  status : MemoryStatus
  fields : Fields
  /-- `info.project_environment_applied_scan_id`. -/
  appliedScanId : Option String := none
  version : ℕ := 1
  isDeleted : Bool := false

structure Scope where
  scopeKey : String
  userId : String
  projectId : Option String
  memoryId : Option String := none

inductive TargetStatus where
  | queued
  | applied
  | deadLetter
  deriving DecidableEq, Repr

structure Batch where
  id : String
  scopeKey : String
  scopeSeq : ℕ
  userId : String
  projectId : Option String
  terminalOutcome : Option String := none

structure Target where
  batchId : String
  targetField : TargetField
  fieldScopeKey : String
  scopeSeq : ℕ
  status : TargetStatus
  noChange : Bool := false

/-- The primary key of the targets. -/
def Target.key (t : Target) : String × TargetField := (t.batchId, t.targetField)

structure Environment where
  userId : String
  projectId : String
  projectKind : String := "unknown"
  status : String := "uninitialized"
  currentScanId : Option String := none
  appliedScanId : Option String := none
  fingerprint : Option String := none

structure Db where
  scopes : List Scope := []
  memories : List Memory := []
  batches : List Batch := []
  targets : List Target := []
  environments : List Environment := []

/-! ### Reading -/

def getScope (db : Db) (userId : String) (projectId : Option String) : Option Scope :=
  db.scopes.find? fun s => s.userId = userId && s.projectId = projectId

/-- `memories.get`: a deleted memory is not found. -/
def getLive (db : Db) (id : String) : Option Memory := db.memories.find? fun m => m.id = id && !m.isDeleted

/-- `validateL3WorldModelMemory`, for a memory with the fields of version 2. -/
def validateMemory (m : Memory) (userId : String) (projectId : Option String) : Except String Unit :=
  if m.userId ≠ userId ∨ m.projectId ≠ projectId then .error s!"invalid L3 World Model owner: {m.id}"
  else if projectId ≠ none ∧ m.fields.generalRulesAndSafetyConstraints ≠ none then
    .error s!"project L3 World Model contains general rules: {m.id}"
  else if projectId = none ∧ (m.fields.projectEnvironmentProfile ≠ none ∨ m.fields.projectContract ≠ none ∨
      m.fields.domainKnowledge ≠ none) then
    .error s!"general L3 World Model contains project fields: {m.id}"
  else .ok ()

/-- The memory a scope refers to. -/
def scopeMemory (db : Db) (scope : Scope) : Except String (Option Memory) :=
  match scope.memoryId with
  | none => .ok none
  | some id =>
    match getLive db id with
    | none => .error s!"corrupt L3 World Model scope memory: {id}"
    | some m =>
      match validateMemory m scope.userId scope.projectId with
      | .error e => .error e
      | .ok () => .ok (some m)

def getMemory (db : Db) (userId : String) (projectId : Option String) : Except String (Option Memory) :=
  match getScope db userId projectId with
  | none => .ok none
  | some scope => scopeMemory db scope

/-- The fields of a memory; those of no memory are empty. -/
def storedFields (m : Option Memory) : Fields := (m.map fun m => m.fields).getD {}

/-- `fields` -/
def fieldsOf (db : Db) (userId : String) (projectId : Option String) : Except String Fields :=
  (getMemory db userId projectId).map storedFields

def getBatch (db : Db) (batchId : String) : Option Batch := db.batches.find? fun b => b.id = batchId

def getTarget (db : Db) (key : String × TargetField) : Option Target := get? Target.key db.targets key

def getEnvironment (db : Db) (userId projectId : String) : Option Environment :=
  db.environments.find? fun e => e.userId = userId && e.projectId = projectId

/-! ### Writing -/

section Writes
variable (hash : String → String) (scopeKeyOf : String → Option String → String)

def ensureScope (db : Db) (userId : String) (projectId : Option String) : Except String (Db × Scope) :=
  let scopeKey := scopeKeyOf userId projectId
  let known := db.scopes.any fun s => s.scopeKey = scopeKey
  let new : Scope :=
    { scopeKey := scopeKey
      userId := userId
      projectId := projectId }
  let db := if known then db else { db with scopes := db.scopes ++ [new] }
  match getScope db userId projectId with
  | some scope =>
    if scope.scopeKey = scopeKey then .ok (db, scope) else .error "corrupt L3 World Model scope ownership"
  | none => .error "corrupt L3 World Model scope ownership"

structure FieldInput where
  userId : String
  projectId : Option String
  targetField : FieldName
  value : Option String
  /-- `projectEnvironmentAppliedScanId`; `none` keeps the one of the memory. -/
  appliedScanId : Option String := none
  newMemoryId : String

/-- `memories.insert` or `memories.update`. -/
def saveMemory (existing : Option Memory) (m : Memory) (db : Db) : Except String Db :=
  match existing with
  | none =>
    if db.memories.any fun other => other.id = m.id then .error "UNIQUE constraint failed: memories.id"
    else .ok { db with memories := db.memories ++ [m] }
  | some _ =>
    .ok { db with
      memories := db.memories.map fun other =>
        if other.id = m.id then { m with version := m.version + 1 } else other }

/-- The memory that the fields are saved as. -/
def memoryOf (input : FieldInput) (existing : Option Memory) (fields : Fields) : Memory where
  id := (existing.map fun m => m.id).getD input.newMemoryId
  userId := input.userId
  projectId := input.projectId
  status := if fields.blank then .archived else .activated
  fields := fields
  appliedScanId := (input.appliedScanId.or (existing.bind fun m => m.appliedScanId)).filter
    fun id => input.projectId.isSome && id ≠ ""
  version := (existing.map fun m => m.version).getD 1

/-- The scope refers to the memory. -/
def bindMemory (scopeKey memoryId : String) (db : Db) : Db :=
  { db with
    scopes := db.scopes.map fun s => if s.scopeKey = scopeKey then { s with memoryId := some memoryId } else s }

/-- `upsertFieldInTransaction` -/
def upsertField (input : FieldInput) (db : Db) : Except String Db := do
  assertFieldOwnership input.projectId input.targetField
  let (db, scope) ← ensureScope scopeKeyOf db input.userId input.projectId
  let existing ← scopeMemory db scope
  let fields := (storedFields existing).set input.targetField (normalizeFieldValue input.value)
  if existing.isNone ∧ fields.blank then pure db
  else do
    let memory := memoryOf input existing fields
    let db ← saveMemory existing memory db
    pure (bindMemory scope.scopeKey memory.id db)

inductive Operation where
  | noop
  | create
  | update
  deriving DecidableEq, Repr

structure TargetInput where
  batchId : String
  targetField : TargetField
  operation : Operation
  value : String
  expectedFieldHash : String
  expectedProfileHash : Option String
  newMemoryId : String

def TargetInput.key (input : TargetInput) : String × TargetField := (input.batchId, input.targetField)

/-- `updateL3WorldModelBatchTerminalOutcome` -/
def updateTerminalOutcome (batchId : String) (db : Db) : Db :=
  let rows := db.targets.filter fun t => t.batchId = batchId
  if rows.isEmpty ∨ rows.any (fun t => t.status = .queued) then db
  else
    let applied := (rows.filter fun t => t.status = .applied).length
    let outcome :=
      if applied = rows.length then "applied" else if applied = 0 then "dead_letter" else "partial_dead_letter"
    { db with
      batches := db.batches.map fun b =>
        if b.id = batchId then { b with terminalOutcome := some outcome } else b }

def leaveQueue (key : String × TargetField) (status : TargetStatus) (noChange : Bool) (db : Db) : Db :=
  { db with
    targets := db.targets.map fun t =>
      if t.key = key ∧ t.status = .queued then
        { t with
          status := status
          noChange := noChange }
      else t }

/-- The hash of a field's text. -/
def hashOf (field : Option String) : String := hash (field.getD "")

/-- The fields are still those the model has seen. -/
def checkBase (input : TargetInput) (fields : Fields) : Except String Unit :=
  if hashOf hash (fields.get (fieldOf input.targetField)) ≠ input.expectedFieldHash then .error "stale_l3_base"
  else if input.targetField = .generalRulesAndSafetyConstraints then .ok ()
  else
    match input.expectedProfileHash.filter (· ≠ "") with
    | none => .error "project target requires expectedProfileHash"
    | some expected =>
      if hashOf hash fields.projectEnvironmentProfile ≠ expected then .error "stale_l3_base" else .ok ()

/-- The value that the model's output writes; `none` for no write. -/
def targetWrite (input : TargetInput) (current : Option String) : Except String (Option (Option String)) :=
  match input.operation with
  | .noop => if input.value ≠ "" then .error "noop L3 World Model output must be empty" else .ok none
  | .create =>
    if current ≠ none ∨ trim input.value = "" then
      .error "create L3 World Model output requires an empty base and non-empty value"
    else .ok (some (some input.value))
  | .update =>
    if current = none ∨ some input.value = current then
      .error "update L3 World Model output requires a non-empty changed base"
    else .ok (some (if input.value = "" then none else some input.value))

structure TargetResult where
  alreadyApplied : Bool
  noChange : Bool
  deriving DecidableEq

/-- The write of a value to the field of the target. -/
def targetFieldInput (input : TargetInput) (batch : Batch) (value : Option String) : FieldInput where
  userId := batch.userId
  projectId := batch.projectId
  targetField := fieldOf input.targetField
  value := value
  newMemoryId := input.newMemoryId

/-- The value, if any, is stored. -/
def storeWritten (input : TargetInput) (batch : Batch) (written : Option (Option String)) (db : Db) :
    Except String Db :=
  match written with
  | none => .ok db
  | some value => upsertField scopeKeyOf (targetFieldInput input batch value) db

/-- What `applyTraceTarget` writes, of a target that is in the queue. -/
def writeTarget (input : TargetInput) (batch : Batch) (db : Db) : Except String (TargetResult × Db) := do
  assertFieldOwnership batch.projectId (fieldOf input.targetField)
  let fields ← fieldsOf db batch.userId batch.projectId
  checkBase hash input fields
  let written ← targetWrite input (fields.get (fieldOf input.targetField))
  let db ← storeWritten scopeKeyOf input batch written db
  pure ({ alreadyApplied := false, noChange := written.isNone },
    updateTerminalOutcome input.batchId (leaveQueue input.key .applied written.isNone db))

def applyTraceTarget (input : TargetInput) (db : Db) : Except String (TargetResult × Db) :=
  match getBatch db input.batchId, getTarget db input.key with
  | none, _ => .error s!"L3 World Model batch not found: {input.batchId}"
  | _, none => .error s!"L3 World Model target not found: {input.batchId}:{input.targetField.text}"
  | some batch, some target =>
    match target.status with
    | .applied =>
      (getMemory db batch.userId batch.projectId).map fun _ =>
        ({ alreadyApplied := true, noChange := target.noChange }, db)
    | .deadLetter => .error s!"L3 World Model target is terminal: {input.batchId}:{input.targetField.text}"
    | .queued =>
      let fieldScopeKey :=
        l3WorldModelFieldScopeKey (scopeKeyOf batch.userId batch.projectId) input.targetField
      if target.fieldScopeKey ≠ fieldScopeKey ∨ target.scopeSeq ≠ batch.scopeSeq then
        .error "corrupt L3 World Model target ownership"
      else writeTarget hash scopeKeyOf input batch db

structure ProfileInput where
  userId : String
  projectId : String
  scanId : String
  projectKind : String
  fingerprint : String
  expectedCurrentProfile : Option String
  operation : Operation
  profile : String
  newMemoryId : String

/-- The profile that the model's output leaves. -/
def nextProfile (input : ProfileInput) (current : Option String) : Except String (Option String) :=
  match input.operation with
  | .noop => if input.profile ≠ "" then .error "noop project profile must be empty" else .ok current
  | .create =>
    if current ≠ none ∨ trim input.profile = "" then .error "invalid project profile create"
    else .ok (some input.profile)
  | .update =>
    if current = none ∨ some input.profile = current ∨ (input.profile ≠ "" ∧ trim input.profile = "") then
      .error "invalid project profile update"
    else .ok (if input.profile = "" then none else some input.profile)

def cleanEnvironment (input : ProfileInput) (unset : Bool) (e : Environment) : Environment :=
  { e with
    projectKind := input.projectKind
    status := "clean"
    appliedScanId := if unset then none else some input.scanId
    fingerprint := if unset then none else some input.fingerprint }

/-- The rows of a scan that is current. -/
def ofScan (userId projectId scanId : String) (e : Environment) : Bool :=
  e.userId = userId && e.projectId = projectId && e.currentScanId = some scanId

/-- The profile is still the one that the model has seen, and a project of a new kind gets a new one. -/
def checkProfile (input : ProfileInput) (state : Environment) (current : Option String) : Except String Unit :=
  if current ≠ input.expectedCurrentProfile then .error "project_environment_profile_concurrent_update"
  else if state.projectKind ≠ "unknown" ∧ state.projectKind ≠ input.projectKind ∧ current ≠ none ∧
      input.operation = .noop then
    .error "project_environment_profile_type_change_requires_update"
  else .ok ()

/-- The profile of an empty project stays empty. -/
def emptyNoop (input : ProfileInput) (next : Option String) : Bool := input.operation = .noop && next.isNone

def profileFieldInput (input : ProfileInput) (next : Option String) : FieldInput where
  userId := input.userId
  projectId := some input.projectId
  targetField := .projectEnvironmentProfile
  value := next
  appliedScanId := some input.scanId
  newMemoryId := input.newMemoryId

/-- The profile, if any, is stored. -/
def storeProfile (input : ProfileInput) (next : Option String) (db : Db) : Except String Db := do
  let existing ← getMemory db input.userId (some input.projectId)
  if emptyNoop input next = false ∧ (next.isSome ∨ existing.isSome) then
    upsertField scopeKeyOf (profileFieldInput input next) db
  else pure db

/-- What `applyProfile` writes, for a scan that is current. -/
def writeProfile (input : ProfileInput) (state : Environment) (db : Db) : Except String (Bool × Db) := do
  let fields ← fieldsOf db input.userId (some input.projectId)
  checkProfile input state fields.projectEnvironmentProfile
  let next ← nextProfile input fields.projectEnvironmentProfile
  let db ← storeProfile scopeKeyOf input next db
  pure (false,
    { db with
      environments := db.environments.map fun e =>
        if ofScan input.userId input.projectId input.scanId e then
          cleanEnvironment input (emptyNoop input next) e
        else e })

/-- `applyProfile`, with `stale`. -/
def applyProfile (input : ProfileInput) (db : Db) : Except String (Bool × Db) :=
  match getEnvironment db input.userId input.projectId with
  | none => .ok (true, db)
  | some state =>
    if state.currentScanId ≠ some input.scanId then .ok (true, db) else writeProfile scopeKeyOf input state db

/-! ### Deletion and scans -/

def pendingTargets (scopeKey : String) (withJob : List (String × TargetField)) (db : Db) : List Target :=
  db.targets.filter fun t => t.status = .queued && withJob.contains t.key &&
    (getBatch db t.batchId).any fun b => b.scopeKey = scopeKey

/-- The memory is deleted, and the scope refers to none. -/
def forgetMemory (scopeKey memoryId : String) (db : Db) : Db :=
  { db with
    memories := db.memories.map fun m =>
      if m.id = memoryId then
        { m with
          status := .deleted
          version := m.version + 1
          isDeleted := true }
      else m
    scopes := db.scopes.map fun s => if s.scopeKey = scopeKey then { s with memoryId := none } else s }

/-- The targets count as applied, with nothing to change. -/
def settleTargets (pending : List Target) (db : Db) : Db :=
  pending.foldl (fun db t => updateTerminalOutcome t.batchId db)
    (pending.foldl (fun db t => leaveQueue t.key .applied true db) db)

/-- The environment of a project starts again. -/
def resetEnvironment (scope : Scope) (db : Db) : Db :=
  { db with
    environments := db.environments.map fun e =>
      if e.userId = scope.userId ∧ scope.projectId = some e.projectId ∧ e.projectId ≠ "" then
        { userId := e.userId
          projectId := e.projectId }
      else e }

def deleteScopeMemory (memoryId : String) (withJob : List (String × TargetField)) (db : Db) : Except String Db :=
  match db.scopes.find? fun s => s.memoryId = some memoryId with
  | none => .ok db
  | some scope =>
    match getLive db memoryId with
    | none => .error s!"corrupt L3 World Model scope memory: {memoryId}"
    | some before =>
      match validateMemory before scope.userId scope.projectId with
      | .error e => .error e
      | .ok () =>
        let pending := pendingTargets scope.scopeKey withJob db
        .ok (resetEnvironment scope (settleTargets pending (forgetMemory scope.scopeKey memoryId db)))

/-- The row of `requestScan`. -/
def requestScan (userId projectId scanId : String) (db : Db) : Except String Db := do
  let (db, _) ← ensureScope scopeKeyOf db userId (some projectId)
  let isRow (e : Environment) : Bool := e.userId = userId && e.projectId = projectId
  let new : Environment :=
    { userId := userId
      projectId := projectId
      status := "queued"
      currentScanId := some scanId }
  pure
    { db with
      environments :=
        if db.environments.any isRow then
          db.environments.map fun e =>
            if isRow e then
              { e with
                status := "queued"
                currentScanId := some scanId }
            else e
        else db.environments ++ [new] }

/-- `beginScan`, `markSummarizing`, `markCleanWithoutModel` (with the kind of the project) and `failCurrentScan`. -/
def markScan (userId projectId scanId status : String) (projectKind : Option String) (db : Db) : Db :=
  { db with
    environments := db.environments.map fun e =>
      if ofScan userId projectId scanId e then
        { e with
          status := status
          projectKind := projectKind.getD e.projectKind }
      else e }

/-! ### Runs -/

inductive Event where
  | applyTraceTarget (input : TargetInput)
  | applyProfile (input : ProfileInput)
  | upsertField (input : FieldInput)
  | deleteScopeMemory (memoryId : String) (withJob : List (String × TargetField))
  | requestScan (userId projectId scanId : String)
  | markScan (userId projectId scanId status : String) (projectKind : Option String)
  | deadLetter (batchId : String) (targetField : TargetField)

def transaction (db : Db) : Event → Except String Db
  | .applyTraceTarget input => (applyTraceTarget hash scopeKeyOf input db).map (·.2)
  | .applyProfile input => (applyProfile scopeKeyOf input db).map (·.2)
  | .upsertField input => upsertField scopeKeyOf input db
  | .deleteScopeMemory memoryId withJob => deleteScopeMemory memoryId withJob db
  | .requestScan userId projectId scanId => requestScan scopeKeyOf userId projectId scanId db
  | .markScan userId projectId scanId status projectKind =>
    .ok (markScan userId projectId scanId status projectKind db)
  | .deadLetter batchId targetField =>
    .ok (updateTerminalOutcome batchId (leaveQueue (batchId, targetField) .deadLetter false db))

/-- A transaction that fails is rolled back. -/
def step (db : Db) (e : Event) : Db := (transaction hash scopeKeyOf db e).toOption.getD db

end Writes

/-! ### One write -/

/-- The fields that the memory of a scope may have. -/
def Owned (projectId : Option String) (f : Fields) : Prop :=
  (projectId ≠ none → f.generalRulesAndSafetyConstraints = none) ∧
    (projectId = none → f.projectEnvironmentProfile = none ∧ f.projectContract = none ∧ f.domainKnowledge = none)

variable {name : FieldName} {projectId : Option String}

theorem validateMemory_eq_ok {m : Memory} {userId : String} :
    validateMemory m userId projectId = .ok () ↔
      m.userId = userId ∧ m.projectId = projectId ∧ Owned projectId m.fields := by
  unfold validateMemory Owned
  split_ifs with howner hgeneral hproject
  · simp only [false_iff]
    tauto
  · simp only [false_iff]
    tauto
  · simp only [false_iff]
    tauto
  · simp only [true_iff]
    tauto

theorem Owned.set {f : Fields} (h : Owned projectId f)
    (hname : assertFieldOwnership projectId name = .ok ()) (value : Option String) :
    Owned projectId (f.set name value) := by
  unfold assertFieldOwnership at hname
  split_ifs at hname with hgeneral hproject
  cases name with
  | generalRulesAndSafetyConstraints => exact ⟨fun hp => absurd ⟨hp, rfl⟩ hproject, h.2⟩
  | projectEnvironmentProfile => exact ⟨h.1, fun hp => absurd ⟨hp, by decide⟩ hgeneral⟩
  | projectContract => exact ⟨h.1, fun hp => absurd ⟨hp, by decide⟩ hgeneral⟩
  | domainKnowledge => exact ⟨h.1, fun hp => absurd ⟨hp, by decide⟩ hgeneral⟩

theorem owned_blank (projectId : Option String) : Owned projectId {} := ⟨fun _ => rfl, fun _ => ⟨rfl, rfl, rfl⟩⟩

theorem scopeMemory_some {db : Db} {scope : Scope} {m : Memory} (h : scopeMemory db scope = .ok (some m)) :
    scope.memoryId = some m.id ∧ m ∈ db.memories ∧ validateMemory m scope.userId scope.projectId = .ok () := by
  unfold scopeMemory at h
  cases hid : scope.memoryId with
  | none =>
    rw [hid] at h
    cases h
  | some id =>
    simp only [hid] at h
    cases hlive : getLive db id with
    | none =>
      rw [hlive] at h
      cases h
    | some x =>
      simp only [hlive] at h
      cases hvalid : validateMemory x scope.userId scope.projectId with
      | error e =>
        rw [hvalid] at h
        cases h
      | ok u =>
        simp only [hvalid, ok.injEq, some.injEq] at h
        subst h
        have hfound := find?_some hlive
        simp only [and_eq_true, decide_eq_true_eq] at hfound
        exact ⟨by rw [hfound.1], mem_of_find?_eq_some hlive, hvalid⟩

theorem scopeMemory_congr {db db' : Db} (h : db'.memories = db.memories) (scope : Scope) :
    scopeMemory db' scope = scopeMemory db scope := by
  unfold scopeMemory getLive
  rw [h]

theorem normalizeFieldValue_of_blank {value : Option String}
    (h : (Fields.set {} name (normalizeFieldValue value)).blank = true) :
    normalizeFieldValue value = Fields.get {} name := by
  have hnone : Fields.get {} name = none := by cases name <;> rfl
  rw [hnone]
  by_contra hvalue
  obtain ⟨text, htext⟩ := ne_none_iff_exists'.mp hvalue
  have htrim : trim text ≠ "" := of_decide_eq_true (filter_eq_some_iff.mp htext).2
  cases name <;> simp_all [Fields.set, Fields.blank]

section
variable {scopeKeyOf : String → Option String → String} {projectId : Option String} {userId : String}

theorem ensureScope_ok {db db' : Db} {scope : Scope}
    (h : ensureScope scopeKeyOf db userId projectId = .ok (db', scope)) :
    getScope db' userId projectId = some scope ∧ scopeMemory db' scope = getMemory db userId projectId ∧
      db'.memories = db.memories ∧ db'.targets = db.targets := by
  unfold ensureScope at h
  dsimp only at h
  split at h
  · rename_i found hfound
    by_cases hkey : found.scopeKey = scopeKeyOf userId projectId
    case neg =>
      rw [if_neg hkey] at h
      cases h
    rw [if_pos hkey] at h
    obtain ⟨rfl, rfl⟩ := h
    by_cases hknown : (db.scopes.any fun s => decide (s.scopeKey = scopeKeyOf userId projectId)) = true
    · rw [if_pos hknown] at hfound ⊢
      refine ⟨hfound, ?_, rfl, rfl⟩
      unfold getMemory
      rw [hfound]
    · rw [if_neg hknown] at hfound ⊢
      refine ⟨hfound, ?_, rfl, rfl⟩
      unfold getMemory
      unfold getScope at hfound ⊢
      rw [find?_append] at hfound
      cases hold : db.scopes.find? fun s => decide (s.userId = userId) && decide (s.projectId = projectId) with
      | some old =>
        rw [hold, some_or, some.injEq] at hfound
        subst hfound
        exact scopeMemory_congr rfl _
      | none =>
        rw [hold, none_or] at hfound
        have hnew := mem_singleton.mp (mem_of_find?_eq_some hfound)
        rw [hnew]
        rfl
  · cases h

theorem saveMemory_ok {existing : Option Memory} {m : Memory} {db db' : Db}
    (h : saveMemory existing m db = .ok db') (hlive : m.isDeleted = false)
    (hknown : ∀ x, existing = some x → x.id = m.id ∧ x ∈ db.memories) :
    (∃ version, getLive db' m.id = some { m with version := version }) ∧ db'.scopes = db.scopes ∧
      db'.targets = db.targets := by
  unfold saveMemory at h
  cases existing with
  | none =>
    split_ifs at h with hany
    simp only [ok.injEq] at h
    subst h
    refine ⟨⟨m.version, ?_⟩, rfl, rfl⟩
    have hnone : db.memories.find? (fun x => decide (x.id = m.id) && !x.isDeleted) = none := by
      rw [find?_eq_none]
      intro x hx hfound
      simp only [and_eq_true, decide_eq_true_eq] at hfound
      exact hany (any_eq_true.mpr ⟨x, hx, decide_eq_true hfound.1⟩)
    unfold getLive
    rw [find?_append, hnone, none_or, find?_cons_of_pos (by simp [hlive])]
  | some x =>
    obtain ⟨hid, hmem⟩ := hknown x rfl
    simp only [ok.injEq] at h
    subst h
    refine ⟨⟨m.version + 1, ?_⟩, rfl, rfl⟩
    have hsome : (db.memories.find? fun y => decide (y.id = m.id)).isSome := by
      rw [find?_isSome]
      exact ⟨x, hmem, decide_eq_true hid⟩
    obtain ⟨y, hy⟩ := isSome_iff_exists.mp hsome
    unfold getLive
    rw [find?_map]
    have hp : ((fun x : Memory => decide (x.id = m.id) && !x.isDeleted) ∘ fun other : Memory =>
        if other.id = m.id then { m with version := m.version + 1 } else other) =
        fun y => decide (y.id = m.id) := by
      funext y
      by_cases he : y.id = m.id
      · simp [he, hlive]
      · simp [he]
    have hyid : y.id = m.id := of_decide_eq_true (find?_some (p := fun y : Memory => decide (y.id = m.id)) hy)
    rw [hp, hy, map_some, if_pos hyid]

theorem fieldsOf_bindMemory {db : Db} {scope : Scope} {id : String}
    {m : Memory} (hscope : getScope db userId projectId = some scope) (hlive : getLive db id = some m)
    (hvalid : validateMemory m userId projectId = .ok ()) :
    fieldsOf (bindMemory scope.scopeKey id db) userId projectId = .ok m.fields := by
  have howner : scope.userId = userId ∧ scope.projectId = projectId := by
    have hfound := find?_some hscope
    simpa only [and_eq_true, decide_eq_true_eq] using hfound
  have hbound : getScope (bindMemory scope.scopeKey id db) userId projectId =
      some { scope with memoryId := some id } := by
    unfold getScope bindMemory at *
    rw [find?_map]
    have hp : ((fun s : Scope => decide (s.userId = userId) && decide (s.projectId = projectId)) ∘ fun s : Scope =>
        if s.scopeKey = scope.scopeKey then { s with memoryId := some id } else s) =
        fun s => decide (s.userId = userId) && decide (s.projectId = projectId) := by
      funext s
      by_cases he : s.scopeKey = scope.scopeKey
      · simp [he]
      · simp [he]
    rw [hp, hscope, map_some, if_pos rfl]
  have hlive' : getLive (bindMemory scope.scopeKey id db) id = some m := hlive
  unfold fieldsOf getMemory scopeMemory
  rw [hbound]
  simp only [hlive', howner.1, howner.2, hvalid]
  rfl

/-- **A write sets one field.** -/
theorem upsertField_ok {input : FieldInput} {db db' : Db} (h : upsertField scopeKeyOf input db = .ok db') :
    ∃ before, fieldsOf db input.userId input.projectId = .ok before ∧
      fieldsOf db' input.userId input.projectId =
        .ok (before.set input.targetField (normalizeFieldValue input.value)) ∧ db'.targets = db.targets := by
  obtain ⟨_, howned, h⟩ := bind_eq_ok.mp h
  obtain ⟨⟨db₁, scope⟩, hensure, h⟩ := bind_eq_ok.mp h
  obtain ⟨existing, hexisting, h⟩ := bind_eq_ok.mp h
  obtain ⟨hscope, hsame, hmemories, htargets⟩ := ensureScope_ok hensure
  have hbefore : fieldsOf db input.userId input.projectId = .ok (storedFields existing) := by
    unfold fieldsOf
    rw [← hsame, hexisting]
    rfl
  have howner : scope.userId = input.userId ∧ scope.projectId = input.projectId := by
    have hfound := find?_some hscope
    simpa only [and_eq_true, decide_eq_true_eq] using hfound
  have hknown : ∀ x, existing = some x → scope.memoryId = some x.id ∧ x ∈ db₁.memories ∧
      validateMemory x scope.userId scope.projectId = .ok () := by
    rintro x rfl
    exact scopeMemory_some hexisting
  have hfields : Owned input.projectId (storedFields existing) := by
    cases hx : existing with
    | none => exact owned_blank _
    | some x => exact howner.2 ▸ (validateMemory_eq_ok.mp (hknown x hx).2.2).2.2
  refine ⟨storedFields existing, hbefore, ?_⟩
  by_cases hskip : existing.isNone = true ∧
      ((storedFields existing).set input.targetField (normalizeFieldValue input.value)).blank = true
  · rw [if_pos hskip] at h
    simp only [pure_eq, ok.injEq] at h
    subst h
    obtain rfl : existing = none := isNone_iff_eq_none.mp hskip.1
    have hdb : fieldsOf db₁ input.userId input.projectId = .ok {} := by
      unfold fieldsOf getMemory
      rw [hscope]
      dsimp only
      rw [hexisting]
      rfl
    refine ⟨?_, htargets⟩
    rw [hdb, normalizeFieldValue_of_blank hskip.2]
    exact congrArg Except.ok (Fields.set_get {} input.targetField).symm
  · rw [if_neg hskip] at h
    obtain ⟨db₂, hsave, h⟩ := bind_eq_ok.mp h
    simp only [pure_eq, ok.injEq] at h
    subst h
    obtain ⟨⟨version, hlive⟩, hscopes, htargets'⟩ := saveMemory_ok hsave rfl fun x hx =>
      ⟨by simp [memoryOf, hx], (hknown x hx).2.1⟩
    refine ⟨?_, htargets'.trans htargets⟩
    have hscope₂ : getScope db₂ input.userId input.projectId = some scope := by
      unfold getScope at hscope ⊢
      rw [hscopes]
      exact hscope
    exact fieldsOf_bindMemory hscope₂ hlive
      (validateMemory_eq_ok.mpr ⟨rfl, rfl, hfields.set howned _⟩)

end

/-! ### Targets -/

def queued (key : String × TargetField) (db : Db) : Bool := (getTarget db key).any fun t => t.status = .queued

/-- No target comes back to the queue. -/
def QueueShrinks (db db' : Db) : Prop := ∀ key, queued key db = false → queued key db' = false

theorem QueueShrinks.of_eq {db db' : Db} (h : db'.targets = db.targets) : QueueShrinks db db' := by
  intro key hkey
  unfold queued getTarget at hkey ⊢
  rw [h]
  exact hkey

theorem QueueShrinks.trans {db db' db'' : Db} (h : QueueShrinks db db') (h' : QueueShrinks db' db'') :
    QueueShrinks db db'' := fun key hkey => h' key (h key hkey)

theorem getTarget_leaveQueue (db : Db) (key other : String × TargetField) (status : TargetStatus) (noChange : Bool) :
    getTarget (leaveQueue key status noChange db) other =
      (getTarget db other).map fun t =>
        if t.key = key ∧ t.status = .queued then
          { t with
            status := status
            noChange := noChange }
        else t := by
  unfold getTarget leaveQueue get?
  rw [find?_map]
  have hp : ((fun t : Target => decide (t.key = other)) ∘ fun t : Target =>
      if t.key = key ∧ t.status = .queued then { t with status := status, noChange := noChange } else t) =
      fun t => decide (t.key = other) := by
    funext t
    rw [Function.comp_apply]
    split_ifs
    · rfl
    · rfl
  rw [hp]

theorem queueShrinks_leaveQueue (db : Db) (key : String × TargetField) {status : TargetStatus} (noChange : Bool)
    (h : status ≠ .queued) : QueueShrinks db (leaveQueue key status noChange db) := by
  intro other hother
  unfold queued at hother ⊢
  rw [getTarget_leaveQueue]
  cases ht : getTarget db other with
  | none => rfl
  | some t =>
    rw [ht, any_some, decide_eq_false_iff_not] at hother
    rw [map_some, any_some, decide_eq_false_iff_not]
    split_ifs
    · exact h
    · exact hother

theorem queued_leaveQueue (db : Db) (key : String × TargetField) {status : TargetStatus} (noChange : Bool)
    (h : status ≠ .queued) : queued key (leaveQueue key status noChange db) = false := by
  unfold queued
  rw [getTarget_leaveQueue]
  cases ht : getTarget db key with
  | none => rfl
  | some t =>
    rw [map_some, any_some, decide_eq_false_iff_not]
    have hkey : t.key = key := key_of_get? ht
    by_cases hq : t.status = .queued
    · rw [if_pos ⟨hkey, hq⟩]
      exact h
    · rw [if_neg fun hboth => hq hboth.2]
      exact hq

theorem updateTerminalOutcome_frame (batchId : String) (db : Db) :
    (updateTerminalOutcome batchId db).targets = db.targets ∧ (updateTerminalOutcome batchId db).scopes = db.scopes ∧
      (updateTerminalOutcome batchId db).memories = db.memories := by
  unfold updateTerminalOutcome
  by_cases hopen : (db.targets.filter fun t => t.batchId = batchId).isEmpty = true ∨
      ((db.targets.filter fun t => t.batchId = batchId).any fun t => t.status = .queued) = true
  · rw [if_pos hopen]
    exact ⟨rfl, rfl, rfl⟩
  · rw [if_neg hopen]
    exact ⟨rfl, rfl, rfl⟩

theorem map_eq_ok {α β : Type} {x : Except String α} {f : α → β} {b : β} (h : x.map f = .ok b) :
    ∃ a, x = .ok a ∧ f a = b := by
  cases x with
  | error e => cases h
  | ok a => exact ⟨a, rfl, ok.inj h⟩

theorem fieldsOf_congr {db db' : Db} (hscopes : db'.scopes = db.scopes) (hmemories : db'.memories = db.memories)
    (userId : String) (projectId : Option String) : fieldsOf db' userId projectId = fieldsOf db userId projectId := by
  have hscope : getScope db' userId projectId = getScope db userId projectId := by
    unfold getScope
    rw [hscopes]
  unfold fieldsOf getMemory
  rw [hscope]
  cases getScope db userId projectId with
  | none => rfl
  | some scope =>
    dsimp only
    rw [scopeMemory_congr hmemories]

section
variable {hash : String → String} {scopeKeyOf : String → Option String → String} {input : TargetInput} {db : Db}
variable {db' : Db} {fields : Fields} {result : TargetResult}

/-- A field of a scope has the value afterwards, and its other fields are those it has had. -/
def SetsField (db db' : Db) (userId : String) (projectId : Option String) (name : FieldName)
    (value : Option String) : Prop :=
  ∃ before after, fieldsOf db userId projectId = .ok before ∧ fieldsOf db' userId projectId = .ok after ∧
    after.get name = value ∧ ∀ other, other ≠ name → after.get other = before.get other

theorem setsField_set {before : Fields}
    {value : Option String} (h : fieldsOf db userId projectId = .ok before)
    (h' : fieldsOf db' userId projectId = .ok (before.set name value)) :
    SetsField db db' userId projectId name value :=
  ⟨before, _, h, h', Fields.get_set_self before name value,
    fun _ hother => Fields.get_set_of_ne before hother value⟩

theorem targetWrite_some {current value : Option String} (h : targetWrite input current = .ok (some value)) :
    normalizeFieldValue value = normalizeFieldValue (some input.value) := by
  unfold targetWrite at h
  cases hop : input.operation with
  | noop =>
    rw [hop] at h
    dsimp only at h
    split_ifs at h
    cases h
  | create =>
    rw [hop] at h
    dsimp only at h
    split_ifs at h
    cases h
    rfl
  | update =>
    rw [hop] at h
    by_cases hstale : current = none ∨ some input.value = current
    · rw [if_pos hstale] at h
      cases h
    · rw [if_neg hstale] at h
      cases h
      split_ifs with hempty
      · rw [hempty]
        rfl
      · rfl

/-- The fields still have the hashes that the model has seen. -/
def SeenBy (hash : String → String) (input : TargetInput) (fields : Fields) : Prop :=
  hashOf hash (fields.get (fieldOf input.targetField)) = input.expectedFieldHash ∧
    (input.targetField ≠ .generalRulesAndSafetyConstraints →
      some (hashOf hash fields.projectEnvironmentProfile) = input.expectedProfileHash)

theorem checkBase_eq_ok (h : checkBase hash input fields = .ok ()) : SeenBy hash input fields := by
  unfold checkBase at h
  by_cases hfield : hashOf hash (fields.get (fieldOf input.targetField)) ≠ input.expectedFieldHash
  · rw [if_pos hfield] at h
    cases h
  · rw [if_neg hfield] at h
    refine ⟨not_not.mp hfield, fun hproject => ?_⟩
    rw [if_neg hproject] at h
    cases hexpected : input.expectedProfileHash.filter (· ≠ "") with
    | none =>
      rw [hexpected] at h
      cases h
    | some expected =>
      rw [hexpected] at h
      dsimp only at h
      by_cases hprofile : hashOf hash fields.projectEnvironmentProfile ≠ expected
      · rw [if_pos hprofile] at h
        cases h
      · rw [not_not.mp hprofile, (filter_eq_some_iff.mp hexpected).1]

open QueueShrinks

/-- **A target's transaction** that is not a repetition: what it has checked, and what it changes. -/
theorem writeTarget_ok {batch : Batch}
    (h : writeTarget hash scopeKeyOf input batch db = .ok (result, db')) :
    result.alreadyApplied = false ∧ queued input.key db' = false ∧ QueueShrinks db db' ∧
      (result.noChange = true → db'.scopes = db.scopes ∧ db'.memories = db.memories) ∧
      (result.noChange = false →
        (∃ fields, fieldsOf db batch.userId batch.projectId = .ok fields ∧ SeenBy hash input fields) ∧
        SetsField db db' batch.userId batch.projectId (fieldOf input.targetField)
          (normalizeFieldValue (some input.value))) := by
  obtain ⟨_, -, h⟩ := bind_eq_ok.mp h
  obtain ⟨fields, hfields, h⟩ := bind_eq_ok.mp h
  obtain ⟨_, hbase, h⟩ := bind_eq_ok.mp h
  obtain ⟨written, hwritten, h⟩ := bind_eq_ok.mp h
  obtain ⟨db₁, hdb₁, h⟩ := bind_eq_ok.mp h
  obtain ⟨rfl, rfl⟩ := h
  obtain ⟨htargets, hscopes, hmemories⟩ :=
    updateTerminalOutcome_frame input.batchId (leaveQueue input.key .applied written.isNone db₁)
  have hleft : queued input.key
      (updateTerminalOutcome input.batchId (leaveQueue input.key .applied written.isNone db₁)) = false :=
    of_eq htargets _ (queued_leaveQueue db₁ input.key written.isNone (by decide))
  have hshrinks := (@queueShrinks_leaveQueue db₁ input.key .applied written.isNone (by decide)).trans
    (of_eq htargets)
  cases written with
  | none =>
    obtain rfl : db = db₁ := ok.inj hdb₁
    exact ⟨rfl, hleft, hshrinks, fun _ => ⟨hscopes, hmemories⟩, nofun⟩
  | some value =>
    obtain ⟨before, hbefore, hafter, hsame⟩ := upsertField_ok hdb₁
    refine ⟨rfl, hleft, (of_eq hsame).trans hshrinks, (nofun), fun _ => ?_⟩
    refine ⟨⟨fields, hfields, checkBase_eq_ok hbase⟩, ?_⟩
    rw [← targetWrite_some hwritten]
    exact setsField_set hbefore ((fieldsOf_congr hscopes hmemories _ _).trans hafter)

/-- **A call of a target**: a repetition changes nothing, another call takes the target out of the queue. -/
theorem applyTraceTarget_ok
    (h : applyTraceTarget hash scopeKeyOf input db = .ok (result, db')) :
    (result.alreadyApplied = true ∧ db' = db) ∨
      (queued input.key db = true ∧
        ∃ batch, getBatch db input.batchId = some batch ∧
          writeTarget hash scopeKeyOf input batch db = .ok (result, db')) := by
  unfold applyTraceTarget at h
  cases hbatch : getBatch db input.batchId with
  | none =>
    rw [hbatch] at h
    cases h
  | some batch =>
    cases htarget : getTarget db input.key with
    | none =>
      rw [hbatch, htarget] at h
      cases h
    | some target =>
      rw [hbatch, htarget] at h
      dsimp only at h
      cases hstatus : target.status with
      | applied =>
        rw [hstatus] at h
        cases hmemory : getMemory db batch.userId batch.projectId with
        | error e =>
          rw [hmemory] at h
          cases h
        | ok m =>
          rw [hmemory] at h
          cases h
          exact Or.inl ⟨rfl, rfl⟩
      | deadLetter =>
        rw [hstatus] at h
        cases h
      | queued =>
        rw [hstatus] at h
        by_cases howner : target.fieldScopeKey ≠
            l3WorldModelFieldScopeKey (scopeKeyOf batch.userId batch.projectId) input.targetField ∨
              target.scopeSeq ≠ batch.scopeSeq
        · rw [if_pos howner] at h
          cases h
        · rw [if_neg howner] at h
          refine Or.inr ⟨?_, batch, rfl, h⟩
          unfold queued
          rw [htarget, any_some, hstatus]
          rfl

theorem nextProfile_none {input : ProfileInput} {current next : Option String}
    (h : nextProfile input current = .ok next) (hskip : emptyNoop input next = true) : current = none := by
  unfold emptyNoop at hskip
  rw [and_eq_true, decide_eq_true_eq] at hskip
  obtain ⟨hop, hnone⟩ := hskip
  unfold nextProfile at h
  rw [hop] at h
  dsimp only at h
  split_ifs at h
  cases h
  exact isNone_iff_eq_none.mp hnone

theorem storeProfile_ok {input : ProfileInput} {next : Option String}
    (hfields : fieldsOf db input.userId (some input.projectId) = .ok fields)
    (hnext : nextProfile input fields.projectEnvironmentProfile = .ok next)
    (h : storeProfile scopeKeyOf input next db = .ok db') :
    db'.targets = db.targets ∧ SetsField db db' input.userId (some input.projectId) .projectEnvironmentProfile
      (normalizeFieldValue next) := by
  obtain ⟨existing, hexisting, h⟩ := bind_eq_ok.mp h
  by_cases hwrite : emptyNoop input next = false ∧ (next.isSome = true ∨ existing.isSome = true)
  · rw [if_pos hwrite] at h
    obtain ⟨before, hbefore, hafter, htargets⟩ := upsertField_ok h
    exact ⟨htargets, setsField_set hbefore hafter⟩
  · rw [if_neg hwrite] at h
    obtain rfl : db = db' := ok.inj h
    refine ⟨rfl, fields, fields, hfields, hfields, ?_, fun _ _ => rfl⟩
    show fields.projectEnvironmentProfile = normalizeFieldValue next
    by_cases hskip : emptyNoop input next = true
    · have hnone : next = none := by
        unfold emptyNoop at hskip
        rw [and_eq_true] at hskip
        exact isNone_iff_eq_none.mp hskip.2
      rw [nextProfile_none hnext hskip, hnone]
      rfl
    · have habsent : next = none ∧ existing = none := by
        rw [not_eq_true] at hskip
        simpa using not_or.mp fun hsome => hwrite ⟨hskip, hsome⟩
      unfold fieldsOf at hfields
      rw [hexisting, habsent.2] at hfields
      obtain rfl : storedFields none = fields := ok.inj hfields
      rw [habsent.1]
      rfl

/-- **A call of a scan**: one that is no longer current changes nothing. -/
theorem applyProfile_ok {input : ProfileInput} {stale : Bool}
    (h : applyProfile scopeKeyOf input db = .ok (stale, db')) :
    db' = db ∨
      ((getEnvironment db input.userId input.projectId).bind fun e => e.currentScanId) = some input.scanId ∧
        db'.targets = db.targets ∧
        ∃ value, SetsField db db' input.userId (some input.projectId) .projectEnvironmentProfile value := by
  unfold applyProfile at h
  cases hstate : getEnvironment db input.userId input.projectId with
  | none =>
    rw [hstate] at h
    cases h
    exact Or.inl rfl
  | some state =>
    rw [hstate] at h
    dsimp only at h
    by_cases hcurrent : state.currentScanId ≠ some input.scanId
    · rw [if_pos hcurrent] at h
      cases h
      exact Or.inl rfl
    · rw [if_neg hcurrent] at h
      refine Or.inr ⟨not_not.mp hcurrent, ?_⟩
      obtain ⟨fields, hfields, h⟩ := bind_eq_ok.mp h
      obtain ⟨_, -, h⟩ := bind_eq_ok.mp h
      obtain ⟨next, hnext, h⟩ := bind_eq_ok.mp h
      obtain ⟨db₁, hstore, h⟩ := bind_eq_ok.mp h
      obtain ⟨rfl, rfl⟩ := h
      obtain ⟨htargets, before, after, hset⟩ := storeProfile_ok hfields hnext hstore
      exact ⟨htargets, _, before, after, hset.1, (fieldsOf_congr rfl rfl _ _).trans hset.2.1, hset.2.2⟩

theorem queueShrinks_settleTargets (pending : List Target) (db : Db) :
    QueueShrinks db (settleTargets pending db) := by
  have hleave : ∀ (pending : List Target) (db : Db),
      QueueShrinks db (pending.foldl (fun db t => leaveQueue t.key .applied true db) db) := by
    intro pending
    induction pending with
    | nil => exact fun db => of_eq rfl
    | cons t pending ih =>
      exact fun db => (@queueShrinks_leaveQueue db t.key .applied true (by decide)).trans (ih _)
  have houtcome : ∀ (pending : List Target) (db : Db),
      (pending.foldl (fun db t => updateTerminalOutcome t.batchId db) db).targets = db.targets := by
    intro pending
    induction pending with
    | nil => exact fun db => rfl
    | cons t pending ih => exact fun db => (ih _).trans (updateTerminalOutcome_frame t.batchId db).1
  exact (hleave pending db).trans (of_eq (houtcome pending _))

theorem queueShrinks_deleteScopeMemory {memoryId : String} {withJob : List (String × TargetField)}
    (h : deleteScopeMemory memoryId withJob db = .ok db') : QueueShrinks db db' := by
  unfold deleteScopeMemory at h
  split at h
  · cases h
    exact of_eq rfl
  · rename_i scope _
    split at h
    · cases h
    · split at h
      · cases h
      · cases h
        have hforget : QueueShrinks db (forgetMemory scope.scopeKey memoryId db) := of_eq rfl
        exact (hforget.trans (queueShrinks_settleTargets _ _)).trans (of_eq rfl)

/-- **No target comes back.** -/
theorem settled_step (db : Db) (e : Event) : QueueShrinks db (step hash scopeKeyOf db e) := by
  unfold step
  cases htransaction : transaction hash scopeKeyOf db e with
  | error _ => exact of_eq rfl
  | ok db' =>
    cases e with
    | applyTraceTarget input =>
      obtain ⟨⟨result, _⟩, hok, rfl⟩ := map_eq_ok htransaction
      rcases applyTraceTarget_ok hok with ⟨-, rfl⟩ | ⟨-, batch, -, hwrite⟩
      · exact of_eq rfl
      · exact (writeTarget_ok hwrite).2.2.1
    | applyProfile input =>
      obtain ⟨⟨stale, _⟩, hok, rfl⟩ := map_eq_ok htransaction
      rcases applyProfile_ok hok with rfl | ⟨-, htargets, -⟩
      · exact of_eq rfl
      · exact of_eq htargets
    | upsertField input =>
      obtain ⟨-, -, -, htargets⟩ := upsertField_ok htransaction
      exact of_eq htargets
    | deleteScopeMemory memoryId withJob => exact queueShrinks_deleteScopeMemory htransaction
    | requestScan userId projectId scanId =>
      obtain ⟨⟨db₁, scope⟩, hensure, hdb⟩ := bind_eq_ok.mp htransaction
      cases hdb
      exact of_eq (ensureScope_ok hensure).2.2.2
    | markScan =>
      cases htransaction
      exact of_eq rfl
    | deadLetter batchId targetField =>
      cases htransaction
      exact (@queueShrinks_leaveQueue db (batchId, targetField) .deadLetter false (by decide)).trans
        (of_eq (updateTerminalOutcome_frame batchId _).1)

end

/-! ### Runs of the four operations -/

section
variable (hash : String → String) (scopeKeyOf : String → Option String → String)

def leaves (key : String × TargetField) (t : Db × Event) : Bool :=
  queued key t.1 && !queued key (step hash scopeKeyOf t.1 t.2)

/-- The step writes the value of the target. -/
def writes (key : String × TargetField) (t : Db × Event) : Bool :=
  match t.2 with
  | .applyTraceTarget input =>
    input.key = key &&
      match applyTraceTarget hash scopeKeyOf input t.1 with
      | .ok (result, _) => !result.alreadyApplied && !result.noChange
      | .error _ => false
  | _ => false

def isCurrent (input : ProfileInput) (db : Db) : Bool :=
  ((getEnvironment db input.userId input.projectId).bind fun e => e.currentScanId) = some input.scanId

/-- What a step may write. -/
structure Guarded (t : Db × Event) : Prop where
  /-- The value of a target goes over the fields that its model has seen, and into one field of the scope. -/
  target : ∀ input, t.2 = .applyTraceTarget input → writes hash scopeKeyOf input.key t = true →
    ∃ batch fields, getBatch t.1 input.batchId = some batch ∧
      fieldsOf t.1 batch.userId batch.projectId = .ok fields ∧ SeenBy hash input fields ∧
      SetsField t.1 (step hash scopeKeyOf t.1 t.2) batch.userId batch.projectId (fieldOf input.targetField)
        (normalizeFieldValue (some input.value))
  /-- A target that does not write leaves every memory as it is. -/
  unwritten : ∀ input, t.2 = .applyTraceTarget input → writes hash scopeKeyOf input.key t = false →
    (step hash scopeKeyOf t.1 t.2).memories = t.1.memories ∧ (step hash scopeKeyOf t.1 t.2).scopes = t.1.scopes
  field : ∀ input db', t.2 = .upsertField input → transaction hash scopeKeyOf t.1 t.2 = .ok db' →
    SetsField t.1 (step hash scopeKeyOf t.1 t.2) input.userId input.projectId input.targetField
      (normalizeFieldValue input.value)
  /-- A scan that is no longer current writes nothing. -/
  stale : ∀ input, t.2 = .applyProfile input → isCurrent input t.1 = false → step hash scopeKeyOf t.1 t.2 = t.1
  profile : ∀ input, t.2 = .applyProfile input → step hash scopeKeyOf t.1 t.2 = t.1 ∨
    ∃ value, SetsField t.1 (step hash scopeKeyOf t.1 t.2) input.userId (some input.projectId)
      .projectEnvironmentProfile value

end

section
variable {hash : String → String} {scopeKeyOf : String → Option String → String}

theorem step_of_ok {e : Event} (h : transaction hash scopeKeyOf db e = .ok db') :
    step hash scopeKeyOf db e = db' := by
  unfold step
  rw [h]
  rfl

theorem step_of_error {e : Event} {error : String} (h : transaction hash scopeKeyOf db e = .error error) :
    step hash scopeKeyOf db e = db := by
  unfold step
  rw [h]
  rfl

/-- What a call of a target does to the database, in the two cases. -/
theorem step_applyTraceTarget (db : Db) (input : TargetInput) :
    (step hash scopeKeyOf db (.applyTraceTarget input) = db ∧
        writes hash scopeKeyOf input.key (db, .applyTraceTarget input) = false) ∨
      ∃ batch result, queued input.key db = true ∧ getBatch db input.batchId = some batch ∧
        writeTarget hash scopeKeyOf input batch db =
          .ok (result, step hash scopeKeyOf db (.applyTraceTarget input)) ∧
        writes hash scopeKeyOf input.key (db, .applyTraceTarget input) = !result.noChange := by
  have hwrites : writes hash scopeKeyOf input.key (db, .applyTraceTarget input) =
      match applyTraceTarget hash scopeKeyOf input db with
      | .ok (result, _) => !result.alreadyApplied && !result.noChange
      | .error _ => false := by
    unfold writes
    dsimp only
    rw [decide_eq_true rfl, Bool.true_and]
  have htransaction : transaction hash scopeKeyOf db (.applyTraceTarget input) =
      (applyTraceTarget hash scopeKeyOf input db).map (·.2) := rfl
  cases hcall : applyTraceTarget hash scopeKeyOf input db with
  | error error =>
    rw [hcall] at hwrites htransaction
    exact Or.inl ⟨step_of_error htransaction, hwrites⟩
  | ok answer =>
    obtain ⟨result, db'⟩ := answer
    rw [hcall] at hwrites htransaction
    have hstep := step_of_ok htransaction
    rcases applyTraceTarget_ok hcall with ⟨hrepeated, rfl⟩ | ⟨hqueued, batch, hbatch, hwrite⟩
    · refine Or.inl ⟨hstep, ?_⟩
      rw [hwrites]
      simp [hrepeated]
    · refine Or.inr ⟨batch, result, hqueued, hbatch, ?_, ?_⟩
      · rw [hstep]
        exact hwrite
      · rw [hwrites]
        simp [(writeTarget_ok hwrite).1]

theorem step_applyProfile (db : Db) (input : ProfileInput) :
    step hash scopeKeyOf db (.applyProfile input) = db ∨
      ((getEnvironment db input.userId input.projectId).bind fun e => e.currentScanId) = some input.scanId ∧
        ∃ value, SetsField db (step hash scopeKeyOf db (.applyProfile input)) input.userId (some input.projectId)
          .projectEnvironmentProfile value := by
  cases htransaction : transaction hash scopeKeyOf db (.applyProfile input) with
  | error error => exact Or.inl (step_of_error htransaction)
  | ok db' =>
    rw [step_of_ok htransaction]
    obtain ⟨⟨stale, _⟩, hok, rfl⟩ := map_eq_ok htransaction
    rcases applyProfile_ok hok with hsame | ⟨hcurrent, -, hset⟩
    · exact Or.inl hsame
    · exact Or.inr ⟨hcurrent, hset⟩

theorem guarded_step (db : Db) (e : Event) : Guarded hash scopeKeyOf (db, e) where
  target := by
    rintro input rfl hwrites
    rcases step_applyTraceTarget db input with ⟨-, hnot⟩ | ⟨batch, result, -, hbatch, hwrite, hresult⟩
    · rw [hnot] at hwrites
      cases hwrites
    · rw [hwrites] at hresult
      obtain ⟨⟨fields, hfields, hseen⟩, hset⟩ := (writeTarget_ok hwrite).2.2.2.2 (by simpa using hresult.symm)
      exact ⟨batch, fields, hbatch, hfields, hseen, hset⟩
  unwritten := by
    rintro input rfl hwrites
    rcases step_applyTraceTarget db input with ⟨hsame, -⟩ | ⟨batch, result, -, -, hwrite, hresult⟩
    · dsimp only
      rw [hsame]
      exact ⟨rfl, rfl⟩
    · rw [hwrites] at hresult
      exact ((writeTarget_ok hwrite).2.2.2.1 (by simpa using hresult.symm)).symm
  field := by
    rintro input db' rfl hok
    rw [step_of_ok hok]
    obtain ⟨before, hbefore, hafter, -⟩ := upsertField_ok hok
    exact setsField_set hbefore hafter
  stale := by
    rintro input rfl hstale
    rcases step_applyProfile db input with hsame | ⟨hcurrent, -⟩
    · exact hsame
    · unfold isCurrent at hstale
      exact absurd hcurrent (of_decide_eq_false hstale)
  profile := by
    rintro input rfl
    rcases step_applyProfile db input with hsame | ⟨-, hset⟩
    · exact Or.inl hsame
    · exact Or.inr hset

/-- A step that writes the value of a target takes it out of the queue. -/
theorem leaves_of_writes {key : String × TargetField} {t : Db × Event}
    (h : writes hash scopeKeyOf key t = true) : leaves hash scopeKeyOf key t = true := by
  obtain ⟨db, e⟩ := t
  cases e with
  | applyTraceTarget input =>
    have hkey : input.key = key := by
      exact of_decide_eq_true (and_eq_true_iff.mp h).1
    subst hkey
    rcases step_applyTraceTarget db input with ⟨-, hnot⟩ | ⟨batch, result, hqueued, -, hwrite, -⟩
    · rw [hnot] at h
      cases h
    · unfold leaves
      rw [hqueued, (writeTarget_ok hwrite).2.1]
      rfl
  | _ => cases h

end

/-- **Every write is guarded.** Along every run a target leaves the queue once at most and writes its value once at
most; the value goes over the fields that the model has seen, into one field of the scope; and a scan that is no
longer current writes nothing. -/
theorem writes_guarded (hash : String → String) (scopeKeyOf : String → Option String → String) (s₀ : Db)
    (es : List Event) :
    (∀ key, ((taken (step hash scopeKeyOf) s₀ es).filter (leaves hash scopeKeyOf key)).length ≤ 1) ∧
      (∀ key, ((taken (step hash scopeKeyOf) s₀ es).filter (writes hash scopeKeyOf key)).length ≤ 1) ∧
      ∀ t ∈ taken (step hash scopeKeyOf) s₀ es, Guarded hash scopeKeyOf t := by
  have hleaves : ∀ key, ((taken (step hash scopeKeyOf) s₀ es).filter (leaves hash scopeKeyOf key)).length ≤ 1 :=
    fun key => left_once (fun s e => settled_step s e key) es s₀
  refine ⟨hleaves, fun key => ?_, fun t _ => guarded_step t.1 t.2⟩
  exact le_trans (monotone_filter_right _ fun t h => leaves_of_writes h).length_le (hleaves key)

/-- A target of an empty scope writes its value, and its repetition does not. -/
example :
    let key : String × TargetField := ("b", .projectContract)
    let batch : Batch := ⟨"b", "u", 1, "u", some "p", none⟩
    let target : Target := ⟨"b", .projectContract, "u:project_contract", 1, .queued, false⟩
    let hash (text : String) : String := "#" ++ text
    let input : TargetInput := ⟨"b", .projectContract, .create, "tabs", "#", some "#", "m"⟩
    ((taken (step hash fun u _ => u) { batches := [batch], targets := [target] }
      [.applyTraceTarget input, .applyTraceTarget input]).map (writes hash (fun u _ => u) key)) = [true, false] := by
  decide +kernel

end Memmy.Storage.WorldModel
