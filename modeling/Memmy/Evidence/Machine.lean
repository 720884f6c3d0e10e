import Memmy.Evidence.Sync

/-! # External evidence: suggestions, extractions and their interleavings

A Skill suggestion and an extraction wait for a model, and anything may happen in between. Both look again
before they write: a suggestion at its source memories, an extraction at its job and at the parents it
read.

* `beginSuggestion`, `finishSuggestion`: a Skill candidate from processed observations.
* `beginExtraction`, `finishExtraction`: `ObservationMemoryPipeline.extract` before and after its model call.
* `World`, `step`: the store, the calls that wait, and what the proofs remember about the past. -/

namespace Memmy.Evidence

open Lib.Sort Lib.Newest Lib.Rows

/-! ### Suggestions -/

structure SuggestionRequest where
  owner : RuntimeNamespace
  source : String
  groupId : String
  revision : String
  sourceRecordIds : List String
deriving DecidableEq

/-- A suggestion that waits for its model, with the source memories it read. -/
structure Suggestion where
  request : SuggestionRequest
  sources : List MemoryRow
deriving DecidableEq

def externalEvidenceSkillKey (n : RuntimeNamespace) (source groupId revision : String) : SkillKey where
  userId := n.userId
  tenantId := n.tenantId
  projectId := n.projectId
  profileId := n.profileId
  namespaceSource := n.source
  source := source
  groupId := groupId
  revision := revision

def isHistorySkillOrigin (k : SkillCandidate) : Bool :=
  k.sourceRecordIds.all isHistoryRecordId && decide (2 ≤ k.sourceRecordIds.dedup.length)

def skillMatchesSource (k : SkillCandidate) (source : String) : Bool :=
  k.source = source ||
    k.owner.source = "memmy" && externalEvidenceSourcesMatch k.source source && isHistorySkillOrigin k

def getSkillByKey (skills : List SkillCandidate) (key : SkillKey) : Option SkillCandidate :=
  (sortBy (compareLex (descending (·.updatedAt)) (descending (·.id))) (skills.filter (·.skillKey = key))).head?

def lookupExternalEvidenceSkill (skills : List SkillCandidate) (q : SuggestionRequest) :
    SkillKey × Option SkillCandidate :=
  let key := externalEvidenceSkillKey q.owner q.source q.groupId q.revision
  let canonical := getSkillByKey skills key
  if q.source = "computer_history" ∧ q.owner.source = "memmy" then
    let legacyKey := externalEvidenceSkillKey q.owner "memmy" q.groupId q.revision
    match getSkillByKey skills legacyKey with
    | some legacy =>
      if skillMatchesSource legacy "computer_history" then
        if legacy.status = .deleted then (legacyKey, some legacy)
        else if canonical.isSome then (key, canonical) else (legacyKey, some legacy)
      else (key, canonical)
    | none => (key, canonical)
  else (key, canonical)

/-- `maybeActivateAutomaticHistorySkill`: the checks on the texts of the candidate are `activates`. -/
def SkillCandidate.maybeActivated (activates : Bool) (now : String) (k : SkillCandidate) :
    SkillCandidate :=
  if k.status = .resolving ∧ activates then
    { k with
      status := .activated
      updatedAt := now }
  else k

/-- The suggestion up to its model call. -/
def beginSuggestion (s : Store) (q : SuggestionRequest) (activates : Bool) (now : String) :
    Store × Option Suggestion :=
  let sources := q.sourceRecordIds.dedup.filterMap fun p =>
    (lookupExternalEvidence s.observations q.owner q.source p).2
  if sources.length ≠ q.sourceRecordIds.dedup.length ∨ sources.any (·.status = .deleted) then (s, none)
  else if !sources.all (·.isObservationMemoryProcessed) then (s, none)
  else match (lookupExternalEvidenceSkill s.skills q).2 with
    | some k =>
      if k.status = .deleted ∨ k.status = .archived then (s, none)
      else ({ s with skills := update (·.id = k.id) (·.maybeActivated activates now) s.skills }, none)
    | none => (s, some ⟨q, sources⟩)

/-- The source memory is not as it was read. -/
def sourceChanged (s : Store) (m : MemoryRow) : Bool :=
  match s.get m.id with
  | some current => current.version ≠ m.version || current.memoryValue ≠ m.memoryValue
  | none => true

/-- The transaction after the model call; `selected` are the records of the selected actions. -/
def finishSuggestion (s : Store) (g : Suggestion) (selected : List String) (activates : Bool)
    (now : String) : Store :=
  match lookupExternalEvidenceSkill s.skills g.request with
  | (_, some k) =>
    if k.status = .deleted then s
    else { s with skills := update (·.id = k.id) (·.maybeActivated activates now) s.skills }
  | (key, none) =>
    if g.sources.any (sourceChanged s) then s
    else
      let automaticHistory := isHistorySource g.request.source &&
        g.sources.all (externalEvidenceSourceMatchesMemory · "computer_history")
      { s with
        skills := s.skills ++ [⟨s.nextId, key, if automaticHistory then .activated else .resolving,
          g.request.source, g.request.owner, selected, g.sources.map (·.id), false, now, now⟩]
        nextId := s.nextId + 1 }

/-- `externalSkillSources`: the sources of a Skill are there and processed. -/
def skillSourcesReady (s : Store) (k : SkillCandidate) : Bool :=
  decide (2 ≤ k.sourceMemoryIds.dedup.length) && k.sourceMemoryIds.dedup.all fun id =>
    (s.get id).any fun m =>
      m.isObservationMemoryProcessed && m.namespaceId = namespaceIdFromContext k.owner

/-- The text of a History Skill becomes that of a human. -/
def updateExternalEvidenceSkill (s : Store) (id : ℕ) (now : String) : Store :=
  { s with
    skills := update
      (fun k => k.id = id && k.status ≠ .deleted && skillMatchesSource k "computer_history" &&
        skillSourcesReady s k)
      (fun k => { k with
        status := .activated
        humanModified := true
        updatedAt := now }) s.skills }

/-! ### Extractions -/

/-- What an extraction read of a parent. -/
structure Source where
  id : ℕ
  contentHash : String
  revision : String
  generation : Option Generation
deriving DecidableEq

/-- An extraction that waits for its model. -/
structure Extraction where
  job : ExtractJob
  memoryId : ℕ
  parentIds : List ℕ
  sources : List Source
deriving DecidableEq

inductive ModelOutcome where
  | failed (terminal : Bool)
  | keep (title summary body : String)
  | skip (reason : String)
deriving DecidableEq

def processingJobMatchesMemory (job : ExtractJob) (m : MemoryRow) : Bool :=
  job.contentHash = m.memoryValue && m.generation? = some job.generation

def matchesJob (s : Store) (job : ExtractJob) (m : MemoryRow) : Bool :=
  m.status = .activated && m.observation.any (fun o => o.status = .pending && job.generation = o.generation) &&
    job.contentHash = m.memoryValue && (s.processing m.id).any (·.activeJobId = some job.id)

def setProcessing (s : Store) (id : ℕ) (row : ProcessingRow) : Store :=
  { s with processing := Function.update s.processing id (some row) }

/-- `processing.update` under a list of states that allow it. -/
def updateProcessing (s : Store) (id : ℕ) (allowed : List ProcessingState) (row : ProcessingRow) :
    Store :=
  if (s.processing id).any (decide <| ·.state ∈ allowed) then setProcessing s id row else s

def markProcessingJobLeased (s : Store) (job : ExtractJob) : Store :=
  match s.get job.targetMemoryId with
  | some m =>
    if processingJobMatchesMemory job m then
      updateProcessing s m.id [.summaryPending, .summarizing] ⟨.summarizing, some job.id⟩
    else s
  | none => s

def completeJob (s : Store) (jobId : ℕ) : Store :=
  { s with jobs := update (·.id = jobId) (fun j => { j with active := false }) s.jobs }

/-- `ObservationDependenciesPendingError`: the job is put off. -/
def deferJob (s : Store) (job : ExtractJob) : Store :=
  match s.get job.targetMemoryId with
  | some m =>
    if processingJobMatchesMemory job m then
      updateProcessing s m.id [.summaryPending, .summarizing] ⟨.summaryPending, some job.id⟩
    else s
  | none => s

/-- Any other error: the job is tried again, or given up. -/
def failJob (s : Store) (job : ExtractJob) (terminal : Bool) : Store :=
  let s := if terminal then completeJob s job.id else s
  match s.get job.targetMemoryId with
  | some m =>
    if processingJobMatchesMemory job m then
      updateProcessing s m.id [.summaryPending, .summarizing, .failed]
        (if terminal then ⟨.failed, none⟩ else ⟨.summaryPending, some job.id⟩)
    else s
  | none => s

inductive ExtractStop where
  | dependenciesPending
  | parentDeleted
deriving DecidableEq

def MemoryRow.asSource (m : MemoryRow) : Source := ⟨m.id, m.memoryValue, m.evidence.revision, m.generation?⟩

/-- The loop over the parents: their ids, and what is read of those that are processed. -/
def parentSources (rows : List MemoryRow) (m : MemoryRow) :
    List String → Except ExtractStop (List ℕ × List Source)
  | [] => .ok ([], [])
  | recordId :: rest =>
    match (lookupExternalEvidence rows m.evidence.owner m.evidence.source recordId).2 with
    | none => .error .dependenciesPending
    | some parent =>
      if parent.status = .deleted then .error .parentDeleted
      else if parent.isSkipped then
        (parentSources rows m rest).map fun r => (parent.id :: r.1, r.2)
      else if !parent.isObservationMemoryProcessed then .error .dependenciesPending
      else (parentSources rows m rest).map fun r => (parent.id :: r.1, parent.asSource :: r.2)

/-- The job is leased, and the extraction goes up to its model call. -/
def beginExtraction (s : Store) (jobId : ℕ) : Store × Option Extraction :=
  match s.jobs.find? fun j => j.id = jobId && j.active with
  | none => (s, none)
  | some job =>
    let s := markProcessingJobLeased s job
    match s.get job.targetMemoryId with
    | none => (completeJob s job.id, none)
    | some m =>
      if !matchesJob s job m then (completeJob s job.id, none)
      else match parentSources s.observations m m.evidence.parentSourceRecordIds with
        | .error .dependenciesPending => (deferJob s job, none)
        | .error .parentDeleted => (completeJob s job.id, none)
        | .ok (parentIds, sources) => (s, some ⟨job, m.id, parentIds, sources⟩)

/-- A parent is not as the extraction read it. -/
def parentChanged (s : Store) (source : Source) : Bool :=
  match s.get source.id with
  | none => true
  | some parent => parent.memoryValue ≠ source.contentHash ||
      parent.evidence.revision ≠ source.revision || parent.generation? ≠ source.generation

/-- The row with what the model made of it. -/
def MemoryRow.extracted (outcome : ModelOutcome) (now : String) (m : MemoryRow) : MemoryRow :=
  match outcome with
  | .failed _ => m
  | .keep title summary body =>
    { m with
      status := .activated
      memoryValue := body
      title := title
      summary := summary
      version := m.version + 1
      updatedAt := now
      observation := m.observation.map ({ · with status := .processed }) }
  | .skip reason =>
    { m with
      status := .archived
      memoryValue := ""
      title := m.evidence.sourceTitle
      summary := reason
      version := m.version + 1
      updatedAt := now
      observation := m.observation.map ({ · with status := .skipped }) }

/-- `onProcessed`; `activated` are the candidates that its reconciliation turns active. -/
def onProcessed (s : Store) (m : MemoryRow) (activated : List ℕ) (now : String) : Store :=
  let s := if m.isSkipped then
    { s with skills := retractExternalEvidenceSkills m.id now .sourceUpdated s.skills } else s
  let s := invalidateDependentExternalEvidence s m m.evidence.source m.evidence.sourceRecordId now
  { s with
    skills := update (fun k => decide (m.id ∈ k.sourceMemoryIds) && decide (k.id ∈ activated))
      (·.maybeActivated true now) s.skills }

/-- The model has answered: the row that the extraction writes, if it still may. -/
def finishable (s : Store) (x : Extraction) : Option MemoryRow :=
  match s.get x.memoryId with
  | some m => if matchesJob s x.job m && !x.sources.any (parentChanged s) then some m else none
  | none => none

def finishExtraction (s : Store) (x : Extraction) (outcome : ModelOutcome) (activated : List ℕ)
    (now : String) : Store :=
  match outcome with
  | .failed terminal => failJob s x.job terminal
  | outcome =>
    match finishable s x with
    | some m =>
      let saved := m.extracted outcome now
      let s := setProcessing { s with observations := put saved s.observations } saved.id ⟨.later, none⟩
      completeJob (onProcessed s saved activated now) x.job.id
    | none =>
      if (s.get x.memoryId).any (matchesJob s x.job) then deferJob s x.job else completeJob s x.job.id

/-- A failed extraction is asked for again. -/
def retryProcessing (s : Store) (memoryId : ℕ) : Store :=
  match s.get memoryId with
  | some m =>
    if (s.processing memoryId).any (·.state = .failed) then
      match m.generation? with
      | some generation =>
        let enqueued := enqueueExtract s m.id m.memoryValue generation
        setProcessing enqueued.1 m.id ⟨.summaryPending, some enqueued.2⟩
      | none => s
    else s
  | none => s

/-- `listUnprocessedObservations`: rows from before there was an extraction. -/
def listUnprocessedObservations (rows : List MemoryRow) (limit : ℕ) : List MemoryRow :=
  newest (fun m => toLex (m.createdAt, m.id)) (min limit 1000)
    (rows.filter fun m => m.status = .activated && m.observation.isNone)

def backfill (s : Store) (limit : ℕ) (now : String) : Store :=
  (listUnprocessedObservations s.observations limit).foldl (schedule "startup.observation_backfill" now) s

/-! ### Runs -/

structure World where
  store : Store := {}
  suggestions : List Suggestion := []
  extractions : List Extraction := []
  withdrawnKeys : List EvidenceKey := []
  received : List (SyncRequest × Upload) := []
  extractedFrom : ℕ → Option Extraction := fun _ => none

inductive Event where
  | sync (request : SyncRequest) (now : String)
  | deleteMemory (id : ℕ) (now : String)
  | beginSuggestion (request : SuggestionRequest) (activates : Bool) (now : String)
  | finishSuggestion (i : ℕ) (selected : Option (List String)) (activates : Bool) (now : String)
  | updateSkill (id : ℕ) (now : String)
  | beginExtraction (jobId : ℕ)
  | finishExtraction (i : ℕ) (outcome : ModelOutcome) (activated : List ℕ) (now : String)
  | retry (memoryId : ℕ)
  | backfill (limit : ℕ) (now : String)
  | restart

def requestedDeletions : Event → List EvidenceKey
  | .sync ⟨owner, source, sourceRecordId, _, .delete⟩ _ =>
    [externalEvidenceMemoryKey owner source sourceRecordId]
  | _ => []

def receivedUploads : Event → List (SyncRequest × Upload)
  | .sync r _ =>
    match r.action with
    | .upsert u => [(r, u)]
    | .delete => []
  | _ => []

/-- What an event does to the store and to the calls that wait. -/
def act (w : World) : Event → World
  | .sync r now => { w with store := (syncExternalEvidence w.store r now).1 }
  | .deleteMemory id now => { w with store := deleteMemory w.store id now }
  | .beginSuggestion q activates now =>
    let begun := beginSuggestion w.store q activates now
    { w with
      store := begun.1
      suggestions := w.suggestions ++ begun.2.toList }
  | .finishSuggestion i selected activates now =>
    match w.suggestions[i]? with
    | none => w
    | some g => { w with
        store := match selected with
          | some selected => finishSuggestion w.store g selected activates now
          | none => w.store
        suggestions := w.suggestions.eraseIdx i }
  | .updateSkill id now => { w with store := updateExternalEvidenceSkill w.store id now }
  | .beginExtraction jobId =>
    let begun := beginExtraction w.store jobId
    { w with
      store := begun.1
      extractions := w.extractions ++ begun.2.toList }
  | .finishExtraction i outcome activated now =>
    match w.extractions[i]? with
    | none => w
    | some x => { w with
        store := finishExtraction w.store x outcome activated now
        extractions := w.extractions.eraseIdx i
        extractedFrom := match outcome, finishable w.store x with
          | .failed _, _ => w.extractedFrom
          | _, some m => Function.update w.extractedFrom m.id (some x)
          | _, none => w.extractedFrom }
  | .retry memoryId => { w with store := retryProcessing w.store memoryId }
  | .backfill limit now => { w with store := backfill w.store limit now }
  | .restart => { w with
      suggestions := []
      extractions := [] }

def step (w : World) (e : Event) : World :=
  let w' := act w e
  { w' with
    withdrawnKeys := w.withdrawnKeys ++ requestedDeletions e ++
      (w'.store.observations.filter (·.status = .deleted)).map (·.sourceKey)
    received := w.received ++ receivedUploads e }

end Memmy.Evidence
