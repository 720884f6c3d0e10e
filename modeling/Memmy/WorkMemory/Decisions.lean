import Mathlib
import Memmy.Lib.KeyMap
import Memmy.WorkMemory.Windows

/-! # The decisions on new work memories

The candidates of a window are shown to the model with the memories that they may match, each under a label.  Its
output gives one decision for each candidate: a new memory, or a merge into the memory of a label.
`validateDecisionOutput` checks the output; `persistDecisions` resolves the labels again and writes in one
transaction.

* `memoryRefById_eq`: the labels of the write are those of the prompt.
* `validateDecisionOutput_ok`: an accepted output has one decision for each candidate.
* `persistDecisions_ok`: every decision is written, to its own memory or to the one that was shown.
* `persisted_iff`: no decision is written over exactly if the merges into one memory have one text. -/

namespace Memmy.WorkMemory.Decisions

open Memmy.Lib.Blocks (pairwise_or)
open Lib.JsonValue Lib.KeyMap Lib.Result Lib.Text List Option
open Memmy.WorkMemory.Windows (newlines normalizeProjectId)

/-! ### Texts -/

/-- `value.replace(/\s+/gu, " ")`, on the characters. -/
def collapseSpaces (inSpace : Bool) : List Char → List Char
  | [] => []
  | c :: cs =>
    if isJsSpace c then if inSpace then collapseSpaces true cs else ' ' :: collapseSpaces true cs
    else c :: collapseSpaces false cs

/-- The line ends that become blanks first are white space themselves. -/
def normalizeWorkTopic (value : String) : String := trim (String.ofList (collapseSpaces false value.toList))

def normalizeRequirement (value : String) : String := trim (String.ofList (newlines value.toList))

def canonicalWorkMemoryText (workTopic requirement reason : String) : String :=
  "\n".intercalate
    [s!"Work topic: {normalizeWorkTopic workTopic}",
      s!"Requirement: {normalizeRequirement requirement}",
      s!"Requirement rationale: {normalizeRequirement reason}"]

theorem return_notMem_newlines : ∀ cs : List Char, '\r' ∉ newlines cs
  | [] => by simp [newlines]
  | [c] => by
    by_cases hc : c = '\r'
    · simp [hc, newlines]
    · simp [hc, newlines, Ne.symm hc]
  | c :: d :: cs => by
    have hrest := return_notMem_newlines (d :: cs)
    have hafter := return_notMem_newlines cs
    unfold newlines
    split
    · rename_i h
      cases h
    · rename_i h
      cases h
      simpa using hafter
    · rename_i c' cs' _ h
      cases h
      by_cases hc : c = '\r'
      · simpa [hc] using hrest
      · simpa [hc, Ne.symm hc] using hrest

theorem newlines_eq_self : ∀ {cs : List Char}, '\r' ∉ cs → newlines cs = cs
  | [], _ => rfl
  | c :: cs, h => by
    obtain ⟨hc, hcs⟩ := not_or.mp (mt mem_cons.mpr h)
    unfold newlines
    split
    · rename_i he
      cases he
    · rename_i he
      cases he
      exact absurd rfl hc
    · rename_i he
      cases he
      rw [if_neg (Ne.symm hc), newlines_eq_self hcs]

theorem normalizeRequirement_normalizeRequirement (value : String) :
    normalizeRequirement (normalizeRequirement value) = normalizeRequirement value := by
  have hsubset : ∀ {s : String} {c : Char}, c ∈ (trim s).toList → c ∈ s.toList := by
    intro s c hc
    unfold trim at hc
    rw [String.toList_ofList] at hc
    have hstart := trimEndChars_prefix (s.toList.dropWhile isJsSpace)
    exact (dropWhile_sublist _).subset (hstart.subset hc)
  have hplain : '\r' ∉ (normalizeRequirement value).toList := by
    intro hin
    have hin' := hsubset hin
    rw [String.toList_ofList] at hin'
    exact return_notMem_newlines _ hin'
  calc normalizeRequirement (normalizeRequirement value)
      = trim (String.ofList (newlines (normalizeRequirement value).toList)) := rfl
    _ = trim (normalizeRequirement value) := by rw [newlines_eq_self hplain, String.ofList_toList]
    _ = normalizeRequirement value := trim_trim _

/-! ### Memories and candidates -/

structure Memory where
  id : String
  timeline : ℕ
  userId : String
  sessionId : Option String
  projectId : Option String
  status : String
  memoryValue : String
  /-- `internal_info.work_topic`, `requirement`, `reason` and `trajectory_hash`. -/
  workTopic : Option String
  requirement : Option String
  reason : Option String
  trajectoryHash : Option String
  contentHash : String
  version : ℕ
  createdAt : ℕ
  updatedAt : ℕ
  isDeleted : Bool := false
  deriving DecidableEq

def workTopicFromMemory (m : Memory) : String := (m.workTopic.map normalizeWorkTopic).getD ""

def topicFromMemory (m : Memory) : String :=
  if workTopicFromMemory m = "" then "Work requirements" else workTopicFromMemory m

def requirementFromMemory (m : Memory) : String := (m.requirement.map normalizeRequirement).getD ""

def reasonFromMemory (m : Memory) : String := (m.reason.map normalizeRequirement).getD ""

/-- What the model is shown of a memory. -/
def textOf (m : Memory) : String × String × String :=
  (workTopicFromMemory m, requirementFromMemory m, reasonFromMemory m)

structure Candidate where
  requirement : String
  reason : String

/-- A candidate, and the memories it may match. -/
structure Item where
  candidate : Candidate
  matches_ : List Memory

/-! ### The prompt -/

def newRef (i : ℕ) : String := "new_" ++ Nat.repr (i + 1)

def existingRef (i : ℕ) : String := "existing_" ++ Nat.repr (i + 1)

/-- The memories that are shown, in the order in which the candidates name them. -/
def pool (items : List Item) : List Memory := ofList (fun m : Memory => m.id) (items.flatMap fun item => item.matches_)

/-- `existing`: the label and the memory. -/
def existing (items : List Item) : List (String × Memory) :=
  (pool items).zipIdx.map fun p => (existingRef p.2, p.1)

/-- `existingByRef.get(label)`: the memory that is shown under a label. -/
def shown (items : List Item) (label : String) : Option Memory :=
  ((existing items).find? fun e => e.1 = label).map fun e => e.2

/-- `refById.get(id)` -/
def refById (items : List Item) (id : String) : Option String :=
  ((existing items).find? fun e => e.2.id = id).map fun e => e.1

/-- `candidate_refs` of a candidate. -/
def candidateRefs (items : List Item) (item : Item) : List String :=
  item.matches_.filterMap fun m => refById items m.id

/-- The candidate of a label: `inputByRef`, `candidateByRef` and `matchesByRef`. -/
def itemByRef (items : List Item) (candidateRef : String) : Option Item :=
  (items.zipIdx.find? fun p => newRef p.2 = candidateRef).map fun p => p.1

/-! ### The output of the model -/

inductive Action where
  | create
  | merge
  deriving DecidableEq

structure Decision where
  candidateRef : String
  action : Action
  matchedMemoryRef : Option String
  workTopic : String
  mergedRequirement : Option String := none
  mergedReason : Option String := none
  deriving DecidableEq

def text? (fields : JsonObject) (key : String) : Option String :=
  match fields.get? key with
  | some (.str s) => some s
  | _ => none

def allowedKeys (action : Option String) : List String :=
  if action = some "merge" then
    ["action", "candidate_ref", "matched_memory_ref", "merged_reason", "merged_requirement", "work_topic"]
  else ["action", "candidate_ref", "matched_memory_ref", "work_topic"]

/-- `candidate_ref`, with its candidate. -/
def candidateOf (items : List Item) (seen : List String) (fields : JsonObject) : Except String (String × Item) :=
  match text? fields "candidate_ref" with
  | none => .error "invalid work memory candidate_ref"
  | some candidateRef =>
    match itemByRef items candidateRef with
    | none => .error "invalid work memory candidate_ref"
    | some item =>
      if candidateRef ∈ seen then .error "invalid work memory candidate_ref" else .ok (candidateRef, item)

/-- `matched_memory_ref` -/
def matchedOf (fields : JsonObject) : Except String (Option String) :=
  match fields.get? "matched_memory_ref" with
  | some .null => .ok none
  | some (.str s) => .ok (some s)
  | _ => .error "invalid work memory matched_memory_ref"

def mergeTarget (items : List Item) (item : Item) (matched : Option String) : Except String (String × Memory) :=
  match matched.filter fun label => label ≠ "" && (candidateRefs items item).contains label with
  | none => .error "merge target is not a candidate"
  | some label =>
    match shown items label with
    | none => .error "merge target is not a candidate"
    | some memory => .ok (label, memory)

def mergedText (fields : JsonObject) (key : String) : String := ((text? fields key).map normalizeRequirement).getD ""

def mergeDecision (items : List Item) (item : Item) (candidateRef workTopic : String) (matched : Option String)
    (fields : JsonObject) : Except String Decision := do
  let (label, memory) ← mergeTarget items item matched
  throwIf (workTopic ≠ workTopicFromMemory memory) "merge decision must reuse the existing work topic"
  let requirement := mergedText fields "merged_requirement"
  let reason := mergedText fields "merged_reason"
  throwIf (requirement = "" ∨ reason = "") "merge decision requires merged text"
  pure
    { candidateRef := candidateRef
      action := .merge
      matchedMemoryRef := some label
      workTopic := workTopic
      mergedRequirement := some requirement
      mergedReason := some reason }

def createDecision (candidateRef workTopic : String) (matched : Option String) : Except String Decision := do
  throwIf (matched ≠ none) "create decision must not match an existing memory"
  pure
    { candidateRef := candidateRef
      action := .create
      matchedMemoryRef := none
      workTopic := workTopic }

def validateDecision (items : List Item) (seen : List String) (fields : JsonObject) : Except String Decision := do
  let action := text? fields "action"
  throwIf ((fields.keys.any fun key => key ∉ allowedKeys action) = true) "invalid work memory decision fields"
  let (candidateRef, item) ← candidateOf items seen fields
  throwIf (action ≠ some "create" ∧ action ≠ some "merge") "invalid work memory action"
  let matched ← matchedOf fields
  let workTopic := ((text? fields "work_topic").map normalizeWorkTopic).getD ""
  throwIf (workTopic = "") "work memory topic must be non-empty"
  if action = some "create" then createDecision candidateRef workTopic matched
  else mergeDecision items item candidateRef workTopic matched fields

/-- The decisions of an output, with the candidates that have been seen. -/
def validateDecisions (items : List Item) : List String → List Json → Except String (List Decision)
  | _, [] => .ok []
  | seen, value :: rest =>
    match value with
    | .obj fields => do
      let decision ← validateDecision items seen fields
      let decisions ← validateDecisions items (decision.candidateRef :: seen) rest
      pure (decision :: decisions)
    | _ => .error "invalid work memory decision"

def validateDecisionOutput (value : Json) (items : List Item) : Except String (List Decision) :=
  match value with
  | .obj [("decisions", .arr decisions)] =>
    if decisions.length ≠ items.length then .error "work memory decision count mismatch"
    else validateDecisions items [] decisions
  | _ => .error "invalid work memory decision output"

/-! ### The write -/

/-- The memories by their ids, the deleted ones included. -/
abbrev Db : Type := List Memory

def row (db : Db) (id : String) : Option Memory := get? (fun m : Memory => m.id) db id

/-- `memories.get` -/
def getMemory (db : Db) (id : String) : Option Memory := (row db id).filter fun m => !m.isDeleted

/-- What a write is given from outside: new ids and the time, for each candidate, and the hash. -/
structure Surroundings where
  newId : String → String
  now : String → ℕ
  stableHash : String → String

structure SourceJob where
  userId : String
  sessionId : Option String

/-- `memoryRefById.get(id)`, as the write builds it. -/
def memoryRefById (items : List Item) : List (String × String) :=
  (items.flatMap fun item => item.matches_).foldl
    (fun refs m => if refs.any fun r => r.1 = m.id then refs else refs ++ [(m.id, existingRef refs.length)]) []

/-- The row that `writeMemory` saves. -/
def memoryOf (w : Surroundings) (job : SourceJob) (projectId : Option String) (trajectoryHash candidateRef : String)
    (existing : Option Memory) (topic requirement reason : String) : Memory where
  id := (existing.map fun m => m.id).getD (w.newId candidateRef)
  timeline := (existing.map fun m => m.timeline).getD (w.now candidateRef)
  userId := (existing.map fun m => m.userId).getD job.userId
  sessionId := (existing.bind fun m => m.sessionId).or job.sessionId
  projectId := projectId.filter fun id => id ≠ ""
  status := "activated"
  memoryValue := canonicalWorkMemoryText topic requirement reason
  workTopic := some topic
  requirement := some requirement
  reason := some reason
  trajectoryHash := some trajectoryHash
  contentHash := w.stableHash (canonicalWorkMemoryText topic requirement reason)
  version := (existing.map fun m => m.version).getD 1
  createdAt := (existing.map fun m => m.createdAt).getD (w.now candidateRef)
  updatedAt := w.now candidateRef

/-- `memories.update` -/
def updateMemory (memory : Memory) (db : Db) : Except String (Db × Memory) :=
  match getMemory db memory.id with
  | none => .error s!"memory not found: {memory.id}"
  | some _ =>
    let updated := { memory with version := memory.version + 1 }
    .ok (set (fun m => m.id) db updated, updated)

/-- `memories.insert` -/
def insertMemory (memory : Memory) (db : Db) : Except String (Db × Memory) :=
  match row db memory.id with
  | some _ => .error "UNIQUE constraint failed: memories.id"
  | none => .ok (set (fun m => m.id) db memory, memory)

section Write
variable (w : Surroundings) (job : SourceJob) (projectId : Option String) (trajectoryHash : String)
  (items : List Item)

def writeMemory (candidateRef : String) (existing : Option Memory) (topic requirement reason : String) (db : Db) :
    Except String (Db × Memory) :=
  if requirement = "" ∨ reason = "" then .error "work memory requirement and reason must be non-empty"
  else
    let memory := memoryOf w job projectId trajectoryHash candidateRef existing topic requirement reason
    if existing.isSome then updateMemory memory db else insertMemory memory db

/-- The match of a decision. -/
def targetOf (item : Item) (matched : Option String) : Option Memory :=
  item.matches_.find? fun m =>
    match (memoryRefById items).find? fun r => r.1 = m.id with
    | none => false
    | some r => matched = some r.2

/-- The body of the loop. -/
def persistDecision (decision : Decision) (db : Db) : Except String (Db × Memory) :=
  match itemByRef items decision.candidateRef with
  | none => .error s!"work memory decision references unknown candidate: {decision.candidateRef}"
  | some item =>
    let topic := normalizeWorkTopic decision.workTopic
    if topic = "" then .error s!"work memory topic is empty: {decision.candidateRef}"
    else
      match decision.action with
      | .merge =>
        match targetOf items item decision.matchedMemoryRef with
        | none => .error s!"work memory merge target is not a candidate: {decision.candidateRef}"
        | some target =>
          let currentTarget := (getMemory db target.id).getD target
          writeMemory w job projectId trajectoryHash decision.candidateRef (some currentTarget)
            (topicFromMemory currentTarget)
            (normalizeRequirement (decision.mergedRequirement.getD item.candidate.requirement))
            (normalizeRequirement (decision.mergedReason.getD item.candidate.reason)) db
      | .create =>
        writeMemory w job projectId trajectoryHash decision.candidateRef none topic
          (normalizeRequirement item.candidate.requirement) (normalizeRequirement item.candidate.reason) db

/-- A decision that has been written, and the row it was written as. -/
structure Saved where
  decision : Decision
  memory : Memory

/-- The loop over the decisions. -/
def persistDecisions : List Decision → Db → Except String (Db × List Saved)
  | [], db => .ok (db, [])
  | decision :: rest, db => do
    let (db, memory) ← persistDecision w job projectId trajectoryHash items decision db
    let (db, saved) ← persistDecisions rest db
    pure (db, ⟨decision, memory⟩ :: saved)

/-- The database after the transaction; one that throws is rolled back. -/
def transaction (decisions : List Decision) (db : Db) : Db :=
  match persistDecisions w job projectId trajectoryHash items decisions db with
  | .error _ => db
  | .ok (db', _) => db'

end Write

/-! ### Labels -/

theorem existingRef_injective {i j : ℕ} (h : existingRef i = existingRef j) : i = j :=
  Nat.succ.inj (Nat.repr_injective (String.append_right_inj _ |>.mp h))

variable {fields : JsonObject} {items : List Item} {m : Memory} {label : String}

theorem mem_existing :
    (label, m) ∈ existing items ↔ ∃ i, (pool items)[i]? = some m ∧ label = existingRef i := by
  unfold existing
  rw [List.mem_map]
  constructor
  · rintro ⟨⟨x, i⟩, hp, he⟩
    obtain ⟨hlabel, rfl⟩ := Prod.mk.inj he
    exact ⟨i, mk_mem_zipIdx_iff_getElem?.mp hp, hlabel.symm⟩
  · rintro ⟨i, hi, rfl⟩
    exact ⟨(m, i), mk_mem_zipIdx_iff_getElem?.mpr hi, rfl⟩

theorem mem_of_shown (h : shown items label = some m) : (label, m) ∈ existing items := by
  obtain ⟨e, he, rfl⟩ := map_eq_some_iff.mp h
  have hlabel : e.1 = label := of_decide_eq_true (find?_some (p := fun e : String × Memory => e.1 = label) he)
  rw [← hlabel]
  exact mem_of_find?_eq_some he

/-- **A label is that of one memory.** -/
theorem shown_of_mem (h : (label, m) ∈ existing items) : shown items label = some m := by
  have hsome : ((existing items).find? fun e => e.1 = label).isSome = true :=
    find?_isSome.mpr ⟨_, h, decide_eq_true rfl⟩
  obtain ⟨e, he⟩ := isSome_iff_exists.mp hsome
  have hshown : shown items label = some e.2 := by
    unfold shown
    rw [he]
    rfl
  obtain ⟨i, hi, hlabel⟩ := mem_existing.mp h
  obtain ⟨j, hj, hlabel'⟩ := mem_existing.mp (mem_of_shown hshown)
  obtain rfl := existingRef_injective (hlabel.symm.trans hlabel')
  rw [hshown, ← hj, hi]

theorem eq_of_shown {label' : String} {m' : Memory} (h : shown items label = some m)
    (h' : shown items label' = some m') (hid : m.id = m'.id) : label = label' ∧ m = m' := by
  obtain ⟨i, hi, rfl⟩ := mem_existing.mp (mem_of_shown h)
  obtain ⟨j, hj, rfl⟩ := mem_existing.mp (mem_of_shown h')
  have hnodup : ((pool items).map fun m => m.id).Nodup := nodup_ofList _
  have hij : i = j := by
    have hi' : ((pool items).map fun m => m.id)[i]? = some m.id := by rw [getElem?_map, hi]; rfl
    have hj' : ((pool items).map fun m => m.id)[j]? = some m.id := by rw [getElem?_map, hj, hid]; rfl
    obtain ⟨hlt, -⟩ := List.getElem?_eq_some_iff.mp hi'
    exact (getElem?_inj hlt hnodup).mp (hi'.trans hj'.symm)
  subst hij
  exact ⟨rfl, some.inj (hi.symm.trans hj)⟩

theorem mem_pool_of_shown (h : shown items label = some m) : m ∈ pool items := by
  obtain ⟨i, hi, -⟩ := mem_existing.mp (mem_of_shown h)
  exact mem_of_getElem? hi

/-- The labels by the ids, as a list of ids numbers them. -/
def labels (ids : List String) : List (String × String) := ids.zipIdx.map fun p => (p.1, existingRef p.2)

/-- **The labels of the write** are those of the prompt. -/
theorem memoryRefById_eq (items : List Item) :
    memoryRefById items = (existing items).map fun e => (e.2.id, e.1) := by
  have hfold : ∀ (l known : List Memory),
      l.foldl (fun refs m => if refs.any fun r => r.1 = m.id then refs else refs ++ [(m.id, existingRef refs.length)])
          (labels (known.map fun m => m.id)) =
        labels ((l.foldl (set fun m : Memory => m.id) known).map fun m => m.id) := by
    intro l
    induction l with
    | nil => exact fun known => rfl
    | cons m l ih =>
      intro known
      rw [foldl_cons, foldl_cons, ← ih]
      congr 1
      have hany : ((labels (known.map fun m => m.id)).any fun r => r.1 = m.id) =
          known.any fun x => x.id = m.id := by
        have hfst : (labels (known.map fun m => m.id)).map (fun r => r.1) = known.map fun m => m.id := by
          unfold labels
          rw [List.map_map]
          exact zipIdx_map_fst 0 _
        have hboth := congrArg (fun ids : List String => ids.any fun id => id = m.id) hfst
        simpa [List.any_map, Function.comp_def] using hboth
      rw [hany]
      unfold Lib.KeyMap.set
      by_cases hknown : (known.any fun x => x.id = m.id) = true
      · rw [if_pos hknown, if_pos hknown, List.map_map]
        congr 1
        refine map_congr_left fun x _ => ?_
        rw [Function.comp_apply]
        split_ifs with hid
        · exact hid
        · rfl
      · rw [if_neg hknown, if_neg hknown]
        unfold labels
        rw [map_append, map_singleton, zipIdx_append, map_append]
        simp
  have hids := hfold (items.flatMap fun item => item.matches_) []
  have hpool : (existing items).map (fun e => (e.2.id, e.1)) = labels ((pool items).map fun m => m.id) := by
    unfold existing labels
    rw [List.map_map, zipIdx_map, List.map_map]
    rfl
  rw [hpool]
  exact hids

/-- **The match of a decision** is the memory that was shown under its label. -/
theorem targetOf_some {item : Item} {matched : Option String} (h : targetOf items item matched = some m) :
    ∃ label s, matched = some label ∧ shown items label = some s ∧ s.id = m.id := by
  have hfound := find?_some h
  rw [memoryRefById_eq] at hfound
  split at hfound
  · cases hfound
  · rename_i r hr
    obtain ⟨e, he, rfl⟩ := mem_map.mp (mem_of_find?_eq_some hr)
    have hid := find?_some hr
    exact ⟨e.1, e.2, of_decide_eq_true hfound, shown_of_mem he, of_decide_eq_true hid⟩

/-! ### Accepted outputs -/

/-- A decision that the check has accepted. -/
structure Accepted (items : List Item) (d : Decision) : Prop where
  candidate : ∃ item, itemByRef items d.candidateRef = some item
  topic : d.workTopic ≠ ""
  merged : d.action = .merge →
    ∃ requirement reason, d.mergedRequirement = some (normalizeRequirement requirement) ∧
      d.mergedReason = some (normalizeRequirement reason)

theorem mergedText_ne {key : String} (h : mergedText fields key ≠ "") :
    ∃ value, mergedText fields key = normalizeRequirement value := by
  unfold mergedText at h ⊢
  cases htext : text? fields key with
  | none =>
    rw [htext] at h
    exact absurd rfl h
  | some value => exact ⟨value, rfl⟩

variable {seen : List String}

theorem candidateOf_ok {candidateRef : String}
    {item : Item} (h : candidateOf items seen fields = .ok (candidateRef, item)) :
    itemByRef items candidateRef = some item ∧ candidateRef ∉ seen := by
  unfold candidateOf at h
  cases htext : text? fields "candidate_ref" with
  | none =>
    rw [htext] at h
    cases h
  | some found =>
    rw [htext] at h
    dsimp only at h
    cases hitem : itemByRef items found with
    | none =>
      rw [hitem] at h
      cases h
    | some x =>
      rw [hitem] at h
      dsimp only at h
      by_cases hseen : found ∈ seen
      · rw [if_pos hseen] at h
        cases h
      · rw [if_neg hseen] at h
        cases h
        exact ⟨hitem, hseen⟩

theorem validateDecision_ok {d : Decision}
    (h : validateDecision items seen fields = .ok d) : Accepted items d ∧ d.candidateRef ∉ seen := by
  obtain ⟨_, -, h⟩ := bind_eq_ok.mp h
  obtain ⟨⟨candidateRef, item⟩, hcandidate, h⟩ := bind_eq_ok.mp h
  obtain ⟨hitem, hseen⟩ := candidateOf_ok hcandidate
  obtain ⟨_, -, h⟩ := bind_eq_ok.mp h
  obtain ⟨matched, -, h⟩ := bind_eq_ok.mp h
  obtain ⟨_, htopic, h⟩ := bind_eq_ok.mp h
  rw [throwIf_eq_ok] at htopic
  by_cases hcreate : text? fields "action" = some "create"
  · rw [if_pos hcreate] at h
    obtain ⟨_, -, h⟩ := bind_eq_ok.mp h
    cases h
    exact ⟨⟨⟨item, hitem⟩, htopic, fun hmerge => by cases hmerge⟩, hseen⟩
  · rw [if_neg hcreate] at h
    obtain ⟨⟨label, memory⟩, -, h⟩ := bind_eq_ok.mp h
    obtain ⟨_, -, h⟩ := bind_eq_ok.mp h
    obtain ⟨_, htexts, h⟩ := bind_eq_ok.mp h
    rw [throwIf_eq_ok, not_or] at htexts
    cases h
    obtain ⟨requirement, hrequirement⟩ := mergedText_ne htexts.1
    obtain ⟨reason, hreason⟩ := mergedText_ne htexts.2
    exact ⟨⟨⟨item, hitem⟩, htopic, fun _ => ⟨requirement, reason, congrArg some hrequirement, congrArg some hreason⟩⟩,
      hseen⟩

theorem validateDecisions_ok : ∀ {values : List Json} {seen : List String} {ds : List Decision},
    validateDecisions items seen values = .ok ds →
      ds.length = values.length ∧ (ds.map fun d => d.candidateRef).Nodup ∧
        ∀ d ∈ ds, Accepted items d ∧ d.candidateRef ∉ seen
  | [], seen, ds, h => by
    obtain rfl : [] = ds := Except.ok.inj h
    exact ⟨rfl, nodup_nil, fun d hd => absurd hd not_mem_nil⟩
  | value :: rest, seen, ds, h => by
    cases value with
    | obj fields =>
      obtain ⟨d, hd, h⟩ := bind_eq_ok.mp h
      obtain ⟨ds', hrest, h⟩ := bind_eq_ok.mp h
      cases h
      obtain ⟨hlen, hnodup, hall⟩ := validateDecisions_ok hrest
      obtain ⟨haccepted, hseen⟩ := validateDecision_ok hd
      refine ⟨by rw [length_cons, length_cons, hlen], ?_, ?_⟩
      · rw [map_cons, nodup_cons]
        refine ⟨fun hmem => ?_, hnodup⟩
        obtain ⟨d', hd', hsame⟩ := mem_map.mp hmem
        exact (hall d' hd').2 (hsame ▸ mem_cons_self)
      · rw [forall_mem_cons]
        exact ⟨⟨haccepted, hseen⟩, fun d' hd' =>
          ⟨(hall d' hd').1, fun hin => (hall d' hd').2 (mem_cons_of_mem _ hin)⟩⟩
    | _ => cases h

/-- **An accepted output** has one decision for each candidate. -/
theorem validateDecisionOutput_ok {value : Json} {ds : List Decision}
    (h : validateDecisionOutput value items = .ok ds) :
    (∀ d ∈ ds, Accepted items d) ∧ (ds.map fun d => d.candidateRef).Perm ((List.range items.length).map newRef) := by
  unfold validateDecisionOutput at h
  split at h
  · rename_i decisions
    by_cases hlen : decisions.length ≠ items.length
    · rw [if_pos hlen] at h
      cases h
    · rw [if_neg hlen] at h
      obtain ⟨hlength, hnodup, hall⟩ := validateDecisions_ok h
      refine ⟨fun d hd => (hall d hd).1, ?_⟩
      have hsubset : (ds.map fun d => d.candidateRef) ⊆ (List.range items.length).map newRef := by
        intro ref href
        obtain ⟨d, hd, rfl⟩ := mem_map.mp href
        obtain ⟨item, hitem⟩ := (hall d hd).1.candidate
        obtain ⟨p, hp, -⟩ := map_eq_some_iff.mp hitem
        have href' := find?_some hp
        obtain ⟨-, hlt, -⟩ := mem_zipIdx (mem_of_find?_eq_some hp)
        refine mem_map.mpr ⟨p.2, mem_range.mpr (by omega), of_decide_eq_true href'⟩
      refine (subperm_of_subset hnodup hsubset).perm_of_length_le ?_
      rw [length_map, length_map, length_range, hlength]
      exact Nat.le_of_eq (not_not.mp hlen).symm
  · cases h

/-! ### One write -/

section
variable {w : Surroundings} {job : SourceJob} {projectId : Option String} {trajectoryHash : String}
  {items : List Item} {m : Memory} {db db' : Db}

theorem row_set (db : Db) (m : Memory) (id : String) :
    row (set (fun m => m.id) db m) id = if m.id = id then some m else row db id := get?_set db m id

def writtenText (items : List Item) (d : Decision) : Option (String × String) :=
  (itemByRef items d.candidateRef).map fun item =>
    match d.action with
    | .merge =>
      (normalizeRequirement (d.mergedRequirement.getD item.candidate.requirement),
        normalizeRequirement (d.mergedReason.getD item.candidate.reason))
    | .create => (normalizeRequirement item.candidate.requirement, normalizeRequirement item.candidate.reason)

/-- What a memory holds of a decision. -/
def contentOf (m : Memory) : Option (String × String) :=
  m.requirement.bind fun requirement => m.reason.map fun reason => (requirement, reason)

/-- A decision has been written as a row: a new one, or the next version of the one that was shown. -/
structure Wrote (w : Surroundings) (items : List Item) (d : Decision) (db db' : Db) (m : Memory) : Prop where
  after : db' = set (fun m => m.id) db m
  content : contentOf m = writtenText items d
  created : d.action = .create → m.id = w.newId d.candidateRef ∧ row db m.id = none
  merged : d.action = .merge → ∃ label s cur, d.matchedMemoryRef = some label ∧ shown items label = some s ∧
    s.id = m.id ∧ row db m.id = some cur ∧ cur.version < m.version

theorem insertMemory_ok {m' : Memory} (h : insertMemory m db = .ok (db', m')) :
    m' = m ∧ db' = set (fun m => m.id) db m ∧ row db m.id = none := by
  unfold insertMemory at h
  cases hrow : row db m.id with
  | some x =>
    rw [hrow] at h
    cases h
  | none =>
    rw [hrow] at h
    cases h
    exact ⟨rfl, rfl, rfl⟩

theorem updateMemory_ok {m' : Memory} (h : updateMemory m db = .ok (db', m')) :
    m' = { m with version := m.version + 1 } ∧ db' = set (fun m => m.id) db m' ∧
      ∃ cur, getMemory db m.id = some cur := by
  unfold updateMemory at h
  cases hrow : getMemory db m.id with
  | none =>
    rw [hrow] at h
    cases h
  | some cur =>
    rw [hrow] at h
    cases h
    exact ⟨rfl, rfl, cur, rfl⟩

theorem writeMemory_ok {candidateRef topic requirement reason : String} {existing : Option Memory}
    (h : writeMemory w job projectId trajectoryHash candidateRef existing topic requirement reason db = .ok (db', m)) :
    db' = set (fun m => m.id) db m ∧ contentOf m = some (requirement, reason) ∧
      match existing with
      | none => m.id = w.newId candidateRef ∧ row db m.id = none
      | some cur => m.id = cur.id ∧ m.version = cur.version + 1 ∧ ∃ live, getMemory db cur.id = some live := by
  unfold writeMemory at h
  by_cases hempty : requirement = "" ∨ reason = ""
  · rw [if_pos hempty] at h
    cases h
  · rw [if_neg hempty] at h
    cases existing with
    | none =>
      obtain ⟨rfl, hdb, hrow⟩ := insertMemory_ok h
      exact ⟨hdb, rfl, rfl, hrow⟩
    | some cur =>
      obtain ⟨rfl, hdb, hlive⟩ := updateMemory_ok h
      exact ⟨hdb, rfl, rfl, rfl, hlive⟩

theorem id_of_getMemory {id : String} (h : getMemory db id = some m) : m.id = id ∧ row db id = some m := by
  have hrow := (filter_eq_some_iff.mp h).1
  exact ⟨key_of_get? hrow, hrow⟩

theorem persistDecision_ok {d : Decision}
    (h : persistDecision w job projectId trajectoryHash items d db = .ok (db', m)) : Wrote w items d db db' m := by
  unfold persistDecision at h
  cases hitem : itemByRef items d.candidateRef with
  | none =>
    rw [hitem] at h
    cases h
  | some item =>
    rw [hitem] at h
    dsimp only at h
    by_cases htopic : normalizeWorkTopic d.workTopic = ""
    · rw [if_pos htopic] at h
      cases h
    · rw [if_neg htopic] at h
      cases haction : d.action with
      | create =>
        rw [haction] at h
        obtain ⟨hdb, hcontent, hid, hrow⟩ := writeMemory_ok h
        refine ⟨hdb, ?_, fun _ => ⟨hid, hrow⟩, fun hmerge => absurd (haction.symm.trans hmerge) (by decide)⟩
        unfold writtenText
        rw [hcontent, hitem, map_some, haction]
      | merge =>
        rw [haction] at h
        cases htarget : targetOf items item d.matchedMemoryRef with
        | none =>
          rw [htarget] at h
          cases h
        | some target =>
          rw [htarget] at h
          obtain ⟨hdb, hcontent, hid, hversion, live, hlive⟩ := writeMemory_ok h
          have hcur : ((getMemory db target.id).getD target).id = target.id := by
            cases hget : getMemory db target.id with
            | none => rfl
            | some x => exact (id_of_getMemory hget).1
          rw [hcur] at hlive hid
          rw [hlive, getD_some] at hversion
          obtain ⟨label, s, hmatched, hshown, hsame⟩ := targetOf_some htarget
          refine ⟨hdb, ?_, fun hcreate => absurd (haction.symm.trans hcreate) (by decide), fun _ =>
            ⟨label, s, live, hmatched, hshown, hsame.trans hid.symm, ?_, by omega⟩⟩
          · unfold writtenText
            rw [hcontent, hitem, map_some, haction]
          · rw [hid]
            exact (id_of_getMemory hlive).2

/-- The rows that a write leaves. -/
theorem Wrote.grows {d : Decision} (h : Wrote w items d db db' m) {id : String}
    {x : Memory} (hx : row db id = some x) : ∃ y, row db' id = some y ∧ x.version ≤ y.version := by
  rw [h.after, row_set]
  by_cases hid : m.id = id
  · rw [if_pos hid]
    refine ⟨m, rfl, ?_⟩
    cases haction : d.action with
    | create =>
      have hnone := (h.created haction).2
      rw [hid, hx] at hnone
      cases hnone
    | merge =>
      obtain ⟨label, s, cur, -, -, -, hcur, hversion⟩ := h.merged haction
      rw [hid, hx] at hcur
      obtain rfl := some.inj hcur
      exact Nat.le_of_lt hversion
  · rw [if_neg hid]
    exact ⟨x, hx, Nat.le_refl _⟩

structure Writes (w : Surroundings) (items : List Item) (db db' : Db) (saved : List Saved) : Prop where
  last : ∀ id, (∀ s ∈ saved, s.memory.id ≠ id) ∧ row db' id = row db id ∨
    ∃ s ∈ saved, s.memory.id = id ∧ row db' id = some s.memory
  grows : ∀ id x, row db id = some x → ∃ y, row db' id = some y ∧ x.version ≤ y.version
  after : ∀ s ∈ saved, ∃ y, row db' s.memory.id = some y ∧ s.memory.version ≤ y.version
  content : ∀ s ∈ saved, contentOf s.memory = writtenText items s.decision
  created : ∀ s ∈ saved, s.decision.action = .create →
    s.memory.id = w.newId s.decision.candidateRef ∧ row db s.memory.id = none
  merged : ∀ s ∈ saved, s.decision.action = .merge → ∃ label x, s.decision.matchedMemoryRef = some label ∧
    shown items label = some x ∧ x.id = s.memory.id ∧ ∀ m, row db x.id = some m → m.version < s.memory.version
  /-- A merge is into a row that was there, or that the loop has made. -/
  known : ∀ s ∈ saved, s.decision.action = .merge → (∃ m, row db s.memory.id = some m) ∨
    ∃ s' ∈ saved, s'.decision.action = .create ∧ s'.memory.id = s.memory.id
  /-- A new row is that of one decision. -/
  apart : saved.Pairwise fun s s' => s'.decision.action = .create → s.memory.id ≠ s'.memory.id

/-- **The loop over the decisions.** -/
theorem persistDecisions_ok : ∀ {ds : List Decision} {db db' : Db} {saved : List Saved},
    persistDecisions w job projectId trajectoryHash items ds db = .ok (db', saved) →
      (saved.map fun s => s.decision) = ds ∧ Writes w items db db' saved
  | [], db, db', saved, h => by
    obtain ⟨rfl, rfl⟩ := Prod.mk.inj (Except.ok.inj h)
    refine ⟨rfl, ?_, fun id x hx => ⟨x, hx, Nat.le_refl _⟩, ?_, ?_, ?_, ?_, ?_, .nil⟩
    · exact fun id => Or.inl ⟨fun s hs => absurd hs not_mem_nil, rfl⟩
    all_goals exact fun s hs => absurd hs not_mem_nil
  | d :: rest, db, db', saved, h => by
    obtain ⟨⟨db₁, m⟩, hone, h⟩ := bind_eq_ok.mp h
    obtain ⟨⟨db₂, saved'⟩, hrest, h⟩ := bind_eq_ok.mp h
    obtain ⟨rfl, rfl⟩ := Prod.mk.inj (Except.ok.inj h)
    have hw := persistDecision_ok hone
    obtain ⟨hmap, hws⟩ := persistDecisions_ok hrest
    have hself : row db₁ m.id = some m := by
      rw [hw.after, row_set, if_pos rfl]
    have hbefore : ∀ id, row db₁ id = none → row db id = none := by
      intro id hnone
      cases hrow : row db id with
      | none => rfl
      | some x =>
        obtain ⟨y, hy, -⟩ := hw.grows hrow
        rw [hnone] at hy
        cases hy
    refine ⟨by rw [map_cons, hmap], ⟨fun id => ?_, fun id x hx => ?_, ?_, ?_, ?_, ?_, ?_, ?_⟩⟩
    · rcases hws.last id with ⟨hnot, hsame⟩ | ⟨s, hs, hid, hrow⟩
      · rw [hsame, hw.after, row_set]
        by_cases hid : m.id = id
        · rw [if_pos hid]
          exact Or.inr ⟨⟨d, m⟩, mem_cons_self, hid, rfl⟩
        · rw [if_neg hid]
          exact Or.inl ⟨forall_mem_cons.mpr ⟨hid, hnot⟩, rfl⟩
      · exact Or.inr ⟨s, mem_cons_of_mem _ hs, hid, hrow⟩
    · obtain ⟨y, hy, hxy⟩ := hw.grows hx
      obtain ⟨z, hz, hyz⟩ := hws.grows id y hy
      exact ⟨z, hz, Nat.le_trans hxy hyz⟩
    · exact forall_mem_cons.mpr ⟨hws.grows _ _ hself, hws.after⟩
    · exact forall_mem_cons.mpr ⟨hw.content, hws.content⟩
    · refine forall_mem_cons.mpr ⟨hw.created, fun s hs hcreate => ?_⟩
      obtain ⟨hid, hnone⟩ := hws.created s hs hcreate
      exact ⟨hid, hbefore _ hnone⟩
    · refine forall_mem_cons.mpr ⟨fun hmerge => ?_, fun s hs hmerge => ?_⟩
      · obtain ⟨label, x, cur, hmatched, hshown, hid, hcur, hversion⟩ := hw.merged hmerge
        refine ⟨label, x, hmatched, hshown, hid, fun m' hm' => ?_⟩
        rw [hid, hcur] at hm'
        obtain rfl := some.inj hm'
        exact hversion
      · obtain ⟨label, x, hmatched, hshown, hid, hversion⟩ := hws.merged s hs hmerge
        refine ⟨label, x, hmatched, hshown, hid, fun m' hm' => ?_⟩
        obtain ⟨y, hy, hle⟩ := hw.grows hm'
        exact Nat.lt_of_le_of_lt hle (hversion y hy)
    · refine forall_mem_cons.mpr ⟨fun hmerge => ?_, fun s hs hmerge => ?_⟩
      · obtain ⟨-, -, cur, -, -, -, hcur, -⟩ := hw.merged hmerge
        exact Or.inl ⟨cur, hcur⟩
      · rcases hws.known s hs hmerge with ⟨m', hm'⟩ | ⟨s', hs', hcreate, hid⟩
        · rw [hw.after, row_set] at hm'
          by_cases hid : m.id = s.memory.id
          · cases haction : d.action with
            | create => exact Or.inr ⟨⟨d, m⟩, mem_cons_self, haction, hid⟩
            | merge =>
              obtain ⟨-, -, cur, -, -, -, hcur, -⟩ := hw.merged haction
              exact Or.inl ⟨cur, hid ▸ hcur⟩
          · rw [if_neg hid] at hm'
            exact Or.inl ⟨m', hm'⟩
        · exact Or.inr ⟨s', mem_cons_of_mem _ hs', hcreate, hid⟩
    · refine pairwise_cons.mpr ⟨fun s hs hcreate hid => ?_, hws.apart⟩
      obtain ⟨-, hnone⟩ := hws.created s hs hcreate
      rw [← hid, hself] at hnone
      cases hnone

end

/-! ### A whole output -/

/-- What the write of an accepted output should do. -/
structure Persisted (w : Surroundings) (items : List Item) (decisions : List Decision) (db db' : Db)
    (saved : List Saved) : Prop where
  /-- Every decision is applied. -/
  each : (saved.map fun s => s.decision) = decisions
  /-- Every candidate has one outcome. -/
  once : (saved.map fun s => s.decision.candidateRef).Perm ((List.range items.length).map newRef)
  /-- A row that changes is that of the memory that was shown under the label of a decision. -/
  only : ∀ id m, row db id = some m → row db' id ≠ some m → ∃ d ∈ decisions, ∃ label x, d.action = .merge ∧
    d.matchedMemoryRef = some label ∧ shown items label = some x ∧ x.id = id
  /-- A new row is that of a decision to create. -/
  added : ∀ id, row db id = none → row db' id ≠ none → ∃ d ∈ decisions, d.action = .create ∧
    w.newId d.candidateRef = id
  /-- No decision is written over by another one. -/
  kept : ∀ s ∈ saved, ∃ m, row db' s.memory.id = some m ∧ contentOf m = contentOf s.memory

/-- A row that changes had the text that the model has seen. -/
def AsShown (items : List Item) (decisions : List Decision) (db db' : Db) : Prop :=
  ∀ id m, row db id = some m → row db' id ≠ some m → ∃ d ∈ decisions, ∃ label x, d.action = .merge ∧
    d.matchedMemoryRef = some label ∧ shown items label = some x ∧ x.id = id ∧ textOf m = textOf x

/-- Merges into one memory have one text. -/
def OneText (decisions : List Decision) : Prop :=
  ∀ d ∈ decisions, ∀ d' ∈ decisions, d.action = .merge → d'.action = .merge →
    d.matchedMemoryRef = d'.matchedMemoryRef →
    d.mergedRequirement = d'.mergedRequirement ∧ d.mergedReason = d'.mergedReason

/-- The memories that the decisions refer to have the text that the model has seen. -/
def Unchanged (items : List Item) (decisions : List Decision) (db : Db) : Prop :=
  ∀ d ∈ decisions, d.action = .merge → ∀ label x m, d.matchedMemoryRef = some label → shown items label = some x →
    row db x.id = some m → textOf m = textOf x

section
variable {w : Surroundings} {job : SourceJob} {projectId : Option String} {trajectoryHash : String}
  {items : List Item} {decisions : List Decision} {db db' : Db} {saved : List Saved}

theorem writtenText_merge {d : Decision} (h : Accepted items d) (hmerge : d.action = .merge) :
    ∃ requirement reason, d.mergedRequirement = some requirement ∧ d.mergedReason = some reason ∧
      writtenText items d = some (requirement, reason) := by
  obtain ⟨requirement, reason, hrequirement, hreason⟩ := h.merged hmerge
  obtain ⟨item, hitem⟩ := h.candidate
  refine ⟨_, _, hrequirement, hreason, ?_⟩
  unfold writtenText
  rw [hitem, map_some, hmerge, hrequirement, hreason]
  simp only [getD_some, normalizeRequirement_normalizeRequirement]

/-- **No decision is written over** exactly if merges into one memory have one text. -/
theorem kept_iff (haccepted : ∀ d ∈ decisions, Accepted items d)
    (hfresh : ∀ candidateRef, ∀ m ∈ pool items, w.newId candidateRef ≠ m.id)
    (hmap : (saved.map fun s => s.decision) = decisions) (hws : Writes w items db db' saved) :
    (∀ s ∈ saved, ∃ m, row db' s.memory.id = some m ∧ contentOf m = contentOf s.memory) ↔ OneText decisions := by
  have hmem : ∀ s ∈ saved, s.decision ∈ decisions := by
    intro s hs
    rw [← hmap]
    exact mem_map_of_mem hs
  constructor
  · intro hkept d hd d' hd' hmerge hmerge' hsame
    rw [← hmap] at hd hd'
    obtain ⟨s, hs, rfl⟩ := mem_map.mp hd
    obtain ⟨s', hs', rfl⟩ := mem_map.mp hd'
    obtain ⟨label, x, hlabel, hshown, hid, -⟩ := hws.merged s hs hmerge
    obtain ⟨label', x', hlabel', hshown', hid', -⟩ := hws.merged s' hs' hmerge'
    have hids : s.memory.id = s'.memory.id := by
      rw [hsame, hlabel'] at hlabel
      obtain rfl := some.inj hlabel
      rw [hshown] at hshown'
      rw [← hid, ← hid', some.inj hshown']
    obtain ⟨m, hm, hcontent⟩ := hkept s hs
    obtain ⟨m', hm', hcontent'⟩ := hkept s' hs'
    rw [hids, hm'] at hm
    obtain rfl := some.inj hm
    obtain ⟨r, q, hr, hq, htext⟩ := writtenText_merge (haccepted _ (hmem s hs)) hmerge
    obtain ⟨r', q', hr', hq', htext'⟩ := writtenText_merge (haccepted _ (hmem s' hs')) hmerge'
    rw [hws.content s hs, htext] at hcontent
    rw [hws.content s' hs', htext', hcontent] at hcontent'
    obtain ⟨rfl, rfl⟩ := Prod.mk.inj (some.inj hcontent')
    exact ⟨hr.trans hr'.symm, hq.trans hq'.symm⟩
  · intro hone s hs
    rcases hws.last s.memory.id with ⟨hnot, -⟩ | ⟨s', hs', hid, hrow⟩
    · exact absurd rfl (hnot s hs)
    · refine ⟨s'.memory, hrow, ?_⟩
      by_cases heq : s' = s
      · rw [heq]
      · rw [hws.content s' hs', hws.content s hs]
        -- Two decisions of one row are merges under one label.
        have hapart : ∀ a ∈ saved, ∀ b ∈ saved, a ≠ b → a.memory.id = b.memory.id → b.decision.action = .merge := by
          intro a ha b hb hab hids
          cases haction : b.decision.action with
          | merge => rfl
          | create =>
            exfalso
            rcases pairwise_or hws.apart ha hb hab with h | h
            · exact h haction hids
            · cases haction' : a.decision.action with
              | create => exact h haction' hids.symm
              | merge =>
                obtain ⟨label, x, -, hshown, hid, -⟩ := hws.merged a ha haction'
                refine hfresh b.decision.candidateRef x (mem_pool_of_shown hshown) ?_
                rw [← (hws.created b hb haction).1, hid, hids]
        have hmerge := hapart s' hs' s hs heq hid
        have hmerge' := hapart s hs s' hs' (Ne.symm heq) hid.symm
        obtain ⟨label, x, hlabel, hshown, hx, -⟩ := hws.merged s hs hmerge
        obtain ⟨label', x', hlabel', hshown', hx', -⟩ := hws.merged s' hs' hmerge'
        obtain ⟨rfl, -⟩ := eq_of_shown hshown hshown' (by rw [hx, hx', hid])
        obtain ⟨hr, hq⟩ := hone _ (hmem s' hs') _ (hmem s hs) hmerge' hmerge (hlabel'.trans hlabel.symm)
        obtain ⟨r, q, hsr, hsq, htext⟩ := writtenText_merge (haccepted _ (hmem s hs)) hmerge
        obtain ⟨r', q', hsr', hsq', htext'⟩ := writtenText_merge (haccepted _ (hmem s' hs')) hmerge'
        rw [hsr, hsr'] at hr
        rw [hsq, hsq'] at hq
        rw [htext, htext', some.inj hr, some.inj hq]

theorem changed_of_ne (hws : Writes w items db db' saved) {id : String} (hm : row db id = some m)
    (hne : row db' id ≠ some m) : ∃ s ∈ saved, s.memory.id = id ∧ s.decision.action = .merge := by
  rcases hws.last id with ⟨-, hsame⟩ | ⟨s, hs, hid, -⟩
  · exact absurd (hsame.trans hm) hne
  · refine ⟨s, hs, hid, ?_⟩
    cases haction : s.decision.action with
    | merge => rfl
    | create =>
      have hnone := (hws.created s hs haction).2
      rw [hid, hm] at hnone
      cases hnone

/-- **Every memory is changed as it was shown** exactly if none has been changed since. -/
theorem asShown_iff (hmap : (saved.map fun s => s.decision) = decisions) (hws : Writes w items db db' saved) :
    AsShown items decisions db db' ↔ Unchanged items decisions db := by
  constructor
  · intro hall d hd hmerge label x m hlabel hshown hm
    rw [← hmap] at hd
    obtain ⟨s, hs, rfl⟩ := mem_map.mp hd
    obtain ⟨label', x', hlabel', hshown', hid, hversion⟩ := hws.merged s hs hmerge
    rw [hlabel] at hlabel'
    obtain rfl := some.inj hlabel'
    rw [hshown] at hshown'
    obtain rfl := some.inj hshown'
    have hlt := hversion m hm
    have hne : row db' x.id ≠ some m := by
      intro hsame
      obtain ⟨y, hy, hle⟩ := hws.after s hs
      rw [← hid, hsame] at hy
      obtain rfl := some.inj hy
      omega
    obtain ⟨d, -, other, x', -, -, hx', hid', htext⟩ := hall x.id m hm hne
    rw [htext, (eq_of_shown hx' hshown hid').2]
  · intro hall id m hm hne
    obtain ⟨s, hs, rfl, hmerge⟩ := changed_of_ne hws hm hne
    obtain ⟨label, x, hlabel, hshown, hid, -⟩ := hws.merged s hs hmerge
    have hd : s.decision ∈ decisions := by
      rw [← hmap]
      exact mem_map_of_mem hs
    exact ⟨s.decision, hd, label, x, hmerge, hlabel, hshown, hid,
      hall _ hd hmerge label x m hlabel hshown (hid ▸ hm)⟩

/-- **The write of an accepted output.** It is made as a whole or not at all; no decision is written over exactly if
merges into one memory have one text, and every memory is changed as it was shown exactly if none has been changed
since. -/
theorem persisted_iff {value : Json} (hvalid : validateDecisionOutput value items = .ok decisions)
    (hfresh : ∀ candidateRef, ∀ m ∈ pool items, w.newId candidateRef ≠ m.id) :
    ((∃ e, persistDecisions w job projectId trajectoryHash items decisions db = .error e) ∧
        transaction w job projectId trajectoryHash items decisions db = db) ∨
      ∃ db' saved, persistDecisions w job projectId trajectoryHash items decisions db = .ok (db', saved) ∧
        transaction w job projectId trajectoryHash items decisions db = db' ∧
        (Persisted w items decisions db db' saved ↔ OneText decisions) ∧
        (Persisted w items decisions db db' saved ∧ AsShown items decisions db db' ↔
          OneText decisions ∧ Unchanged items decisions db) := by
  obtain ⟨haccepted, hperm⟩ := validateDecisionOutput_ok hvalid
  have htransaction : transaction w job projectId trajectoryHash items decisions db =
      match persistDecisions w job projectId trajectoryHash items decisions db with
      | .error _ => db
      | .ok (db', _) => db' := rfl
  cases hrun : persistDecisions w job projectId trajectoryHash items decisions db with
  | error e =>
    rw [hrun] at htransaction
    exact Or.inl ⟨⟨e, rfl⟩, htransaction⟩
  | ok result =>
    obtain ⟨db', saved⟩ := result
    rw [hrun] at htransaction
    obtain ⟨hmap, hws⟩ := persistDecisions_ok hrun
    have hkept := kept_iff haccepted hfresh hmap hws
    have hmem : ∀ s ∈ saved, s.decision ∈ decisions := by
      intro s hs
      rw [← hmap]
      exact mem_map_of_mem hs
    have hpersisted : Persisted w items decisions db db' saved ↔ OneText decisions := by
      refine ⟨fun h => hkept.mp h.kept, fun h => ⟨hmap, ?_, ?_, ?_, hkept.mpr h⟩⟩
      · have hrefs : (saved.map fun s => s.decision.candidateRef) = decisions.map fun d => d.candidateRef := by
          rw [← hmap, List.map_map]
          rfl
        rw [hrefs]
        exact hperm
      · intro id m hm hne
        obtain ⟨s, hs, rfl, hmerge⟩ := changed_of_ne hws hm hne
        obtain ⟨label, x, hlabel, hshown, hid, -⟩ := hws.merged s hs hmerge
        exact ⟨s.decision, hmem s hs, label, x, hmerge, hlabel, hshown, hid⟩
      · intro id hnone hsome
        rcases hws.last id with ⟨-, hsame⟩ | ⟨s, hs, rfl, -⟩
        · exact absurd (hsame.trans hnone) hsome
        · cases haction : s.decision.action with
          | create => exact ⟨s.decision, hmem s hs, haction, (hws.created s hs haction).1.symm⟩
          | merge =>
            rcases hws.known s hs haction with ⟨m, hm⟩ | ⟨s', hs', hcreate, hid⟩
            · rw [hnone] at hm
              cases hm
            · exact ⟨s'.decision, hmem s' hs', hcreate, (hws.created s' hs' hcreate).1.symm.trans hid⟩
    exact Or.inr ⟨db', saved, rfl, htransaction, hpersisted, and_congr hpersisted (asShown_iff hmap hws)⟩

end

/-! ### One memory, and the candidates for it -/

def plainSurroundings : Surroundings where
  newId := fun candidateRef => "memory_" ++ candidateRef
  now := fun _ => 7
  stableHash := id

def styleMemory : Memory where
  id := "m"
  timeline := 1
  userId := "u"
  sessionId := none
  projectId := none
  status := "activated"
  memoryValue := "Work topic: style"
  workTopic := some "style"
  requirement := some "tabs"
  reason := some "habit"
  trajectoryHash := none
  contentHash := "h"
  version := 1
  createdAt := 1
  updatedAt := 1

/-- `n` candidates that may match the memory. -/
def styleItems (n : ℕ) : List Item := List.replicate n ⟨⟨"indent", "order"⟩, [styleMemory]⟩

def mergeJson (i : ℕ) (requirement : String) : Json :=
  .obj [("candidate_ref", .str (newRef i)), ("action", .str "merge"), ("matched_memory_ref", .str "existing_1"),
    ("work_topic", .str "style"), ("merged_requirement", .str requirement), ("merged_reason", .str "order")]

def mergeOf (i : ℕ) (requirement : String) : Decision where
  candidateRef := newRef i
  action := .merge
  matchedMemoryRef := some "existing_1"
  workTopic := "style"
  mergedRequirement := some requirement
  mergedReason := some "order"

/-- A merge into the memory as it was shown. -/
theorem persisted_iff_style : ∃ db' saved,
    persistDecisions plainSurroundings ⟨"u", none⟩ none "t" (styleItems 1) [mergeOf 0 "tabs"] [styleMemory] =
        .ok (db', saved) ∧
      Persisted plainSurroundings (styleItems 1) [mergeOf 0 "tabs"] [styleMemory] db' saved ∧
      AsShown (styleItems 1) [mergeOf 0 "tabs"] [styleMemory] db' := by
  have hvalid : validateDecisionOutput (.obj [("decisions", .arr [mergeJson 0 "tabs"])]) (styleItems 1) =
      .ok [mergeOf 0 "tabs"] := by
    decide +kernel
  have hfresh : ∀ candidateRef, ∀ m ∈ pool (styleItems 1), plainSurroundings.newId candidateRef ≠ m.id := by
    intro candidateRef m hm hid
    obtain rfl : m = styleMemory := by simpa [pool, styleItems] using mem_of_mem_ofList hm
    have hlen : ("memory_" ++ candidateRef).length = "m".length := congrArg String.length hid
    rw [String.length_append] at hlen
    have hlong : "memory_".length = 7 := rfl
    have hshort : "m".length = 1 := rfl
    omega
  have hone : OneText [mergeOf 0 "tabs"] := by
    intro d hd d' hd' _ _ _
    rw [mem_singleton.mp hd, mem_singleton.mp hd']
    exact ⟨rfl, rfl⟩
  have hunchanged : Unchanged (styleItems 1) [mergeOf 0 "tabs"] [styleMemory] := by
    intro d hd _ label x m _ hshown hm
    obtain rfl : x = styleMemory := by
      simpa [pool, styleItems] using mem_of_mem_ofList (mem_pool_of_shown hshown)
    have hrow : row [styleMemory] styleMemory.id = some styleMemory := by decide
    rw [some.inj (hrow.symm.trans hm)]
  rcases @persisted_iff plainSurroundings ⟨"u", none⟩ none "t" (styleItems 1) [mergeOf 0 "tabs"] [styleMemory] _ hvalid
    hfresh with ⟨⟨e, he⟩, -⟩ | ⟨db', saved, hrun, -, -, hiff⟩
  · have hok : (persistDecisions plainSurroundings ⟨"u", none⟩ none "t" (styleItems 1) [mergeOf 0 "tabs"]
        [styleMemory]).isOk = true := by
      decide +kernel
    rw [he] at hok
    cases hok
  · exact ⟨db', saved, hrun, hiff.mpr ⟨hone, hunchanged⟩⟩

/-- The rows and the contents that two merges write, and the content of the memory after them. -/
def styleRun (first second : String) :
    Option (List (String × Option (String × String)) × Option (String × String)) :=
  match persistDecisions plainSurroundings ⟨"u", none⟩ none "t" (styleItems 2) [mergeOf 0 first, mergeOf 1 second]
    [styleMemory] with
  | .error _ => none
  | .ok (db', saved) => some (saved.map fun s => (s.memory.id, contentOf s.memory), (row db' "m").bind contentOf)

/-- Two candidates merge into one memory: the text of the first is lost. -/
theorem not_persisted_twice :
    validateDecisionOutput (.obj [("decisions", .arr [mergeJson 0 "tabs", mergeJson 1 "names"])]) (styleItems 2) =
        .ok [mergeOf 0 "tabs", mergeOf 1 "names"] ∧
      ∃ db' saved, persistDecisions plainSurroundings ⟨"u", none⟩ none "t" (styleItems 2)
          [mergeOf 0 "tabs", mergeOf 1 "names"] [styleMemory] = .ok (db', saved) ∧
        ¬ Persisted plainSurroundings (styleItems 2) [mergeOf 0 "tabs", mergeOf 1 "names"] [styleMemory] db'
          saved := by
  refine ⟨by decide +kernel, ?_⟩
  have hrun : styleRun "tabs" "names" =
      some ([("m", some ("tabs", "order")), ("m", some ("names", "order"))], some ("names", "order")) := by
    decide +kernel
  unfold styleRun at hrun
  split at hrun
  · cases hrun
  · rename_i db' saved hok
    refine ⟨db', saved, hok, fun h => ?_⟩
    obtain ⟨hsaved, hafter⟩ := Prod.mk.inj (some.inj hrun)
    have hfirst : ("m", some ("tabs", "order")) ∈ saved.map fun s => (s.memory.id, contentOf s.memory) := by
      rw [hsaved]
      exact mem_cons_self
    obtain ⟨s, hs, hsame⟩ := mem_map.mp hfirst
    obtain ⟨hid, hcontent⟩ := Prod.mk.inj hsame
    obtain ⟨m, hm, hkept⟩ := h.kept s hs
    rw [hid] at hm
    rw [hm, bind_some, hkept, hcontent] at hafter
    exact absurd hafter (by decide)

end Memmy.WorkMemory.Decisions
