import Memmy.Lib.Result
import Memmy.SessionDag.Types

/-! # Checking and completing a patch

`validateDagPatch` reads a patch that a model wrote: unknown fields, kinds and ids are refused, and new
nodes have the temporary ids `n0`, `n1`, … in order. `normalizeDagTaskTransition` then completes a
patch that adds a task: it closes the root task and connects it with the new one, from what the patch
says about either.

An exception is its message. -/

namespace Memmy.SessionDag.PatchSchema

open Lib.JsonValue Lib.Result Lib.Text SessionDag.Types

/-! ### Fields of a raw object -/

def text? (value : Option Json) : Option String := value.bind Json.str?

def stringOrNull (value : Option Json) : Option String :=
  match text? value with
  | some s => if trim s = "" then none else some (trim s)
  | none => none

def boundedString (value : Option Json) (maxLength : ℕ) : Option String :=
  match text? value with
  | some s =>
    if trim s = "" then none
    else if maxLength < utf16Length (trim s) then some (trimEnd (sliceUtf16 (trim s) maxLength))
    else some (trim s)
  | none => none

def integerOrNull : Option Json → Option ℤ
  | some (.num (.finite q)) => if q.den = 1 then some q.num else none
  | _ => none

mutual

/-- `isJsonValue`: every number in it is finite. -/
def isJsonValue : Json → Bool
  | .num (.finite _) => true
  | .num _ => false
  | .arr items => areJsonValues items
  | .obj fields => fieldsAreJsonValues fields
  | _ => true

def areJsonValues : List Json → Bool
  | [] => true
  | j :: js => isJsonValue j && areJsonValues js

def fieldsAreJsonValues : List (String × Json) → Bool
  | [] => true
  | (_, j) :: fields => isJsonValue j && fieldsAreJsonValues fields

end

/-- `DETAIL_KEYS`. -/
def detailKeys : DagNodeKind → List String
  | .task => ["scope", "acceptance", "constraints", "result"]
  | .subtask => ["tool", "commands", "tests", "errors", "result"]
  | .decision => ["basis", "alternatives", "supersedes"]

def sanitizeDetailJson (kind : DagNodeKind) (detail : Option Json) : JsonObject :=
  match detail.bind Json.record? with
  | some entries =>
    entries.foldl
      (fun out entry =>
        if entry.1 ∈ detailKeys kind ∧ isJsonValue entry.2 then out.set entry.1 entry.2 else out)
      []
  | none => []

/-- The key of a reference: its type and where it points. -/
def sourceRefKey (ref : DagSourceRef) : String :=
  String.intercalate "\u0000"
    [ref.type.text, ref.path.getD "", (ref.line.map toString).getD "", ref.artifactPath.getD "",
      ref.url.getD ""]

/-- The loop of `dedupeSourceRefs`. -/
def dedupeFrom : List String → List DagSourceRef → List DagSourceRef
  | _, [] => []
  | seen, ref :: refs =>
    if sourceRefKey ref ∈ seen then dedupeFrom seen refs
    else ref :: dedupeFrom (sourceRefKey ref :: seen) refs

def dedupeSourceRefs (refs : List DagSourceRef) : List DagSourceRef := dedupeFrom [] refs

/-- `a ?? b`, for texts of which the empty one does not occur. -/
def sanitizeSourceRef (turnId : Option String) (item : JsonObject) : Option DagSourceRef := do
  let typeText ← stringOrNull (item.get? "type")
  let type ← sourceRefTypes.find? fun t => t.text = typeText
  let title ← boundedString (item.get? "title") 120
  let explicitTurnId :=
    (boundedString (item.get? "turn_id") 120).or (boundedString (item.get? "turnId") 120)
  let line := (integerOrNull (item.get? "line")).filter (0 < ·)
  let ref : DagSourceRef :=
    { type := type, title := title, line := line
      turnId := explicitTurnId.or (turnId.filter (· ≠ "")) }
  match type with
  | .file => do
    let path ← boundedString (item.get? "path") 1000
    pure { ref with path := some path }
  | .artifact => do
    let artifactPath ← (boundedString (item.get? "artifact_path") 1000).or
      (boundedString (item.get? "artifactPath") 1000)
    pure { ref with artifactPath := some artifactPath }
  | .url => do
    let url ← boundedString (item.get? "url") 2000
    pure { ref with url := some url }

def sanitizeSourceRefs (input : Option Json) (turnId : Option String) : List DagSourceRef :=
  match input with
  | some (.arr items) =>
    dedupeSourceRefs (items.filterMap fun item => item.record?.bind (sanitizeSourceRef turnId))
  | _ => []

/-- A reference as the object it is. -/
def sourceRefJson (ref : DagSourceRef) : Json :=
  .obj <| [("type", .str ref.type.text), ("title", .str ref.title)] ++
    (ref.turnId.toList.map fun s => ("turn_id", .str s)) ++
    (ref.line.toList.map fun n => ("line", .num (.finite n))) ++
    (ref.path.toList.map fun s => ("path", .str s)) ++
    (ref.artifactPath.toList.map fun s => ("artifact_path", .str s)) ++
    (ref.url.toList.map fun s => ("url", .str s))

/-! ### The operations of a raw patch -/

section Fields
variable (raw : JsonObject) (index : ℕ)

def rejectUnknownKeys (allowed : List String) : Except String Unit :=
  match raw.keys.find? (· ∉ allowed) with
  | some key => .error s!"DAG patch op {index} has unsupported field {key}"
  | none => .ok ()

def rejectUnknownTopLevelKeys : Except String Unit :=
  match raw.keys.find? (· ≠ "ops") with
  | some key => .error s!"DAG patch has unsupported top-level field {key}"
  | none => .ok ()

def enumField {β : Type} (field : String) (values : List β) (text : β → String) : Except String β :=
  match (text? (raw.get? field)).bind fun s => values.find? fun v => text v = s with
  | some v => .ok v
  | none => .error s!"DAG patch op {index} {field} is invalid"

def requiredBoundedString (field : String) (maxLength : ℕ) : Except String String :=
  match boundedString (raw.get? field) maxLength with
  | some s => .ok s
  | none => .error s!"DAG patch op {index} {field} must be a non-empty string"

/-- `TEMP_ID_PATTERN`. -/
def isTempId (s : String) : Bool :=
  match s.toList with
  | 'n' :: d :: ds => (d = '0' && ds.isEmpty) || ('1' ≤ d && d ≤ '9' && ds.all Char.isDigit)
  | _ => false

def requiredTempId (expectedTempId : String) : Except String String := do
  let out ← requiredBoundedString raw index "temp_id" 80
  throwIf (isTempId out = false ∨ out ≠ expectedTempId)
    s!"DAG patch op {index} temp_id must be {expectedTempId}"
  pure out

def importanceField : Except String JsNumber :=
  match raw.get? "importance" with
  | some (.num n) =>
    match normalizeImportance n with
    | some importance => .ok (.finite importance)
    | none => .error s!"DAG patch op {index} importance must be 0..100"
  | _ => .error s!"DAG patch op {index} importance must be 0..100"

/-- `ADD_NODE_KEYS`. -/
def addNodeKeys : List String :=
  ["op", "temp_id", "kind", "status", "title", "summary", "importance", "detail_json", "source_refs"]

/-- `UPDATE_NODE_KEYS`. -/
def updateNodeKeys : List String :=
  ["op", "node_id", "title", "summary", "status", "importance", "detail_json", "source_refs"]

/-- `ADD_EDGE_KEYS`. -/
def addEdgeKeys : List String := ["op", "source_id", "target_id", "type"]

def validateAddNode (expectedTempId : String) : Except String AddNodePatchOp := do
  rejectUnknownKeys raw index addNodeKeys
  let kind ← enumField raw index "kind" nodeKinds DagNodeKind.text
  let status ← enumField raw index "status" nodeStatuses DagNodeStatus.text
  throwIf (kind = .task ∧ status.isOpen = false)
    s!"DAG patch op {index} task add_node status must be active or blocked"
  let importance ← importanceField raw index
  let sourceRefs := sanitizeSourceRefs (raw.get? "source_refs") none
  throwIf (kind = .task ∧ sourceRefs ≠ []) "task nodes cannot include source_refs"
  let tempId ← requiredTempId raw index expectedTempId
  let title ← requiredBoundedString raw index "title" 120
  let summary ← requiredBoundedString raw index "summary" 1000
  pure {
    tempId := tempId
    kind := kind
    status := status
    title := title
    summary := summary
    importance := importance
    detailJson := some (sanitizeDetailJson kind (raw.get? "detail_json"))
    sourceRefs := some sourceRefs }

/-- `if (field in raw) value = read()`. -/
def optionalField {β : Type} (field : String) (read : Except String β) : Except String (Option β) :=
  if raw.has field then (fun v => some v) <$> read else .ok none

abbrev ContextKinds : Type := List (String × DagNodeKind)

def validateUpdateNode (contextNodeKinds : ContextKinds) : Except String UpdateNodePatchOp := do
  rejectUnknownKeys raw index updateNodeKeys
  let nodeId ← requiredBoundedString raw index "node_id" 120
  -- a name that is no node of the context is refused by the caller
  let kind := contextNodeKinds.lookup nodeId
  let title ← optionalField raw "title" (requiredBoundedString raw index "title" 120)
  let summary ← optionalField raw "summary" (requiredBoundedString raw index "summary" 1000)
  let status ← optionalField raw "status"
    (enumField raw index "status" nodeStatuses DagNodeStatus.text)
  let importance ← optionalField raw "importance" (importanceField raw index)
  let detailJson := if raw.has "detail_json" then
    some ((kind.map fun k => sanitizeDetailJson k (raw.get? "detail_json")).getD []) else none
  let sourceRefs := sanitizeSourceRefs (raw.get? "source_refs") none
  throwIf (raw.has "source_refs" ∧ kind = some .task ∧ sourceRefs ≠ [])
    "task nodes cannot include source_refs"
  throwIf (title.isNone ∧ summary.isNone ∧ status.isNone ∧ importance.isNone ∧ detailJson.isNone ∧
      ¬ raw.has "source_refs")
    s!"DAG patch op {index} update_node has no updates"
  pure {
    nodeId := nodeId
    title := title
    summary := summary
    status := status
    importance := importance
    detailJson := detailJson
    sourceRefs := if raw.has "source_refs" then some sourceRefs else none }

def validateAddEdge (tempKinds contextNodeKinds : ContextKinds) : Except String AddEdgePatchOp := do
  rejectUnknownKeys raw index addEdgeKeys
  let sourceId ← requiredBoundedString raw index "source_id" 120
  let targetId ← requiredBoundedString raw index "target_id" 120
  let kindOf := fun id => (tempKinds.lookup id).or (contextNodeKinds.lookup id)
  throwIf (sourceId = targetId) s!"DAG patch op {index} creates a self edge"
  throwIf (kindOf sourceId = none) s!"DAG patch op {index} source_id is unknown"
  throwIf (kindOf targetId = none) s!"DAG patch op {index} target_id is unknown"
  let type ← enumField raw index "type" edgeTypes DagEdgeType.text
  throwIf (type = .sideBranch ∧ kindOf sourceId ≠ some .task)
    s!"DAG patch op {index} side_branch source must be a task"
  throwIf (type = .sideBranch ∧ kindOf targetId = some .task)
    s!"DAG patch op {index} side_branch target must be a subtask or decision"
  pure { sourceId := sourceId, targetId := targetId, type := type }

end Fields

structure PatchReading where
  tempKinds : ContextKinds := []
  nextTempOrdinal : ℕ := 0
  ops : DagPatch := []

/-- One operation of the loop of `validateDagPatch`. -/
def validateOp (contextNodeKinds : ContextKinds) (r : PatchReading) (rawOp : Json × ℕ) :
    Except String PatchReading :=
  match rawOp.1.record? with
  | none => .error s!"DAG patch op {rawOp.2} must be an object"
  | some raw =>
    match text? (raw.get? "op") with
    | some "add_node" => do
      let add ← validateAddNode raw rawOp.2 s!"n{r.nextTempOrdinal}"
      throwIf ((r.tempKinds.lookup add.tempId).isSome ∨ (contextNodeKinds.lookup add.tempId).isSome)
        s!"DAG patch op {rawOp.2} has duplicate temp_id"
      pure {
        tempKinds := r.tempKinds ++ [(add.tempId, add.kind)]
        nextTempOrdinal := r.nextTempOrdinal + 1
        ops := r.ops ++ [.addNode add] }
    | some "update_node" => do
      let update ← validateUpdateNode raw rawOp.2 contextNodeKinds
      throwIf ((contextNodeKinds.lookup update.nodeId).isNone)
        (if isTempId update.nodeId then
          s!"DAG patch op {rawOp.2} update_node.node_id cannot reference temp_id {update.nodeId}; use only ids from dag_context.nodes"
        else s!"DAG patch op {rawOp.2} references node outside builder context")
      pure { r with ops := r.ops ++ [.updateNode update] }
    | some "add_edge" => do
      let edge ← validateAddEdge raw rawOp.2 r.tempKinds contextNodeKinds
      pure { r with ops := r.ops ++ [.addEdge edge] }
    | _ => .error s!"DAG patch op {rawOp.2} has unsupported op"

/-- One pass over the edges: a new node behind a connected one is connected. -/
def connectPass (addedKinds : ContextKinds) (edges : List AddEdgePatchOp)
    (connected : List String) : List String :=
  edges.foldl
    (fun connected e =>
      if e.sourceId ∈ connected ∧ e.targetId ∉ connected ∧ (addedKinds.lookup e.targetId).isSome then
        e.targetId :: connected
      else connected)
    connected

/-- A pass that changes something connects the target of an edge, so one more pass than there are
edges ends where the loop does. -/
def validateAddedNodeConnectivity (ops : DagPatch) (contextNodeKinds : ContextKinds) :
    Except String Unit := do
  let added := ops.filterMap DagPatchOp.addNode?
  let addedKinds := added.map fun op => (op.tempId, op.kind)
  let edges := ops.filterMap DagPatchOp.addEdge?
  let tasks := added.filter fun op => op.kind = .task
  let connected := (connectPass addedKinds edges)^[edges.length + 1]
    (contextNodeKinds.map (·.1) ++ tasks.map (·.tempId))
  throwIf (1 < tasks.length) "DAG patch may add at most one task"
  match added.find? fun op => op.kind ≠ .task ∧ op.tempId ∉ connected with
  | some op =>
    .error s!"DAG patch add_node temp_id {op.tempId} kind {op.kind.text} must be connected by add_edge"
  | none => .ok ()

def validateDagPatch (input : Json) (contextNodeKinds : ContextKinds) : Except String DagPatch :=
  match input.record? with
  | none => .error "DAG patch must be an object"
  | some record => do
    rejectUnknownTopLevelKeys record
    match record.get? "ops" with
    | some (.arr rawOps) => do
      let r ← rawOps.zipIdx.foldlM (validateOp contextNodeKinds) {}
      validateAddedNodeConnectivity r.ops contextNodeKinds
      pure r.ops
    | _ => .error "DAG patch ops must be an array"

/-! ### The transition to a new task -/

def isTerminalTaskStatus (status : DagNodeStatus) : Bool := !status.isOpen

/-- `taskTransitionEdgeType`, and `taskTransitionTypeForStatus` of the store: `none` is their
exception. -/
def taskTransitionEdgeType : DagNodeStatus → Option DagEdgeType
  | .done | .failed => some .continues
  | .frozen => some .supersedes
  | _ => none

def mergeRootUpdates (rootTaskId : String) (updates : List UpdateNodePatchOp) : UpdateNodePatchOp :=
  updates.foldl
    (fun merged update =>
      { merged with
        title := update.title.or merged.title
        summary := update.summary.or merged.summary
        status := update.status.or merged.status
        importance := update.importance.or merged.importance
        detailJson := (update.detailJson.map fun d => (merged.detailJson.getD []).merge d).or
          merged.detailJson
        sourceRefs := (update.sourceRefs.map fun refs =>
          dedupeSourceRefs (merged.sourceRefs.getD [] ++ refs)).or merged.sourceRefs })
    { nodeId := rootTaskId }

section Normalize
variable (ops : DagPatch) (ctx : DagBuilderContext) (goal : Option DagGoalContext)

/-- `root_task_id`, as a condition sees it. -/
def rootTaskId : Option String := ctx.rootTaskId.filter (· ≠ "")

def rootTask : Option DagContextNode :=
  (rootTaskId ctx).bind fun id => ctx.nodes.find? fun n => n.id = id ∧ n.kind = .task

def addedTasks : List AddNodePatchOp := ops.filterMap DagPatchOp.addedTask?

/-- The task that the turn's goal has, if it is the root. -/
def goalRoot : Option DagContextNode :=
  match goal, rootTask ctx with
  | some g, some root => if root.goalId = some g.goalId then some root else none
  | _, _ => none

/-- Where a side branch must start. -/
def sideBranchSource : Option String :=
  match goal with
  | none => none
  | some _ =>
    match goalRoot ctx goal with
    | some root => some root.id
    | none => (addedTasks ops).head?.map (·.tempId)

def sideBranches : List AddEdgePatchOp :=
  (ops.filterMap DagPatchOp.addEdge?).filter fun e => e.type = .sideBranch

def checkSideBranches : Except String Unit :=
  let expectedSource := (sideBranchSource ops ctx goal).filter (· ≠ "")
  throwIf (∃ e ∈ sideBranches ops, expectedSource ≠ some e.sourceId)
    "side_branch must start at the current Goal task"

def updatesOf (nodeId : String) : List UpdateNodePatchOp :=
  (ops.filterMap DagPatchOp.updateNode?).filter fun op => op.nodeId = nodeId

def normalizeGoalTurn (g : DagGoalContext) (root : DagContextNode) : Except String DagPatch := do
  throwIf (addedTasks ops ≠ []) "Goal turn cannot create a second task"
  let statuses := (updatesOf ops root.id).filterMap (·.status)
  if g.status ≠ .completed then do
    throwIf (∃ s ∈ statuses, isTerminalTaskStatus s = true)
      "Unfinished Goal turn cannot close its task"
    pure ops
  else do
    throwIf (∃ s ∈ statuses, s ≠ .done) "Completed Goal turn can only close its task as done"
    if .done ∈ statuses then pure ops
    else pure (.updateNode { nodeId := root.id, status := some .done } :: ops)

/-- `nodeKind`: the kind of a node of the context or of a new node. -/
def nodeKind (id : String) : Option DagNodeKind :=
  ((ctx.nodes.reverse.find? fun n => n.id = id).map (·.kind)).or
    (((ops.filterMap DagPatchOp.addNode?).reverse.find? fun op => op.tempId = id).map (·.kind))

/-- An edge between tasks, or one to the new task. -/
def isTaskEdge (added : AddNodePatchOp) (e : AddEdgePatchOp) : Bool :=
  (nodeKind ops ctx e.sourceId = some .task && nodeKind ops ctx e.targetId = some .task) ||
    e.targetId = added.tempId

def taskEdges (added : AddNodePatchOp) : List AddEdgePatchOp :=
  (ops.filterMap DagPatchOp.addEdge?).filter (isTaskEdge ops ctx added)

/-- The status that the old root is left in. -/
def resolveStatus (root : DagContextNode) (explicitStatus : Option DagNodeStatus)
    (explicitEdgeType : Option DagEdgeType) : DagNodeStatus :=
  match explicitStatus, explicitEdgeType with
  | some status, _ => status
  | none, some type =>
    if isTerminalTaskStatus root.status then root.status
    else if type = .continues then .done else .frozen
  | none, none =>
    if isTerminalTaskStatus root.status then root.status
    else if goal.isNone ∧ root.goalId.any (· ≠ "") then .frozen
    else
      let descendants := ctx.nodes.filter fun n => n.kind ≠ .task
      if root.status = .active ∧ (∃ n ∈ descendants, n.status = .done) ∧
          ¬ ∃ n ∈ descendants, n.status.isOpen = true then .done
      else .frozen

/-- A patch that adds a task beside a root. -/
def normalizeTransition (added : AddNodePatchOp) (rootId : String) : Except String DagPatch := do
  let root ← match (ctx.nodes.find? fun n => n.id = rootId).filter fun n => n.kind = .task with
    | some n => Except.ok n
    | none => .error "DAG task transition root_task_id must reference a task in dag_context.nodes"
  let edges := taskEdges ops ctx added
  -- the loop stops at the first edge that fails either check
  match edges.find? fun e => e.sourceId ≠ rootId ∨ e.targetId ≠ added.tempId ∨
      (e.type ≠ .continues ∧ e.type ≠ .supersedes) with
  | some e =>
    if e.sourceId ≠ rootId ∨ e.targetId ≠ added.tempId then
      .error "DAG task transition must connect current root_task_id directly to the new task"
    else .error "DAG task transition edge type must be continues or supersedes"
  | none => do
    throwIf (1 < edges.length) "DAG task transition must contain exactly one task-to-task edge"
    let rootUpdates := updatesOf ops rootId
    let explicitStatuses := (rootUpdates.filterMap (·.status)).dedup
    throwIf (1 < explicitStatuses.length)
      "DAG task transition has conflicting root task status updates"
    let explicitStatus := explicitStatuses.head?
    throwIf (∃ s ∈ explicitStatus, s.isOpen = true)
      "DAG task transition must close the old root task"
    let explicitEdgeType := edges.head?.map (·.type)
    let resolvedStatus := resolveStatus ctx goal root explicitStatus explicitEdgeType
    match taskTransitionEdgeType resolvedStatus with
    | none => .error s!"DAG task transition old root status {resolvedStatus.text} is not terminal"
    | some resolvedEdgeType => do
      throwIf (∃ type ∈ explicitEdgeType, type ≠ resolvedEdgeType)
        (s!"DAG task transition status {resolvedStatus.text} conflicts with edge type " ++
          (explicitEdgeType.map DagEdgeType.text).getD "")
      let shouldWriteStatus := explicitStatus.isSome || !isTerminalTaskStatus root.status
      let merged := mergeRootUpdates rootId rootUpdates
      let rootUpdate :=
        if shouldWriteStatus then { merged with status := some resolvedStatus } else merged
      let isRootUpdate : DagPatchOp → Bool := fun op => op.updateNode?.any fun u => u.nodeId = rootId
      pure <|
        (if rootUpdates ≠ [] ∨ shouldWriteStatus then [.updateNode rootUpdate] else []) ++
        (ops.filter fun op => op.addEdge?.isNone && !isRootUpdate op) ++
        (ops.filter fun op => op.addEdge?.any fun e => !isTaskEdge ops ctx added e) ++
        [.addEdge { sourceId := rootId, targetId := added.tempId, type := resolvedEdgeType }]

def normalizeDagTaskTransition : Except String DagPatch := do
  throwIf (1 < (addedTasks ops).length) "DAG patch may add at most one task"
  checkSideBranches ops ctx goal
  match goal, goalRoot ctx goal with
  | some g, some root => normalizeGoalTurn ops g root
  | _, _ =>
    match (addedTasks ops).head?, rootTaskId ctx with
    | some added, some rootId => normalizeTransition ops ctx goal added rootId
    | _, _ => pure ops

end Normalize

end Memmy.SessionDag.PatchSchema
