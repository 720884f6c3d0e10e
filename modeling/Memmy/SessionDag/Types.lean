import Memmy.Goal.State
import Memmy.Lib.JsonValue

/-! # Data of the session graph

The tasks of a session and the steps below them form a directed graph. A turn of the session is folded
into it by a patch, a list of operations that add nodes, update nodes and add edges; in a patch a new
node has a temporary id. Times are milliseconds. -/

namespace Memmy.SessionDag.Types

open Goal.State Lib.JsonValue Lib.Text

inductive DagNodeKind where
  | task
  | subtask
  | decision
  deriving DecidableEq, Repr

inductive DagNodeStatus where
  | active
  | done
  | failed
  | blocked
  | frozen
  deriving DecidableEq, Repr

inductive DagEdgeType where
  | decomposes
  | continues
  | blocks
  | supersedes
  | sideBranch
  deriving DecidableEq, Repr

inductive DagBuildMode where
  | llmPatch
  | deterministicFallback
  deriving DecidableEq, Repr

inductive DagWriteSource where
  | llmPatch
  | deterministicFallback
  | repair
  deriving DecidableEq, Repr

inductive DagTurnStatus where
  | pending
  | running
  | retry
  | done
  | blocked
  deriving DecidableEq, Repr

inductive DagSourceRefType where
  | file
  | artifact
  | url
  deriving DecidableEq, Repr

def DagNodeKind.text : DagNodeKind → String
  | task => "task"
  | subtask => "subtask"
  | decision => "decision"

def DagNodeStatus.text : DagNodeStatus → String
  | active => "active"
  | done => "done"
  | failed => "failed"
  | blocked => "blocked"
  | frozen => "frozen"

def DagEdgeType.text : DagEdgeType → String
  | decomposes => "decomposes"
  | continues => "continues"
  | blocks => "blocks"
  | supersedes => "supersedes"
  | sideBranch => "side_branch"

def DagSourceRefType.text : DagSourceRefType → String
  | file => "file"
  | artifact => "artifact"
  | url => "url"

/-- `NODE_KINDS`. -/
def nodeKinds : List DagNodeKind := [.task, .subtask, .decision]

/-- `NODE_STATUSES`. -/
def nodeStatuses : List DagNodeStatus := [.active, .done, .failed, .blocked, .frozen]

/-- `EDGE_TYPES`. -/
def edgeTypes : List DagEdgeType := [.decomposes, .continues, .blocks, .supersedes, .sideBranch]

/-- `SOURCE_REF_TYPES`. -/
def sourceRefTypes : List DagSourceRefType := [.file, .artifact, .url]

/-- A node, or a task of it, that is still worked on. -/
def DagNodeStatus.isOpen (s : DagNodeStatus) : Bool := s = active || s = blocked

structure DagGoalContext where
  goalId : String
  objective : String
  status : GoalStatus
  deriving DecidableEq, Repr

structure DagSourceRef where
  type : DagSourceRefType
  title : String
  turnId : Option String := none
  path : Option String := none
  line : Option ℤ := none
  artifactPath : Option String := none
  url : Option String := none
  deriving DecidableEq, Repr

structure DagNode where
  id : String
  sessionKey : String
  kind : DagNodeKind
  status : DagNodeStatus
  title : String
  summary : String
  detailJson : JsonObject
  importance : ℚ
  createdTurnId : Option String
  updatedTurnId : Option String
  firstMessageIndex : ℤ
  lastMessageIndex : ℤ
  sourceRefs : List DagSourceRef
  createdBy : DagWriteSource
  updatedBy : DagWriteSource
  createdAt : ℕ
  updatedAt : ℕ
  goalId : Option String

structure DagEdge where
  id : String
  sourceId : String
  targetId : String
  type : DagEdgeType
  createdTurnId : Option String
  createdBy : DagWriteSource
  createdAt : ℕ
  deriving DecidableEq, Repr

structure DagPathSelection where
  nodeIds : List String
  edgeIds : List String
  deriving DecidableEq, Repr

structure DagTurn where
  turnId : String
  messageStart : ℤ
  messageEnd : ℤ
  userText : String
  assistantText : String
  createdAt : ℕ
  updatedAt : ℕ
  dagStatus : DagTurnStatus
  buildMode : Option DagBuildMode := none
  attemptCount : ℕ := 0
  runningStartedAt : Option ℕ := none
  nextRetryAt : Option ℕ := none
  lastError : Option String := none
  processedAt : Option ℕ := none
  goalId : Option String
  goalObjective : Option String
  goalStatus : Option GoalStatus
  deriving DecidableEq, Repr

structure DagTurnInput where
  turnId : String
  messageStart : JsNumber
  messageEnd : JsNumber
  userText : Option String := none
  assistantText : Option String := none
  goalContext : Option DagGoalContext := none
  deriving DecidableEq

structure DagSnapshotRecord where
  id : String
  turnId : Option String
  snapshotText : String
  snapshotJson : JsonObject
  tokenEstimate : ℕ
  createdAt : ℕ

structure DagGraph where
  sessionKey : String
  nodes : List DagNode
  edges : List DagEdge
  activePathNodeIds : List String
  activePathEdgeIds : List String
  snapshotText : String

structure DagContextNode where
  id : String
  kind : DagNodeKind
  status : DagNodeStatus
  title : String
  summary : String
  importance : ℚ
  createdBy : DagWriteSource
  updatedBy : DagWriteSource
  sourceRefs : List DagSourceRef
  updatedTurnId : Option String
  firstMessageIndex : ℤ
  lastMessageIndex : ℤ
  goalId : Option String

structure DagContextEdge where
  sourceId : String
  targetId : String
  type : DagEdgeType
  deriving DecidableEq, Repr

structure DagContextPathEdge where
  id : String
  sourceId : String
  targetId : String
  type : DagEdgeType
  deriving DecidableEq, Repr

structure DagBuilderContext where
  rootTaskId : Option String := none
  nodes : List DagContextNode := []
  edges : List DagContextEdge := []
  activePath : List String := []
  activePathEdges : List DagContextPathEdge := []

/-! ### Patches -/

structure AddNodePatchOp where
  tempId : String
  kind : DagNodeKind
  status : DagNodeStatus
  title : String
  summary : String
  importance : JsNumber
  detailJson : Option JsonObject := none
  sourceRefs : Option (List DagSourceRef) := none

structure UpdateNodePatchOp where
  nodeId : String
  title : Option String := none
  summary : Option String := none
  status : Option DagNodeStatus := none
  importance : Option JsNumber := none
  detailJson : Option JsonObject := none
  sourceRefs : Option (List DagSourceRef) := none

structure AddEdgePatchOp where
  sourceId : String
  targetId : String
  type : DagEdgeType
  deriving DecidableEq, Repr

inductive DagPatchOp where
  | addNode (op : AddNodePatchOp)
  | updateNode (op : UpdateNodePatchOp)
  | addEdge (op : AddEdgePatchOp)

abbrev DagPatch : Type := List DagPatchOp

namespace DagPatchOp

def addNode? : DagPatchOp → Option AddNodePatchOp
  | addNode op => some op
  | _ => none

def updateNode? : DagPatchOp → Option UpdateNodePatchOp
  | updateNode op => some op
  | _ => none

def addEdge? : DagPatchOp → Option AddEdgePatchOp
  | addEdge op => some op
  | _ => none

/-- The operation adds a task. -/
def addedTask? : DagPatchOp → Option AddNodePatchOp
  | addNode op => if op.kind = .task then some op else none
  | _ => none

end DagPatchOp

/-! ### Importance -/

/-- `Math.round` of a finite number. -/
def mathRound (q : ℚ) : ℤ := ⌊q + 1 / 2⌋

def normalizeImportance : JsNumber → Option ℕ
  | .finite q =>
    let rounded := mathRound q
    if rounded < 0 ∨ 100 < rounded then none else some rounded.toNat
  | _ => none

def fallbackImportance (kind : DagNodeKind) (status : DagNodeStatus) : ℕ :=
  if kind = .task then if status = .done then 70 else 80
  else if status = .blocked then 65
  else 50

end Memmy.SessionDag.Types
