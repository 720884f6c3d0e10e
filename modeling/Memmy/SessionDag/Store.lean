import Memmy.SessionDag.PatchSchema
import Memmy.SessionDag.Selection

/-! # The store of the graph

The tables of a session and the operations of `SessionDagStore` on them. `applyPatch` runs the operations
of a patch one after the other, then checks the result as a whole; an exception rolls the transaction
back. Opening the store runs `repairTaskTransitionsOnce`.

What an operation reads from outside comes with it: the times of its `new Date()` calls and the ids that
it draws (`Env`). Of the constraints of the tables only those are checked that a call can violate: the
primary keys, the range of an importance and the unique goal. The parts of a node that are stored as JSON
text are kept as the values they are. -/

namespace Memmy.SessionDag.Store

open Lib.JsonValue Lib.Reach Lib.Result Lib.Sort Lib.Text SessionDag.Types SessionDag.PatchSchema
  SessionDag.Selection

/-! ### Tables -/

structure Db where
  metaRows : List (String × String) := []
  turns : List DagTurn := []
  nodes : List DagNode := []
  edges : List DagEdge := []
  snapshots : List DagSnapshotRecord := []

/-- The times of an operation, in the order of its calls, and the ids that it draws. -/
structure Env where
  upsertNow : ℕ
  now : ℕ
  goalNow : ℕ
  doneNow : ℕ
  sortableId : ℕ → String

inductive TransitionError where
  | manyTasks
  | manyOpenTasks
  | addedTaskMissing
  | addedTaskNotOpen
  | initialTaskEdge
  | oldRootMissing
  | oldRootOpen
  | incomingEdges
  | wrongEdge
  | typeConflict (status : DagNodeStatus) (type : DagEdgeType)
  deriving DecidableEq, Repr

inductive GoalBoundaryError where
  | secondTask
  | unfinishedClosed
  | completedNotDone
  | sideBranchKind
  | sideBranchSource
  | clearedGoalTask
  | goalTaskMissing
  | manyTasks
  | switchTasks
  | newGoalNeedsTask
  | unfinishedTaskClosed
  deriving DecidableEq, Repr

inductive StoreError where
  | turnRange
  | nodeNotFound (id : String)
  | importance
  | selfLoop
  | unknownNode
  | supersedesNotFrozen
  | cycle
  | childNotReachable (kind : String) (id : String)
  | transition (e : TransitionError)
  | goalBoundary (e : GoalBoundaryError)
  | notBindable
  | constraint (name : String)
  deriving DecidableEq, Repr

def TransitionError.message : TransitionError → String
  | manyTasks => "DAG patch may add at most one task"
  | manyOpenTasks => "DAG session may contain at most one active or blocked task"
  | addedTaskMissing => "DAG added task node is missing"
  | addedTaskNotOpen => "DAG added task status must be active or blocked"
  | initialTaskEdge => "DAG initial task cannot have a task transition edge"
  | oldRootMissing => "DAG task transition old root is missing"
  | oldRootOpen => "DAG task transition old root must be done, failed, or frozen"
  | incomingEdges => "DAG task transition new task must have exactly one incoming edge"
  | wrongEdge => "DAG task transition must connect the old root directly to the new task"
  | typeConflict status type =>
    s!"DAG task transition status {status.text} conflicts with edge type {type.text}"

def GoalBoundaryError.message : GoalBoundaryError → String
  | secondTask => "Goal turn cannot create a second task"
  | unfinishedClosed => "Unfinished Goal turn cannot close its task"
  | completedNotDone => "Completed Goal turn can only close its task as done"
  | sideBranchKind => "side_branch must connect a Goal task to a child node"
  | sideBranchSource => "side_branch must start at the current Goal task"
  | clearedGoalTask => "A cleared Goal task must be frozen and superseded by the next task"
  | goalTaskMissing => "Goal turn must have one Goal task"
  | manyTasks => "Goal turn may create at most one task"
  | switchTasks => "Goal turn cannot switch tasks"
  | newGoalNeedsTask => "A new Goal must create a new task"
  | unfinishedTaskClosed => "Unfinished Goal task must remain open"

def StoreError.message : StoreError → String
  | turnRange => "invalid DAG turn message range"
  | nodeNotFound id => s!"DAG node {id} not found"
  | importance => "invalid DAG importance"
  | selfLoop => "DAG edge self-loop rejected"
  | unknownNode => "DAG edge references unknown node"
  | supersedesNotFrozen => "supersedes source node must be frozen"
  | cycle => "DAG edge would create a cycle"
  | childNotReachable kind id => s!"DAG added {kind} node {id} is not reachable from a task"
  | transition e => e.message
  | goalBoundary e => e.message
  | notBindable => "The value cannot be bound"
  | constraint name => s!"constraint failed: {name}"

/-! ### Turns and settings -/

section Turns
variable (db : Db)

def getTurn (turnId : String) : Option DagTurn := db.turns.find? fun t => t.turnId = turnId

def getMeta (key : String) : Option String := (db.metaRows.find? fun r => r.1 = key).map (·.2)

def setMeta (key value : String) : Db :=
  { db with metaRows := (key, value) :: db.metaRows.filter fun r => r.1 ≠ key }

/-- `UPDATE dag_turns SET … WHERE turn_id = ?`. -/
def updateTurn (turnId : String) (f : DagTurn → DagTurn) : Db :=
  { db with turns := db.turns.map fun t => if t.turnId = turnId then f t else t }

def integer? : JsNumber → Option ℤ
  | .finite q => if q.den = 1 then some q.num else none
  | _ => none

/-- The row of a turn that is new. -/
def newTurn (input : DagTurnInput) (start stop : ℤ) (now : ℕ) : DagTurn where
  turnId := input.turnId
  messageStart := start
  messageEnd := stop
  userText := input.userText.getD ""
  assistantText := input.assistantText.getD ""
  createdAt := now
  updatedAt := now
  dagStatus := .pending
  goalId := input.goalContext.map (·.goalId)
  goalObjective := input.goalContext.map (·.objective)
  goalStatus := input.goalContext.map (·.status)

/-- What `ON CONFLICT` overwrites. -/
def overwriteTurn (row old : DagTurn) : DagTurn :=
  { old with
    messageStart := row.messageStart
    messageEnd := row.messageEnd
    userText := row.userText
    assistantText := row.assistantText
    goalId := row.goalId
    goalObjective := row.goalObjective
    goalStatus := row.goalStatus
    updatedAt := row.updatedAt }

/-- `upsertTurn`, with the row that it returns. -/
def upsertTurn (input : DagTurnInput) (now : ℕ) : Except StoreError (Db × DagTurn) :=
  match integer? input.messageStart, integer? input.messageEnd with
  | some start, some stop =>
    if stop ≤ start then .error .turnRange
    else
      let row := newTurn input start stop now
      match getTurn db input.turnId with
      | some old => .ok (updateTurn db input.turnId (overwriteTurn row), overwriteTurn row old)
      | none => .ok ({ db with turns := db.turns ++ [row] }, row)
  | _, _ => .error .turnRange

def listTurns : List DagTurn := sortBy (ascending (·.messageStart)) db.turns

/-- The condition of `claimNextTurn`. -/
def isClaimable (now : ℕ) (t : DagTurn) : Bool :=
  match t.dagStatus with
  | .pending | .retry => t.nextRetryAt.all (· ≤ now)
  | .blocked => true
  | _ => false

/-- `UPDATE dag_turns SET dag_status='retry' … WHERE dag_status='running'`. -/
def releaseRunning (now : ℕ) : Db :=
  { db with turns := db.turns.map fun t =>
      if t.dagStatus = .running then
        { t with dagStatus := .retry, runningStartedAt := none, updatedAt := now }
      else t }

/-- `claimNextTurn`, with the turn that it returns. -/
def claimNextTurn (now : ℕ) : Db × Option DagTurn :=
  let db := releaseRunning db now
  match (listTurns db).find? (isClaimable now) with
  | none => (db, none)
  | some row =>
    let db := updateTurn db row.turnId fun t =>
      { t with dagStatus := .running, runningStartedAt := some now, updatedAt := now }
    (db, getTurn db row.turnId)

/-- `truncate(error, 2000)`. -/
def truncate (text : String) (maxChars : ℕ) : String :=
  if maxChars < utf16Length text then sliceUtf16 text maxChars else text

def markTurnRetry (turnId error : String) (nextRetryAt now : ℕ) : Db :=
  updateTurn db turnId fun t =>
    { t with
      dagStatus := .retry
      attemptCount := t.attemptCount + 1
      runningStartedAt := none
      nextRetryAt := some nextRetryAt
      lastError := some (truncate error 2000)
      updatedAt := now }

def markTurnBlocked (turnId error : String) (nextRetryAt : Option ℕ) (now : ℕ) : Db :=
  updateTurn db turnId fun t =>
    { t with
      dagStatus := .blocked
      runningStartedAt := none
      nextRetryAt := nextRetryAt
      lastError := some (truncate error 2000)
      updatedAt := now }

def markTurnDone (turnId : String) (mode : DagBuildMode) (now : ℕ) : Db :=
  setMeta
    (updateTurn db turnId fun t =>
      { t with
        dagStatus := .done
        buildMode := some mode
        runningStartedAt := none
        nextRetryAt := none
        lastError := none
        processedAt := some now
        updatedAt := now })
    "last_processed_turn_id" turnId

end Turns

/-! ### Nodes and edges -/

/-- A row as it is read: the values are cleaned again, for the turn that wrote it last. -/
def parseNodeRow (row : DagNode) : DagNode :=
  { row with
    detailJson := sanitizeDetailJson row.kind (some (.obj row.detailJson))
    sourceRefs := sanitizeSourceRefs (some (.arr (row.sourceRefs.map sourceRefJson))) row.updatedTurnId }

section Graph
variable (sessionKey : String) (db : Db)

def getNode (id : String) : Option DagNode :=
  (db.nodes.find? fun n => n.id = id ∧ n.sessionKey = sessionKey).map parseNodeRow

/-- `ORDER BY created_at ASC, id ASC`. -/
def readNodes : List DagNode :=
  sortBy (compareLex (ascending (·.createdAt)) (ascending (·.id)))
    ((db.nodes.filter fun n => n.sessionKey = sessionKey).map parseNodeRow)

def readEdges : List DagEdge := sortBy (compareLex (ascending (·.createdAt)) (ascending (·.id))) db.edges

def edgeExists (sourceId targetId : String) (type : DagEdgeType) : Bool :=
  db.edges.any fun e => e.sourceId = sourceId ∧ e.targetId = targetId ∧ e.type = type

/-- The recursive query: what is reached from the target, by one edge at least. -/
def wouldCreateCycle (sourceId targetId : String) : Bool :=
  sourceId ∈ reach (·.sourceId) (·.targetId) (fun _ => true) db.edges
    (successors (·.sourceId) (·.targetId) (fun _ => true) db.edges targetId)

def newGoalId (op : AddNodePatchOp) (goal : Option DagGoalContext) : Option String :=
  if op.kind = .task then goal.map (·.goalId) else none

/-- The row of a new node. -/
def newNode (id : String) (op : AddNodePatchOp) (turn : DagTurn) (goal : Option DagGoalContext)
    (writeSource : DagWriteSource) (now : ℕ) (importance : ℚ) : DagNode where
  id := id
  sessionKey := sessionKey
  kind := op.kind
  status := op.status
  title := op.title
  summary := op.summary
  detailJson := sanitizeDetailJson op.kind (op.detailJson.map Json.obj)
  importance := importance
  createdTurnId := some turn.turnId
  updatedTurnId := some turn.turnId
  firstMessageIndex := turn.messageStart
  lastMessageIndex := turn.messageEnd
  sourceRefs := sanitizeSourceRefs
    (op.sourceRefs.map fun refs => .arr (refs.map sourceRefJson)) (some turn.turnId)
  createdBy := writeSource
  updatedBy := writeSource
  createdAt := now
  updatedAt := now
  goalId := newGoalId op goal

def insertNode (id : String) (op : AddNodePatchOp) (turn : DagTurn) (goal : Option DagGoalContext)
    (writeSource : DagWriteSource) (now : ℕ) : Except StoreError Db :=
  match op.importance with
  | .finite importance => do
    throwIf (importance < 0 ∨ 100 < importance) (.constraint "dag_nodes.importance")
    throwIf (∃ n ∈ db.nodes, n.goalId.isSome ∧ n.goalId = newGoalId op goal) (.constraint "dag_nodes.goal_id")
    throwIf (∃ n ∈ db.nodes, n.id = id) (.constraint "dag_nodes.id")
    pure { db with
      nodes := db.nodes ++ [newNode sessionKey id op turn goal writeSource now importance] }
  | _ => .error (.constraint "dag_nodes.importance")

def updatedRow (op : UpdateNodePatchOp) (turn : DagTurn) (writeSource : DagWriteSource) (now : ℕ)
    (node : DagNode) (importance : ℚ) (row : DagNode) : DagNode :=
  { row with
    title := op.title.getD node.title
    summary := op.summary.getD node.summary
    status := op.status.getD node.status
    detailJson := match op.detailJson with
      | some detail => node.detailJson.merge (sanitizeDetailJson node.kind (some (.obj detail)))
      | none => node.detailJson
    importance := importance
    updatedTurnId := some turn.turnId
    lastMessageIndex := max row.lastMessageIndex turn.messageEnd
    sourceRefs := match op.sourceRefs with
      | some refs => dedupeSourceRefs (node.sourceRefs ++
          sanitizeSourceRefs (some (.arr (refs.map sourceRefJson))) (some turn.turnId))
      | none => node.sourceRefs
    updatedBy := writeSource
    updatedAt := now }

/-- `UPDATE dag_nodes SET … WHERE id = ?`. -/
def setNode (id : String) (f : DagNode → DagNode) : Db :=
  { db with nodes := db.nodes.map fun n => if n.id = id then f n else n }

def updateNode (op : UpdateNodePatchOp) (turn : DagTurn) (writeSource : DagWriteSource) (now : ℕ) :
    Except StoreError Db :=
  match getNode sessionKey db op.nodeId with
  | none => .error (.nodeNotFound op.nodeId)
  | some node =>
    let importance : Option ℚ := match op.importance with
      | some n => (normalizeImportance n).map fun (k : ℕ) => (k : ℚ)
      | none => some node.importance
    match importance with
    | none => .error .importance
    | some importance =>
      .ok (setNode db node.id (updatedRow op turn writeSource now node importance))

/-- The names that every object has. -/
def objectPrototypeKeys : List String :=
  ["constructor", "__defineGetter__", "__defineSetter__", "hasOwnProperty", "__lookupGetter__",
    "__lookupSetter__", "isPrototypeOf", "propertyIsEnumerable", "toString", "valueOf", "__proto__",
    "toLocaleString"]

/-- `tempNodeIds[tempId] = id`, on a plain object. -/
def setTempId (tempNodeIds : List (String × String)) (tempId id : String) : List (String × String) :=
  if tempId = "__proto__" then tempNodeIds
  else (tempId, id) :: tempNodeIds.filter fun p => p.1 ≠ tempId

/-- `tempNodeIds[id] ?? id`: an inherited property is no text and cannot be bound. -/
def resolveTempId (tempNodeIds : List (String × String)) (id : String) : Except StoreError String :=
  match tempNodeIds.lookup id with
  | some nodeId => .ok nodeId
  | none => if id ∈ objectPrototypeKeys then .error .notBindable else .ok id

/-- `insertEdge` on the ids of nodes; `none` is an edge that is there. -/
def insertResolvedEdge (id sourceId targetId : String) (type : DagEdgeType) (turnId : String)
    (writeSource : DagWriteSource) (now : ℕ) : Except StoreError (Option Db) := do
  throwIf (sourceId = targetId) .selfLoop
  throwIf ((getNode sessionKey db sourceId).isNone ∨ (getNode sessionKey db targetId).isNone)
    .unknownNode
  throwIf (type = .supersedes ∧ (getNode sessionKey db sourceId).map (·.status) ≠ some .frozen)
    .supersedesNotFrozen
  if edgeExists db sourceId targetId type then pure none
  else do
    throwIf (wouldCreateCycle db sourceId targetId = true) .cycle
    throwIf (∃ e ∈ db.edges, e.id = id) (.constraint "dag_edges.id")
    pure (some { db with edges := db.edges ++ [
      { id := id, sourceId := sourceId, targetId := targetId, type := type,
        createdTurnId := some turnId, createdBy := writeSource, createdAt := now }] })

end Graph

/-! ### Checks on the result of a patch -/

section Checks
variable (nodes : List DagNode) (edges : List DagEdge)

def reachableFromTasks : List String :=
  reach (·.sourceId) (·.targetId) (fun _ => true)
    (edges.filter fun e => (byId nodes e.sourceId).isSome ∧ (byId nodes e.targetId).isSome)
    ((tasksOf nodes).map (·.id))

def assertAddedChildNodesReachableFromTaskRoot (addedChildNodeIds : List String) :
    Except StoreError Unit :=
  match addedChildNodeIds.find? fun id => id ∉ reachableFromTasks nodes edges with
  | some id => .error
      (.childNotReachable (((byId nodes id).map (·.kind.text)).getD "child") id)
  | none => .ok ()

def assertTaskTransitionIntegrity (prePatchRootId : Option String) (addedTaskNodeIds : List String) :
    Except TransitionError Unit := do
  throwIf (1 < addedTaskNodeIds.length) .manyTasks
  throwIf (1 < (openTasks nodes).length) .manyOpenTasks
  match addedTaskNodeIds.head? with
  | none => pure ()
  | some addedTaskId =>
    match (byId nodes addedTaskId).filter fun n => n.kind = .task with
    | none => .error .addedTaskMissing
    | some addedTask => do
      throwIf (addedTask.status.isOpen = false) .addedTaskNotOpen
      let incoming := edges.filter fun e => e.targetId = addedTaskId
      match prePatchRootId with
      | none =>
        throwIf (∃ e ∈ incoming, (byId nodes e.sourceId).map (·.kind) = some .task) .initialTaskEdge
      | some rootId =>
        match (byId nodes rootId).filter fun n => n.kind = .task with
        | none => .error .oldRootMissing
        | some oldRoot =>
          match taskTransitionEdgeType oldRoot.status with
          | none => .error .oldRootOpen
          | some expectedType =>
            match incoming with
            | [transition] => do
              throwIf (transition.sourceId ≠ oldRoot.id ∨
                  (transition.type ≠ .continues ∧ transition.type ≠ .supersedes)) .wrongEdge
              throwIf (transition.type ≠ expectedType) (.typeConflict oldRoot.status transition.type)
            | _ => .error .incomingEdges

/-- What is wrong with a side branch. -/
def sideBranchError (goalTask : Option DagNode) (turnId : String) (e : DagEdge) :
    Option GoalBoundaryError :=
  let source := byId nodes e.sourceId
  let target := byId nodes e.targetId
  if (source.bind (·.goalId)).filter (· ≠ "") = none ∨ source.map (·.kind) ≠ some .task ∨
      target = none ∨ target.map (·.kind) = some .task then some .sideBranchKind
  else if e.createdTurnId = some turnId ∧ goalTask.map (·.id) ≠ some e.sourceId then
    some .sideBranchSource
  else none

/-- The checks of `assertGoalBoundary`; the result is the goal task that is then set done. -/
def assertGoalBoundary (turnId : String) (goal : Option DagGoalContext)
    (previousRoot : Option DagNode) (addedTaskNodeIds : List String) :
    Except GoalBoundaryError (Option DagNode) :=
  let goalTask := goal.bind fun g => nodes.find? fun n => n.goalId = some g.goalId
  match (edges.filter fun e => e.type = .sideBranch).findSome? (sideBranchError nodes goalTask turnId)
  with
  | some e => .error e
  | none =>
    match goal with
    | none =>
      match previousRoot, addedTaskNodeIds.head? with
      | some root, some addedId =>
        let transition := edges.any fun e =>
          e.sourceId = root.id ∧ (byId nodes addedId).map (·.id) = some e.targetId ∧ e.type = .supersedes
        if root.goalId.any (· ≠ "") ∧ root.status.isOpen = true ∧
            ((byId nodes root.id).map (·.status) ≠ some .frozen ∨ transition = false) then
          .error .clearedGoalTask
        else .ok none
      | _, _ => .ok none
    | some g =>
      match goalTask with
      | none => .error .goalTaskMissing
      | some task => do
        let rootHasGoal := previousRoot.bind (·.goalId) = some g.goalId
        throwIf (1 < addedTaskNodeIds.length) .manyTasks
        throwIf (rootHasGoal ∧ addedTaskNodeIds ≠ []) .switchTasks
        throwIf (¬ rootHasGoal ∧ addedTaskNodeIds = []) .newGoalNeedsTask
        if g.status = .completed then pure (some task)
        else do
          throwIf (task.status.isOpen = false) .unfinishedTaskClosed
          pure none

end Checks

/-! ### Applying a patch -/

/-- The state of the loop over the operations of a patch. -/
structure PatchRun where
  db : Db
  drawn : ℕ := 0
  tempNodeIds : List (String × String) := []
  edgeIds : List String := []
  addedChildNodeIds : List String := []
  addedTaskNodeIds : List String := []

structure ApplyDagPatchOptions where
  turn : DagTurnInput
  patch : DagPatch
  buildMode : DagBuildMode
  writeSource : DagWriteSource

section Apply
variable (sessionKey : String) (env : Env)

def nodeIdOf (k : ℕ) : String := "n_" ++ env.sortableId k

def edgeIdOf (k : ℕ) : String := "e_" ++ env.sortableId k

def applyOp (turn : DagTurn) (goal : Option DagGoalContext) (writeSource : DagWriteSource)
    (run : PatchRun) : DagPatchOp → Except StoreError PatchRun
  | .addNode op => do
    let id := nodeIdOf env run.drawn
    let db ← insertNode sessionKey run.db id op turn goal writeSource env.now
    pure { run with
      db := db
      drawn := run.drawn + 1
      tempNodeIds := setTempId run.tempNodeIds op.tempId id
      addedTaskNodeIds :=
        if op.kind = .task then run.addedTaskNodeIds ++ [id] else run.addedTaskNodeIds
      addedChildNodeIds :=
        if op.kind = .task then run.addedChildNodeIds else run.addedChildNodeIds ++ [id] }
  | .updateNode op => do
    let db ← updateNode sessionKey run.db op turn writeSource env.now
    pure { run with db := db }
  | .addEdge op => do
    let sourceId ← resolveTempId run.tempNodeIds op.sourceId
    let targetId ← resolveTempId run.tempNodeIds op.targetId
    let id := edgeIdOf env run.drawn
    let inserted ← insertResolvedEdge sessionKey run.db id sourceId targetId op.type turn.turnId
      writeSource env.now
    match inserted with
    | some db => pure { run with db := db, drawn := run.drawn + 1, edgeIds := run.edgeIds ++ [id] }
    | none => pure run

/-- The checks of a patch of a goal turn before it runs. -/
def checkGoalPatch (goal : Option DagGoalContext) (prePatchRoot : Option DagNode)
    (patch : DagPatch) : Except GoalBoundaryError Unit :=
  match goal, prePatchRoot with
  | some g, some root =>
    if root.goalId = some g.goalId then do
      throwIf (addedTasks patch ≠ []) .secondTask
      let statuses := (updatesOf patch root.id).filterMap (·.status)
      throwIf (g.status ≠ .completed ∧ ∃ s ∈ statuses, s.isOpen = false) .unfinishedClosed
      throwIf (g.status = .completed ∧ ∃ s ∈ statuses, s ≠ .done) .completedNotDone
    else .ok ()
  | _, _ => .ok ()

/-- `UPDATE dag_nodes SET status='done' …`. -/
def completeGoalTask (db : Db) (turnId : String) (now : ℕ) : Option DagNode → Db
  | some task =>
    setNode db task.id fun n =>
      { n with status := .done, updatedTurnId := some turnId, updatedAt := now }
  | none => db

/-- The checks after the operations, and the writes that close the patch. -/
def finishPatch (options : ApplyDagPatchOptions) (prePatchRoot : Option DagNode) (run : PatchRun) :
    Except StoreError Db := do
  let nodes := readNodes sessionKey run.db
  let edges := readEdges run.db
  assertAddedChildNodesReachableFromTaskRoot nodes edges run.addedChildNodeIds
  (assertTaskTransitionIntegrity nodes edges (prePatchRoot.map (·.id)) run.addedTaskNodeIds).mapError
    .transition
  let goalTask ← (assertGoalBoundary nodes edges options.turn.turnId options.turn.goalContext
    prePatchRoot run.addedTaskNodeIds).mapError .goalBoundary
  let db := completeGoalTask run.db options.turn.turnId env.goalNow goalTask
  pure (markTurnDone db options.turn.turnId options.buildMode env.doneNow)

/-- `applyPatch`, with the state of the loop that its result is read from. -/
def applyPatch (db : Db) (options : ApplyDagPatchOptions) : Except StoreError (Db × PatchRun) := do
  let prePatchRoot := selectRootTask (readNodes sessionKey db)
  let (db, turn) ← upsertTurn db options.turn env.upsertNow
  (checkGoalPatch options.turn.goalContext prePatchRoot options.patch).mapError .goalBoundary
  let run ← options.patch.foldlM
    (applyOp sessionKey env turn options.turn.goalContext options.writeSource) { db := db }
  let db ← finishPatch sessionKey env options prePatchRoot run
  pure (db, run)

end Apply

/-! ### What the store shows -/

def readLatestSnapshotText (db : Db) : Option String :=
  ((sortBy (descending (·.createdAt)) db.snapshots).head?).map (·.snapshotText)

def readGraphForHistoryDag (sessionKey : String) (db : Db) : DagGraph :=
  let nodes := readNodes sessionKey db
  let edges := readEdges db
  let activePath := deriveActivePathSelection nodes edges
  { sessionKey := sessionKey
    nodes := nodes
    edges := edges
    activePathNodeIds := activePath.nodeIds
    activePathEdgeIds := activePath.edgeIds
    snapshotText := (readLatestSnapshotText db).getD "" }

def createSnapshot (db : Db) (turnId : Option String) (snapshotText : String)
    (snapshotJson : JsonObject) (tokenEstimate : ℕ) (env : Env) : Db × DagSnapshotRecord :=
  let record : DagSnapshotRecord :=
    { id := "s_" ++ env.sortableId 0
      turnId := turnId
      snapshotText := snapshotText
      snapshotJson := snapshotJson
      tokenEstimate := tokenEstimate
      createdAt := env.now }
  ({ db with snapshots := db.snapshots ++ [record] }, record)

def toContextNode (n : DagNode) : DagContextNode where
  id := n.id
  kind := n.kind
  status := n.status
  title := n.title
  summary := n.summary
  importance := n.importance
  createdBy := n.createdBy
  updatedBy := n.updatedBy
  sourceRefs := n.sourceRefs
  updatedTurnId := n.updatedTurnId
  firstMessageIndex := n.firstMessageIndex
  lastMessageIndex := n.lastMessageIndex
  goalId := n.goalId

/-- The ranked nodes are selected until there are `maxNodes`. -/
def selectRanked (maxNodes : ℕ) : List DagNode → List String → List String
  | [], selected => selected
  | n :: rest, selected =>
    if maxNodes ≤ selected.length then selected
    else selectRanked maxNodes rest (if n.id ∈ selected then selected else n.id :: selected)

def readBuilderContext (sessionKey : String) (db : Db) (maxNodes : ℕ) : DagBuilderContext :=
  let nodes := readNodes sessionKey db
  let edges := readEdges db
  if nodes = [] then {}
  else
    let activePath := deriveActivePathSelection nodes edges
    let rootId := activePath.nodeIds.head?
    let descendants := (rootId.map fun id => taskSubgraphNodeIds id nodes edges).getD []
    let mandatory := (activePath.nodeIds ++ (nodes.filter fun n => n.id ∈ descendants ∧
      (n.status.isOpen = true ∨ n.status = .failed)).map (·.id)).dedup
    let ranked := sortBy (compareLex (descending (·.importance)) (descending (·.updatedAt)))
      (nodes.filter fun n => n.id ∈ descendants)
    let selected := selectRanked maxNodes ranked mandatory
    { rootTaskId := rootId
      nodes := (nodes.filter fun n => n.id ∈ selected).map toContextNode
      edges := (edges.filter fun e => e.sourceId ∈ selected ∧ e.targetId ∈ selected).map fun e =>
        { sourceId := e.sourceId, targetId := e.targetId, type := e.type }
      activePath := activePath.nodeIds
      activePathEdges := activePath.edgeIds.filterMap fun id =>
        (edges.find? fun e => e.id = id).map fun e =>
          { id := e.id, sourceId := e.sourceId, targetId := e.targetId, type := e.type } }

/-! ### Opening the store -/

/-- `TASK_TRANSITION_REPAIR_META_KEY`. -/
def repairMetaKey : String := "task_transition_repair_v1"

/-- The status that the repair gives a task with a successor. -/
def repairedStatus (nodes : List DagNode) (edges : List DagEdge) (oldTask : DagNode)
    (existing : Option DagEdge) : DagNodeStatus :=
  if oldTask.status.isOpen = false then oldTask.status
  else match existing with
    | some e => if e.type = .continues then .done else .frozen
    | none =>
      let descendantIds := taskSubgraphNodeIds oldTask.id nodes edges
      let descendants := nodes.filter fun n => n.kind ≠ .task ∧ n.id ∈ descendantIds
      if oldTask.status = .active ∧ (∃ n ∈ descendants, n.status = .done) ∧
          ¬ ∃ n ∈ descendants, n.status.isOpen = true then .done
      else .frozen

/-- One pair of tasks of the repair. The tables are read again here: the arrays of the source are
updated together with them. -/
def repairPair (sessionKey : String) (env : Env) (state : Db × ℕ) (pair : DagNode × DagNode) :
    Except StoreError (Db × ℕ) :=
  let (db, drawn) := state
  let (oldTask, nextTask) := pair
  let edges := readEdges db
  let directEdges := edges.filter fun e => e.sourceId = oldTask.id ∧ e.targetId = nextTask.id
  if 1 < directEdges.length ∨ ∃ e ∈ directEdges, e.type ≠ .continues ∧ e.type ≠ .supersedes then .ok state
  else
    let existing := directEdges.head?
    let status := repairedStatus (readNodes sessionKey db) edges oldTask existing
    match taskTransitionEdgeType status with
    | none => .ok state
    | some expectedType =>
      if existing.any fun e => e.type ≠ expectedType then .ok state
      else if existing.isNone ∧ wouldCreateCycle db oldTask.id nextTask.id then .ok state
      else
        let db := if status ≠ oldTask.status then
          setNode db oldTask.id fun n =>
            if n.sessionKey = sessionKey then
              { n with
                status := status
                updatedTurnId := nextTask.createdTurnId
                updatedBy := .repair
                updatedAt := nextTask.createdAt }
            else n
          else db
        if existing.isSome then .ok (db, drawn)
        else do
          let id := edgeIdOf env drawn
          throwIf (∃ e ∈ db.edges, e.id = id) (.constraint "dag_edges.id")
          pure ({ db with edges := db.edges ++ [
            { id := id, sourceId := oldTask.id, targetId := nextTask.id, type := expectedType,
              createdTurnId := nextTask.createdTurnId, createdBy := .repair,
              createdAt := nextTask.createdAt }] }, drawn + 1)

/-- The order of the tasks for the repair. -/
def compareRepair : DagNode → DagNode → Ordering :=
  compareLex (ascending (·.firstMessageIndex)) (compareLex (ascending (·.createdAt)) (ascending (·.id)))

def repairTaskTransitionsOnce (sessionKey : String) (env : Env) (db : Db) : Except StoreError Db :=
  if getMeta db repairMetaKey = some "done" then .ok db
  else do
    let tasks := sortBy compareRepair (tasksOf (readNodes sessionKey db))
    let (db, _) ← (tasks.zip tasks.tail).foldlM (repairPair sessionKey env) (db, 0)
    pure (setMeta db repairMetaKey "done")

/-! ### Runs -/

/-- An operation on the store. -/
inductive StoreOp where
  | upsertTurn (input : DagTurnInput) (now : ℕ)
  | claimNextTurn (now : ℕ)
  | markTurnRetry (turnId error : String) (nextRetryAt now : ℕ)
  | markTurnBlocked (turnId error : String) (nextRetryAt : Option ℕ) (now : ℕ)
  | markTurnDone (turnId : String) (mode : DagBuildMode) (now : ℕ)
  | applyPatch (options : ApplyDagPatchOptions) (env : Env)
  | createSnapshot (turnId : Option String) (text : String) (json : JsonObject) (tokens : ℕ) (env : Env)
  | reopen (env : Env)

/-- The tables after an operation: an exception leaves them as they were. -/
def step (sessionKey : String) (db : Db) : StoreOp → Db
  | .upsertTurn input now => (upsertTurn db input now).toOption.elim db (·.1)
  | .claimNextTurn now => (claimNextTurn db now).1
  | .markTurnRetry turnId error nextRetryAt now => markTurnRetry db turnId error nextRetryAt now
  | .markTurnBlocked turnId error nextRetryAt now => markTurnBlocked db turnId error nextRetryAt now
  | .markTurnDone turnId mode now => markTurnDone db turnId mode now
  | .applyPatch options env => (applyPatch sessionKey env db options).toOption.elim db (·.1)
  | .createSnapshot turnId text json tokens env => (createSnapshot db turnId text json tokens env).1
  | .reopen env => (repairTaskTransitionsOnce sessionKey env db).toOption.getD db

end Memmy.SessionDag.Store
