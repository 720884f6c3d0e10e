import Memmy.SessionDag.Store

/-! # Building a patch from a turn

`buildPatch` is the way of a patch that a model wrote: it is checked against the context that the model
was shown and then completed. `applyDeterministicFallback` needs no model: it adds one step for the
turn, below the task that was written last, or below a new task. -/

namespace Memmy.SessionDag.Builder

open Lib.JsonValue Lib.Sort Lib.Text SessionDag.Types SessionDag.PatchSchema SessionDag.Store

/-! ### A turn and its goal -/

/-- A text as a condition sees it. -/
def truthy (s : Option String) : Option String := s.filter (· ≠ "")

def turnGoal (turn : DagTurn) : Option DagGoalContext :=
  match truthy turn.goalId, truthy turn.goalObjective, turn.goalStatus with
  | some goalId, some objective, some status =>
    some { goalId := goalId, objective := objective, status := status }
  | _, _, _ => none

def turnToInput (turn : DagTurn) : DagTurnInput where
  turnId := turn.turnId
  messageStart := .finite turn.messageStart
  messageEnd := .finite turn.messageEnd
  userText := some turn.userText
  assistantText := some turn.assistantText
  goalContext := turnGoal turn

/-! ### The patch of a model -/

def contextNodeKinds (ctx : DagBuilderContext) : ContextKinds := ctx.nodes.map fun n => (n.id, n.kind)

/-- The patch that is applied for what the model returned. -/
def buildPatch (parsed : Json) (ctx : DagBuilderContext) (goal : Option DagGoalContext) :
    Except String DagPatch := do
  let validatedPatch ← validateDagPatch parsed (contextNodeKinds ctx)
  normalizeDagTaskTransition validatedPatch ctx goal

/-- The last steps of `buildAndApply`: `none` is a patch that is refused before it is applied. -/
def buildAndApply (sessionKey : String) (env : Env) (maxBuilderContextNodes : ℕ) (parsed : Json)
    (db : Db) (turn : DagTurn) : Option (Except StoreError (Db × PatchRun)) :=
  match buildPatch parsed (readBuilderContext sessionKey db maxBuilderContextNodes) (turnGoal turn) with
  | .error _ => none
  | .ok patch => some <| applyPatch sessionKey env db
      { turn := turnToInput turn, patch := patch, buildMode := .llmPatch, writeSource := .llmPatch }

/-! ### Texts of the fallback -/

/-- `toLowerCase`, on the characters with a letter `a` to `z` in the result. -/
def lowerChar (c : Char) : List Char :=
  if c = '\u212A' then ['k']
  else if c = '\u0130' then ['i', '\u0307']
  else [c.toLower]

/-- `\w`. -/
def isWordChar (c : Char) : Bool := c.isAlphanum || c = '_'

/-- `text.includes(part)`. -/
def includes (part : List Char) : List Char → Bool
  | [] => part.isEmpty
  | c :: cs => part.isPrefixOf (c :: cs) || includes part cs

/-- `/\bword\b/`, `prev` being the character before the text. -/
def includesWord (word : List Char) : Option Char → List Char → Bool
  | _, [] => false
  | prev, c :: cs =>
    (!prev.any isWordChar && word.isPrefixOf (c :: cs) &&
      !((c :: cs).drop word.length).head?.any isWordChar) || includesWord word (some c) cs

def fallbackStatus (turn : DagTurn) : DagNodeStatus :=
  let text := (turn.userText ++ "\n" ++ turn.assistantText).toList.flatMap lowerChar
  let has := fun (part : String) => includes part.toList text
  let hasWord := fun (word : String) => includesWord word.toList none text
  if has "阻塞" || has "blocked" || has "需要用户输入" then .blocked
  else if has "失败" || has "报错" || hasWord "error" || hasWord "failed" then .failed
  else if has "已完成" || has "完成了" || hasWord "done" || hasWord "fixed" then .done
  else .active

def truncateText (text : String) (maxChars : ℕ) : String :=
  if maxChars = 0 ∨ utf16Length text ≤ maxChars then text
  else sliceUtf16 text maxChars ++ "\n... (truncated)"

/-- `text.replace(/\s+/g, " ")`, on characters. -/
def joinSpaces : Bool → List Char → List Char
  | _, [] => []
  | inSpace, c :: cs =>
    if isJsSpace c then (if inSpace then joinSpaces true cs else ' ' :: joinSpaces true cs)
    else c :: joinSpaces false cs

def normalizeSpaces (text : String) : String := trim (String.ofList (joinSpaces false text.toList))

def fallbackTitle (text : String) : String :=
  let normalized := normalizeSpaces text
  if normalized = "" then "本轮交互" else truncateText normalized 40

def fallbackSummary (text : String) : String :=
  let normalized := normalizeSpaces text
  truncateText (if normalized ≠ "" then normalized else "deterministic fallback 创建的最小 DAG 节点") 500

/-- `a || b || c`. -/
def firstText (a b c : String) : String := if a ≠ "" then a else if b ≠ "" then b else c

/-! ### The patch of the fallback -/

section Fallback
variable (nodes : List DagNode) (turn : DagTurn)

/-- The task that the fallback goes on with. -/
def existingTask : Option DagNode :=
  (sortBy (descending (·.updatedAt)) (nodes.filter fun n => n.kind = .task ∧ n.status ≠ .frozen)).head?

def activeSubtask : Option DagNode :=
  (sortBy (descending (·.updatedAt)) (nodes.filter fun n => n.kind = .subtask ∧ n.status.isOpen = true)).head?

def continuesSameGoal : Bool :=
  match turnGoal turn with
  | some g => (existingTask nodes).bind (·.goalId) = some g.goalId
  | none => false

def mustCreateTask : Bool :=
  (existingTask nodes).isNone || ((turnGoal turn).isSome && !continuesSameGoal nodes turn) ||
    ((turnGoal turn).isNone && (truthy ((existingTask nodes).bind (·.goalId))).isSome)

/-- How an existing task is left for a new one. -/
def existingTaskTransition (task : DagNode) : DagNodeStatus × DagEdgeType :=
  if task.status = .done ∨ task.status = .failed then (task.status, .continues)
  else (.frozen, .supersedes)

def fallbackTask : AddNodePatchOp where
  tempId := "fallback_task"
  kind := .task
  status := if fallbackStatus turn = .blocked then .blocked else .active
  title := fallbackTitle (firstText turn.userText turn.assistantText "当前任务")
  summary := fallbackSummary (firstText turn.userText turn.assistantText "兜底创建的会话任务")
  importance := .finite (fallbackImportance .task .active)
  detailJson := some []
  sourceRefs := some []

def fallbackSubtask : AddNodePatchOp where
  tempId := "fallback_subtask"
  kind := .subtask
  status := fallbackStatus turn
  title := fallbackTitle (firstText turn.userText turn.assistantText "本轮交互")
  summary := fallbackSummary
    (firstText turn.userText turn.assistantText "本轮由 deterministic fallback 生成最小子任务节点")
  importance := .finite (fallbackImportance .subtask (fallbackStatus turn))
  detailJson := some
    [("result", .str (truncateText (firstText turn.assistantText turn.userText "") 500))]
  sourceRefs := some []

/-- The operations that replace the existing task. -/
def fallbackNewTask : DagPatch :=
  match existingTask nodes with
  | none => [.addNode (fallbackTask turn)]
  | some task =>
    let (status, type) := existingTaskTransition task
    (if status ≠ task.status then [.updateNode { nodeId := task.id, status := some status }] else []) ++
      [.addNode (fallbackTask turn),
        .addEdge { sourceId := task.id, targetId := "fallback_task", type := type }]

/-- The operations that connect the new step. -/
def fallbackConnect : DagPatch :=
  let taskRef := if mustCreateTask nodes turn then "fallback_task"
    else ((existingTask nodes).map (·.id)).getD ""
  match activeSubtask nodes with
  | some subtask =>
    if mustCreateTask nodes turn = false then
      (if continuesSameGoal nodes turn then
        [.updateNode { nodeId := subtask.id, status := some .done }] else []) ++
        [.addEdge { sourceId := subtask.id, targetId := "fallback_subtask", type := .continues }]
    else [.addEdge { sourceId := taskRef, targetId := "fallback_subtask", type := .decomposes }]
  | none => [.addEdge { sourceId := taskRef, targetId := "fallback_subtask", type := .decomposes }]

def fallbackPatch : DagPatch :=
  (match turnGoal turn, existingTask nodes with
    | some g, some task =>
      if g.status = .completed ∧ continuesSameGoal nodes turn = true then
        [.updateNode { nodeId := task.id, status := some .done }] else []
    | _, _ => []) ++
  (if mustCreateTask nodes turn then fallbackNewTask nodes turn else []) ++
  [.addNode (fallbackSubtask turn)] ++ fallbackConnect nodes turn

end Fallback

def applyDeterministicFallback (sessionKey : String) (env : Env) (db : Db) (turn : DagTurn) :
    Except StoreError (Db × PatchRun) :=
  applyPatch sessionKey env db
    { turn := turnToInput turn
      patch := fallbackPatch (readGraphForHistoryDag sessionKey db).nodes turn
      buildMode := .deterministicFallback
      writeSource := .deterministicFallback }

end Memmy.SessionDag.Builder
