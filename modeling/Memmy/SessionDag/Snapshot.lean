import Memmy.SessionDag.Store

/-! # The snapshot text

What a compaction puts in the place of the messages that it hides: the active path, then the closed tasks
by importance, as many as fit the budget (`selectSnapshotNodes`). The estimate is that of the session
manager, a quarter of the length of the message as JSON. -/

namespace Memmy.SessionDag.Snapshot

open Lib.JsonValue Lib.Sort Lib.Text SessionDag.Types

/-! ### The estimate -/

/-- The length of a character in a JSON text. -/
def jsonCharLength (c : Char) : ℕ :=
  if c = '"' ∨ c = '\\' ∨ c = '\n' ∨ c = '\r' ∨ c = '\t' ∨ c.toNat = 8 ∨ c.toNat = 12 then 2
  else if c.toNat < 0x20 then 6
  else utf16Size c

/-- `JSON.stringify(text).length`. -/
def jsonTextLength (s : String) : ℕ := (s.toList.map jsonCharLength).sum + 2

/-- `estimateMessageTokens({ role: "system", content: text })` of the session manager. -/
def estimateSystemTokens (text : String) : ℕ :=
  (utf16Length "\x7b\"role\":\"system\",\"content\":" + jsonTextLength text + 1 + 3) / 4

/-! ### The text -/

def byImportance : DagNode → DagNode → Ordering :=
  compareLex (descending (·.importance)) (compareLex (descending (·.updatedAt)) (ascending (·.id)))

/-- An importance in a text: the rows hold integers. -/
def importanceText (importance : ℚ) : String := toString importance.num

def sourceRefLine (ref : DagSourceRef) : String :=
  match ref.type with
  | .file => "- file " ++ ref.path.getD "undefined" ++
      (match ref.line.filter (· ≠ 0) with
        | some line => ":" ++ toString line
        | none => "")
  | .artifact => "- artifact " ++ ref.artifactPath.getD "undefined"
  | .url => "- url " ++ ref.url.getD "undefined"

/-- `appendNodeList`, the lines of one node. -/
def nodeLines (indent : String) (node : DagNode) : List String :=
  ["- [" ++ node.kind.text ++ " " ++ node.status.text ++ " importance=" ++
      importanceText node.importance ++ "] " ++ node.title,
    indent ++ "summary: " ++ node.summary] ++
  (if node.sourceRefs ≠ [] then
    [indent ++ "refs:"] ++ node.sourceRefs.map fun ref => indent ++ sourceRefLine ref
  else [])

def sectionLines (nodes : List DagNode) : List String :=
  if nodes ≠ [] then nodes.flatMap (nodeLines "  ") else ["- (none)"]

def renderSnapshotText (graph : DagGraph) (selected : List String) : String :=
  let nodes := graph.nodes.filter fun n => n.id ∈ selected
  let activePath := (graph.activePathNodeIds.filterMap fun id => graph.nodes.find? fun n => n.id = id).filter
    fun n => n.id ∈ selected
  let others := nodes.filter fun n => n.kind = .task ∧ n.id ∉ activePath.map (·.id)
  let completedTasks := sortBy byImportance (others.filter fun n => n.status = .done)
  let frozenOrFailedTasks :=
    sortBy byImportance (others.filter fun n => n.status = .failed ∨ n.status = .frozen)
  "\n".intercalate
    (["[Working Memory DAG Snapshot]", "", "current_active_path:"] ++ sectionLines activePath ++
      ["", "completed_tasks:"] ++ sectionLines completedTasks ++
      ["", "frozen_or_failed_tasks:"] ++ sectionLines frozenOrFailedTasks)

/-- The loop of `selectSnapshotNodes`: it stops at the first task that does not fit. -/
def addRanked (graph : DagGraph) (tokenBudget : Option ℤ) : List String → List DagNode → List String
  | selected, [] => selected
  | selected, node :: rest =>
    let selected' := selected ++ [node.id]
    match tokenBudget.filter (0 < ·) with
    | some budget =>
      if budget < estimateSystemTokens (renderSnapshotText graph selected') then selected
      else addRanked graph tokenBudget selected' rest
    | none => addRanked graph tokenBudget selected' rest

/-- `selectSnapshotNodes`: the ids, in the order in which they are selected. -/
def selectSnapshotNodes (graph : DagGraph) (tokenBudget : Option ℤ) : List String :=
  let selected := (graph.activePathNodeIds.filter fun id => graph.nodes.any fun n => n.id = id).eraseDups
  let ranked := sortBy byImportance (graph.nodes.filter fun n =>
    n.id ∉ selected ∧ n.kind = .task ∧ (n.status = .done ∨ n.status = .failed ∨ n.status = .frozen))
  addRanked graph tokenBudget selected ranked

structure SnapshotText where
  text : String
  json : JsonObject
  tokenEstimate : ℕ

def buildDagSnapshotText (graph : DagGraph) (tokenBudget : Option ℤ) : SnapshotText :=
  let selected := selectSnapshotNodes graph tokenBudget
  let text := renderSnapshotText graph selected
  { text := text
    json :=
      [("sessionKey", .str graph.sessionKey), ("nodeIds", .arr (selected.map .str)),
        ("activePathNodeIds", .arr (graph.activePathNodeIds.map .str)),
        ("activePathEdgeIds", .arr (graph.activePathEdgeIds.map .str))]
    tokenEstimate := estimateSystemTokens text }

/-! ### What is selected -/

end Memmy.SessionDag.Snapshot
