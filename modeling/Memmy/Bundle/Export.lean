import Mathlib.Data.List.Forall2
import Memmy.Bundle.Tables
import Memmy.Lib.KeyMap

/-! # The export of a bundle

`exportBundleTables` returns the rows of all bundle tables. Without the raw texts it blanks the five text
columns of a raw turn, leaves out the world-model work that is not finished and resets the scan state of
an environment; the schedule cursors of the sessions are moved past the traces whose work is left out.
The entries of the change log are exported without the copies of a computer history that
`compactHistoryChangePayload` leaves out. -/

namespace Memmy.Bundle.Export

open Lib Lib.Text Lib.JsonValue Bundle.Tables Option

/-- What the export takes from outside the database: the clock, `String(value)` of a column, and what
the compaction of a history computes of its texts. -/
structure Env where
  nowIso : String
  stringOf : Cell → String
  sha256Hex : String → String
  byteLength : String → ℕ
  /-- `/^\d{4}-\d{2}-\d{2}T\d{2}-\d{2}-\d{2}Z?-(?:10min|6h)-summary$/u` -/
  isSummaryId : String → Bool

/-! ### The compaction of a computer history -/

/-- `object[key]`, when it is a record. -/
def recordField (o : JsonObject) (key : String) : Option JsonObject := (JsonObject.get? o key).bind Json.record?

/-- `object[key]`, when it is a text. -/
def textField (o : JsonObject) (key : String) : Option String := (JsonObject.get? o key).bind Json.str?

/-- `origin.source === "memmy" && value.agentId === "memmy" && …` -/
def legacyHistory (env : Env) (value origin provenance : JsonObject) : Bool :=
  textField origin "source" = some "memmy" && textField value "agentId" = some "memmy" &&
    ((textField origin "sourceRecordId").any fun historyId =>
      textField provenance "historyId" = some historyId || env.isSummaryId historyId)

/-- What the projection says about a text that is left out. -/
def omittedText (env : Env) (name text : String) : JsonObject :=
  [(name ++ "_omitted", .bool true),
    (name ++ "_sha256", .str (env.sha256Hex text)),
    (name ++ "_bytes", .num (.finite (env.byteLength text)))]

/-- `compactHistoryChangePayload` where it changes the payload. -/
def compactedPayload? (env : Env) (payload : Json) : Option Json := do
  let value ← payload.record?
  let properties ← recordField value "properties"
  let internal ← recordField properties "internal_info"
  guard (textField internal "memory_kind" = some "observed_activity")
  let origin ← recordField internal "external_evidence"
  let provenance := (recordField origin "provenance").getD []
  guard (textField origin "source" = some "computer_history" ∨ legacyHistory env value origin provenance = true)
  let source := textField origin "source_content"
  let state := recordField internal "observation_memory"
  let body := (textField value "memoryValue").getD ""
  -- A processed body stays, also one that is equal to its source.
  let stateRevision := state.bind (textField · "source_revision")
  let replacedInput := decide (source = some body) && stateRevision.isSome &&
    (textField origin "revision").isSome && decide (stateRevision ≠ textField origin "revision")
  let omitBody := decide (body ≠ "") &&
    (state.isNone || decide (state.bind (textField · "status") = some "pending") || replacedInput)
  guard (source.isSome ∨ omitBody = true)
  let evidence := origin.filter fun f => f.1 ≠ "source_content"
  let projection := JsonObject.merge ((recordField internal "change_log_projection").getD [])
    ([("schema_version", Json.num (.finite 1))] ++
      (source.map (omittedText env "source_content")).getD [] ++
      (if omitBody then omittedText env "memory_value" body else []))
  let kept := if omitBody then JsonObject.set value "memoryValue" (.str "") else value
  return .obj (JsonObject.set kept "properties" (.obj (JsonObject.set properties "internal_info"
    (.obj (JsonObject.set (JsonObject.set internal "external_evidence" (.obj evidence))
      "change_log_projection" (.obj projection))))))

def compactHistoryChangePayload (env : Env) (payload : Json) : Json :=
  (compactedPayload? env payload).getD payload

/-- Text that is no JSON stays byte for byte. -/
def compactHistoryChangeJson (env : Env) : Cell → Cell
  | .json payload => .json (compactHistoryChangePayload env payload)
  | cell => cell

def compactHistoryChangeRow (env : Env) (row : Row) : Row :=
  (row.set "before_json" (compactHistoryChangeJson env (row "before_json"))).set
    "after_json" (compactHistoryChangeJson env (row "after_json"))

theorem compact_of_noProperties (env : Env) {payload : Json}
    (h : ∀ value, payload.record? = some value → JsonObject.get? value "properties" = none) :
    compactHistoryChangePayload env payload = payload := by
  have hnone : compactedPayload? env payload = none := by
    unfold compactedPayload?
    cases hvalue : payload.record? with
    | none => rfl
    | some value =>
      have hproperties : recordField value "properties" = none := by
        rw [recordField, h value hvalue, bind_none]
      simp only [bind_eq_bind, bind_some, hproperties, bind_none]
  rw [compactHistoryChangePayload, hnone, getD_none]

/-! ### The rows -/

/-- The columns of a raw turn that are blanked. -/
def blankedColumns : List String :=
  ["user_text", "assistant_text", "reasoning_summary", "tool_calls_json", "tool_results_json"]

def redactBundleRow (env : Env) (table : BundleTable) (row : Row) : Row :=
  if table ≠ .rawTurns then row
  else
    (((((row.set "user_text" .null).set "assistant_text" .null).set "reasoning_summary" .null).set
      "tool_calls_json" (.json (.arr []))).set "tool_results_json" (.json (.arr []))).set
      "redacted_at" (match row "redacted_at" with
        | .null => .text env.nowIso
        | redactedAt => redactedAt)

/-- The base64 text of a buffer stands for its bytes: only the name of the table is added. -/
def serializeBundleRow (table : BundleTable) (row : Row) : Row := row.set "__table" (.text table.name)

/-- `typeof row.terminal_outcome === "string" && row.terminal_outcome` -/
def hasTerminalOutcome (row : Row) : Bool := (row "terminal_outcome").text?.any (· ≠ "")

def terminalBatchIds (env : Env) (batches : List Row) : List String :=
  (batches.filter hasTerminalOutcome).map fun row => env.stringOf (row "id")

/-- A job of the world model is exported once it is finished. -/
def keepsJob (row : Row) : Bool :=
  if (row "job_type").text? ≠ some "l3_world_model_update" ∧
      (row "job_type").text? ≠ some "project_environment_profile" then true
  else (row "status").text? = some "succeeded" || (row "status").text? = some "dead_letter"

def resetEnvironment (row : Row) : Row :=
  ((row.set "status" (.text "uninitialized")).set "current_scan_id" .null).set "last_error" .null

/-! ### The cursors of the sessions -/

/-- `a <= b` on numbers. -/
def numLe : JsNumber → JsNumber → Bool
  | .nan, _ => false
  | _, .nan => false
  | .negInf, _ => true
  | _, .posInf => true
  | .finite a, .finite b => a ≤ b
  | _, _ => false

/-- The `Map` of the cursors by session. -/
abbrev Cursors : Type := List (String × Row)

def cursorOf (cursors : Cursors) (sessionId : String) : Option Row :=
  (cursors.find? fun entry => entry.1 = sessionId).map (·.2)

def addCursor (cursors : Cursors) (row : Row) : Cursors :=
  match (row "session_id").text? with
  | none => cursors
  | some sessionId => KeyMap.set Prod.fst cursors (sessionId, row)

/-- The cursor of a session is moved to the trace `trace_seq` of it. -/
def moveCursor (env : Env) (cursors : Cursors) (sessionId : String) (traceSeq : JsNumber) : Cursors :=
  let current := cursorOf cursors sessionId
  let lastScheduledSeq := (current.bind fun row => (row "last_scheduled_seq").number?).getD (.finite 0)
  if numLe traceSeq lastScheduledSeq then cursors
  else
    let row := current.getD
      (Row.set (fun _ => .null) "__table" (.text "l3_world_model_session_cursors"))
    KeyMap.set Prod.fst cursors (sessionId, ((row.set "session_id" (.text sessionId)).set
      "last_scheduled_seq" (.number traceSeq)).set "updated_at" (.text env.nowIso))

def advanceCursor (env : Env) (cursors : Cursors) (trace : Row) : Cursors :=
  match (trace "session_id").text?, (trace "trace_seq").number? with
  | some sessionId, some traceSeq => moveCursor env cursors sessionId traceSeq
  | _, _ => cursors

def advancedCursors (env : Env) (cursors traces : List Row) : List Row :=
  (traces.foldl (advanceCursor env) (cursors.foldl addCursor [])).map (·.2)

/-! ### The tables -/

def normalizeRedactedL3WorldModelBundle (env : Env) (tables : TableRows) : TableRows :=
  let batchIds := terminalBatchIds env (tables .l3WorldModelEvidenceBatches)
  fun
  | .l3WorldModelEvidenceBatches =>
    (tables .l3WorldModelEvidenceBatches).filter fun row => env.stringOf (row "id") ∈ batchIds
  | .l3WorldModelBatchTargets =>
    (tables .l3WorldModelBatchTargets).filter fun row => env.stringOf (row "batch_id") ∈ batchIds
  | .evolutionJobs => (tables .evolutionJobs).filter keepsJob
  | .l3WorldModelProjectEnvironmentState =>
    (tables .l3WorldModelProjectEnvironmentState).map resetEnvironment
  | .l3WorldModelSessionCursors =>
    advancedCursors env (tables .l3WorldModelSessionCursors) (tables .l3WorldModelInputTraces)
  | table => tables table

/-- A row before the tables are normalised. -/
def exportedRow (env : Env) (includeRawText : Bool) (table : BundleTable) (row : Row) : Row :=
  let projected := if table = .memoryChangeLog then compactHistoryChangeRow env row else row
  serializeBundleRow table
    (if includeRawText then projected else redactBundleRow env table projected)

def exportBundleTables (env : Env) (includeRawText : Bool) (db : TableRows) : TableRows :=
  let tables : TableRows := fun table => (db table).map (exportedRow env includeRawText table)
  if includeRawText then tables else normalizeRedactedL3WorldModelBundle env tables

end Memmy.Bundle.Export
