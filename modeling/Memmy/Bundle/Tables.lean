import Memmy.Lib.JsonValue

/-! # The tables of a bundle

The tables that are exported and imported as a bundle, and their rows. A row is read by the names of its
columns; a column that its table does not have is `null`.

A column that holds JSON is modelled by the value its text is read as (`Cell.json`); every other text is
kept as it is (`Cell.text`). -/

namespace Memmy.Bundle.Tables

open Lib.Text Lib.JsonValue

/-- `BUNDLE_TABLES`, in order. -/
inductive BundleTable where
  | memories
  | memoryCaptureClaims
  | sourceTurnCaptures
  | l3WorldModelScopes
  | userMemories
  | sessions
  | l3WorldModelSessionCursors
  | workMemorySessionCursors
  | episodes
  | rawTurns
  | l3WorldModelInputTraces
  | feedback
  | l3WorldModelEvidenceBatches
  | l3WorldModelBatchTargets
  | decisionRepairs
  | l2CandidatePool
  | tracePolicyLinks
  | skillTrials
  | recallEvents
  | apiLogs
  | memoryChangeLog
  | l3WorldModelProjectEnvironmentState
  | evolutionJobs
  | embeddingRetryQueue
  | memoryProcessingState
  | runtimeKv
  | artifacts
  | auditLogs
  deriving DecidableEq

def BundleTable.name : BundleTable → String
  | memories => "memories"
  | memoryCaptureClaims => "memory_capture_claims"
  | sourceTurnCaptures => "source_turn_captures"
  | l3WorldModelScopes => "l3_world_model_scopes"
  | userMemories => "user_memories"
  | sessions => "sessions"
  | l3WorldModelSessionCursors => "l3_world_model_session_cursors"
  | workMemorySessionCursors => "work_memory_session_cursors"
  | episodes => "episodes"
  | rawTurns => "raw_turns"
  | l3WorldModelInputTraces => "l3_world_model_input_traces"
  | feedback => "feedback"
  | l3WorldModelEvidenceBatches => "l3_world_model_evidence_batches"
  | l3WorldModelBatchTargets => "l3_world_model_batch_targets"
  | decisionRepairs => "decision_repairs"
  | l2CandidatePool => "l2_candidate_pool"
  | tracePolicyLinks => "trace_policy_links"
  | skillTrials => "skill_trials"
  | recallEvents => "recall_events"
  | apiLogs => "api_logs"
  | memoryChangeLog => "memory_change_log"
  | l3WorldModelProjectEnvironmentState => "l3_world_model_project_environment_state"
  | evolutionJobs => "evolution_jobs"
  | embeddingRetryQueue => "embedding_retry_queue"
  | memoryProcessingState => "memory_processing_state"
  | runtimeKv => "runtime_kv"
  | artifacts => "artifacts"
  | auditLogs => "audit_logs"

/-- `SqlValue`: what a column of a row holds. -/
inductive Cell where
  | null
  | number (n : JsNumber)
  | text (s : String)
  | json (value : Json)
  | buffer (bytes : List UInt8)

namespace Cell

/-- A `TEXT` column; `null` is left out. -/
def text? : Cell → Option String
  | text s => some s
  | _ => none

/-- A `TEXT NOT NULL` column. -/
def string (cell : Cell) : String := cell.text?.getD ""

/-- A column with a number. -/
def number? : Cell → Option JsNumber
  | number n => some n
  | _ => none

/-- `parseJson(column, fallback)` -/
def parseJson (cell : Cell) (fallback : Json) : Json :=
  match cell with
  | json value => value
  | _ => fallback

/-- A nullable `TEXT` column that is written: `value ?? null`. -/
def ofText? (value : Option String) : Cell := (value.map text).getD null

end Cell

/-- A row of a table. -/
abbrev Row : Type := String → Cell

namespace Row

/-- `{ ...row, [column]: cell }` -/
def set (row : Row) (column : String) (cell : Cell) : Row := Function.update row column cell

@[simp] theorem set_same (row : Row) (column : String) (cell : Cell) :
    row.set column cell column = cell := Function.update_self ..

@[simp] theorem set_ne (row : Row) {column c : String} (cell : Cell) (h : c ≠ column) :
    row.set column cell c = row c := Function.update_of_ne h ..

end Row

/-- The rows of all tables, in the order in which `SELECT *` returns them. -/
abbrev TableRows : Type := BundleTable → List Row

end Memmy.Bundle.Tables
