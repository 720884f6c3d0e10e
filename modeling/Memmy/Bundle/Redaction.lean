import Mathlib.Data.List.ReduceOption
import Memmy.Bundle.RawText

/-! # The redaction of a raw turn

`redactRawTurn` blanks the texts of a raw turn and appends an entry to the change log. The entry keeps
the turn as it was: its `before` is the whole turn, which no later export leaves out.

* `logged_before`: the newest entry of the change log holds the turn as it was read.
* `silent_iff`: nothing that is exported or read returns a text of the turn exactly when it had none.
* `rawTexts_stay_iff`: what an export shows of the texts, and when a redaction withholds them. -/

namespace Memmy.Bundle.Redaction

open Lib.JsonValue Bundle.Tables Bundle.Export List
open Bundle.RawText

/-! ### The raw turns -/

structure RawTurnRecord where
  id : String
  sessionId : String
  episodeId : String
  turnId : String
  userId : String
  conversationId : Option String
  userText : Option String
  assistantText : Option String
  reasoningSummary : Option String
  toolCalls : Json
  toolResults : Json
  sourceMemoryIds : List String
  usage : Json
  messagePayload : Json
  status : String
  redactedAt : Option String
  deletedAt : Option String
  createdAt : String

def asStringArray : Json → List String
  | .arr items => items.filterMap Json.str?
  | _ => []

def rawTurnFromSql (row : Row) : RawTurnRecord where
  id := (row "id").string
  sessionId := (row "session_id").string
  episodeId := (row "episode_id").string
  turnId := (row "turn_id").string
  userId := (row "user_id").string
  conversationId := (row "conversation_id").text?
  userText := (row "user_text").text?
  assistantText := (row "assistant_text").text?
  reasoningSummary := (row "reasoning_summary").text?
  toolCalls := (row "tool_calls_json").parseJson (.arr [])
  toolResults := (row "tool_results_json").parseJson (.arr [])
  sourceMemoryIds := asStringArray ((row "source_memory_ids_json").parseJson (.arr []))
  usage := (row "usage_json").parseJson (.obj [])
  messagePayload := (row "message_payload_json").parseJson (.obj [])
  status := (row "status").string
  redactedAt := (row "redacted_at").text?
  deletedAt := (row "deleted_at").text?
  createdAt := (row "created_at").string

/-- The fields that are not `undefined`. -/
def definedFields (fields : List (String × Option Json)) : JsonObject :=
  fields.filterMap fun field => field.2.map fun value => (field.1, value)

/-- `null` or the text. -/
def nullable (value : Option String) : Json := (value.map .str).getD .null

/-- The fields of a raw turn; one that is not set is `undefined`. -/
def RawTurnRecord.fields (turn : RawTurnRecord) : List (String × Option Json) :=
  [
    ("id", some (.str turn.id)),
    ("sessionId", some (.str turn.sessionId)),
    ("episodeId", some (.str turn.episodeId)),
    ("turnId", some (.str turn.turnId)),
    ("userId", some (.str turn.userId)),
    ("conversationId", turn.conversationId.map .str),
    ("userText", turn.userText.map .str),
    ("assistantText", turn.assistantText.map .str),
    ("reasoningSummary", turn.reasoningSummary.map .str),
    ("toolCalls", some turn.toolCalls),
    ("toolResults", some turn.toolResults),
    ("sourceMemoryIds", some (.arr (turn.sourceMemoryIds.map .str))),
    ("usage", some turn.usage),
    ("messagePayload", some turn.messagePayload),
    ("status", some (.str turn.status)),
    ("redactedAt", some (nullable turn.redactedAt)),
    ("deletedAt", some (nullable turn.deletedAt)),
    ("createdAt", some (.str turn.createdAt))]

/-- `toJson(rawTurn)` -/
def RawTurnRecord.toJson (turn : RawTurnRecord) : Json := .obj (definedFields turn.fields)

def getRawTurn (tables : TableRows) (id : String) : Option RawTurnRecord :=
  ((tables .rawTurns).find? fun row => (row "id").text? = some id).map rawTurnFromSql

def updateRawTurnRow (turn : RawTurnRecord) (row : Row) : Row :=
  (((((((((((row.set "episode_id" (.text turn.episodeId)).set
    "user_text" (.ofText? turn.userText)).set
    "assistant_text" (.ofText? turn.assistantText)).set
    "reasoning_summary" (.ofText? turn.reasoningSummary)).set
    "tool_calls_json" (.json turn.toolCalls)).set
    "tool_results_json" (.json turn.toolResults)).set
    "source_memory_ids_json" (.json (.arr (turn.sourceMemoryIds.map .str)))).set
    "usage_json" (.json turn.usage)).set
    "message_payload_json" (.json turn.messagePayload)).set
    "status" (.text turn.status)).set
    "redacted_at" (.ofText? turn.redactedAt)).set
    "deleted_at" (.ofText? turn.deletedAt)

/-! ### The database of the service -/

structure Service where
  tables : TableRows
  /-- The largest `seq` that `AUTOINCREMENT` has given to an entry of the change log. -/
  changeSeq : ℕ
  enableMemoryAdd : Bool

namespace Service

def setTable (s : Service) (table : BundleTable) (rows : List Row) : Service :=
  { s with tables := Function.update s.tables table rows }

def updateRawTurn (s : Service) (turn : RawTurnRecord) : Service :=
  s.setTable .rawTurns ((s.tables .rawTurns).map fun row =>
    if (row "id").text? = some turn.id then updateRawTurnRow turn row else row)

/-- A row with the given columns. -/
def rowOf (columns : List (String × Cell)) : Row :=
  columns.foldl (fun row column => row.set column.1 column.2) fun _ => .null

structure Change where
  memoryId : String
  namespaceId : String
  kind : String
  op : String
  entityId : String
  userId : String
  changeType : String
  before : Json
  after : Json
  source : String
  createdAt : String

/-- `versionFromChangePayload(change.after)` -/
def versionFromChangePayload (payload : Json) : Cell :=
  match payload.record?.bind (JsonObject.get? · "version") with
  | some (.num (.finite version)) => .number (.finite version)
  | _ => .null

def changeRow (env : Env) (seq : ℕ) (change : Change) : Row :=
  rowOf [
    ("seq", .number (.finite seq)),
    ("memory_id", .text change.memoryId),
    ("namespace_id", .text change.namespaceId),
    ("kind", .text change.kind),
    ("op", .text change.op),
    ("entity_id", .text change.entityId),
    ("user_id", .text change.userId),
    ("change_type", .text change.changeType),
    ("version", versionFromChangePayload change.after),
    ("before_json", .json (compactHistoryChangePayload env change.before)),
    ("after_json", .json (compactHistoryChangePayload env change.after)),
    ("source", .text change.source),
    ("created_at", .text change.createdAt)]

def appendChange (env : Env) (s : Service) (change : Change) : Service :=
  { s.setTable .memoryChangeLog (s.tables .memoryChangeLog ++ [changeRow env (s.changeSeq + 1) change])
    with changeSeq := s.changeSeq + 1 }

def insertAudit (s : Service) (columns : List (String × Cell)) : Service :=
  s.setTable .auditLogs (s.tables .auditLogs ++ [rowOf columns])

end Service

open Service

/-! ### The redaction -/

inductive RedactMode where
  | redact
  | delete
  deriving DecidableEq

def RedactMode.name : RedactMode → String
  | redact => "redact"
  | delete => "delete"

structure RawTurnRedactRequest where
  mode : Option RedactMode
  reason : Option String
  actor : Option JsonObject

inductive ServiceError where
  | memoryAddDisabled
  | notFound (message : String)

/-- What a redaction takes from outside: the namespace of the session, or of the turn where the session
is gone, and the id of the audit entry. -/
structure RedactEnv extends Env where
  namespaceIdOf : Option Row → RawTurnRecord → String
  auditId : String

def redactedTurn (at_ : String) (request : RawTurnRedactRequest) (turn : RawTurnRecord) :
    RawTurnRecord :=
  let mode := request.mode.getD .redact
  { turn with
    userText := none
    assistantText := none
    reasoningSummary := none
    toolCalls := .arr []
    toolResults := .arr []
    messagePayload := .obj (JsonObject.set (turn.messagePayload.record?.getD []) "governance"
      (.obj (definedFields [
        ("redacted", some (.bool true)),
        ("mode", some (.str mode.name)),
        ("reason", request.reason.map .str),
        ("at", some (.str at_))])))
    status := if mode = .delete then "deleted" else turn.status
    redactedAt := some at_
    deletedAt := if mode = .delete then some at_ else turn.deletedAt }

def isRedacted (turn : RawTurnRecord) : Bool := turn.redactedAt.any (· ≠ "") || turn.deletedAt.any (· ≠ "")

/-- `sessionRawTurnSummary(rawTurn)`: a redacted turn is summed up without its texts. -/
def rawTurnSummary (turn : RawTurnRecord) : Json :=
  let shown (value : Option Json) : Option Json := if isRedacted turn then none else value
  .obj (definedFields [
    ("rawTurnId", some (.str turn.id)),
    ("episodeId", some (.str turn.episodeId)),
    ("turnId", some (.str turn.turnId)),
    ("userText", shown (turn.userText.map .str)),
    ("assistantText", shown (turn.assistantText.map .str)),
    ("reasoningSummary", shown (turn.reasoningSummary.map .str)),
    ("toolCalls", shown (some turn.toolCalls)),
    ("toolResults", shown (some turn.toolResults)),
    ("createdAt", some (.str turn.createdAt))])

/-- The entry of the change log: the turn before and after. -/
def redactionChange (env : RedactEnv) (s : Service) (request : RawTurnRedactRequest)
    (turn : RawTurnRecord) : Change :=
  let deleted := request.mode.getD .redact = .delete
  { memoryId := turn.id
    namespaceId := env.namespaceIdOf
      ((s.tables .sessions).find? fun row => (row "id").text? = some turn.sessionId) turn
    kind := "raw_turn"
    op := if deleted then "deleted" else "updated"
    entityId := turn.id
    userId := turn.userId
    changeType := if deleted then "raw_turn_delete" else "raw_turn_redact"
    before := turn.toJson
    after := (redactedTurn env.nowIso request turn).toJson
    source := "panel.raw_redact"
    createdAt := env.nowIso }

def auditColumns (env : RedactEnv) (request : RawTurnRedactRequest) (turn : RawTurnRecord) :
    List (String × Cell) :=
  let deleted := request.mode.getD .redact = .delete
  [("id", .text env.auditId),
    ("user_id", .text turn.userId),
    ("session_id", .text turn.sessionId),
    ("actor_json", .json (.obj (request.actor.getD []))),
    ("action", .text (if deleted then "raw_delete" else "raw_redact")),
    ("target_kind", .text "raw_turn"),
    ("target_id", .text turn.id),
    ("before_json", .json (rawTurnSummary turn)),
    ("after_json", .json (rawTurnSummary (redactedTurn env.nowIso request turn))),
    ("meta_json", .json (.obj (definedFields [("reason", request.reason.map .str)]))),
    ("created_at", .text env.nowIso)]

def redactRawTurn (env : RedactEnv) (s : Service) (rawTurnId : String)
    (request : RawTurnRedactRequest) : Except ServiceError Service :=
  if s.enableMemoryAdd = false then .error .memoryAddDisabled
  else
    match getRawTurn s.tables rawTurnId with
    | none => .error (.notFound ("raw turn not found: " ++ rawTurnId))
    | some turn =>
      let updated := s.updateRawTurn (redactedTurn env.nowIso request turn)
      let changed := updated.appendChange env.toEnv (redactionChange env s request turn)
      .ok (changed.insertAudit (auditColumns env request turn))

/-! ### The reads -/

/-- A change as `listChanges` reads it: only the payloads can hold a text of a turn. -/
structure ChangeLogRecord where
  seq : ℚ
  before : Option Json
  after : Option Json

def seqOf (row : Row) : ℚ :=
  match (row "seq").number? with
  | some (.finite seq) => seq
  | _ => 0

def payloadOf : Cell → Option Json
  | .json value => some value
  | _ => none

def changeFromSql (row : Row) : ChangeLogRecord :=
  ⟨seqOf row, payloadOf (row "before_json"), payloadOf (row "after_json")⟩

/-- The entries after the cursor, the newest first. -/
def listChanges (tables : TableRows) (limit : ℕ) (cursor : Option ℚ) : List ChangeLogRecord :=
  ((((tables .memoryChangeLog).filter fun row =>
    match cursor with
    | some seq => seq = 0 ∨ seq < seqOf row
    | none => True).mergeSort fun r r' => seqOf r' ≤ seqOf r).take limit).map changeFromSql

/-! ### The texts of a turn -/

/-- The JSON value is, or has inside it, the value `x`. -/
inductive Holds (x : Json) : Json → Prop where
  | self : Holds x x
  | item {items : List Json} {value : Json} (hvalue : value ∈ items) (h : Holds x value) : Holds x (.arr items)
  | field {fields : JsonObject} {f : String × Json} (hf : f ∈ fields) (h : Holds x f.2) : Holds x (.obj fields)

/-- The cell returns the value `x`. -/
def Returns (x : Json) : Cell → Prop
  | .text s => x = .str s
  | .json value => Holds x value
  | _ => False

def itemsOf : Json → List Json
  | .arr items => items
  | _ => []

/-- The user text, the answer, the summary of the reasoning and the tool payloads; an empty text is
none. -/
def RawTurnRecord.texts (turn : RawTurnRecord) : List Json :=
  ([turn.userText, turn.assistantText, turn.reasoningSummary].reduceOption.filter (· ≠ "")).map .str ++
    (itemsOf turn.toolCalls ++ itemsOf turn.toolResults)

/-- **No export, no raw turn and no change that is read returns one of the texts.** -/
structure Silent (texts : List Json) (s : Service) : Prop where
  exported : ∀ (env : Env) (includeRawText : Bool) (table : BundleTable),
    ∀ row ∈ exportBundleTables env includeRawText s.tables table, ∀ column, ∀ x ∈ texts,
      ¬ Returns x (row column)
  turns : ∀ id turn, getRawTurn s.tables id = some turn → ∀ x ∈ texts, ¬ Holds x turn.toJson
  changes : ∀ limit cursor, ∀ change ∈ listChanges s.tables limit cursor, ∀ payload,
    change.before = some payload ∨ change.after = some payload → ∀ x ∈ texts, ¬ Holds x payload

variable {name : String}

variable {fields : List (String × Option Json)} {turn : RawTurnRecord}

theorem mem_definedFields {value : Json}
    (h : (name, some value) ∈ fields) : (name, value) ∈ definedFields fields :=
  mem_filterMap.mpr ⟨_, h, rfl⟩

theorem get?_definedFields
    (h : name ∉ fields.map (·.1)) : JsonObject.get? (definedFields fields) name = none := by
  have hkeys : ∀ f ∈ definedFields fields, ¬ f.1 = name := by
    intro f hf hname
    obtain ⟨field, hfield, hvalue⟩ := mem_filterMap.mp hf
    obtain ⟨value, -, rfl⟩ := Option.map_eq_some_iff.mp hvalue
    exact h (mem_map.mpr ⟨field, hfield, hname⟩)
  unfold JsonObject.get?
  rw [find?_eq_none.mpr fun f hf => by simpa using hkeys f hf, Option.map_none]

theorem holds_field {x value : Json}
    (hname : (name, some value) ∈ turn.fields) (h : Holds x value) : Holds x turn.toJson :=
  .field (mem_definedFields hname) h

open RawTurnRecord

theorem holds_toJson {x : Json} (h : x ∈ turn.texts) : Holds x turn.toJson := by
  have hitems : ∀ {value : Json}, x ∈ itemsOf value → Holds x value := by
    intro value hx
    cases value with
    | arr items => exact .item hx .self
    | _ => exact absurd hx not_mem_nil
  rcases mem_append.mp h with h | h
  · obtain ⟨text, htext, rfl⟩ := mem_map.mp h
    have hsome := reduceOption_mem_iff.mp (mem_filter.mp htext).1
    simp only [mem_cons, not_mem_nil, or_false] at hsome
    rcases hsome with hsome | hsome | hsome
    · exact holds_field (show ("userText", _) ∈ turn.fields by simp [fields, ← hsome]) .self
    · exact holds_field (show ("assistantText", _) ∈ turn.fields by
        simp [fields, ← hsome]) .self
    · exact holds_field (show ("reasoningSummary", _) ∈ turn.fields by
        simp [fields, ← hsome]) .self
  · rcases mem_append.mp h with h | h
    · exact holds_field (show ("toolCalls", _) ∈ turn.fields by simp [fields]) (hitems h)
    · exact holds_field (show ("toolResults", _) ∈ turn.fields by simp [fields]) (hitems h)

theorem compact_toJson (env : Env) (turn : RawTurnRecord) :
    compactHistoryChangePayload env turn.toJson = turn.toJson := by
  refine compact_of_noProperties env fun value hvalue => ?_
  obtain rfl := Option.some.inj hvalue
  exact get?_definedFields (by simp [fields])

section

variable {env : RedactEnv} {s s' : Service} {rawTurnId : String} {request : RawTurnRedactRequest}
  {turn : RawTurnRecord}

/-- **The newest entry of the change log holds the turn as it was read.** -/
theorem logged_before (hturn : getRawTurn s.tables rawTurnId = some turn)
    (h : redactRawTurn env s rawTurnId request = .ok s') :
    ∃ row ∈ s'.tables .memoryChangeLog, row "before_json" = .json turn.toJson := by
  unfold redactRawTurn at h
  by_cases hadd : s.enableMemoryAdd = false
  · rw [if_pos hadd] at h
    cases h
  rw [if_neg hadd, hturn] at h
  obtain rfl := Except.ok.inj h
  refine ⟨changeRow env.toEnv (s.changeSeq + 1) (redactionChange env s request turn), ?_, ?_⟩
  · exact mem_append_right _ (mem_singleton_self _)
  · change Cell.json (compactHistoryChangePayload env.toEnv turn.toJson) = _
    rw [compact_toJson]

/-- **A redaction withholds the texts of a turn exactly when it has none.** -/
theorem silent_iff (hturn : getRawTurn s.tables rawTurnId = some turn)
    (h : redactRawTurn env s rawTurnId request = .ok s') :
    Silent turn.texts s' ↔ turn.texts = [] := by
  constructor
  · intro hsilent
    refine eq_nil_iff_forall_not_mem.mpr fun x hx => ?_
    obtain ⟨row, hrow, hbefore⟩ := logged_before hturn h
    have hexported : finalRow env.toEnv .memoryChangeLog row ∈
        exportBundleTables env.toEnv false s'.tables .memoryChangeLog := by
      rw [export_table env.toEnv s'.tables (by simp)]
      exact mem_map.mpr ⟨row, mem_filter.mpr ⟨hrow, rfl⟩, rfl⟩
    refine hsilent.exported env.toEnv false .memoryChangeLog _ hexported "before_json" x hx ?_
    rw [finalRow_shown env.toEnv row (by simp [withheld]) (by simp) (by simp), shownCell,
      if_pos ⟨rfl, Or.inl rfl⟩, hbefore]
    change Holds x (compactHistoryChangePayload env.toEnv turn.toJson)
    rw [compact_toJson]
    exact holds_toJson hx
  · intro hnone
    rw [hnone]
    exact ⟨by simp, by simp, by simp⟩

/-- **What leaves of the raw texts.** The exports of two databases that differ only in what comes from the
texts of the turns are equal exactly when the exported cells outside the blanked and reset columns agree;
a redaction withholds the texts of a turn exactly when the turn has none. -/
theorem rawTexts_stay_iff {derived : BundleTable → String → Prop} {d e : TableRows}
    (hderived : FromTexts derived) (hd : DifferOnlyIn derived d e)
    (hturn : getRawTurn s.tables rawTurnId = some turn)
    (h : redactRawTurn env s rawTurnId request = .ok s') :
    (exportBundleTables env.toEnv false d = exportBundleTables env.toEnv false e ↔
      AgreeInExported env.toEnv derived d e) ∧
    (Silent turn.texts s' ↔ turn.texts = []) :=
  ⟨export_eq_iff env.toEnv hderived hd, silent_iff hturn h⟩

end

/-! ### A sub-agent and its task -/

namespace Example

def env : RedactEnv where
  nowIso := "2026-01-02T00:00:00.000Z"
  stringOf cell := cell.text?.getD "null"
  sha256Hex text := text
  byteLength text := text.utf8ByteSize
  isSummaryId _ := false
  namespaceIdOf _ _ := "memmy/default"
  auditId := "audit_1"

/-- The turn that starts a sub-agent: its task is the text of the user. -/
def startedTurn (task : String) : Row :=
  rowOf [
    ("id", .text "raw_1"),
    ("session_id", .text "session_1"),
    ("episode_id", .text "episode_1"),
    ("turn_id", .text "turn_1"),
    ("user_id", .text "user_1"),
    ("user_text", .text task),
    ("tool_calls_json", .json (.arr [])),
    ("tool_results_json", .json (.arr [])),
    ("source_memory_ids_json", .json (.arr [])),
    ("usage_json", .json (.obj [])),
    ("message_payload_json", .json (.obj [("subagentStart", .obj [("task", .str task)])])),
    ("status", .text "succeeded"),
    ("created_at", .text "2026-01-01T00:00:00.000Z")]

def tables (task : String) : TableRows := fun table =>
  if table = .rawTurns then [startedTurn task] else []

def derived (table : BundleTable) (column : String) : Prop :=
  table = .rawTurns ∧ (column = "user_text" ∨ column = "message_payload_json")

theorem derived_fromTexts : FromTexts derived where
  content := by
    rintro table column ⟨rfl, rfl | rfl⟩ <;> simp [bookkeeping]
  cursors := fun _ h => nomatch h.1

theorem tables_differ (task task' : String) : DifferOnlyIn derived (tables task) (tables task') := by
  intro table
  by_cases htable : table = .rawTurns
  · subst htable
    refine List.Forall₂.cons (fun column hcolumn => ?_) List.Forall₂.nil
    have htext : column ≠ "user_text" := fun h => hcolumn ⟨rfl, Or.inl h⟩
    have hpayload : column ≠ "message_payload_json" := fun h => hcolumn ⟨rfl, Or.inr h⟩
    simp only [startedTurn, rowOf, foldl_cons, foldl_nil, Row.set, Function.update_apply,
      if_neg htext, if_neg hpayload]
  · simp only [tables, if_neg htable]
    exact List.Forall₂.nil

def service : Service where
  tables := tables "my password is 1234"
  changeSeq := 0
  enableMemoryAdd := true

def request : RawTurnRedactRequest := ⟨none, none, none⟩

def redacted : Service := (redactRawTurn env service "raw_1" request).toOption.getD service

theorem reads : getRawTurn service.tables "raw_1" =
    some (rawTurnFromSql (startedTurn "my password is 1234")) := by
  simp [getRawTurn, service, tables, startedTurn, rowOf, Row.set, Cell.text?]

theorem redacts : redactRawTurn env service "raw_1" request = .ok redacted := by
  rfl

theorem has_text : .str "my password is 1234" ∈
    (rawTurnFromSql (startedTurn "my password is 1234")).texts := by
  simp [texts, rawTurnFromSql, startedTurn, rowOf, Row.set, Cell.text?,
    List.reduceOption, Cell.parseJson, itemsOf]

/-- The two exports tell the tasks apart, and the redacted text is in the change log. -/
theorem task_leaves :
    (FromTexts derived ∧ DifferOnlyIn derived (tables "a") (tables "b") ∧
      exportBundleTables env.toEnv false (tables "a") ≠
        exportBundleTables env.toEnv false (tables "b")) ∧
    redactRawTurn env service "raw_1" request = .ok redacted ∧
    ¬ Silent (rawTurnFromSql (startedTurn "my password is 1234")).texts redacted := by
  refine ⟨⟨derived_fromTexts, tables_differ _ _, fun h => ?_⟩, redacts, fun h => ?_⟩
  · have hagree := (export_eq_iff env.toEnv derived_fromTexts (tables_differ "a" "b")).mp h
    have hcell : Cell.json (.obj [("subagentStart", .obj [("task", .str "a")])]) =
        .json (.obj [("subagentStart", .obj [("task", .str "b")])]) :=
      (List.forall₂_cons.mp (hagree .rawTurns)).1 rfl "message_payload_json" ⟨rfl, Or.inr rfl⟩
        (by simp [withheld, blankedColumns])
    simp at hcell
  · have htext := has_text
    rw [(silent_iff reads redacts).mp h] at htext
    exact not_mem_nil htext

theorem task_leaves_iff :
    (exportBundleTables env.toEnv false (tables "a") =
        exportBundleTables env.toEnv false (tables "b") ↔
      AgreeInExported env.toEnv derived (tables "a") (tables "b")) ∧
    (Silent (rawTurnFromSql (startedTurn "my password is 1234")).texts redacted ↔
      (rawTurnFromSql (startedTurn "my password is 1234")).texts = []) :=
  rawTexts_stay_iff derived_fromTexts (tables_differ "a" "b") reads redacts

end Example

end Memmy.Bundle.Redaction
