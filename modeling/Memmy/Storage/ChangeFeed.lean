import Mathlib.Data.Rat.Floor
import Memmy.Lib.Newest
import Memmy.Lib.Result

/-! # The change log and its cursor

`appendChange` inserts a row with the next sequence number, `listChanges` reads the newest rows behind
a cursor, and `pruneLogTable` keeps the newest rows of the table. A cursor that the service gives out
is a token that names the backend it was made for; a plain number is accepted as well.

* `ChangeLog`: the rows, with the counter of `AUTOINCREMENT` that no row is above.
* `decode_encode`: a token decodes to the sequence number it was made for. -/

namespace Memmy.Storage.ChangeFeed

open Lib.Newest Lib.Result List

/-! ### The table -/

/-- What a writer appends. -/
structure Change where
  memoryId : String
  entityId : Option String := none
  userId : String
  changeType : String
  source : String
  createdAt : String
deriving DecidableEq

/-- A row of `memory_change_log`. -/
structure ChangeLogRecord where
  seq : ℕ
  memoryId : String
  entityId : String
  userId : String
  changeType : String
  source : String
  createdAt : String
deriving DecidableEq

/-- The table, with the last number that `AUTOINCREMENT` gave out. -/
structure ChangeLog where
  rows : List ChangeLogRecord
  lastInsertRowid : ℕ
  nodup : (rows.map (·.seq)).Nodup
  bounds : ∀ r ∈ rows, 0 < r.seq ∧ r.seq ≤ lastInsertRowid

def Change.row (change : Change) (seq : ℕ) : ChangeLogRecord where
  seq := seq
  memoryId := change.memoryId
  entityId := change.entityId.getD change.memoryId
  userId := change.userId
  changeType := change.changeType
  source := change.source
  createdAt := change.createdAt

namespace ChangeLog
variable (log : ChangeLog)

theorem rows_nodup : log.rows.Nodup := List.Nodup.of_map _ log.nodup

/-- The row that `appendChange` inserts. -/
def appended (change : Change) : ChangeLogRecord := change.row (log.lastInsertRowid + 1)

@[simp] theorem appended_seq (change : Change) : (log.appended change).seq = log.lastInsertRowid + 1 := rfl

def appendChange (change : Change) : ChangeLog where
  rows := log.rows ++ [log.appended change]
  lastInsertRowid := log.lastInsertRowid + 1
  nodup := by
    rw [map_append, nodup_append]
    refine ⟨log.nodup, nodup_singleton _, fun n hn m hm => ?_⟩
    obtain ⟨r, hr, rfl⟩ := mem_map.mp hn
    have := (log.bounds r hr).2
    have hm : m = log.lastInsertRowid + 1 := by simpa using hm
    omega
  bounds := fun r hr => by
    rcases mem_append.mp hr with hr | hr
    · have := log.bounds r hr
      omega
    · rw [mem_singleton.mp hr, appended_seq]
      omega

def logTableRetentionLimit : ℕ := 10000

/-- `pruneLogTable("memory_change_log")` -/
def pruneLogTable : ChangeLog where
  rows := log.rows.filter (· ∈ newest (·.seq) logTableRetentionLimit log.rows)
  lastInsertRowid := log.lastInsertRowid
  nodup := log.nodup.sublist (filter_sublist.map _)
  bounds := fun r hr => log.bounds r (mem_of_mem_filter hr)

/-- The rows behind a cursor; the cursor `0` is no cursor. -/
def behind (cursor : ℕ) : List ChangeLogRecord :=
  if cursor ≠ 0 then log.rows.filter (cursor < ·.seq) else log.rows

def listChanges (limit cursor : ℕ) : List ChangeLogRecord := newest (·.seq) limit (log.behind cursor)

variable {log} {r : ChangeLogRecord} {cursor limit : ℕ}

@[simp] theorem mem_appendChange {change : Change} :
    r ∈ (log.appendChange change).rows ↔ r ∈ log.rows ∨ r = log.appended change := by
  simp [appendChange]

theorem mem_of_mem_pruneLogTable (h : r ∈ log.pruneLogTable.rows) : r ∈ log.rows := mem_of_mem_filter h

theorem behind_eq : log.behind cursor = log.rows.filter (cursor < ·.seq) := by
  unfold behind
  split_ifs with hzero
  · rfl
  · have hzero : cursor = 0 := not_not.mp hzero
    subst hzero
    exact (filter_eq_self.mpr fun r hr => decide_eq_true (log.bounds r hr).1).symm

@[simp] theorem mem_behind : r ∈ log.behind cursor ↔ r ∈ log.rows ∧ cursor < r.seq := by
  rw [behind_eq, mem_filter, decide_eq_true_iff]

theorem behind_nodup : (log.behind cursor).Nodup := by
  rw [behind_eq]
  exact log.rows_nodup.filter _

theorem mem_listChanges (h : r ∈ log.listChanges limit cursor) : r ∈ log.rows ∧ cursor < r.seq :=
  mem_behind.mp (mem_of_mem_newest h)

theorem listChanges_nodup : (log.listChanges limit cursor).Nodup := nodup_newest behind_nodup

end ChangeLog

/-! ### Cursors -/

inductive Code where
  | invalidArgument
  | conflict
deriving DecidableEq

structure MemoryServiceError where
  code : Code
  message : String
deriving DecidableEq

structure StorageBackendCapabilities where
  backendId : String
  schemaVersion : String
deriving DecidableEq

/-- The record inside a token. -/
structure CursorPayload where
  v : ℕ
  backendId : String
  schemaVersion : String
  namespaceId : String
  seq : ℚ
deriving DecidableEq

/-- A cursor by how it is read: digits, a token `cur_…` that holds a payload, or any other text. -/
inductive Cursor where
  | digits (n : ℕ)
  | token (payload : CursorPayload)
  | other
deriving DecidableEq

def encodeChangeCursor (capabilities : StorageBackendCapabilities) (seq : ℕ) : Cursor :=
  .token {
    v := 1
    backendId := capabilities.backendId
    schemaVersion := capabilities.schemaVersion
    namespaceId := ""
    seq := seq }

def notValid : MemoryServiceError := ⟨.invalidArgument, "change cursor is not valid"⟩

def differentBackend : MemoryServiceError :=
  ⟨.conflict, "change cursor belongs to a different backend or schema"⟩

def decodeChangeCursor (capabilities : StorageBackendCapabilities) : Option Cursor → Except MemoryServiceError ℕ
  | none => .ok 0
  | some (.digits n) => .ok n
  | some .other => .error notValid
  | some (.token payload) => do
    throwIf (payload.v ≠ 1) notValid
    throwIf (payload.backendId ≠ capabilities.backendId ∨
      payload.schemaVersion ≠ capabilities.schemaVersion) differentBackend
    .ok ⌊payload.seq⌋.toNat

/-- **A token decodes** to the number it was made for. -/
@[simp] theorem decode_encode (capabilities : StorageBackendCapabilities) (seq : ℕ) :
    decodeChangeCursor capabilities (some (encodeChangeCursor capabilities seq)) = .ok seq := by
  simp [decodeChangeCursor, encodeChangeCursor, throwIf]

end Memmy.Storage.ChangeFeed
