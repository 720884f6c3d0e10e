import Memmy.Lib.Result
import Memmy.Lib.Unique
import Memmy.Storage.EvidenceBatches

/-! # The windows of the work memory

A session has one cursor in its input traces.  A pass takes the traces behind the cursor up to a bound, cuts them
into windows of at most twenty raw turns, queues one job for the questions and answers of each window, and moves the
cursor after each.  The cursor goes to the last trace of the raw turn that the window has met last, which need not
be the last trace of the window.

* `takeTurns_ok`, `takeWindow_ok`: no window is cut by the number of its pairs.
* `extractWindows_ok`: the windows of a pass, one for each chunk, and the cursor after them.
* `extracts_iff`: a pass schedules every raw turn once and moves the cursor to its last trace exactly if no raw turn
  lies in two windows and the last trace of the last window is of the raw turn that the window has met last. -/

namespace Memmy.WorkMemory.Windows

open Lib.Blocks Lib.JsonValue Lib.Result Lib.Sort Lib.Unique Storage.Jobs List Option
open Memmy.Storage.EvidenceBatches (InputTrace maxTraceSeq splitL3TracesByRawTurn)

/-! ### The tables -/

structure Session where
  id : String
  userId : String
  projectId : Option String
  source : String
  protocolVersion : Option ℕ

structure RawTurn where
  id : String
  userId : String
  sessionId : String
  userText : Option String
  assistantText : Option String
  /-- `deleted_at` or `redacted_at` is set. -/
  withheld : Bool := false

structure Db where
  sessions : List Session
  rawTurns : List RawTurn
  traces : List InputTrace
  keys : (traces.map fun t => (t.sessionId, t.traceSeq)).Nodup
  /-- `work_memory_session_cursors`: the session and `last_extracted_seq`. -/
  cursors : List (String × ℕ) := []
  jobs : List Job := []

def getSession (db : Db) (sessionId : String) : Option Session := db.sessions.find? fun s => s.id = sessionId

def getRawTurn (db : Db) (rawTurnId : String) : Option RawTurn := db.rawTurns.find? fun t => t.id = rawTurnId

def maxInputTraceSeq (db : Db) (sessionId : String) : ℕ :=
  maxTraceSeq (db.traces.filter fun t => t.sessionId = sessionId)

def listInputTracesInRange (db : Db) (sessionId : String) (after through : ℕ) : List InputTrace :=
  sortBy (ascending fun t => t.traceSeq)
    (db.traces.filter fun t => t.sessionId = sessionId && after < t.traceSeq && t.traceSeq ≤ through)

def cursorOf (db : Db) (sessionId : String) : ℕ :=
  ((db.cursors.find? fun c => c.1 = sessionId).map fun c => c.2).getD 0

/-- `ensureWorkMemoryCursor(sessionId, 0)` -/
def ensureWorkMemoryCursor (sessionId : String) (db : Db) : Db :=
  if db.cursors.any fun c => c.1 = sessionId then db else { db with cursors := db.cursors ++ [(sessionId, 0)] }

def setWorkMemoryCursor (sessionId : String) (seq : ℕ) (db : Db) : Db :=
  { db with cursors := db.cursors.map fun c => if c.1 = sessionId then (c.1, seq) else c }

/-! ### Questions and answers -/

structure QaPair where
  user : String
  assistant : String
  deriving DecidableEq

/-- `value.replace(/\r\n?/gu, "\n")`, on the characters. -/
def newlines : List Char → List Char
  | [] => []
  | '\r' :: '\n' :: cs => '\n' :: newlines cs
  | c :: cs => (if c = '\r' then '\n' else c) :: newlines cs

def normalizeQaText (value : String) : String := String.ofList (newlines value.toList)

/-- A raw turn that is deleted, redacted or without text has no pair. -/
def qaForRawTurn (db : Db) (userId sessionId rawTurnId : String) : Except String (Option QaPair) :=
  match (getRawTurn db rawTurnId).filter fun t => !t.withheld with
  | none => .ok none
  | some rawTurn =>
    if rawTurn.userId ≠ userId ∨ rawTurn.sessionId ≠ sessionId then
      .error s!"work memory RawTurn scope mismatch: {rawTurnId}"
    else
      let user := normalizeQaText (rawTurn.userText.getD "")
      let assistant := normalizeQaText (rawTurn.assistantText.getD "")
      if user = "" ∧ assistant = "" then .ok none
      else
        .ok (some
          { user := user
            assistant := assistant })

/-! ### Windows -/

/-- `WORK_MEMORY_WINDOW_MAX_RAW_TURNS` -/
def windowMaxRawTurns : ℕ := 20

/-- `WORK_MEMORY_WINDOW_MAX_QA_PAIRS` -/
def windowMaxQaPairs : ℕ := 20

/-- A window: the traces it was built from, the raw turns it has taken, their pairs, and where the cursor goes. -/
structure Window where
  traces : List InputTrace
  turns : List String := []
  qa : List QaPair := []
  throughTraceSeq : ℕ
  truncated : Bool := false

/-- `[...new Set(chunk.map((trace) => trace.rawTurnId))]` -/
def rawTurnIds (chunk : List InputTrace) : List String := (chunk.map fun t => t.rawTurnId).eraseDups

/-- `lastTraceByRawTurnId.get(rawTurnId)` -/
def lastTraceOf (chunk : List InputTrace) (rawTurnId : String) : ℕ :=
  ((chunk.filter fun t => t.rawTurnId = rawTurnId).getLast?.map fun t => t.traceSeq).getD 0

/-- The loop over the raw turns of a chunk. -/
def takeTurns (db : Db) (userId sessionId : String) : List String → Window → Except String Window
  | [], w => .ok w
  | rawTurnId :: rest, w => do
    let pair ← qaForRawTurn db userId sessionId rawTurnId
    if pair.isSome ∧ windowMaxQaPairs ≤ w.qa.length then .ok { w with truncated := true }
    else
      takeTurns db userId sessionId rest
        { w with
          qa := w.qa ++ pair.toList
          turns := w.turns ++ [rawTurnId]
          throughTraceSeq := lastTraceOf w.traces rawTurnId }

def takeWindow (db : Db) (userId sessionId : String) (chunk : List InputTrace) : Except String Window :=
  takeTurns db userId sessionId (rawTurnIds chunk)
    { traces := chunk
      throughTraceSeq := (chunk.head?.map fun t => t.traceSeq).getD 0 }

/-! ### Jobs -/

/-- The hashes that make the keys of a job. -/
structure Hashes where
  trajectoryHashForQa : List QaPair → String
  dedupeKey : String → String → Option String → String → String
  scopeKey : String → Option String → String

/-- What a pass is given from outside: the hashes, the clock, the other tables of the job queue, and new ids. -/
structure Surroundings where
  hashes : Hashes
  at_ : ℕ
  jobTables : Storage.Jobs.Surroundings := {}
  newJobId : ℕ → String

def normalizeProjectId (value : Option String) : Option String :=
  (value.map Memmy.Lib.Text.trim).filter fun text => text ≠ ""

def nextWorkMemoryScopeSeq (scopeKey : String) (jobs : List Job) : ℕ :=
  ((jobs.filter fun j => j.jobType = "work_memory_extract" && j.scopeKey = some scopeKey).filterMap
    fun j => j.scopeSeq).foldr max 0 + 1

def qaJson (qa : List QaPair) : Json :=
  .arr (qa.map fun pair => .obj [("user", .str pair.user), ("assistant", .str pair.assistant)])

/-- The job of a window, over one of its key that has failed. -/
def extractJob (w : Surroundings) (session : Session) (qa : List QaPair) (dedupeKey : String) (existing : Option Job)
    (jobs : List Job) : Job :=
  let scopeKey := w.hashes.scopeKey session.userId (normalizeProjectId session.projectId)
  { id := (existing.map fun j => j.id).getD (w.newJobId jobs.length)
    jobType := "work_memory_extract"
    status := .queued
    dedupeKey := some dedupeKey
    userId := session.userId
    sessionId := some session.id
    scopeKey := some scopeKey
    scopeSeq := (existing.bind fun j => j.scopeSeq).or (some (nextWorkMemoryScopeSeq scopeKey jobs))
    payload := { fields := [("trajectoryHash", .str (w.hashes.trajectoryHashForQa qa)), ("qa", qaJson qa)] }
    attempts := (existing.map fun j => j.attempts).getD 0
    maxAttempts := max ((existing.map fun j => j.maxAttempts).getD 3) 3
    createdAt := (existing.map fun j => j.createdAt).getD w.at_
    updatedAt := w.at_ }

def orUnknown (source : String) : String :=
  if Memmy.Lib.Text.trim source = "" then "unknown" else Memmy.Lib.Text.trim source

/-- `scheduleQaInTransaction`: the job of the pairs is there afterwards. -/
def scheduleQa (w : Surroundings) (session : Session) (qa : List QaPair) (db : Db) : Except String Db :=
  let dedupeKey := w.hashes.dedupeKey session.userId (orUnknown session.source) (normalizeProjectId session.projectId)
    (w.hashes.trajectoryHashForQa qa)
  let existing := getJobByDedupeKey dedupeKey db.jobs
  if existing.any fun j => j.status ≠ .failed then .ok db
  else
    (enqueueJob w.jobTables (extractJob w session qa dedupeKey existing db.jobs) db.jobs).map fun jobs =>
      { db with jobs := jobs }

/-! ### A pass -/

/-- What a pass has done; the source returns the number of the windows. -/
structure Extraction where
  windows : List Window := []
  enqueued : ℕ := 0
  cursorAdvancedTo : ℕ := 0

/-- A window with pairs gets its job. -/
def scheduleWindow (w : Surroundings) (session : Session) (window : Window) (db : Db) : Except String Db :=
  if window.qa = [] then .ok db else scheduleQa w session window.qa db

/-- The loop over the chunks. -/
def extractWindows (w : Surroundings) (session : Session) : List (List InputTrace) → Db → Extraction →
    Except String (Db × Extraction)
  | [], db, e => .ok (db, e)
  | chunk :: rest, db, e => do
    let window ← takeWindow db session.userId session.id chunk
    let db ← scheduleWindow w session window db
    let db := setWorkMemoryCursor session.id window.throughTraceSeq db
    let e : Extraction :=
      { windows := e.windows ++ [window]
        enqueued := e.enqueued + if window.qa = [] then 0 else 1
        cursorAdvancedTo := window.throughTraceSeq }
    if window.truncated then .ok (db, e) else extractWindows w session rest db e

/-- The traces of a pass. -/
def unextracted (db : Db) (sessionId : String) (throughTraceSeq : ℕ) : List InputTrace :=
  listInputTracesInRange db sessionId (cursorOf db sessionId) (min throughTraceSeq (maxInputTraceSeq db sessionId))

def extractUnextracted (w : Surroundings) (sessionId : String) (throughTraceSeq : ℕ) (db : Db) :
    Except String (Db × Extraction) :=
  match getSession db sessionId with
  | none => .ok (db, {})
  | some session =>
    if session.protocolVersion ≠ some 2 then .ok (db, {})
    else
      let db := ensureWorkMemoryCursor sessionId db
      let cursor := cursorOf db sessionId
      let endTraceSeq := min throughTraceSeq (maxInputTraceSeq db sessionId)
      if endTraceSeq ≤ cursor then .ok (db, { cursorAdvancedTo := cursor })
      else
        let traces := listInputTracesInRange db sessionId cursor endTraceSeq
        if traces = [] then .ok (db, { cursorAdvancedTo := cursor })
        else
          extractWindows w session (splitL3TracesByRawTurn traces windowMaxRawTurns) db
            { cursorAdvancedTo := cursor }

/-! ### One window -/

/-- Where the cursor goes after a chunk: the last trace of the raw turn that the chunk has met last. -/
def throughOf (chunk : List InputTrace) : ℕ :=
  ((rawTurnIds chunk).getLast?.map fun rawTurnId => lastTraceOf chunk rawTurnId).getD 0

structure IsWindow (chunk : List InputTrace) (w : Window) : Prop where
  traces : w.traces = chunk
  turns : w.turns = rawTurnIds chunk
  whole : w.truncated = false
  through : w.throughTraceSeq = throughOf chunk

variable {db : Db} {chunk : List InputTrace} {sessionId : String}

variable {chunks : List (List InputTrace)} {traces : List InputTrace} {session : Session} {userId : String} {w : Surroundings}

/-- **The pairs never fill a window** before its raw turns do. -/
theorem takeTurns_ok : ∀ {ids : List String} {w w' : Window},
    takeTurns db userId sessionId ids w = .ok w' → w.qa.length ≤ w.turns.length →
      w.turns.length + ids.length ≤ windowMaxQaPairs →
      w'.traces = w.traces ∧ w'.turns = w.turns ++ ids ∧ w'.truncated = w.truncated ∧
        w'.throughTraceSeq = (ids.getLast?.map fun id => lastTraceOf w.traces id).getD w.throughTraceSeq
  | [], w, w', h, _, _ => by
    obtain rfl : w = w' := Except.ok.inj h
    simp
  | rawTurnId :: rest, w, w', h, hqa, hlen => by
    obtain ⟨pair, -, h⟩ := bind_eq_ok.mp h
    rw [length_cons] at hlen
    have hroom : ¬ (pair.isSome = true ∧ windowMaxQaPairs ≤ w.qa.length) := fun hfull => by omega
    rw [if_neg hroom] at h
    have hpair : pair.toList.length ≤ 1 := by cases pair <;> simp
    obtain ⟨htraces, hturns, htruncated, hthrough⟩ := takeTurns_ok h
      (by simp only [length_append, length_singleton]; omega)
      (by simp only [length_append, length_singleton]; omega)
    refine ⟨htraces, by rw [hturns]; simp, htruncated, ?_⟩
    rw [hthrough, getD_getLast?_cons]

theorem rawTurnIds_ne_nil (h : chunk ≠ []) : rawTurnIds chunk ≠ [] := by
  obtain ⟨t, rest, rfl⟩ := exists_cons_of_ne_nil h
  exact ne_nil_of_mem (mem_eraseDups.mpr (mem_map_of_mem (mem_cons_self)))

def Fits (chunk : List InputTrace) : Prop := chunk ≠ [] ∧ (rawTurnIds chunk).length ≤ windowMaxQaPairs

theorem takeWindow_ok {w : Window}
    (hfits : Fits chunk) (h : takeWindow db userId sessionId chunk = .ok w) : IsWindow chunk w := by
  obtain ⟨htraces, hturns, htruncated, hthrough⟩ := takeTurns_ok h (Nat.le_refl _) (by simpa using hfits.2)
  refine ⟨htraces, hturns, htruncated, ?_⟩
  rw [hthrough]
  unfold throughOf
  rw [getLast?_eq_some_getLast (rawTurnIds_ne_nil hfits.1)]
  rfl

theorem fits_of_mem_split (h : chunk ∈ splitL3TracesByRawTurn traces windowMaxRawTurns) : Fits chunk :=
  ⟨chunk_ne_nil (by decide) h, length_eraseDups_chunk_le (by decide) h⟩

/-! ### The windows of a pass -/

theorem scheduleWindow_cursors {window : Window} {db' : Db}
    (h : scheduleWindow w session window db = .ok db') : db'.cursors = db.cursors := by
  unfold scheduleWindow scheduleQa at h
  dsimp only at h
  by_cases hempty : window.qa = []
  · rw [if_pos hempty] at h
    cases h
    rfl
  · rw [if_neg hempty] at h
    split at h
    · cases h
      rfl
    · generalize enqueueJob _ _ db.jobs = queued at h
      cases queued with
      | error e => cases h
      | ok jobs =>
        cases h
        rfl

def HasCursor (sessionId : String) (db : Db) : Prop := (db.cursors.any fun c => c.1 = sessionId) = true

theorem find?_setCursor (sessionId : String) (seq : ℕ) : ∀ cursors : List (String × ℕ),
    (cursors.map fun c => if c.1 = sessionId then (c.1, seq) else c).find? (fun c => c.1 = sessionId) =
      (cursors.find? fun c => c.1 = sessionId).map fun c => (c.1, seq)
  | [] => rfl
  | c :: cursors => by
    rw [map_cons, find?_cons, find?_cons, find?_setCursor]
    by_cases hc : c.1 = sessionId
    · simp [hc]
    · simp [hc]

theorem cursorOf_setWorkMemoryCursor (h : HasCursor sessionId db) (seq : ℕ) :
    cursorOf (setWorkMemoryCursor sessionId seq db) sessionId = seq ∧
      HasCursor sessionId (setWorkMemoryCursor sessionId seq db) := by
  obtain ⟨c, hc, hid⟩ := any_eq_true.mp h
  have hsome : (db.cursors.find? fun c => c.1 = sessionId).isSome = true := find?_isSome.mpr ⟨c, hc, hid⟩
  obtain ⟨found, hfound⟩ := isSome_iff_exists.mp hsome
  constructor
  · unfold cursorOf setWorkMemoryCursor
    rw [find?_setCursor, hfound]
    rfl
  · refine any_eq_true.mpr ⟨_, mem_map_of_mem hc, ?_⟩
    rw [if_pos (of_decide_eq_true hid)]
    exact hid

/-- **The windows of a pass** are those of its chunks, and the cursor is where the last of them ends. -/
theorem extractWindows_ok : ∀ {chunks : List (List InputTrace)} {db db' : Db}
    {e e' : Extraction}, (∀ chunk ∈ chunks, Fits chunk) → HasCursor session.id db →
      extractWindows w session chunks db e = .ok (db', e') →
      ∃ windows, e'.windows = e.windows ++ windows ∧ List.Forall₂ IsWindow chunks windows ∧
        cursorOf db' session.id = (chunks.getLast?.map throughOf).getD (cursorOf db session.id)
  | [], db, db', e, e', _, _, h => by
    obtain ⟨rfl, rfl⟩ := Prod.mk.inj (Except.ok.inj h)
    exact ⟨[], (append_nil _).symm, .nil, rfl⟩
  | chunk :: rest, db, db', e, e', hfits, hcursor, h => by
    obtain ⟨window, hwindow, h⟩ := bind_eq_ok.mp h
    obtain ⟨db₁, hschedule, h⟩ := bind_eq_ok.mp h
    have hw : IsWindow chunk window := takeWindow_ok (hfits chunk mem_cons_self) hwindow
    have hcursor₁ : HasCursor session.id db₁ := by
      unfold HasCursor
      rw [scheduleWindow_cursors hschedule]
      exact hcursor
    obtain ⟨hset, hkept⟩ := cursorOf_setWorkMemoryCursor hcursor₁ window.throughTraceSeq
    rw [hw.whole, if_neg (by decide)] at h
    obtain ⟨windows, hwindows, hall, hlast⟩ :=
      extractWindows_ok (fun c hc => hfits c (mem_cons_of_mem _ hc)) hkept h
    refine ⟨window :: windows, by rw [hwindows]; simp, .cons hw hall, ?_⟩
    rw [hlast, hset, hw.through, getD_getLast?_cons]

/-! ### What a pass should do -/

/-- A pass over `traces` from a cursor to another one schedules every raw turn once, and the cursor says what. -/
structure Exact (traces : List InputTrace) (cursor : ℕ) (e : Extraction) (cursor' : ℕ) : Prop where
  /-- Every raw turn is taken by one window. -/
  once : ∀ turn ∈ traces.map fun t => t.rawTurnId, (e.windows.filter fun w => turn ∈ w.turns).length = 1
  /-- The windows follow the order of the traces. -/
  ordered : (e.windows.flatMap fun w => w.traces) = traces
  /-- The cursor never moves backward. -/
  forward : (cursor :: e.windows.map fun w => w.throughTraceSeq).Pairwise (· < ·)
  advanced : cursor' = ((e.windows.map fun w => w.throughTraceSeq).getLast?).getD cursor
  /-- Nothing cut off, the cursor ends at the last trace. -/
  final : (∀ w ∈ e.windows, w.truncated = false) → traces ≠ [] →
    (∃ t ∈ traces, t.traceSeq = cursor') ∧ ∀ t ∈ traces, t.traceSeq ≤ cursor'
  /-- No trace above the cursor is scheduled. -/
  above : ∀ w ∈ e.windows, ∀ t ∈ w.traces, t.rawTurnId ∈ w.turns → t.traceSeq ≤ cursor'
  /-- No trace at the cursor or below is skipped. -/
  below : ∀ t ∈ traces, t.traceSeq ≤ cursor' → ∃ w ∈ e.windows, t ∈ w.traces ∧ t.rawTurnId ∈ w.turns

/-- No raw turn lies in two of the chunks, and the last trace of the last chunk is of the raw turn that this chunk has
met last. -/
def Separate (chunks : List (List InputTrace)) : Prop :=
  (chunks.Pairwise fun c c' => ∀ t ∈ c, ∀ t' ∈ c', t.rawTurnId ≠ t'.rawTurnId) ∧
    ∀ c ∈ chunks.getLast?, (rawTurnIds c).getLast? = c.getLast?.map fun t => t.rawTurnId

/-- The traces are in the order of their numbers. -/
def Ascending (traces : List InputTrace) : Prop := traces.Pairwise fun t t' => t.traceSeq < t'.traceSeq

theorem Ascending.eq_of_seq (h : Ascending traces) {t t' : InputTrace} (ht : t ∈ traces)
    (ht' : t' ∈ traces) (hseq : t.traceSeq = t'.traceSeq) : t = t' := by
  by_contra hne
  rcases pairwise_or h ht ht' hne with hlt | hlt <;> omega

theorem throughOf_mem (h : chunk ≠ []) :
    ∃ t ∈ chunk, t.traceSeq = throughOf chunk ∧ (rawTurnIds chunk).getLast? = some t.rawTurnId := by
  have hlast := getLast?_eq_some_getLast (rawTurnIds_ne_nil h)
  obtain ⟨s, hs, hsid⟩ := mem_map.mp (mem_eraseDups.mp (mem_of_getLast? hlast))
  have hne : (chunk.filter fun t => t.rawTurnId = (rawTurnIds chunk).getLast (rawTurnIds_ne_nil h)) ≠ [] :=
    ne_nil_of_mem (mem_filter.mpr ⟨hs, decide_eq_true hsid⟩)
  have hfound := getLast?_eq_some_getLast hne
  obtain ⟨hmem, hid⟩ := mem_filter.mp (mem_of_getLast? hfound)
  refine ⟨_, hmem, ?_, by rw [hlast, of_decide_eq_true hid]⟩
  unfold throughOf lastTraceOf
  rw [hlast, map_some, getD_some, hfound]
  rfl

theorem end_iff (h : chunk ≠ []) (hasc : Ascending chunk) :
    (∀ t ∈ chunk, t.traceSeq ≤ throughOf chunk) ↔
      (rawTurnIds chunk).getLast? = chunk.getLast?.map fun t => t.rawTurnId := by
  obtain ⟨s, hs, hseq, hid⟩ := throughOf_mem h
  have hlast := getLast?_eq_some_getLast h
  rw [hlast, map_some, hid, ← hseq]
  have hmax : ∀ t ∈ chunk, t.traceSeq ≤ (chunk.getLast h).traceSeq := by
    intro t ht
    rw [← dropLast_append_getLast h, mem_append, mem_singleton] at ht
    rcases ht with ht | rfl
    · have hsplit : Ascending (chunk.dropLast ++ [chunk.getLast h]) := (dropLast_append_getLast h).symm ▸ hasc
      exact Nat.le_of_lt ((pairwise_append.mp hsplit).2.2 t ht _ (mem_singleton_self _))
    · exact Nat.le_of_eq rfl
  constructor
  · intro hall
    have hle := hall _ (mem_of_getLast? hlast)
    rw [hasc.eq_of_seq hs (mem_of_getLast? hlast) (Nat.le_antisymm (hmax s hs) hle)]
  · intro hsame t ht
    -- The last trace of this raw turn is the last one of the chunk.
    have hend : lastTraceOf chunk s.rawTurnId = (chunk.getLast h).traceSeq := by
      have hid' : (chunk.getLast h).rawTurnId = s.rawTurnId := (some.inj hsame).symm
      unfold lastTraceOf
      conv_lhs => rw [← dropLast_append_getLast h]
      simp [filter_append, hid']
    have hthrough : throughOf chunk = lastTraceOf chunk s.rawTurnId := by
      unfold throughOf
      rw [hid]
      rfl
    rw [hseq, hthrough, hend]
    exact hmax t ht

theorem windows_of_forall₂ : ∀ {chunks : List (List InputTrace)} {windows : List Window},
    List.Forall₂ IsWindow chunks windows →
      (windows.map fun w => w.traces) = chunks ∧ ∀ w ∈ windows, IsWindow w.traces w
  | [], _, .nil => ⟨rfl, nofun⟩
  | _ :: _, _ :: _, .cons hw hrest => by
    obtain ⟨hmap, hall⟩ := windows_of_forall₂ hrest
    rw [map_cons, hw.traces, hmap, forall_mem_cons]
    exact ⟨rfl, hw.traces.symm ▸ hw, hall⟩

theorem mem_rawTurnIds {turn : String} : turn ∈ rawTurnIds chunk ↔ ∃ t ∈ chunk, t.rawTurnId = turn := by
  unfold rawTurnIds
  rw [mem_eraseDups, List.mem_map]

/-- **Every raw turn is in one window** if no two chunks share one. -/
theorem once_iff {windows : List Window} (hwindows : ∀ w ∈ windows, IsWindow w.traces w) :
    (∀ turn ∈ (windows.flatMap fun w => w.traces).map fun t => t.rawTurnId,
        (windows.filter fun w => turn ∈ w.turns).length = 1) ↔
      (windows.map fun w => w.traces).Pairwise fun c c' => ∀ t ∈ c, ∀ t' ∈ c', t.rawTurnId ≠ t'.rawTurnId := by
  have hmem : ∀ w ∈ windows, ∀ turn, turn ∈ w.turns ↔ ∃ t ∈ w.traces, t.rawTurnId = turn := by
    intro w hw turn
    rw [(hwindows w hw).turns]
    exact mem_rawTurnIds
  have hpairs : ((windows.map fun w => w.traces).Pairwise fun c c' =>
      ∀ t ∈ c, ∀ t' ∈ c', t.rawTurnId ≠ t'.rawTurnId) ↔
      windows.Pairwise fun a b => ∀ turn, decide (turn ∈ a.turns) = true → decide (turn ∈ b.turns) = false := by
    rw [pairwise_map]
    refine List.Pairwise.iff_of_mem fun {a b} ha hb => ?_
    simp only [decide_eq_true_eq, decide_eq_false_iff_not, hmem a ha, hmem b hb]
    constructor
    · rintro h turn ⟨t, ht, rfl⟩ ⟨t', ht', hsame⟩
      exact h t ht t' ht' hsame.symm
    · exact fun h t ht t' ht' hsame => h _ ⟨t, ht, rfl⟩ ⟨t', ht', hsame.symm⟩
  rw [hpairs, ← length_filter_le_one_iff]
  constructor
  · intro h turn
    by_cases hturn : ∃ w ∈ windows, turn ∈ w.turns
    · obtain ⟨w, hw, hin⟩ := hturn
      obtain ⟨t, ht, rfl⟩ := (hmem w hw turn).mp hin
      exact Nat.le_of_eq (h _ (mem_map_of_mem (mem_flatMap.mpr ⟨w, hw, ht⟩)))
    · rw [filter_eq_nil_iff.mpr fun w hw hin => hturn ⟨w, hw, of_decide_eq_true hin⟩]
      exact Nat.zero_le 1
  · intro h turn hturn
    obtain ⟨t, ht, rfl⟩ := mem_map.mp hturn
    obtain ⟨w, hw, htw⟩ := mem_flatMap.mp ht
    have hin : w ∈ windows.filter fun w => t.rawTurnId ∈ w.turns :=
      mem_filter.mpr ⟨hw, decide_eq_true ((hmem w hw _).mpr ⟨t, htw, rfl⟩)⟩
    exact Nat.le_antisymm (h _) (length_pos_of_mem hin)

/-- **The cursor never moves backward.** -/
theorem forward_of_ascending {cursor : ℕ} (hasc : Ascending chunks.flatten)
    (hbehind : ∀ t ∈ chunks.flatten, cursor < t.traceSeq) (hne : ∀ c ∈ chunks, c ≠ []) :
    (cursor :: chunks.map throughOf).Pairwise (· < ·) := by
  rw [pairwise_cons, pairwise_map]
  constructor
  · intro seq hseq
    obtain ⟨c, hc, rfl⟩ := mem_map.mp hseq
    obtain ⟨t, ht, hthrough, -⟩ := throughOf_mem (hne c hc)
    rw [← hthrough]
    exact hbehind t (mem_flatten.mpr ⟨c, hc, ht⟩)
  · refine (pairwise_flatten.mp hasc).2.imp_of_mem fun {c c'} hc hc' h => ?_
    obtain ⟨t, ht, hthrough, -⟩ := throughOf_mem (hne c hc)
    obtain ⟨t', ht', hthrough', -⟩ := throughOf_mem (hne c' hc')
    rw [← hthrough, ← hthrough']
    exact h t ht t' ht'

theorem bound_iff {init : List (List InputTrace)}
    (hasc : Ascending (init ++ [chunk]).flatten) (hne : chunk ≠ []) :
    (∀ t ∈ (init ++ [chunk]).flatten, t.traceSeq ≤ throughOf chunk) ↔
      (rawTurnIds chunk).getLast? = chunk.getLast?.map fun t => t.rawTurnId := by
  rw [flatten_append, flatten_singleton] at hasc ⊢
  obtain ⟨-, hchunk, hbetween⟩ := pairwise_append.mp hasc
  rw [← end_iff hne hchunk, forall_mem_append]
  refine ⟨fun h => h.2, fun h => ⟨fun t ht => ?_, h⟩⟩
  obtain ⟨s, hs, hseq, -⟩ := throughOf_mem hne
  rw [← hseq]
  exact Nat.le_of_lt (hbetween t ht s hs)

theorem exact_iff {cursor cursor' : ℕ} {e : Extraction}
    (hasc : Ascending chunks.flatten) (hbehind : ∀ t ∈ chunks.flatten, cursor < t.traceSeq)
    (hne : ∀ c ∈ chunks, c ≠ []) (hwindows : List.Forall₂ IsWindow chunks e.windows)
    (hcursor : cursor' = (chunks.getLast?.map throughOf).getD cursor) :
    Exact chunks.flatten cursor e cursor' ↔ Separate chunks := by
  obtain ⟨hmap, hall⟩ := windows_of_forall₂ hwindows
  have hflat : (e.windows.flatMap fun w => w.traces) = chunks.flatten := by
    rw [flatMap_def, hmap]
  have hthrough : (e.windows.map fun w => w.throughTraceSeq) = chunks.map throughOf := by
    rw [← hmap, List.map_map]
    exact map_congr_left fun w hw => (hall w hw).through
  have honce := once_iff hall
  rw [hflat, hmap] at honce
  have hseen : ∀ w ∈ e.windows, ∀ t ∈ w.traces, t ∈ chunks.flatten ∧ t.rawTurnId ∈ w.turns := by
    intro w hw t ht
    rw [← hflat, (hall w hw).turns]
    exact ⟨mem_flatMap.mpr ⟨w, hw, ht⟩, mem_rawTurnIds.mpr ⟨t, ht, rfl⟩⟩
  rcases eq_nil_or_concat chunks with rfl | ⟨init, chunk, hsplit⟩
  · have hnil : e.windows = [] := map_eq_nil_iff.mp hmap
    obtain rfl : cursor' = cursor := hcursor
    refine ⟨fun _ => ⟨.nil, nofun⟩, fun _ => ⟨?_, ?_, ?_, ?_, ?_, ?_, ?_⟩⟩
    all_goals simp [hnil]
  · rw [concat_eq_append] at hsplit
    have hlast : chunks.getLast? = some chunk := by rw [hsplit, getLast?_concat]
    have hchunk : chunk ≠ [] := hne chunk (mem_of_getLast? hlast)
    rw [hlast] at hcursor
    obtain rfl : cursor' = throughOf chunk := hcursor
    have hbound := bound_iff (hsplit ▸ hasc) hchunk
    rw [← hsplit] at hbound
    constructor
    · intro h
      refine ⟨honce.mp h.once, fun c hc => ?_⟩
      obtain rfl : chunk = c := some.inj (hlast.symm.trans hc)
      obtain ⟨t, ht⟩ := exists_mem_of_ne_nil chunk hchunk
      have hsome : chunks.flatten ≠ [] := ne_nil_of_mem (mem_flatten.mpr ⟨chunk, mem_of_getLast? hlast, ht⟩)
      exact hbound.mp (h.final (fun w hw => (hall w hw).whole) hsome).2
    · intro h
      have hle := hbound.mpr (h.2 chunk hlast)
      refine ⟨honce.mpr h.1, hflat, ?_, ?_, fun _ _ => ⟨?_, hle⟩, fun w hw t ht _ => hle t (hseen w hw t ht).1, ?_⟩
      · rw [hthrough]
        exact forward_of_ascending hasc hbehind hne
      · rw [hthrough, getLast?_map, hlast]
        rfl
      · obtain ⟨t, ht, hseq, -⟩ := throughOf_mem hchunk
        exact ⟨t, mem_flatten.mpr ⟨chunk, mem_of_getLast? hlast, ht⟩, hseq⟩
      · intro t ht _
        rw [← hflat] at ht
        obtain ⟨w, hw, htw⟩ := mem_flatMap.mp ht
        exact ⟨w, hw, htw, (hseen w hw t htw).2⟩

/-! ### A pass of a session -/

theorem mem_listInputTracesInRange {after through : ℕ} {t : InputTrace} :
    t ∈ listInputTracesInRange db sessionId after through ↔
      t ∈ db.traces ∧ t.sessionId = sessionId ∧ after < t.traceSeq ∧ t.traceSeq ≤ through := by
  unfold listInputTracesInRange
  rw [mem_sortBy, mem_filter]
  simp only [Bool.and_eq_true, decide_eq_true_eq, and_assoc]

theorem ascending_listInputTracesInRange (db : Db) (sessionId : String) (after through : ℕ) :
    Ascending (listInputTracesInRange db sessionId after through) := by
  have hsorted : (listInputTracesInRange db sessionId after through).Pairwise
      fun t t' => t.traceSeq ≤ t'.traceSeq := by
    have hcmp := pairwise_sortBy (ascending fun t : InputTrace => t.traceSeq) (db.traces.filter fun t =>
      t.sessionId = sessionId && after < t.traceSeq && t.traceSeq ≤ through)
    exact hcmp.imp ascending_isLE.mp
  have hkeys : ((listInputTracesInRange db sessionId after through).map
      fun t => (t.sessionId, t.traceSeq)).Nodup := by
    unfold listInputTracesInRange
    rw [((sortBy_perm _ _).map _).nodup_iff]
    exact db.keys.sublist (filter_sublist.map _)
  rw [List.Nodup, pairwise_map] at hkeys
  refine (hsorted.and hkeys).imp_of_mem fun {t t'} ht ht' h => ?_
  have hsession := (mem_listInputTracesInRange.mp ht).2.1.trans (mem_listInputTracesInRange.mp ht').2.1.symm
  exact lt_of_le_of_ne h.1 fun hseq => h.2 (Prod.ext hsession hseq)

theorem cursorOf_ensure (sessionId : String) (db : Db) :
    cursorOf (ensureWorkMemoryCursor sessionId db) sessionId = cursorOf db sessionId ∧
      HasCursor sessionId (ensureWorkMemoryCursor sessionId db) ∧
      (ensureWorkMemoryCursor sessionId db).traces = db.traces := by
  unfold ensureWorkMemoryCursor HasCursor
  by_cases hknown : (db.cursors.any fun c => c.1 = sessionId) = true
  · rw [if_pos hknown]
    exact ⟨rfl, hknown, rfl⟩
  · rw [if_neg hknown]
    have hnone : (db.cursors.find? fun c => c.1 = sessionId) = none := by
      rw [find?_eq_none]
      exact fun c hc hid => hknown (any_eq_true.mpr ⟨c, hc, hid⟩)
    unfold cursorOf
    rw [find?_append, hnone]
    simp

/-! ### A session with three traces -/

/-- Hashes that keep the texts apart. -/
def plainSurroundings : Surroundings where
  hashes :=
    { trajectoryHashForQa := fun qa => String.join (qa.map fun pair => pair.user ++ "/" ++ pair.assistant ++ ";")
      dedupeKey := fun userId source _ trajectoryHash => userId ++ ":" ++ source ++ ":" ++ trajectoryHash
      scopeKey := fun userId _ => userId }
  at_ := 0
  newJobId := fun i => String.ofList (List.replicate i 'j')

def sampleTrace (traceSeq : ℕ) (rawTurnId : String) : InputTrace where
  sessionId := "s"
  traceSeq := traceSeq
  l1MemoryId := String.ofList (List.replicate traceSeq 'm')
  rawTurnId := rawTurnId
  episodeId := none
  createdAt := traceSeq

/-- A session with three traces of two raw turns. -/
def sampleDb (second third : String) : Db where
  sessions := [⟨"s", "u", none, "cli", some 2⟩]
  rawTurns := [⟨"a", "u", "s", some "tabs?", some "tabs", false⟩, ⟨"b", "u", "s", some "name?", some "x", false⟩]
  traces := [sampleTrace 1 "a", sampleTrace 2 second, sampleTrace 3 third]
  keys := by simp [sampleTrace]

/-- What the pass over the sample does: the turns and the end of each window, and the cursor. -/
def sampleRun (second third : String) : Option (List (List String × ℕ) × ℕ) :=
  match extractUnextracted plainSurroundings "s" 3 (sampleDb second third) with
  | .error _ => none
  | .ok (db, e) => some (e.windows.map fun w => (w.turns, w.throughTraceSeq), cursorOf db "s")

/-- **A pass is exact** if and only if no raw turn lies in two windows and the last trace of the last window is of the
raw turn that this window has met last. -/
theorem extracts_iff {w : Surroundings} {session : Session} {sessionId : String} {throughTraceSeq : ℕ}
    {db db' : Db} {e : Extraction} (hsession : getSession db sessionId = some session)
    (hprotocol : session.protocolVersion = some 2)
    (h : extractUnextracted w sessionId throughTraceSeq db = .ok (db', e)) :
    Exact (unextracted db sessionId throughTraceSeq) (cursorOf db sessionId) e (cursorOf db' sessionId) ↔
      Separate (splitL3TracesByRawTurn (unextracted db sessionId throughTraceSeq) windowMaxRawTurns) := by
  obtain ⟨hcursor, hhas, htraces⟩ := cursorOf_ensure sessionId db
  have hid : session.id = sessionId := of_decide_eq_true (find?_some (p := fun s : Session => s.id = sessionId) hsession)
  have hflat : (splitL3TracesByRawTurn (unextracted db sessionId throughTraceSeq) windowMaxRawTurns).flatten =
      unextracted db sessionId throughTraceSeq := flatten_chunks_groupBy (by decide) _ _
  have hasc : Ascending (unextracted db sessionId throughTraceSeq) := ascending_listInputTracesInRange db sessionId _ _
  have hbehind : ∀ t ∈ unextracted db sessionId throughTraceSeq, cursorOf db sessionId < t.traceSeq :=
    fun t ht => (mem_listInputTracesInRange.mp ht).2.2.1
  have hfits : ∀ c ∈ splitL3TracesByRawTurn (unextracted db sessionId throughTraceSeq) windowMaxRawTurns, Fits c :=
    fun c hc => fits_of_mem_split hc
  -- A pass without traces.
  have hnone : unextracted db sessionId throughTraceSeq = [] → db' = ensureWorkMemoryCursor sessionId db →
      e.windows = [] →
      (Exact (unextracted db sessionId throughTraceSeq) (cursorOf db sessionId) e (cursorOf db' sessionId) ↔
        Separate (splitL3TracesByRawTurn (unextracted db sessionId throughTraceSeq) windowMaxRawTurns)) := by
    rintro hempty rfl hwindows
    rw [hempty]
    exact @exact_iff [] _ _ e .nil (nofun) (nofun) (hwindows ▸ .nil) hcursor
  unfold extractUnextracted at h
  rw [hsession] at h
  dsimp only at h
  rw [if_neg (not_not.mpr hprotocol)] at h
  rw [hcursor] at h
  have hsame : maxInputTraceSeq (ensureWorkMemoryCursor sessionId db) sessionId = maxInputTraceSeq db sessionId := by
    unfold maxInputTraceSeq
    rw [htraces]
  rw [hsame] at h
  by_cases hend : min throughTraceSeq (maxInputTraceSeq db sessionId) ≤ cursorOf db sessionId
  · rw [if_pos hend] at h
    cases h
    refine hnone (eq_nil_iff_forall_not_mem.mpr fun t ht => ?_) rfl rfl
    obtain ⟨-, -, hafter, hthrough⟩ := mem_listInputTracesInRange.mp ht
    omega
  · rw [if_neg hend] at h
    have hlist : listInputTracesInRange (ensureWorkMemoryCursor sessionId db) sessionId (cursorOf db sessionId)
        (min throughTraceSeq (maxInputTraceSeq db sessionId)) = unextracted db sessionId throughTraceSeq := by
      unfold unextracted listInputTracesInRange
      rw [htraces]
    rw [hlist] at h
    by_cases hempty : unextracted db sessionId throughTraceSeq = []
    · rw [if_pos hempty] at h
      cases h
      exact hnone hempty rfl rfl
    · rw [if_neg hempty] at h
      obtain ⟨windows, hwindows, hall, hlast⟩ := extractWindows_ok hfits (hid ▸ hhas) h
      subst hwindows
      rw [hid, hcursor] at hlast
      have hexact := @exact_iff _ _ _ e (hflat.symm ▸ hasc) (hflat.symm ▸ hbehind) (fun c hc => (hfits c hc).1) hall hlast
      rwa [hflat] at hexact

/-- Two traces of one raw turn, and one of another. -/
theorem extracts_iff_neighbours :
    ∃ db' e, extractUnextracted plainSurroundings "s" 3 (sampleDb "a" "b") = .ok (db', e) ∧
      Exact (unextracted (sampleDb "a" "b") "s" 3) (cursorOf (sampleDb "a" "b") "s") e (cursorOf db' "s") := by
  have hrun : sampleRun "a" "b" = some ([(["a", "b"], 3)], 3) := by decide +kernel
  unfold sampleRun at hrun
  split at hrun
  · cases hrun
  · rename_i db' e hok
    refine ⟨db', e, hok, (extracts_iff rfl rfl hok).mpr ?_⟩
    refine ⟨pairwise_singleton _ _, fun c hc => ?_⟩
    obtain rfl := some.inj hc
    decide

/-- A raw turn around another one: the cursor stops before the last trace. -/
theorem not_extracts_around : ∃ db' e, extractUnextracted plainSurroundings "s" 3 (sampleDb "b" "a") = .ok (db', e) ∧
    ¬ Exact (unextracted (sampleDb "b" "a") "s" 3) (cursorOf (sampleDb "b" "a") "s") e (cursorOf db' "s") := by
  have hrun : sampleRun "b" "a" = some ([(["a", "b"], 2)], 2) := by decide +kernel
  unfold sampleRun at hrun
  split at hrun
  · cases hrun
  · rename_i db' e hok
    refine ⟨db', e, hok, fun h => ?_⟩
    have hcursor : cursorOf db' "s" = 2 := congrArg Prod.snd (some.inj hrun)
    have hmem : sampleTrace 3 "a" ∈ unextracted (sampleDb "b" "a") "s" 3 :=
      mem_listInputTracesInRange.mpr ⟨by simp [sampleDb], rfl, by decide, by decide⟩
    have hwindows : (e.windows.flatMap fun w => w.traces) = unextracted (sampleDb "b" "a") "s" 3 := h.ordered
    rw [← hwindows] at hmem
    obtain ⟨w, hw, ht⟩ := mem_flatMap.mp hmem
    have hturns : (w.turns, w.throughTraceSeq) ∈ [(["a", "b"], 2)] := by
      have hlist : (e.windows.map fun w => (w.turns, w.throughTraceSeq)) = [(["a", "b"], 2)] :=
        congrArg Prod.fst (some.inj hrun)
      rw [← hlist]
      exact mem_map_of_mem hw
    have hle := h.above w hw _ ht (by
      rw [(Prod.mk.inj (mem_singleton.mp hturns)).1]
      decide)
    rw [hcursor] at hle
    exact absurd hle (by decide)

end Memmy.WorkMemory.Windows
