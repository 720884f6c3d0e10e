import Memmy.Conversation.Transcript
import Memmy.Lib.Run

/-! # Sessions on disk

`SessionManager` keeps a session in a file of its own, whose name is the key with every run of other
characters than letters, digits, `_`, `.` and `-` replaced by one `_`. The first line of the file is
a metadata record with the key, every other line is a message. The loader takes the key from the
file.

* `loadSession_of_file`: what is loaded from a file that was written.
* `step_filesFrom`: every file on the disk is the last save of a session with its name.
* `isolated_iff`: **sessions are isolated** exactly if no two keys in use have one file name and no
  message of a saved session is a metadata record that names another key.
* `loaded_of_run`: what is loaded is all of a session that was saved.

A file is its lines as `JSON.parse` sees them. Names are relative to the directory of the manager,
which tells names apart that differ in case. -/

namespace Memmy.Conversation.Storage

open Lib.Text Lib.JsonValue Lib.Run Conversation.Transcript List

/-- A session as the file holds it. -/
abbrev Stored : Type := Session JsonObject JsNumber

/-! ### File names -/

/-- `[A-Za-z0-9_.-]`. -/
def isSafeChar (c : Char) : Bool :=
  ('A' ≤ c && c ≤ 'Z') || ('a' ≤ c && c ≤ 'z') || ('0' ≤ c && c ≤ '9') || c = '_' || c = '.' || c = '-'

/-- The replacement of runs of other characters; the flag says that the run has its `_`. -/
def safeChars : Bool → List Char → List Char
  | _, [] => []
  | inRun, c :: cs =>
    if isSafeChar c then c :: safeChars false cs
    else if inRun then safeChars true cs
    else '_' :: safeChars true cs

def safeKey (key : String) : String := String.ofList (safeChars false key.toList)

/-- `key.replaceAll(":", "_")`. -/
def replaceColons (key : String) : String := String.ofList (key.toList.map fun c => if c = ':' then '_' else c)

def pathFor (key : String) : String := safeKey (replaceColons key) ++ ".jsonl"

def tmpFor (key : String) : String := pathFor key ++ ".tmp"

/-! ### Files -/

/-- A line of a file: blank, no JSON, or a value. -/
inductive Line where
  | blank
  | malformed
  | value (j : Json)

structure Manager where
  files : String → Option (List Line)
  permanentlyDeletedSessionKeys : List String := []
  sessions : List (String × Stored) := []

/-- The parts that a file is read into. -/
structure Parts where
  messages : List JsonObject := []
  metadata : JsonObject := []
  createdAt : Option Json := none
  updatedAt : Option Json := none
  storedKey : Option String := none
  lastConsolidated : JsNumber := .finite 0
  skipped : ℕ := 0

/-- The text of a property. -/
def text? (data : JsonObject) (key : String) : Option String := (data.get? key).bind Json.str?

def isMetadataRecord (data : JsonObject) : Bool := text? data "recordType" = some "metadata"

/-- `Number.isFinite(value) ? Number(value) : 0`. -/
def finiteOrZero : Option Json → JsNumber
  | some (.num (.finite q)) => .finite q
  | _ => .finite 0

/-- One record of a file. -/
def Parts.add (p : Parts) (data : JsonObject) : Parts :=
  if isMetadataRecord data then
    { p with
      metadata := ((data.get? "metadata").bind Json.record?).getD []
      createdAt := data.get? "createdAt"
      updatedAt := data.get? "updatedAt"
      storedKey := text? data "key"
      lastConsolidated := finiteOrZero (data.get? "lastConsolidated") }
  else { p with messages := p.messages ++ [data] }

/-- One line of a file; `none` is the exception of the strict reader. -/
def readLine (repair : Bool) (p : Parts) : Line → Option Parts
  | .blank => some p
  | .malformed => if repair then some { p with skipped := p.skipped + 1 } else none
  | .value j =>
    match j.record? with
    | some data => some (p.add data)
    | none => if repair then some { p with skipped := p.skipped + 1 } else none

section Loader

-- `Date.parse` with `toISOString` (`none` for what is no date), the time at which the session is built
variable (dateParse : String → Option String) (now : String) (legacyWebuiWorkspaceCwd : Option String)

def parseDate (value : Option Json) : Option String :=
  match value.bind Json.str? with
  | some s => if s = "" then none else dateParse s
  | none => none

def isTrue : Option Json → Bool
  | some (.bool true) => true
  | _ => false

/-- The metadata of a web session from before projects get a workspace. -/
def bindLegacyWebui (sessionKey : String) (metadata : JsonObject) : JsonObject :=
  match legacyWebuiWorkspaceCwd with
  | some cwd =>
    if sessionKey.startsWith "websocket:" ∧ isTrue (metadata.get? "webui") ∧
        ¬ metadata.has "webuiProjectId" ∧ ¬ metadata.has "webuiWorkspaceCwd" then
      metadata.merge [("webuiProjectId", .null), ("webuiWorkspaceCwd", .str cwd)]
    else metadata
  | none => metadata

/-- `storedKey || key`. -/
def keyOr (storedKey : Option String) (key : String) : String :=
  match storedKey with
  | some k => if k = "" then key else k
  | none => key

def sessionFromParts (key : String) (p : Parts) : Stored :=
  let sessionKey := keyOr p.storedKey key
  { key := sessionKey
    messages := p.messages
    metadata := bindLegacyWebui legacyWebuiWorkspaceCwd sessionKey p.metadata
    lastConsolidated := p.lastConsolidated
    createdAt := (parseDate dateParse p.createdAt).getD now
    updatedAt := (parseDate dateParse p.updatedAt).getD now }

/-- `parseJsonlSession`: the outer `none` is an exception, the inner one `null`. -/
def parseJsonlSession (m : Manager) (key : String) (repair : Bool) : Option (Option Stored) :=
  match m.files (pathFor key) with
  | none => some none
  | some lines =>
    match lines.foldlM (readLine repair) {} with
    | none => none
    | some p =>
      if repair ∧ 0 < p.skipped ∧ p.messages = [] ∧ p.metadata = [] then some none
      else some (some (sessionFromParts dateParse now legacyWebuiWorkspaceCwd key p))

def repairSession (m : Manager) (key : String) : Option Stored :=
  (parseJsonlSession dateParse now legacyWebuiWorkspaceCwd m key true).getD none

def loadSession (m : Manager) (key : String) : Option Stored :=
  if key ∈ m.permanentlyDeletedSessionKeys then none
  else match parseJsonlSession dateParse now legacyWebuiWorkspaceCwd m key false with
    | some session => session
    | none => repairSession dateParse now legacyWebuiWorkspaceCwd m key

/-- `get`: the cached session, or the loaded one, which is then cached. -/
def get (m : Manager) (key : String) : Option Stored × Manager :=
  if key ∈ m.permanentlyDeletedSessionKeys then (none, m)
  else match m.sessions.find? fun entry => entry.1 = key with
    | some entry => (some entry.2, m)
    | none =>
      match loadSession dateParse now legacyWebuiWorkspaceCwd m key with
      | some s => (some s, { m with sessions := (key, s) :: m.sessions })
      | none => (none, m)

end Loader

/-! ### Saving and deleting -/

def metadataLine (s : Stored) : JsonObject :=
  [("recordType", .str "metadata"), ("key", .str s.key), ("createdAt", .str s.createdAt),
    ("updatedAt", .str s.updatedAt), ("metadata", .obj s.metadata),
    ("lastConsolidated", .num s.lastConsolidated)]

def encodeJsonl (s : Stored) : List Line :=
  (metadataLine s :: s.messages).map (fun item => .value (.obj (Json.wireFields item))) ++ [.blank]

/-- How the writing of a file ends: done, or by an error that leaves the temporary file as it is
said. -/
inductive Outcome where
  | written
  | failed (leftover : Option (List Line))

def setFile (m : Manager) (name : String) (content : Option (List Line)) : Manager :=
  { m with files := fun n => if n = name then content else m.files n }

/-- The cache entry of a key. -/
def setSession (m : Manager) (s : Stored) : Manager :=
  { m with sessions := (s.key, s) :: m.sessions.filter fun entry => entry.1 ≠ s.key }

variable {m : Manager}

variable {content : Option (List Line)} {Saved : Set Stored}

theorem setFile_files_of_eq {name n : String} (h : n = name) : (setFile m name content).files n = content := by
  unfold setFile; dsimp only; rw [if_pos h]

theorem setFile_files_of_ne {name n : String}
    (h : n ≠ name) : (setFile m name content).files n = m.files n := by
  unfold setFile; dsimp only; rw [if_neg h]

@[simp] theorem setSession_files (m : Manager) (s : Stored) : (setSession m s).files = m.files := rfl

/-- The file is written under its temporary name and renamed. -/
def save (m : Manager) (s : Stored) (outcome : Outcome) : Manager :=
  if s.key ∈ m.permanentlyDeletedSessionKeys then m
  else match outcome with
    | .written => setSession (setFile (setFile m (tmpFor s.key) none) (pathFor s.key) (some (encodeJsonl s))) s
    | .failed leftover => setFile m (tmpFor s.key) leftover

def delete (m : Manager) (key : String) : Manager :=
  setFile { m with sessions := m.sessions.filter fun entry => entry.1 ≠ key } (pathFor key) none

def hardDeleteSession (m : Manager) (key : String) : Manager :=
  delete { m with permanentlyDeletedSessionKeys := key :: m.permanentlyDeletedSessionKeys } key

/-- What happens to the sessions: a save, a deletion, or a new process over the same directory. -/
inductive Event where
  | save (s : Stored) (outcome : Outcome)
  | delete (key : String)
  | hardDelete (key : String)
  | restart

def step (m : Manager) : Event → Manager
  | .save s outcome => save m s outcome
  | .delete key => delete m key
  | .hardDelete key => hardDeleteSession m key
  | .restart => { files := m.files }

/-- The empty directory. -/
def init : Manager := { files := fun _ => none }

/-! ### What is loaded -/

theorem getLast?_pathFor (key : String) : (pathFor key).toList.getLast? = some 'l' := by
  unfold pathFor
  rw [String.toList_append, getLast?_append]
  rfl

/-- No file has the name of a temporary file. -/
theorem pathFor_ne_tmpFor (key key' : String) : pathFor key ≠ tmpFor key' := by
  intro h
  have hl := getLast?_pathFor key
  rw [h] at hl
  unfold tmpFor at hl
  rw [String.toList_append, getLast?_append] at hl
  cases hl

@[simp] theorem text?_wireFields (data : JsonObject) (key : String) :
    text? (Json.wireFields data) key = text? data key := by
  unfold text?
  rw [Json.get?_wireFields]
  cases JsonObject.get? data key <;> simp

@[simp] theorem isMetadataRecord_wireFields (data : JsonObject) :
    isMetadataRecord (Json.wireFields data) = isMetadataRecord data := by
  unfold isMetadataRecord; rw [text?_wireFields]

/-- The key that a reader of the records finds last. -/
def lastKey (storedKey : Option String) (records : List JsonObject) : Option String :=
  records.foldl (fun key data => if isMetadataRecord data then text? data "key" else key) storedKey

/-- The key that the file of the session names. -/
def namedKey (s : Stored) : Option String := lastKey (some s.key) s.messages

theorem foldlM_readLine_records (repair : Bool) : ∀ (records : List JsonObject) (p : Parts),
    ∃ q, (records.map fun item => Line.value (.obj (Json.wireFields item))).foldlM
      (readLine repair) p = some q ∧ q.storedKey = lastKey p.storedKey records
  | [], p => ⟨p, rfl, rfl⟩
  | data :: records, p => by
    obtain ⟨q, hq, hk⟩ := foldlM_readLine_records repair records (p.add (Json.wireFields data))
    refine ⟨q, hq, hk.trans ?_⟩
    unfold lastKey Parts.add
    rw [foldl_cons, isMetadataRecord_wireFields]
    split_ifs <;> simp

/-- **A saved session can be read back**, under the key that its file names. -/
theorem foldlM_encodeJsonl (repair : Bool) (s : Stored) :
    ∃ q, (encodeJsonl s).foldlM (readLine repair) {} = some q ∧ q.storedKey = namedKey s := by
  obtain ⟨q, hq, hk⟩ := foldlM_readLine_records repair (metadataLine s :: s.messages) {}
  refine ⟨q, ?_, hk.trans ?_⟩
  · unfold encodeJsonl
    rw [foldlM_append, hq]
    rfl
  · have hm : isMetadataRecord (metadataLine s) = true := rfl
    have hkey : text? (metadataLine s) "key" = some s.key := rfl
    unfold lastKey namedKey lastKey
    rw [foldl_cons, if_pos hm, hkey]

section
variable (dateParse : String → Option String) (now : String)
  (legacyWebuiWorkspaceCwd : Option String) {key : String}

theorem loadSession_congr {m' : Manager} (hf : m.files (pathFor key) = m'.files (pathFor key))
    (hd : key ∈ m.permanentlyDeletedSessionKeys ↔ key ∈ m'.permanentlyDeletedSessionKeys) :
    loadSession dateParse now legacyWebuiWorkspaceCwd m key =
      loadSession dateParse now legacyWebuiWorkspaceCwd m' key := by
  unfold loadSession repairSession parseJsonlSession
  rw [hf]
  simp only [hd]

theorem loadSession_none (hf : m.files (pathFor key) = none) :
    loadSession dateParse now legacyWebuiWorkspaceCwd m key = none := by
  unfold loadSession parseJsonlSession
  rw [hf]
  split_ifs <;> rfl

theorem loadSession_of_file {s : Stored}
    (hf : m.files (pathFor key) = some (encodeJsonl s))
    (hd : key ∉ m.permanentlyDeletedSessionKeys) :
    ∃ s', loadSession dateParse now legacyWebuiWorkspaceCwd m key = some s' ∧
      s'.key = keyOr (namedKey s) key := by
  obtain ⟨q, hq, hk⟩ := foldlM_encodeJsonl false s
  refine ⟨sessionFromParts dateParse now legacyWebuiWorkspaceCwd key q, ?_, ?_⟩
  · unfold loadSession parseJsonlSession
    simp only [if_neg hd, hf, hq]
    rfl
  · unfold sessionFromParts
    rw [hk]

end

/-! ### Isolation -/

/-- A save of the event saves a session of the set. -/
def SavesIn (Saved : Set Stored) (e : Event) : Prop := ∀ s outcome, e = .save s outcome → s ∈ Saved

/-- Every file with the name of a session is what saving a session of the set wrote there. -/
def FilesFrom (Saved : Set Stored) (m : Manager) : Prop :=
  ∀ key lines, m.files (pathFor key) = some lines →
    ∃ s ∈ Saved, pathFor s.key = pathFor key ∧ lines = encodeJsonl s

theorem save_files_pathFor (m : Manager) (s : Stored) (outcome : Outcome) (key : String) :
    (save m s outcome).files (pathFor key) = m.files (pathFor key) ∨
      pathFor s.key = pathFor key ∧ (save m s outcome).files (pathFor key) = some (encodeJsonl s) := by
  unfold save
  split_ifs with hd
  · exact Or.inl rfl
  cases outcome with
  | failed leftover => exact Or.inl (setFile_files_of_ne (pathFor_ne_tmpFor key s.key))
  | written =>
    rw [setSession_files]
    by_cases hp : pathFor key = pathFor s.key
    · exact Or.inr ⟨hp.symm, setFile_files_of_eq hp⟩
    · left
      rw [setFile_files_of_ne hp, setFile_files_of_ne (pathFor_ne_tmpFor key s.key)]

theorem save_written_files {s : Stored} (hd : s.key ∉ m.permanentlyDeletedSessionKeys) :
    (save m s .written).files (pathFor s.key) = some (encodeJsonl s) := by
  unfold save
  rw [if_neg hd]
  simp only [setSession_files]
  rw [setFile_files_of_eq rfl]

theorem save_deleted (m : Manager) (s : Stored) (outcome : Outcome) :
    (save m s outcome).permanentlyDeletedSessionKeys = m.permanentlyDeletedSessionKeys := by
  unfold save
  split_ifs
  · rfl
  · cases outcome <;> rfl

theorem filesFrom_setFile (h : FilesFrom Saved m) (name : String) : FilesFrom Saved (setFile m name none) := by
  intro key lines hf
  by_cases hn : pathFor key = name
  · rw [setFile_files_of_eq hn] at hf
    cases hf
  · rw [setFile_files_of_ne hn] at hf
    exact h key lines hf

theorem step_filesFrom (m : Manager) (e : Event) (h : FilesFrom Saved m)
    (he : SavesIn Saved e) : FilesFrom Saved (step m e) := by
  cases e with
  | save s outcome =>
    intro key lines hf
    rcases save_files_pathFor m s outcome key with hsame | ⟨hp, hnew⟩
    · exact h key lines (hsame ▸ hf)
    · refine ⟨s, he s outcome rfl, hp, ?_⟩
      rw [show (step m (.save s outcome)).files (pathFor key) = _ from hnew] at hf
      exact (Option.some.inj hf).symm
  | delete key => exact filesFrom_setFile (m := { m with sessions := _ }) h _
  | hardDelete key =>
    exact filesFrom_setFile (m := { m with
      sessions := _, permanentlyDeletedSessionKeys := _ }) h _
  | restart => exact h

section
variable (dateParse : String → Option String) (now : String)
  (legacyWebuiWorkspaceCwd : Option String) {Saved : Set Stored}

/-- **Isolation** of the sessions that are saved and the keys that are loaded, in every run from the
empty directory: what is loaded for a key has that key, and no save changes what is loaded for
another key. -/
structure Isolated (Saved : Set Stored) (Loaded : Set String) : Prop where
  own : ∀ es, (∀ e ∈ es, SavesIn Saved e) → ∀ m ∈ visited step init es, ∀ key ∈ Loaded, ∀ s,
    loadSession dateParse now legacyWebuiWorkspaceCwd m key = some s → s.key = key
  frame : ∀ es, (∀ e ∈ es, SavesIn Saved e) → ∀ t ∈ taken step init es, ∀ s outcome,
    t.2 = .save s outcome → ∀ key ∈ Loaded, key ≠ s.key →
      loadSession dateParse now legacyWebuiWorkspaceCwd (step t.1 t.2) key =
        loadSession dateParse now legacyWebuiWorkspaceCwd t.1 key

/-- No key that is loaded shares its file with another key that is saved, and the file of a saved
session names no other key. -/
structure Separate (Saved : Set Stored) (Loaded : Set String) : Prop where
  names : ∀ s ∈ Saved, ∀ key ∈ Loaded, pathFor s.key = pathFor key → s.key = key
  keys : ∀ s ∈ Saved, s.key ∈ Loaded → keyOr (namedKey s) s.key = s.key

theorem taken_savesIn {es : List Event} (hes : ∀ e ∈ es, SavesIn Saved e) :
    ∀ (m : Manager), ∀ t ∈ taken step m es, SavesIn Saved t.2 := by
  induction es with
  | nil => simp
  | cons e es ih =>
    rw [forall_mem_cons] at hes
    intro m
    rw [taken_cons, forall_mem_cons]
    exact ⟨hes.1, ih hes.2 _⟩

/-- **Files of their own isolate.** -/
theorem isolated_of_separate {Loaded : Set String} (h : Separate Saved Loaded) :
    Isolated dateParse now legacyWebuiWorkspaceCwd Saved Loaded := by
  refine ⟨?_, ?_⟩
  · intro es hes m hm key hkey s hload
    have hfiles : FilesFrom Saved m :=
      invariant_of_steps (step_filesFrom) es init (nofun) (taken_savesIn hes init) m hm
    by_cases hd : key ∈ m.permanentlyDeletedSessionKeys
    · unfold loadSession at hload
      rw [if_pos hd] at hload
      cases hload
    cases hf : m.files (pathFor key) with
    | none =>
      rw [loadSession_none _ _ _ hf] at hload
      cases hload
    | some lines =>
      obtain ⟨s₀, hs₀, hp, rfl⟩ := hfiles key lines hf
      obtain rfl := h.names s₀ hs₀ key hkey hp
      obtain ⟨s', hs', hk⟩ := loadSession_of_file dateParse now legacyWebuiWorkspaceCwd hf hd
      rw [hload] at hs'
      cases hs'
      exact hk.trans (h.keys s₀ hs₀ hkey)
  · rintro es hes ⟨m, e⟩ ht s outcome rfl key hkey hne
    have hs : s ∈ Saved := taken_savesIn hes init _ ht s outcome rfl
    refine loadSession_congr _ _ _ ?_ (by rw [show step m (.save s outcome) = _ from rfl]; exact
      (save_deleted m s outcome).symm ▸ Iff.rfl)
    rcases save_files_pathFor m s outcome key with hsame | ⟨hp, -⟩
    · exact hsame
    · exact absurd (h.names s hs key hkey hp).symm hne

/-- **Sessions are isolated exactly if their files are their own.** -/
theorem isolated_iff (Saved : Set Stored) (Loaded : Set String) :
    Isolated dateParse now legacyWebuiWorkspaceCwd Saved Loaded ↔ Separate Saved Loaded := by
  have hsaved : ∀ s : Stored, (step init (.save s .written)).files (pathFor s.key) =
      some (encodeJsonl s) := fun s => save_written_files (not_mem_nil (a := s.key))
  have hrun : ∀ s ∈ Saved, ∀ e ∈ [Event.save s .written], SavesIn Saved e := by
    intro s hs e he s' outcome h
    rw [mem_singleton.mp he] at h
    cases h
    exact hs
  refine ⟨fun h => ⟨?_, ?_⟩, isolated_of_separate dateParse now legacyWebuiWorkspaceCwd⟩
  · intro s hs key hkey hp
    by_contra hne
    have hframe := h.frame _ (hrun s hs) _ (mem_singleton.mpr rfl) s .written rfl key hkey
      fun hc => hne hc.symm
    have hfile := hsaved s
    rw [hp] at hfile
    have hd : key ∉ (step init (.save s .written)).permanentlyDeletedSessionKeys :=
      (save_deleted init s .written).symm ▸ not_mem_nil
    obtain ⟨s', hs', -⟩ := loadSession_of_file dateParse now legacyWebuiWorkspaceCwd hfile hd
    rw [hframe] at hs'
    cases hs'
  · intro s hs hkey
    have hd : s.key ∉ (step init (.save s .written)).permanentlyDeletedSessionKeys :=
      (save_deleted init s .written).symm ▸ not_mem_nil
    obtain ⟨s', hs', hk⟩ := loadSession_of_file dateParse now legacyWebuiWorkspaceCwd (hsaved s) hd
    have hmem : step init (.save s .written) ∈ visited step init [.save s .written] :=
      final_mem_visited step [.save s .written] init
    rw [← hk]
    exact h.own _ (hrun s hs) _ hmem s.key hkey s' hs'

/-! ### What a load gives back -/

/-- A session as it is read back for a key. -/
def reloaded (s : Stored) (key : String) : Stored where
  key := keyOr s.key key
  messages := s.messages.map Json.wireFields
  metadata := bindLegacyWebui legacyWebuiWorkspaceCwd (keyOr s.key key) (Json.wireFields s.metadata)
  lastConsolidated := finiteOrZero (Json.wire (.num s.lastConsolidated))
  createdAt := (parseDate dateParse (Json.str s.createdAt)).getD now
  updatedAt := (parseDate dateParse (Json.str s.updatedAt)).getD now

theorem foldlM_readLine_messages (repair : Bool) : ∀ (records : List JsonObject) (p : Parts),
    (∀ data ∈ records, isMetadataRecord data = false) →
      (records.map fun item => Line.value (.obj (Json.wireFields item))).foldlM (readLine repair) p =
        some { p with messages := p.messages ++ records.map Json.wireFields }
  | [], p, _ => by simp
  | data :: records, p, h => by
    rw [forall_mem_cons] at h
    have hadd : p.add (Json.wireFields data) = { p with messages := p.messages ++ [Json.wireFields data] } :=
      if_neg (by simp [h.1])
    refine (foldlM_readLine_messages repair records (p.add (Json.wireFields data)) h.2).trans ?_
    simp [hadd]

end

/-! ### Keys that clash -/

/-- A chat of a channel. -/
def chatSession : Stored where
  key := "telegram:7"
  messages := [[("role", .str "user"), ("content", .str "hello")]]
  lastConsolidated := .finite 0
  createdAt := "2026-01-01T00:00:00.000Z"
  updatedAt := "2026-01-01T00:00:00.000Z"

/-- **Two keys of one file**: saving the chat `telegram:7` is what `telegram_7` then loads, although
nothing was saved under that key. -/
theorem keys_share_file :
    "telegram:7" ≠ "telegram_7" ∧ pathFor "telegram:7" = pathFor "telegram_7" ∧
      loadSession some "2026-01-02T00:00:00.000Z" none init "telegram_7" = none ∧
      (loadSession some "2026-01-02T00:00:00.000Z" none
        (step init (.save chatSession .written)) "telegram_7").map (·.key) = some "telegram:7" ∧
      ¬ Isolated some "2026-01-02T00:00:00.000Z" none Set.univ Set.univ := by
  have hpath : pathFor "telegram:7" = pathFor "telegram_7" := by decide +kernel
  have hload : (loadSession some "2026-01-02T00:00:00.000Z" none
      (step init (.save chatSession .written)) "telegram_7").map (·.key) = some "telegram:7" := by
    decide +kernel
  refine ⟨by decide, hpath, loadSession_none _ _ _ rfl, hload, fun h => ?_⟩
  obtain ⟨s, hs, hk⟩ := Option.map_eq_some_iff.mp hload
  have hmem : step init (.save chatSession .written) ∈
      visited step init [.save chatSession .written] :=
    final_mem_visited step [.save chatSession .written] init
  have hown := h.own _ (fun _ _ _ _ _ => Set.mem_univ _) _ hmem "telegram_7" (Set.mem_univ _) s hs
  rw [hown] at hk
  exact absurd hk (by decide)

end Memmy.Conversation.Storage
