import Memmy.Lib.Result
import Memmy.Lib.Run
import Memmy.Storage.EvidenceBatches
import Memmy.Storage.JobSteps

/-! # The batches of a session partition its traces

Over every sequence of `registerInputTrace` and `freezeBatches` calls, the batches of a session are
consecutive stretches of its traces up to its cursor, and every batch has its number and its jobs.

* `Frozen`, `freezeChunk_ok`: what one chunk adds to the database.
* `Inv`: the invariant, with `Session`-wise and scope-wise parts.
* `run_batches`: what every run keeps. -/

namespace Memmy.Storage.Partition

open Lib.Result Lib.Rows Lib.Run Lib.Sort List Except
open Lib.Blocks
open Storage.Jobs Storage.JobSteps Storage.EvidenceBatches

/-! ### What a chunk adds -/

/-- The rows that the freezing of batches does not write. -/
structure SameInputs (db db' : Db) : Prop where
  sessions : db'.sessions = db.sessions
  feedback : db'.feedback = db.feedback
  traces : db'.traces = db.traces
  cursors : db'.cursors = db.cursors

theorem SameInputs.trans {a b c : Db} (h : SameInputs a b) (h' : SameInputs b c) : SameInputs a c :=
  ⟨h'.1.trans h.1, h'.2.trans h.2, h'.3.trans h.3, h'.4.trans h.4⟩

theorem SameInputs.refl (db : Db) : SameInputs db db := ⟨rfl, rfl, rfl, rfl⟩

section
variable {db db' : Db} {session : EvidenceBatches.Session} {batch : Batch}
variable {input : FreezeInput} {newJobId : TargetField → String} {through : ℕ}
variable {b : Batch} {t : InputTrace} {traces : List InputTrace} {sid : String} {field : TargetField} {at_ n : ℕ}

theorem insertImmutableJob_ok {job : Job} {jobs jobs' : List Job}
    (h : insertImmutableJob job jobs = .ok jobs') : jobs' = jobs ++ [job] := by
  unfold insertImmutableJob at h
  split_ifs at h
  exact (insertRow_ok h).1

theorem insertTarget_ok {target : BatchTarget} (h : insertTarget target db = .ok db') :
    db' = { db with targets := db.targets ++ [target] } := by
  unfold insertTarget at h
  split_ifs at h
  exact (ok.inj h).symm

theorem insertField_ok (h : insertField session batch newJobId at_ db field = .ok db') :
    SameInputs db db' ∧ db'.scopes = db.scopes ∧ db'.batches = db.batches ∧
      db'.jobs = db.jobs ++ [fieldJob session batch (newJobId field) field at_] := by
  unfold insertField at h
  simp only [bind_eq_ok] at h
  obtain ⟨db₁, htarget, jobs, hjobs, h⟩ := h
  obtain rfl := insertTarget_ok htarget
  obtain rfl := ok.inj h
  exact ⟨⟨rfl, rfl, rfl, rfl⟩, rfl, rfl, insertImmutableJob_ok hjobs⟩

theorem insertFields_ok :
    ∀ {fields : List TargetField} {db db' : Db},
      fields.foldlM (insertField session batch newJobId at_) db = .ok db' →
        SameInputs db db' ∧ db'.scopes = db.scopes ∧ db'.batches = db.batches ∧
          db'.jobs = db.jobs ++ fields.map fun f => fieldJob session batch (newJobId f) f at_
  | [], db, db', h => by
    obtain rfl : db = db' := ok.inj h
    exact ⟨.refl db, rfl, rfl, by simp⟩
  | field :: fields, db, db', h => by
    rw [foldlM_cons, bind_eq_ok] at h
    obtain ⟨db₁, hfield, hrest⟩ := h
    obtain ⟨hin, hscopes, hbatches, hjobs⟩ := insertField_ok hfield
    obtain ⟨hin', hscopes', hbatches', hjobs'⟩ := insertFields_ok hrest
    refine ⟨hin.trans hin', hscopes'.trans hscopes, hbatches'.trans hbatches, ?_⟩
    rw [hjobs', hjobs, append_assoc, map_cons, singleton_append]

structure Frozen (input : FreezeInput) (session : EvidenceBatches.Session) (scopeKey : String)
    (chunk : List InputTrace) (i : ℕ) (scope : Scope) (batch : Batch) (db db' : Db) : Prop where
  found : db.scopes.find? (fun s => s.scopeKey = scopeKey) = some scope
  key : batch.scopeKey = scopeKey
  seq : batch.scopeSeq = scope.nextScopeSeq
  session_id : batch.sessionId = session.id
  project : batch.projectId = session.projectId
  span : (batch.startTraceSeq, batch.endTraceSeq) = ends (chunk.map (·.traceSeq))
  memories : batch.l1MemoryIds = chunk.map (·.l1MemoryId)
  id_new : ∀ b ∈ db.batches, b.id ≠ batch.id
  inputs : SameInputs db db'
  scopes : db'.scopes = update (fun s => decide (s.scopeKey = scopeKey)) (claimedScope input.at_)
    db.scopes
  batches : db'.batches = db.batches ++ [batch]
  jobs : db'.jobs = db.jobs ++ (targetFields session.projectId).map fun f =>
    fieldJob session batch (input.newJobId i f) f input.at_

theorem freezeChunk_ok {scopeKey : String} {chunk : List InputTrace} {i : ℕ}
    (h : freezeChunk input session scopeKey db (chunk, i) = .ok db') :
    ∃ scope batch, Frozen input session scopeKey chunk i scope batch db db' := by
  unfold freezeChunk at h
  simp only [bind_eq_ok] at h
  obtain ⟨⟨db₁, seq⟩, hclaim, db₂, hinsert, hfields⟩ := h
  unfold claimScopeSeq at hclaim
  cases hfind : db.scopes.find? fun s => s.scopeKey = scopeKey with
  | none => simp [hfind] at hclaim
  | some scope =>
    simp only [hfind, ok.injEq, Prod.mk.injEq] at hclaim
    obtain ⟨rfl, rfl⟩ := hclaim
    unfold insertBatch at hinsert
    split_ifs at hinsert with hid
    obtain rfl := ok.inj hinsert
    obtain ⟨hin, hscopes, hbatches, hjobs⟩ := insertFields_ok hfields
    refine ⟨scope, _, ⟨hfind, rfl, rfl, rfl, rfl, rfl, rfl, fun b hb he => hid ?_, ⟨hin.1, hin.2, hin.3,
      hin.4⟩, hscopes, hbatches, hjobs⟩⟩
    exact any_eq_true.mpr ⟨b, hb, decide_eq_true he⟩

/-! ### The numbers and the jobs of the batches -/

def isFieldJob (batchId : String) (field : TargetField) (job : Job) : Bool :=
  job.jobType = "l3_world_model_update" && job.payload.text? "batchId" = some batchId &&
    job.payload.text? "targetField" = some field.text

/-- The job that a batch has for a field: the only one, queued, with the number of the batch. -/
def HasFieldJob (jobs : List Job) (b : Batch) (field : TargetField) : Prop :=
  ∃ job, jobs.filter (isFieldJob b.id field) = [job] ∧ job.status = .queued ∧
    job.scopeKey = some (l3WorldModelFieldScopeKey b.scopeKey field) ∧
    job.scopeSeq = some b.scopeSeq

/-- What holds of the batches of all sessions. -/
structure Scoped (db : Db) : Prop where
  keys : (db.scopes.map (·.scopeKey)).Nodup
  below : ∀ b ∈ db.batches, ∀ s ∈ db.scopes, s.scopeKey = b.scopeKey → b.scopeSeq < s.nextScopeSeq
  known : ∀ b ∈ db.batches, ∃ s ∈ db.scopes, s.scopeKey = b.scopeKey
  order : db.batches.Pairwise fun a b => a.scopeKey = b.scopeKey → a.scopeSeq < b.scopeSeq
  jobs : ∀ b ∈ db.batches, ∀ field ∈ targetFields b.projectId, HasFieldJob db.jobs b field
  owned : ∀ job ∈ db.jobs, ∃ b ∈ db.batches, job.payload.text? "batchId" = some b.id

theorem isFieldJob_fieldJob {b : String} {id : String} {field' : TargetField}
    : isFieldJob b field (fieldJob session batch id field' at_) = true ↔ batch.id = b ∧ field' = field := by
  have hb : (fieldJob session batch id field' at_).payload.text? "batchId" = some batch.id := rfl
  have hf : (fieldJob session batch id field' at_).payload.text? "targetField" =
      some field'.text := rfl
  simp only [isFieldJob, hb, hf, Bool.and_eq_true, decide_eq_true_eq, Option.some.injEq]
  constructor
  · rintro ⟨⟨-, hid⟩, ht⟩
    exact ⟨hid, by cases field <;> cases field' <;> first | rfl | exact absurd ht (by decide)⟩
  · rintro ⟨hid, rfl⟩
    exact ⟨⟨rfl, hid⟩, rfl⟩

theorem nodup_targetFields (projectId : Option String) : (targetFields projectId).Nodup := by
  unfold targetFields
  split_ifs <;> decide

variable {input : FreezeInput} {scopeKey : String} {chunk : List InputTrace} {i : ℕ} {scope : Scope}

section
variable (h : Frozen input session scopeKey chunk i scope batch db db')
include h

theorem Frozen.hasFieldJob
    (hs : Scoped db) (hf : field ∈ targetFields batch.projectId) : HasFieldJob db'.jobs batch field := by
  rw [h.project] at hf
  refine ⟨fieldJob session batch (input.newJobId i field) field input.at_, ?_, rfl, rfl, rfl⟩
  have hold : db.jobs.filter (isFieldJob batch.id field) = [] := by
    refine filter_eq_nil_iff.mpr fun job hjob hp => ?_
    obtain ⟨b, hb, hid⟩ := hs.owned job hjob
    simp only [isFieldJob, Bool.and_eq_true, decide_eq_true_eq] at hp
    exact h.id_new b hb (Option.some.inj (hid.symm.trans hp.1.2))
  have hnew : ∀ {fields : List TargetField}, fields.Nodup → field ∈ fields →
      (fields.map fun f => fieldJob session batch (input.newJobId i f) f input.at_).filter
        (isFieldJob batch.id field) =
          [fieldJob session batch (input.newJobId i field) field input.at_] := by
    intro fields hn hmem
    obtain ⟨l, r, rfl⟩ := append_of_mem hmem
    rw [nodup_middle, nodup_cons, mem_append, not_or] at hn
    have hother : ∀ f, f ≠ field → (isFieldJob batch.id field ∘ fun f =>
        fieldJob session batch (input.newJobId i f) f input.at_) f = false := fun f hne =>
      Bool.eq_false_iff.mpr fun hp => hne (isFieldJob_fieldJob.mp hp).2
    rw [append_cons, filter_map, filter_middle (m := [field])]
    · rfl
    · exact fun f hf => hother f fun he => hn.1.1 (he ▸ hf)
    · rw [forall_mem_singleton]
      exact isFieldJob_fieldJob.mpr ⟨rfl, rfl⟩
    · exact fun f hf => hother f fun he => hn.1.2 (he ▸ hf)
  rw [h.jobs, filter_append, hold, nil_append]
  exact hnew (nodup_targetFields _) hf

theorem Frozen.keepsFieldJob
    (hb : b ∈ db.batches) (hjob : HasFieldJob db.jobs b field) : HasFieldJob db'.jobs b field := by
  obtain ⟨job, hfilter, hrest⟩ := hjob
  refine ⟨job, ?_, hrest⟩
  rw [h.jobs, filter_append, hfilter, filter_eq_nil_iff.mpr, append_nil]
  intro job hjob hp
  obtain ⟨f, -, rfl⟩ := mem_map.mp hjob
  exact h.id_new b hb (isFieldJob_fieldJob.mp hp).1.symm

/-- The scope after its number was claimed. -/
theorem Frozen.mem_scopes {s' : Scope} (hs' : s' ∈ db'.scopes) : ∃ s ∈ db.scopes, s'.scopeKey = s.scopeKey ∧
      s'.nextScopeSeq = if s.scopeKey = scopeKey then s.nextScopeSeq + 1 else s.nextScopeSeq := by
  rw [h.scopes] at hs'
  obtain ⟨s, hs, ⟨hp, rfl⟩ | ⟨hp, rfl⟩⟩ := mem_update hs'
  · exact ⟨s, hs, rfl, (if_pos (of_decide_eq_true hp)).symm⟩
  · exact ⟨s', hs, rfl, (if_neg (of_decide_eq_false hp)).symm⟩

/-- **Step lemma**, for a chunk. -/
theorem Frozen.scoped (hs : Scoped db) : Scoped db' := by
  have hkeys : db'.scopes.map (·.scopeKey) = db.scopes.map (·.scopeKey) := by
    rw [h.scopes]
    exact map_update (f := claimedScope input.at_) (fun _ => rfl) _
  have hscope : scope ∈ db.scopes ∧ scope.scopeKey = scopeKey := by
    have hk := find?_some h.found
    exact ⟨mem_of_find?_eq_some h.found, of_decide_eq_true hk⟩
  refine ⟨by rw [hkeys]; exact hs.keys, ?_, ?_, ?_, ?_, ?_⟩
  · intro b hb s' hs' hkey
    obtain ⟨s, hsm, hk, hnext⟩ := h.mem_scopes hs'
    rw [h.batches] at hb
    rcases mem_append.mp hb with hb | hb
    · have := hs.below b hb s hsm (hk.symm.trans hkey)
      split_ifs at hnext <;> omega
    · obtain rfl := mem_singleton.mp hb
      have hsk : s.scopeKey = scopeKey := (hk.symm.trans hkey).trans h.key
      have heq : s = scope := eq_of_key_eq hs.keys hsm hscope.1 (hsk.trans hscope.2.symm)
      rw [if_pos hsk, heq, ← h.seq] at hnext
      omega
  · intro b hb
    rw [h.batches] at hb
    have hkeep : ∀ s ∈ db.scopes, ∃ s' ∈ db'.scopes, s'.scopeKey = s.scopeKey := fun s hsm => by
      have := hkeys ▸ mem_map_of_mem (f := Scope.scopeKey) hsm
      obtain ⟨s', hs', he⟩ := mem_map.mp this
      exact ⟨s', hs', he⟩
    rcases mem_append.mp hb with hb | hb
    · obtain ⟨s, hsm, hk⟩ := hs.known b hb
      obtain ⟨s', hs', he⟩ := hkeep s hsm
      exact ⟨s', hs', he.trans hk⟩
    · obtain rfl := mem_singleton.mp hb
      obtain ⟨s', hs', he⟩ := hkeep scope hscope.1
      exact ⟨s', hs', he.trans (hscope.2.trans h.key.symm)⟩
  · rw [h.batches]
    refine pairwise_append.mpr ⟨hs.order, pairwise_singleton _ _, fun a ha b hb hk => ?_⟩
    obtain rfl := mem_singleton.mp hb
    rw [h.seq]
    exact hs.below a ha scope hscope.1 (hscope.2.trans (h.key.symm.trans hk.symm))
  · intro b hb field hf
    rw [h.batches] at hb
    rcases mem_append.mp hb with hb | hb
    · exact h.keepsFieldJob hb (hs.jobs b hb field hf)
    · obtain rfl := mem_singleton.mp hb
      exact h.hasFieldJob hs hf
  · intro job hjob
    rw [h.jobs] at hjob
    rw [h.batches]
    rcases mem_append.mp hjob with hjob | hjob
    · obtain ⟨b, hb, hid⟩ := hs.owned job hjob
      exact ⟨b, mem_append_left _ hb, hid⟩
    · obtain ⟨f, -, rfl⟩ := mem_map.mp hjob
      exact ⟨batch, mem_append_right _ (mem_singleton_self _), rfl⟩

end

/-! ### All chunks of a call -/

def span (b : Batch) : ℕ × ℕ := (b.startTraceSeq, b.endTraceSeq)

/-- The batch made of a chunk. -/
structure BatchOf (session : EvidenceBatches.Session) (scopeKey : String) (chunk : List InputTrace)
    (b : Batch) : Prop where
  key : b.scopeKey = scopeKey
  session_id : b.sessionId = session.id
  project : b.projectId = session.projectId
  span : span b = ends (chunk.map (·.traceSeq))
  memories : b.l1MemoryIds = chunk.map (·.l1MemoryId)

theorem freezeChunks_ok : ∀ {parts : List (List InputTrace)} {k : ℕ} {db db' : Db}, Scoped db →
    (parts.zipIdx k).foldlM (freezeChunk input session scopeKey) db = .ok db' →
      Scoped db' ∧ SameInputs db db' ∧ ∃ new, db'.batches = db.batches ++ new ∧
        List.Forall₂ (BatchOf session scopeKey) parts new
  | [], k, db, db', hs, h => by
    obtain rfl : db = db' := ok.inj h
    exact ⟨hs, .refl db, [], by simp, .nil⟩
  | part :: parts, k, db, db', hs, h => by
    rw [zipIdx_cons, foldlM_cons, bind_eq_ok] at h
    obtain ⟨db₁, hpart, hrest⟩ := h
    obtain ⟨scope, batch, hf⟩ := freezeChunk_ok hpart
    obtain ⟨hs', hin, new, hnew, hall⟩ := freezeChunks_ok (hf.scoped hs) hrest
    refine ⟨hs', hf.inputs.trans hin, batch :: new, ?_,
      .cons ⟨hf.key, hf.session_id, hf.project, hf.span, hf.memories⟩ hall⟩
    rw [hnew, hf.batches, append_assoc, singleton_append]

/-! ### The traces and the cursor of a session -/

def sessionBatches (db : Db) (sessionId : String) : List Batch :=
  db.batches.filter fun b => b.sessionId = sessionId

def spanTraces (db : Db) (b : Batch) : List InputTrace :=
  (sessionTraces db b.sessionId).filter fun t =>
    decide (b.startTraceSeq ≤ t.traceSeq) && decide (t.traceSeq ≤ b.endTraceSeq)

section
variable (scopeKeyOf : String → Option String → String)

structure Inv (db : Db) : Prop extends Scoped db where
  numbered : ∀ sid, (sessionTraces db sid).map (·.traceSeq) =
    List.range' 1 (sessionTraces db sid).length
  cursor_le : ∀ sid, cursorOf db sid ≤ (sessionTraces db sid).length
  tiles : ∀ sid, Tiles 0 ((sessionBatches db sid).map span) (cursorOf db sid)
  memories : ∀ b ∈ db.batches, b.l1MemoryIds = (spanTraces db b).map (·.l1MemoryId)
  turns : ∀ b ∈ db.batches, runs ((spanTraces db b).map (·.rawTurnId)) ≤ 20
  scope : ∀ b ∈ db.batches, ∃ session, requireV2Session db b.sessionId = .ok session ∧
    b.scopeKey = scopeKeyOf session.userId session.projectId ∧ b.projectId = session.projectId

end

theorem maxTraceSeq_le (h : ∀ t ∈ traces, t.traceSeq ≤ n) : maxTraceSeq traces ≤ n := by
  unfold maxTraceSeq
  induction traces with
  | nil => simp
  | cons t traces ih =>
    have ht := h t mem_cons_self
    have ih := ih fun t ht => h t (mem_cons_of_mem _ ht)
    rw [map_cons, foldr_cons]
    omega

theorem le_maxTraceSeq (h : t ∈ traces) : t.traceSeq ≤ maxTraceSeq traces := by
  unfold maxTraceSeq
  induction traces with
  | nil => cases h
  | cons t' traces ih =>
    rw [map_cons, foldr_cons]
    rcases mem_cons.mp h with rfl | h
    · omega
    · have := ih h
      omega

theorem seq_bounds (h : traces.map (·.traceSeq) = List.range' 1 n) (ht : t ∈ traces) :
    1 ≤ t.traceSeq ∧ t.traceSeq ≤ n := by
  have := h ▸ mem_map_of_mem (f := InputTrace.traceSeq) ht
  rw [mem_range'_1] at this
  omega

theorem maxTraceSeq_numbered (h : traces.map (·.traceSeq) = List.range' 1 n) : maxTraceSeq traces = n := by
  refine Nat.le_antisymm (maxTraceSeq_le fun t ht => (seq_bounds h ht).2) ?_
  cases n with
  | zero => omega
  | succ n =>
    have hlast : n + 1 ∈ traces.map (·.traceSeq) := by
      rw [h, mem_range'_1]; omega
    obtain ⟨t, ht, he⟩ := mem_map.mp hlast
    rw [← he]
    exact le_maxTraceSeq ht

theorem endTraceSeq_le (h : (sessionTraces db session.id).map (·.traceSeq) = List.range' 1 n)
    (he : endTraceSeq input db session = .ok through) : through ≤ n := by
  have hsub : ∀ t ∈ sessionTraces db session.id, t.traceSeq ≤ n := fun t ht => (seq_bounds h ht).2
  unfold endTraceSeq at he
  dsimp only at he
  split at he
  · split at he
    · cases he
    · rename_i trace hfind
      obtain rfl := ok.inj he
      exact hsub trace (mem_of_find?_eq_some hfind)
  · split_ifs at he
    · split at he
      · cases he
      · obtain rfl := ok.inj he
        exact maxTraceSeq_le fun t ht => hsub t (mem_of_mem_filter ht)
    · obtain rfl := ok.inj he
      exact maxTraceSeq_le hsub

theorem ensureCursor_sessions (sid : String) : (ensureCursor db sid).sessions = db.sessions := by
  unfold ensureCursor
  split_ifs <;> rfl

/-! ### Registering a trace -/

theorem requireV2Session_id (h : requireV2Session db sid = .ok session) : session.id = sid := by
  unfold requireV2Session at h
  cases hf : db.sessions.find? fun s => s.id = sid with
  | none => simp [hf] at h
  | some s =>
    simp only [hf] at h
    split_ifs at h
    obtain rfl := ok.inj h
    have hid := find?_some hf
    exact of_decide_eq_true hid

theorem requireV2Session_congr (h : db'.sessions = db.sessions) (sid : String) :
    requireV2Session db' sid = requireV2Session db sid := by
  unfold requireV2Session
  rw [h]

variable {scopeKeyOf : String → Option String → String}

theorem Inv.end_le (hinv : Inv scopeKeyOf db) (hb : b ∈ db.batches) :
    b.endTraceSeq ≤ (sessionTraces db b.sessionId).length := by
  have hmem : span b ∈ (sessionBatches db b.sessionId).map span :=
    mem_map_of_mem (mem_filter.mpr ⟨hb, decide_eq_true rfl⟩)
  have := ((hinv.tiles b.sessionId).bounds _ hmem).2.2
  exact this.trans (hinv.cursor_le b.sessionId)

/-- A later trace is in none of the batches. -/
theorem spanTraces_append (h : t.sessionId = b.sessionId → b.endTraceSeq < t.traceSeq) :
    spanTraces { db with traces := db.traces ++ [t] } b = spanTraces db b := by
  unfold spanTraces sessionTraces
  rw [filter_append, filter_append]
  refine (congrArg _ ?_).trans (append_nil _)
  refine filter_eq_nil_iff.mpr fun x hx => ?_
  obtain ⟨hx, hsid⟩ := mem_filter.mp hx
  obtain rfl := mem_singleton.mp hx
  have := h (of_decide_eq_true hsid)
  simp only [Bool.and_eq_true, decide_eq_true_eq]
  omega

theorem sessionTraces_append (t : InputTrace) (sid : String) :
    sessionTraces { db with traces := db.traces ++ [t] } sid =
      if t.sessionId = sid then sessionTraces db sid ++ [t] else sessionTraces db sid := by
  unfold sessionTraces
  split_ifs with h <;> simp [h]

theorem Inv.append_trace (hinv : Inv scopeKeyOf db)
    (ht : t.traceSeq = (sessionTraces db t.sessionId).length + 1) :
    Inv scopeKeyOf { db with traces := db.traces ++ [t] } := by
  have hspan : ∀ b ∈ db.batches, spanTraces { db with traces := db.traces ++ [t] } b =
      spanTraces db b := by
    intro b hb
    refine spanTraces_append fun he => ?_
    have := hinv.end_le hb
    rw [ht, he]
    omega
  refine ⟨⟨hinv.keys, hinv.below, hinv.known, hinv.order, hinv.jobs, hinv.owned⟩, ?_, ?_,
    hinv.tiles, ?_, ?_, hinv.scope⟩
  · intro sid
    rw [sessionTraces_append]
    split_ifs with he
    · rw [map_append, hinv.numbered, length_append, length_singleton,
        range'_concat, map_singleton, ht, he, Nat.one_mul, Nat.add_comm]
    · exact hinv.numbered sid
  · intro sid
    rw [sessionTraces_append]
    have := hinv.cursor_le sid
    change cursorOf db sid ≤ _
    split_ifs
    · rw [length_append]; omega
    · exact this
  · intro b hb
    rw [hspan b hb]
    exact hinv.memories b hb
  · intro b hb
    rw [hspan b hb]
    exact hinv.turns b hb

theorem registerInputTrace_inv (hinv : Inv scopeKeyOf db) {input : TraceInput}
    (h : registerInputTrace input db = .ok (db', t)) : Inv scopeKeyOf db' := by
  unfold registerInputTrace at h
  simp only [bind_eq_ok] at h
  obtain ⟨session, -, h⟩ := h
  split at h
  · cases h; exact hinv
  · cases h
    refine hinv.append_trace ?_
    rw [maxTraceSeq_numbered (hinv.numbered session.id)]

/-! ### Cursors and scopes -/

theorem cursorOf_ensureCursor (sid sid' : String) : cursorOf (ensureCursor db sid) sid' = cursorOf db sid' := by
  unfold ensureCursor
  split_ifs with hany
  · rfl
  · unfold cursorOf
    rw [find?_append]
    cases hf : db.cursors.find? fun c => c.1 = sid' with
    | some c => rfl
    | none =>
      by_cases he : sid = sid'
      · simp [he]
      · simp [he]

theorem mem_cursors_ensureCursor (sid : String) : ∃ c ∈ (ensureCursor db sid).cursors, c.1 = sid := by
  unfold ensureCursor
  split_ifs with hany
  · obtain ⟨c, hc, he⟩ := any_eq_true.mp hany
    exact ⟨c, hc, of_decide_eq_true he⟩
  · exact ⟨(sid, 0), mem_append_right _ (mem_singleton_self _), rfl⟩

theorem cursorOf_setCursor (hc : ∃ c ∈ db.cursors, c.1 = sid) (seq : ℕ)
    (sid' : String) : cursorOf (setCursor db sid seq) sid' =
      if sid' = sid then seq else cursorOf db sid' := by
  unfold cursorOf setCursor
  rw [find?_update (f := fun c : String × ℕ => (c.1, seq)) fun _ => rfl, Option.map_map]
  by_cases he : sid' = sid
  · subst he
    rw [if_pos rfl]
    cases hf : db.cursors.find? fun c => c.1 = sid' with
    | none =>
      obtain ⟨c, hc, hk⟩ := hc
      exact absurd (decide_eq_true hk) (find?_eq_none.mp hf c hc)
    | some c =>
      have hk := find?_some hf
      simp only [Option.map_some, Function.comp_apply, if_pos hk, Option.getD_some]
  · rw [if_neg he]
    cases hf : db.cursors.find? fun c => c.1 = sid' with
    | none => rfl
    | some c =>
      have hk : c.1 = sid' := by
        have := find?_some hf
        exact of_decide_eq_true this
      have hne : c.1 ≠ sid := fun h => he (hk.symm.trans h)
      simp [hne]

theorem scoped_newScope (hs : Scoped db)
    (hnew : ∀ s ∈ db.scopes, s.scopeKey ≠ scope.scopeKey) :
    Scoped { db with scopes := db.scopes ++ [scope] } := by
  refine ⟨?_, ?_, ?_, hs.order, hs.jobs, hs.owned⟩
  · rw [map_append, map_singleton]
    refine nodup_append.mpr ⟨hs.keys, nodup_singleton _, ?_⟩
    rintro key hkey key' hkey' rfl
    obtain ⟨s, hsm, he⟩ := mem_map.mp hkey
    exact hnew s hsm (he.trans (mem_singleton.mp hkey'))
  · intro b hb s hsm hkey
    rcases mem_append.mp hsm with hsm | hsm
    · exact hs.below b hb s hsm hkey
    · obtain rfl := mem_singleton.mp hsm
      obtain ⟨s, hsm, he⟩ := hs.known b hb
      exact absurd (he.trans hkey.symm) (hnew s hsm)
  · intro b hb
    obtain ⟨s, hsm, he⟩ := hs.known b hb
    exact ⟨s, mem_append_left _ hsm, he⟩

theorem ensureScope_ok {userId : String} {projectId : Option String}
    (hs : Scoped db) (h : ensureScope scopeKeyOf db userId projectId at_ = .ok (db', scope)) :
    Scoped db' ∧ SameInputs db db' ∧ db'.batches = db.batches ∧
      scope.scopeKey = scopeKeyOf userId projectId := by
  unfold ensureScope at h
  dsimp only at h
  split_ifs at h with hclash hknown
  · split at h
    · split_ifs at h with hkey
      obtain ⟨rfl, rfl⟩ := Prod.mk.inj (ok.inj h)
      exact ⟨hs, .refl db, rfl, hkey⟩
    · cases h
  · split at h
    · split_ifs at h with hkey
      obtain ⟨rfl, rfl⟩ := Prod.mk.inj (ok.inj h)
      refine ⟨scoped_newScope hs fun s hsm he => hknown ?_, ⟨rfl, rfl, rfl, rfl⟩, rfl, hkey⟩
      exact any_eq_true.mpr ⟨s, hsm, decide_eq_true he⟩
    · cases h

/-! ### Freezing -/

theorem ensureCursor_inv (hinv : Inv scopeKeyOf db) (sid : String) : Inv scopeKeyOf (ensureCursor db sid) := by
  have hcursor : ∀ sid', cursorOf (ensureCursor db sid) sid' = cursorOf db sid' := cursorOf_ensureCursor sid
  have hrest : ensureCursor db sid = { db with cursors := (ensureCursor db sid).cursors } := by
    unfold ensureCursor
    split_ifs <;> rfl
  rw [hrest] at hcursor ⊢
  exact ⟨⟨hinv.keys, hinv.below, hinv.known, hinv.order, hinv.jobs, hinv.owned⟩, hinv.numbered,
    fun sid' => by rw [hcursor]; exact hinv.cursor_le sid',
    fun sid' => by rw [hcursor]; exact hinv.tiles sid', hinv.memories, hinv.turns, hinv.scope⟩

theorem tracesBetween_part {c : ℕ}
    (h : (sessionTraces db sid).map (·.traceSeq) = List.range' 1 n) (hct : c ≤ through)
    (htn : through ≤ n) :
    (tracesBetween db sid c through).map (·.traceSeq) = List.range' (c + 1) (through - c) ∧
      ∃ l r, sessionTraces db sid = l ++ tracesBetween db sid c through ++ r := by
  obtain ⟨m, hm, hnum, hsplit⟩ := filter_between h hct htn
  have hsorted : m.Pairwise fun a b => (ascending InputTrace.traceSeq a b).isLE = true := by
    have hlt : (m.map (·.traceSeq)).Pairwise (· < ·) := by
      rw [hnum]
      exact pairwise_lt_range'
    refine (pairwise_map.mp hlt).imp fun {a b} hab => ?_
    rw [ascending_isLE]
    omega
  have hT : tracesBetween db sid c through = m := by
    unfold tracesBetween
    rw [hm]
    exact sortBy_eq_self _ hsorted
  rw [hT]
  exact ⟨hnum, _, _, hsplit⟩

theorem forall₂_map_eq {β γ δ : Type*} {R : β → γ → Prop} {f : β → δ} {g : γ → δ}
    (hR : ∀ a b, R a b → g b = f a) {l : List β} {l' : List γ} (h : List.Forall₂ R l l') :
    l'.map g = l.map f := by
  induction h with
  | nil => rfl
  | cons hab _ ih => rw [map_cons, map_cons, hR _ _ hab, ih]

/-- **Step lemma**, for a call that freezes batches. -/
theorem inv_frozen (hinv : Inv scopeKeyOf db)
    (hsession : requireV2Session db session.id = .ok session)
    (hct : cursorOf db session.id < through)
    (htn : through ≤ (sessionTraces db session.id).length) (hs : Scoped db')
    (hin : SameInputs db db') (hrow : ∃ c ∈ db'.cursors, c.1 = session.id) {new : List Batch}
    (hbatches : db'.batches = db.batches ++ new)
    (hnew : List.Forall₂ (BatchOf session (scopeKeyOf session.userId session.projectId))
      (splitL3TracesByRawTurn (tracesBetween db session.id (cursorOf db session.id) through) 20)
      new) :
    Inv scopeKeyOf (setCursor db' session.id through) := by
  set T := tracesBetween db session.id (cursorOf db session.id) through with hTdef
  obtain ⟨hTnum, l, r, hsplit⟩ := tracesBetween_part (hinv.numbered session.id) (Nat.le_of_lt hct) htn
  rw [← hTdef] at hTnum hsplit
  have htraces : ∀ sid, sessionTraces (setCursor db' session.id through) sid = sessionTraces db sid :=
    fun sid => by unfold sessionTraces setCursor; dsimp only; rw [hin.traces]
  have hcursor : ∀ sid, cursorOf (setCursor db' session.id through) sid =
      if sid = session.id then through else cursorOf db sid := by
    intro sid
    rw [cursorOf_setCursor hrow]
    unfold cursorOf
    rw [hin.cursors]
  have hspan : ∀ b, spanTraces (setCursor db' session.id through) b = spanTraces db b :=
    fun b => by unfold spanTraces; rw [htraces]
  -- a new batch spans the chunk it was made of
  have hchunk : ∀ b ∈ new, b.sessionId = session.id ∧
      b.scopeKey = scopeKeyOf session.userId session.projectId ∧ b.projectId = session.projectId ∧
      b.l1MemoryIds = (spanTraces db b).map (·.l1MemoryId) ∧
      runs ((spanTraces db b).map (·.rawTurnId)) ≤ 20 := by
    intro b hb
    obtain ⟨part, hpart, hof⟩ : ∃ part ∈ splitL3TracesByRawTurn T 20,
        BatchOf session (scopeKeyOf session.userId session.projectId) part b := by
      obtain ⟨i, hi, rfl⟩ := mem_iff_getElem.mp hb
      have hi' := hnew.length_eq ▸ hi
      exact ⟨_, getElem_mem hi', (List.forall₂_iff_get.mp hnew).2 i hi' hi⟩
    obtain ⟨p, q, hpq⟩ := append_of_mem hpart
    have hflat : T = p.flatten ++ part ++ q.flatten := by
      rw [← flatten_chunks_groupBy (show 0 < 20 by omega) (fun t : InputTrace => t.rawTurnId) T]
      change (splitL3TracesByRawTurn T 20).flatten = _
      rw [hpq, flatten_append, flatten_cons, append_assoc]
    have hwhole : sessionTraces db session.id = (l ++ p.flatten) ++ part ++ (q.flatten ++ r) := by
      rw [hsplit, hflat]
      simp only [append_assoc]
    have hspanb : spanTraces db b = part := by
      have hends := hof.span
      unfold spanTraces
      rw [hof.session_id, show b.startTraceSeq = (ends (part.map (·.traceSeq))).1 from
        congrArg Prod.fst hends, show b.endTraceSeq = (ends (part.map (·.traceSeq))).2 from
        congrArg Prod.snd hends, hwhole]
      exact filter_ends (chunk_ne_nil (by omega) hpart) (hwhole ▸ hinv.numbered session.id)
    rw [hspanb]
    exact ⟨hof.session_id, hof.key, hof.project, hof.memories, runs_chunk_le (by omega) hpart⟩
  refine ⟨⟨hs.keys, hs.below, hs.known, hs.order, hs.jobs, hs.owned⟩, ?_, ?_, ?_, ?_, ?_, ?_⟩
  · intro sid
    rw [htraces]
    exact hinv.numbered sid
  · intro sid
    rw [htraces, hcursor]
    split_ifs with he
    · rw [he]; exact htn
    · exact hinv.cursor_le sid
  · intro sid
    have hsb : sessionBatches (setCursor db' session.id through) sid =
        sessionBatches db sid ++ new.filter fun b => b.sessionId = sid := by
      unfold sessionBatches setCursor
      rw [hbatches, filter_append]
    rw [hsb, hcursor]
    by_cases he : sid = session.id
    · subst he
      rw [if_pos rfl, filter_eq_self.mpr fun b hb => decide_eq_true (hchunk b hb).1, map_append]
      refine (hinv.tiles session.id).append ?_
      have hmap : new.map span = ((splitL3TracesByRawTurn T 20).map fun part =>
          part.map (·.traceSeq)).map ends := by
        rw [map_map]
        exact forall₂_map_eq (fun _ _ hof => hof.span) hnew
      have hblocks : ((splitL3TracesByRawTurn T 20).map fun part =>
          part.map (·.traceSeq)).flatten =
            List.range' (cursorOf db session.id + 1) (through - cursorOf db session.id) := by
        rw [← hTnum, ← map_flatten]
        congr 1
        exact flatten_chunks_groupBy (by omega) _ T
      have htiles := tiles_of_flatten (fun block hblock => ?_) hblocks
      · rw [show cursorOf db session.id + (through - cursorOf db session.id) = through by omega]
          at htiles
        rw [hmap]
        exact htiles
      · obtain ⟨part, hpart, rfl⟩ := mem_map.mp hblock
        rw [Ne, map_eq_nil_iff]
        exact chunk_ne_nil (by omega) hpart
    · rw [if_neg he, filter_eq_nil_iff.mpr fun b hb => ?_, append_nil]
      · exact hinv.tiles sid
      · rw [decide_eq_true_eq, (hchunk b hb).1]
        exact Ne.symm he
  · intro b hb
    rw [hspan]
    rcases mem_append.mp (hbatches ▸ hb) with hb | hb
    · exact hinv.memories b hb
    · exact (hchunk b hb).2.2.2.1
  · intro b hb
    rw [hspan]
    rcases mem_append.mp (hbatches ▸ hb) with hb | hb
    · exact hinv.turns b hb
    · exact (hchunk b hb).2.2.2.2
  · intro b hb
    have hreq : requireV2Session (setCursor db' session.id through) b.sessionId =
        requireV2Session db b.sessionId := requireV2Session_congr hin.sessions _
    rw [hreq]
    rcases mem_append.mp (hbatches ▸ hb) with hb | hb
    · exact hinv.scope b hb
    · obtain ⟨hsid, hkey, hproject, -⟩ := hchunk b hb
      exact ⟨session, by rw [hsid]; exact hsession, hkey, hproject⟩

theorem freezeBatches_inv (hinv : Inv scopeKeyOf db) {result : FreezeResult}
    (h : freezeBatches scopeKeyOf input db = .ok (db', result)) : Inv scopeKeyOf db' := by
  unfold freezeBatches at h
  simp only [bind_eq_ok] at h
  obtain ⟨session, hsession, through, hthrough, h⟩ := h
  have hid : session.id = input.sessionId := requireV2Session_id hsession
  have hinv₁ := ensureCursor_inv hinv session.id
  have hrow : ∃ c ∈ (ensureCursor db session.id).cursors, c.1 = session.id :=
    mem_cursors_ensureCursor session.id
  have hsession₁ : requireV2Session (ensureCursor db session.id) session.id = .ok session := by
    rw [hid, requireV2Session_congr (ensureCursor_sessions input.sessionId), hsession]
  revert h
  generalize ensureCursor db session.id = db₁ at *
  intro h
  by_cases hle : through ≤ cursorOf db₁ session.id
  · rw [if_pos hle] at h
    obtain ⟨rfl, -⟩ := Prod.mk.inj (ok.inj h)
    exact hinv₁
  rw [if_neg hle] at h
  by_cases hnil : tracesBetween db₁ session.id (cursorOf db₁ session.id) through = []
  · rw [if_pos hnil] at h
    obtain ⟨rfl, -⟩ := Prod.mk.inj (ok.inj h)
    exact hinv₁
  rw [if_neg hnil, bind_eq_ok] at h
  obtain ⟨⟨db₂, scope⟩, hscope, h⟩ := h
  obtain ⟨db₃, hchunks, h⟩ := bind_eq_ok.mp h
  obtain ⟨rfl, -⟩ := Prod.mk.inj (ok.inj h)
  obtain ⟨hs₂, hin₂, hbatches₂, hkey⟩ := ensureScope_ok hinv₁.toScoped hscope
  obtain ⟨hs₃, hin₃, new, hnew, hall⟩ := freezeChunks_ok hs₂ hchunks
  have hin := hin₂.trans hin₃
  rw [hkey] at hall
  exact inv_frozen hinv₁ hsession₁ (by omega)
    (endTraceSeq_le (hinv₁.numbered session.id) hthrough) hs₃ hin
    (by rw [hin.cursors]; exact hrow) (by rw [hnew, hbatches₂]) hall

/-! ### Runs -/

/-- The batches partition the scheduled traces, and each has its number and its jobs. -/
structure BatchesSound (db : Db) : Prop where
  /-- A trace up to the cursor is in exactly one batch of its session. -/
  covered : ∀ t ∈ db.traces, t.traceSeq ≤ cursorOf db t.sessionId →
    ∃! b, b ∈ sessionBatches db t.sessionId ∧ b.startTraceSeq ≤ t.traceSeq ∧ t.traceSeq ≤ b.endTraceSeq
  /-- A trace beyond the cursor is in none. -/
  beyond : ∀ t ∈ db.traces, cursorOf db t.sessionId < t.traceSeq →
    ∀ b ∈ sessionBatches db t.sessionId, b.endTraceSeq < t.traceSeq
  /-- The intervals of the batches of a session follow one another without a gap. -/
  consecutive : ∀ sid, Tiles 0 ((sessionBatches db sid).map span) (cursorOf db sid)
  /-- A batch lists the traces of its interval. -/
  contents : ∀ b ∈ db.batches, b.l1MemoryIds = (spanTraces db b).map (·.l1MemoryId)
  /-- The later batch of a session has the later traces and the larger number. -/
  ordered : ∀ sid, (sessionBatches db sid).Pairwise fun a b =>
    a.endTraceSeq < b.startTraceSeq ∧ a.scopeKey = b.scopeKey ∧ a.scopeSeq < b.scopeSeq
  /-- No number of a scope is used twice, by whatever session. -/
  numbers : db.batches.Pairwise fun a b => a.scopeKey = b.scopeKey → a.scopeSeq < b.scopeSeq
  turns : ∀ b ∈ db.batches, runs ((spanTraces db b).map (·.rawTurnId)) ≤ 20
  jobs : ∀ b ∈ db.batches, ∀ field ∈ targetFields b.projectId, HasFieldJob db.jobs b field

/-- Sessions with nothing registered yet. -/
def start (sessions : List EvidenceBatches.Session) (feedback : List Feedback) : Db := { sessions, feedback }

theorem start_inv (sessions : List EvidenceBatches.Session) (feedback : List Feedback) :
    Inv scopeKeyOf (start sessions feedback) := by
  refine ⟨⟨nodup_nil, ?_, ?_, .nil, ?_, ?_⟩, ?_, ?_, ?_, ?_, ?_, ?_⟩
  all_goals intro x
  all_goals first | rfl | exact Nat.zero_le _ | (intro hx; exact absurd hx (by simp [start]))

theorem inv_step (hinv : Inv scopeKeyOf db) (op : DbOp) : Inv scopeKeyOf (applyDbOp scopeKeyOf db op) := by
  cases op with
  | registerInputTrace input =>
    change Inv scopeKeyOf (((registerInputTrace input db).toOption.map (·.1)).getD db)
    cases h : registerInputTrace input db with
    | error e => exact hinv
    | ok r => exact registerInputTrace_inv (t := r.2) hinv h
  | freezeBatches input =>
    change Inv scopeKeyOf (((freezeBatches scopeKeyOf input db).toOption.map (·.1)).getD db)
    cases h : freezeBatches scopeKeyOf input db with
    | error e => exact hinv
    | ok r => exact freezeBatches_inv hinv h

theorem Inv.same_scope (hinv : Inv scopeKeyOf db) {a : Batch} (ha : a ∈ db.batches)
    (hb : b ∈ db.batches) (h : a.sessionId = b.sessionId) : a.scopeKey = b.scopeKey := by
  obtain ⟨s, hs, hkey, -⟩ := hinv.scope a ha
  obtain ⟨s', hs', hkey', -⟩ := hinv.scope b hb
  rw [h, hs'] at hs
  rw [hkey, hkey', ok.inj hs]

theorem Inv.sound (hinv : Inv scopeKeyOf db) : BatchesSound db where
  covered := by
    intro t ht hle
    have htiles := hinv.tiles t.sessionId
    have hpos : 0 < t.traceSeq :=
      (seq_bounds (hinv.numbered t.sessionId) (mem_filter.mpr ⟨ht, decide_eq_true rfl⟩)).1
    obtain ⟨i, hi, hti⟩ := htiles.exists_mem t.traceSeq hpos hle
    obtain ⟨b, hb, rfl⟩ := mem_map.mp hi
    refine ⟨b, ⟨hb, hti⟩, fun b' ⟨hb', hlo, hhi⟩ => ?_⟩
    -- the intervals of two batches are apart
    have hpair : (sessionBatches db t.sessionId).Pairwise fun a b =>
        a.endTraceSeq < b.startTraceSeq := pairwise_map.mp htiles.pairwise
    by_contra hne
    obtain ⟨hlo', hhi'⟩ : b.startTraceSeq ≤ t.traceSeq ∧ t.traceSeq ≤ b.endTraceSeq := hti
    rcases pairwise_or hpair hb' hb hne with h | h <;> omega
  beyond := by
    intro t ht hlt b hb
    have := ((hinv.tiles t.sessionId).bounds _ (mem_map_of_mem hb)).2.2
    change b.endTraceSeq ≤ _ at this
    omega
  consecutive := hinv.tiles
  contents := hinv.memories
  ordered := by
    intro sid
    have hpair : (sessionBatches db sid).Pairwise fun a b => a.endTraceSeq < b.startTraceSeq :=
      pairwise_map.mp (hinv.tiles sid).pairwise
    have hseq : (sessionBatches db sid).Pairwise fun a b =>
        a.scopeKey = b.scopeKey → a.scopeSeq < b.scopeSeq := hinv.order.filter _
    refine (hpair.and hseq).imp_of_mem fun {a b} ha hb hab => ?_
    obtain ⟨ha, hsa⟩ := mem_filter.mp ha
    obtain ⟨hb, hsb⟩ := mem_filter.mp hb
    have hkey := hinv.same_scope ha hb ((of_decide_eq_true hsa).trans (of_decide_eq_true hsb).symm)
    exact ⟨hab.1, hkey, hab.2 hkey⟩
  numbers := hinv.order
  turns := hinv.turns
  jobs := hinv.jobs

/-- **Batches.** Over every sequence of calls the batches partition the scheduled traces. -/
theorem run_batches (scopeKeyOf : String → Option String → String)
    (sessions : List EvidenceBatches.Session) (feedback : List Feedback) (ops : List DbOp) :
    ∀ db ∈ visited (applyDbOp scopeKeyOf) (start sessions feedback) ops, BatchesSound db := by
  intro db hdb
  have hinv : Inv scopeKeyOf db := invariant (I := Inv scopeKeyOf)
    (fun _ op hinv => inv_step hinv op) ops _ (start_inv sessions feedback) db hdb
  exact hinv.sound

/-- **The traces of a session are numbered from 1** in every run, without a gap, and no batch is ahead of them. -/
theorem run_numbered (scopeKeyOf : String → Option String → String)
    (sessions : List EvidenceBatches.Session) (feedback : List Feedback) (ops : List DbOp) (sid : String) :
    let db := final (applyDbOp scopeKeyOf) (start sessions feedback) ops
    (sessionTraces db sid).map (·.traceSeq) = List.range' 1 (sessionTraces db sid).length ∧
      cursorOf db sid ≤ (sessionTraces db sid).length :=
  have hinv := invariant_final (I := Inv scopeKeyOf) (fun _ op hinv => inv_step hinv op) ops _
    (start_inv sessions feedback)
  ⟨hinv.numbered sid, hinv.cursor_le sid⟩

end

/-! ### A closed session -/

/-- Two turns of a session are registered, then the session is closed. -/
def closedSession : List DbOp :=
  [.registerInputTrace
      { sessionId := "session_1", l1MemoryId := "memory_1", rawTurnId := "turn_1", createdAt := 1 },
    .registerInputTrace
      { sessionId := "session_1", l1MemoryId := "memory_2", rawTurnId := "turn_2", createdAt := 2 },
    .freezeBatches
      { sessionId := "session_1"
        trigger := .sessionClose
        at_ := 3
        newBatchId := fun n => s!"batch_{n}"
        newJobId := fun n field => s!"job_{n}_" ++ field.text }]

theorem run_batches_closedSession :
    BatchesSound (final (applyDbOp fun user _ => user)
      (start [⟨"session_1", "user_1", none, some 2⟩] []) closedSession) :=
  run_batches (fun user _ => user) _ _ closedSession _ (final_mem_visited _ closedSession _)

end Memmy.Storage.Partition
