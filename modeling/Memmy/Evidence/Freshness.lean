import Memmy.Evidence.Withdrawal

/-! # Extractions are fresh

* `Fresh`: what a processed memory was extracted from is what it and its processed parents hold.
* `Rescheduled`: a step that changes a memory schedules all that depends on it, directly or through others.
* `AppliedCurrent`: an extraction that is written had read what the memory and its parents hold.
* `Orderly`: the steps under which this holds; `extraction_fresh`: all three in every run of such steps.
* `acrossWorkspaces`: a memory extracted from a parent that was uploaded in another workspace is stale. -/

namespace Memmy.Evidence

open Relation Lib.Sort Lib.Rows Lib.Run List Option Function MemoryRow

/-! ### The property -/

/-- The extraction of `m` reads the row `y` for one of the parents. -/
def Reads (rows : List MemoryRow) (m y : MemoryRow) : Prop :=
  ∃ p ∈ m.evidence.parentSourceRecordIds,
    (lookupExternalEvidence rows m.evidence.owner m.evidence.source p).2 = some y

/-- What was read is what the row holds. -/
structure Source.Current (source : Source) (y : MemoryRow) : Prop where
  id : source.id = y.id
  contentHash : source.contentHash = y.memoryValue
  generation : source.generation = y.generation?

def Fresh (w : World) : Prop :=
  ∀ m ∈ w.store.observations, m.isObservationMemoryProcessed = true →
    ∃ x, w.extractedFrom m.id = some x ∧ m.generation? = some x.job.generation ∧
      ∀ y, Reads w.store.observations m y → y.isObservationMemoryProcessed = true →
        ∃ source ∈ x.sources, source.Current y

/-- What an extraction of the row starts from. -/
def MemoryRow.upload (m : MemoryRow) : List String × List String :=
  ([if m.evidence.sourceContent ≠ "" then m.evidence.sourceContent else m.memoryValue,
    if m.evidence.sourceTitle ≠ "" then m.evidence.sourceTitle else m.title,
    if m.evidence.sourceSummary ≠ "" then m.evidence.sourceSummary else m.summary,
    m.evidence.startedAt, m.evidence.endedAt], m.evidence.parentSourceRecordIds)

/-- The row was extracted, or left out as not useful. -/
def MemoryRow.isSettled (m : MemoryRow) : Bool := m.observation.any (·.status ≠ .pending)

/-- The row has the content it had, and was not extracted in between. -/
def Unchanged (y y' : MemoryRow) : Prop := y'.upload = y.upload ∧ (y'.isSettled = true → y.isSettled = true)

def Event.time : Event → Option String
  | .sync _ now => some now
  | .deleteMemory _ now => some now
  | .beginSuggestion _ _ now => some now
  | .finishSuggestion _ _ _ now => some now
  | .updateSkill _ now => some now
  | .finishExtraction _ _ _ now => some now
  | .backfill _ now => some now
  | _ => none

/-- A live row from which a chain of parents leads to a row that was changed waits for an extraction that
was scheduled in this step. -/
def Rescheduled (w : World) (e : Event) : Prop :=
  ∀ y' ∈ (act w e).store.observations, y'.Live →
    (∀ y ∈ w.store.observations, y.id = y'.id → ¬ Unchanged y y') →
      ∀ m ∈ (act w e).store.observations, m.Live → m.id ≠ y'.id →
        TransGen (fun m y => m.Live ∧ Reads (act w e).store.observations m y) m y' →
          ∃ g, m.observation = some ⟨.pending, g⟩ ∧ e.time = some g.scheduledAt

/-- The extraction has read the content of the row and of its processed parents. -/
structure UpToDate (rows : List MemoryRow) (x : Extraction) (m : MemoryRow) : Prop where
  contentHash : x.job.contentHash = m.memoryValue
  generation : m.generation? = some x.job.generation
  sources : ∀ y, Reads rows m y → y.isObservationMemoryProcessed = true → y.asSource ∈ x.sources

def AppliedCurrent (w : World) : Event → Prop
  | .finishExtraction i outcome activated now => ∀ x, w.extractions[i]? = some x →
    (act w (.finishExtraction i outcome activated now)).store.observations ≠ w.store.observations →
      ∃ m ∈ w.store.observations, m.id = x.memoryId ∧ UpToDate w.store.observations x m
  | _ => True

/-- The rows from before there was an extraction. -/
structure OldStore (s : Store) : Prop where
  tidy : Tidy s.observations
  fresh : ∀ m ∈ s.observations, m.id < s.nextId
  unread : ∀ m ∈ s.observations, m.observation = none

/-- No memory that is being extracted was scheduled at this time. -/
def Elapsed (extractions : List Extraction) (now : String) : Prop :=
  ∀ x ∈ extractions, x.job.generation.scheduledAt ≠ now

/-- An upload that brings only a newer revision comes under the name of the source it is stored under, or
names only dated records as parents. -/
def NamedAlike (rows : List MemoryRow) (r : SyncRequest) : Prop :=
  ∀ m u, (lookupExternalEvidence rows r.owner r.source r.sourceRecordId).2 = some m →
    r.action = .upsert u → m.sameUpload u = true → m.evidence.source ≠ r.source →
      ∀ p ∈ u.parents, isHistoryRecordId p = true

/-- **The steps under which extractions are fresh.** -/
def Orderly (w : World) : Event → Prop
  | .sync r now => Admissible w.store.observations r ∧ NamedAlike w.store.observations r ∧
    Elapsed w.extractions now
  | .finishExtraction i _ _ now => Elapsed (w.extractions.eraseIdx i) now
  | .backfill _ now => Elapsed w.extractions now
  | _ => True

variable {s s' : Store} {w : World} {rows rows' : List MemoryRow} {m m' y y' root : MemoryRow}
  {r : SyncRequest} {u : Upload} {x : Extraction} {xs : List Extraction}
  {source recordId now reason p : String}

theorem reads_record (h : Tidy rows) (hread : Reads rows m y) :
    y ∈ rows ∧ ∃ p ∈ m.evidence.parentSourceRecordIds, y.record = m.parent p := by
  obtain ⟨p, hp, hfind⟩ := hread
  obtain ⟨hy, hrecord⟩ := h.lookup_eq_some hfind
  exact ⟨hy, p, hp, hrecord⟩

/-! ### What a step does to a row -/

/-- The row is about the same record and parents, and is not extracted anew. -/
structure Still (m m' : MemoryRow) : Prop where
  parents : m'.evidence.parentSourceRecordIds = m.evidence.parentSourceRecordIds
  parent : ∀ p ∈ m.evidence.parentSourceRecordIds, m'.parent p = m.parent p
  live : m'.Live → m.Live
  generation : m'.generation? = m.generation?
  processed : m'.isObservationMemoryProcessed = true →
    m.isObservationMemoryProcessed = true ∧ m'.memoryValue = m.memoryValue

/-- The row is not processed, and no extraction is under way for it. -/
structure Idle (xs : List Extraction) (m : MemoryRow) : Prop where
  unprocessed : m.isObservationMemoryProcessed = false
  generation : ∀ x ∈ xs, m.generation? ≠ some x.job.generation

structure Moved (xs : List Extraction) (m m' : MemoryRow) : Prop where
  id : m'.id = m.id
  record : m'.record = m.record
  cases : Still m m' ∨ Idle xs m'

theorem Still.refl (m : MemoryRow) : Still m m := ⟨rfl, fun _ _ => rfl, id, rfl, fun h => ⟨h, rfl⟩⟩

theorem Moved.refl (m : MemoryRow) : Moved xs m m := ⟨rfl, rfl, Or.inl (.refl m)⟩

theorem SameOrigin.moved (h : SameOrigin m m') (hlive : m'.Live → m.Live)
    (hgeneration : m'.generation? = m.generation?)
    (hprocessed : m'.isObservationMemoryProcessed = true →
      m.isObservationMemoryProcessed = true ∧ m'.memoryValue = m.memoryValue) : Moved xs m m' :=
  ⟨h.id, h.record, Or.inl ⟨h.parents, fun _ _ => h.parent, hlive, hgeneration, hprocessed⟩⟩

theorem processed_live (h : m.isObservationMemoryProcessed = true) : m.Live := by
  unfold isObservationMemoryProcessed at h
  simp only [Bool.and_eq_true, decide_eq_true_eq] at h
  rw [MemoryRow.Live, h.2]
  simp

theorem settled_of_skipped (h : m.isSkipped = true) : m.isSettled = true := by
  unfold isSkipped isSettled at *
  cases ho : m.observation with
  | none => simp [ho] at h
  | some o =>
    simp only [ho, any_some, decide_eq_true_eq] at h ⊢
    rw [h]
    exact nofun

theorem settled_of_processed (h : m.isObservationMemoryProcessed = true) : m.isSettled = true := by
  unfold isObservationMemoryProcessed isSettled at *
  cases ho : m.observation with
  | none => simp [ho] at h
  | some o =>
    simp only [ho, any_some, Bool.and_eq_true, decide_eq_true_eq] at h ⊢
    rw [h.1]
    exact nofun

theorem unprocessed_of_skipped (h : m.isSkipped = true) : m.isObservationMemoryProcessed = false := by
  unfold isSkipped isObservationMemoryProcessed at *
  cases ho : m.observation with
  | none => simp [ho] at h
  | some o =>
    simp only [ho, any_some, decide_eq_true_eq] at h ⊢
    simp [h]

theorem moved_withdrawn (m : MemoryRow) : Moved xs m (m.withdrawn now) :=
  (SameOrigin.withdrawn m).moved (fun h => absurd rfl h) rfl fun h => absurd rfl (processed_live h)

theorem scheduled_unprocessed (m : MemoryRow) :
    (m.scheduled reason now).isObservationMemoryProcessed = false := by
  simp [scheduled, isObservationMemoryProcessed]

theorem idle_scheduled (helapsed : Elapsed xs now) (m : MemoryRow) : Idle xs (m.scheduled reason now) where
  unprocessed := scheduled_unprocessed m
  generation := fun x hx heq => by
    have hgeneration : (⟨m.id, m.evidence.revision, (m.scheduled reason now).memoryValue, reason, now⟩ :
        Generation) = x.job.generation := some.inj heq
    exact helapsed x hx (hgeneration ▸ rfl)

theorem moved_scheduled (helapsed : Elapsed xs now) (m : MemoryRow) : Moved xs m (m.scheduled reason now) :=
  ⟨(SameOrigin.scheduled m).id, (SameOrigin.scheduled m).record, Or.inr (idle_scheduled helapsed m)⟩

/-! ### The invariant -/

/-- Of each parent, the extraction has read the row if it is processed. -/
def KnownParents (rows : List MemoryRow) (x : Extraction) (m : MemoryRow) : Prop :=
  ∀ p ∈ m.evidence.parentSourceRecordIds, ∃ y ∈ rows, y.record = m.parent p ∧ y.id ≠ m.id ∧
    (y.isObservationMemoryProcessed = true → ∃ source ∈ x.sources, source.id = y.id)

structure Flow (s : Store) (xs : List Extraction) (extractedFrom : ℕ → Option Extraction) : Prop where
  tidy : Tidy s.observations
  ids : ∀ m ∈ s.observations, m.id < s.nextId
  underWay : ∀ x ∈ xs, ∀ m ∈ s.observations, m.Live → m.id = x.memoryId →
    m.generation? = some x.job.generation → KnownParents s.observations x m
  fresh : ∀ m ∈ s.observations, m.isObservationMemoryProcessed = true →
    ∃ x, extractedFrom m.id = some x ∧ m.generation? = some x.job.generation ∧
      ∀ p ∈ m.evidence.parentSourceRecordIds, ∀ y ∈ s.observations, y.record = m.parent p →
        y.isObservationMemoryProcessed = true → ∃ source ∈ x.sources, source.Current y

variable {extractedFrom : ℕ → Option Extraction}

variable {e : Event} {xs' : List Extraction}

theorem flow_moved (h : Flow s xs extractedFrom) (htidy : Tidy s'.observations)
    (hids : ∀ m ∈ s'.observations, m.id < s'.nextId) (hxs : ∀ x ∈ xs', x ∈ xs)
    (hold : ∀ m' ∈ s'.observations, (∃ m ∈ s.observations, Moved xs' m m') ∨ Idle xs' m')
    (hnew : ∀ m ∈ s.observations, ∃ m' ∈ s'.observations, Moved xs' m m') : Flow s' xs' extractedFrom := by
  -- a row that is not idle was there and is as it was
  have hstill : ∀ m' ∈ s'.observations, Idle xs' m' ∨
      ∃ m ∈ s.observations, m'.id = m.id ∧ m'.record = m.record ∧ Still m m' := fun m' hm' => by
    rcases hold m' hm' with ⟨m, hm, hmoved⟩ | hidle
    · exact hmoved.cases.elim (fun hs => Or.inr ⟨m, hm, hmoved.id, hmoved.record, hs⟩) Or.inl
    · exact Or.inl hidle
  have hprocessed : ∀ m' ∈ s'.observations, m'.isObservationMemoryProcessed = true →
      ∃ m ∈ s.observations, m'.id = m.id ∧ m'.record = m.record ∧ Still m m' := fun m' hm' hp =>
    (hstill m' hm').resolve_left fun hidle => by
      rw [hidle.unprocessed] at hp
      cases hp
  refine ⟨htidy, hids, fun x hx m' hm' hlive hid hgeneration => ?_, fun m' hm' hp => ?_⟩
  · obtain ⟨m, hm, hmid, -, hs⟩ := (hstill m' hm').resolve_left fun hidle =>
      hidle.generation x hx hgeneration
    intro p hp
    rw [hs.parents] at hp
    obtain ⟨y, hy, hrecord, hne, hread⟩ := h.underWay x (hxs x hx) m hm (hs.live hlive) (hmid ▸ hid)
      (hs.generation ▸ hgeneration) p hp
    obtain ⟨y', hy', hmoved⟩ := hnew y hy
    refine ⟨y', hy', by rw [hmoved.record, hrecord, hs.parent p hp], by rw [hmoved.id, hmid]; exact hne,
      fun hyp => ?_⟩
    rw [hmoved.id]
    rcases hmoved.cases with hys | hidle
    · exact hread (hys.processed hyp).1
    · rw [hidle.unprocessed] at hyp
      cases hyp
  · obtain ⟨m, hm, hmid, -, hs⟩ := hprocessed m' hm' hp
    obtain ⟨x, hx, hgeneration, hsources⟩ := h.fresh m hm (hs.processed hp).1
    refine ⟨x, hmid ▸ hx, hs.generation.trans hgeneration, fun p hpp y' hy' hrecord hyp => ?_⟩
    rw [hs.parents] at hpp
    obtain ⟨y, hy, hyid, hyrecord, hys⟩ := hprocessed y' hy' hyp
    obtain ⟨source, hsource, hcurrent⟩ := hsources p hpp y hy
      (hyrecord.symm.trans (hrecord.trans (hs.parent p hpp))) (hys.processed hyp).1
    exact ⟨source, hsource, hcurrent.id.trans hyid.symm,
      hcurrent.contentHash.trans (hys.processed hyp).2.symm, hcurrent.generation.trans hys.generation.symm⟩

/-- **A row is settled**: its parents were read as they are, and every row that names it as a parent is
idle. -/
theorem flow_settled (h : Flow s xs extractedFrom) (htidy : Tidy s'.observations)
    (hids : ∀ m ∈ s'.observations, m.id < s'.nextId) (hxs : ∀ x ∈ xs', x ∈ xs) (hm : m ∈ s.observations)
    (horigin : SameOrigin m root) (hlive : m.Live) (hgeneration : root.generation? = m.generation?)
    (hjob : m.generation? = some x.job.generation)
    (hold : ∀ m' ∈ s'.observations, m' = root ∨ m'.id ≠ m.id ∧ ∃ m₀ ∈ s.observations, Moved xs' m₀ m')
    (hnew : ∀ m₀ ∈ s.observations, m₀.id ≠ m.id → ∃ m' ∈ s'.observations, Moved xs' m₀ m')
    (hidle : ∀ m' ∈ s'.observations, m'.id ≠ m.id → m'.Live → ∀ p ∈ m'.evidence.parentSourceRecordIds,
      m'.parent p = m.record → Idle xs' m')
    (hsources : ∀ p ∈ m.evidence.parentSourceRecordIds, ∀ y ∈ s.observations, y.record = m.parent p →
      y.id ≠ m.id ∧ (y.isObservationMemoryProcessed = true → ∃ source ∈ x.sources, source.Current y)) :
    Flow s' xs' (Function.update extractedFrom m.id (some x)) := by
  have hprocessed : ∀ y' ∈ s'.observations, y' ≠ root → y'.isObservationMemoryProcessed = true →
      ∃ y ∈ s.observations, y'.id = y.id ∧ y'.id ≠ m.id ∧ y'.record = y.record ∧ Still y y' := by
    intro y' hy' hne hp
    obtain ⟨hid, y, hy, hmoved⟩ := (hold y' hy').resolve_left hne
    refine ⟨y, hy, hmoved.id, hid, hmoved.record, hmoved.cases.resolve_right fun hi => ?_⟩
    rw [hi.unprocessed] at hp
    cases hp
  -- what was known of a parent other than the settled row is known of what became of it
  have hknown : ∀ x' ∈ xs', ∀ y ∈ s.observations, y.id ≠ m.id → ∀ k : EvidenceKey, y.record = k →
      (y.isObservationMemoryProcessed = true → ∃ source ∈ x'.sources, source.id = y.id) →
      ∃ y' ∈ s'.observations, y'.record = k ∧ y'.id = y.id ∧
        (y'.isObservationMemoryProcessed = true → ∃ source ∈ x'.sources, source.id = y'.id) := by
    intro x' _ y hy hne k hk hread
    obtain ⟨y', hy', hmoved⟩ := hnew y hy hne
    refine ⟨y', hy', hmoved.record.trans hk, hmoved.id, fun hp => ?_⟩
    rw [hmoved.id]
    rcases hmoved.cases with hs | hi
    · exact hread (hs.processed hp).1
    · rw [hi.unprocessed] at hp
      cases hp
  refine ⟨htidy, hids, fun x' hx' m' hm' hlive' hid hgen => ?_, fun m' hm' hp => ?_⟩
  · intro p hp
    rcases hold m' hm' with rfl | ⟨hne, m₀, hm₀, hmoved⟩
    · rw [horigin.parents] at hp
      obtain ⟨y, hy, hrecord, hyne, hread⟩ := h.underWay x' (hxs x' hx') m hm hlive
        (horigin.id ▸ hid) (hgeneration ▸ hgen) p hp
      obtain ⟨y', hy', hk, hyid, hread'⟩ := hknown x' hx' y hy hyne _ hrecord hread
      exact ⟨y', hy', hk.trans horigin.parent.symm, by rw [hyid, horigin.id]; exact hyne, hread'⟩
    · have hs := hmoved.cases.resolve_right fun hi => hi.generation x' hx' hgen
      have hp₀ := hs.parents ▸ hp
      obtain ⟨y, hy, hrecord, hyne, hread⟩ := h.underWay x' (hxs x' hx') m₀ hm₀ (hs.live hlive')
        (hmoved.id ▸ hid) (hs.generation ▸ hgen) p hp₀
      by_cases hym : y.id = m.id
      · rw [h.tidy.eq_of_id hy hm hym] at hrecord
        have hi := hidle m' hm' hne hlive' p hp ((hs.parent p hp₀).trans hrecord.symm)
        exact absurd hgen (hi.generation x' hx')
      obtain ⟨y', hy', hk, hyid, hread'⟩ := hknown x' hx' y hy hym _ hrecord hread
      exact ⟨y', hy', hk.trans (hs.parent p hp₀).symm, by rw [hyid, hmoved.id]; exact hyne, hread'⟩
  · have hcurrent : ∀ {xe : Extraction} {y y' : MemoryRow}, Still y y' → y'.id = y.id →
        y'.isObservationMemoryProcessed = true → (∃ source ∈ xe.sources, source.Current y) →
          ∃ source ∈ xe.sources, source.Current y' := by
      rintro xe y y' hs hyid hyp ⟨source, hsource, hc⟩
      exact ⟨source, hsource, hc.id.trans hyid.symm, hc.contentHash.trans (hs.processed hyp).2.symm,
        hc.generation.trans hs.generation.symm⟩
    by_cases hroot : m' = root
    · rw [hroot, horigin.id, update_self]
      refine ⟨x, rfl, hgeneration.trans hjob, fun p hpp y' hy' hrecord hyp => ?_⟩
      rw [horigin.parents] at hpp
      rw [horigin.parent] at hrecord
      have hne : y' ≠ root := fun he => by
        refine (hsources p hpp m hm ?_).1 rfl
        rw [← hrecord, he, horigin.record]
      obtain ⟨y, hy, hyid, -, hyrecord, hs⟩ := hprocessed y' hy' hne hyp
      exact hcurrent hs hyid hyp
        ((hsources p hpp y hy (hyrecord.symm.trans hrecord)).2 (hs.processed hyp).1)
    · obtain ⟨m₀, hm₀, hmid, hne, -, hs⟩ := hprocessed m' hm' hroot hp
      rw [update_of_ne hne, hmid]
      obtain ⟨xe, hxe, hgen, hread⟩ := h.fresh m₀ hm₀ (hs.processed hp).1
      refine ⟨xe, hxe, hs.generation.trans hgen, fun p hpp y' hy' hrecord hyp => ?_⟩
      have hy'root : y' ≠ root := fun he => by
        have hi := hidle m' hm' hne (processed_live hp) p hpp
          (by rw [← hrecord, he, horigin.record])
        rw [hi.unprocessed] at hp
        cases hp
      have hp₀ := hs.parents ▸ hpp
      obtain ⟨y, hy, hyid, -, hyrecord, hys⟩ := hprocessed y' hy' hy'root hyp
      exact hcurrent hys hyid hyp (hread p hp₀ y hy
        (hyrecord.symm.trans (hrecord.trans (hs.parent p hp₀))) (hys.processed hyp).1)

/-! ### Tables that move -/

theorem Idle.of_still (h : Idle xs m) (hs : Still m m') : Idle xs m' where
  unprocessed := Bool.eq_false_iff.mpr fun hp => by
    have := (hs.processed hp).1
    rw [h.unprocessed] at this
    cases this
  generation := fun x hx => hs.generation ▸ h.generation x hx

variable {job : ExtractJob} {skills : List SkillCandidate} {m'' : MemoryRow}

theorem Still.trans (h : Still m m') (h' : Still m' m'') : Still m m'' where
  parents := h'.parents.trans h.parents
  parent := fun p hp => (h'.parent p (h.parents ▸ hp)).trans (h.parent p hp)
  live := fun hl => h.live (h'.live hl)
  generation := h'.generation.trans h.generation
  processed := fun hp =>
    ⟨(h.processed (h'.processed hp).1).1, (h'.processed hp).2.trans (h.processed (h'.processed hp).1).2⟩

theorem Moved.trans (h : Moved xs m m') (h' : Moved xs m' m'') : Moved xs m m'' where
  id := h'.id.trans h.id
  record := h'.record.trans h.record
  cases := h'.cases.elim (fun hs => h.cases.imp (fun h => h.trans hs) fun h => h.of_still hs) Or.inr

/-- Every row moves, and a new row is idle. -/
structure TableMoved (xs : List Extraction) (rows rows' : List MemoryRow) : Prop where
  back : ∀ m' ∈ rows', (∃ m ∈ rows, Moved xs m m') ∨ Idle xs m'
  forth : ∀ m ∈ rows, ∃ m' ∈ rows', Moved xs m m'

theorem tableMoved_of_changed (h : Changed (Moved xs) rows rows') : TableMoved xs rows rows' where
  back := fun m' hm' => Or.inl (h.exists_old m' hm')
  forth := h.exists_new

theorem TableMoved.trans {rows'' : List MemoryRow} (h : TableMoved xs rows rows')
    (h' : TableMoved xs rows' rows'') : TableMoved xs rows rows'' where
  back := fun m'' hm'' => by
    rcases h'.back m'' hm'' with ⟨m', hm', hmoved'⟩ | hidle
    swap
    · exact Or.inr hidle
    rcases h.back m' hm' with ⟨m, hm, hmoved⟩ | hidle
    · exact Or.inl ⟨m, hm, hmoved.trans hmoved'⟩
    · exact Or.inr (hmoved'.cases.elim hidle.of_still id)
  forth := fun m hm => by
    obtain ⟨m', hm', hmoved⟩ := h.forth m hm
    obtain ⟨m'', hm'', hmoved'⟩ := h'.forth m' hm'
    exact ⟨m'', hm'', hmoved.trans hmoved'⟩

theorem moved_withdrawAll (ids : List ℕ) : Changed (Moved xs) rows (withdrawAll ids now rows) :=
  changed_map fun m _ => by
    split_ifs
    · exact moved_withdrawn m
    · exact .refl m

theorem moved_scheduleAll (helapsed : Elapsed xs now) (l : List MemoryRow) :
    Changed (Moved xs) rows (scheduleAll l reason now rows) :=
  changed_map fun m _ => by
    split_ifs
    · exact moved_scheduled helapsed m
    · exact .refl m

theorem tableMoved_written {x : MemoryRow} (helapsed : Elapsed xs now)
    (hmem : ∀ y ∈ rows', y = x ∨ y ∈ rows) (hnew : x ∈ rows')
    (hother : ∀ y ∈ rows, y.id ≠ x.id → y ∈ rows') (hrecord : ∀ y ∈ rows, y.id = x.id → y.record = x.record) :
    TableMoved xs rows (put (x.scheduled reason now) rows') where
  back := fun y hy => by
    obtain ⟨y₀, hy₀, ⟨-, rfl⟩ | ⟨hne, rfl⟩⟩ := mem_update hy
    · exact Or.inr (idle_scheduled helapsed x)
    · refine Or.inl ⟨y, (hmem y hy₀).resolve_left fun he => ?_, .refl y⟩
      simp [he, scheduled] at hne
  forth := fun y hy => by
    by_cases hid : y.id = x.id
    · exact ⟨x.scheduled reason now, mem_map.mpr ⟨x, hnew, if_pos (by simp [scheduled])⟩,
        hid.symm, (SameOrigin.scheduled x).record.trans (hrecord y hy hid).symm,
        Or.inr (idle_scheduled helapsed x)⟩
    · exact ⟨y, mem_map.mpr ⟨y, hother y hy hid, if_neg (by simpa [scheduled] using hid)⟩, .refl y⟩

theorem flow_tableMoved (h : Flow s xs extractedFrom)
    (htidy : Tidy s'.observations) (hids : ∀ m ∈ s'.observations, m.id < s'.nextId)
    (hxs : ∀ x ∈ xs', x ∈ xs) (hrows : TableMoved xs' s.observations s'.observations) :
    Flow s' xs' extractedFrom :=
  flow_moved h htidy hids hxs hrows.back hrows.forth

theorem flow_changed (h : Flow s xs extractedFrom)
    (horigin : Changed SameOrigin s.observations s'.observations)
    (hrows : Changed (Moved xs') s.observations s'.observations) (hnext : s.nextId ≤ s'.nextId)
    (hxs : ∀ x ∈ xs', x ∈ xs) : Flow s' xs' extractedFrom := by
  refine flow_tableMoved h (h.tidy.of_sameOrigin horigin) (fun m' hm' => ?_) hxs
    (tableMoved_of_changed hrows)
  obtain ⟨m, hm, ho⟩ := horigin.exists_old m' hm'
  exact ho.id ▸ lt_of_lt_of_le (h.ids m hm) hnext

theorem flow_sameObservations (h : Flow s xs extractedFrom)
    (hrows : s'.observations = s.observations) (hnext : s.nextId ≤ s'.nextId) (hxs : ∀ x ∈ xs', x ∈ xs) :
    Flow s' xs' extractedFrom :=
  flow_changed h (hrows ▸ Changed.refl fun m _ => .refl m) (hrows ▸ Changed.refl fun m _ => .refl m) hnext
    hxs

/-! ### Calls -/

theorem retract_observations (s : Store) (root : MemoryRow) : ∃ ids, root.id ∈ ids ∧
    (retractDependentExternalEvidence (withdrawOne now s root) root source recordId now).observations =
      withdrawAll ids now s.observations ∧
    s.nextId ≤ (retractDependentExternalEvidence (withdrawOne now s root) root source recordId now).nextId := by
  have hrest : ∃ l, l = dependents (withdrawOne now s root).observations root source recordId := ⟨_, rfl⟩
  obtain ⟨l, hl⟩ := hrest
  unfold retractDependentExternalEvidence
  rw [← hl]
  exact ⟨_, mem_cons_self, withdrawAll_observations now (root :: l) s, le_withdrawAll_nextId (root :: l) s⟩

theorem flow_retract (h : Flow s xs extractedFrom) (root : MemoryRow) :
    Flow (retractDependentExternalEvidence (withdrawOne now s root) root source recordId now) xs
      extractedFrom := by
  obtain ⟨ids, -, hobs, hnext⟩ := @retract_observations source recordId now s root
  exact flow_changed h (hobs ▸ changed_withdrawAll ids) (hobs ▸ moved_withdrawAll ids) hnext fun _ hx => hx

/-- The tombstone of a record that had no row. -/
theorem flow_buried {key : EvidenceKey} (h : Flow s xs extractedFrom) (hr : Admissible s.observations r)
    (hkey : key = r.key) (hnone : ∀ y ∈ s.observations, y.record ≠ canonical r.key) :
    Flow (withdraw s key none r now).1 xs extractedFrom := by
  have htidy : Tidy (s.observations ++ [placeholder s.nextId key r now]) :=
    tidy_placeholder h.tidy hr hkey (fun y hy => (h.ids y hy).ne) hnone
  have hplaced : Flow (s.insert (placeholder s.nextId key r now)) xs extractedFrom := by
    refine flow_tableMoved h htidy (fun y hy => ?_) (fun _ hx => hx)
      ⟨fun y hy => ?_, fun y hy => ⟨y, mem_append_left _ hy, .refl y⟩⟩
    · rcases mem_append.mp hy with hy | hy
      · exact (h.ids y hy).trans (Nat.lt_succ_self _)
      · rw [mem_singleton.mp hy]
        exact Nat.lt_succ_self _
    · rcases mem_append.mp hy with hy | hy
      · exact Or.inl ⟨y, hy, .refl y⟩
      · rw [mem_singleton.mp hy]
        exact Or.inr ⟨rfl, fun _ _ => nofun⟩
  exact flow_retract hplaced _

/-- The rows after an upload was saved over the rows `s`. -/
theorem save_observations (hids : (s.observations.map (·.id)).Nodup) (hlive : m.Live) :
    (invalidateDependentExternalEvidence (schedule "evidence.sync" now { s with skills := skills } m) root
      source recordId now).observations =
      scheduleAll (dependents (put (m.scheduled "evidence.sync" now) s.observations) root source recordId)
        "evidence.parent_updated" now (put (m.scheduled "evidence.sync" now) s.observations) ∧
    s.nextId ≤ (invalidateDependentExternalEvidence (schedule "evidence.sync" now
      { s with skills := skills } m) root source recordId now).nextId := by
  have hobs : (schedule "evidence.sync" now { s with skills := skills } m).observations =
      put (m.scheduled "evidence.sync" now) s.observations := schedule_observations hlive
  have hnext : s.nextId ≤ (schedule "evidence.sync" now { s with skills := skills } m).nextId :=
    le_schedule_nextId (s := { s with skills := skills })
  generalize schedule "evidence.sync" now { s with skills := skills } m = s' at hobs hnext ⊢
  have hids' : (s'.observations.map (·.id)).Nodup := by
    rw [hobs, map_put fun y _ hid => hid]
    exact hids
  rw [invalidate_observations hids', hobs]
  exact ⟨rfl, hnext.trans (le_invalidate_nextId s')⟩

theorem sameOrigin_put_scheduled (h : Tidy rows) (hm : m ∈ rows) :
    Changed SameOrigin rows (put (m.scheduled reason now) rows) :=
  changed_update (fun y hy hid => by
    rw [h.eq_of_id hy hm (by simpa [scheduled] using hid)]
    exact .scheduled m) fun y _ _ => .refl y

/-- **An upload is saved.** -/
theorem flow_saved (h : Flow s xs extractedFrom) (helapsed : Elapsed xs now)
    (htidy : Tidy s'.observations) (hids : ∀ m ∈ s'.observations, m.id < s'.nextId) (hlive : m.Live)
    (hmem : ∀ y ∈ s'.observations, y = m ∨ y ∈ s.observations) (hm : m ∈ s'.observations)
    (hother : ∀ y ∈ s.observations, y.id ≠ m.id → y ∈ s'.observations)
    (hrecord : ∀ y ∈ s.observations, y.id = m.id → y.record = m.record) :
    Flow (invalidateDependentExternalEvidence (schedule "evidence.sync" now { s' with skills := skills } m)
      root source recordId now) xs extractedFrom := by
  obtain ⟨hobs, hnext⟩ := @save_observations s' m root source recordId now skills htidy.ids hlive
  generalize invalidateDependentExternalEvidence (schedule "evidence.sync" now
    { s' with skills := skills } m) root source recordId now = t at hobs hnext ⊢
  have horigin : Changed SameOrigin s'.observations t.observations := by
    rw [hobs]
    exact Changed.trans (R := SameOrigin) (fun _ _ _ hab hbc => hab.trans hbc)
      (sameOrigin_put_scheduled htidy hm) (changed_scheduleAll _)
  refine flow_tableMoved h (htidy.of_sameOrigin horigin) (fun y' hy' => ?_) (fun _ hx => hx) ?_
  · obtain ⟨y, hy, ho⟩ := horigin.exists_old y' hy'
    exact ho.id ▸ lt_of_lt_of_le (hids y hy) hnext
  · rw [hobs]
    exact (tableMoved_written helapsed hmem hm hother hrecord).trans
      (tableMoved_of_changed (moved_scheduleAll helapsed _))

theorem parent_revised (hrecord : m.record = canonical r.key)
    (hnamed : m.evidence.source ≠ r.source → ∀ p ∈ m.evidence.parentSourceRecordIds,
      isHistoryRecordId p = true) (hp : p ∈ m.evidence.parentSourceRecordIds) :
    (m.revised r u now).parent p = m.parent p := by
  have hsame : recordOf m.evidence.owner m.evidence.source m.evidence.sourceRecordId =
      recordOf r.owner r.source r.sourceRecordId := hrecord
  obtain ⟨hscope, -, hsource⟩ := recordOf_eq hsame
  change recordOf r.owner r.source p = recordOf m.evidence.owner m.evidence.source p
  rw [recordOf_congr hscope]
  by_cases hs : m.evidence.source = r.source
  · rw [hs]
  · obtain ⟨halias, halias'⟩ := hsource.resolve_left hs
    exact recordOf_alias ⟨halias'.1, halias'.2.1, hnamed hs p hp⟩ halias.2.1

theorem flow_revised (h : Flow s xs extractedFrom) (hm : m ∈ s.observations)
    (hfind : (lookupExternalEvidence s.observations r.owner r.source r.sourceRecordId).2 = some m)
    (hsame : m.sameUpload u = true) (hw : Writable s.observations r u (m.revised r u now))
    (hnamed : NamedAlike s.observations r) :
    Flow { s with observations := put (m.revised r u now) s.observations } xs extractedFrom := by
  obtain ⟨-, hrecord⟩ := h.tidy.lookup_eq_some hfind
  have hid : m.evidence.sourceRecordId = r.sourceRecordId := (recordOf_eq hrecord).2.1
  have hwritten : Written r u (m.revised r u now) := written_revised hid hsame
  have hparents : m.evidence.parentSourceRecordIds = u.parents := hwritten.stored.parents
  have hmoved : Moved xs m (m.revised r u now) := by
    refine ⟨rfl, (congrArg canonical hwritten.sourceKey).trans hrecord.symm, Or.inl ⟨rfl, fun p hp => ?_,
      id, rfl, fun hp => ⟨hp, rfl⟩⟩⟩
    exact parent_revised hrecord (fun hs => hparents ▸ hnamed m u hfind hw.action hsame hs) hp
  have hrows : Changed (Moved xs) s.observations (put (m.revised r u now) s.observations) :=
    changed_update (fun y hy hyid => by
      rw [h.tidy.eq_of_id hy hm (of_decide_eq_true hyid)]
      exact hmoved) fun y _ _ => .refl y
  refine flow_tableMoved h (tidy_put h.tidy hw hwritten) (fun y' hy' => ?_) (fun _ hx => hx)
    (tableMoved_of_changed hrows)
  obtain ⟨y, hy, hmoved⟩ := hrows.exists_old y' hy'
  exact hmoved.id ▸ h.ids y hy

theorem flow_sync (h : Flow s xs extractedFrom) (hr : Admissible s.observations r)
    (hnamed : NamedAlike s.observations r) (helapsed : Elapsed xs now) :
    Flow (syncExternalEvidence s r now).1 xs extractedFrom := by
  have hcase : Synced s r now (syncExternalEvidence s r now).1 := synced h.tidy h.ids hr
  generalize (syncExternalEvidence s r now).1 = s' at hcase ⊢
  cases hcase with
  | duplicate _ _ _ => exact h
  | buried hkey hnone => exact flow_buried h hr hkey hnone
  | withdrawn hm hlive hrecord => exact flow_retract h _
  | @inserted key u hw hnone =>
    have hfresh : ∀ y ∈ s.observations, y.id ≠ s.nextId := fun y hy => (h.ids y hy).ne
    have hx := written_uploadedRow s key none r u
    have hmem : ∀ y ∈ s.observations ++ [uploadedRow s key none r u],
        y = uploadedRow s key none r u ∨ y ∈ s.observations := fun y hy =>
      (mem_append.mp hy).symm.imp mem_singleton.mp id
    refine @flow_saved s (s.insert (uploadedRow s key none r u)) _ _ _ _ _ _ _ _ h helapsed
      (tidy_insert h.tidy hw hx hfresh hnone) (fun y hy => ?_) hw.live hmem
      (mem_append_right _ mem_cons_self) (fun y hy _ => mem_append_left _ hy)
      fun y hy hid => absurd hid (hfresh y hy)
    rcases hmem y hy with rfl | hy
    · exact Nat.lt_succ_self _
    · exact (h.ids y hy).trans (Nat.lt_succ_self _)
  | @saved key m u hm hw =>
    have hx := written_uploadedRow s key (some m) r u
    have hmem : ∀ y ∈ put (uploadedRow s key (some m) r u) s.observations,
        y = uploadedRow s key (some m) r u ∨ y ∈ s.observations := fun y hy => by
      obtain ⟨y₀, hy₀, ⟨-, rfl⟩ | ⟨-, rfl⟩⟩ := mem_update hy
      · exact Or.inl rfl
      · exact Or.inr hy₀
    refine @flow_saved s { s with observations := put (uploadedRow s key (some m) r u) s.observations }
      _ _ _ _ _ _ _ _ h helapsed (tidy_put h.tidy hw hx) (fun y hy => ?_) hw.live hmem
      (mem_map.mpr ⟨m, hm, if_pos (by simp [uploadedRow])⟩)
      (fun y hy hne => mem_map.mpr ⟨y, hy, if_neg (by simpa using hne)⟩)
      fun y hy hid => (hw.old y hy hid).2.1.trans (congrArg canonical hx.sourceKey).symm
    rcases hmem y hy with rfl | hy
    · exact h.ids m hm
    · exact h.ids y hy
  | revised hm hfind hsame hw => exact flow_revised h hm hfind hsame hw hnamed

/-! ### Extractions -/

/-- What an extraction reads of the parents. -/
theorem parentSources_ok : ∀ {ps : List String} {ids : List ℕ} {sources : List Source},
    parentSources rows m ps = .ok (ids, sources) → ∀ p ∈ ps, ∃ y,
      (lookupExternalEvidence rows m.evidence.owner m.evidence.source p).2 = some y ∧
        y.isSettled = true ∧ (y.isObservationMemoryProcessed = true → y.asSource ∈ sources)
  | [], _, _, _, p, hp => absurd hp not_mem_nil
  | p :: ps, ids, sources, hread, q, hq => by
    unfold parentSources at hread
    cases hfind : (lookupExternalEvidence rows m.evidence.owner m.evidence.source p).2 with
    | none =>
      rw [hfind] at hread
      cases hread
    | some y =>
      rw [hfind] at hread
      simp only at hread
      by_cases hdeleted : y.status = .deleted
      · rw [if_pos hdeleted] at hread
        cases hread
      rw [if_neg hdeleted] at hread
      by_cases hskipped : y.isSkipped = true
      · rw [if_pos hskipped] at hread
        cases hrest : parentSources rows m ps with
        | error e =>
          rw [hrest] at hread
          cases hread
        | ok rest =>
          rw [hrest] at hread
          cases hread
          rcases mem_cons.mp hq with rfl | hq
          · refine ⟨y, hfind, settled_of_skipped hskipped, fun hp => ?_⟩
            rw [unprocessed_of_skipped hskipped] at hp
            cases hp
          · exact parentSources_ok hrest q hq
      · rw [if_neg hskipped] at hread
        by_cases hp : y.isObservationMemoryProcessed = true
        · rw [hp] at hread
          cases hrest : parentSources rows m ps with
          | error e =>
            rw [hrest] at hread
            cases hread
          | ok rest =>
            rw [hrest] at hread
            cases hread
            rcases mem_cons.mp hq with rfl | hq
            · exact ⟨y, hfind, settled_of_processed hp, fun _ => mem_cons_self⟩
            · obtain ⟨z, hz, hsettled, hin⟩ := parentSources_ok hrest q hq
              exact ⟨z, hz, hsettled, fun hzp => mem_cons_of_mem _ (hin hzp)⟩
        · rw [Bool.eq_false_iff.mpr hp] at hread
          cases hread

theorem matchesJob_iff : matchesJob s job m = true ↔
    m.status = .activated ∧ (∃ o, m.observation = some o ∧ o.status = .pending ∧
      job.generation = o.generation) ∧ job.contentHash = m.memoryValue ∧
      (s.processing m.id).any (·.activeJobId = some job.id) = true := by
  unfold matchesJob
  simp only [Bool.and_eq_true, decide_eq_true_eq, Option.any_eq_true, and_assoc]

theorem generation_of_matches (h : matchesJob s job m = true) :
    m.generation? = some job.generation ∧ m.isSettled = false := by
  obtain ⟨-, ⟨o, ho, hpending, hgeneration⟩, -⟩ := matchesJob_iff.mp h
  unfold generation? isSettled
  rw [ho, map_some, hgeneration]
  exact ⟨rfl, by simp [hpending]⟩

theorem beginExtraction_some {jobId : ℕ} (h : (beginExtraction s jobId).2 = some x) :
    ∃ m ∈ s.observations, m.Live ∧ m.id = x.memoryId ∧ m.generation? = some x.job.generation ∧
      m.isSettled = false ∧ parentSources s.observations m m.evidence.parentSourceRecordIds =
        .ok (x.parentIds, x.sources) := by
  unfold beginExtraction at h
  cases hfind : s.jobs.find? fun j => j.id = jobId && j.active with
  | none =>
    rw [hfind] at h
    cases h
  | some job =>
    rw [hfind] at h
    simp only at h
    have hrows : (markProcessingJobLeased s job).observations = s.observations :=
      SameRows.markProcessingJobLeased.observations
    generalize markProcessingJobLeased s job = t at hrows h
    cases hget : t.get job.targetMemoryId with
    | none =>
      rw [hget] at h
      cases h
    | some m =>
      rw [hget] at h
      simp only at h
      cases hmatch : matchesJob t job m with
      | false =>
        rw [hmatch] at h
        cases h
      | true =>
        rw [hmatch, hrows] at h
        obtain ⟨hm, -, hlive⟩ := Store.get_eq_some hget
        obtain ⟨hgeneration, hpending⟩ := generation_of_matches hmatch
        cases hread : parentSources s.observations m m.evidence.parentSourceRecordIds with
        | error stop =>
          rw [hread] at h
          cases stop <;> cases h
        | ok found =>
          rw [hread] at h
          cases h
          exact ⟨m, hrows ▸ hm, hlive, rfl, hgeneration, hpending, hread⟩

theorem flow_beginExtraction (h : Flow s xs extractedFrom) (jobId : ℕ) :
    Flow (beginExtraction s jobId).1 (xs ++ (beginExtraction s jobId).2.toList) extractedFrom := by
  have hsame : SameRows s (beginExtraction s jobId).1 := .beginExtraction jobId
  have hbegun := fun x => @beginExtraction_some s x jobId
  generalize beginExtraction s jobId = begun at hsame hbegun ⊢
  obtain ⟨t, started⟩ := begun
  have hquiet : Flow t xs extractedFrom :=
    flow_sameObservations h hsame.observations hsame.nextId fun _ hx => hx
  refine { hquiet with underWay := fun x hx m hm hlive hid hgeneration => ?_ }
  rcases mem_append.mp hx with hx | hx
  · exact hquiet.underWay x hx m hm hlive hid hgeneration
  obtain ⟨m₀, hm₀, -, hid₀, -, hpending, hread⟩ := hbegun x (mem_toList.mp hx)
  have hsameRow : m = m₀ := h.tidy.eq_of_id (hsame.observations ▸ hm) hm₀ (hid.trans hid₀.symm)
  subst hsameRow
  intro p hp
  obtain ⟨y, hfind, hsettled, hin⟩ := parentSources_ok hread p hp
  obtain ⟨hy, hrecord⟩ := h.tidy.lookup_eq_some hfind
  refine ⟨y, hsame.observations ▸ hy, hrecord, fun he => ?_, fun hyp => ⟨_, hin hyp, rfl⟩⟩
  rw [h.tidy.eq_of_id hy hm₀ he, hpending] at hsettled
  cases hsettled

theorem asSource_of_unchanged (h : Tidy s.observations) {source : Source} (hy : y ∈ s.observations)
    (hid : source.id = y.id) (hsame : parentChanged s source = false) : y.asSource = source := by
  unfold parentChanged at hsame
  cases hget : s.get source.id with
  | none =>
    rw [hget] at hsame
    cases hsame
  | some z =>
    obtain ⟨hz, hzid, -⟩ := Store.get_eq_some hget
    have he : z = y := h.eq_of_id hz hy (hzid.trans hid)
    rw [hget, he] at hsame
    simp only [Bool.or_eq_false_iff, decide_eq_false_iff_not, not_not] at hsame
    unfold asSource
    rw [← hid, hsame.1.1, hsame.1.2, hsame.2]

theorem sources_of_finishable (h : Flow s xs extractedFrom) (hx : x ∈ xs) (hfin : finishable s x = some m)
    (hp : p ∈ m.evidence.parentSourceRecordIds) (hy : y ∈ s.observations) (hrecord : y.record = m.parent p) :
    y.id ≠ m.id ∧ (y.isObservationMemoryProcessed = true → y.asSource ∈ x.sources) := by
  obtain ⟨hm, hlive, hid, hmatch, hunchanged⟩ := finishable_some hfin
  obtain ⟨z, hz, hzrecord, hne, hread⟩ := h.underWay x hx m hm hlive hid (generation_of_matches hmatch).1 p hp
  have he : z = y := h.tidy.eq_of_record hz hy (hzrecord.trans hrecord.symm)
  subst he
  refine ⟨hne, fun hzp => ?_⟩
  obtain ⟨source, hsource, hsid⟩ := hread hzp
  rw [asSource_of_unchanged h.tidy hz hsid (hunchanged source hsource)]
  exact hsource

theorem asSource_current (y : MemoryRow) : y.asSource.Current y := ⟨rfl, rfl, rfl⟩

theorem extracted_generation (m : MemoryRow) (outcome : ModelOutcome) :
    (m.extracted outcome now).generation? = m.generation? := by
  cases outcome with
  | failed terminal => rfl
  | keep title summary body => simp [extracted, generation?, comp_def]
  | skip why => simp [extracted, generation?, comp_def]

/-- **An extraction is written.** -/
theorem flow_finished (h : Flow s xs extractedFrom) (hx : x ∈ xs)
    (hxs : ∀ x ∈ xs', x ∈ xs) (helapsed : Elapsed xs' now) (hfin : finishable s x = some m)
    (outcome : ModelOutcome) (hobs : s'.observations = finishedRows m outcome now s.observations)
    (hnext : s.nextId ≤ s'.nextId) : Flow s' xs' (Function.update extractedFrom m.id (some x)) := by
  obtain ⟨hm, hlive, -, hmatch, -⟩ := finishable_some hfin
  have horigin : SameOrigin m (m.extracted outcome now) := .extracted m outcome
  have hput : Changed SameOrigin s.observations (put (m.extracted outcome now) s.observations) :=
    sameOrigin_put_extracted h.tidy hm outcome
  have htidy := h.tidy.of_sameOrigin hput
  have hroot : m.extracted outcome now ∈ put (m.extracted outcome now) s.observations :=
    mem_map.mpr ⟨m, hm, if_pos (by simp [horigin.id])⟩
  have hrows : Changed SameOrigin s.observations s'.observations := by
    rw [hobs]
    exact Changed.trans (R := SameOrigin) (fun _ _ _ hab hbc => hab.trans hbc) hput (changed_scheduleAll _)
  -- a row of the written table is the written one, or was there
  have hwritten : ∀ y ∈ put (m.extracted outcome now) s.observations,
      y = m.extracted outcome now ∨ y.id ≠ m.id ∧ y ∈ s.observations := fun y hy => by
    obtain ⟨y₀, hy₀, ⟨-, rfl⟩ | ⟨hne, rfl⟩⟩ := mem_update hy
    · exact Or.inl rfl
    · exact Or.inr ⟨fun hid => of_decide_eq_false hne (hid.trans horigin.id.symm), hy₀⟩
  refine flow_settled h (h.tidy.of_sameOrigin hrows) (fun y' hy' => ?_) hxs hm horigin hlive
    (extracted_generation m outcome) (generation_of_matches hmatch).1 (fun y' hy' => ?_)
    (fun y hy hne => ?_) (fun y' hy' hne hylive p hp hparent => ?_)
    fun p hp y hy hrecord => ?_
  · obtain ⟨y, hy, ho⟩ := hrows.exists_old y' hy'
    exact ho.id ▸ lt_of_lt_of_le (h.ids y hy) hnext
  · rw [hobs] at hy'
    obtain ⟨y, hy, ⟨hin, rfl⟩ | ⟨-, rfl⟩⟩ := mem_scheduleAll hy'
    · have hne : y.id ≠ m.id := horigin.id ▸ (mem_of_mem_dependents hin).2.2
      refine Or.inr ⟨hne, y, ?_, moved_scheduled helapsed y⟩
      exact ((hwritten y hy).resolve_left fun he => hne (he ▸ horigin.id)).2
    · exact (hwritten y' hy).imp id fun hold => ⟨hold.1, y', hold.2, .refl y'⟩
  · have hkept : y ∈ put (m.extracted outcome now) s.observations :=
      mem_map.mpr ⟨y, hy, if_neg (by simpa [horigin.id] using hne)⟩
    rw [hobs]
    refine ⟨_, mem_map_of_mem hkept, ?_⟩
    split_ifs
    · exact moved_scheduled helapsed y
    · exact .refl y
  · rw [hobs] at hy'
    obtain ⟨y, hy, ⟨-, rfl⟩ | ⟨hout, rfl⟩⟩ := mem_scheduleAll hy'
    · exact idle_scheduled helapsed y
    · refine absurd (dependents_closed htidy hroot hy hylive (horigin.id.symm ▸ hne) hp (Or.inl ?_)) hout
      rw [hparent, ← horigin.record]
      rfl
  · obtain ⟨hne, hread⟩ := sources_of_finishable h hx hfin hp hy hrecord
    exact ⟨hne, fun hyp => ⟨_, hread hyp, asSource_current y⟩⟩

theorem flow_finishExtraction (h : Flow s xs extractedFrom) (hx : x ∈ xs)
    (hxs : ∀ x ∈ xs', x ∈ xs) (helapsed : Elapsed xs' now) (outcome : ModelOutcome) (activated : List ℕ) :
    Flow (finishExtraction s x outcome activated now) xs' (match outcome, finishable s x with
      | .failed _, _ => extractedFrom
      | _, some m => Function.update extractedFrom m.id (some x)
      | _, none => extractedFrom) := by
  rcases finishExtraction_spec h.tidy x outcome activated with
    ⟨hsame, hcase⟩ | ⟨m, hfin, hanswer, hobs, -, hnext⟩
  · have hquiet := flow_sameObservations h hsame.observations hsame.nextId hxs
    rcases hcase with ⟨terminal, rfl⟩ | hnone
    · exact hquiet
    · rw [hnone]
      cases outcome <;> exact hquiet
  · have hfinished := flow_finished h hx hxs helapsed hfin outcome hobs hnext
    rw [hfin]
    cases outcome with
    | failed terminal => exact absurd rfl (hanswer terminal)
    | keep title summary body => exact hfinished
    | skip why => exact hfinished

theorem flow_backfill (h : Flow s xs extractedFrom) (helapsed : Elapsed xs now) (limit : ℕ) :
    Flow (backfill s limit now) xs extractedFrom := by
  obtain ⟨hobs, hnext⟩ := backfill_observations h.tidy limit
  exact flow_changed h (hobs ▸ changed_scheduleAll _) (hobs ▸ moved_scheduleAll helapsed _) hnext
    fun _ hx => hx

/-! ### Dependants -/

theorem unchanged_refl (y : MemoryRow) : Unchanged y y := ⟨rfl, id⟩

theorem unchanged_scheduled (y : MemoryRow) : Unchanged y (y.scheduled reason now) := by
  refine ⟨?_, fun h => by simp [isSettled, scheduled] at h⟩
  unfold upload scheduled
  simp only [ite_self]

/-- A step in which no row changes. -/
theorem rescheduled_of_unchanged (h : ∀ y' ∈ (act w e).store.observations, y'.Live →
    ∃ y ∈ w.store.observations, y.id = y'.id ∧ Unchanged y y') : Rescheduled w e := by
  intro y' hy' hlive hchanged
  obtain ⟨y, hy, hid, hsame⟩ := h y' hy' hlive
  exact absurd hsame (hchanged y hy hid)

theorem rescheduled_of_sameObservations
    (h : (act w e).store.observations = w.store.observations) : Rescheduled w e :=
  rescheduled_of_unchanged fun y' hy' _ => ⟨y', h ▸ hy', rfl, unchanged_refl y'⟩

theorem rescheduled_of_withdrawn {ids : List ℕ}
    (hobs : (act w e).store.observations = withdrawAll ids now rows)
    (hrows : ∀ y ∈ rows, y ∈ w.store.observations ∨ y.id ∈ ids) : Rescheduled w e := by
  refine rescheduled_of_unchanged fun y' hy' hlive => ?_
  rw [hobs] at hy'
  obtain ⟨y, hy, -, hsame, -⟩ := mem_withdrawAll hy'
  obtain ⟨rfl, hout⟩ := hsame hlive
  exact ⟨y', (hrows y' hy).resolve_right hout, rfl, unchanged_refl y'⟩

/-- **The walk reaches what a chain of parents leads from.** -/
theorem reached (h : Tidy rows) (hroot : root ∈ rows)
    (hrecord : root.record = recordOf root.evidence.owner source recordId)
    (hrows : rows' = scheduleAll (dependents rows root source recordId) reason now rows)
    (hpath : TransGen (fun m y => m.Live ∧ Reads rows' m y) m y) (hid : y.id = root.id) (hm : m ∈ rows')
    (hne : m.id ≠ root.id) : ∃ m₀ ∈ dependents rows root source recordId, m = m₀.scheduled reason now := by
  have htidy : Tidy rows' := h.of_sameOrigin (hrows ▸ changed_scheduleAll _)
  -- a row one of whose parents is the root, or was visited
  have hvisited : ∀ m ∈ rows', m.Live → m.id ≠ root.id → ∀ p ∈ m.evidence.parentSourceRecordIds,
      (m.parent p = recordOf root.evidence.owner source recordId ∨
        ∃ x ∈ dependents rows root source recordId, m.parent p = x.record) →
      ∃ m₀ ∈ dependents rows root source recordId, m = m₀.scheduled reason now := by
    intro m hm hlive hne p hp hparent
    rw [hrows] at hm
    obtain ⟨m₀, hm₀, ⟨hin, he⟩ | ⟨hout, rfl⟩⟩ := mem_scheduleAll hm
    · exact ⟨m₀, hin, he⟩
    · exact absurd (dependents_closed h hroot hm₀ hlive hne hp hparent) hout
  have hfirst : ∀ m ∈ rows', m.Live → m.id ≠ root.id → ∀ z, Reads rows' m z → z.id = root.id →
      ∃ m₀ ∈ dependents rows root source recordId, m = m₀.scheduled reason now := by
    intro m hm hlive hne z hread hzid
    obtain ⟨hz, p, hp, hzrecord⟩ := reads_record htidy hread
    rw [hrows] at hz
    obtain ⟨z₀, hz₀, hcase⟩ := mem_scheduleAll hz
    have horigin : SameOrigin z₀ z := by
      rcases hcase with ⟨-, rfl⟩ | ⟨-, rfl⟩
      · exact .scheduled z₀
      · exact .refl z
    have he : z₀ = root := h.eq_of_id hz₀ hroot (horigin.id.symm.trans hzid)
    exact hvisited m hm hlive hne p hp (Or.inl (hzrecord.symm.trans (horigin.record.trans (he ▸ hrecord))))
  induction hpath using TransGen.head_induction_on with
  | single hstep => exact hfirst _ hm hstep.1 hne _ hstep.2 hid
  | @head m z hstep _ ih =>
    by_cases hz : z.id = root.id
    · exact hfirst m hm hstep.1 hne z hstep.2 hz
    obtain ⟨hzmem, p, hp, hzrecord⟩ := reads_record htidy hstep.2
    obtain ⟨z₀, hz₀, rfl⟩ := ih hzmem hz
    exact hvisited m hm hstep.1 hne p hp
      (Or.inr ⟨z₀, hz₀, hzrecord.symm.trans (SameOrigin.scheduled z₀).record⟩)

theorem rescheduled_of_root (hobs : (act w e).store.observations =
      scheduleAll (dependents rows root source recordId) reason now rows)
    (htidy : Tidy rows) (hroot : root ∈ rows)
    (hrecord : root.record = recordOf root.evidence.owner source recordId)
    (hother : ∀ y ∈ rows, y.id ≠ root.id → y ∈ w.store.observations) (htime : e.time = some now) :
    Rescheduled w e := by
  intro y' hy' _ hchanged m hm _ hne hpath
  have hid : y'.id = root.id := by
    by_contra hneq
    rw [hobs] at hy'
    obtain ⟨y, hy, ⟨-, rfl⟩ | ⟨-, rfl⟩⟩ := mem_scheduleAll hy'
    · exact hchanged y (hother y hy hneq) rfl (unchanged_scheduled y)
    · exact hchanged y' (hother y' hy hneq) rfl (unchanged_refl y')
  obtain ⟨m₀, -, rfl⟩ := reached htidy hroot hrecord hobs hpath hid hm (hid ▸ hne)
  exact ⟨_, rfl, htime⟩

theorem rescheduled_saved {s : Store} {m : MemoryRow} {skills : List SkillCandidate} {source recordId : String}
    (htidy : Tidy s.observations) (hm : m ∈ s.observations) (hlive : m.Live)
    (hact : (act w e).store = invalidateDependentExternalEvidence (schedule "evidence.sync" now
      { s with skills := skills } m) (m.scheduled "evidence.sync" now) source recordId now)
    (hrecord : m.record = recordOf m.evidence.owner source recordId)
    (hother : ∀ y ∈ s.observations, y.id ≠ m.id → y ∈ w.store.observations) (htime : e.time = some now) :
    Rescheduled w e := by
  obtain ⟨hobs, -⟩ := @save_observations s _ (m.scheduled "evidence.sync" now) source recordId now skills
    htidy.ids hlive
  refine rescheduled_of_root ((congrArg Store.observations hact).trans hobs)
    (htidy.of_sameOrigin (sameOrigin_put_scheduled htidy hm))
    (mem_map.mpr ⟨m, hm, if_pos (by simp [scheduled])⟩) hrecord (fun y hy hne => ?_) htime
  obtain ⟨y₀, hy₀, ⟨-, rfl⟩ | ⟨-, rfl⟩⟩ := mem_update hy
  · exact absurd rfl hne
  · exact hother y hy₀ hne

theorem rescheduled_sync (h : Tidy w.store.observations)
    (hids : ∀ m ∈ w.store.observations, m.id < w.store.nextId) (hr : Admissible w.store.observations r) :
    Rescheduled w (.sync r now) := by
  have hact : (act w (.sync r now)).store = (syncExternalEvidence w.store r now).1 := rfl
  have hcase : Synced w.store r now (syncExternalEvidence w.store r now).1 := synced h hids hr
  generalize (syncExternalEvidence w.store r now).1 = s' at hact hcase
  cases hcase with
  | duplicate _ _ _ => exact rescheduled_of_sameObservations (by rw [hact])
  | @buried key hkey hnone =>
    obtain ⟨ids, hin, hobs, -⟩ := @retract_observations r.source r.sourceRecordId now
      (w.store.insert (placeholder w.store.nextId key r now)) (placeholder w.store.nextId key r now)
    refine rescheduled_of_withdrawn ((congrArg Store.observations hact).trans hobs) fun y hy => ?_
    refine (mem_append.mp hy).imp id fun he => ?_
    rw [mem_singleton.mp he]
    exact hin
  | @withdrawn key m hm hlive hrecord =>
    obtain ⟨ids, -, hobs, -⟩ := @retract_observations r.source r.sourceRecordId now w.store m
    exact rescheduled_of_withdrawn ((congrArg Store.observations hact).trans hobs) fun y hy => Or.inl hy
  | @inserted key u hw hnone =>
    have htidy := tidy_insert h hw (written_uploadedRow w.store key none r u) (fun y hy => (hids y hy).ne) hnone
    exact @rescheduled_saved _ _ _ (w.store.insert _) _ _ _ _ htidy (mem_append_right _ mem_cons_self)
      hw.live hact rfl
      (fun y hy hne => (mem_append.mp hy).resolve_right fun he => hne (mem_singleton.mp he ▸ rfl)) rfl
  | @saved key m u hm hw =>
    have htidy := tidy_put h hw (written_uploadedRow w.store key (some m) r u)
    have hmem : uploadedRow w.store key (some m) r u ∈
        put (uploadedRow w.store key (some m) r u) w.store.observations :=
      mem_map.mpr ⟨m, hm, if_pos (by simp [uploadedRow])⟩
    refine @rescheduled_saved _ _ _ { w.store with observations := put _ w.store.observations } _ _ _ _ htidy hmem
      hw.live hact rfl (fun y hy hne => ?_) rfl
    obtain ⟨y₀, hy₀, ⟨-, rfl⟩ | ⟨-, rfl⟩⟩ := mem_update hy
    · exact absurd rfl hne
    · exact hy₀
  | @revised m u hm hfind hsame hw =>
    refine rescheduled_of_unchanged fun y' hy' _ => ?_
    rw [hact] at hy'
    obtain ⟨y, hy, ⟨-, rfl⟩ | ⟨-, rfl⟩⟩ := mem_update hy'
    · exact ⟨m, hm, rfl, rfl, id⟩
    · exact ⟨y', hy, rfl, unchanged_refl y'⟩

theorem rescheduled_finishExtraction {i : ℕ} {outcome : ModelOutcome} {activated : List ℕ}
    (h : Tidy w.store.observations) : Rescheduled w (.finishExtraction i outcome activated now) := by
  cases hx : w.extractions[i]? with
  | none => exact rescheduled_of_sameObservations (by simp [act, hx])
  | some x =>
    have hact : (act w (.finishExtraction i outcome activated now)).store =
        finishExtraction w.store x outcome activated now := by simp [act, hx]
    rcases finishExtraction_spec h x outcome activated with ⟨hsame, -⟩ | ⟨m, hfin, -, hobs, -⟩
    · exact rescheduled_of_sameObservations (hact ▸ hsame.observations)
    obtain ⟨hm, -⟩ := finishable_some hfin
    have horigin : SameOrigin m (m.extracted outcome now) := .extracted m outcome
    refine rescheduled_of_root (hact ▸ hobs) (h.of_sameOrigin (sameOrigin_put_extracted h hm outcome))
      (mem_map.mpr ⟨m, hm, if_pos (by simp [horigin.id])⟩) rfl (fun y hy hne => ?_) rfl
    obtain ⟨y₀, hy₀, ⟨-, rfl⟩ | ⟨-, rfl⟩⟩ := mem_update hy
    · exact absurd rfl hne
    · exact hy₀

theorem rescheduled_step (h : Flow w.store w.extractions w.extractedFrom) (e : Event) (he : Orderly w e) :
    Rescheduled w e := by
  cases e with
  | sync r now => exact rescheduled_sync h.tidy h.ids he.1
  | deleteMemory id now =>
    cases hget : w.store.get id with
    | some m =>
      have hact : (act w (.deleteMemory id now)).store = retractDependentExternalEvidence
          (withdrawOne now w.store m) m m.evidence.source m.evidence.sourceRecordId now := by
        simp [act, deleteMemory, hget]
      obtain ⟨ids, -, hobs, -⟩ := @retract_observations m.evidence.source m.evidence.sourceRecordId now
        w.store m
      exact rescheduled_of_withdrawn (hact ▸ hobs) fun y hy => Or.inl hy
    | none => exact rescheduled_of_sameObservations (by simp [act, deleteMemory, hget])
  | beginSuggestion q activates now =>
    exact rescheduled_of_sameObservations (beginSuggestion_observations q activates).1
  | finishSuggestion i selected activates now =>
    refine rescheduled_of_sameObservations ?_
    simp only [act]
    cases w.suggestions[i]? with
    | none => rfl
    | some g =>
      cases selected with
      | none => rfl
      | some selected => exact (finishSuggestion_observations g selected activates).1
  | updateSkill id now => exact rescheduled_of_sameObservations rfl
  | beginExtraction jobId =>
    have hsame : SameRows w.store (beginExtraction w.store jobId).1 := .beginExtraction jobId
    exact rescheduled_of_sameObservations hsame.observations
  | finishExtraction i outcome activated now => exact rescheduled_finishExtraction h.tidy
  | retry memoryId =>
    have hsame : SameRows w.store (retryProcessing w.store memoryId) := .retryProcessing memoryId
    exact rescheduled_of_sameObservations hsame.observations
  | backfill limit now =>
    have hobs := (@backfill_observations w.store now h.tidy limit).1
    refine rescheduled_of_unchanged fun y' hy' _ => ?_
    change y' ∈ (backfill w.store limit now).observations at hy'
    rw [hobs] at hy'
    obtain ⟨y, hy, ⟨-, rfl⟩ | ⟨-, rfl⟩⟩ := mem_scheduleAll hy'
    · exact ⟨y, hy, rfl, unchanged_scheduled y⟩
    · exact ⟨y', hy, rfl, unchanged_refl y'⟩
  | restart => exact rescheduled_of_sameObservations rfl

theorem appliedCurrent_step (h : Flow w.store w.extractions w.extractedFrom) (e : Event) :
    AppliedCurrent w e := by
  cases e with
  | finishExtraction i outcome activated now =>
    intro x hx hchanged
    have hact : (act w (.finishExtraction i outcome activated now)).store =
        finishExtraction w.store x outcome activated now := by simp [act, hx]
    rcases finishExtraction_spec h.tidy x outcome activated with ⟨hsame, -⟩ | ⟨m, hfin, -⟩
    · exact absurd (hact ▸ hsame.observations) hchanged
    obtain ⟨hm, -, hid, hmatch, -⟩ := finishable_some hfin
    refine ⟨m, hm, hid, (matchesJob_iff.mp hmatch).2.2.1, (generation_of_matches hmatch).1,
      fun y hread hp => ?_⟩
    obtain ⟨hy, p, hpp, hrecord⟩ := reads_record h.tidy hread
    exact (sources_of_finishable h (mem_of_getElem? hx) hfin hpp hy hrecord).2 hp
  | _ => trivial

/-! ### Runs -/

theorem flow_step (h : Flow w.store w.extractions w.extractedFrom) (e : Event) (he : Orderly w e) :
    Flow (step w e).store (step w e).extractions (step w e).extractedFrom := by
  change Flow (act w e).store (act w e).extractions (act w e).extractedFrom
  cases e with
  | sync r now => exact flow_sync h he.1 he.2.1 he.2.2
  | deleteMemory id now =>
    simp only [act, deleteMemory]
    cases w.store.get id with
    | some m => exact flow_retract h m
    | none => exact flow_sameObservations h rfl le_rfl fun _ hx => hx
  | beginSuggestion q activates now =>
    exact flow_sameObservations h (beginSuggestion_observations q activates).1
      (beginSuggestion_observations q activates).2 fun _ hx => hx
  | finishSuggestion i selected activates now =>
    simp only [act]
    cases w.suggestions[i]? with
    | none => exact h
    | some g =>
      cases selected with
      | none => exact h
      | some selected =>
        exact flow_sameObservations h (finishSuggestion_observations g selected activates).1
          (finishSuggestion_observations g selected activates).2 fun _ hx => hx
  | updateSkill id now => exact flow_sameObservations h rfl le_rfl fun _ hx => hx
  | beginExtraction jobId => exact flow_beginExtraction h jobId
  | finishExtraction i outcome activated now =>
    simp only [act]
    cases hx : w.extractions[i]? with
    | none => exact h
    | some x =>
      exact flow_finishExtraction h (mem_of_getElem? hx) (fun _ hmem => mem_of_mem_eraseIdx hmem)
        he outcome activated
  | retry memoryId =>
    have hsame : SameRows w.store (retryProcessing w.store memoryId) := .retryProcessing memoryId
    exact flow_sameObservations h hsame.observations hsame.nextId fun _ hx => hx
  | backfill limit now => exact flow_backfill h he limit
  | restart => exact flow_sameObservations h rfl le_rfl fun _ h => by cases h

theorem flow_start (h : OldStore s) : Flow s [] extractedFrom where
  tidy := h.tidy
  ids := h.fresh
  underWay := nofun
  fresh := fun m hm hp => by
    simp [isObservationMemoryProcessed, h.unread m hm] at hp

theorem fresh_of_flow (h : Flow w.store w.extractions w.extractedFrom) : Fresh w := by
  intro m hm hp
  obtain ⟨x, hx, hgeneration, hsources⟩ := h.fresh m hm hp
  refine ⟨x, hx, hgeneration, fun y hread hyp => ?_⟩
  obtain ⟨hy, p, hpp, hrecord⟩ := reads_record h.tidy hread
  exact hsources p hpp y hy hrecord hyp

/-- **Extractions are fresh** in every run of orderly steps from the rows of an older version. -/
theorem extraction_fresh (s : Store) (h : OldStore s) (es : List Event)
    (horderly : ∀ t ∈ taken step { store := s } es, Orderly t.1 t.2) :
    (∀ w ∈ visited step { store := s } es, Fresh w) ∧
      ∀ t ∈ taken step { store := s } es, Rescheduled t.1 t.2 ∧ AppliedCurrent t.1 t.2 := by
  have hflow : ∀ w ∈ visited step { store := s } es, Flow w.store w.extractions w.extractedFrom :=
    invariant_of_steps (I := fun w : World => Flow w.store w.extractions w.extractedFrom) (P := Orderly)
      (fun _ e h he => flow_step h e he) es _ (flow_start h) horderly
  refine ⟨fun w hw => fresh_of_flow (hflow w hw), fun t ht => ?_⟩
  have ht' := hflow t.1 (mem_visited_of_mem_taken step ht)
  exact ⟨rescheduled_step ht' t.2 (horderly t ht), appliedCurrent_step ht' t.2⟩

/-! ### Examples -/

theorem lookup_mem {n : RuntimeNamespace} (h : (lookupExternalEvidence rows n source p).2 = some m) :
    m ∈ rows := by
  have hmem : ∀ {key : EvidenceKey}, getByKeyIncludingDeleted rows key = some m → m ∈ rows := fun hget =>
    (mem_filter.mp ((mem_sortBy _).mp (mem_of_head? hget))).1
  rcases lookup_cases rows n source p with heq | ⟨l, -, hget, -, heq⟩
  · rw [heq] at h
    exact hmem h
  · rw [heq] at h
    cases h
    exact hmem hget

/-- The summaries of an hour and of its day are extracted, and the hour is uploaded anew. -/
def hourAndDay : List Event :=
  [ .sync (summaryRequest "browser" "hour" "r1" (.upsert (summaryUpload []))) "t1",
    .sync (summaryRequest "browser" "day" "r1" (.upsert (summaryUpload ["hour"]))) "t2",
    .beginExtraction 1,
    .finishExtraction 0 (.keep "hour" "an hour" "what was done") [] "t3",
    .beginExtraction 4,
    .finishExtraction 0 (.keep "day" "a day" "what was done") [] "t4",
    .sync (summaryRequest "browser" "hour" "r2" (.upsert (summaryUpload ["minutes"]))) "t5" ]

theorem hourAndDay_fresh : (∀ w ∈ visited step { store := {} } hourAndDay, Fresh w) ∧
    ∀ t ∈ taken step { store := {} } hourAndDay, Rescheduled t.1 t.2 ∧ AppliedCurrent t.1 t.2 :=
  extraction_fresh {} ⟨inv_start.tidy, inv_start.fresh, fun _ hm => absurd hm not_mem_nil⟩ hourAndDay (by
    have horderly : ∀ (w : World) (r : SyncRequest) (now : String), r.owner = localNamespace →
        r.source = "browser" → (∀ m ∈ w.store.observations,
          m.evidence.owner = localNamespace ∧ m.evidence.source = "browser") →
        (∀ x ∈ w.extractions, x.job.generation.scheduledAt ≠ now) → Orderly w (.sync r now) := by
      intro w r now howner hsource hrows helapsed
      refine ⟨admissible_of_browser howner hsource fun m hm => (hrows m hm).1, fun m u hfind _ _ hne => ?_, helapsed⟩
      exact absurd ((hrows m (lookup_mem hfind)).2.trans hsource.symm) hne
    have hfinish : ∀ (w : World) (i : ℕ) (outcome : ModelOutcome) (activated : List ℕ) (now : String),
        (∀ x ∈ w.extractions.eraseIdx i, x.job.generation.scheduledAt ≠ now) →
          Orderly w (.finishExtraction i outcome activated now) := fun _ _ _ _ _ h => h
    simp only [hourAndDay, taken_cons, taken_nil, forall_mem_cons]
    refine ⟨horderly _ _ _ rfl rfl (by decide +kernel) (by decide +kernel),
      horderly _ _ _ rfl rfl (by decide +kernel) (by decide +kernel), trivial,
      hfinish _ _ _ _ _ (by decide +kernel), trivial, hfinish _ _ _ _ _ (by decide +kernel),
      horderly _ _ _ rfl rfl (by decide +kernel) (by decide +kernel), nofun⟩)

/-- A parent and what depends on it are uploaded from two workspaces and extracted; then the parent is
uploaded anew and extracted. -/
def acrossWorkspaces : List Event :=
  let owner (workspaceId : String) : RuntimeNamespace :=
    ⟨"memmy", "default", none, some workspaceId, "local-user", none⟩
  [ .sync ⟨owner "w1", "browser", "hour", "r1", .upsert (summaryUpload [])⟩ "t1",
    .sync ⟨owner "w2", "browser", "day", "r1", .upsert (summaryUpload ["hour"])⟩ "t2",
    .beginExtraction 1,
    .finishExtraction 0 (.keep "hour" "an hour" "what was done") [] "t3",
    .beginExtraction 3,
    .finishExtraction 0 (.keep "day" "a day" "what was done") [] "t4",
    .sync ⟨owner "w1", "browser", "hour", "r2", .upsert { summaryUpload [] with
      content := "another body"
      content_ne := by decide }⟩ "t5",
    .beginExtraction 4,
    .finishExtraction 0 (.keep "hour" "an hour" "something else") [] "t6" ]

/-- **The property fails**: the day stays processed while the hour it was extracted from is another. -/
theorem acrossWorkspaces_stale : ¬ ∀ s : Store, OldStore s → ∀ es : List Event,
    (∀ w ∈ visited step { store := s } es, Fresh w) ∧
      ∀ t ∈ taken step { store := s } es, Rescheduled t.1 t.2 ∧ AppliedCurrent t.1 t.2 := by
  intro h
  have hfresh := (h {} ⟨inv_start.tidy, inv_start.fresh, fun _ hm => absurd hm not_mem_nil⟩
    acrossWorkspaces).1 _ (final_mem_visited step acrossWorkspaces { store := {} })
  have hstale : ∃ m ∈ (final step { store := {} } acrossWorkspaces).store.observations,
      m.isObservationMemoryProcessed = true ∧ ∃ p ∈ m.evidence.parentSourceRecordIds,
        (lookupExternalEvidence (final step { store := {} } acrossWorkspaces).store.observations
          m.evidence.owner m.evidence.source p).2.any (fun y => y.isObservationMemoryProcessed &&
            ((final step { store := {} } acrossWorkspaces).extractedFrom m.id).all fun x =>
              x.sources.all fun source => decide (source.generation ≠ y.generation?)) = true := by
    decide +kernel
  obtain ⟨m, hm, hprocessed, p, hp, hany⟩ := hstale
  obtain ⟨x, hx, -, hsources⟩ := hfresh m hm hprocessed
  obtain ⟨y, hfind, hstale⟩ := Option.any_eq_true _ _ |>.mp hany
  rw [Bool.and_eq_true, hx] at hstale
  obtain ⟨source, hsource, hcurrent⟩ := hsources y ⟨p, hp, hfind⟩ hstale.1
  have hne := all_eq_true.mp hstale.2 source hsource
  exact of_decide_eq_true hne hcurrent.generation

end Memmy.Evidence
