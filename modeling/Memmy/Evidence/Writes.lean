import Memmy.Evidence.Effects

/-! # External evidence: what a call writes

* `Writable`, `Written`: what an upload is checked for, and the row that holds it.
* `tidy_put`, `tidy_insert`, `tidy_placeholder`: the tables that a call leaves are tidy.
* `synced`: the cases of `syncExternalEvidence`, with what was checked in each. -/

namespace Memmy.Evidence

open Lib.Rows List Bool

variable {s : Store} {rows : List MemoryRow} {m x : MemoryRow} {r : SyncRequest} {u : Upload}
  {source now : String} {key : EvidenceKey}

/-! ### Rows of uploads -/

/-- The row holds what the upload brought. -/
structure Stored (u : Upload) (m : MemoryRow) : Prop where
  content : m.evidence.sourceContent = u.content
  title : m.evidence.sourceTitle = u.title
  summary : m.evidence.sourceSummary = u.summary
  startedAt : m.evidence.startedAt = u.startedAt
  endedAt : m.evidence.endedAt = u.endedAt
  parents : m.evidence.parentSourceRecordIds = u.parents

/-- The row holds the upload of the request. -/
structure Written (r : SyncRequest) (u : Upload) (x : MemoryRow) : Prop where
  source : x.evidence.source = r.source
  sourceRecordId : x.evidence.sourceRecordId = r.sourceRecordId
  revision : x.evidence.revision = r.revision
  owner : x.evidence.owner = r.owner
  historyId : x.evidence.historyId = u.historyId
  stored : Stored u x

theorem Written.sourceKey (h : Written r u x) : x.sourceKey = r.key := by
  unfold MemoryRow.sourceKey SyncRequest.key
  rw [h.owner, h.source, h.sourceRecordId]

/-- What a write is checked for: the record has this row, and no parent was deleted. -/
structure Writable (rows : List MemoryRow) (r : SyncRequest) (u : Upload) (x : MemoryRow) : Prop where
  admissible : Admissible rows r
  action : r.action = .upsert u
  parents : ∀ p ∈ u.parents, ∀ d ∈ rows, d.status = .deleted → d.record ≠ recordOf r.owner r.source p
  keyed : x.memoryKey = externalEvidenceMemoryKey r.owner r.source r.sourceRecordId ∨
    (r.source = "computer_history" ∧ r.owner.source = "memmy") ∧
      isHistoryRecordId r.sourceRecordId = true ∧
      x.memoryKey = externalEvidenceMemoryKey r.owner "memmy" r.sourceRecordId
  live : x.Live
  old : ∀ y ∈ rows, y.id = x.id → y.Live ∧ y.record = canonical r.key ∧ y.evidence.revision ≤ r.revision

theorem tidy_write {rows' : List MemoryRow} (h : Tidy rows) (hw : Writable rows r u x)
    (hx : Written r u x) (hmem : ∀ y ∈ rows', y ∈ rows ∨ y = x) (hids : (rows'.map (·.id)).Nodup)
    (hrecords : (rows'.map (·.record)).Nodup) : Tidy rows' := by
  have hnamed : x.Named → r.owner.source = "memmy" ∧ isHistorySource r.source = true := fun hn => by
    unfold MemoryRow.Named at hn
    rwa [hx.owner, hx.source] at hn
  refine h.write hmem hids hrecords ?_ (fun hn hid => ?_) (fun hn p hp hd => ?_) fun m hm => ?_
  · rcases hw.keyed with hk | ⟨halias, hdated, hk⟩
    · exact Or.inl (hk.trans hx.sourceKey.symm)
    · refine Or.inr ⟨?_, hx.sourceRecordId ▸ hdated, ?_⟩
      · unfold MemoryRow.Named
        rw [hx.owner, hx.source, halias.1]
        exact ⟨halias.2, rfl⟩
      · rw [hx.owner, hx.sourceRecordId, hk]
  · rw [hx.historyId, hx.sourceRecordId] at hid
    rw [hx.sourceRecordId]
    exact hw.admissible.dated (hnamed hn).1 (hnamed hn).2 u hw.action hid
  · rw [hx.stored.parents] at hp
    rw [hx.sourceRecordId]
    exact hw.admissible.derived (hnamed hn).1 (hnamed hn).2 u hw.action p hp hd
  · have := hw.admissible.coherent m hm
    unfold MemoryRow.namespaceId at this ⊢
    rwa [hx.owner]

/-! ### Tables -/

theorem map_put {β : Type*} {g : MemoryRow → β} (h : ∀ y ∈ rows, y.id = x.id → g y = g x) :
    (put x rows).map g = rows.map g := by
  unfold put update
  rw [map_map]
  refine map_congr_left fun y hy => ?_
  by_cases hid : y.id = x.id
  · simp [hid, h y hy hid]
  · simp [hid]

theorem nodup_map_append {β : Type*} {g : MemoryRow → β} (h : (rows.map g).Nodup)
    (hne : ∀ y ∈ rows, g y ≠ g x) : ((rows ++ [x]).map g).Nodup := by
  rw [map_append]
  refine nodup_append.mpr ⟨h, nodup_singleton _, fun i hi j hj he => ?_⟩
  obtain ⟨y, hy, rfl⟩ := mem_map.mp hi
  exact hne y hy (he.trans (mem_singleton.mp hj))

/-- An upload over the row of its record. -/
theorem tidy_put (h : Tidy rows) (hw : Writable rows r u x) (hx : Written r u x) : Tidy (put x rows) := by
  refine tidy_write h hw hx (fun y hy => ?_) ?_ ?_
  · obtain ⟨y₀, hy₀, ⟨-, rfl⟩ | ⟨-, rfl⟩⟩ := mem_update hy
    · exact Or.inr rfl
    · exact Or.inl hy₀
  · rw [map_put fun y _ hid => hid]
    exact h.ids
  · rw [map_put fun y hy hid => (hw.old y hy hid).2.1.trans (congrArg canonical hx.sourceKey).symm]
    exact h.records

theorem tidy_insert (h : Tidy rows) (hw : Writable rows r u x) (hx : Written r u x)
    (hfresh : ∀ y ∈ rows, y.id ≠ x.id) (hnone : ∀ y ∈ rows, y.record ≠ canonical r.key) :
    Tidy (rows ++ [x]) :=
  tidy_write h hw hx (fun _ hy => (mem_append.mp hy).imp id mem_singleton.mp)
    (nodup_map_append h.ids hfresh) (nodup_map_append h.records fun y hy he =>
      hnone y hy (he.trans (congrArg canonical hx.sourceKey)))

/-- The tombstone of an unknown record, before it is deleted. -/
theorem tidy_placeholder {i : ℕ} (h : Tidy rows) (hr : Admissible rows r) (hkey : key = r.key)
    (hfresh : ∀ y ∈ rows, y.id ≠ i) (hnone : ∀ y ∈ rows, y.record ≠ canonical r.key) :
    Tidy (rows ++ [placeholder i key r now]) :=
  h.write (fun _ hy => (mem_append.mp hy).imp id mem_singleton.mp)
    (nodup_map_append h.ids hfresh) (nodup_map_append h.records hnone) (Or.inl hkey)
    (fun _ hid => nomatch hid) (nofun) hr.coherent

/-! ### The cases of a call -/

theorem written_uploadedRow (s : Store) (key : EvidenceKey) (existing : Option MemoryRow)
    (r : SyncRequest) (u : Upload) : Written r u (uploadedRow s key existing r u) := by
  cases existing <;> exact ⟨rfl, rfl, rfl, rfl, rfl, rfl, rfl, rfl, rfl, rfl, rfl⟩

theorem uploadedRow_live (s : Store) (key : EvidenceKey) (existing : Option MemoryRow)
    (r : SyncRequest) (u : Upload) : (uploadedRow s key existing r u).Live := by
  cases existing <;> simp [uploadedRow, MemoryRow.Live]

theorem written_revised (hid : m.evidence.sourceRecordId = r.sourceRecordId)
    (hsame : m.sameUpload u = true) : Written r u (m.revised r u now) := by
  unfold MemoryRow.sameUpload at hsame
  simp only [and_eq_true, decide_eq_true_eq] at hsame
  obtain ⟨⟨⟨⟨⟨⟨-, hcontent⟩, htitle⟩, hsummary⟩, hstarted⟩, hended⟩, hparents⟩ := hsame
  exact ⟨rfl, hid, rfl, rfl, rfl, hcontent, htitle, hsummary, hstarted, hended, hparents⟩

theorem parents_of_check (h : Tidy s.observations) (hr : Admissible s.observations r)
    (hu : r.action = .upsert u) (hcheck : parentDeleted s r u = false) :
    ∀ p ∈ u.parents, ∀ d ∈ s.observations, d.status = .deleted → d.record ≠ recordOf r.owner r.source p := by
  intro p hp d hd hdeleted heq
  have hfind := hr.lookup h (Or.inr ⟨u, hu, hp⟩) hd heq
  unfold parentDeleted at hcheck
  rw [any_eq_false] at hcheck
  refine hcheck p hp ?_
  rw [hfind]
  simpa using hdeleted


/-- **The cases of `syncExternalEvidence`.** -/
inductive Synced (s : Store) (r : SyncRequest) (now : String) : Store → Prop
  /-- The record is deleted, or an upload of it is not newer than what is stored. -/
  | duplicate {m : MemoryRow} (hm : m ∈ s.observations) (hrecord : m.record = canonical r.key)
      (hle : m.Live → ∃ u, r.action = .upsert u ∧ r.revision ≤ m.evidence.revision) : Synced s r now s
  /-- A record without a row is deleted. -/
  | buried {key : EvidenceKey} (hkey : key = r.key)
      (hnone : ∀ y ∈ s.observations, y.record ≠ canonical r.key) :
      Synced s r now (withdraw s key none r now).1
  | withdrawn {key : EvidenceKey} {m : MemoryRow} (hm : m ∈ s.observations) (hlive : m.Live)
      (hrecord : m.record = canonical r.key) : Synced s r now (withdraw s key (some m) r now).1
  | inserted {key : EvidenceKey} {u : Upload}
      (hw : Writable s.observations r u (uploadedRow s key none r u))
      (hnone : ∀ y ∈ s.observations, y.record ≠ canonical r.key) :
      Synced s r now (saveUpload s key none r u now).1
  | saved {key : EvidenceKey} {m : MemoryRow} {u : Upload} (hm : m ∈ s.observations)
      (hw : Writable s.observations r u (uploadedRow s key (some m) r u)) :
      Synced s r now (saveUpload s key (some m) r u now).1
  /-- An upload that brings only a newer revision. -/
  | revised {m : MemoryRow} {u : Upload} (hm : m ∈ s.observations)
      (hfind : (lookupExternalEvidence s.observations r.owner r.source r.sourceRecordId).2 = some m)
      (hsame : m.sameUpload u = true) (hw : Writable s.observations r u (m.revised r u now)) :
      Synced s r now { s with observations := put (m.revised r u now) s.observations }

theorem synced (h : Tidy s.observations) (hfresh : ∀ m ∈ s.observations, m.id < s.nextId)
    (hr : Admissible s.observations r) : Synced s r now (syncExternalEvidence s r now).1 := by
  unfold syncExternalEvidence
  simp only
  cases hfind : (lookupExternalEvidence s.observations r.owner r.source r.sourceRecordId).2 with
  | none =>
    have hnone := hr.record_ne h hfind
    have hkey : (lookupExternalEvidence s.observations r.owner r.source r.sourceRecordId).1 = r.key :=
      lookup_key hfind
    simp only
    split
    · exact .buried hkey hnone
    · next u hu =>
      by_cases hcheck : parentDeleted s r u = true
      · rw [if_pos hcheck]
        exact .buried hkey hnone
      · rw [if_neg hcheck]
        refine .inserted ⟨hr, hu, parents_of_check h hr hu (by simpa using hcheck), Or.inl hkey,
          uploadedRow_live s _ _ r u, fun y hy hid => ?_⟩ hnone
        exact absurd hid (hfresh y hy).ne
  | some m =>
    obtain ⟨hm, hrecord⟩ := h.lookup_eq_some hfind
    have hmkey := h.lookup_memoryKey hfind
    simp only
    by_cases hdeleted : m.status = .deleted
    · rw [if_pos hdeleted]
      exact .duplicate hm hrecord fun hlive => absurd hdeleted hlive
    rw [if_neg hdeleted]
    split
    · exact .withdrawn hm hdeleted hrecord
    · next u hu =>
      by_cases hrevision : r.revision ≤ m.evidence.revision
      · rw [if_pos hrevision]
        exact .duplicate hm hrecord fun _ => ⟨u, hu, hrevision⟩
      rw [if_neg hrevision]
      by_cases hcheck : parentDeleted s r u = true
      · rw [if_pos hcheck]
        exact .withdrawn hm hdeleted hrecord
      rw [if_neg hcheck]
      have hw : ∀ x : MemoryRow, x.id = m.id → x.memoryKey = m.memoryKey → x.Live →
          Writable s.observations r u x := fun x hid hxkey hxlive =>
        ⟨hr, hu, parents_of_check h hr hu (by simpa using hcheck), hxkey ▸ hmkey, hxlive,
          fun y hy hyid => by
            rw [h.eq_of_id hy hm (hyid.trans hid)]
            exact ⟨hdeleted, hrecord, (not_le.mp hrevision).le⟩⟩
      by_cases hsame : m.sameUpload u = true
      · rw [if_pos hsame]
        exact .revised hm hfind hsame (hw _ rfl rfl hdeleted)
      · rw [if_neg hsame]
        exact .saved hm (hw _ rfl rfl (uploadedRow_live s _ _ r u))

/-! ### Extractions -/

variable {e : Extraction} {outcome : ModelOutcome} {activated : List ℕ} {reason : String} {m' : MemoryRow}

/-- What is checked before an extraction is written. -/
theorem finishable_some (h : finishable s e = some m) : m ∈ s.observations ∧ m.Live ∧ m.id = e.memoryId ∧
    matchesJob s e.job m = true ∧ ∀ source ∈ e.sources, parentChanged s source = false := by
  unfold finishable at h
  cases hget : s.get e.memoryId with
  | none =>
    rw [hget] at h
    cases h
  | some y =>
    rw [hget] at h
    simp only at h
    by_cases hc : (matchesJob s e.job y && !e.sources.any (parentChanged s)) = true
    · rw [if_pos hc] at h
      cases h
      obtain ⟨hm, hid, hlive⟩ := Store.get_eq_some hget
      simp only [and_eq_true, not_eq_true', any_eq_false] at hc
      exact ⟨hm, hlive, hid, hc.1, fun source hs => eq_false_iff.mpr (hc.2 source hs)⟩
    · rw [if_neg hc] at h
      cases h

theorem mem_scheduleAll {l : List MemoryRow} (h : m' ∈ scheduleAll l reason now rows) :
    ∃ m ∈ rows, m ∈ l ∧ m' = m.scheduled reason now ∨ m ∉ l ∧ m' = m := by
  obtain ⟨m, hm, rfl⟩ := mem_map.mp h
  by_cases hin : m ∈ l
  · exact ⟨m, hm, Or.inl ⟨hin, if_pos hin⟩⟩
  · exact ⟨m, hm, Or.inr ⟨hin, if_neg hin⟩⟩

theorem changed_put {R : MemoryRow → MemoryRow → Prop} (h : Tidy rows) (hm : m ∈ rows) (hid : m'.id = m.id)
    (hself : ∀ y, R y y) (hR : R m m') : Changed R rows (put m' rows) := by
  refine changed_update (fun y hy hyid => ?_) fun y _ _ => hself y
  rwa [h.eq_of_id hy hm ((of_decide_eq_true hyid).trans hid)]

theorem sameOrigin_put_extracted (h : Tidy rows) (hm : m ∈ rows) (outcome : ModelOutcome) :
    Changed SameOrigin rows (put (m.extracted outcome now) rows) :=
  changed_put h hm (SameOrigin.extracted m outcome).id .refl (.extracted m outcome)

/-- The rows after an extraction was written. -/
def finishedRows (m : MemoryRow) (outcome : ModelOutcome) (now : String) (rows : List MemoryRow) :
    List MemoryRow :=
  scheduleAll (dependents (put (m.extracted outcome now) rows) (m.extracted outcome now)
    (m.extracted outcome now).evidence.source (m.extracted outcome now).evidence.sourceRecordId)
    "evidence.parent_updated" now (put (m.extracted outcome now) rows)

/-- **The end of an extraction**: only jobs and processing states differ, or its row is written and what
depends on it is scheduled. -/
theorem finishExtraction_spec (h : Tidy s.observations) (e : Extraction) (outcome : ModelOutcome)
    (activated : List ℕ) :
    (SameRows s (finishExtraction s e outcome activated now) ∧
      ((∃ terminal, outcome = .failed terminal) ∨ finishable s e = none)) ∨
    ∃ m, finishable s e = some m ∧ (∀ terminal, outcome ≠ .failed terminal) ∧
      (finishExtraction s e outcome activated now).observations = finishedRows m outcome now s.observations ∧
      SkillsKept s.skills (finishExtraction s e outcome activated now).skills ∧
      s.nextId ≤ (finishExtraction s e outcome activated now).nextId := by
  have hnone : SameRows s (if (s.get e.memoryId).any (matchesJob s e.job) then deferJob s e.job
      else completeJob s e.job.id) := by
    split_ifs
    · exact .deferJob
    · exact .completeJob _
  have hsome : ∀ m, finishable s e = some m →
      ∀ t, t = completeJob (onProcessed (setProcessing
        { s with observations := put (m.extracted outcome now) s.observations }
        (m.extracted outcome now).id ⟨.later, none⟩) (m.extracted outcome now) activated now) e.job.id →
      t.observations = finishedRows m outcome now s.observations ∧ SkillsKept s.skills t.skills ∧
        s.nextId ≤ t.nextId := by
    rintro m hfin t rfl
    have hput := @sameOrigin_put_extracted s.observations m now h (finishable_some hfin).1 outcome
    have hspec := @onProcessed_spec (setProcessing
      { s with observations := put (m.extracted outcome now) s.observations }
      (m.extracted outcome now).id ⟨.later, none⟩) (m.extracted outcome now) now activated
      (h.of_sameOrigin hput).ids
    exact hspec
  cases outcome with
  | failed terminal => exact Or.inl ⟨.failJob terminal, Or.inl ⟨terminal, rfl⟩⟩
  | keep title summary body =>
    unfold finishExtraction
    cases hfin : finishable s e with
    | none => exact Or.inl ⟨hnone, Or.inr rfl⟩
    | some m => exact Or.inr ⟨m, rfl, fun _ => nofun, hsome m hfin _ rfl⟩
  | skip why =>
    unfold finishExtraction
    cases hfin : finishable s e with
    | none => exact Or.inl ⟨hnone, Or.inr rfl⟩
    | some m => exact Or.inr ⟨m, rfl, fun _ => nofun, hsome m hfin _ rfl⟩

theorem mem_listUnprocessed {limit : ℕ} (h : m ∈ listUnprocessedObservations rows limit) :
    m ∈ rows ∧ m.Live ∧ m.observation = none := by
  obtain ⟨hm, hp⟩ := mem_filter.mp (Lib.Newest.mem_of_mem_newest h)
  simp only [and_eq_true, decide_eq_true_eq, Option.isNone_iff_eq_none] at hp
  refine ⟨hm, ?_, hp.2⟩
  rw [MemoryRow.Live, hp.1]
  exact nofun

theorem backfill_observations (h : Tidy s.observations) (limit : ℕ) :
    (backfill s limit now).observations =
      scheduleAll (listUnprocessedObservations s.observations limit) "startup.observation_backfill" now
        s.observations ∧
    s.nextId ≤ (backfill s limit now).nextId := by
  have hnodup : ((listUnprocessedObservations s.observations limit).map (·.id)).Nodup :=
    List.Nodup.map_on (fun a ha b hb heq => h.eq_of_id (mem_listUnprocessed ha).1 (mem_listUnprocessed hb).1 heq)
      (Lib.Newest.nodup_newest ((List.Nodup.of_map _ h.ids).filter _))
  exact ⟨scheduleAll_observations (fun _ _ => schedule_observations) h.ids hnodup fun m hm =>
    ⟨(mem_listUnprocessed hm).1, (mem_listUnprocessed hm).2.1⟩, foldl_nextId (fun _ _ => le_schedule_nextId) _ s⟩

/-! ### Suggestions -/

theorem beginSuggestion_observations (q : SuggestionRequest) (activates : Bool) :
    (beginSuggestion s q activates now).1.observations = s.observations ∧
      s.nextId ≤ (beginSuggestion s q activates now).1.nextId := by
  unfold beginSuggestion
  simp only
  split_ifs
  · exact ⟨rfl, le_rfl⟩
  · exact ⟨rfl, le_rfl⟩
  · split
    · split_ifs
      · exact ⟨rfl, le_rfl⟩
      · exact ⟨rfl, le_rfl⟩
    · exact ⟨rfl, le_rfl⟩

theorem finishSuggestion_observations (g : Suggestion) (selected : List String) (activates : Bool) :
    (finishSuggestion s g selected activates now).observations = s.observations ∧
      s.nextId ≤ (finishSuggestion s g selected activates now).nextId := by
  unfold finishSuggestion
  split
  · split_ifs
    · exact ⟨rfl, le_rfl⟩
    · exact ⟨rfl, le_rfl⟩
  · split_ifs
    · exact ⟨rfl, le_rfl⟩
    · exact ⟨rfl, Nat.le_succ _⟩

end Memmy.Evidence
