import Memmy.Evidence.Records

/-! # What the operations write

Withdrawing and scheduling write some of the rows and leave the others; neither touches what a row says
about its record.

* `withdrawAll_observations`, `scheduleAll_observations`: the rows after the memories of a list were
  withdrawn or scheduled.
* `SameOrigin`, `Tidy.of_sameOrigin`: what both keep.
* `dependents_closed`: the walk over the dependent memories misses none.
* `SkillsKept`: no Skill gets a source, and none comes back. -/

namespace Memmy.Evidence

open Lib.Sort Lib.Rows Lib.Walk Lib.Newest List

variable {s : Store} {rows rows' : List MemoryRow} {m m' root : MemoryRow} {source recordId p now reason : String}

/-! ### What a row says about its record -/

/-- The rows are about the same record, upload and parents. -/
structure SameOrigin (m m' : MemoryRow) : Prop where
  id : m'.id = m.id
  memoryKey : m'.memoryKey = m.memoryKey
  source : m'.evidence.source = m.evidence.source
  sourceRecordId : m'.evidence.sourceRecordId = m.evidence.sourceRecordId
  revision : m'.evidence.revision = m.evidence.revision
  owner : m'.evidence.owner = m.evidence.owner
  parents : m'.evidence.parentSourceRecordIds = m.evidence.parentSourceRecordIds
  historyId : m'.evidence.historyId = m.evidence.historyId

namespace SameOrigin

theorem refl (m : MemoryRow) : SameOrigin m m := ⟨rfl, rfl, rfl, rfl, rfl, rfl, rfl, rfl⟩

theorem trans {m'' : MemoryRow} (h : SameOrigin m m') (h' : SameOrigin m' m'') : SameOrigin m m'' :=
  ⟨h'.id.trans h.id, h'.memoryKey.trans h.memoryKey, h'.source.trans h.source,
    h'.sourceRecordId.trans h.sourceRecordId, h'.revision.trans h.revision, h'.owner.trans h.owner,
    h'.parents.trans h.parents, h'.historyId.trans h.historyId⟩

theorem withdrawn (m : MemoryRow) : SameOrigin m (m.withdrawn now) := ⟨rfl, rfl, rfl, rfl, rfl, rfl, rfl, rfl⟩

theorem scheduled (m : MemoryRow) : SameOrigin m (m.scheduled reason now) :=
  ⟨rfl, rfl, rfl, rfl, rfl, rfl, rfl, rfl⟩

theorem extracted (m : MemoryRow) (outcome : ModelOutcome) : SameOrigin m (m.extracted outcome now) := by
  cases outcome <;> exact ⟨rfl, rfl, rfl, rfl, rfl, rfl, rfl, rfl⟩

section
variable (h : SameOrigin m m')
include h

theorem sourceKey : m'.sourceKey = m.sourceKey := by
  unfold MemoryRow.sourceKey
  rw [h.owner, h.source, h.sourceRecordId]

theorem record : m'.record = m.record := by
  unfold MemoryRow.record
  rw [h.sourceKey]

theorem parent : m'.parent p = m.parent p := by
  unfold MemoryRow.parent
  rw [h.owner, h.source]

theorem namespaceId : m'.namespaceId = m.namespaceId := by
  unfold MemoryRow.namespaceId
  rw [h.owner]

theorem named : m'.Named ↔ m.Named := by
  unfold MemoryRow.Named
  rw [h.owner, h.source]

end

end SameOrigin

theorem Tidy.of_sameOrigin (h : Tidy rows) (hrows : Changed SameOrigin rows rows') : Tidy rows' where
  ids := hrows.map_eq (fun _ _ ho => ho.id) ▸ h.ids
  records := hrows.map_eq (fun _ _ ho => ho.record) ▸ h.records
  keyed := fun m' hm' => by
    obtain ⟨m, hm, ho⟩ := hrows.exists_old m' hm'
    rw [ho.named, ho.memoryKey, ho.sourceKey, ho.sourceRecordId, ho.owner]
    exact h.keyed m hm
  dated := fun m' hm' => by
    obtain ⟨m, hm, ho⟩ := hrows.exists_old m' hm'
    rw [ho.named, ho.sourceRecordId, ho.historyId]
    exact h.dated m hm
  derived := fun m' hm' => by
    obtain ⟨m, hm, ho⟩ := hrows.exists_old m' hm'
    rw [ho.named, ho.sourceRecordId, ho.parents]
    exact h.derived m hm
  coherent := fun m₁' hm₁' m₂' hm₂' => by
    obtain ⟨m₁, hm₁, ho₁⟩ := hrows.exists_old m₁' hm₁'
    obtain ⟨m₂, hm₂, ho₂⟩ := hrows.exists_old m₂' hm₂'
    rw [ho₁.namespaceId, ho₂.namespaceId, ho₁.owner, ho₂.owner]
    exact h.coherent m₁ hm₁ m₂ hm₂

/-! ### The dependent memories -/

theorem mem_candidates : m ∈ candidates rows root ↔
    m ∈ rows ∧ m.Live ∧ m.evidence.owner.userId = root.evidence.owner.userId ∧ m.id ≠ root.id := by
  unfold candidates MemoryRow.Live
  simp [and_assoc]

theorem mem_of_mem_dependents (h : m ∈ dependents rows root source recordId) :
    m ∈ rows ∧ m.Live ∧ m.id ≠ root.id := by
  obtain ⟨hm, hlive, -, hid⟩ := mem_candidates.mp (mem_of_mem_walk h)
  exact ⟨hm, hlive, hid⟩

theorem nodup_dependents (h : (rows.map (·.id)).Nodup) :
    ((dependents rows root source recordId).map (·.id)).Nodup := by
  have hcandidates : (candidates rows root).Nodup :=
    ((sortBy_perm _ _).nodup_iff.mpr ((List.Nodup.of_map _ h).filter _))
  refine List.Nodup.map_on (fun a ha b hb heq => ?_) (nodup_walk hcandidates)
  exact eq_of_key_eq h (mem_of_mem_dependents ha).1 (mem_of_mem_dependents hb).1 heq

theorem matches_of_dated (hnamed : m.Named) (hsource : isHistorySource source = true)
    (hdated : isHistoryRecordId m.evidence.sourceRecordId = true) :
    externalEvidenceSourceMatchesMemory m source = true := by
  unfold externalEvidenceSourceMatchesMemory isLegacyHistoryEvidence externalEvidenceSourcesMatch
  rw [hnamed.1, hnamed.2, hsource, hdated]
  simp [isHistorySource]

theorem matches_cases (h : Tidy rows) (hm : m ∈ rows)
    (hmatch : externalEvidenceSourceMatchesMemory m source = true) : m.evidence.source = source ∨
      m.Named ∧ isHistorySource source = true ∧ isHistoryRecordId m.evidence.sourceRecordId = true := by
  unfold externalEvidenceSourceMatchesMemory at hmatch
  simp only [Bool.or_eq_true, Bool.and_eq_true, decide_eq_true_eq] at hmatch
  rcases hmatch with hs | ⟨⟨hn, hsources⟩, hlegacy⟩
  · exact Or.inl hs
  unfold externalEvidenceSourcesMatch at hsources
  simp only [Bool.or_eq_true, Bool.and_eq_true, decide_eq_true_eq] at hsources
  rcases hsources with hs | ⟨hname, hname'⟩
  · exact Or.inl hs
  have hnamed : m.Named := ⟨hn, hname⟩
  refine Or.inr ⟨hnamed, hname', ?_⟩
  unfold isLegacyHistoryEvidence at hlegacy
  simp only [Bool.and_eq_true, Bool.or_eq_true, decide_eq_true_eq] at hlegacy
  exact hlegacy.2.elim (h.dated m hm hnamed) id

theorem dependsOn_of_parent (h : Tidy rows) (hroot : root ∈ rows) (hm : m ∈ rows) {name : String}
    (hp : p ∈ m.evidence.parentSourceRecordIds)
    (hrecord : m.parent p = recordOf root.evidence.owner name recordId)
    (hname : name = source ∨ isHistorySource name = true ∧ isHistorySource source = true ∧
      isHistoryRecordId recordId = true ∧ root.evidence.owner.source = "memmy") :
    dependsOn root source recordId m = true ∧ m.evidence.owner.userId = root.evidence.owner.userId := by
  obtain ⟨hscope, rfl, hsource⟩ := recordOf_eq hrecord
  refine ⟨?_, hscope.1⟩
  have hmatch : externalEvidenceSourceMatchesMemory m source = true := by
    have hdated : m.Named → isHistorySource source = true → isHistoryRecordId p = true →
        externalEvidenceSourceMatchesMemory m source = true := fun hnamed hs hdate =>
      matches_of_dated hnamed hs (h.derived m hm hnamed p hp hdate)
    rcases hsource with hsame | ⟨halias, halias'⟩
    · rcases hname with rfl | ⟨hname, hs, hdate, hn⟩
      · unfold externalEvidenceSourceMatchesMemory
        simp [hsame]
      · exact hdated ⟨hscope.2.2.2.2.trans hn, hsame ▸ hname⟩ hs hdate
    · refine hdated ⟨halias.1, halias.2.1⟩ ?_ halias.2.2
      rcases hname with rfl | ⟨-, hs, -, -⟩
      · exact halias'.2.1
      · exact hs
  unfold dependsOn
  simp only [Bool.and_eq_true, decide_eq_true_eq]
  exact ⟨⟨(h.coherent m hm root hroot).mpr hscope, hmatch⟩, hp⟩

/-- **The walk misses no dependent memory**: a live row whose parent is the record, or the record of a
visited row, is visited. -/
theorem dependents_closed (h : Tidy rows) (hroot : root ∈ rows) (hm : m ∈ rows) (hlive : m.Live)
    (hne : m.id ≠ root.id) (hp : p ∈ m.evidence.parentSourceRecordIds)
    (hparent : m.parent p = recordOf root.evidence.owner source recordId ∨
      ∃ x ∈ dependents rows root source recordId, m.parent p = x.record) :
    m ∈ dependents rows root source recordId := by
  rcases hparent with hrecord | ⟨x, hx, hrecord⟩
  · obtain ⟨hhit, huser⟩ := dependsOn_of_parent h hroot hm hp hrecord (Or.inl rfl)
    exact mem_walk_start (mem_candidates.mpr ⟨hm, hlive, huser, hne⟩) hhit
  · have hx' := (mem_of_mem_dependents hx).1
    obtain ⟨k, hhit⟩ := exists_hit hx
    unfold dependsOn at hhit
    simp only [Bool.and_eq_true, decide_eq_true_eq] at hhit
    have hscope := (h.coherent x hx' root hroot).mp hhit.1.1
    have hname : x.evidence.source = source ∨ isHistorySource x.evidence.source = true ∧
        isHistorySource source = true ∧ isHistoryRecordId x.evidence.sourceRecordId = true ∧
        root.evidence.owner.source = "memmy" := by
      rcases matches_cases h hx' hhit.1.2 with hs | ⟨hnamed, hs, hdated⟩
      · exact Or.inl hs
      · exact Or.inr ⟨hnamed.2, hs, hdated, hscope.2.2.2.2.symm.trans hnamed.1⟩
    obtain ⟨hnext, huser⟩ := dependsOn_of_parent h hroot hm hp
      (hrecord.trans (recordOf_congr hscope)) hname
    exact mem_walk_next (mem_candidates.mpr ⟨hm, hlive, huser, hne⟩) hx hnext

/-! ### Withdrawing -/

/-- The rows after some were withdrawn. -/
def withdrawAll (ids : List ℕ) (now : String) (rows : List MemoryRow) : List MemoryRow :=
  rows.map fun m => if m.Live ∧ m.id ∈ ids then m.withdrawn now else m

theorem withdrawAll_observations (now : String) : ∀ (l : List MemoryRow) (s : Store),
    (l.foldl (withdrawOne now) s).observations = withdrawAll (l.map (·.id)) now s.observations
  | [], s => by simp [withdrawAll]
  | x :: l, s => by
    rw [foldl_cons, withdrawAll_observations now l]
    unfold withdrawAll withdrawOne softDelete update MemoryRow.Live
    rw [map_map]
    refine map_congr_left fun m _ => ?_
    by_cases hlive : m.status = .deleted
    · simp [hlive]
    by_cases hx : m.id = x.id
    · simp [hlive, hx, MemoryRow.withdrawn]
    · simp [hlive, hx]

theorem changed_withdrawAll (ids : List ℕ) : Changed SameOrigin rows (withdrawAll ids now rows) :=
  changed_map fun m _ => by
    split_ifs
    · exact .withdrawn m
    · exact .refl m

/-- A row is withdrawn exactly if it was before, or is one of those. -/
theorem mem_withdrawAll {ids : List ℕ} (h : m' ∈ withdrawAll ids now rows) : ∃ m ∈ rows,
    SameOrigin m m' ∧ (m'.Live → m' = m ∧ m.id ∉ ids) ∧ (m.Live → m.id ∉ ids → m'.Live) := by
  obtain ⟨m, hm, rfl⟩ := mem_map.mp h
  by_cases hc : m.Live ∧ m.id ∈ ids
  · rw [if_pos hc]
    exact ⟨m, hm, .withdrawn m, fun hlive => absurd rfl hlive, fun _ hid => absurd hc.2 hid⟩
  · rw [if_neg hc]
    exact ⟨m, hm, .refl m, fun hlive => ⟨rfl, fun hid => hc ⟨hlive, hid⟩⟩, fun hlive _ => hlive⟩

theorem deleted_withdrawAll {ids : List ℕ} (hm : m ∈ rows) (hid : m.id ∈ ids ∨ ¬ m.Live) :
    ∃ m' ∈ withdrawAll ids now rows, SameOrigin m m' ∧ m'.status = .deleted := by
  refine ⟨_, mem_map_of_mem hm, ?_⟩
  by_cases hc : m.Live ∧ m.id ∈ ids
  · rw [if_pos hc]
    exact ⟨.withdrawn m, rfl⟩
  · rw [if_neg hc]
    refine ⟨.refl m, ?_⟩
    by_contra hlive
    exact hid.elim (fun hid => hc ⟨hlive, hid⟩) fun hdead => hdead hlive

/-! ### Scheduling -/

@[simp] theorem enqueueExtract_observations (s : Store) (id : ℕ) (hash : String) (g : Generation) :
    (enqueueExtract s id hash g).1.observations = s.observations := by
  unfold enqueueExtract
  split <;> rfl

@[simp] theorem enqueueExtract_skills (s : Store) (id : ℕ) (hash : String) (g : Generation) :
    (enqueueExtract s id hash g).1.skills = s.skills := by
  unfold enqueueExtract
  split <;> rfl

theorem enqueueExtract_nextId (s : Store) (id : ℕ) (hash : String) (g : Generation) :
    s.nextId ≤ (enqueueExtract s id hash g).1.nextId := by
  unfold enqueueExtract
  split
  · exact le_rfl
  · exact Nat.le_succ _

/-- The rows after some were scheduled. -/
def scheduleAll (l : List MemoryRow) (reason now : String) (rows : List MemoryRow) : List MemoryRow :=
  rows.map fun m => if m ∈ l then m.scheduled reason now else m

theorem schedule_observations (hlive : m.Live) : (schedule reason now s m).observations =
    update (·.id = m.id) (fun _ => m.scheduled reason now) s.observations := by
  unfold schedule
  rw [if_neg hlive]
  simp only [enqueueExtract_observations]
  rfl

theorem schedule_skills : (schedule reason now s m).skills = s.skills := by
  unfold schedule
  split_ifs
  · rfl
  · simp

theorem le_schedule_nextId : s.nextId ≤ (schedule reason now s m).nextId := by
  unfold schedule
  split_ifs
  · exact le_rfl
  · exact enqueueExtract_nextId { s with observations := put (m.scheduled reason now) s.observations } _ _ _

theorem invalidateOne_observations (hlive : m.Live) : (invalidateOne now s m).observations =
    update (·.id = m.id) (fun _ => m.scheduled "evidence.parent_updated" now) s.observations :=
  schedule_observations hlive

variable {op : Store → MemoryRow → Store}

theorem foldl_schedule_observations
    (hop : ∀ (s : Store) (m : MemoryRow), m.Live → (op s m).observations =
      update (·.id = m.id) (fun _ => m.scheduled reason now) s.observations) :
    ∀ (l : List MemoryRow) (s : Store), (∀ m ∈ l, m.Live) → (l.foldl op s).observations =
      l.foldl (fun rows m => update (·.id = m.id) (fun _ => m.scheduled reason now) rows) s.observations
  | [], s, _ => rfl
  | m :: l, s, hlive => by
    rw [forall_mem_cons] at hlive
    rw [foldl_cons, foldl_cons, foldl_schedule_observations hop l _ hlive.2, hop s m hlive.1]

/-- **The rows after the memories of a list were scheduled.** -/
theorem scheduleAll_observations
    (hop : ∀ (s : Store) (m : MemoryRow), m.Live → (op s m).observations =
      update (·.id = m.id) (fun _ => m.scheduled reason now) s.observations) {l : List MemoryRow}
    (hids : (s.observations.map (·.id)).Nodup) (hl : (l.map (·.id)).Nodup)
    (hmem : ∀ m ∈ l, m ∈ s.observations ∧ m.Live) :
    (l.foldl op s).observations = scheduleAll l reason now s.observations := by
  rw [foldl_schedule_observations hop l s fun m hm => (hmem m hm).2]
  exact foldl_put (g := MemoryRow.scheduled reason now) (k := fun m : MemoryRow => m.id) (fun _ => rfl)
    hids hl fun m hm => (hmem m hm).1

theorem invalidate_observations (hids : (s.observations.map (·.id)).Nodup) :
    (invalidateDependentExternalEvidence s root source recordId now).observations =
      scheduleAll (dependents s.observations root source recordId) "evidence.parent_updated" now
        s.observations :=
  scheduleAll_observations (fun _ _ => invalidateOne_observations) hids (nodup_dependents hids)
    fun _ hm => ⟨(mem_of_mem_dependents hm).1, (mem_of_mem_dependents hm).2.1⟩

theorem changed_scheduleAll (l : List MemoryRow) : Changed SameOrigin rows (scheduleAll l reason now rows) :=
  changed_map fun m _ => by
    split_ifs
    · exact .scheduled m
    · exact .refl m

/-! ### Skills -/

/-- No Skill gets a source, and none comes back. -/
def SkillsKept (skills skills' : List SkillCandidate) : Prop :=
  Changed (fun k k' => k'.id = k.id ∧ k'.sourceMemoryIds = k.sourceMemoryIds ∧
    (k'.status ≠ .deleted → k.status ≠ .deleted)) skills skills'

namespace SkillsKept

variable {skills skills' skills'' : List SkillCandidate}

theorem refl (skills : List SkillCandidate) : SkillsKept skills skills := Changed.refl fun _ _ => ⟨rfl, rfl, id⟩

theorem trans (h : SkillsKept skills skills') (h' : SkillsKept skills' skills'') :
    SkillsKept skills skills'' :=
  Changed.trans (fun _ _ _ hab hbc => ⟨hbc.1.trans hab.1, hbc.2.1.trans hab.2.1,
    fun hc => hab.2.2 (hbc.2.2 hc)⟩) h h'

theorem of_update {p : SkillCandidate → Bool} {f : SkillCandidate → SkillCandidate}
    (hf : ∀ k, p k = true → (f k).id = k.id ∧ (f k).sourceMemoryIds = k.sourceMemoryIds ∧
      ((f k).status ≠ .deleted → k.status ≠ .deleted)) : SkillsKept skills (update p f skills) :=
  changed_update (fun k _ hp => hf k hp) fun _ _ _ => ⟨rfl, rfl, id⟩

theorem retract (id : ℕ) (reason : RetractReason) :
    SkillsKept skills (retractExternalEvidenceSkills id now reason skills) := by
  refine of_update fun k hk => ?_
  have hlisted : k ∈ listedSkills skills := by
    simp only [Bool.and_eq_true, decide_eq_true_eq] at hk
    exact hk.1
  have hlive : k.status ≠ .deleted := by
    simpa using (mem_filter.mp (mem_of_mem_newest hlisted)).2
  unfold SkillCandidate.retracted
  split_ifs <;> exact ⟨rfl, rfl, fun _ => hlive⟩

theorem maybeActivated (p : SkillCandidate → Bool) (activates : Bool) :
    SkillsKept skills (update p (·.maybeActivated activates now) skills) := by
  refine of_update fun k _ => ?_
  unfold SkillCandidate.maybeActivated
  split_ifs with hc
  · exact ⟨rfl, rfl, fun _ hk => by rw [hk] at hc; cases hc.1⟩
  · exact ⟨rfl, rfl, id⟩

/-- There are no more of them. -/
theorem length_live_le (h : SkillsKept skills skills') :
    (skills'.filter (·.status ≠ .deleted)).length ≤ (skills.filter (·.status ≠ .deleted)).length := by
  induction h with
  | nil => exact le_rfl
  | @cons k k' l l' hk _ ih =>
    by_cases hk' : k'.status = .deleted
    · rw [filter_cons_of_neg (by simpa using hk')]
      exact ih.trans (List.Sublist.filter _ (sublist_cons_self _ _)).length_le
    · rw [filter_cons_of_pos (by simpa using hk'),
        filter_cons_of_pos (by simpa using hk.2.2 hk'), length_cons, length_cons]
      exact Nat.succ_le_succ ih

end SkillsKept

theorem retract_deleted {id : ℕ}
    (hlimit : (skills.filter (·.status ≠ .deleted)).length ≤ 10000) {k : SkillCandidate}
    (hk : k ∈ retractExternalEvidenceSkills id now .sourceDeleted skills) (hlive : k.status ≠ .deleted) :
    id ∉ k.sourceMemoryIds := by
  obtain ⟨k₀, hk₀, ⟨-, rfl⟩ | ⟨hp, rfl⟩⟩ := mem_update hk
  · exact absurd (by unfold SkillCandidate.retracted; simp) hlive
  · intro hid
    have hlisted : k ∈ listedSkills skills :=
      mem_newest_of_length_le hlimit (mem_filter.mpr ⟨hk₀, by simpa using hlive⟩)
    simp [hlisted, hid] at hp

theorem withdrawAll_kept (now : String) : ∀ (l : List MemoryRow) (s : Store),
    SkillsKept s.skills (l.foldl (withdrawOne now) s).skills
  | [], _ => .refl _
  | m :: l, s => (SkillsKept.retract m.id .sourceDeleted).trans
      (withdrawAll_kept now l (withdrawOne now s m))

theorem withdrawAll_deleted (now : String) : ∀ (l : List MemoryRow) (s : Store),
    (s.skills.filter (·.status ≠ .deleted)).length ≤ 10000 →
      ∀ k ∈ (l.foldl (withdrawOne now) s).skills, k.status ≠ .deleted → ∀ m ∈ l, m.id ∉ k.sourceMemoryIds
  | [], _, _, _, _, _, _, hm => by cases hm
  | x :: l, s, hlimit, k, hk, hlive, m, hm => by
    have hkept : SkillsKept s.skills (withdrawOne now s x).skills := .retract x.id .sourceDeleted
    rcases mem_cons.mp hm with rfl | hm
    · obtain ⟨k₀, hk₀, -, hids, hback⟩ := (withdrawAll_kept now l (withdrawOne now s m)).exists_old k hk
      rw [hids]
      exact retract_deleted hlimit hk₀ (hback hlive)
    · exact withdrawAll_deleted now l (withdrawOne now s x) (hkept.length_live_le.trans hlimit) k hk hlive
        m hm

theorem schedule_kept (s : Store) (m : MemoryRow) : SkillsKept s.skills (schedule reason now s m).skills := by
  rw [schedule_skills]
  exact .refl _

theorem invalidateOne_kept (s : Store) (m : MemoryRow) :
    SkillsKept s.skills (invalidateOne now s m).skills := by
  unfold invalidateOne
  rw [schedule_skills]
  exact .retract m.id .sourceUpdated

theorem foldl_kept
    (hop : ∀ s m, SkillsKept s.skills (op s m).skills) : ∀ (l : List MemoryRow) (s : Store),
      SkillsKept s.skills (l.foldl op s).skills
  | [], _ => .refl _
  | m :: l, s => (hop s m).trans (foldl_kept hop l (op s m))

theorem invalidate_kept (s : Store) :
    SkillsKept s.skills (invalidateDependentExternalEvidence s root source recordId now).skills :=
  foldl_kept invalidateOne_kept _ s

theorem foldl_nextId (hop : ∀ s m, s.nextId ≤ (op s m).nextId) :
    ∀ (l : List MemoryRow) (s : Store), s.nextId ≤ (l.foldl op s).nextId
  | [], _ => le_rfl
  | m :: l, s => (hop s m).trans (foldl_nextId hop l (op s m))

theorem le_withdrawOne_nextId (s : Store) (m : MemoryRow) : s.nextId ≤ (withdrawOne now s m).nextId := le_rfl

theorem le_withdrawAll_nextId (l : List MemoryRow) (s : Store) :
    s.nextId ≤ (l.foldl (withdrawOne now) s).nextId :=
  foldl_nextId le_withdrawOne_nextId l s

theorem le_invalidateOne_nextId (s : Store) (m : MemoryRow) : s.nextId ≤ (invalidateOne now s m).nextId :=
  le_schedule_nextId (s := { s with skills := retractExternalEvidenceSkills m.id now .sourceUpdated s.skills })

/-! ### Jobs -/

/-- Only jobs and processing states differ. -/
structure SameRows (s s' : Store) : Prop where
  observations : s'.observations = s.observations
  skills : s'.skills = s.skills
  nextId : s.nextId ≤ s'.nextId

namespace SameRows

variable {s s' s'' : Store} {job : ExtractJob}

theorem refl (s : Store) : SameRows s s := ⟨rfl, rfl, le_rfl⟩

theorem trans (h : SameRows s s') (h' : SameRows s' s'') : SameRows s s'' :=
  ⟨h'.observations.trans h.observations, h'.skills.trans h.skills, h.nextId.trans h'.nextId⟩

theorem setProcessing (id : ℕ) (row : ProcessingRow) : SameRows s (setProcessing s id row) := ⟨rfl, rfl, le_rfl⟩

theorem updateProcessing (id : ℕ) (allowed : List ProcessingState) (row : ProcessingRow) :
    SameRows s (updateProcessing s id allowed row) := by
  unfold Evidence.updateProcessing
  split_ifs
  · exact setProcessing id row
  · exact refl s

theorem completeJob (jobId : ℕ) : SameRows s (completeJob s jobId) := ⟨rfl, rfl, le_rfl⟩

theorem ofMatch (allowed : List ProcessingState) (row : ProcessingRow) :
    SameRows s (match s.get job.targetMemoryId with
      | some m => if processingJobMatchesMemory job m then
          Evidence.updateProcessing s m.id allowed row else s
      | none => s) := by
  cases s.get job.targetMemoryId with
  | none => exact refl s
  | some m =>
    simp only
    split_ifs
    · exact updateProcessing m.id allowed row
    · exact refl s

theorem markProcessingJobLeased : SameRows s (markProcessingJobLeased s job) := ofMatch _ _

theorem deferJob : SameRows s (deferJob s job) := ofMatch _ _

theorem failJob (terminal : Bool) : SameRows s (failJob s job terminal) := by
  cases terminal with
  | true => exact (completeJob job.id).trans (ofMatch _ _)
  | false => exact ofMatch _ _

theorem enqueueExtract (id : ℕ) (hash : String) (g : Generation) : SameRows s (enqueueExtract s id hash g).1 :=
  ⟨enqueueExtract_observations s id hash g, enqueueExtract_skills s id hash g,
    enqueueExtract_nextId s id hash g⟩

theorem retryProcessing (id : ℕ) : SameRows s (retryProcessing s id) := by
  unfold Evidence.retryProcessing
  cases s.get id with
  | none => exact refl s
  | some m =>
    simp only
    split_ifs
    · cases m.generation? with
      | none => exact refl s
      | some g => exact (enqueueExtract m.id m.memoryValue g).trans (setProcessing m.id _)
    · exact refl s

theorem beginExtraction (jobId : ℕ) : SameRows s (beginExtraction s jobId).1 := by
  unfold Evidence.beginExtraction
  cases s.jobs.find? fun j => j.id = jobId && j.active with
  | none => exact refl s
  | some job =>
    have hleased : SameRows s (Evidence.markProcessingJobLeased s job) := markProcessingJobLeased
    simp only
    cases (Evidence.markProcessingJobLeased s job).get job.targetMemoryId with
    | none => exact hleased.trans (completeJob job.id)
    | some m =>
      simp only
      split_ifs
      · exact hleased.trans (completeJob job.id)
      · cases parentSources _ m _ with
        | ok found => exact hleased
        | error stop =>
          cases stop with
          | dependenciesPending => exact hleased.trans deferJob
          | parentDeleted => exact hleased.trans (completeJob job.id)

end SameRows

theorem Store.get_eq_some {id : ℕ} (h : s.get id = some m) : m ∈ s.observations ∧ m.id = id ∧ m.Live := by
  have hp := find?_some h
  rw [Bool.and_eq_true] at hp
  exact ⟨mem_of_find?_eq_some h, of_decide_eq_true hp.1, of_decide_eq_true hp.2⟩

theorem le_invalidate_nextId (s : Store) :
    s.nextId ≤ (invalidateDependentExternalEvidence s root source recordId now).nextId :=
  foldl_nextId le_invalidateOne_nextId _ s

/-- **What follows an extraction that was written**: the dependent memories are scheduled. -/
theorem onProcessed_spec {activated : List ℕ} (hids : (s.observations.map (·.id)).Nodup) :
    (onProcessed s m activated now).observations =
      scheduleAll (dependents s.observations m m.evidence.source m.evidence.sourceRecordId)
        "evidence.parent_updated" now s.observations ∧
    SkillsKept s.skills (onProcessed s m activated now).skills ∧
    s.nextId ≤ (onProcessed s m activated now).nextId := by
  have hstart : ∃ s₁ : Store, s₁ = (if m.isSkipped then
      { s with skills := retractExternalEvidenceSkills m.id now .sourceUpdated s.skills } else s) ∧
      s₁.observations = s.observations ∧ SkillsKept s.skills s₁.skills ∧ s₁.nextId = s.nextId := by
    refine ⟨_, rfl, ?_⟩
    split_ifs
    · exact ⟨rfl, SkillsKept.retract m.id .sourceUpdated, rfl⟩
    · exact ⟨rfl, .refl _, rfl⟩
  obtain ⟨s₁, hs₁, hobs, hkept, hnext⟩ := hstart
  unfold onProcessed
  rw [← hs₁, invalidate_observations (hobs ▸ hids), hobs]
  exact ⟨rfl, hkept.trans ((invalidate_kept s₁).trans (SkillsKept.maybeActivated _ true)),
    hnext ▸ le_invalidate_nextId s₁⟩

end Memmy.Evidence
