import Memmy.Evidence.Writes
import Memmy.Lib.Run

/-! # Withdrawn evidence stays withdrawn

* `Respected`: no live row is of a deleted record or reaches one over its parents, no Skill names a deleted
  memory, and a live row holds the content of the newest upload of its record.
* `Admitted`: the requests are admissible, and a deletion finds no more Skills than it lists.
* `withdrawn_stays`: a run whose steps are admitted keeps `Respected`.
* `twoNames_hide`: a record stored under both names of Computer History outlives its deletion. -/

namespace Memmy.Evidence

open Relation Lib.Rows Lib.Run List

/-! ### The property -/

/-- A row of the record `k` names `k'` as a parent. -/
def ParentOf (rows : List MemoryRow) (k k' : EvidenceKey) : Prop :=
  ∃ m ∈ rows, m.sourceKey = k ∧ ∃ p ∈ m.evidence.parentSourceRecordIds,
    k' = externalEvidenceMemoryKey m.evidence.owner m.evidence.source p

structure Respected (w : World) : Prop where
  /-- A deleted record is not live. -/
  gone : ∀ m ∈ w.store.observations, m.Live → m.sourceKey ∉ w.withdrawnKeys
  /-- No live memory reaches a deleted record. -/
  ancestors : ∀ m ∈ w.store.observations, m.Live → ∀ k,
    TransGen (ParentOf w.store.observations) m.sourceKey k → k ∉ w.withdrawnKeys
  /-- No Skill names a deleted memory. -/
  skills : ∀ k ∈ w.store.skills, k.status ≠ .deleted → ∀ m ∈ w.store.observations,
    m.id ∈ k.sourceMemoryIds → m.Live
  /-- The newest upload of a record is stored. -/
  newest : ∀ m ∈ w.store.observations, m.Live →
    (∃ u ∈ w.received, u.1.key = m.sourceKey ∧ u.1.revision = m.evidence.revision ∧ Stored u.2 m) ∧
      ∀ u ∈ w.received, u.1.key = m.sourceKey → u.1.revision ≤ m.evidence.revision

/-- The Skills that are there are no more than a retraction lists. -/
def AllListed (s : Store) : Prop := (s.skills.filter (·.status ≠ .deleted)).length ≤ 10000

/-- **The steps under which evidence stays withdrawn.** -/
def Admitted (w : World) : Event → Prop
  | .sync r _ => Admissible w.store.observations r ∧ AllListed w.store
  | .deleteMemory _ _ => AllListed w.store
  | _ => True

/-! ### The invariant -/

/-- `exempt` are rows that no upload has written. -/
structure Inv (exempt : List ℕ) (s : Store) (gone : List EvidenceKey)
    (received : List (SyncRequest × Upload)) : Prop where
  tidy : Tidy s.observations
  fresh : ∀ m ∈ s.observations, m.id < s.nextId
  gone : ∀ k ∈ gone, ∃ m ∈ s.observations, m.record = canonical k ∧ m.status = .deleted
  parents : ∀ m ∈ s.observations, m.Live → ∀ p ∈ m.evidence.parentSourceRecordIds,
    ∀ d ∈ s.observations, d.status = .deleted → d.record ≠ m.parent p
  skills : ∀ k ∈ s.skills, k.status ≠ .deleted → ∀ id ∈ k.sourceMemoryIds,
    ∃ m ∈ s.observations, m.id = id ∧ m.Live
  stored : ∀ m ∈ s.observations, m.Live → m.id ∉ exempt →
    ∃ u ∈ received, u.1.key = m.sourceKey ∧ u.1.revision = m.evidence.revision ∧ Stored u.2 m
  newest : ∀ u ∈ received, ∃ m ∈ s.observations, m.record = canonical u.1.key ∧
    (m.Live → u.1.revision ≤ m.evidence.revision)

variable {s s' : Store} {gone : List EvidenceKey} {received : List (SyncRequest × Upload)}
  {m m' root : MemoryRow} {r : SyncRequest} {u : Upload} {source recordId now reason p : String}
  {exempt : List ℕ} {rows : List MemoryRow}

theorem Inv.exempted (h : Inv [] s gone received) : Inv exempt s gone received :=
  { h with stored := fun m hm hlive _ => h.stored m hm hlive not_mem_nil }

theorem Inv.noted (h : Inv exempt s gone received) {keys : List EvidenceKey}
    (hkeys : ∀ k ∈ keys, ∃ m ∈ s.observations, m.record = canonical k ∧ m.status = .deleted) :
    Inv exempt s (gone ++ keys) received :=
  { h with gone := fun k hk => (mem_append.mp hk).elim (h.gone k) (hkeys k) }

/-! ### Steps that withdraw nothing -/

/-- The row is about the same record, as live, and holds the same upload. -/
structure Kept (m m' : MemoryRow) : Prop where
  origin : SameOrigin m m'
  live : m'.Live ↔ m.Live
  stored : ∀ u, Stored u m → Stored u m'

theorem Kept.refl (m : MemoryRow) : Kept m m := ⟨.refl m, Iff.rfl, fun _ => id⟩

theorem Kept.trans {m'' : MemoryRow} (h : Kept m m') (h' : Kept m' m'') : Kept m m'' :=
  ⟨h.origin.trans h'.origin, h'.live.trans h.live, fun u hu => h'.stored u (h.stored u hu)⟩

theorem kept_scheduled (hlive : m.Live) : Kept m (m.scheduled reason now) where
  origin := .scheduled m
  live := iff_of_true (by unfold MemoryRow.Live MemoryRow.scheduled; simp) hlive
  stored := fun u hu => by
    have hcontent : m.evidence.sourceContent ≠ "" := hu.content ▸ u.content_ne
    have htitle : m.evidence.sourceTitle ≠ "" := hu.title ▸ u.title_ne
    have hsummary : m.evidence.sourceSummary ≠ "" := hu.summary ▸ u.summary_ne
    exact ⟨(if_pos hcontent).trans hu.content, (if_pos htitle).trans hu.title,
      (if_pos hsummary).trans hu.summary, hu.startedAt, hu.endedAt, hu.parents⟩

theorem kept_extracted (hlive : m.Live) (outcome : ModelOutcome) : Kept m (m.extracted outcome now) where
  origin := .extracted m outcome
  live := iff_of_true (by cases outcome <;> simp_all [MemoryRow.Live, MemoryRow.extracted]) hlive
  stored := fun u hu => by
    cases outcome <;>
      exact ⟨hu.content, hu.title, hu.summary, hu.startedAt, hu.endedAt, hu.parents⟩

theorem kept_scheduleAll {l : List MemoryRow} (hl : ∀ m ∈ l, m.Live) :
    Changed Kept rows (scheduleAll l reason now rows) :=
  changed_map fun m _ => by
    split_ifs with hm
    · exact kept_scheduled (hl m hm)
    · exact .refl m

theorem inv_quiet (h : Inv exempt s gone received) (hrows : Changed Kept s.observations s'.observations)
    (hskills : SkillsKept s.skills s'.skills) (hnext : s.nextId ≤ s'.nextId) :
    Inv exempt s' gone received where
  tidy := h.tidy.of_sameOrigin (hrows.imp fun _ _ hk => hk.origin)
  fresh := fun m' hm' => by
    obtain ⟨m, hm, hk⟩ := hrows.exists_old m' hm'
    exact hk.origin.id ▸ lt_of_lt_of_le (h.fresh m hm) hnext
  gone := fun k hk => by
    obtain ⟨m, hm, hrecord, hdeleted⟩ := h.gone k hk
    obtain ⟨m', hm', hkept⟩ := hrows.exists_new m hm
    exact ⟨m', hm', hkept.origin.record.trans hrecord, not_not.mp fun hlive => hkept.live.mp hlive hdeleted⟩
  parents := fun m' hm' hlive p hp d' hd' hdeleted => by
    obtain ⟨m, hm, hk⟩ := hrows.exists_old m' hm'
    obtain ⟨d, hd, hkd⟩ := hrows.exists_old d' hd'
    rw [hkd.origin.record, hk.origin.parent]
    exact h.parents m hm (hk.live.mp hlive) p (hk.origin.parents ▸ hp) d hd
      (not_not.mp fun hdead => hkd.live.mpr hdead hdeleted)
  skills := fun k' hk' hlive id hid => by
    obtain ⟨k, hk, -, hids, hback⟩ := hskills.exists_old k' hk'
    obtain ⟨m, hm, hmid, hmlive⟩ := h.skills k hk (hback hlive) id (hids ▸ hid)
    obtain ⟨m', hm', hkept⟩ := hrows.exists_new m hm
    exact ⟨m', hm', hkept.origin.id.trans hmid, hkept.live.mpr hmlive⟩
  stored := fun m' hm' hlive hid => by
    obtain ⟨m, hm, hk⟩ := hrows.exists_old m' hm'
    obtain ⟨u, hu, hkey, hrevision, hstored⟩ := h.stored m hm (hk.live.mp hlive) (hk.origin.id ▸ hid)
    exact ⟨u, hu, hkey.trans hk.origin.sourceKey.symm, hrevision.trans hk.origin.revision.symm,
      hk.stored u.2 hstored⟩
  newest := fun u hu => by
    obtain ⟨m, hm, hrecord, hle⟩ := h.newest u hu
    obtain ⟨m', hm', hk⟩ := hrows.exists_new m hm
    exact ⟨m', hm', hk.origin.record.trans hrecord, fun hlive =>
      hk.origin.revision ▸ hle (hk.live.mp hlive)⟩

theorem inv_invalidate (h : Inv exempt s gone received) :
    Inv exempt (invalidateDependentExternalEvidence s root source recordId now) gone received := by
  refine inv_quiet h ?_ (invalidate_kept s) (foldl_nextId le_invalidateOne_nextId _ _)
  rw [invalidate_observations h.tidy.ids]
  exact kept_scheduleAll fun m hm => (mem_of_mem_dependents hm).2.1

theorem inv_schedule (h : Inv exempt s gone received) (hm : m ∈ s.observations) (hlive : m.Live) :
    Inv exempt (schedule reason now s m) gone received := by
  refine inv_quiet h ?_ (schedule_kept s m) le_schedule_nextId
  rw [schedule_observations hlive]
  refine changed_update (fun x hx hid => ?_) fun x _ _ => .refl x
  rw [h.tidy.eq_of_id hx hm (by simpa using hid)]
  exact kept_scheduled hlive

/-! ### Withdrawing -/

theorem mem_of_mem_dependents_after (hm : m ∈ dependents (withdrawAll [root.id] now rows) root source recordId) :
    m ∈ rows ∧ m.Live ∧ m.id ≠ root.id := by
  obtain ⟨hmem, hlive, hne⟩ := mem_of_mem_dependents hm
  obtain ⟨x, hx, -, hsame, -⟩ := mem_withdrawAll hmem
  exact ⟨(hsame hlive).1 ▸ hx, hlive, hne⟩

/-- The walk that follows the deletion of the root misses no dependent memory. -/
theorem dependents_after_closed (h : Tidy rows) (hroot : root ∈ rows) (hrootLive : root.Live)
    (hrecord : root.record = recordOf root.evidence.owner source recordId) (hm : m ∈ rows) (hlive : m.Live)
    (hne : m.id ≠ root.id) (hp : p ∈ m.evidence.parentSourceRecordIds)
    (hparent : m.parent p = root.record ∨
      ∃ x ∈ dependents (withdrawAll [root.id] now rows) root source recordId, m.parent p = x.record) :
    m ∈ dependents (withdrawAll [root.id] now rows) root source recordId := by
  have htidy : Tidy (withdrawAll [root.id] now rows) := h.of_sameOrigin (changed_withdrawAll [root.id])
  have hroot' : root.withdrawn now ∈ withdrawAll [root.id] now rows :=
    mem_map.mpr ⟨root, hroot, if_pos ⟨hrootLive, mem_cons_self⟩⟩
  have hm' : m ∈ withdrawAll [root.id] now rows :=
    mem_map.mpr ⟨m, hm, if_neg fun hc => hne (mem_singleton.mp hc.2)⟩
  -- the walk reads of the root only what its deletion keeps
  have hsame : dependents (withdrawAll [root.id] now rows) root source recordId =
      dependents (withdrawAll [root.id] now rows) (root.withdrawn now) source recordId := rfl
  rw [hsame] at hparent ⊢
  exact dependents_closed htidy hroot' hm' hlive hne hp (hparent.imp (fun heq => heq.trans hrecord) id)

theorem inv_withdraw (h : Inv [root.id] s gone received) (hroot : root ∈ s.observations)
    (hrootLive : root.Live) (hrecord : root.record = recordOf root.evidence.owner source recordId)
    (hlisted : AllListed s) :
    Inv [] (retractDependentExternalEvidence (withdrawOne now s root) root source recordId now) gone
      received ∧
    ∃ d ∈ (retractDependentExternalEvidence (withdrawOne now s root) root source recordId now).observations,
      d.record = root.record ∧ d.status = .deleted := by
  have hfirst : (withdrawOne now s root).observations = withdrawAll [root.id] now s.observations :=
    withdrawAll_observations now [root] s
  unfold retractDependentExternalEvidence
  rw [hfirst]
  have hrest : ∃ l, l = dependents (withdrawAll [root.id] now s.observations) root source recordId := ⟨_, rfl⟩
  obtain ⟨l, hl⟩ := hrest
  rw [← hl]
  have hfold : l.foldl (withdrawOne now) (withdrawOne now s root) =
      (root :: l).foldl (withdrawOne now) s := rfl
  rw [hfold]
  have hobs := withdrawAll_observations now (root :: l) s
  have hkept := withdrawAll_kept now (root :: l) s
  have hdead := withdrawAll_deleted now (root :: l) s hlisted
  have hnext : s.nextId ≤ ((root :: l).foldl (withdrawOne now) s).nextId := le_withdrawAll_nextId (root :: l) s
  generalize (root :: l).foldl (withdrawOne now) s = s' at hobs hkept hdead hnext ⊢
  have hrows : Changed SameOrigin s.observations s'.observations := hobs ▸ changed_withdrawAll _
  have hdeleted : ∀ m ∈ s.observations, m.id ∈ (root :: l).map (·.id) ∨ ¬ m.Live →
      ∃ m' ∈ s'.observations, SameOrigin m m' ∧ m'.status = .deleted := fun m hm hid =>
    hobs ▸ deleted_withdrawAll hm hid
  have hleft : ∀ m' ∈ s'.observations, m'.Live → m' ∈ s.observations ∧ m'.id ≠ root.id ∧ m' ∉ l := by
    intro m' hm' hlive
    obtain ⟨m, hm, -, hsame, -⟩ := mem_withdrawAll (hobs ▸ hm')
    obtain ⟨rfl, hout⟩ := hsame hlive
    rw [map_cons, mem_cons, not_or] at hout
    exact ⟨hm, hout.1, fun hin => hout.2 (mem_map_of_mem hin)⟩
  refine ⟨⟨h.tidy.of_sameOrigin hrows, ?_, ?_, ?_, ?_, ?_, ?_⟩, ?_⟩
  · intro m' hm'
    obtain ⟨m, hm, hsame⟩ := hrows.exists_old m' hm'
    exact hsame.id ▸ lt_of_lt_of_le (h.fresh m hm) hnext
  · intro k hk
    obtain ⟨m, hm, hrec, hd⟩ := h.gone k hk
    obtain ⟨m', hm', hsame, hd'⟩ := hdeleted m hm (Or.inr (not_not_intro hd))
    exact ⟨m', hm', hsame.record.trans hrec, hd'⟩
  · -- a live row with a withdrawn parent would have been visited by the walk
    intro m hm hlive p hp d' hd' hdd heq
    obtain ⟨hmOld, hne, hout⟩ := hleft m hm hlive
    obtain ⟨d, hd, hsame, -, hdlive⟩ := mem_withdrawAll (hobs ▸ hd')
    rw [hsame.record] at heq
    have hdLive : d.Live := fun hstatus => h.parents m hmOld hlive p hp d hd hstatus heq
    have hdin : d.id ∈ (root :: l).map (·.id) := by
      by_contra hdout
      exact hdlive hdLive hdout hdd
    refine hout (hl ▸ dependents_after_closed h.tidy hroot hrootLive hrecord hmOld hlive hne hp ?_)
    rw [map_cons, mem_cons] at hdin
    rcases hdin with hid | hid
    · exact Or.inl (h.tidy.eq_of_id hd hroot hid ▸ heq.symm)
    · obtain ⟨x, hx, hxid⟩ := mem_map.mp hid
      have hxOld := (mem_of_mem_dependents_after (hl ▸ hx)).1
      exact Or.inr ⟨x, hl ▸ hx, (h.tidy.eq_of_id hd hxOld hxid.symm) ▸ heq.symm⟩
  · intro k' hk' hlive id hid
    obtain ⟨k, hk, -, hids, hback⟩ := hkept.exists_old k' hk'
    obtain ⟨m, hm, hmid, hmlive⟩ := h.skills k hk (hback hlive) id (hids ▸ hid)
    obtain ⟨m', hm', hsame⟩ := hrows.exists_new m hm
    refine ⟨m', hm', hsame.id.trans hmid, fun hd => ?_⟩
    by_cases hin : m.id ∈ (root :: l).map (·.id)
    · obtain ⟨x, hx, hxid⟩ := mem_map.mp hin
      exact hdead k' hk' hlive x hx (hxid.trans hmid ▸ hid)
    · have hm'' : m ∈ s'.observations := by
        rw [hobs]
        exact mem_map.mpr ⟨m, hm, if_neg fun hc => hin hc.2⟩
      have htidy : Tidy s'.observations := h.tidy.of_sameOrigin hrows
      exact hmlive (htidy.eq_of_id hm' hm'' hsame.id ▸ hd)
  · intro m hm hlive _
    obtain ⟨hmOld, hne, -⟩ := hleft m hm hlive
    exact h.stored m hmOld hlive (by simpa using hne)
  · intro u hu
    obtain ⟨m, hm, hrec, hle⟩ := h.newest u hu
    obtain ⟨m', hm', hsame⟩ := hrows.exists_new m hm
    refine ⟨m', hm', hsame.record.trans hrec, fun hlive => ?_⟩
    obtain ⟨hmOld, -, -⟩ := hleft m' hm' hlive
    exact hle (h.tidy.eq_of_id hmOld hm hsame.id ▸ hlive) |>.trans_eq hsame.revision.symm
  · obtain ⟨m', hm', hsame, hd⟩ := hdeleted root hroot (Or.inl mem_cons_self)
    exact ⟨m', hm', hsame.record, hd⟩

/-! ### Uploads -/

variable {key : EvidenceKey} {x : MemoryRow} {w : World}

/-- **An upload is written.** -/
theorem inv_write (h : Inv [] s gone received) (hw : Writable s.observations r u x)
    (hx : Written r u x) (hmem : ∀ y ∈ s'.observations, y = x ∨ y ∈ s.observations ∧ y.id ≠ x.id)
    (hnew : x ∈ s'.observations) (hother : ∀ y ∈ s.observations, y.id ≠ x.id → y ∈ s'.observations)
    (htidy : Tidy s'.observations) (hskills : s'.skills = s.skills) (hnext : s.nextId ≤ s'.nextId)
    (hfresh : x.id < s'.nextId) : Inv [] s' gone (received ++ [(r, u)]) where
  tidy := htidy
  fresh := fun y hy => (hmem y hy).elim (fun he => he ▸ hfresh) fun hy =>
    lt_of_lt_of_le (h.fresh y hy.1) hnext
  gone := fun k hk => by
    obtain ⟨m, hm, hrecord, hdeleted⟩ := h.gone k hk
    exact ⟨m, hother m hm fun hid => (hw.old m hm hid).1 hdeleted, hrecord, hdeleted⟩
  parents := fun m hm hlive p hp d hd hdeleted => by
    have hd' : d ∈ s.observations := by
      rcases hmem d hd with rfl | hd
      · exact absurd hdeleted hw.live
      · exact hd.1
    rcases hmem m hm with rfl | hm
    · unfold MemoryRow.parent
      rw [hx.owner, hx.source]
      exact hw.parents p (hx.stored.parents ▸ hp) d hd' hdeleted
    · exact h.parents m hm.1 hlive p hp d hd' hdeleted
  skills := fun k hk hlive id hid => by
    obtain ⟨m, hm, hmid, hmlive⟩ := h.skills k (hskills ▸ hk) hlive id hid
    by_cases hxid : m.id = x.id
    · exact ⟨x, hnew, hxid.symm.trans hmid, hw.live⟩
    · exact ⟨m, hother m hm hxid, hmid, hmlive⟩
  stored := fun m hm hlive _ => by
    rcases hmem m hm with rfl | hm
    · exact ⟨(r, u), mem_append_right _ mem_cons_self, hx.sourceKey.symm, hx.revision.symm, hx.stored⟩
    · obtain ⟨v, hv, hrest⟩ := h.stored m hm.1 hlive not_mem_nil
      exact ⟨v, mem_append_left _ hv, hrest⟩
  newest := fun v hv => by
    have hxrecord : x.record = canonical r.key := congrArg canonical hx.sourceKey
    rcases mem_append.mp hv with hv | hv
    · obtain ⟨m, hm, hrecord, hle⟩ := h.newest v hv
      by_cases hxid : m.id = x.id
      · obtain ⟨hmlive, hmrecord, hrev⟩ := hw.old m hm hxid
        exact ⟨x, hnew, hxrecord.trans (hmrecord.symm.trans hrecord),
          fun _ => hx.revision ▸ (hle hmlive).trans hrev⟩
      · exact ⟨m, hother m hm hxid, hrecord, hle⟩
    · rw [mem_singleton.mp hv]
      exact ⟨x, hnew, hxrecord, fun _ => hx.revision.ge⟩

/-- An upload over the row of its record. -/
theorem inv_put (h : Inv [] s gone received) (hw : Writable s.observations r u x)
    (hx : Written r u x) (hm : m ∈ s.observations) (hid : x.id = m.id) :
    Inv [] { s with observations := put x s.observations } gone (received ++ [(r, u)]) := by
  have htidy := tidy_put h.tidy hw hx
  refine inv_write h hw hx (fun y hy => ?_) ?_ (fun y hy hne => ?_) htidy rfl le_rfl (hid ▸ h.fresh m hm)
  · obtain ⟨y₀, hy₀, ⟨-, rfl⟩ | ⟨hp, rfl⟩⟩ := mem_update hy
    · exact Or.inl rfl
    · exact Or.inr ⟨hy₀, by simpa using hp⟩
  · exact mem_map.mpr ⟨m, hm, if_pos (by simpa using hid.symm)⟩
  · exact mem_map.mpr ⟨y, hy, if_neg (by simpa using hne)⟩

theorem inv_insert (h : Inv [] s gone received) (hw : Writable s.observations r u x)
    (hx : Written r u x) (hid : x.id = s.nextId) (hnone : ∀ y ∈ s.observations, y.record ≠ canonical r.key) :
    Inv [] (s.insert x) gone (received ++ [(r, u)]) := by
  have hfresh : ∀ y ∈ s.observations, y.id ≠ x.id := fun y hy => hid ▸ (h.fresh y hy).ne
  refine inv_write h hw hx (fun y hy => ?_) (mem_append_right _ mem_cons_self)
    (fun y hy _ => mem_append_left _ hy) (tidy_insert h.tidy hw hx hfresh hnone) rfl
    (Nat.le_succ _) (hid ▸ Nat.lt_succ_self _)
  rcases mem_append.mp hy with hy | hy
  · exact Or.inr ⟨hy, hfresh y hy⟩
  · exact Or.inl (mem_singleton.mp hy)

/-- An upload that is not written: the record has a row that is deleted, or not older. -/
theorem Inv.receive (h : Inv exempt s gone received) (hm : m ∈ s.observations)
    (hrecord : m.record = canonical r.key) (hle : m.Live → r.revision ≤ m.evidence.revision) :
    Inv exempt s gone (received ++ [(r, u)]) :=
  { h with
    stored := fun m hm hlive hid => by
      obtain ⟨v, hv, hrest⟩ := h.stored m hm hlive hid
      exact ⟨v, mem_append_left _ hv, hrest⟩
    newest := fun v hv => by
      rcases mem_append.mp hv with hv | hv
      · exact h.newest v hv
      · rw [mem_singleton.mp hv]
        exact ⟨m, hm, hrecord, hle⟩ }

theorem Inv.skillsKept {skills : List SkillCandidate} (h : Inv exempt s gone received)
    (hkept : SkillsKept s.skills skills) : Inv exempt { s with skills := skills } gone received :=
  inv_quiet h (Changed.refl fun m _ => Kept.refl m) hkept le_rfl

theorem inv_saved (h : Inv exempt s gone received) (hx : x ∈ s.observations)
    (hlive : x.Live) : Inv exempt (invalidateDependentExternalEvidence
      (schedule "evidence.sync" now
        { s with skills := retractExternalEvidenceSkills x.id now .sourceUpdated s.skills } x)
      root source recordId now) gone received := by
  have hretract : Inv exempt
      { s with skills := retractExternalEvidenceSkills x.id now .sourceUpdated s.skills } gone received :=
    h.skillsKept (.retract x.id .sourceUpdated)
  exact inv_invalidate (inv_schedule hretract hx hlive)

theorem inv_saveUpload_some (h : Inv [] s gone received) (hm : m ∈ s.observations)
    (hw : Writable s.observations r u (uploadedRow s key (some m) r u)) :
    Inv [] (saveUpload s key (some m) r u now).1 gone (received ++ [(r, u)]) := by
  have hput := inv_put h hw (written_uploadedRow s _ (some m) r u) hm rfl
  exact inv_saved hput (mem_map.mpr ⟨m, hm, if_pos (by simp [uploadedRow])⟩) hw.live

theorem inv_saveUpload_none (h : Inv [] s gone received)
    (hw : Writable s.observations r u (uploadedRow s key none r u))
    (hnone : ∀ y ∈ s.observations, y.record ≠ canonical r.key) :
    Inv [] (saveUpload s key none r u now).1 gone (received ++ [(r, u)]) := by
  have hinsert := inv_insert h hw (written_uploadedRow s key none r u) rfl hnone
  exact inv_saved hinsert (mem_append_right _ mem_cons_self) hw.live

/-! ### Deletions -/

/-- The tombstone of an unknown record, before it is deleted. -/
theorem inv_placeholder (h : Inv [] s gone received) (hr : Admissible s.observations r) (hkey : key = r.key)
    (hnone : ∀ y ∈ s.observations, y.record ≠ canonical r.key) :
    Inv [s.nextId] (s.insert (placeholder s.nextId key r now)) gone received := by
  have hfresh : ∀ y ∈ s.observations, y.id ≠ s.nextId := fun y hy => (h.fresh y hy).ne
  have hmem : ∀ y ∈ (s.insert (placeholder s.nextId key r now)).observations,
      y ∈ s.observations ∨ y = placeholder s.nextId key r now := fun y hy =>
    (mem_append.mp hy).imp id mem_singleton.mp
  have hold : ∀ y ∈ s.observations, y ∈ (s.insert (placeholder s.nextId key r now)).observations :=
    fun y hy => mem_append_left _ hy
  have hlive : (placeholder s.nextId key r now).Live := by simp [placeholder, MemoryRow.Live]
  refine ⟨tidy_placeholder h.tidy hr hkey hfresh hnone, ?_, ?_, ?_, ?_, ?_, ?_⟩
  · exact fun y hy => (hmem y hy).elim (fun hy => (h.fresh y hy).trans (Nat.lt_succ_self _))
      fun he => by rw [he]; exact Nat.lt_succ_self _
  · intro k hk
    obtain ⟨y, hy, hrest⟩ := h.gone k hk
    exact ⟨y, hold y hy, hrest⟩
  · intro y hy hylive p hp d hd hdeleted
    rcases hmem y hy with hy | rfl
    · rcases hmem d hd with hd | rfl
      · exact h.parents y hy hylive p hp d hd hdeleted
      · exact absurd hdeleted hlive
    · exact absurd hp not_mem_nil
  · intro k hk hklive id hid
    obtain ⟨y, hy, hrest⟩ := h.skills k hk hklive id hid
    exact ⟨y, hold y hy, hrest⟩
  · intro y hy hylive hid
    rcases hmem y hy with hy | rfl
    · exact h.stored y hy hylive not_mem_nil
    · exact absurd mem_cons_self hid
  · intro v hv
    obtain ⟨y, hy, hrest⟩ := h.newest v hv
    exact ⟨y, hold y hy, hrest⟩

theorem inv_withdraw_none (h : Inv [] s gone received)
    (hr : Admissible s.observations r) (hlisted : AllListed s) (hkey : key = r.key)
    (hnone : ∀ y ∈ s.observations, y.record ≠ canonical r.key) :
    Inv [] (withdraw s key none r now).1 gone received ∧
      ∃ d ∈ (withdraw s key none r now).1.observations, d.record = canonical r.key ∧ d.status = .deleted :=
  have hplaced := inv_placeholder h hr hkey hnone
  inv_withdraw hplaced (mem_append_right _ mem_cons_self) (by simp [placeholder, MemoryRow.Live]) rfl hlisted

theorem inv_withdraw_some (h : Inv [] s gone received) (hlisted : AllListed s)
    (hm : m ∈ s.observations) (hlive : m.Live) (hrecord : m.record = canonical r.key) :
    Inv [] (withdraw s key (some m) r now).1 gone received ∧
      ∃ d ∈ (withdraw s key (some m) r now).1.observations, d.record = canonical r.key ∧
        d.status = .deleted := by
  have hscope : SameScope m.evidence.owner r.owner := (recordOf_eq hrecord).1
  have hroot : m.record = recordOf m.evidence.owner r.source r.sourceRecordId :=
    hrecord.trans (recordOf_congr hscope.symm)
  have hwithdrawn := @inv_withdraw _ _ _ _ _ _ now h.exempted hm hlive hroot hlisted
  obtain ⟨hinv, y, hy, hyrecord, hdeleted⟩ := hwithdrawn
  exact ⟨hinv, y, hy, hyrecord.trans hrecord, hdeleted⟩

/-! ### The calls -/

theorem upserted (hu : r.action = .upsert u) (h : Inv [] s' gone (received ++ [(r, u)])) :
    (∀ u, r.action = .upsert u → Inv [] s' gone (received ++ [(r, u)])) ∧
    (r.action = .delete → Inv [] s' gone received ∧
      ∃ d ∈ s'.observations, d.record = canonical r.key ∧ d.status = .deleted) := by
  rw [hu]
  exact ⟨fun _ hv => SyncAction.upsert.inj hv ▸ h, fun hd => nomatch hd⟩

theorem inv_sync (h : Inv [] s gone received) (hr : Admissible s.observations r) (hlisted : AllListed s) :
    (∀ u, r.action = .upsert u →
      Inv [] (syncExternalEvidence s r now).1 gone (received ++ [(r, u)])) ∧
    (r.action = .delete → Inv [] (syncExternalEvidence s r now).1 gone received ∧
      ∃ d ∈ (syncExternalEvidence s r now).1.observations, d.record = canonical r.key ∧
        d.status = .deleted) := by
  have hcase : Synced s r now (syncExternalEvidence s r now).1 := synced h.tidy h.fresh hr
  generalize (syncExternalEvidence s r now).1 = s' at hcase ⊢
  cases hcase with
  | duplicate hm hrecord hle =>
    refine ⟨fun u _ => h.receive hm hrecord fun hlive => (hle hlive).choose_spec.2, fun hd => ⟨h, _, hm,
      hrecord, not_not.mp fun hlive => ?_⟩⟩
    obtain ⟨u, hu, -⟩ := hle hlive
    rw [hd] at hu
    cases hu
  | buried hkey hnone =>
    obtain ⟨hinv, y, hy, hyrecord, hdeleted⟩ := inv_withdraw_none h hr hlisted hkey hnone
    exact ⟨fun u _ => hinv.receive hy hyrecord fun hlive => absurd hdeleted hlive,
      fun _ => ⟨hinv, y, hy, hyrecord, hdeleted⟩⟩
  | withdrawn hm hlive hrecord =>
    obtain ⟨hinv, y, hy, hyrecord, hdeleted⟩ := inv_withdraw_some h hlisted hm hlive hrecord
    exact ⟨fun u _ => hinv.receive hy hyrecord fun hlive => absurd hdeleted hlive,
      fun _ => ⟨hinv, y, hy, hyrecord, hdeleted⟩⟩
  | inserted hw hnone => exact upserted hw.action (inv_saveUpload_none h hw hnone)
  | saved hm hw => exact upserted hw.action (inv_saveUpload_some h hm hw)
  | revised hm hfind hsame hw =>
    have hid := (recordOf_eq (h.tidy.lookup_eq_some hfind).2).2.1
    exact upserted hw.action (inv_put h hw (written_revised hid hsame) hm rfl)

theorem inv_sameRows (h : Inv exempt s gone received) (hrows : SameRows s s') :
    Inv exempt s' gone received :=
  inv_quiet h (hrows.observations ▸ Changed.refl fun m _ => Kept.refl m)
    (hrows.skills ▸ SkillsKept.refl _) hrows.nextId

theorem inv_deleteMemory (h : Inv [] s gone received) (hlisted : AllListed s) (id : ℕ) :
    Inv [] (deleteMemory s id now) gone received := by
  unfold deleteMemory
  cases hget : s.get id with
  | some m =>
    obtain ⟨hm, -, hlive⟩ := Store.get_eq_some hget
    exact (inv_withdraw h.exempted hm hlive rfl hlisted).1
  | none =>
    refine h.skillsKept (SkillsKept.of_update fun k hk => ⟨rfl, rfl, fun _ hd => ?_⟩)
    simp [hd] at hk

theorem inv_beginSuggestion (h : Inv [] s gone received) (q : SuggestionRequest) (activates : Bool) :
    Inv [] (beginSuggestion s q activates now).1 gone received := by
  unfold beginSuggestion
  simp only
  split_ifs
  · exact h
  · exact h
  · split
    · split_ifs
      · exact h
      · exact h.skillsKept (SkillsKept.maybeActivated _ activates)
    · exact h

/-- A new Skill names memories that are live. -/
theorem inv_finishSuggestion (h : Inv [] s gone received) (g : Suggestion) (selected : List String)
    (activates : Bool) : Inv [] (finishSuggestion s g selected activates now) gone received := by
  unfold finishSuggestion
  split
  · split_ifs
    · exact h
    · exact h.skillsKept (SkillsKept.maybeActivated _ activates)
  split_ifs with hchanged
  · exact h
  have hlive : ∀ m ∈ g.sources, ∃ x ∈ s.observations, x.id = m.id ∧ x.Live := by
    intro m hm
    have hsame : sourceChanged s m = false := by
      by_contra hc
      exact hchanged (any_eq_true.mpr ⟨m, hm, by simpa using hc⟩)
    unfold sourceChanged at hsame
    cases hget : s.get m.id with
    | none =>
      rw [hget] at hsame
      cases hsame
    | some x => exact ⟨x, Store.get_eq_some hget⟩
  refine { h with
    fresh := fun m hm => (h.fresh m hm).trans (Nat.lt_succ_self _)
    skills := fun k hk hklive id hid => ?_ }
  rcases mem_append.mp hk with hk | hk
  · exact h.skills k hk hklive id hid
  · rw [mem_singleton.mp hk] at hid
    obtain ⟨m, hm, rfl⟩ := mem_map.mp hid
    exact hlive m hm

theorem kept_put_extracted (h : Tidy rows) (hm : m ∈ rows) (hlive : m.Live) (outcome : ModelOutcome) :
    Changed Kept rows (put (m.extracted outcome now) rows) :=
  changed_put h hm (SameOrigin.extracted m outcome).id .refl (kept_extracted hlive outcome)

theorem inv_finishExtraction (h : Inv [] s gone received) (x : Extraction) (outcome : ModelOutcome)
    (activated : List ℕ) : Inv [] (finishExtraction s x outcome activated now) gone received := by
  rcases finishExtraction_spec h.tidy x outcome activated with
    ⟨hsame, -⟩ | ⟨m, hfin, -, hobs, hskills, hnext⟩
  · exact inv_sameRows h hsame
  obtain ⟨hm, hlive, -⟩ := finishable_some hfin
  refine inv_quiet h ?_ hskills hnext
  rw [hobs]
  exact Changed.trans (R := Kept) (fun _ _ _ hab hbc => Kept.trans hab hbc)
    (kept_put_extracted h.tidy hm hlive outcome)
    (kept_scheduleAll fun y hy => (mem_of_mem_dependents hy).2.1)

theorem inv_backfill (h : Inv [] s gone received) (limit : ℕ) :
    Inv [] (backfill s limit now) gone received := by
  obtain ⟨hobs, hnext⟩ := backfill_observations h.tidy limit
  refine inv_quiet h ?_ (foldl_kept schedule_kept _ s) hnext
  rw [hobs]
  exact kept_scheduleAll fun m hm => (mem_listUnprocessed hm).2.1

/-! ### Runs -/

/-- An event that is no call of `syncExternalEvidence`. -/
theorem inv_otherEvent {e : Event} (hdeletions : requestedDeletions e = [])
    (huploads : receivedUploads e = []) (h : Inv [] (act w e).store w.withdrawnKeys w.received) :
    Inv [] (act w e).store w.withdrawnKeys (w.received ++ receivedUploads e) ∧
      ∀ k ∈ requestedDeletions e, ∃ d ∈ (act w e).store.observations, d.record = canonical k ∧
        d.status = .deleted := by
  rw [hdeletions, huploads, append_nil]
  exact ⟨h, nofun⟩

theorem inv_act (h : Inv [] w.store w.withdrawnKeys w.received) (e : Event)
    (ha : Admitted w e) : Inv [] (act w e).store w.withdrawnKeys (w.received ++ receivedUploads e) ∧
      ∀ k ∈ requestedDeletions e, ∃ d ∈ (act w e).store.observations, d.record = canonical k ∧
        d.status = .deleted := by
  cases e with
  | sync r now =>
    have hcall := @inv_sync _ _ _ _ now h ha.1 ha.2
    obtain ⟨owner, source, sourceRecordId, revision, action⟩ := r
    cases action with
    | upsert u => exact ⟨hcall.1 u rfl, nofun⟩
    | delete =>
      obtain ⟨hinv, hleft⟩ := hcall.2 rfl
      refine ⟨by rw [receivedUploads, append_nil]; exact hinv, fun k hk => ?_⟩
      rw [mem_singleton.mp hk]
      exact hleft
  | deleteMemory id now => exact inv_otherEvent rfl rfl (inv_deleteMemory h ha id)
  | beginSuggestion q activates now => exact inv_otherEvent rfl rfl (inv_beginSuggestion h q activates)
  | finishSuggestion i selected activates now =>
    refine inv_otherEvent rfl rfl ?_
    simp only [act]
    cases w.suggestions[i]? with
    | none => exact h
    | some g =>
      cases selected with
      | none => exact h
      | some selected => exact inv_finishSuggestion h g selected activates
  | updateSkill id now =>
    refine inv_otherEvent rfl rfl (h.skillsKept (SkillsKept.of_update fun k hk => ⟨rfl, rfl, fun _ hd => ?_⟩))
    simp [hd] at hk
  | beginExtraction jobId => exact inv_otherEvent rfl rfl (inv_sameRows h (.beginExtraction jobId))
  | finishExtraction i outcome activated now =>
    refine inv_otherEvent rfl rfl ?_
    simp only [act]
    cases w.extractions[i]? with
    | none => exact h
    | some x => exact inv_finishExtraction h x outcome activated
  | retry memoryId => exact inv_otherEvent rfl rfl (inv_sameRows h (.retryProcessing memoryId))
  | backfill limit now => exact inv_otherEvent rfl rfl (inv_backfill h limit)
  | restart => exact inv_otherEvent rfl rfl h

theorem inv_step (h : Inv [] w.store w.withdrawnKeys w.received) (e : Event) (ha : Admitted w e) :
    Inv [] (step w e).store (step w e).withdrawnKeys (step w e).received := by
  obtain ⟨hinv, hrequested⟩ := inv_act h e ha
  refine (hinv.noted hrequested).noted fun k hk => ?_
  obtain ⟨d, hd, rfl⟩ := mem_map.mp hk
  obtain ⟨hmem, hdeleted⟩ := mem_filter.mp hd
  exact ⟨d, hmem, rfl, of_decide_eq_true hdeleted⟩

theorem inv_start : Inv [] {} [] [] where
  tidy := ⟨nodup_nil, nodup_nil, fun _ hm => absurd hm not_mem_nil,
    fun _ hm => absurd hm not_mem_nil, fun _ hm => absurd hm not_mem_nil,
    fun _ hm => absurd hm not_mem_nil⟩
  fresh := fun _ hm => absurd hm not_mem_nil
  gone := fun _ hk => absurd hk not_mem_nil
  parents := fun _ hm => absurd hm not_mem_nil
  skills := fun _ hk => absurd hk not_mem_nil
  stored := fun _ hm => absurd hm not_mem_nil
  newest := fun _ hu => absurd hu not_mem_nil

/-- The invariant says what is respected. -/
theorem respected_of_inv (h : Inv [] w.store w.withdrawnKeys w.received) : Respected w where
  gone := fun m hm hlive hgone => by
    obtain ⟨d, hd, hrecord, hdeleted⟩ := h.gone _ hgone
    have hsame : m = d := h.tidy.eq_of_record hm hd hrecord.symm
    exact hlive (hsame ▸ hdeleted)
  ancestors := fun m hm hlive k hpath => by
    -- a path from a live row stays on live rows, whose parents were not deleted
    have hfree : ∀ m ∈ w.store.observations, m.Live → ∀ k, ParentOf w.store.observations m.sourceKey k →
        ∀ d ∈ w.store.observations, d.record = canonical k → d.Live := by
      rintro m hm hlive k ⟨m', hm', hkey, p, hp, rfl⟩ d hd hrecord hdeleted
      have hsame : m' = m := h.tidy.eq_of_record hm' hm (congrArg canonical hkey)
      exact h.parents m' hm' (hsame ▸ hlive) p hp d hd hdeleted hrecord
    have hout : ∀ k', TransGen (ParentOf w.store.observations) k' k → ∀ m ∈ w.store.observations, m.Live →
        m.sourceKey = k' → k ∉ w.withdrawnKeys := by
      intro k' hpath
      induction hpath using TransGen.head_induction_on with
      | single hparent =>
        rintro m hm hlive rfl hgone
        obtain ⟨d, hd, hrecord, hdeleted⟩ := h.gone _ hgone
        exact hfree m hm hlive _ hparent d hd hrecord hdeleted
      | head hparent hrest ih =>
        rintro m hm hlive rfl
        obtain ⟨_, ⟨m', hm', rfl, -⟩, -⟩ := TransGen.head'_iff.mp hrest
        exact ih m' hm' (hfree m hm hlive _ hparent m' hm' rfl) rfl
    exact hout _ hpath m hm hlive rfl
  skills := fun k hk hlive m hm hid => by
    obtain ⟨x, hx, hxid, hxlive⟩ := h.skills k hk hlive m.id hid
    exact h.tidy.eq_of_id hx hm hxid ▸ hxlive
  newest := fun m hm hlive => by
    refine ⟨h.stored m hm hlive not_mem_nil, fun u hu hkey => ?_⟩
    obtain ⟨x, hx, hrecord, hle⟩ := h.newest u hu
    have hsame : x = m := h.tidy.eq_of_record hx hm (hrecord.trans (congrArg canonical hkey))
    exact hsame ▸ hle (hsame ▸ hlive)

/-- **Withdrawn evidence stays withdrawn** in every run whose steps are admitted. -/
theorem withdrawn_stays (es : List Event) (hadmitted : ∀ t ∈ taken step {} es, Admitted t.1 t.2) :
    ∀ w ∈ visited step {} es, Respected w := fun w hw =>
  respected_of_inv (invariant_of_steps
    (I := fun w : World => Inv [] w.store w.withdrawnKeys w.received) (P := Admitted)
    (fun _ e h ha => inv_step h e ha) es {} inv_start hadmitted w hw)

/-! ### Examples -/

/-- The namespace of the application itself. -/
def localNamespace : RuntimeNamespace := ⟨"memmy", "default", none, none, "local-user", none⟩

/-- A summary of ten minutes. -/
def summaryUpload (parents : List String) : Upload :=
  ⟨"body", "title", "summary", "2026-01-01T00:00:00.000Z", "2026-01-01T00:10:00.000Z", none, parents,
    by decide, by decide, by decide⟩

def summaryRequest (source recordId revision : String) (action : SyncAction) : SyncRequest :=
  ⟨localNamespace, source, recordId, revision, action⟩

theorem admissible_of_browser (howner : r.owner = localNamespace)
    (hsource : r.source = "browser") (hrows : ∀ m ∈ rows, m.evidence.owner = localNamespace) : Admissible rows r := by
  have hhistory : isHistorySource r.source ≠ true := by
    rw [hsource]
    decide +kernel
  refine ⟨fun m hm => ?_, fun _ h => absurd h hhistory, fun _ h => absurd h hhistory, fun _ h => ?_⟩
  · rw [MemoryRow.namespaceId, hrows m hm, howner]
    exact iff_of_true rfl (SameScope.refl _)
  · exact absurd (hsource.symm.trans h) (by decide)

/-- A parent and what was derived from it are uploaded and the parent is deleted. -/
def deletedParent : List Event :=
  [ .sync (summaryRequest "browser" "hour" "r1" (.upsert (summaryUpload []))) "t1",
    .sync (summaryRequest "browser" "day" "r1" (.upsert (summaryUpload ["hour"]))) "t2",
    .sync (summaryRequest "browser" "hour" "r2" .delete) "t3" ]

theorem deletedParent_stays : Respected (final step {} deletedParent) :=
  withdrawn_stays deletedParent (by
    have hadmitted : ∀ (w : World) (r : SyncRequest) (now : String), r.owner = localNamespace →
        r.source = "browser" → (∀ m ∈ w.store.observations, m.evidence.owner = localNamespace) →
        w.store.skills = [] → Admitted w (.sync r now) := fun w r now howner hsource hrows hskills =>
      ⟨admissible_of_browser howner hsource hrows, by simp [AllListed, hskills]⟩
    simp only [deletedParent, taken_cons, taken_nil, forall_mem_cons]
    refine ⟨hadmitted _ _ _ rfl rfl (by decide +kernel) (by decide +kernel),
      hadmitted _ _ _ rfl rfl (by decide +kernel) (by decide +kernel),
      hadmitted _ _ _ rfl rfl (by decide +kernel) (by decide +kernel),
      nofun⟩) _ (final_mem_visited step deletedParent {})

/-- A summary is uploaded under the newer and then under the older name, and deleted under both. -/
def twoNames : List Event :=
  let recordId := "2026-01-01T00-00-00-10min-summary"
  [ .sync (summaryRequest "computer_history" recordId "r1" (.upsert (summaryUpload []))) "t1",
    .sync (summaryRequest "memmy" recordId "r1" (.upsert (summaryUpload []))) "t2",
    .sync (summaryRequest "memmy" recordId "r2" .delete) "t3",
    .sync (summaryRequest "computer_history" recordId "r2" .delete) "t4" ]

/-- **The property fails**: the second deletion finds the deleted row of the older name, and the row of
the newer name is left as it is. -/
theorem twoNames_hide : ¬ ∀ es : List Event, ∀ w ∈ visited step {} es, Respected w := by
  intro h
  have hrespected := h twoNames _ (final_mem_visited step twoNames {})
  have hleft : ∃ m ∈ (final step {} twoNames).store.observations, m.Live ∧
      m.sourceKey ∈ (final step {} twoNames).withdrawnKeys := by
    decide +kernel
  obtain ⟨m, hm, hlive, hgone⟩ := hleft
  exact hrespected.gone m hm hlive hgone

end Memmy.Evidence
