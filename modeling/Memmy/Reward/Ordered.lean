import Memmy.Reward.Pipeline

/-! # Episodes that can be rewarded as a whole

* `Rewarded`: rewards are written to closed episodes, an episode with scorable traces is not skipped, and a
  reward job of an episode that ends has scored its traces and no others.
* `Heeded`: the steps under which this holds. A reward job starts on an episode whose traces are all listed and
  whose own list has them in their order, and while it runs the episode and its traces stay as they are.
* `sameView_putMemory`, `keeps_updateTraceScore`: what a written memory leaves of an episode.
* `tracesOf_ids`, `episodeTraces_eq`: what a job reads of an ordered episode. -/

namespace Memmy.Reward

open Lib.Sort List Option

variable (cfg : RewardConfig) (rewardSkipReason : List TraceMeta → Option String)

/-! ### The property -/

def MemoryRow.Live (m : MemoryRow) : Prop := m.deletedAt = none ∧ m.status = .activated

/-- The memory is an activated L1 trace of the episode. -/
def MemoryRow.IsTraceOf (m : MemoryRow) (id : String) : Prop :=
  m.Live ∧ m.memoryLayer = .l1 ∧ m.trace.bind (·.episodeId) = some id

/-- The activated memory of the id is there. -/
def Store.LiveId (s : Store) (x : String) : Prop := ∃ m ∈ s.memories, m.id = x ∧ m.Live

/-- `x` is the id of an activated L1 trace of the episode. -/
def Store.TraceId (s : Store) (id x : String) : Prop := ∃ m ∈ s.memories, m.id = x ∧ m.IsTraceOf id

/-- All traces of the episode, in their order. -/
def Store.tracesOf (s : Store) (id : String) : List TraceMeta :=
  sortBy (ascending TraceMeta.ts)
    (((s.listActivated s.memories.length).filterMap (·.traceMeta)).filter (·.episodeId = some id))

/-- **A reward job of the episode has done all of its work.** -/
structure Complete (f : Finished) (id : String) (e : EpisodeRecord) : Prop where
  episode : f.store.getEpisode id = some e
  /-- It has scored every activated L1 trace of the episode, and no other memory. -/
  scored : ∀ x, x ∈ f.assigned.map (·.traceId) ↔ f.store.TraceId id x
  /-- The values sum to the score of the episode, or every weight is zero. -/
  sum : ∃ r, e.rTask = some r ∧ ((f.assigned.map (·.value)).sum = r ∨
    ((∀ w ∈ weights cfg f.traces, w = 0) ∧ ∀ u ∈ f.assigned, u.value = 0))
  /-- The episode lists exactly these traces. -/
  listed : ∃ d, e.rewardDetail = some d ∧ d.traceIds.Nodup ∧ ∀ x, x ∈ d.traceIds ↔ f.store.TraceId id x
  rewarded : episodeHasRewardForReflection f.store e = true

structure Rewarded (s : State) : Prop where
  /-- A reward is written to a closed episode. -/
  closed : ∀ w ∈ s.written, ∃ e, w.store.getEpisode w.episodeId = some e ∧ e.status = .closed
  /-- An episode with scorable traces is not marked skipped. -/
  skipped : ∀ w ∈ s.written, w.skipped = true → rewardSkipReason (w.store.tracesOf w.episodeId) ≠ none
  /-- A reward job of a stored episode that ends is complete. -/
  complete : ∀ f ∈ s.finished, f.phase = .final → ∃ id e, f.episodeId = some id ∧ Complete cfg f id e

/-! ### The condition -/

/-- A reward job of the episode runs. -/
def Busy (s : State) (id : String) : Prop := ∃ r ∈ s.running, r.episodeId = some id

/-- The order of the traces of an episode: by time, of one time the one that is listed first. -/
def traceOrder : MemoryRow → MemoryRow → Ordering :=
  compareLex (ascending fun m : MemoryRow => (m.trace.bind (·.ts)).getD m.timeline) Store.listOrder

instance : Std.TransCmp Store.listOrder := by
  unfold Store.listOrder
  infer_instance

instance : Std.TransCmp traceOrder := by
  unfold traceOrder
  infer_instance

/-- **The episode can be rewarded as a whole:** the newest thousand L1 memories contain its traces, and its own
list has them, and no other activated memory, in their order. -/
structure Ordered (s : Store) (id : String) (e : EpisodeRecord) : Prop where
  listed : ∀ m ∈ s.memories, m.IsTraceOf id → m ∈ s.listActivated 1000
  order : ∃ rows : List MemoryRow, activeL1MemoryIds s e = rows.map (·.id) ∧
    rows.Pairwise (fun a b => (traceOrder a b).isLE = true) ∧
    ∀ m, m ∈ rows ↔ m ∈ s.memories ∧ m.IsTraceOf id

/-- The written memory is what it was to the episode. -/
def Keeps (s : Store) (id : String) (m : MemoryRow) : Prop :=
  (m.IsTraceOf id ↔ s.TraceId id m.id) ∧
  ∀ e, s.getEpisode id = some e → m.id ∈ e.l1MemoryIds → (m.Live ↔ s.LiveId m.id)

/-- **The steps under which closed episodes are rewarded completely.** -/
def Heeded (s : State) : Event → Prop
  | .startReward i => ∀ job trace id e, s.queue[i]? = some job → job.jobType = .reward →
      rewardSourceForJob s.store job = some trace → trace.episodeId = some id →
      s.store.getEpisode id = some e → e.status = .closed → ¬ Busy s id ∧ Ordered s.store id e
  | .putMemory m => ∀ id, Busy s id → Keeps s.store id m
  | .appendEpisodeTurn id' m => ¬ Busy s id' ∧ ∀ id, Busy s id → Keeps s.store id m
  | .createEpisode id => ¬ Busy s id
  | .reopenEpisode id => ¬ Busy s id
  | _ => True

/-! ### Memories -/

/-- Ids are keys, and an episode lists a memory once. -/
structure Keyed (s : Store) : Prop where
  memories : (s.memories.map (·.id)).Nodup
  episodes : (s.episodes.map (·.id)).Nodup
  l1MemoryIds : ∀ e ∈ s.episodes, e.l1MemoryIds.Nodup

section Memories

variable {s s' : Store} {m : MemoryRow} {id x : String}

theorem liveId_iff (h : Keyed s) : (s.getMemory x).map (·.status) = some .activated ↔ s.LiveId x := by
  unfold Store.getMemory
  constructor
  · intro hget
    obtain ⟨m, hm, hstatus⟩ := map_eq_some_iff.mp hget
    have hp := find?_some hm
    simp only [decide_eq_true_eq] at hp
    exact ⟨m, mem_of_find?_eq_some hm, hp.1, hp.2, hstatus⟩
  · rintro ⟨m, hm, hx, hdeleted, hstatus⟩
    cases hfind : s.memories.find? fun m => m.id = x ∧ m.deletedAt = none with
    | none =>
      have := find?_eq_none.mp hfind m hm
      simp [hx, hdeleted] at this
    | some m' =>
      have hp := find?_some hfind
      simp only [decide_eq_true_eq] at hp
      have hsame : m' = m := inj_on_of_nodup_map h.memories (mem_of_find?_eq_some hfind) hm
        (hp.1.trans hx.symm)
      rw [hsame, map_some, hstatus]

theorem mem_putMemory {m' : MemoryRow} :
    m' ∈ (s.putMemory m).memories ↔ m' = m ∨ (m' ∈ s.memories ∧ m'.id ≠ m.id) := by
  unfold Store.putMemory
  by_cases hany : s.memories.any (·.id = m.id) = true
  · simp only [hany, if_true]
    unfold Lib.Rows.update
    rw [List.mem_map]
    obtain ⟨old, hold, hid⟩ := any_eq_true.mp hany
    constructor
    · rintro ⟨a, ha, rfl⟩
      by_cases hid' : a.id = m.id
      · exact Or.inl (by simp [hid'])
      · exact Or.inr (by simpa [hid'] using ha)
    · rintro (rfl | ⟨hm', hne⟩)
      · exact ⟨old, hold, if_pos hid⟩
      · exact ⟨m', hm', if_neg (by simpa using hne)⟩
  · simp only [hany, Bool.false_eq_true, if_false]
    have hnone : ∀ a ∈ s.memories, a.id ≠ m.id := by simpa using hany
    rw [mem_append, mem_singleton]
    constructor
    · rintro (hm' | rfl)
      · exact Or.inr ⟨hm', hnone m' hm'⟩
      · exact Or.inl rfl
    · rintro (rfl | ⟨hm', -⟩)
      · exact Or.inr rfl
      · exact Or.inl hm'

theorem keyed_putMemory (h : Keyed s) (m : MemoryRow) : Keyed (s.putMemory m) := by
  refine ⟨?_, h.episodes, h.l1MemoryIds⟩
  unfold Store.putMemory
  by_cases hany : s.memories.any (·.id = m.id) = true
  · simp only [hany, if_true]
    unfold Lib.Rows.update
    rw [List.map_map]
    have hids : (fun m => m.id) ∘ (fun r => if decide (r.id = m.id) = true then m else r) =
        fun r : MemoryRow => r.id := by
      funext r
      by_cases hid : r.id = m.id
      · simp [hid]
      · simp [hid]
    rw [hids]
    exact h.memories
  · simp only [hany, Bool.false_eq_true, if_false]
    rw [map_append, map_singleton, nodup_append]
    refine ⟨h.memories, nodup_singleton _, ?_⟩
    intro a ha b hb
    obtain ⟨m', hm', rfl⟩ := mem_map.mp ha
    rw [mem_singleton.mp hb]
    have hnone : ∀ a ∈ s.memories, a.id ≠ m.id := by simpa using hany
    exact hnone m' hm'

theorem exists_putMemory {p : MemoryRow → Prop} : (∃ m' ∈ (s.putMemory m).memories, m'.id = x ∧ p m') ↔
    if x = m.id then p m else ∃ m' ∈ s.memories, m'.id = x ∧ p m' := by
  simp only [mem_putMemory]
  split_ifs with hx
  · constructor
    · rintro ⟨m', rfl | ⟨-, hne⟩, hid, hp⟩
      · exact hp
      · exact absurd (hid.trans hx) hne
    · exact fun hp => ⟨m, Or.inl rfl, hx.symm, hp⟩
  · constructor
    · rintro ⟨m', rfl | ⟨hm', -⟩, hid, hp⟩
      · exact absurd hid.symm hx
      · exact ⟨m', hm', hid, hp⟩
    · rintro ⟨m', hm', hid, hp⟩
      exact ⟨m', Or.inr ⟨hm', fun he => hx (hid.symm.trans he)⟩, hid, hp⟩

theorem liveId_putMemory : (s.putMemory m).LiveId x ↔ if x = m.id then m.Live else s.LiveId x :=
  exists_putMemory (p := MemoryRow.Live)

theorem traceId_putMemory : (s.putMemory m).TraceId id x ↔ if x = m.id then m.IsTraceOf id else s.TraceId id x :=
  exists_putMemory (p := fun m => m.IsTraceOf id)

/-- What the episode sees of the memories is the same. -/
structure SameView (s s' : Store) (id : String) (l1MemoryIds : List String) : Prop where
  live : ∀ x ∈ l1MemoryIds, (s'.LiveId x ↔ s.LiveId x)
  traces : ∀ x, s'.TraceId id x ↔ s.TraceId id x

theorem sameView_putMemory {e : EpisodeRecord} (he : s.getEpisode id = some e) (h : Keeps s id m) :
    SameView s (s.putMemory m) id e.l1MemoryIds := by
  constructor
  · intro x hx
    rw [liveId_putMemory]
    split_ifs with hid
    · subst hid
      exact h.2 e he hx
    · rfl
  · intro x
    rw [traceId_putMemory]
    split_ifs with hid
    · subst hid
      exact h.1
    · rfl

theorem keeps_updateTraceScore (hk : Keyed s) {current : MemoryRow} (hget : s.getMemory x = some current)
    (u : TraceUpdate) (rHuman : ℚ) (stamp : ℕ) (id : String) :
    Keeps s id (updateTraceScore current u rHuman stamp) := by
  have hmem : current ∈ s.memories := mem_of_find?_eq_some hget
  have hsame : ∀ m ∈ s.memories, m.id = current.id → m = current := fun m hm hid =>
    inj_on_of_nodup_map hk.memories hm hmem hid
  have htrace : (updateTraceScore current u rHuman stamp).trace.bind (·.episodeId) =
      current.trace.bind (·.episodeId) := by
    unfold updateTraceScore
    cases current.trace <;> rfl
  constructor
  · unfold Store.TraceId MemoryRow.IsTraceOf
    rw [htrace]
    constructor
    · exact fun h => ⟨current, hmem, rfl, h⟩
    · rintro ⟨m, hm, hid, h⟩
      rwa [hsame m hm hid] at h
  · intro e _ _
    constructor
    · exact fun h => ⟨current, hmem, rfl, h⟩
    · rintro ⟨m, hm, hid, h⟩
      rwa [hsame m hm hid] at h

theorem activeL1MemoryIds_congr {e e' : EpisodeRecord} (hk : Keyed s) (hk' : Keyed s')
    (hl1 : e'.l1MemoryIds = e.l1MemoryIds) (h : ∀ x ∈ e.l1MemoryIds, (s'.LiveId x ↔ s.LiveId x)) :
    activeL1MemoryIds s' e' = activeL1MemoryIds s e := by
  unfold activeL1MemoryIds
  rw [hl1]
  refine filter_congr fun x hx => ?_
  rw [decide_eq_decide, liveId_iff hk', liveId_iff hk]
  exact h x hx

end Memories

/-! ### The traces that are read -/

section Read
variable {m : MemoryRow}

variable {s : Store} {id : String} {e : EpisodeRecord}

def MemoryRow.Listed (m : MemoryRow) : Bool :=
  decide (m.deletedAt = none ∧ m.memoryLayer = .l1 ∧ m.status = .activated)

/-- What a row of the episode is read as. -/
def MemoryRow.metaOf (id : String) (m : MemoryRow) : Option TraceMeta :=
  m.traceMeta.filter fun t => t.episodeId = some id

open MemoryRow

theorem metaOf_some {t : TraceMeta} (h : m.metaOf id = some t) :
    t.id = m.id ∧ t.ts = (m.trace.bind (·.ts)).getD m.timeline ∧ m.memoryLayer = .l1 ∧
      m.trace.bind (·.episodeId) = some id := by
  unfold metaOf traceMeta at h
  obtain ⟨hmeta, hid⟩ := filter_eq_some_iff.mp h
  split_ifs at hmeta with hlayer
  cases htrace : m.trace with
  | none =>
    rw [htrace] at hmeta
    cases hmeta
  | some trace =>
    rw [htrace] at hmeta
    cases hmeta
    exact ⟨rfl, rfl, hlayer, of_decide_eq_true hid⟩

theorem isTraceOf_iff : m.IsTraceOf id ↔ m.Listed = true ∧ (m.metaOf id).isSome = true := by
  unfold MemoryRow.IsTraceOf MemoryRow.Live MemoryRow.Listed
  rw [decide_eq_true_eq]
  constructor
  · rintro ⟨⟨hdeleted, hstatus⟩, hlayer, hid⟩
    refine ⟨⟨hdeleted, hlayer, hstatus⟩, ?_⟩
    unfold metaOf traceMeta
    rw [if_pos hlayer]
    cases htrace : m.trace with
    | none =>
      rw [htrace] at hid
      cases hid
    | some trace =>
      rw [htrace] at hid
      have hid' : trace.episodeId = some id := hid
      simp [hid']
  · rintro ⟨⟨hdeleted, hlayer, hstatus⟩, hmeta⟩
    obtain ⟨t, ht⟩ := isSome_iff_exists.mp hmeta
    exact ⟨⟨hdeleted, hstatus⟩, hlayer, (metaOf_some ht).2.2.2⟩

/-- What is kept and read is what is read of the rows that are kept. -/
theorem filterMap_eq_map_filter {α β : Type} (f : α → Option β) (d : α → β) (l : List α) :
    l.filterMap f = (l.filter fun a => (f a).isSome).map fun a => (f a).getD (d a) := by
  induction l with
  | nil => rfl
  | cons a l ih =>
    cases h : f a with
    | none => rw [filterMap_cons_none h, ih, filter_cons_of_neg (by simp [h])]
    | some b => rw [filterMap_cons_some h, ih, filter_cons_of_pos (by simp [h]), map_cons, h, getD_some]

theorem filter_filterMap_traceMeta (rows : List MemoryRow) :
    (rows.filterMap (·.traceMeta)).filter (·.episodeId = some id) = rows.filterMap (metaOf id) := by
  rw [filter_filterMap]
  rfl

/-- All activated L1 memories, as they are listed. -/
def Store.activated (s : Store) : List MemoryRow := sortBy Store.listOrder (s.memories.filter MemoryRow.Listed)

theorem nodup_activated (h : Keyed s) : s.activated.Nodup :=
  (sortBy_perm _ _).nodup_iff.mpr ((List.Nodup.of_map _ h.memories).filter _)

theorem mem_activated : m ∈ s.activated ↔ m ∈ s.memories ∧ m.Listed = true := by
  unfold Store.activated
  rw [mem_sortBy, mem_filter]

theorem tracesOf_eq : s.tracesOf id = sortBy (ascending TraceMeta.ts) (s.activated.filterMap (metaOf id)) := by
  unfold Store.tracesOf Store.listActivated
  rw [filter_filterMap_traceMeta]
  have hlen : s.activated.length ≤ s.memories.length := by
    unfold Store.activated
    rw [(sortBy_perm _ _).length_eq]
    exact length_filter_le _ _
  exact congrArg (fun l => sortBy (ascending TraceMeta.ts) (l.filterMap (metaOf id)))
    (take_of_length_le hlen)

/-- Where the limit leaves out no trace of the episode, all of them are read. -/
theorem episodeTraces_eq (h : Keyed s) (hlisted : ∀ m ∈ s.memories, m.IsTraceOf id → m ∈ s.listActivated 1000) :
    episodeTraces s (some id) = s.tracesOf id := by
  rw [tracesOf_eq]
  unfold episodeTraces
  rw [filter_filterMap_traceMeta]
  have hsplit := take_append_drop 1000 s.activated
  have hdrop : (s.activated.drop 1000).filterMap (metaOf id) = [] := by
    rw [filterMap_eq_nil_iff]
    intro m hm
    by_contra hmeta
    obtain ⟨hmem, hactive⟩ := mem_activated.mp (mem_of_mem_drop hm)
    have htrace : m.IsTraceOf id := isTraceOf_iff.mpr ⟨hactive, isSome_iff_ne_none.mpr hmeta⟩
    have htake : m ∈ s.activated.take 1000 := hlisted m hmem htrace
    have hnodup := nodup_activated h
    rw [← hsplit, nodup_append] at hnodup
    exact hnodup.2.2 m htake m hm rfl
  conv_rhs => rw [← hsplit, filterMap_append, hdrop, append_nil]
  rfl

/-- Rows that are ordered both ways are one. -/
theorem eq_of_traceOrder (h : Keyed s) {a b : MemoryRow} (ha : a ∈ s.memories) (hb : b ∈ s.memories)
    (hab : (traceOrder a b).isLE = true) (hba : (traceOrder b a).isLE = true) : a = b := by
  have heq : traceOrder a b = .eq := by
    have hswap : traceOrder b a = (traceOrder a b).swap := Std.OrientedCmp.eq_swap
    rw [hswap] at hba
    cases hcmp : traceOrder a b with
    | eq => rfl
    | lt =>
      rw [hcmp] at hba
      cases hba
    | gt =>
      rw [hcmp] at hab
      cases hab
  refine inj_on_of_nodup_map h.memories ha hb ?_
  unfold traceOrder Store.listOrder compareLex at heq
  simp only [Ordering.then_eq_eq] at heq
  have hid : compare b.id a.id = .eq := heq.2.2.2
  exact (Std.LawfulEqCmp.compare_eq_iff_eq.mp hid).symm

/-- **The traces of an ordered episode** have the ids of its own list. -/
theorem tracesOf_ids (h : Keyed s) (he : s.getEpisode id = some e) (horder : Ordered s id e) :
    (s.tracesOf id).map (·.id) = activeL1MemoryIds s e := by
  obtain ⟨rows, hids, hsorted, hmem⟩ := horder.order
  -- the rows of the episode, as they are listed and sorted by time
  let listed := s.activated.filter fun m => (m.metaOf id).isSome
  let rowTs (m : MemoryRow) : ℚ := (m.trace.bind (·.ts)).getD m.timeline
  have hlisted : ∀ m, m ∈ listed ↔ m ∈ s.memories ∧ m.IsTraceOf id := by
    intro m
    rw [mem_filter, mem_activated, isTraceOf_iff, and_assoc]
  have hpair : listed.Pairwise fun a b => (Store.listOrder a b).isLE = true :=
    (pairwise_sortBy _ _).sublist filter_sublist
  have hsort : (sortBy (ascending rowTs) listed).Pairwise fun a b => (traceOrder a b).isLE = true :=
    pairwise_sortBy_compareLex _ hpair
  have hnodup : rows.Nodup := by
    refine List.Nodup.of_map (·.id) ?_
    rw [← hids]
    exact (h.l1MemoryIds e (mem_of_find?_eq_some he)).filter _
  have hperm : (sortBy (ascending rowTs) listed).Perm rows := by
    refine (perm_ext_iff_of_nodup ?_ hnodup).mpr fun m => ?_
    · exact (sortBy_perm _ _).nodup_iff.mpr ((nodup_activated h).filter _)
    · rw [mem_sortBy, hlisted, hmem]
  have hsame : sortBy (ascending rowTs) listed = rows := by
    refine hperm.eq_of_pairwise (fun a b ha hb hab hba => ?_) hsort hsorted
    have ha' := (hlisted a).mp ((mem_sortBy _).mp ha)
    have hb' := (hmem b).mp hb
    exact eq_of_traceOrder h ha'.1 hb'.1 hab hba
  -- what is read of them has their ids and times
  let plain (m : MemoryRow) : TraceMeta := ⟨m.id, none, rowTs m, none, 0, "", "", 0⟩
  let read (m : MemoryRow) : TraceMeta := (m.metaOf id).getD (plain m)
  have hread : ∀ m, (read m).id = m.id ∧ (read m).ts = rowTs m := by
    intro m
    show ((m.metaOf id).getD (plain m)).id = m.id ∧ ((m.metaOf id).getD (plain m)).ts = rowTs m
    cases hmeta : m.metaOf id with
    | none => exact ⟨rfl, rfl⟩
    | some t => exact ⟨(metaOf_some hmeta).1, (metaOf_some hmeta).2.1⟩
  have hmap : sortBy (ascending TraceMeta.ts) (listed.map read) = (sortBy (ascending rowTs) listed).map read := by
    refine (map_insertionSort _ _ _ _ fun a _ b _ => ?_).symm
    rw [ascending_isLE, ascending_isLE, (hread a).2, (hread b).2]
  rw [hids, tracesOf_eq, filterMap_eq_map_filter _ plain, hmap, hsame, List.map_map]
  exact map_congr_left fun m _ => (hread m).1

theorem mem_tracesOf_ids (x : String) : x ∈ (s.tracesOf id).map (·.id) ↔ s.TraceId id x := by
  rw [tracesOf_eq, List.mem_map]
  constructor
  · rintro ⟨t, ht, rfl⟩
    obtain ⟨m, hm, hmeta⟩ := mem_filterMap.mp ((mem_sortBy _).mp ht)
    obtain ⟨hmem, hactive⟩ := mem_activated.mp hm
    refine ⟨m, hmem, (metaOf_some hmeta).1.symm, isTraceOf_iff.mpr ⟨hactive, ?_⟩⟩
    rw [hmeta]
    rfl
  · rintro ⟨m, hm, rfl, htrace⟩
    obtain ⟨hactive, hmeta⟩ := isTraceOf_iff.mp htrace
    obtain ⟨t, ht⟩ := isSome_iff_exists.mp hmeta
    refine ⟨t, (mem_sortBy _).mpr (mem_filterMap.mpr ⟨m, mem_activated.mpr ⟨hm, hactive⟩, ht⟩), ?_⟩
    exact (metaOf_some ht).1

end Read

end Memmy.Reward
