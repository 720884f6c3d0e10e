import Memmy.Lib.Run
import Memmy.Reward.Ordered

/-! # Closed episodes are rewarded completely

* `Inv`: a running job of a stored episode has read its traces as they still are, on a closed episode.
* `inv_startReward`, `inv_answerReward`, `inv_runUpdates`: the job from one wait to the next keeps it.
* `complete_of_ready`: a job that has updated all of its traces is complete.
* `rewarded_of_heeded`: a run of heeded steps keeps `Rewarded`. -/

namespace Memmy.Reward

open Lib.Sort Lib.Run List Option

variable (cfg : RewardConfig) (rewardSkipReason : List TraceMeta → Option String)

/-! ### The invariant -/

/-- What the episode and its traces are to a job that has read them. -/
structure Ready (s : Store) (r : Running) (id : String) (e : EpisodeRecord) : Prop where
  episode : s.getEpisode id = some e
  closed : e.status = .closed
  active : activeL1MemoryIds s e = r.traces.map (·.id)
  traces : ∀ x, x ∈ r.traces.map (·.id) ↔ s.TraceId id x
  nodup : (r.traces.map (·.id)).Nodup
  sorted : r.traces.Pairwise fun a b => (ascending TraceMeta.ts a b).isLE = true

/-- What the episode holds when its traces are being updated. -/
structure Assigning (r : Running) (e : EpisodeRecord) (u : Updating) (pending : List TraceUpdate) : Prop where
  rTask : e.rTask = some u.rHuman
  detail : ∃ d, e.rewardDetail = some d ∧ d.phase = .final ∧ d.skipped = false ∧
    d.traceIds = r.traces.map (·.id)
  bounds : -1 ≤ u.rHuman ∧ u.rHuman ≤ 1
  updates : u.assigned ++ pending = backpropagateTraces cfg r.traces u.rHuman

/-- **What holds of a running job.** -/
def Fits (s : Store) (r : Running) : Prop :=
  match r.phase with
  | .final => ∃ id e, r.episodeId = some id ∧ Ready s r id e ∧
      match r.wait with
      | .scoring fallback => -1 ≤ fallback ∧ fallback ≤ 1
      | .repairing u => Assigning cfg r e u u.pending
  | .feedback => ∀ id, r.episodeId = some id → s.getEpisode id = none

/-- Two running jobs of stored episodes are of two episodes. -/
def Apart (r r' : Running) : Prop := r.phase = .final ∨ r'.phase = .final → r.episodeId ≠ r'.episodeId

structure Inv (s : State) : Prop where
  keyed : Keyed s.store
  fits : ∀ r ∈ s.running, Fits cfg s.store r
  apart : s.running.Pairwise Apart
  rewarded : Rewarded cfg rewardSkipReason s

/-! ### What a write leaves of an episode -/

section Frame

variable {s s' : Store} {r : Running} {id id' : String} {e e' : EpisodeRecord} {f : EpisodeRecord → EpisodeRecord}

theorem getEpisode_updateEpisode (hid : ∀ e, (f e).id = e.id) :
    (s.updateEpisode id' f).getEpisode id =
      (s.getEpisode id).map fun e => if id = id' then f e else e := by
  unfold Store.updateEpisode Store.getEpisode Lib.Rows.update
  rw [find?_map]
  have hkey : (fun e : EpisodeRecord => decide (e.id = id)) ∘
      (fun r => if decide (r.id = id') = true then f r else r) = fun e => decide (e.id = id) := by
    funext r
    by_cases h : r.id = id'
    · simp [h, hid]
    · simp [h]
  rw [hkey]
  cases hfind : s.episodes.find? fun e => e.id = id with
  | none => rfl
  | some e =>
    have he : e.id = id := by simpa using find?_some hfind
    simp [he]

theorem keyed_updateEpisode (h : Keyed s) (hid : ∀ e, (f e).id = e.id)
    (hl1 : ∀ e ∈ s.episodes, (f e).l1MemoryIds.Nodup) : Keyed (s.updateEpisode id f) := by
  refine ⟨h.memories, ?_, fun e he => ?_⟩
  · unfold Store.updateEpisode Lib.Rows.update
    rw [List.map_map]
    have hids : (fun e : EpisodeRecord => e.id) ∘ (fun r => if decide (r.id = id) = true then f r else r) =
        fun e => e.id := by
      funext r
      by_cases hr : r.id = id
      · simp [hr, hid]
      · simp [hr]
    rw [hids]
    exact h.episodes
  · obtain ⟨old, hold, rfl⟩ := mem_map.mp he
    split_ifs
    · exact hl1 old hold
    · exact h.l1MemoryIds old hold

/-- **A write leaves the episode, its reward and its traces as they are.** -/
structure SameEpisode (s s' : Store) (id : String) : Prop where
  kept : ∀ e, s.getEpisode id = some e → ∃ e', s'.getEpisode id = some e' ∧ e'.status = e.status ∧
    e'.l1MemoryIds = e.l1MemoryIds ∧ e'.rTask = e.rTask ∧ e'.rewardDetail = e.rewardDetail ∧
    SameView s s' id e.l1MemoryIds
  absent : s.getEpisode id = none → s'.getEpisode id = none

theorem sameEpisode_putMemory {m : MemoryRow} (h : Keeps s id m) : SameEpisode s (s.putMemory m) id where
  kept e he := ⟨e, he, rfl, rfl, rfl, rfl, sameView_putMemory he h⟩
  absent h := h

/-- An episode is written: every other one stays as it is. -/
theorem sameEpisode_updateEpisode (f : EpisodeRecord → EpisodeRecord) (hid : ∀ e, (f e).id = e.id)
    (h : id = id' → ∀ e, s.getEpisode id = some e →
      (f e).status = e.status ∧ (f e).l1MemoryIds = e.l1MemoryIds ∧ (f e).rTask = e.rTask ∧
        (f e).rewardDetail = e.rewardDetail) : SameEpisode s (s.updateEpisode id' f) id where
  kept e he := by
    refine ⟨if id = id' then f e else e, ?_, ?_⟩
    · rw [getEpisode_updateEpisode hid, he, map_some]
    · have hview : SameView s (s.updateEpisode id' f) id e.l1MemoryIds := ⟨fun _ _ => Iff.rfl, fun _ => Iff.rfl⟩
      by_cases heq : id = id'
      · rw [if_pos heq]
        obtain ⟨hstatus, hl1, htask, hdetail⟩ := h heq e he
        exact ⟨hstatus, hl1, htask, hdetail, hview⟩
      · rw [if_neg heq]
        exact ⟨rfl, rfl, rfl, rfl, hview⟩
  absent h' := by rw [getEpisode_updateEpisode hid, h', map_none]

theorem Ready.congr (hk : Keyed s) (hk' : Keyed s') (h : Ready s r id e) (he' : s'.getEpisode id = some e')
    (hstatus : e'.status = e.status) (hl1 : e'.l1MemoryIds = e.l1MemoryIds)
    (hview : SameView s s' id e.l1MemoryIds) : Ready s' r id e' where
  episode := he'
  closed := hstatus.trans h.closed
  active := (activeL1MemoryIds_congr hk hk' hl1 hview.live).trans h.active
  traces x := (h.traces x).trans (hview.traces x).symm
  nodup := h.nodup
  sorted := h.sorted

theorem Assigning.congr {u : Updating} {pending : List TraceUpdate} (h : Assigning cfg r e u pending)
    (htask : e'.rTask = e.rTask) (hdetail : e'.rewardDetail = e.rewardDetail) : Assigning cfg r e' u pending where
  rTask := htask.trans h.rTask
  detail := by rw [hdetail]; exact h.detail
  bounds := h.bounds
  updates := h.updates

theorem Fits.congr (hk : Keyed s) (hk' : Keyed s') (h : Fits cfg s r)
    (hsame : ∀ id, r.episodeId = some id → SameEpisode s s' id) : Fits cfg s' r := by
  unfold Fits at h ⊢
  cases hphase : r.phase with
  | feedback =>
    rw [hphase] at h
    exact fun id hid => (hsame id hid).absent (h id hid)
  | final =>
    rw [hphase] at h
    obtain ⟨id, e, hid, hready, hwait⟩ := h
    obtain ⟨e', he', hstatus, hl1, htask, hdetail, hview⟩ := (hsame id hid).kept e hready.episode
    refine ⟨id, e', hid, hready.congr hk hk' he' hstatus hl1 hview, ?_⟩
    cases hw : r.wait with
    | scoring fallback =>
      rw [hw] at hwait
      exact hwait
    | repairing u =>
      rw [hw] at hwait
      exact hwait.congr cfg htask hdetail

end Frame

/-! ### Steps of other parts of the service -/

section Steps
variable {e : EpisodeRecord} {pending : List TraceUpdate} {r : Running} {store : Store} {id : String} {u : Updating}
variable {trace : TraceMeta}

variable {cfg rewardSkipReason} {s : State}

section
variable (h : Inv cfg rewardSkipReason s)
include h

/-- A write that leaves the episodes of the running jobs as they are. -/
theorem Inv.of_store {queue failed : List Job}
    (hk : Keyed store) (hsame : ∀ id, Busy s id → SameEpisode s.store store id) :
    Inv cfg rewardSkipReason { s with
      store := store
      queue := queue
      failed := failed } where
  keyed := hk
  fits r hr := (h.fits r hr).congr cfg h.keyed hk fun id hid => hsame id ⟨r, hr, hid⟩
  apart := h.apart
  rewarded := ⟨h.rewarded.closed, h.rewarded.skipped, h.rewarded.complete⟩

theorem Inv.of_jobs {queue failed : List Job} : Inv cfg rewardSkipReason { s with
      queue := queue
      failed := failed } :=
  ⟨h.keyed, h.fits, h.apart, ⟨h.rewarded.closed, h.rewarded.skipped, h.rewarded.complete⟩⟩

theorem Inv.erase (i : ℕ) {failed : List Job} : Inv cfg rewardSkipReason { s with
      running := s.running.eraseIdx i
      failed := failed } :=
  ⟨h.keyed, fun r hr => h.fits r (mem_of_mem_eraseIdx hr), h.apart.sublist (eraseIdx_sublist _ _),
    ⟨h.rewarded.closed, h.rewarded.skipped, h.rewarded.complete⟩⟩

theorem not_busy_of_open
    (he : s.store.getEpisode id = some e) (hstatus : e.status ≠ .closed) : ¬ Busy s id := by
  rintro ⟨r, hr, hid⟩
  have hfits := h.fits r hr
  unfold Fits at hfits
  cases hphase : r.phase with
  | feedback =>
    rw [hphase] at hfits
    rw [hfits id hid] at he
    cases he
  | final =>
    rw [hphase] at hfits
    obtain ⟨id', e', hid', hready, -⟩ := hfits
    obtain rfl : id' = id := some.inj (hid'.symm.trans hid)
    rw [hready.episode] at he
    cases he
    exact hstatus hready.closed

theorem inv_putMemory {m : MemoryRow} (hkeeps : ∀ id, Busy s id → Keeps s.store id m) :
    Inv cfg rewardSkipReason { s with store := s.store.putMemory m } :=
  h.of_store (keyed_putMemory h.keyed m) fun id hid => sameEpisode_putMemory (hkeeps id hid)

theorem inv_createEpisode (hnone : s.store.getEpisode id = none)
    (hbusy : ¬ Busy s id) : Inv cfg rewardSkipReason
      { s with store := { s.store with episodes := s.store.episodes ++ [newEpisode id] } } := by
  have hnot : ∀ e ∈ s.store.episodes, e.id ≠ id := by
    intro e he
    have := find?_eq_none.mp hnone e he
    simpa using this
  refine h.of_store ⟨h.keyed.memories, ?_, ?_⟩ fun id' hid' => ⟨fun e he => ⟨e, ?_, rfl, rfl, rfl, rfl,
    ⟨fun _ _ => Iff.rfl, fun _ => Iff.rfl⟩⟩, fun habsent => ?_⟩
  · rw [map_append, map_singleton, nodup_append]
    refine ⟨h.keyed.episodes, nodup_singleton _, fun a ha b hb => ?_⟩
    obtain ⟨e, he, rfl⟩ := mem_map.mp ha
    rw [mem_singleton.mp hb]
    exact hnot e he
  · intro e he
    rcases mem_append.mp he with he | he
    · exact h.keyed.l1MemoryIds e he
    · rw [mem_singleton.mp he]
      exact nodup_nil
  · unfold Store.getEpisode at he ⊢
    rw [find?_append, he]
    rfl
  · have hne : id ≠ id' := fun heq => hbusy (heq ▸ hid')
    unfold Store.getEpisode at habsent ⊢
    rw [find?_append, habsent]
    simp [newEpisode, hne]

end

theorem nodup_appendUniq {list : List String} (h : list.Nodup) (value : String) : (appendUniq list value).Nodup := by
  unfold appendUniq
  split_ifs with hmem
  · exact h
  · exact nodup_append.mpr ⟨h, nodup_singleton _, fun a ha b hb => by
      rw [mem_singleton.mp hb]
      exact fun heq => hmem (heq ▸ ha)⟩

theorem inv_updateEpisode (h : Inv cfg rewardSkipReason s) (f : EpisodeRecord → EpisodeRecord)
    (hid : ∀ e, (f e).id = e.id) (hl1 : ∀ e ∈ s.store.episodes, (f e).l1MemoryIds.Nodup) (hbusy : ¬ Busy s id)
    (queue : List Job) : Inv cfg rewardSkipReason { s with
      store := s.store.updateEpisode id f
      queue := queue } :=
  h.of_store (keyed_updateEpisode h.keyed hid hl1) fun _ hbusy' =>
    sameEpisode_updateEpisode f hid fun heq => absurd (heq ▸ hbusy') hbusy

theorem inv_appendEpisodeTurn (h : Inv cfg rewardSkipReason s) {m : MemoryRow} (hbusy : ¬ Busy s id)
    (hkeeps : ∀ id, Busy s id → Keeps s.store id m) : Inv cfg rewardSkipReason
      { s with store := (s.store.putMemory m).updateEpisode id fun e =>
          { e with l1MemoryIds := appendUniq e.l1MemoryIds m.id } } := by
  have hput := inv_putMemory h hkeeps
  exact inv_updateEpisode hput (fun e => { e with l1MemoryIds := appendUniq e.l1MemoryIds m.id }) (fun _ => rfl)
    (fun e he => nodup_appendUniq (hput.keyed.l1MemoryIds e he) m.id) hbusy s.queue

theorem inv_addFeedback (h : Inv cfg rewardSkipReason s) (row : FeedbackRow)
    (episodeId l1MemoryId rationale : Option String) :
    Inv cfg rewardSkipReason (addFeedback s row episodeId l1MemoryId rationale) := by
  have hrow : ∀ queue, Inv cfg rewardSkipReason { s with
      store := { s.store with feedback := s.store.feedback ++ [row] }
      queue := queue } := fun queue =>
    h.of_store ⟨h.keyed.memories, h.keyed.episodes, h.keyed.l1MemoryIds⟩ fun _ _ =>
      ⟨fun e he => ⟨e, he, rfl, rfl, rfl, rfl, ⟨fun _ _ => Iff.rfl, fun _ => Iff.rfl⟩⟩, id⟩
  cases episodeId with
  | none => exact hrow _
  | some id =>
    have hfirst := hrow s.queue
    refine hfirst.of_store (keyed_updateEpisode hfirst.keyed (fun _ => rfl)
      hfirst.keyed.l1MemoryIds) fun _ _ => ?_
    exact sameEpisode_updateEpisode (fun e => { e with feedbackIds := appendUniq e.feedbackIds row.id })
      (fun _ => rfl) fun _ e _ => ⟨rfl, rfl, rfl, rfl⟩

/-! ### The start of a job -/

theorem fallbackScore_mem (episodeFeedback : List Feedback) (payload : JobPayload) :
    -1 ≤ fallbackScore episodeFeedback payload ∧ fallbackScore episodeFeedback payload ≤ 1 :=
  heuristicHumanScore_mem _

theorem inv_skip (h : Inv cfg rewardSkipReason s) {detail : RewardDetail}
    (he : s.store.getEpisode id = some e) (hclosed : e.status = .closed) (hbusy : ¬ Busy s id)
    (hskip : rewardSkipReason (s.store.tracesOf id) ≠ none) :
    Inv cfg rewardSkipReason (updateEpisodeReward s id detail) := by
  unfold updateEpisodeReward
  rw [if_pos (by rw [he]; rfl)]
  have hwrite := inv_updateEpisode h (EpisodeRecord.withReward detail) (fun _ => rfl)
    (h.keyed.l1MemoryIds) hbusy s.queue
  refine ⟨hwrite.keyed, hwrite.fits, hwrite.apart, ⟨fun w hw => ?_, fun w hw => ?_, h.rewarded.complete⟩⟩
  · rcases mem_append.mp hw with hw | hw
    · exact h.rewarded.closed w hw
    · rw [mem_singleton.mp hw]
      exact ⟨e, he, hclosed⟩
  · rcases mem_append.mp hw with hw | hw
    · exact h.rewarded.skipped w hw
    · rw [mem_singleton.mp hw]
      exact fun _ => hskip

theorem inv_wait (h : Inv cfg rewardSkipReason s) (hfits : Fits cfg s.store r)
    (hapart : ∀ r' ∈ s.running, Apart r' r) :
    Inv cfg rewardSkipReason { s with running := s.running ++ [r] } where
  keyed := h.keyed
  fits r' hr' := by
    rcases mem_append.mp hr' with hr' | hr'
    · exact h.fits r' hr'
    · rw [mem_singleton.mp hr']
      exact hfits
  apart := pairwise_append.mpr ⟨h.apart, pairwise_singleton _ _, fun r' hr' r'' hr'' => by
    rw [mem_singleton.mp hr'']
    exact hapart r' hr'⟩
  rewarded := ⟨h.rewarded.closed, h.rewarded.skipped, h.rewarded.complete⟩

theorem ready_of_ordered (hk : Keyed store) (hid : store.getEpisode id = some e)
    (hclosed : e.status = .closed) (horder : Ordered store id e) (r : Running)
    (hr : r.traces = episodeTraces store (some id)) : Ready store r id e := by
  have htraces : r.traces = store.tracesOf id := hr.trans (episodeTraces_eq hk horder.listed)
  have hids := tracesOf_ids hk hid horder
  refine ⟨hid, hclosed, ?_, fun x => ?_, ?_, ?_⟩
  · rw [htraces, hids]
  · rw [htraces, mem_tracesOf_ids]
  · rw [htraces, hids]
    exact (hk.l1MemoryIds e (mem_of_find?_eq_some hid)).filter _
  · rw [htraces, tracesOf_eq]
    exact pairwise_sortBy _ _

theorem fits_scoringJob_feedback (cfg : RewardConfig) (store : Store) (job : Job)
    (hnone : trace.episodeId.bind store.getEpisode = none) : Fits cfg store (scoringJob store job trace) ∧
      (scoringJob store job trace).phase = .feedback := by
  have hphase : (scoringJob store job trace).phase = .feedback := by
    unfold scoringJob
    rw [hnone]
    rfl
  refine ⟨?_, hphase⟩
  unfold Fits
  rw [hphase]
  intro id hid
  have hid' : trace.episodeId = some id := hid
  rwa [hid'] at hnone

theorem fits_scoringJob_final (hk : Keyed store) (job : Job)
    (hid : trace.episodeId = some id) (he : store.getEpisode id = some e)
    (hclosed : e.status = .closed) (horder : Ordered store id e) : Fits cfg store (scoringJob store job trace) := by
  have hphase : (scoringJob store job trace).phase = .final := by
    unfold scoringJob
    rw [hid, bind_some, he]
    rfl
  have htraces : (scoringJob store job trace).traces = episodeTraces store (some id) := by
    unfold scoringJob
    rw [hid]
  unfold Fits
  rw [hphase]
  exact ⟨id, e, hid, ready_of_ordered hk he hclosed horder _ htraces, fallbackScore_mem _ _⟩

theorem exists_of_final (h : Inv cfg rewardSkipReason s) (hr : r ∈ s.running) (hphase : r.phase = .final) :
    ∃ id e, r.episodeId = some id ∧ s.store.getEpisode id = some e := by
  have hfits := h.fits r hr
  unfold Fits at hfits
  rw [hphase] at hfits
  obtain ⟨id, e, hid, hready, -⟩ := hfits
  exact ⟨id, e, hid, hready.episode⟩

theorem inv_startReward (h : Inv cfg rewardSkipReason s) {job : Job}
    (hheeded : ∀ trace id e, rewardSourceForJob s.store job = some trace → trace.episodeId = some id →
      s.store.getEpisode id = some e → e.status = .closed → ¬ Busy s id ∧ Ordered s.store id e) :
    Inv cfg rewardSkipReason (startReward rewardSkipReason s job) := by
  unfold startReward
  cases hsource : rewardSourceForJob s.store job with
  | none => exact h
  | some trace =>
    simp only
    by_cases hopen : ((trace.episodeId.bind s.store.getEpisode).map (·.status)).getD .closed = .closed
    · rw [if_neg (not_not.mpr hopen)]
      have hscoring : Inv cfg rewardSkipReason
          { s with running := s.running ++ [scoringJob s.store job trace] } := by
        cases hepisode : trace.episodeId.bind s.store.getEpisode with
        | none =>
          obtain ⟨hfits, hphase⟩ := fits_scoringJob_feedback cfg s.store job hepisode
          refine inv_wait h hfits fun r' hr' hfinal heq => ?_
          rw [hphase] at hfinal
          obtain ⟨id, e, hid, he⟩ := exists_of_final h hr' (hfinal.resolve_right (by decide))
          have hid' : trace.episodeId = some id := heq.symm.trans hid
          rw [hid', bind_some, he] at hepisode
          cases hepisode
        | some e =>
          obtain ⟨id, hid, he⟩ := bind_eq_some_iff.mp hepisode
          have hclosed : e.status = .closed := by simpa [hepisode] using hopen
          obtain ⟨hbusy, horder⟩ := hheeded trace id e hsource hid he hclosed
          refine inv_wait h (fits_scoringJob_final h.keyed job hid he hclosed horder) fun r' hr' _ heq => ?_
          exact hbusy ⟨r', hr', heq.trans hid⟩
      split
      · rename_i reason id hreason hid
        cases he : s.store.getEpisode id with
        | none =>
          unfold updateEpisodeReward
          rw [if_neg (by rw [he]; exact Bool.false_ne_true)]
          exact h
        | some e =>
          have hclosed : e.status = .closed := by simpa [hid, he] using hopen
          obtain ⟨hbusy, horder⟩ := hheeded trace id e hsource hid he hclosed
          refine inv_skip h he hclosed hbusy ?_
          unfold skipReason at hreason
          split_ifs at hreason
          rw [hid, episodeTraces_eq h.keyed horder.listed] at hreason
          rw [hreason]
          exact some_ne_none _
      · exact hscoring
    · rw [if_pos hopen]
      exact h

/-! ### The updates -/

/-- What holds while a job updates the traces. -/
def Progress (cfg : RewardConfig) (store : Store) (r : Running) (u : Updating) (pending : List TraceUpdate) : Prop :=
  match r.phase with
  | .final => ∃ id e, r.episodeId = some id ∧ Ready store r id e ∧ Assigning cfg r e u pending
  | .feedback => ∀ id, r.episodeId = some id → store.getEpisode id = none

theorem Progress.fits (h : Progress cfg store r u pending) :
    Fits cfg store { r with wait := .repairing { u with pending := pending } } := by
  unfold Progress at h
  cases hphase : r.phase with
  | feedback =>
    rw [hphase] at h
    exact h
  | final =>
    rw [hphase] at h
    obtain ⟨id, e, hid, hready, hassigning⟩ := h
    exact ⟨id, e, hid, ⟨hready.episode, hready.closed, hready.active, hready.traces, hready.nodup, hready.sorted⟩,
      ⟨hassigning.rTask, hassigning.detail, hassigning.bounds, hassigning.updates⟩⟩

theorem map_traceId_of_sorted (hsorted : r.traces.Pairwise fun a b =>
    (ascending TraceMeta.ts a b).isLE = true) (rHuman : ℚ) :
    (backpropagateTraces cfg r.traces rHuman).map (·.traceId) = r.traces.map (·.id) := by
  rw [map_traceId_backpropagate, sortBy_eq_self _ hsorted]

/-- **A job that has updated all of its traces** is complete. -/
theorem complete_of_ready (hready : Ready store r id e) (hassigning : Assigning cfg r e u []) :
    Complete cfg ⟨store, r.episodeId, r.phase, r.traces, u.assigned⟩ id e := by
  have hupdates : u.assigned = backpropagateTraces cfg r.traces u.rHuman := by
    rw [← hassigning.updates, append_nil]
  obtain ⟨d, hd, hphase, hskipped, hids⟩ := hassigning.detail
  refine ⟨hready.episode, fun x => ?_, ⟨u.rHuman, hassigning.rTask, ?_⟩, ⟨d, hd, ?_, fun x => ?_⟩, ?_⟩
  · show x ∈ u.assigned.map (·.traceId) ↔ _
    rw [hupdates, map_traceId_of_sorted hready.sorted]
    exact hready.traces x
  · have hsum := sum_backpropagate cfg r.traces hassigning.bounds.1 hassigning.bounds.2
    rwa [← hupdates, sortBy_eq_self _ hready.sorted] at hsum
  · rw [hids]
    exact hready.nodup
  · rw [hids]
    exact hready.traces x
  · unfold episodeHasRewardForReflection
    rw [hassigning.rTask, hd]
    simp [hready.closed, hphase, hskipped, hids, hready.active]

theorem inv_finishReward (h : Inv cfg rewardSkipReason s)
    (hprogress : Progress cfg s.store r u []) : Inv cfg rewardSkipReason (finishReward s r u) := by
  refine ⟨h.keyed, h.fits, h.apart, ⟨h.rewarded.closed, h.rewarded.skipped, fun f hf hphase => ?_⟩⟩
  rcases mem_append.mp hf with hf | hf
  · exact h.rewarded.complete f hf hphase
  · rw [mem_singleton.mp hf] at hphase ⊢
    unfold Progress at hprogress
    rw [show r.phase = .final from hphase] at hprogress
    obtain ⟨id, e, hid, hready, hassigning⟩ := hprogress
    exact ⟨id, e, hid, complete_of_ready hready hassigning⟩

theorem getMemory_of_ready (hk : Keyed store) {update : TraceUpdate} (hready : Ready store r id e)
    (hassigning : Assigning cfg r e u (update :: pending)) : ∃ m, store.getMemory update.traceId = some m := by
  have hmem : update.traceId ∈ (backpropagateTraces cfg r.traces u.rHuman).map (·.traceId) := by
    rw [← hassigning.updates]
    simp
  rw [map_traceId_of_sorted hready.sorted, hready.traces] at hmem
  obtain ⟨m, hm, hid, htrace⟩ := hmem
  have hlive := (liveId_iff hk).mpr ⟨m, hm, hid, htrace.1⟩
  obtain ⟨m', hm', -⟩ := map_eq_some_iff.mp hlive
  exact ⟨m', hm'⟩

/-- **One update** leaves what the job needs. -/
theorem Progress.update (hk : Keyed store) {update : TraceUpdate}
    (h : Progress cfg store r u (update :: pending)) {current : MemoryRow}
    (hget : store.getMemory update.traceId = some current) (stamp : ℕ) (rHuman : ℚ) :
    Progress cfg (store.putMemory (updateTraceScore current update rHuman stamp)) r
      { u with assigned := u.assigned ++ [update] } pending := by
  unfold Progress at h ⊢
  cases hphase : r.phase with
  | feedback =>
    rw [hphase] at h
    exact h
  | final =>
    rw [hphase] at h
    obtain ⟨id, e, hid, hready, hassigning⟩ := h
    have hkeeps := keeps_updateTraceScore hk hget update rHuman stamp id
    refine ⟨id, e, hid, hready.congr hk (keyed_putMemory hk _) hready.episode rfl rfl
      (sameView_putMemory hready.episode hkeeps), ⟨hassigning.rTask, hassigning.detail, hassigning.bounds, ?_⟩⟩
    rw [← hassigning.updates, append_assoc]
    rfl

theorem inv_runUpdates (r : Running) : ∀ (pending : List TraceUpdate) {s : State} (u : Updating),
    Inv cfg rewardSkipReason s → (∀ r' ∈ s.running, Apart r' r) → Progress cfg s.store r u pending →
    Inv cfg rewardSkipReason (runUpdates cfg s r u pending)
  | [], s, u, h, _, hprogress => inv_finishReward h hprogress
  | update :: pending, s, u, h, hapart, hprogress => by
    unfold runUpdates
    cases hget : s.store.getMemory update.traceId with
    | none =>
      refine inv_runUpdates r pending u h hapart ?_
      unfold Progress at hprogress ⊢
      cases hphase : r.phase with
      | feedback =>
        rw [hphase] at hprogress
        exact hprogress
      | final =>
        rw [hphase] at hprogress
        obtain ⟨id, e, -, hready, hassigning⟩ := hprogress
        obtain ⟨m, hm⟩ := getMemory_of_ready h.keyed hready hassigning
        rw [hget] at hm
        cases hm
    | some current =>
      have hput := inv_putMemory h fun id _ =>
        keeps_updateTraceScore h.keyed hget update u.rHuman u.stamp id
      have hnext := hprogress.update h.keyed hget u.stamp u.rHuman
      split_ifs
      · exact inv_wait hput hnext.fits hapart
      · exact inv_runUpdates r pending _ hput hapart hnext

theorem inv_reward (detail : RewardDetail) (h : Inv cfg rewardSkipReason s)
    (hid : r.episodeId = some id) (hphase : r.phase = .final)
    (hready : Ready s.store r id e) (hapart : ∀ r' ∈ s.running, Apart r' r) (hskipped : detail.skipped = false) :
    Inv cfg rewardSkipReason (updateEpisodeReward s id detail) ∧
      Ready (updateEpisodeReward s id detail).store r id (e.withReward detail) := by
  have hbusy : ¬ Busy s id := by
    rintro ⟨r', hr', hid'⟩
    exact hapart r' hr' (Or.inr hphase) (hid'.trans hid.symm)
  have hwrite := inv_updateEpisode h (EpisodeRecord.withReward detail) (fun _ => rfl)
    (h.keyed.l1MemoryIds) hbusy s.queue
  unfold updateEpisodeReward
  rw [if_pos (by rw [hready.episode]; rfl)]
  refine ⟨⟨hwrite.keyed, hwrite.fits, hwrite.apart, ⟨fun w hw => ?_, fun w hw => ?_, h.rewarded.complete⟩⟩, ?_⟩
  · rcases mem_append.mp hw with hw | hw
    · exact h.rewarded.closed w hw
    · rw [mem_singleton.mp hw]
      exact ⟨e, hready.episode, hready.closed⟩
  · rcases mem_append.mp hw with hw | hw
    · exact h.rewarded.skipped w hw
    · rw [mem_singleton.mp hw]
      intro hskip
      rw [hskipped] at hskip
      cases hskip
  · refine hready.congr h.keyed hwrite.keyed ?_ rfl rfl ⟨fun _ _ => Iff.rfl, fun _ => Iff.rfl⟩
    have hget : (s.store.updateEpisode id (EpisodeRecord.withReward detail)).getEpisode id = _ :=
      getEpisode_updateEpisode fun _ => rfl
    rw [hget, hready.episode, map_some, if_pos rfl]

theorem scoreFeedbackWithLlm_mem (cfg : RewardConfig) {fallback : ℚ} (answer : Option RewardAxes)
    (h : -1 ≤ fallback ∧ fallback ≤ 1) :
    -1 ≤ scoreFeedbackWithLlm cfg fallback answer ∧ scoreFeedbackWithLlm cfg fallback answer ≤ 1 := by
  unfold scoreFeedbackWithLlm
  cases answer with
  | none => exact h
  | some axes =>
    split_ifs
    · exact combineRewardAxes_mem axes
    · exact h

/-- **From the answer of the model on.** -/
theorem inv_answerReward (h : Inv cfg rewardSkipReason s) {fallback : ℚ}
    (hwait : r.wait = .scoring fallback) (hfits : Fits cfg s.store r) (hapart : ∀ r' ∈ s.running, Apart r' r)
    (answer : Option RewardAxes) (stamp : ℕ) :
    Inv cfg rewardSkipReason (answerReward cfg s r fallback answer stamp) := by
  unfold answerReward
  unfold Fits at hfits
  cases hphase : r.phase with
  | feedback =>
    rw [hphase] at hfits
    have hprogress : ∀ u pending, Progress cfg s.store r u pending := by
      intro u pending
      unfold Progress
      rw [hphase]
      exact hfits
    cases hid : r.episodeId with
    | none => exact inv_runUpdates r _ _ h hapart (hprogress _ _)
    | some id =>
      simp only
      unfold updateEpisodeReward
      rw [if_neg (by rw [hfits id hid]; exact Bool.false_ne_true)]
      exact inv_runUpdates r _ _ h hapart (hprogress _ _)
  | final =>
    rw [hphase] at hfits
    obtain ⟨id, e, hid, hready, hbounds⟩ := hfits
    rw [hwait] at hbounds
    rw [hid]
    simp only
    have hrHuman := scoreFeedbackWithLlm_mem cfg answer hbounds
    generalize scoreFeedbackWithLlm cfg fallback answer = rHuman at hrHuman
    obtain ⟨hinv, hready'⟩ := inv_reward ⟨rHuman, .final, false, r.traces.map (·.id)⟩ h hid hphase hready
      hapart rfl
    refine inv_runUpdates r _ _ hinv ?_ ?_
    · intro r' hr'
      refine hapart r' ?_
      unfold updateEpisodeReward at hr'
      split_ifs at hr' <;> exact hr'
    · unfold Progress
      rw [hphase]
      exact ⟨id, _, hid, hready', ⟨rfl, ⟨_, rfl, rfl, rfl, rfl⟩, hrHuman, rfl⟩⟩

/-! ### Whole runs -/

theorem Apart.symm {r' : Running} (h : Apart r r') : Apart r' r := fun hfinal => (h hfinal.symm).symm

theorem apart_of_getElem? (h : Inv cfg rewardSkipReason s) {i : ℕ} (hr : s.running[i]? = some r) :
    ∀ r' ∈ s.running.eraseIdx i, Apart r' r := by
  intro r' hr'
  obtain ⟨hlt, hget⟩ := List.getElem?_eq_some_iff.mp hr
  have hsplit : s.running = s.running.take i ++ r :: s.running.drop (i + 1) := by
    rw [← hget, getElem_cons_drop, take_append_drop]
  have hapart := h.apart
  rw [hsplit, pairwise_append, pairwise_cons] at hapart
  rw [eraseIdx_eq_take_drop_succ] at hr'
  rcases mem_append.mp hr' with hr' | hr'
  · exact hapart.2.2 r' hr' r mem_cons_self
  · exact (hapart.2.1.1 r' hr').symm

/-- **A heeded step** keeps the invariant. -/
theorem inv_step (h : Inv cfg rewardSkipReason s) {event : Event} (hheeded : Heeded s event) :
    Inv cfg rewardSkipReason (step cfg rewardSkipReason s event) := by
  cases event with
  | putMemory m => exact inv_putMemory h hheeded
  | createEpisode id =>
    simp only [step]
    split_ifs with hsome
    · exact h
    · exact inv_createEpisode h (by simpa using hsome) hheeded
  | appendEpisodeTurn id m =>
    simp only [step]
    split_ifs
    · exact inv_appendEpisodeTurn h hheeded.1 hheeded.2
    · exact h
  | closeEpisode id =>
    simp only [step]
    cases he : s.store.getEpisode id with
    | none => exact h
    | some e =>
      simp only
      split_ifs with hclosed
      · exact h
      · exact inv_updateEpisode h (fun e => { e with status := .closed }) (fun _ => rfl)
          (h.keyed.l1MemoryIds) (not_busy_of_open h he hclosed) _
  | reopenEpisode id =>
    exact inv_updateEpisode h (fun e => { e with
      status := .opened
      rTask := none
      rewardDetail := none
      rewardDirty := true }) (fun _ => rfl) (h.keyed.l1MemoryIds) hheeded s.queue
  | addFeedback row episodeId l1MemoryId rationale => exact inv_addFeedback h row episodeId l1MemoryId rationale
  | finalizeClosedEpisode id => exact h.of_jobs
  | takeReflection i =>
    simp only [step]
    split
    · split_ifs
      · exact h.of_jobs
      · exact h
    · exact h
  | startReward i =>
    simp only [step]
    split
    · rename_i job hjob
      split_ifs with hreward
      · exact inv_startReward h.of_jobs fun trace id e hsource hid he hclosed =>
          hheeded job trace id e hjob hreward hsource hid he hclosed
      · exact h
    · exact h
  | answerReward i answer stamp =>
    simp only [step]
    split
    · rename_i r hr
      split
      · rename_i fallback hwait
        exact inv_answerReward (h.erase i) hwait (h.fits r (mem_of_getElem? hr)) (apart_of_getElem? h hr)
          answer stamp
      · exact h
    · exact h
  | resumeReward i =>
    simp only [step]
    split
    · rename_i r hr
      split
      · rename_i u hwait
        refine inv_runUpdates r u.pending u (h.erase i) (apart_of_getElem? h hr) ?_
        have hfits := h.fits r (mem_of_getElem? hr)
        unfold Fits at hfits
        unfold Progress
        cases hphase : r.phase with
        | feedback =>
          rw [hphase] at hfits
          exact hfits
        | final =>
          rw [hphase, hwait] at hfits
          exact hfits
      · exact h
    · exact h
  | failReward i =>
    simp only [step]
    split
    · exact h.erase i
    · exact h
  | retry i =>
    simp only [step]
    split
    · exact h.of_jobs
    · exact h

theorem inv_start : Inv cfg rewardSkipReason start where
  keyed := ⟨nodup_nil, nodup_nil, nofun⟩
  fits _ h := absurd h not_mem_nil
  apart := List.Pairwise.nil
  rewarded := ⟨nofun, nofun, nofun⟩

end Steps

/-- **Closed episodes are rewarded completely, and only while closed,** in every run whose steps are heeded. -/
theorem rewarded_of_heeded (events : List Event)
    (h : ∀ p ∈ taken (step cfg rewardSkipReason) start events, Heeded p.1 p.2) :
    ∀ s ∈ visited (step cfg rewardSkipReason) start events, Rewarded cfg rewardSkipReason s := by
  intro s hs
  have hstep : ∀ s e, Inv cfg rewardSkipReason s → Heeded s e →
      Inv cfg rewardSkipReason (step cfg rewardSkipReason s e) := fun _ _ hinv he => inv_step hinv he
  exact (invariant_of_steps hstep events start inv_start h s hs).rewarded

namespace Example

def config : RewardConfig where
  gamma := 9 / 10
  lambda := 1 / 2
  delta := 1 / 10
  llmScoring := true
  valueDistributionRepairEnabled := true

def noSkip (_ : List TraceMeta) : Option String := none

def turn : MemoryRow where
  id := "m1"
  memoryLayer := .l1
  status := .activated
  deletedAt := none
  createdAt := 1
  updatedAt := 1
  timeline := 1
  trace := some {
    episodeId := some "e"
    ts := some 1
    reflection := some "PIVOTAL"
    alpha := some 1
    value := none
    rHuman := none
    userText := "Why?"
    agentText := "Because."
    toolCalls := 0 }
  reflectionScored := true
  capturePending := false

/-- An episode of one turn is closed, and its reward job asks the model. -/
def asked : List Event := [
  .createEpisode "e",
  .appendEpisodeTurn "e" turn,
  .closeEpisode "e",
  .startReward 0]

/-- The user goes on with the episode while the model is asked. -/
def reopened : List Event := asked ++ [
  .reopenEpisode "e",
  .answerReward 0 (some ⟨1, 1, 1⟩) 2]

/-- The reward is written to the open episode. -/
theorem reopened_not_rewarded : ¬ ∀ s ∈ visited (step config noSkip) start reopened, Rewarded config noSkip s := by
  intro h
  have hfinal := h _ (final_mem_visited _ _ _)
  have hopen : ∃ w ∈ (final (step config noSkip) start reopened).written,
      (w.store.getEpisode w.episodeId).map (·.status) = some .opened := by
    decide +kernel
  obtain ⟨w, hw, hstatus⟩ := hopen
  obtain ⟨e, he, hclosed⟩ := hfinal.closed w hw
  rw [he, map_some, hclosed] at hstatus
  cases hstatus

/-- The model answers while the episode stays closed. -/
def answered : List Event := asked ++ [.answerReward 0 (some ⟨1, 1, 1⟩) 2, .resumeReward 0]

/-- The episode when its reward job starts. -/
def closedEpisode : EpisodeRecord :=
  { newEpisode "e" with
    status := .closed
    l1MemoryIds := ["m1"] }

/-- The service when the reward job starts. -/
def closed : State := final (step config noSkip) start asked.dropLast

theorem closed_ordered : Ordered closed.store "e" closedEpisode := by
  have hmemories : closed.store.memories = [turn] := by decide +kernel
  have hturn : turn.IsTraceOf "e" := ⟨⟨rfl, rfl⟩, rfl, rfl⟩
  refine ⟨fun m hm _ => ?_, [turn], by decide +kernel, pairwise_singleton _ _, fun m => ?_⟩
  · rw [hmemories] at hm
    rw [mem_singleton.mp hm]
    decide +kernel
  · rw [hmemories]
    exact ⟨fun h => ⟨h, mem_singleton.mp h ▸ hturn⟩, fun h => h.1⟩

theorem closed_heeded : Heeded closed (.startReward 0) := by
  intro job trace id e hjob _ hsource hid he _
  have hsourceIs : (closed.queue[0]?.bind (rewardSourceForJob closed.store)).bind (·.episodeId) = some "e" := by
    decide +kernel
  rw [hjob, bind_some, hsource, bind_some, hid] at hsourceIs
  obtain rfl := some.inj hsourceIs
  cases he
  refine ⟨?_, closed_ordered⟩
  rintro ⟨r, hr, -⟩
  exact absurd (ne_nil_of_mem hr) (by decide +kernel)

/-- A run with a complete reward. -/
theorem answered_rewarded : (∃ s ∈ visited (step config noSkip) start answered, s.finished.length = 1) ∧
    ∀ s ∈ visited (step config noSkip) start answered, Rewarded config noSkip s := by
  refine ⟨⟨_, final_mem_visited _ _ _, by decide +kernel⟩, rewarded_of_heeded config noSkip answered ?_⟩
  have hidle : ∀ s : State, s.running = [] → ∀ id, ¬ Busy s id := by
    rintro s hs id ⟨r, hr, -⟩
    rw [hs] at hr
    cases hr
  intro p hp
  simp only [answered, asked, cons_append, nil_append, taken_cons, taken_nil, mem_cons,
    not_mem_nil, or_false] at hp
  rcases hp with rfl | rfl | rfl | rfl | rfl | rfl
  · exact hidle _ rfl _
  · exact ⟨hidle _ (by decide +kernel) _, fun id h => absurd h (hidle _ (by decide +kernel) id)⟩
  · trivial
  · exact closed_heeded
  · trivial
  · trivial

end Example

end Memmy.Reward
