import Mathlib.Data.List.Nodup
import Memmy.AgentSource.Executor

/-! # What the steps of a scan keep

The invariant `Inv` of the executor, and that it is kept while a running scan goes on. The scan that is not
canceled is the one of the controller, it runs or is paused, and no other scan waits for the end of a pause;
while a pause stands every scan is `Calm`: it looks at the pause again before it submits a turn or writes the
state of a source, or it is aborted and its signal holds it back.

* `inv_setScan`: a scan may go on in its own variables.
* `inv_check`: a look at the pause, by a scan that has looked at its signal, or while there is none.
* `inv_written`, `inv_callBack`, `inv_forget`, `inv_cleaned`: the ends of a write, of a scan and of a job.
* `inv_advance`: one step of a running scan. -/

namespace Memmy.AgentSource

open List Option State

/-! ### What the log may hold -/

/-- Kept silent by a pause: turns, the state of the sources, and the scans of the automation. -/
def Entry.Outward (e : Entry) : Prop :=
  e.effect = .submitted ∨ e.effect = .wroteState ∨ e.effect = .setSource ∨
    (e.automatic = true ∧ (e.effect = .started ∨ e.effect = .resumed))

/-- Denied to a canceled job. -/
def Entry.Shown (e : Entry) : Prop :=
  e.effect = .submitted ∨ e.effect = .setSource ∨ e.effect = .setStatus ∨ e.effect = .started

/-! ### Looks at the pause -/

/-- The scan looks at the pause again before it submits a turn or writes the state of a source. -/
def Wait.guarded : Wait → Bool
  | .passed .turn _ | .passed .write _ => false
  | .makingDirectory | .writingFile | .renaming | .removingTemporary none => false
  | _ => true

/-- Nothing follows that a pause has to hold back; the signal holds back what an aborted scan has ahead, but
for a rename that is on its way. -/
def Scan.Calm (r : Scan) : Prop := r.wait.guarded ∨ (r.aborted ∧ r.wait ≠ .renaming)

instance (r : Scan) : Decidable r.Calm := inferInstanceAs (Decidable (_ ∨ _))

def Stop.isDirect : Stop → Bool
  | .check place => place.direct
  | .stage => false

/-- The scan comes to the loop of `waitWhilePaused` without having looked at its signal. -/
def looksUnguarded (r : Scan) (answer : Answer) : Bool :=
  match r.wait, answer with
  | .openStore, .opened preserved =>
    (toDetect { r with
      opened := true
      preserved := preserved }).2.isDirect
  | .detecting, .available yes => (detected r yes).any (·.2.isDirect)
  | .scanning, .ended => (stageEnd r 0).2.isDirect
  | .passed .hash _, .hashed contentHash => (prepareEnd r contentHash).2.isDirect
  | .woken _ _, .done => true
  | _, _ => false

/-- The files of a canceled job cannot be removed. -/
def removalFails (r : Scan) (answer : Answer) : Bool :=
  match r.wait, answer with
  | .cleaning _, .fail _ => true
  | _, _ => false

/-! ### The invariant -/

/-- Its callbacks have not reported its end. -/
def Scan.Uncalled (r : Scan) : Prop := r.wait ≠ .called

/-- The scan has not been aborted, and its end is not reported. -/
def Scan.Live (r : Scan) : Prop := r.Uncalled ∧ ¬ r.aborted

structure Inv (s : State) : Prop where
  ids : (s.scans.map (·.id)).Nodup
  idLt : ∀ r ∈ s.scans, r.id < s.nextId
  owner : ∀ r ∈ s.scans, r.Uncalled → ¬ r.canceled → s.controller = some r.id
  owned : ∀ r ∈ s.scans, s.controller = some r.id → ¬ r.canceled →
    s.scan.jobId = some r.job ∧ s.activeRequest = some r.request
  live : ∀ r ∈ s.scans, r.Live → s.scan.running = !s.paused ∧ s.disposed = false
  canceledAborted : ∀ r ∈ s.scans, r.canceled → r.aborted
  abortedWhy : ∀ r ∈ s.scans, r.aborted → r.canceled ∨ s.disposed
  blocked : ∀ r ∈ s.scans, r.wait.isBlocked → ¬ r.aborted ∧ s.paused ∧ s.resume = some r.id
  calm : s.held.isSome → ∀ r ∈ s.scans, r.Calm ∧ (r.Live → s.paused)
  heldRequest : ∀ h, s.held = some h → s.paused → s.activeRequest = some h
  jobs : ∀ r ∈ s.scans, ∀ r' ∈ s.scans, r.Unsettled → r'.Unsettled → r.job = r'.job → r.id = r'.id
  jobLt : ∀ r ∈ s.scans, r.job < s.nextJob
  storeLt : ∀ m ∈ s.stores, m.jobId < s.nextJob
  canceledLt : ∀ j ∈ s.everCanceled, j < s.nextJob
  /-- The store of a canceled job is excluded or gone. -/
  gone : ∀ j ∈ s.everCanceled, j ∈ s.canceledJobs ∨
    ((∀ m ∈ s.stores, m.jobId ≠ j) ∧ ∀ r ∈ s.scans, r.Unsettled → r.job ≠ j)
  canceledJob : ∀ r ∈ s.scans, r.canceled → r.job ∈ s.everCanceled
  status : ∀ j, s.scan.jobId = some j → j < s.nextJob ∧ j ∉ s.everCanceled
  held : ∀ e ∈ s.log, e.held = true → ¬ e.Outward
  canceled : ∀ e ∈ s.log, e.canceled = true → ¬ e.Shown

section Frame
variable {place : Place} {outcome : Option String} {stop : Scan × Stop}

variable {s : State} {r r' : Scan}

/-- A scan that has gone on in its own variables only. -/
structure SameScan (r r' : Scan) : Prop where
  id : r'.id = r.id
  job : r'.job = r.job
  request : r'.request = r.request
  aborted : r'.aborted = r.aborted
  canceled : r'.canceled = r.canceled

theorem SameScan.refl (r : Scan) : SameScan r r := ⟨rfl, rfl, rfl, rfl, rfl⟩

theorem SameScan.wait (h : SameScan r r') (wait : Wait) : SameScan r { r' with wait := wait } :=
  ⟨h.id, h.job, h.request, h.aborted, h.canceled⟩

theorem mem_setScan {x : Scan} (h : x ∈ (s.setScan r').scans) : (x ∈ s.scans ∧ x.id ≠ r'.id) ∨ x = r' := by
  obtain ⟨y, hy, rfl⟩ := mem_map.mp h
  by_cases hid : y.id = r'.id
  · exact Or.inr (if_pos hid)
  · rw [if_neg hid]
    exact Or.inl ⟨hy, hid⟩

theorem ids_setScan : (s.setScan r').scans.map (·.id) = s.scans.map (·.id) := by
  simp only [setScan, List.map_map]
  refine map_congr_left fun x _ => ?_
  rw [Function.comp_apply]
  by_cases hid : x.id = r'.id
  · rw [if_pos hid, hid]
  · rw [if_neg hid]

/-- **A scan goes on** in its own variables. -/
theorem inv_setScan (h : Inv s) (hr : r ∈ s.scans) (hsame : SameScan r r') (huncalled : r.Uncalled)
    (hunsettled : r'.Unsettled → r.Unsettled)
    (hblocked : r'.wait.isBlocked → ¬ r.aborted ∧ s.paused ∧ s.resume = some r.id)
    (hcalm : s.held.isSome → r'.Calm) : Inv (s.setScan r') := by
  have hof : ∀ {p : Scan → Prop}, (∀ x ∈ s.scans, p x) → p r' → ∀ x ∈ (s.setScan r').scans, p x := by
    intro p hp hr' x hx
    rcases mem_setScan hx with ⟨hx, -⟩ | rfl
    · exact hp x hx
    · exact hr'
  have hlive : r'.Live → r.Live := fun hl => ⟨huncalled, hsame.aborted ▸ hl.2⟩
  refine {
    ids := by
      rw [ids_setScan]
      exact h.ids
    idLt := hof h.idLt (hsame.id ▸ h.idLt r hr)
    owner := hof h.owner fun _ hc => hsame.id ▸ h.owner r hr huncalled (hsame.canceled ▸ hc)
    owned := hof h.owned fun ho hc => ?_
    live := hof h.live fun hl => h.live r hr (hlive hl)
    canceledAborted := hof h.canceledAborted fun hc => hsame.aborted ▸ h.canceledAborted r hr (hsame.canceled ▸ hc)
    abortedWhy := hof h.abortedWhy fun ha => ?_
    blocked := hof h.blocked fun hb => ?_
    calm := fun hheld => hof (h.calm hheld) ⟨hcalm hheld, fun hl => (h.calm hheld r hr).2 (hlive hl)⟩
    heldRequest := h.heldRequest
    jobs := ?_
    jobLt := hof h.jobLt (hsame.job ▸ h.jobLt r hr)
    storeLt := h.storeLt
    canceledLt := h.canceledLt
    gone := fun j hj => (h.gone j hj).imp_right fun hg =>
      ⟨hg.1, hof hg.2 fun hu => hsame.job ▸ hg.2 r hr (hunsettled hu)⟩
    canceledJob := hof h.canceledJob fun hc => hsame.job ▸ h.canceledJob r hr (hsame.canceled ▸ hc)
    status := h.status
    held := h.held
    canceled := h.canceled }
  · rw [hsame.job, hsame.request]
    exact h.owned r hr (hsame.id ▸ ho) (hsame.canceled ▸ hc)
  · rw [hsame.canceled]
    exact h.abortedWhy r hr (hsame.aborted ▸ ha)
  · rw [hsame.aborted, hsame.id]
    exact hblocked hb
  · refine hof (fun x hx => hof (fun y hy => h.jobs x hx y hy) ?_) (hof ?_ fun _ _ _ => rfl)
    · intro hu hu' heq
      rw [hsame.id]
      exact h.jobs x hx r hr hu (hunsettled hu') (hsame.job ▸ heq)
    · intro y hy hu hu' heq
      rw [hsame.id]
      exact h.jobs r hr y hy (hunsettled hu) hu' (hsame.job ▸ heq)

theorem eq_of_id (h : Inv s) (hr : r ∈ s.scans) (hr' : r' ∈ s.scans) (hid : r.id = r'.id) : r = r' :=
  inj_on_of_nodup_map h.ids hr hr' hid

theorem eq_of_notCanceled (h : Inv s) (hr : r ∈ s.scans) (hr' : r' ∈ s.scans) (hu : r.Uncalled)
    (hc : ¬ r.canceled) (hu' : r'.Uncalled) (hc' : ¬ r'.canceled) : r = r' :=
  eq_of_id h hr hr' (some.inj ((h.owner r hr hu hc).symm.trans (h.owner r' hr' hu' hc')))

theorem not_canceled_of_not_aborted (h : Inv s) (hr : r ∈ s.scans) (ha : ¬ r.aborted) : ¬ r.canceled :=
  fun hc => ha (h.canceledAborted r hr hc)

theorem uncalled_of_isBlocked (hb : r.wait.isBlocked) : r.Uncalled := by
  intro hw
  rw [hw] at hb
  cases hb

theorem Scan.Unsettled.uncalled (hu : r.Unsettled) : r.Uncalled := by
  intro hw
  unfold Scan.Unsettled at hu
  rw [hw] at hu
  exact hu

/-- While a scan that is not aborted is elsewhere, none waits for the end of the pause. -/
theorem not_blocked_of_live (h : Inv s) (hr : r ∈ s.scans) (hl : r.Live) (hnb : ¬ r.wait.isBlocked) :
    ∀ x ∈ s.scans, ¬ x.wait.isBlocked := by
  intro x hx hb
  have hxl := (h.blocked x hx hb).1
  have heq := eq_of_notCanceled h hx hr (uncalled_of_isBlocked hb) (not_canceled_of_not_aborted h hx hxl)
    hl.1 (not_canceled_of_not_aborted h hr hl.2)
  exact hnb (heq ▸ hb)

theorem inv_throw (h : Inv s) (hr : r ∈ s.scans) (hu : r.Unsettled) (hsame : SameScan r r') (error : String) :
    Inv (s.throw r' error) :=
  inv_setScan h hr (hsame.wait _) hu.uncalled (fun _ => hu) (fun hb => absurd hb (by simp [Wait.isBlocked]))
    fun _ => Or.inl rfl

theorem inv_waitWhilePaused (h : Inv s) (hr : r ∈ s.scans) (hu : r.Unsettled) (hnb : ¬ r.wait.isBlocked)
    (hsame : SameScan r r') (hguard : r.aborted → ¬ s.paused) (place : Place) (again : Bool) :
    Inv (s.waitWhilePaused r' place again) := by
  unfold waitWhilePaused
  by_cases hpaused : s.paused
  · rw [if_pos hpaused]
    have hna : ¬ r.aborted := fun ha => hguard ha hpaused
    have hfree := not_blocked_of_live h hr ⟨hu.uncalled, hna⟩ hnb
    have hresume : Inv { s with resume := some r'.id } :=
      { h with blocked := fun x hx hb => absurd hb (hfree x hx) }
    exact inv_setScan hresume hr (hsame.wait _) hu.uncalled (fun _ => hu)
      (fun _ => ⟨hna, hpaused, congrArg some hsame.id⟩) fun _ => Or.inl rfl
  · rw [if_neg hpaused]
    by_cases ha : r'.aborted
    · rw [if_pos ha]
      exact inv_throw h hr hu hsame _
    · rw [if_neg ha]
      refine inv_setScan h hr (hsame.wait _) hu.uncalled (fun _ => hu) (fun hb => absurd hb (by simp [Wait.isBlocked])) ?_
      exact fun hheld => absurd ((h.calm hheld r hr).2 ⟨hu.uncalled, hsame.aborted ▸ ha⟩) hpaused

theorem inv_checkpoint (h : Inv s) (hr : r ∈ s.scans) (hu : r.Unsettled) (hnb : ¬ r.wait.isBlocked)
    (hsame : SameScan r r') (place : Place) (again : Bool) : Inv (s.checkpoint r' place again) := by
  unfold checkpoint
  by_cases ha : r'.aborted
  · rw [if_pos ha]
    exact inv_throw h hr hu hsame _
  · rw [if_neg ha]
    exact inv_waitWhilePaused h hr hu hnb hsame (fun hra => absurd (hsame.aborted ▸ hra) ha) place again

theorem inv_check (h : Inv s) (hr : r ∈ s.scans) (hu : r.Unsettled) (hnb : ¬ r.wait.isBlocked)
    (hsame : SameScan r r') (hguard : place.direct → r.aborted → ¬ s.paused) : Inv (s.check r' place) := by
  unfold check
  by_cases hdirect : place.direct
  · rw [if_pos hdirect]
    exact inv_waitWhilePaused h hr hu hnb hsame (hguard hdirect) place false
  · rw [if_neg hdirect]
    exact inv_checkpoint h hr hu hnb hsame place false

/-! ### Stores, log and reported status -/

theorem inv_saveMeta (h : Inv s) (r : Scan) (mode : Option ScanMode) (phase : Phase) (error : Option String)
    (now : ℕ) : Inv (s.saveMeta r mode phase error now) := by
  have hid : ∀ m ∈ (s.saveMeta r mode phase error now).stores, ∃ m' ∈ s.stores, m.jobId = m'.jobId := by
    intro m hm
    obtain ⟨m', hm', rfl⟩ := mem_map.mp hm
    refine ⟨m', hm', ?_⟩
    split_ifs <;> rfl
  exact { h with
    storeLt := fun m hm => by
      obtain ⟨m', hm', heq⟩ := hid m hm
      exact heq ▸ h.storeLt m' hm'
    gone := fun j hj => (h.gone j hj).imp_right fun hg => ⟨fun m hm => by
      obtain ⟨m', hm', heq⟩ := hid m hm
      exact heq ▸ hg.1 m' hm', hg.2⟩ }

theorem openStore_eq (s : State) (r : Scan) (now : ℕ) : ∃ stores, s.openStore r now = { s with stores := stores } := by
  unfold openStore
  split_ifs
  · exact ⟨s.stores, rfl⟩
  · exact ⟨_, rfl⟩

theorem inv_openStore (h : Inv s) (hr : r ∈ s.scans) (hu : r.Unsettled) (now : ℕ) : Inv (s.openStore r now) := by
  unfold openStore
  by_cases hany : s.stores.any (·.jobId = r.job)
  · rw [if_pos hany]
    exact h
  · rw [if_neg hany]
    exact { h with
      storeLt := by
        intro m hm
        rcases mem_append.mp hm with hm | hm
        · exact h.storeLt m hm
        · rw [mem_singleton.mp hm]
          exact h.jobLt r hr
      gone := fun j hj => (h.gone j hj).imp_right fun hg => ⟨by
        intro m hm
        rcases mem_append.mp hm with hm | hm
        · exact hg.1 m hm
        · rw [mem_singleton.mp hm]
          exact hg.2 r hr hu, hg.2⟩ }

theorem inv_removeStore (h : Inv s) (job : ℕ) : Inv (s.removeStore job) :=
  { h with
    storeLt := fun m hm => h.storeLt m (mem_of_mem_filter hm)
    gone := fun j hj => (h.gone j hj).imp_right fun hg =>
      ⟨fun m hm => hg.1 m (mem_of_mem_filter hm), hg.2⟩ }

/-- An effect is recorded that neither a pause nor a cancel forbids. -/
theorem inv_log (h : Inv s) {e : Entry} (hheld : e.held → ¬ e.Outward) (hcanceled : e.canceled → ¬ e.Shown) :
    Inv { s with log := s.log ++ [e] } :=
  { h with
    held := by
      intro x hx
      rcases mem_append.mp hx with hx | hx
      · exact h.held x hx
      · exact mem_singleton.mp hx ▸ hheld
    canceled := by
      intro x hx
      rcases mem_append.mp hx with hx | hx
      · exact h.canceled x hx
      · exact mem_singleton.mp hx ▸ hcanceled }

theorem inv_scan (h : Inv s) {scan : AgentSourceScanState} (hrunning : scan.running = s.scan.running)
    (hjob : scan.jobId = s.scan.jobId) : Inv { s with scan := scan } :=
  { h with
    owned := fun x hx ho hc => ⟨hjob.trans (h.owned x hx ho hc).1, (h.owned x hx ho hc).2⟩
    live := fun x hx hl => ⟨hrunning.trans (h.live x hx hl).1, (h.live x hx hl).2⟩
    status := fun j hj => h.status j (hjob ▸ hj) }

theorem inv_setStatus (h : Inv s) (hr : r ∈ s.scans) (ha : ¬ r.aborted) : Inv (s.record .setStatus r) :=
  inv_log h (fun _ => by simp [Entry.Outward])
    fun hc => absurd hc (not_canceled_of_not_aborted h hr ha)

theorem scans_onProgress (s : State) (r : Scan) (progress : ScanProgress) :
    (s.onProgress r progress).scans = s.scans := by
  unfold onProgress
  split_ifs <;> rfl

theorem inv_onProgress (h : Inv s) (hr : r ∈ s.scans) (progress : ScanProgress) :
    Inv (s.onProgress r progress) := by
  unfold onProgress
  by_cases hif : s.scan.jobId = some r.job ∧ ¬ r.aborted ∧ ¬ s.paused
  · rw [if_pos hif]
    have hscan : Inv { s with scan := { s.scan with progress := some progress } } := inv_scan h rfl rfl
    have hbefore : Inv { s with
        progressBeforePause := some progress
        scan := { s.scan with progress := some progress } } := { hscan with }
    exact inv_setStatus hbefore hr hif.2.1
  · rw [if_neg hif]
    exact h

/-! ### The steps of a scan -/

/-- A scan whose loops have gone on. -/
structure Looped (r r' : Scan) : Prop where
  same : SameScan r r'
  wait : r'.wait = r.wait

theorem Looped.trans {a b c : Scan} (h' : Looped b c) (hsame : SameScan a b) (hwait : b.wait = a.wait) :
    Looped a c where
  same := ⟨h'.same.id.trans hsame.id, h'.same.job.trans hsame.job, h'.same.request.trans hsame.request,
    h'.same.aborted.trans hsame.aborted, h'.same.canceled.trans hsame.canceled⟩
  wait := h'.wait.trans hwait

open SameScan

theorem looped_toIngest (r : Scan) : Looped r (toIngest r).1 := by
  unfold toIngest
  split <;> exact ⟨refl r, rfl⟩

theorem looped_toPrepare (r : Scan) : Looped r (toPrepare r).1 := by
  unfold toPrepare
  split
  · exact (looped_toIngest _).trans ⟨rfl, rfl, rfl, rfl, rfl⟩ rfl
  · exact ⟨refl r, rfl⟩

theorem looped_toStage (r : Scan) : Looped r (toStage r).1 := by
  unfold toStage
  split
  · exact (looped_toPrepare _).trans ⟨rfl, rfl, rfl, rfl, rfl⟩ rfl
  · exact ⟨refl r, rfl⟩

theorem looped_toDetect (r : Scan) : Looped r (toDetect r).1 := by
  unfold toDetect
  split
  · exact (looped_toStage _).trans ⟨rfl, rfl, rfl, rfl, rfl⟩ rfl
  · exact ⟨refl r, rfl⟩

theorem looped_stageEnd (r : Scan) (n : ℕ) : Looped r (stageEnd r n).1 :=
  (looped_toStage _).trans ⟨rfl, rfl, rfl, rfl, rfl⟩ rfl

theorem looped_prepareEnd (r : Scan) (contentHash : String) : Looped r (prepareEnd r contentHash).1 :=
  (looped_toPrepare _).trans ⟨rfl, rfl, rfl, rfl, rfl⟩ rfl

theorem looped_detected {yes : Bool} (h : detected r yes = some stop) : Looped r stop.1 := by
  unfold detected at h
  split_ifs at h
  · exact some.inj h ▸ (looped_toDetect _).trans ⟨rfl, rfl, rfl, rfl, rfl⟩ rfl
  · exact some.inj h ▸ (looped_toDetect _).trans ⟨rfl, rfl, rfl, rfl, rfl⟩ rfl

theorem looped_ingestEnd (r : Scan) (errors : ℕ) (skips : Bool) : Looped r (ingestEnd r errors skips).1 :=
  (looped_toIngest _).trans ⟨rfl, rfl, rfl, rfl, rfl⟩ rfl

theorem beginStage_same (r : Scan) (sources : Sources) : SameScan r (beginStage r sources) := by
  unfold beginStage
  split
  · exact refl r
  · exact ⟨rfl, rfl, rfl, rfl, rfl⟩

theorem beginStage_wait (r : Scan) (sources : Sources) :
    (beginStage r sources).wait = .scanning ∨ (beginStage r sources).wait = r.wait := by
  unfold beginStage
  split
  · exact Or.inr rfl
  · exact Or.inl rfl

def Wait.isIdle : Wait → Bool
  | .blocked _ _ | .settled _ | .called => false
  | _ => true

/-- It has not returned and is not in the promise of `waitWhilePaused`. -/
def Scan.Idle (r : Scan) : Prop := r.Unsettled ∧ ¬ r.wait.isBlocked

theorem inv_arrive (h : Inv s) (hr : r ∈ s.scans) (hidle : r.Idle)
    (hlooped : Looped r stop.1) (hguard : stop.2.isDirect → r.aborted → ¬ s.paused)
    (hcalm : stop.2 = .stage → s.held.isSome → r.Calm) (now : ℕ) : Inv (s.arrive now stop) := by
  obtain ⟨r', stop⟩ := stop
  cases stop with
  | check place => exact inv_check h hr hidle.1 hidle.2 hlooped.same hguard
  | stage =>
    have hsame := beginStage_same r' s.sources
    have hsame' : SameScan r (beginStage r' s.sources) := ⟨hsame.id.trans hlooped.same.id,
      hsame.job.trans hlooped.same.job, hsame.request.trans hlooped.same.request,
      hsame.aborted.trans hlooped.same.aborted, hsame.canceled.trans hlooped.same.canceled⟩
    have hwait := hlooped.wait
    refine inv_setScan (inv_saveMeta h _ _ _ _ _) hr hsame' hidle.1.uncalled (fun _ => hidle.1) (fun hb => ?_)
      (fun hheld => ?_)
    · rcases beginStage_wait r' s.sources with hw | hw
      · rw [hw] at hb
        cases hb
      · rw [hw, hwait] at hb
        exact absurd hb hidle.2
    · rcases beginStage_wait r' s.sources with hw | hw
      · exact Or.inl (by rw [hw]; rfl)
      · have hc := hcalm rfl hheld
        unfold Scan.Calm at hc ⊢
        rw [hw, hwait, hsame'.aborted]
        exact hc

theorem aborted_of_held (h : Inv s) (hr : r ∈ s.scans) (hw : ¬ r.wait.guarded) (hheld : s.held.isSome) :
    r.aborted ∧ r.wait ≠ .renaming :=
  ((h.calm hheld r hr).1).resolve_left hw

/-- An effect that a pause forbids comes from a scan that is past its look, so that no pause stands. -/
theorem inv_record (h : Inv s) (hr : r ∈ s.scans) (ha : ¬ r.aborted) (hw : ¬ r.wait.guarded) (effect : Effect) :
    Inv (s.record effect r) :=
  inv_log h (fun hheld => absurd (aborted_of_held h hr hw hheld).1 ha)
    fun hc => absurd hc (not_canceled_of_not_aborted h hr ha)

theorem inv_stageFailed (h : Inv s) (hr : r ∈ s.scans) (hidle : r.Idle) (hcalm : r.Calm) (error : String)
    (now : ℕ) : Inv (s.stageFailed now r error) := by
  unfold stageFailed
  by_cases ha : r.aborted
  · rw [if_pos ha]
    exact inv_throw h hr hidle.1 (refl r) error
  · rw [if_neg ha]
    exact inv_arrive h hr hidle (looped_stageEnd r 1) (fun _ hra => absurd hra ha) (fun _ _ => hcalm) now

theorem not_direct_of_follows {next : Place} (h : next ∈ place.follows) : ¬ next.direct := by
  cases place <;> simp only [Place.follows, mem_cons, not_mem_nil, or_false] at h
  all_goals rcases h with rfl | rfl | rfl | rfl
  all_goals decide

theorem inv_goOn (h : Inv s) (hr : r ∈ s.scans) (hidle : r.Idle) {wait : Wait} (hblocked : ¬ wait.isBlocked)
    (hcalm : s.held.isSome → { r with wait := wait }.Calm) : Inv (s.setScan { r with wait := wait }) :=
  inv_setScan h hr ((refl r).wait wait) hidle.1.uncalled (fun _ => hidle.1) (fun hb => absurd hb hblocked) hcalm

/-- The loop comes to its next look. -/
theorem inv_checkNext (h : Inv s) (hr : r ∈ s.scans) (hidle : r.Idle) {next : Place}
    (hnext : next ∈ place.follows) : Inv (s.check r next) :=
  inv_check h hr hidle.1 hidle.2 (refl r) fun hd => absurd hd (not_direct_of_follows hnext)

/-- **Behind its look** a scan does what the pause and its signal allow. -/
theorem inv_proceed (h : Inv s) (hr : r ∈ s.scans) {again : Bool}
    (hwait : r.wait = .passed place again) (answer : Answer)
    (hguard : r.aborted → s.paused → ¬ looksUnguarded r answer) (now : ℕ) :
    Inv (s.proceed now r place answer) := by
  have hidle : r.Idle := by
    constructor <;> simp [Scan.Unsettled, hwait, Wait.isBlocked]
  have hthrow : ∀ error, Inv (s.throw r error) := fun error => inv_throw h hr hidle.1 (refl r) error
  unfold proceed
  split
  case h_1 =>
    split_ifs
    · exact hthrow _
    · exact inv_goOn h hr hidle (by decide) fun _ => Or.inl rfl
  case h_2 => exact inv_goOn h hr hidle (by decide) fun _ => Or.inl rfl
  case h_3 error => exact inv_stageFailed h hr hidle (Or.inl (by rw [hwait]; rfl)) error now
  case h_4 next =>
    split_ifs with ha hnext
    · exact hthrow _
    · exact inv_checkNext (inv_saveMeta h _ _ _ _ _) hr hidle hnext
    · exact h
  case h_5 contentHash =>
    split_ifs with ha
    · exact hthrow _
    · exact inv_arrive (inv_saveMeta h _ _ _ _ _) hr hidle (looped_prepareEnd r contentHash)
        (fun _ hra => absurd hra ha) (fun _ _ => Or.inl (by rw [hwait]; rfl)) now
  case h_6 next =>
    split_ifs with hnext
    · exact inv_checkNext h hr hidle hnext
    · exact h
  case h_7 contentHash =>
    refine inv_arrive h hr hidle (looped_prepareEnd r contentHash) (fun hd hra hp => ?_)
      (fun _ _ => Or.inl (by rw [hwait]; rfl)) now
    exact hguard hra hp (by simpa [looksUnguarded, hwait] using hd)
  case h_8 next =>
    split_ifs with ha hnext
    · exact hthrow _
    · exact inv_checkNext (inv_saveMeta h _ _ _ _ _) hr hidle hnext
    · exact h
  case h_9 next =>
    split_ifs with hnext
    · exact inv_checkNext h hr hidle hnext
    · exact h
  case h_10 submitted progress next =>
    split_ifs with ha hnext hsubmitted
    · exact hthrow _
    · have hw : ¬ r.wait.guarded := by simp [hwait, Wait.guarded]
      exact inv_checkNext (inv_onProgress (inv_record h hr ha hw .submitted) hr progress)
        (scans_onProgress (s.record .submitted r) r progress ▸ hr) hidle hnext
    · exact inv_checkNext (inv_onProgress h hr progress) (scans_onProgress s r progress ▸ hr) hidle hnext
    · exact h
  case h_11 => exact inv_goOn h hr hidle (by decide) fun _ => Or.inl rfl
  case h_12 next =>
    split_ifs with hnext
    · exact inv_checkNext h hr hidle hnext
    · exact h
  case h_13 next =>
    split_ifs with hnext
    · refine inv_checkNext (inv_log h (fun _ => ?_) fun _ => ?_) hr hidle hnext
      · simp [Entry.Outward]
      · simp [Entry.Shown]
    · exact h
  case h_14 result =>
    split
    · exact h
    · rename_i stage rest hrest
      refine inv_setScan h hr ⟨rfl, rfl, rfl, rfl, rfl⟩ hidle.1.uncalled (fun _ => hidle.1)
        (fun hb => absurd hb (by simp [Wait.isBlocked])) fun hheld => ?_
      have hw : ¬ r.wait.guarded := by simp [hwait, Wait.guarded]
      exact Or.inr ⟨(aborted_of_held h hr hw hheld).1, by simp⟩
  case h_15 => exact hthrow _
  case h_16 => exact h

/-! ### The end of a scan -/

section
variable (h : Inv s)
include h

section
variable (hr : r ∈ s.scans)
include hr

theorem inv_leave (hidle : r.Idle) (outcome : Option String) : Inv (s.leave r outcome) := by
  unfold leave
  split_ifs
  · exact inv_goOn h hr hidle (by simp [Wait.isBlocked]) fun _ => Or.inl rfl
  · exact inv_goOn h hr hidle (by simp [Wait.isBlocked]) fun _ => Or.inl rfl

theorem inv_finish (hidle : r.Idle) (now : ℕ) (withinLimit : Bool) : Inv (s.finish now r withinLimit) := by
  unfold finish
  simp only
  split_ifs
  · exact inv_leave (inv_removeStore (inv_saveMeta h _ _ _ _ _) _) hr hidle _
  · exact inv_leave (inv_removeStore (inv_saveMeta h _ _ _ _ _) _) hr hidle _
  · exact inv_leave (inv_saveMeta h _ _ _ _ _) hr hidle _
  · exact inv_leave (inv_saveMeta h _ _ _ _ _) hr hidle _

theorem inv_caught (hidle : r.Idle) (now : ℕ) (error : String) : Inv (s.caught now r error) := by
  unfold caught
  split_ifs
  · exact inv_leave (inv_saveMeta h _ _ _ _ _) hr hidle _
  · exact inv_leave h hr hidle _

/-- **The write has returned** to a scan that is not aborted. -/
theorem inv_written (hwait : r.wait = .removingTemporary none) (now : ℕ) : Inv (s.written now r) := by
  have hidle : r.Idle := by
    constructor <;> simp [Scan.Unsettled, hwait, Wait.isBlocked]
  have hw : ¬ r.wait.guarded := by simp [hwait, Wait.guarded]
  unfold written
  by_cases ha : r.aborted
  · rw [if_pos ha]
    exact inv_throw h hr hidle.1 (refl r) _
  rw [if_neg ha]
  by_cases hjob : s.scan.jobId ≠ some r.job
  · rw [if_pos hjob]
    exact inv_throw h hr hidle.1 (refl r) _
  rw [if_neg hjob]
  split
  · rename_i stage rest next file result _ _ _
    have hsources : Inv { s with sources := s.sources.set stage.sourceId next } := { h with }
    have hset := inv_saveMeta (inv_record hsources hr ha hw .setSource) r (some stage.mode) .summarize none now
    have hnext : ∀ (s' : State) (errors : ℕ), s'.scans = s.scans → Inv s' →
        Inv (s'.arrive now (ingestEnd r errors result.hasUncommittedSkips)) := by
      intro s' errors hscans h'
      refine inv_arrive h' (hscans ▸ hr) hidle (looped_ingestEnd r _ _) (fun _ hra => absurd hra ha)
        (fun hstop => ?_) now
      unfold ingestEnd toIngest at hstop
      split at hstop <;> cases hstop
    exact hnext _ _ rfl (inv_setStatus (inv_scan hset rfl rfl) hr ha)
  · exact h

/-- **The callbacks** of a scan that has returned report its end, unless it was canceled. -/
theorem inv_callBack (hwait : r.wait = .settled outcome) (now : ℕ) : Inv (s.callBack now r outcome) := by
  have huncalled : r.Uncalled := by
    unfold Scan.Uncalled
    rw [hwait]
    exact Wait.noConfusion
  have hcalled : Inv (s.setScan { r with wait := .called }) :=
    inv_setScan h hr ((refl r).wait _) huncalled (fun hu => absurd hu (by simp [Scan.Unsettled]))
      (fun hb => absurd hb (by simp [Wait.isBlocked])) fun _ => Or.inl rfl
  -- A canceled scan has another job than the reported one, and beside one that is not canceled none is live.
  have hreport : ∀ scan : AgentSourceScanState, scan.jobId = s.scan.jobId → s.scan.jobId = some r.job →
      Inv ({ s.setScan { r with wait := .called } with scan := scan }.record .setStatus r) := by
    intro scan hjob hsame
    have hc : ¬ r.canceled := fun hc => (h.status _ hsame).2 (h.canceledJob r hr hc)
    have hlive : ∀ x ∈ (s.setScan { r with wait := .called }).scans, ¬ x.Live := by
      intro x hx hl
      rcases mem_setScan hx with ⟨hxs, hid⟩ | rfl
      · have heq := eq_of_notCanceled h hxs hr hl.1 (not_canceled_of_not_aborted h hxs hl.2) huncalled hc
        exact hid (by rw [heq])
      · exact hl.1 rfl
    have hscan : Inv { s.setScan { r with wait := .called } with scan := scan } := { hcalled with
      owned := fun x hx ho hxc =>
        ⟨hjob.trans (hcalled.owned x hx ho hxc).1, (hcalled.owned x hx ho hxc).2⟩
      live := fun x hx hl => absurd hl (hlive x hx)
      status := fun j hj => h.status j (hjob.symm.trans hj) }
    exact inv_log hscan (fun _ => by simp [Entry.Outward]) fun hrc => absurd hrc hc
  unfold callBack
  split
  · split_ifs with hif
    · exact hcalled
    · exact hreport _ rfl (not_not.mp hif)
  · split_ifs with hif
    · exact hcalled
    · exact hreport _ rfl (not_not.mp (not_or.mp hif).1)

end

/-- **The last callback** leaves the executor to the next scan. -/
theorem inv_forget (r : Scan) : Inv (s.forget r) := by
  have hmem : ∀ {x}, x ∈ s.scans.filter (·.id ≠ r.id) → x ∈ s.scans ∧ x.id ≠ r.id := by
    intro x hx
    obtain ⟨hxs, hid⟩ := mem_filter.mp hx
    exact ⟨hxs, of_decide_eq_true hid⟩
  have hfilter : Inv { s with scans := s.scans.filter (·.id ≠ r.id) } :=
    { ids := h.ids.sublist (filter_sublist.map _)
      idLt := fun x hx => h.idLt x (hmem hx).1
      owner := fun x hx => h.owner x (hmem hx).1
      owned := fun x hx => h.owned x (hmem hx).1
      live := fun x hx => h.live x (hmem hx).1
      canceledAborted := fun x hx => h.canceledAborted x (hmem hx).1
      abortedWhy := fun x hx => h.abortedWhy x (hmem hx).1
      blocked := fun x hx => h.blocked x (hmem hx).1
      calm := fun hheld x hx => h.calm hheld x (hmem hx).1
      heldRequest := h.heldRequest
      jobs := fun x hx y hy => h.jobs x (hmem hx).1 y (hmem hy).1
      jobLt := fun x hx => h.jobLt x (hmem hx).1
      storeLt := h.storeLt
      canceledLt := h.canceledLt
      gone := fun j hj => (h.gone j hj).imp_right fun hg => ⟨hg.1, fun x hx => hg.2 x (hmem hx).1⟩
      canceledJob := fun x hx => h.canceledJob x (hmem hx).1
      status := h.status
      held := h.held
      canceled := h.canceled }
  unfold forget
  by_cases hown : s.controller = some r.id
  · simp only [if_pos hown]
    -- No other scan of this controller is left.
    have hother : ∀ x ∈ s.scans.filter (·.id ≠ r.id), x.Uncalled → x.canceled := by
      intro x hx hu
      by_contra hc
      have := h.owner x (hmem hx).1 hu hc
      exact (hmem hx).2 (some.inj (this.symm.trans hown))
    have hnone : ∀ x ∈ s.scans.filter (·.id ≠ r.id), ¬ x.Live :=
      fun x hx hl => hl.2 (h.canceledAborted x (hmem hx).1 (hother x hx hl.1))
    exact { hfilter with
      owner := fun x hx hu hc => absurd (hother x hx hu) hc
      owned := fun _ _ ho => by cases ho
      live := fun x hx hl => absurd hl (hnone x hx)
      blocked := fun x hx hb =>
        absurd ⟨uncalled_of_isBlocked hb, (h.blocked x (hmem hx).1 hb).1⟩ (hnone x hx)
      calm := fun hheld x hx => ⟨(h.calm hheld x (hmem hx).1).1, fun hl => absurd hl (hnone x hx)⟩
      heldRequest := nofun }
  · simp only [if_neg hown]
    exact hfilter

/-- **The clean-up** of a canceled job has removed its store. -/
theorem inv_cleaned (hr : r ∈ s.scans) (hwait : r.wait = .cleaning outcome) :
    Inv ({ s.removeStore r.job with canceledJobs := s.canceledJobs.filter (· ≠ r.job) }.setScan
      { r with wait := .settled outcome }) := by
  have hunsettled : r.Unsettled := by simp [Scan.Unsettled, hwait]
  have hsettled : Inv (s.setScan { r with wait := .settled outcome }) :=
    inv_setScan h hr ((refl r).wait _) hunsettled.uncalled (fun _ => hunsettled)
      (fun hb => absurd hb (by simp [Wait.isBlocked])) fun _ => Or.inl rfl
  have hremoved := inv_removeStore hsettled r.job
  refine { hremoved with gone := fun j hj => ?_ }
  by_cases hjob : j = r.job
  · refine Or.inr ⟨fun m hm => ?_, fun x hx hu => ?_⟩
    · rw [hjob]
      exact of_decide_eq_true (mem_filter.mp hm).2
    · rcases mem_setScan hx with ⟨hxs, hid⟩ | rfl
      · exact fun heq => hid (h.jobs x hxs r hr hu hunsettled (heq.trans hjob))
      · exact absurd hu (by simp [Scan.Unsettled])
  · rcases hremoved.gone j hj with hmem | hgone
    · exact Or.inl (mem_filter.mpr ⟨hmem, decide_eq_true hjob⟩)
    · exact Or.inr hgone

/-- **A scan goes on.** -/
theorem inv_advance (hr : r ∈ s.scans) {answer : Answer}
    (hguard : r.aborted → s.paused → ¬ looksUnguarded r answer)
    (hclean : ¬ removalFails r answer) (now : ℕ) : Inv (s.advance now r answer) := by
  have hthrow : r.Idle → ∀ error, Inv (s.throw r error) :=
    fun hidle error => inv_throw h hr hidle.1 (refl r) error
  have hidle : ∀ {wait : Wait}, r.wait = wait → wait.isIdle = true → r.Idle := by
    intro wait hwait hi
    constructor
    · unfold Scan.Unsettled
      rw [hwait]
      cases wait <;> trivial
    · rw [hwait]
      cases wait <;> first | exact Bool.false_ne_true | cases hi
  unfold advance
  split
  case h_1 hwait => exact inv_goOn h hr (hidle hwait rfl) (by simp [Wait.isBlocked]) fun _ => Or.inl rfl
  case h_2 error hwait => exact inv_goOn h hr (hidle hwait rfl) (by simp [Wait.isBlocked]) fun _ => Or.inl rfl
  case h_3 preserved hwait =>
    have hlooped : Looped r (toDetect { r with
        opened := true
        preserved := preserved }).1 := (looped_toDetect _).trans ⟨rfl, rfl, rfl, rfl, rfl⟩ rfl
    have hopened := inv_openStore h hr (hidle hwait rfl).1 now
    obtain ⟨stores, hstores⟩ := openStore_eq s r now
    rw [hstores] at hopened ⊢
    refine inv_arrive hopened hr (hidle hwait rfl) hlooped (fun hd hra hp => ?_)
      (fun _ _ => Or.inl (by rw [hwait]; rfl)) now
    exact hguard hra hp (by simpa [looksUnguarded, hwait] using hd)
  case h_4 error hwait => exact hthrow (hidle hwait rfl) error
  case h_5 place again hwait =>
    refine inv_waitWhilePaused h hr (hidle hwait rfl).1 (hidle hwait rfl).2 (refl r) (fun hra hp => ?_) place again
    exact hguard hra hp (by simp [looksUnguarded, hwait])
  case h_6 place again hwait =>
    split_ifs
    · exact inv_goOn h hr (hidle hwait rfl) (by simp [Wait.isBlocked]) fun _ => Or.inl rfl
    · exact h
  case h_7 again withinLimit hwait => exact inv_finish h hr (hidle hwait rfl) now withinLimit
  case h_8 => exact inv_proceed h hr ‹_› _ hguard now
  case h_9 place hwait =>
    exact inv_checkpoint h hr (hidle hwait rfl).1 (hidle hwait rfl).2 (refl r) place true
  case h_10 yes hwait =>
    split
    · rename_i stop hstop
      refine inv_arrive h hr (hidle hwait rfl) (looped_detected hstop) (fun hd hra hp => ?_)
        (fun _ _ => Or.inl (by rw [hwait]; rfl)) now
      exact hguard hra hp (by simpa [looksUnguarded, hwait, hstop] using hd)
    · exact hthrow (hidle hwait rfl) _
  case h_11 error hwait => exact hthrow (hidle hwait rfl) error
  case h_12 progress hwait =>
    split
    · rename_i progress
      exact inv_check (inv_onProgress h hr progress) (scans_onProgress s r progress ▸ hr) (hidle hwait rfl).1
        (hidle hwait rfl).2 (refl r) fun hd => by cases hd
    · exact inv_check h hr (hidle hwait rfl).1 (hidle hwait rfl).2 (refl r) fun hd => by cases hd
  case h_13 hwait =>
    refine inv_arrive h hr (hidle hwait rfl) (looped_stageEnd r 0) (fun hd hra hp => ?_)
      (fun _ _ => Or.inl (by rw [hwait]; rfl)) now
    exact hguard hra hp (by simpa [looksUnguarded, hwait] using hd)
  case h_14 error hwait => exact inv_stageFailed h hr (hidle hwait rfl) (Or.inl (by rw [hwait]; rfl)) error now
  case h_15 next hwait =>
    split_ifs with hnext
    · refine inv_check h hr (hidle hwait rfl).1 (hidle hwait rfl).2 (refl r) fun hd => ?_
      rcases mem_cons.mp hnext with rfl | hnext
      · cases hd
      · exact absurd hd (not_direct_of_follows hnext)
    · exact h
  case h_16 error hwait => exact hthrow (hidle hwait rfl) error
  case h_17 hwait =>
    split_ifs with ha
    · exact hthrow (hidle hwait rfl) _
    · exact inv_goOn h hr (hidle hwait rfl) (by simp [Wait.isBlocked]) fun hheld =>
        absurd (aborted_of_held h hr (by simp [hwait, Wait.guarded]) hheld).1 ha
  case h_18 error hwait => exact hthrow (hidle hwait rfl) error
  case h_19 hwait =>
    split_ifs with ha
    · exact inv_goOn h hr (hidle hwait rfl) (by simp [Wait.isBlocked]) fun _ => Or.inl rfl
    · exact inv_goOn h hr (hidle hwait rfl) (by simp [Wait.isBlocked]) fun hheld =>
        absurd (aborted_of_held h hr (by simp [hwait, Wait.guarded]) hheld).1 ha
  case h_20 error hwait => exact inv_goOn h hr (hidle hwait rfl) (by simp [Wait.isBlocked]) fun _ => Or.inl rfl
  case h_21 hwait =>
    have hw : ¬ r.wait.guarded := by simp [hwait, Wait.guarded]
    have hheld : ¬ s.held.isSome := fun hheld => (aborted_of_held h hr hw hheld).2 hwait
    split
    · rename_i next file hpending
      have hfile : Inv { s with stateFile := file } := { h with }
      refine inv_goOn (inv_log hfile (fun he => absurd he hheld) fun _ => by simp [Entry.Shown]) hr (hidle hwait rfl)
        (by simp [Wait.isBlocked]) fun he => absurd he hheld
    · exact h
  case h_22 error hwait => exact inv_goOn h hr (hidle hwait rfl) (by simp [Wait.isBlocked]) fun _ => Or.inl rfl
  case h_23 hwait => exact inv_written h hr hwait now
  case h_24 error hwait => exact hthrow (hidle hwait rfl) error
  case h_25 error hwait => exact hthrow (hidle hwait rfl) error
  case h_26 error hwait => exact inv_caught h hr (hidle hwait rfl) now error
  case h_27 outcome hwait => exact inv_cleaned h hr hwait
  case h_28 outcome error hwait => exact absurd (by simp [removalFails, hwait]) hclean
  case h_29 outcome hwait => exact inv_callBack h hr hwait now
  case h_30 hwait => exact inv_forget h r
  case h_31 => exact h

end

end Frame

end Memmy.AgentSource
