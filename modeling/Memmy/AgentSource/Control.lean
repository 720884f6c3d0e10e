import Mathlib.Algebra.Order.BigOperators.Group.List
import Mathlib.Algebra.Order.Group.Nat
import Memmy.AgentSource.Steps
import Memmy.Lib.Run

/-! # Scan control

`Controlled` says of a state what pausing and canceling promise: one scan that is not canceled, nothing
submitted or written while a pause stands, nothing of a canceled scan that shows, and a paused scan that a start
of the same request continues and a cancel stops.

It holds in every run whose steps are `Heeded`. Four things the executor does not look at are asked of them: a
pause comes while the scan has a look at it ahead (`Scan.Calm`); an automation tick does not come to its scan
of all sources while such a scan is paused; a canceled scan does not come to `waitWhilePaused` while another
one is paused, where it would take over the callback (`looksUnguarded`); and the files of a canceled job can be
removed. -/

namespace Memmy.AgentSource

open Lib.Run List Option Bool

structure Controlled (registry : List String) (s : State) : Prop where
  one : ∀ r ∈ s.scans, ∀ r' ∈ s.scans, r.Unsettled → ¬ r.canceled → r'.Unsettled → ¬ r'.canceled → r = r'
  held : ∀ e ∈ s.log, e.held = true → ¬ e.Outward
  canceled : ∀ e ∈ s.log, e.canceled = true → ¬ e.Shown
  resumable : ∀ r ∈ s.scans, r.Unsettled → ¬ r.aborted → s.paused → ∀ request now,
    sameScanRequest r.request request → ∃ s', startScan registry s false request now = (s', .ok r.job) ∧
      s'.scan.running ∧ ¬ s'.paused ∧ ∃ r' ∈ s'.scans, r'.id = r.id ∧ ¬ r'.wait.isBlocked
  cancelable : ∀ r ∈ s.scans, r.Unsettled → ¬ r.canceled → s.paused →
    (cancelScan s).scan = emptyScanState ∧ ¬ (cancelScan s).paused ∧
      ∃ r' ∈ (cancelScan s).scans, r'.id = r.id ∧ r'.canceled ∧ r'.aborted ∧ ¬ r'.wait.isBlocked

def Heeded (s : State) : Event → Prop
  | .startScan request _ => ∀ h ∈ s.held, sameScanRequest h request ∨ s.paused
  | .pauseScan => ¬ s.paused → s.scan.running → s.controller.isSome → ∀ r ∈ s.scans, r.Calm
  | .connect _ _ => s.held = none
  | .tickScan enabled _ => enabled → ∀ h ∈ s.held, s.paused ∧ ¬ sameScanRequest h allSources
  | .advance id answer _ => ∀ r ∈ s.scans.find? (·.id = id),
      (r.aborted → s.paused → ¬ looksUnguarded r answer) ∧ ¬ removalFails r answer
  | _ => True

instance (s : State) (event : Event) : Decidable (Heeded s event) := by
  cases event <;> unfold Heeded <;> infer_instance

section Frame
variable {automatic : Bool} {x : Scan} {request : ScanRequest}

variable {s : State} {r : Scan}

/-! ### Stopping a scan -/

/-- What an abort of the controller and a call of the callback make of a scan. -/
def stopOf (s : State) (r : Scan) : Scan :=
  let r' := if s.controller = some r.id then r.abort else r
  if s.abortController.resume = some r'.id then r'.wake else r'

theorem scans_stop (s : State) : (stop s).scans = s.scans.map (stopOf s) := by
  unfold stop stopOf State.wake State.abortController
  cases hcontroller : s.controller with
  | none => simp
  | some id =>
    simp only [State.abort, List.map_map, some.injEq]
    refine map_congr_left fun r _ => ?_
    by_cases hid : r.id = id
    · simp [hid]
    · simp [hid, Ne.symm hid]

theorem stop_eq (s : State) : ∃ scans, stop s = { s with
    paused := false
    resume := none
    scans := scans } := by
  unfold stop State.wake State.abortController
  split <;> exact ⟨_, rfl⟩

structure Stopped (s : State) (r x : Scan) : Prop where
  id : x.id = r.id
  job : x.job = r.job
  request : x.request = r.request
  canceled : x.canceled = r.canceled
  aborted : x.aborted ↔ r.aborted ∨ s.controller = some r.id
  unsettled : x.Unsettled ↔ r.Unsettled
  uncalled : x.Uncalled ↔ r.Uncalled
  blocked : x.wait.isBlocked → r.wait.isBlocked ∧ (s.controller = some r.id → r.aborted)

theorem Stopped.refl (h : s.controller ≠ some r.id ∨ r.aborted) : Stopped s r r where
  id := rfl
  job := rfl
  request := rfl
  canceled := rfl
  aborted := ⟨Or.inl, fun ho => ho.elim (fun ha => ha) fun hc => h.resolve_left (not_not.mpr hc)⟩
  unsettled := Iff.rfl
  uncalled := Iff.rfl
  blocked hb := ⟨hb, fun hc => h.resolve_left (not_not.mpr hc)⟩

theorem stopped_abort (h : s.controller = some r.id) : Stopped s r r.abort := by
  unfold Scan.abort
  by_cases ha : r.aborted
  · rw [if_pos ha]
    exact Stopped.refl (Or.inr ha)
  · rw [if_neg ha]
    by_cases hb : r.wait.isBlocked
    · have hcalled := uncalled_of_isBlocked hb
      rw [if_pos hb]
      refine ⟨rfl, rfl, rfl, rfl, by simp [h], ?_, ?_, nofun⟩
      · unfold Scan.Unsettled
        cases hw : r.wait <;> simp_all [Wait.isBlocked]
      · exact ⟨fun _ => hcalled, fun _ => Wait.noConfusion⟩
    · rw [if_neg hb]
      exact ⟨rfl, rfl, rfl, rfl, by simp [h], Iff.rfl, Iff.rfl, fun hb' => absurd hb' hb⟩

/-- A scan whose promise is resolved. -/
structure Woken (r x : Scan) : Prop where
  same : SameScan r x
  unsettled : x.Unsettled ↔ r.Unsettled
  uncalled : x.Uncalled ↔ r.Uncalled
  blocked : ¬ x.wait.isBlocked

theorem woken_wake (r : Scan) : Woken r r.wake := by
  unfold Scan.wake
  split
  · rename_i place again hw
    refine ⟨⟨rfl, rfl, rfl, rfl, rfl⟩, ?_, ?_, false_ne_true⟩
    · unfold Scan.Unsettled
      rw [hw]
    · unfold Scan.Uncalled
      rw [hw]
      exact ⟨fun _ => Wait.noConfusion, fun _ => Wait.noConfusion⟩
  · rename_i hw
    refine ⟨SameScan.refl r, Iff.rfl, Iff.rfl, fun hb => ?_⟩
    cases hwait : r.wait <;> rw [hwait] at hb <;> first | exact hw _ _ hwait | cases hb

theorem Stopped.wake (h : Stopped s r x) : Stopped s r x.wake := by
  have hw := woken_wake x
  exact ⟨hw.same.id.trans h.id, hw.same.job.trans h.job, hw.same.request.trans h.request,
    hw.same.canceled.trans h.canceled, hw.same.aborted ▸ h.aborted, hw.unsettled.trans h.unsettled,
    hw.uncalled.trans h.uncalled, fun hb => absurd hb hw.blocked⟩

theorem stopped_stopOf (s : State) (r : Scan) : Stopped s r (stopOf s r) := by
  unfold stopOf
  have habort : Stopped s r (if s.controller = some r.id then r.abort else r) := by
    split_ifs with hc
    · exact stopped_abort hc
    · exact Stopped.refl (Or.inl hc)
  simp only
  split_ifs at habort ⊢
  · exact habort.wake
  · exact habort
  · exact habort.wake
  · exact habort

theorem mem_stop (hx : x ∈ (stop s).scans) : ∃ r ∈ s.scans, Stopped s r x := by
  rw [scans_stop] at hx
  obtain ⟨r, hr, rfl⟩ := mem_map.mp hx
  exact ⟨r, hr, stopped_stopOf s r⟩

theorem not_blocked_stopped (h : Inv s) (hr : r ∈ s.scans) (hx : Stopped s r x) : ¬ x.wait.isBlocked := by
  intro hb
  obtain ⟨hrb, habort⟩ := hx.blocked hb
  have hna := (h.blocked r hr hrb).1
  exact hna (habort (h.owner r hr (uncalled_of_isBlocked hrb) (not_canceled_of_not_aborted h hr hna)))

theorem not_live_stopped (h : Inv s) (hr : r ∈ s.scans) (hx : Stopped s r x) : ¬ x.Live := by
  rintro ⟨hu, ha⟩
  have hna : ¬ r.aborted := fun hra => ha (hx.aborted.mpr (Or.inl hra))
  exact ha (hx.aborted.mpr (Or.inr
    (h.owner r hr (hx.uncalled.mp hu) (not_canceled_of_not_aborted h hr hna))))

theorem ids_map {f : Scan → Scan} (hf : ∀ r, (f r).id = r.id) (h : (s.scans.map (·.id)).Nodup) :
    ((s.scans.map f).map (·.id)).Nodup := by
  rw [List.map_map, show (·.id) ∘ f = fun r : Scan => r.id from funext hf]
  exact h

/-- **A dispose** leaves no scan running. -/
theorem inv_dispose (h : Inv s) : Inv (dispose s) := by
  obtain ⟨scans, hstopped⟩ := stop_eq s
  have hscans : scans = s.scans.map (stopOf s) := by
    rw [← scans_stop, hstopped]
  have hmem : ∀ x ∈ scans, ∃ r ∈ s.scans, Stopped s r x := by
    intro x hx
    refine mem_stop ?_
    rw [hstopped]
    exact hx
  have hdispose : dispose s = { s with
      paused := false
      resume := none
      scans := scans
      disposed := true
      automation := (dispose s).automation
      held := none } := by
    simp only [dispose, hstopped]
  rw [hdispose]
  refine {
    ids := hscans ▸ ids_map (fun r => (stopped_stopOf s r).id) h.ids
    idLt := fun x hx => ?_
    owner := fun x hx hu hc => ?_
    owned := fun x hx ho hc => ?_
    live := fun x hx hl => ?_
    canceledAborted := fun x hx hc => ?_
    abortedWhy := fun _ _ _ => Or.inr rfl
    blocked := fun x hx hb => ?_
    calm := nofun
    heldRequest := nofun
    jobs := fun x hx y hy hu hu' heq => ?_
    jobLt := fun x hx => ?_
    storeLt := h.storeLt
    canceledLt := h.canceledLt
    gone := fun j hj => (h.gone j hj).imp_right fun hg => ⟨hg.1, fun x hx hu => ?_⟩
    canceledJob := fun x hx hc => ?_
    status := h.status
    held := h.held
    canceled := h.canceled }
  all_goals obtain ⟨r, hr, hof⟩ := hmem x hx
  · rw [hof.id]
    exact h.idLt r hr
  · rw [hof.id]
    exact h.owner r hr (hof.uncalled.mp hu) (hof.canceled ▸ hc)
  · rw [hof.job, hof.request]
    exact h.owned r hr (hof.id ▸ ho) (hof.canceled ▸ hc)
  · exact absurd hl (not_live_stopped h hr hof)
  · exact hof.aborted.mpr (Or.inl (h.canceledAborted r hr (hof.canceled ▸ hc)))
  · exact absurd hb (not_blocked_stopped h hr hof)
  · obtain ⟨r', hr', hof'⟩ := hmem y hy
    rw [hof.id, hof'.id]
    exact h.jobs r hr r' hr' (hof.unsettled.mp hu) (hof'.unsettled.mp hu') (hof.job ▸ hof'.job ▸ heq)
  · rw [hof.job]
    exact h.jobLt r hr
  · rw [hof.job]
    exact hg.2 r hr (hof.unsettled.mp hu)
  · rw [hof.job]
    exact h.canceledJob r hr (hof.canceled ▸ hc)

theorem mem_markCanceled (hx : x ∈ (markCanceled s).scans) : ∃ r ∈ s.scans,
    x = { r with canceled := r.canceled || decide (s.controller = some r.id) } := by
  obtain ⟨r, hr, rfl⟩ := mem_map.mp hx
  refine ⟨r, hr, ?_⟩
  by_cases hc : s.controller = some r.id
  · rw [if_pos hc, decide_eq_true hc, Bool.or_true]
  · rw [if_neg hc, decide_eq_false hc, Bool.or_false]

/-- A scan after a cancel: it stopped, and if it is that of the controller it is canceled. -/
structure Canceled (s : State) (r x : Scan) : Prop where
  id : x.id = r.id
  job : x.job = r.job
  request : x.request = r.request
  canceled : x.canceled ↔ r.canceled ∨ s.controller = some r.id
  stopped : Stopped s { r with canceled := r.canceled || decide (s.controller = some r.id) } x

theorem mem_cancelScan (hx : x ∈ (stop (markCanceled s)).scans) : ∃ r ∈ s.scans, Canceled s r x := by
  obtain ⟨r', hr', hof⟩ := mem_stop hx
  obtain ⟨r, hr, rfl⟩ := mem_markCanceled hr'
  have hstopped : Stopped s { r with canceled := r.canceled || decide (s.controller = some r.id) } x :=
    ⟨hof.id, hof.job, hof.request, hof.canceled, hof.aborted, hof.unsettled, hof.uncalled, hof.blocked⟩
  exact ⟨r, hr, hof.id, hof.job, hof.request, by rw [hof.canceled]; simp, hstopped⟩

/-- **A cancel** leaves no scan running. -/
theorem inv_cancelScan (h : Inv s) : Inv (cancelScan s) := by
  unfold cancelScan
  split_ifs
  · exact h
  obtain ⟨scans, hstopped⟩ := stop_eq (markCanceled s)
  have hscans : scans = (markCanceled s).scans.map (stopOf (markCanceled s)) := by
    rw [← scans_stop, hstopped]
  have hmem : ∀ x ∈ scans, ∃ r ∈ s.scans, Canceled s r x := by
    intro x hx
    refine mem_cancelScan ?_
    rw [hstopped]
    exact hx
  rw [hstopped]
  have hidsMark : ((markCanceled s).scans.map (·.id)).Nodup := ids_map (fun r => by split_ifs <;> rfl) h.ids
  have hlt : ∀ j ∈ s.everCanceled ++ s.scan.jobId.toList, j < s.nextJob := by
    intro j hj
    rcases mem_append.mp hj with hj | hj
    · exact h.canceledLt j hj
    · exact (h.status j (mem_toList.mp hj)).1
  have hgone : ∀ j ∈ s.everCanceled ++ s.scan.jobId.toList,
      j ∈ s.canceledJobs ++ s.scan.jobId.toList.filter (· ∉ s.canceledJobs) ∨
        ((∀ m ∈ s.stores, m.jobId ≠ j) ∧ ∀ x ∈ scans, x.Unsettled → x.job ≠ j) := by
    intro j hj
    rcases mem_append.mp hj with hj | hj
    · rcases h.gone j hj with hmem' | hg
      · exact Or.inl (mem_append_left _ hmem')
      · refine Or.inr ⟨hg.1, fun x hx hu => ?_⟩
        obtain ⟨r, hr, hof⟩ := hmem x hx
        rw [hof.job]
        exact hg.2 r hr (hof.stopped.unsettled.mp hu)
    · by_cases hin : j ∈ s.canceledJobs
      · exact Or.inl (mem_append_left _ hin)
      · exact Or.inl (mem_append_right _ (mem_filter.mpr ⟨hj, decide_eq_true hin⟩))
  refine {
    ids := hscans ▸ ids_map (fun r => (stopped_stopOf _ r).id) hidsMark
    idLt := fun x hx => ?_
    owner := fun x hx hu hc => ?_
    owned := fun x hx ho hc => ?_
    live := fun x hx hl => ?_
    canceledAborted := fun x hx hc => ?_
    abortedWhy := fun x hx ha => ?_
    blocked := fun x hx hb => ?_
    calm := nofun
    heldRequest := nofun
    jobs := fun x hx y hy hu hu' heq => ?_
    jobLt := fun x hx => ?_
    storeLt := h.storeLt
    canceledLt := hlt
    gone := hgone
    canceledJob := fun x hx hc => ?_
    status := nofun
    held := h.held
    canceled := h.canceled }
  all_goals obtain ⟨r, hr, hof⟩ := hmem x hx
  · rw [hof.id]
    exact h.idLt r hr
  · have hrc : ¬ r.canceled := fun hrc => hc (hof.canceled.mpr (Or.inl hrc))
    exact absurd (hof.canceled.mpr (Or.inr (h.owner r hr (hof.stopped.uncalled.mp hu) hrc))) hc
  · rw [hof.id] at ho
    exact absurd (hof.canceled.mpr (Or.inr ho)) hc
  · have hna : ¬ r.aborted := fun hra => hl.2 (hof.stopped.aborted.mpr (Or.inl hra))
    have ho := h.owner r hr (hof.stopped.uncalled.mp hl.1) (not_canceled_of_not_aborted h hr hna)
    exact absurd (hof.stopped.aborted.mpr (Or.inr ho)) hl.2
  · rcases hof.canceled.mp hc with hrc | ho
    · exact hof.stopped.aborted.mpr (Or.inl (h.canceledAborted r hr hrc))
    · exact hof.stopped.aborted.mpr (Or.inr ho)
  · rcases hof.stopped.aborted.mp ha with hra | ho
    · exact (h.abortedWhy r hr hra).imp_left fun hrc => hof.canceled.mpr (Or.inl hrc)
    · exact Or.inl (hof.canceled.mpr (Or.inr ho))
  · obtain ⟨hrb, habort⟩ := hof.stopped.blocked hb
    have hna := (h.blocked r hr hrb).1
    have ho := h.owner r hr (uncalled_of_isBlocked hrb) (not_canceled_of_not_aborted h hr hna)
    exact absurd (habort ho) hna
  · obtain ⟨r', hr', hof'⟩ := hmem y hy
    rw [hof.id, hof'.id]
    exact h.jobs r hr r' hr' (hof.stopped.unsettled.mp hu) (hof'.stopped.unsettled.mp hu')
      (hof.job ▸ hof'.job ▸ heq)
  · rw [hof.job]
    exact h.jobLt r hr
  · rw [hof.job]
    by_cases hrc : r.canceled
    · exact mem_append_left _ (h.canceledJob r hr hrc)
    · have ho := (hof.canceled.mp hc).resolve_left hrc
      exact mem_append_right _ (mem_toList.mpr (h.owned r hr ho hrc).1)

theorem inv_pauseScan (h : Inv s)
    (hcalm : ¬ s.paused → s.scan.running → s.controller.isSome → ∀ r ∈ s.scans, r.Calm) : Inv (pauseScan s) := by
  unfold pauseScan
  split
  · rename_i id active hpaused hrunning hcontroller hactive
    have hcalm' := hcalm (by simp [hpaused]) hrunning (by simp [hcontroller])
    exact { h with
      owned := fun x hx ho hc => h.owned x hx ho hc
      live := fun x hx hl => ⟨rfl, (h.live x hx hl).2⟩
      blocked := fun x hx hb => absurd (h.blocked x hx hb).2.1 (by simp [hpaused])
      calm := fun _ x hx => ⟨hcalm' x hx, fun _ => rfl⟩
      heldRequest := fun r hr _ => hactive.trans hr
      status := h.status }
  · exact h

/-! ### Starting a scan -/

/-- A start for the request of the pause ends it. -/
theorem held_cleared {held : Option ScanRequest}
    (h : ∀ r, held = some r → automatic = false ∧ sameScanRequest r request) :
    (if automatic = false ∧ held.any (sameScanRequest · request) then none else held) = none := by
  cases held with
  | none => exact ite_self _
  | some r =>
    obtain ⟨hexplicit, hsame⟩ := h r rfl
    exact if_pos ⟨hexplicit, hsame⟩

/-- An automatic start comes while no pause stands. -/
theorem not_outward_of_start {effect : Effect} (heffect : effect = .started ∨ effect = .resumed) {canceled : Bool}
    (h : ∀ r, s.held = some r → automatic = false) :
    (Entry.mk effect automatic s.held.isSome canceled).held →
      ¬ (Entry.mk effect automatic s.held.isSome canceled).Outward := by
  intro hheld hout
  obtain ⟨r, hr⟩ := isSome_iff_exists.mp hheld
  rcases heffect with rfl | rfl <;> simp [Entry.Outward, h r hr] at hout

/-- A scan when the callback was called. -/
theorem mem_resumeScan
    (hx : x ∈ (resumeScan s automatic request).scans) : ∃ r ∈ s.scans, SameScan r x ∧
      (x.Unsettled ↔ r.Unsettled) ∧ (x.Uncalled ↔ r.Uncalled) ∧
      (x.wait.isBlocked → r.wait.isBlocked ∧ s.resume ≠ some r.id) := by
  obtain ⟨r, hr, rfl⟩ := mem_map.mp hx
  refine ⟨r, hr, ?_⟩
  simp only
  split_ifs with hresume
  · have hw := woken_wake r
    exact ⟨hw.same, hw.unsettled, hw.uncalled, fun hb => absurd hb hw.blocked⟩
  · exact ⟨SameScan.refl r, Iff.rfl, Iff.rfl, fun hb => ⟨hb, hresume⟩⟩

/-- **A resume** by a start that ends the pause. -/
theorem inv_resumeScan (h : Inv s)
    (hheld : ∀ r, s.held = some r → automatic = false ∧ sameScanRequest r request) :
    Inv (resumeScan s automatic request) := by
  have hclear : (resumeScan s automatic request).held = none := held_cleared hheld
  have hlog := inv_log h (e := ⟨.resumed, automatic, s.held.isSome, false⟩)
    (not_outward_of_start (Or.inr rfl) fun r hr => (hheld r hr).1) nofun
  refine {
    ids := ids_map (fun r => by split_ifs <;> first | exact (woken_wake r).same.id | rfl) h.ids
    idLt := fun x hx => ?_
    owner := fun x hx hu hc => ?_
    owned := fun x hx ho hc => ?_
    live := fun x hx hl => ?_
    canceledAborted := fun x hx hc => ?_
    abortedWhy := fun x hx ha => ?_
    blocked := fun x hx hb => ?_
    calm := fun hsome => by
      rw [hclear] at hsome
      cases hsome
    heldRequest := fun r hr => by
      rw [hclear] at hr
      cases hr
    jobs := fun x hx y hy hu hu' heq => ?_
    jobLt := fun x hx => ?_
    storeLt := h.storeLt
    canceledLt := h.canceledLt
    gone := fun j hj => (h.gone j hj).imp_right fun hg => ⟨hg.1, fun x hx hu => ?_⟩
    canceledJob := fun x hx hc => ?_
    status := h.status
    held := hlog.held
    canceled := hlog.canceled }
  all_goals obtain ⟨r, hr, hsame, hunsettled, huncalled, hblocked⟩ := mem_resumeScan hx
  · rw [hsame.id]
    exact h.idLt r hr
  · rw [hsame.id]
    exact h.owner r hr (huncalled.mp hu) (hsame.canceled ▸ hc)
  · rw [hsame.job, hsame.request]
    exact h.owned r hr (hsame.id ▸ ho) (hsame.canceled ▸ hc)
  · exact ⟨rfl, (h.live r hr ⟨huncalled.mp hl.1, hsame.aborted ▸ hl.2⟩).2⟩
  · rw [hsame.aborted]
    exact h.canceledAborted r hr (hsame.canceled ▸ hc)
  · rw [hsame.canceled]
    exact h.abortedWhy r hr (hsame.aborted ▸ ha)
  · obtain ⟨hrb, hresume⟩ := hblocked hb
    exact absurd (h.blocked r hr hrb).2.2 hresume
  · obtain ⟨r', hr', hsame', hunsettled', -, -⟩ := mem_resumeScan hy
    rw [hsame.id, hsame'.id]
    exact h.jobs r hr r' hr' (hunsettled.mp hu) (hunsettled'.mp hu') (hsame.job ▸ hsame'.job ▸ heq)
  · rw [hsame.job]
    exact h.jobLt r hr
  · rw [hsame.job]
    exact hg.2 r hr (hunsettled.mp hu)
  · rw [hsame.job]
    exact h.canceledJob r hr (hsame.canceled ▸ hc)

theorem findReusableScanJob_spec {stores : List ScanMeta} {sourceId : String} {mode : Option ScanMode}
    {excludedJobs : List ℕ} {job : ℕ} (h : findReusableScanJob stores sourceId mode excludedJobs = some job) :
    (∃ m ∈ stores, m.jobId = job) ∧ job ∉ excludedJobs := by
  obtain ⟨m, hm, rfl⟩ := map_eq_some_iff.mp h
  have hfold : ∀ (rows : List ScanMeta) (selected : Option ScanMeta),
      (∀ m, selected = some m → m ∈ stores ∧ m.jobId ∉ excludedJobs) → (∀ row ∈ rows, row ∈ stores) →
      ∀ m, rows.foldl (fun (selected : Option ScanMeta) row =>
        if row.jobId ∉ excludedJobs ∧ row.phase ≠ .done ∧ row.sourceId = sourceId ∧
            (mode = none ∨ mode = some row.mode) ∧ (selected.all fun best => best.updatedAt < row.updatedAt) then
          some row
        else selected) selected = some m → m ∈ stores ∧ m.jobId ∉ excludedJobs := by
    intro rows
    induction rows with
    | nil => exact fun selected hselected _ m hm => hselected m hm
    | cons row rows ih =>
      intro selected hselected hrows m hm
      rw [foldl_cons] at hm
      refine ih _ ?_ (fun row' hrow' => hrows row' (mem_cons_of_mem _ hrow')) m hm
      intro m' hm'
      split_ifs at hm' with hif
      · cases hm'
        exact ⟨hrows row mem_cons_self, hif.1⟩
      · exact hselected m' hm'
  obtain ⟨hmem, hexcluded⟩ := hfold stores none (nofun) (fun _ hrow => hrow) m hm
  exact ⟨⟨m, hmem, rfl⟩, hexcluded⟩

theorem job_not_canceled (h : Inv s) (request : ScanRequest) : ∀ job,
    job = (findReusableScanJob s.stores request.sourceId request.mode s.canceledJobs).getD s.nextJob →
    job ∉ s.everCanceled ∧ job < s.nextJob + 1 := by
  rintro job rfl
  cases hfind : findReusableScanJob s.stores request.sourceId request.mode s.canceledJobs with
  | none => exact ⟨fun hj => absurd (h.canceledLt _ hj) (Nat.lt_irrefl _), Nat.lt_succ_self _⟩
  | some job =>
    obtain ⟨⟨m, hm, hjob⟩, hexcluded⟩ := findReusableScanJob_spec hfind
    refine ⟨fun hj => ?_, Nat.lt_succ_of_lt (hjob ▸ h.storeLt m hm)⟩
    rcases h.gone job hj with hin | hgone
    · exact hexcluded hin
    · exact hgone.1 m hm hjob

/-- **A new scan** starts where none runs and none is paused. -/
theorem inv_beginScan (registry : List String) (h : Inv s) (hdisposed : s.disposed = false)
    (hrunning : s.scan.running = false) (hpaused : s.paused = false)
    (hheld : ∀ r, s.held = some r → automatic = false ∧ sameScanRequest r request) (now : ℕ) :
    Inv (beginScan registry s automatic request now).1 := by
  have hclear : (beginScan registry s automatic request now).1.held = none := held_cleared hheld
  obtain ⟨hjob, hjobLt⟩ := job_not_canceled h request _ rfl
  have hlog := inv_log h (e := ⟨.started, automatic, s.held.isSome,
      decide ((findReusableScanJob s.stores request.sourceId request.mode s.canceledJobs).getD s.nextJob ∈ s.everCanceled)⟩)
    (not_outward_of_start (Or.inl rfl) fun r hr => (hheld r hr).1) fun hc => absurd (of_decide_eq_true hc) hjob
  -- The scans that are left are canceled.
  have hcanceled : ∀ x ∈ s.scans, x.Uncalled → x.canceled := by
    intro x hx hu
    by_contra hc
    by_cases ha : x.aborted
    · rcases h.abortedWhy x hx ha with hxc | hd
      · exact hc hxc
      · rw [hdisposed] at hd
        cases hd
    · have := (h.live x hx ⟨hu, ha⟩).1
      rw [hrunning, hpaused] at this
      cases this
  have hlive : ∀ x ∈ s.scans, ¬ x.Live := fun x hx hl => hl.2 (h.canceledAborted x hx (hcanceled x hx hl.1))
  have hof : ∀ {p : Scan → Prop}, (∀ x ∈ s.scans, p x) →
      p (newScan s registry request
        ((findReusableScanJob s.stores request.sourceId request.mode s.canceledJobs).getD s.nextJob)) →
      ∀ x ∈ (beginScan registry s automatic request now).1.scans, p x := by
    intro p hp hnew x hx
    rcases mem_append.mp hx with hx | hx
    · exact hp x hx
    · exact mem_singleton.mp hx ▸ hnew
  have hrunningNow : true = !s.paused := by
    rw [hpaused]
    rfl
  have hblocked : ∀ job, ¬ (newScan s registry request job).wait.isBlocked := by
    intro job
    unfold newScan
    split_ifs <;> exact false_ne_true
  refine {
    ids := ?_
    idLt := hof (fun x hx => Nat.lt_succ_of_lt (h.idLt x hx)) (Nat.lt_succ_self _)
    owner := hof (fun x hx hu hc => absurd (hcanceled x hx hu) hc) fun _ _ => rfl
    owned := hof (fun x hx ho _ => absurd (h.idLt x hx) (by rw [← some.inj ho]; exact Nat.lt_irrefl _))
      fun _ _ => ⟨rfl, rfl⟩
    live := hof (fun x hx hl => absurd hl (hlive x hx)) fun _ => ⟨hrunningNow, hdisposed⟩
    canceledAborted := hof h.canceledAborted nofun
    abortedWhy := hof h.abortedWhy nofun
    blocked := hof (fun x hx hb => absurd (h.blocked x hx hb).2.1 (by simp [hpaused]))
      fun hb => absurd hb (hblocked _)
    calm := fun hsome => by
      rw [hclear] at hsome
      cases hsome
    heldRequest := fun r hr => by
      rw [hclear] at hr
      cases hr
    jobs := ?_
    jobLt := hof (fun x hx => Nat.lt_succ_of_lt (h.jobLt x hx)) hjobLt
    storeLt := fun m hm => Nat.lt_succ_of_lt (h.storeLt m (mem_of_mem_filter hm))
    canceledLt := fun j hj => Nat.lt_succ_of_lt (h.canceledLt j hj)
    gone := fun j hj => (h.gone j hj).imp_right fun hg =>
      ⟨fun m hm => hg.1 m (mem_of_mem_filter hm), hof hg.2 fun _ heq => hjob (by rw [← heq] at hj; exact hj)⟩
    canceledJob := hof h.canceledJob nofun
    status := fun j hj => some.inj hj ▸ ⟨hjobLt, hjob⟩
    held := hlog.held
    canceled := hlog.canceled }
  · rw [show (beginScan registry s automatic request now).1.scans.map (·.id) = s.scans.map (·.id) ++ [s.nextId] from
      map_append]
    refine nodup_append.mpr ⟨h.ids, nodup_singleton _, fun id hid id' hid' heq => ?_⟩
    obtain ⟨x, hx, rfl⟩ := mem_map.mp hid
    rw [mem_singleton.mp hid'] at heq
    exact absurd (h.idLt x hx) (heq ▸ Nat.lt_irrefl _)
  · refine hof (fun x hx => hof (fun y hy => h.jobs x hx y hy) fun hu _ heq => ?_)
      (hof (fun y hy _ hu heq => ?_) fun _ _ _ => rfl)
    · have hin := h.canceledJob x hx (hcanceled x hx hu.uncalled)
      rw [heq] at hin
      exact absurd hin hjob
    · have hin := h.canceledJob y hy (hcanceled y hy hu.uncalled)
      rw [← heq] at hin
      exact absurd hin hjob

/-- **A start** that ends the pause that stands, or is refused for it. -/
theorem inv_startScan (registry : List String) (h : Inv s)
    (hheld : ∀ r, s.held = some r → automatic = false ∧ sameScanRequest r request ∨
      s.paused ∧ ¬ sameScanRequest r request) (now : ℕ) :
    Inv (startScan registry s automatic request now).1 := by
  unfold startScan
  by_cases hdisposed : s.disposed
  · rw [if_pos hdisposed]
    exact h
  rw [if_neg hdisposed]
  by_cases hrunning : s.scan.running
  · rw [if_pos hrunning]
    exact h
  rw [if_neg hrunning]
  split
  · rename_i id active jobId hpaused _ hactive _
    split_ifs with hsame
    · refine inv_resumeScan h fun r hr => (hheld r hr).resolve_right fun hother => hother.2 ?_
      rw [← some.inj (hactive.symm.trans (h.heldRequest r hr hpaused))]
      exact hsame
    · exact h
  · exact h
  · rename_i hpaused
    refine inv_beginScan registry h (by simpa using hdisposed) (by simpa using hrunning) hpaused
      (fun r hr => (hheld r hr).resolve_right fun hother => ?_) now
    rw [hpaused] at hother
    cases hother.1

theorem Inv.of_automation (h : Inv s) (automation : Automation) : Inv { s with automation := automation } :=
  { h with }

/-- **A heeded step** keeps the invariant. -/
theorem inv_step (registry : List String) (h : Inv s) {event : Event} (hheeded : Heeded s event) :
    Inv (step registry s event) := by
  cases event with
  | startScan request now =>
    refine inv_startScan registry h (fun r hr => ?_) now
    by_cases hsame : sameScanRequest r request
    · exact Or.inl ⟨rfl, hsame⟩
    · exact Or.inr ⟨(hheeded r hr).resolve_left hsame, hsame⟩
  | pauseScan => exact inv_pauseScan h hheeded
  | cancelScan => exact inv_cancelScan h
  | dispose => exact inv_dispose h
  | startAutomation startup =>
    simp only [step]
    split_ifs
    · exact h.of_automation _
    · exact h
  | tick =>
    simp only [step]
    split
    · split_ifs
      · exact h.of_automation _
      · exact h.of_automation _
    · exact h
  | connect sourceId state =>
    simp only [step]
    split
    · have hheld : s.held = none := hheeded
      have hsources : Inv { s with
          sources := s.sources.set sourceId state
          stateFile := s.sources.set sourceId state } := { h with }
      exact inv_log hsources (fun he => by simp [hheld] at he) nofun
    · exact h
  | tickScan enabled now =>
    simp only [step]
    split
    · split_ifs with hif
      · exact (inv_startScan registry h (fun r hr => Or.inr (hheeded hif.1 r hr)) now).of_automation _
      · exact h.of_automation _
    · exact h
  | advance id answer now =>
    simp only [step]
    split
    · rename_i r hr
      obtain ⟨hguard, hclean⟩ := hheeded r hr
      exact inv_advance h (mem_of_find?_eq_some hr) hguard hclean now
    · exact h

end Frame

theorem inv_start (sources : Sources) (stores : List ScanMeta) : Inv (start sources stores) where
  ids := nodup_nil
  idLt _ hx := absurd hx not_mem_nil
  owner _ hx := absurd hx not_mem_nil
  owned _ hx := absurd hx not_mem_nil
  live _ hx := absurd hx not_mem_nil
  canceledAborted _ hx := absurd hx not_mem_nil
  abortedWhy _ hx := absurd hx not_mem_nil
  blocked _ hx := absurd hx not_mem_nil
  calm hheld := by cases hheld
  heldRequest _ hheld := by cases hheld
  jobs _ hx := absurd hx not_mem_nil
  jobLt _ hx := absurd hx not_mem_nil
  storeLt _ hm := Nat.lt_succ_of_le (le_sum_of_mem (mem_map_of_mem hm))
  canceledLt _ hj := absurd hj not_mem_nil
  gone _ hj := absurd hj not_mem_nil
  canceledJob _ hx := absurd hx not_mem_nil
  status _ hj := by cases hj
  held _ he := absurd he not_mem_nil
  canceled _ he := absurd he not_mem_nil

/-! ### What the invariant gives -/

section Controlled

variable {s : State} {r : Scan}

theorem resumable_of_inv (registry : List String) (h : Inv s) (hr : r ∈ s.scans) (hu : r.Unsettled)
    (ha : ¬ r.aborted) (hpaused : s.paused) (request : ScanRequest) (now : ℕ)
    (hsame : sameScanRequest r.request request) :
    ∃ s', startScan registry s false request now = (s', .ok r.job) ∧
      s'.scan.running ∧ ¬ s'.paused ∧ ∃ r' ∈ s'.scans, r'.id = r.id ∧ ¬ r'.wait.isBlocked := by
  have hc := not_canceled_of_not_aborted h hr ha
  have hcontroller := h.owner r hr hu.uncalled hc
  obtain ⟨hjob, hactive⟩ := h.owned r hr hcontroller hc
  obtain ⟨hrunning, hdisposed⟩ := h.live r hr ⟨hu.uncalled, ha⟩
  refine ⟨resumeScan s false request, ?_, rfl, false_ne_true, ?_⟩
  · unfold startScan
    rw [hdisposed, hrunning, hpaused, hcontroller, hactive, hjob]
    simp [hsame]
  · refine ⟨_, mem_map_of_mem hr, ?_⟩
    simp only
    split_ifs with hresume
    · exact ⟨(woken_wake r).same.id, (woken_wake r).blocked⟩
    · exact ⟨rfl, fun hb => hresume (h.blocked r hr hb).2.2⟩

theorem cancelable_of_inv (h : Inv s) (hr : r ∈ s.scans) (hu : r.Unsettled) (hc : ¬ r.canceled) :
    (cancelScan s).scan = emptyScanState ∧ ¬ (cancelScan s).paused ∧
      ∃ r' ∈ (cancelScan s).scans, r'.id = r.id ∧ r'.canceled ∧ r'.aborted ∧ ¬ r'.wait.isBlocked := by
  have hcontroller := h.owner r hr hu.uncalled hc
  have hcancel : cancelScan s = { stop (markCanceled s) with
      canceledJobs := s.canceledJobs ++ s.scan.jobId.toList.filter (· ∉ s.canceledJobs)
      scan := emptyScanState
      activeRequest := none
      progressBeforePause := none
      held := none } := by
    unfold cancelScan
    rw [if_neg (by simp [hcontroller])]
  obtain ⟨scans, hstopped⟩ := stop_eq (markCanceled s)
  rw [hcancel]
  refine ⟨rfl, by simp [hstopped], ?_⟩
  have hmarked : { r with canceled := true } ∈ (markCanceled s).scans := mem_map.mpr ⟨r, hr, if_pos hcontroller⟩
  have hof := stopped_stopOf (markCanceled s) { r with canceled := true }
  have haborted : (stopOf (markCanceled s) { r with canceled := true }).aborted := hof.aborted.mpr (Or.inr hcontroller)
  refine ⟨_, ?_, hof.id, hof.canceled, haborted, fun hb => ?_⟩
  · change _ ∈ (stop (markCanceled s)).scans
    rw [scans_stop]
    exact mem_map_of_mem hmarked
  · obtain ⟨hrb, habort⟩ := hof.blocked hb
    exact (h.blocked r hr hrb).1 (habort hcontroller)

theorem controlled_of_inv (registry : List String) (h : Inv s) : Controlled registry s where
  one _ hr _ hr' hu hc hu' hc' := eq_of_notCanceled h hr hr' hu.uncalled hc hu'.uncalled hc'
  held := h.held
  canceled := h.canceled
  resumable _ hr hu ha hpaused request now hsame := resumable_of_inv registry h hr hu ha hpaused request now hsame
  cancelable _ hr hu hc _ := cancelable_of_inv h hr hu hc

end Controlled

/-- **Pauses and cancels are obeyed** in every run whose steps are heeded. -/
theorem controlled_of_heeded (registry : List String) (sources : Sources) (stores : List ScanMeta)
    (events : List Event)
    (hheeded : ∀ t ∈ taken (step registry) (start sources stores) events, Heeded t.1 t.2) :
    ∀ s ∈ visited (step registry) (start sources stores) events, Controlled registry s := by
  intro s hs
  have hstep : ∀ s e, Inv s → Heeded s e → Inv (step registry s e) := fun _ _ hinv he => inv_step registry hinv he
  exact controlled_of_inv registry (invariant_of_steps hstep events _ (inv_start sources stores) hheeded s hs)

namespace Example

def registry : List String := ["cursor"]

/-- A scan of all sources waits for its first message. -/
def staging : List Event := [
  .startAutomation true,
  .startScan allSources 0,
  .advance 0 .done 0,
  .advance 0 (.opened []) 0,
  .advance 0 .done 0,
  .advance 0 (.available true) 0]

def added : ScanProgress where
  sourceId := "cursor"
  phase := "add"
  current := 1
  total := 1
  message := "Capturing conversation turns"

/-- The scan comes to its first turn and submits it. -/
def submitting : List Event := [
  .advance 0 (.emitted none) 2,
  .advance 0 .done 2,
  .advance 0 .ended 2,
  .advance 0 (.next .hash) 2,
  .advance 0 (.hashed "h") 2,
  .advance 0 (.next .page) 2,
  .advance 0 (.next .turn) 2,
  .advance 0 (.turn true added .write) 2]

/-- The scan is paused, and the automation comes to its own scan of all sources. -/
def ticked : List Event := staging ++ [.pauseScan, .tick, .tickScan true 1] ++ submitting

/-- A turn is submitted while the pause stands. -/
theorem ticked_not_controlled :
    ¬ ∀ s ∈ visited (step registry) (start [] []) ticked, Controlled registry s := by
  intro h
  have hfinal := h _ (final_mem_visited _ _ _)
  have hsubmitted : ∃ e ∈ (final (step registry) (start [] []) ticked).log, e.effect = .submitted ∧ e.held = true := by
    decide +kernel
  obtain ⟨e, he, heffect, hheld⟩ := hsubmitted
  exact hfinal.held e he hheld (Or.inl heffect)

/-- The scan is paused and started again, and the turn it submits is its last before a cancel. -/
def resumed : List Event := staging ++ [.pauseScan, .startScan allSources 1] ++ submitting ++
  [.cancelScan, .advance 0 (.ingested ⟨1, 0, 1, 1, 0, 0, none, none, false⟩) 3, .advance 0 .done 3,
    .advance 0 .done 3, .advance 0 .done 3, .advance 0 .done 3, .advance 0 .done 3]

theorem resumed_controlled : (final (step registry) (start [] []) resumed).scans = [] ∧
    ∀ s ∈ visited (step registry) (start [] []) resumed, Controlled registry s :=
  ⟨by decide +kernel, controlled_of_heeded registry [] [] resumed (by decide +kernel)⟩

end Example

end Memmy.AgentSource
