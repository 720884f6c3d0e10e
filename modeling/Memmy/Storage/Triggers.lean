import Memmy.Storage.Leases

/-! # Triggers that are merged into a job

`enqueueJob` merges a job into an active one of its key, and `armWorkMemoryIdleFlush` writes a new
deadline into the row of its session, whatever the status of the row. Neither looks at the worker that
holds the row, and `completeJob` does not look at what was written since the lease. `unseen` collects
the rows written since their last lease; such a row must not be done.

* `NoneLost`: no row that was written since its last lease is done.
* `Undisturbed`: a row is written only when no worker is about to make its call.
* `noneLost_run`: under it, every run keeps `NoneLost`; after any other write, the call loses it. -/

namespace Memmy.Storage.Triggers

open Lib.Rows Lib.Run List Option
open Storage.Jobs Storage.JobSteps Storage.Leases

/-! ### The machine -/

structure State where
  queue : Leases.State
  /-- The rows written since their last lease. -/
  unseen : List String := []

inductive Event where
  | tick (ms : ℕ)
  | lease (w : Surroundings) (o : LeaseOptions)
  | call (k : ℕ) (c : Call)
  | requeueUnstarted (ks : List ℕ)
  | requeueFailed (w : Surroundings) (limit : ℕ) (targetMemoryIds : Option (List String))
  | requeueExpired (excludedJobTypes : List String)
  | restart
  | enqueue (w : Surroundings) (job : Job)
  | arm (input : ArmInput)

/-- The event of the queue; a worker makes one call. -/
def queueEvent (s : Leases.State) : Event → Option Leases.Event
  | .tick ms => some (.tick ms)
  | .lease w o => some (.lease w o)
  | .call k c => if (s.leases[k]?).any fun l => !l.ended then some (.call k c) else none
  | .requeueUnstarted ks => some (.requeueUnstarted ks)
  | .requeueFailed w limit targets => some (.requeueFailed w limit targets)
  | .requeueExpired excluded => some (.requeueExpired excluded)
  | .restart => some .restart
  | .enqueue w job => some (.enqueue w job)
  | .arm _ => none

/-- The row that a trigger is merged into. -/
def written (jobs : List Job) : Event → Option String
  | .enqueue w job => (existingJob w job jobs).map (·.id)
  | .arm input =>
    (getJobByDedupeKey (idleFlushKey input.sessionId) jobs).bind fun row =>
      if (armWorkMemoryIdleFlush input jobs).isOk then some row.id else none
  | _ => none

/-- The rows that a call leases. -/
def leasedIds (s : Leases.State) : Event → List String
  | .lease w o => (leaseRows w o s.now s.jobs).map (·.id)
  | _ => []

def queueStep (s : Leases.State) (e : Event) : Leases.State :=
  match e with
  | .arm input => { s with jobs := applyOp s.jobs (.arm input) }
  | e =>
    match queueEvent s e with
    | some e => Leases.step s e
    | none => s

def step (s : State) (e : Event) : State where
  queue := queueStep s.queue e
  unseen := (s.unseen.filter fun id => decide (id ∉ leasedIds s.queue e)) ++
    (written s.queue.jobs e).toList

def start (jobs : List Job) (now : ℕ) : State := { queue := Leases.start jobs now }

/-- **No trigger is lost.** A row that was written since its last lease is queued, leased or failed. -/
def NoneLost (s : State) : Prop :=
  ∀ id ∈ s.unseen, ∃ row ∈ s.queue.jobs, row.id = id ∧ row.status.isActive = true

/-- A row is written only when no worker has still to make its call. -/
def Undisturbed (s : State) (e : Event) : Prop :=
  ∀ id ∈ written s.queue.jobs e, ∀ l ∈ s.queue.leases, l.jobId = id → l.ended = true

instance (s : State) (e : Event) : Decidable (Undisturbed s e) :=
  inferInstanceAs (Decidable (∀ id ∈ written s.queue.jobs e, ∀ l ∈ s.queue.leases,
    l.jobId = id → l.ended = true))

/-! ### The step lemma -/

structure Inv (s : State) : Prop where
  nodup : (s.queue.jobs.map (·.id)).Nodup
  noneLost : NoneLost s
  free : ∀ id ∈ s.unseen, ∀ l ∈ s.queue.leases, l.jobId = id → l.ended = true

section
variable {s : State} {e : Event} {id : String} {jobs : List Job}

/-- The operation on the table. -/
def jobOp (s : Leases.State) : Event → Option JobOp
  | .arm input => some (.arm input)
  | e => (queueEvent s e).bind (opOf s)

theorem queueStep_jobs (s : Leases.State) (e : Event) :
    (queueStep s e).jobs = match jobOp s e with
      | some op => applyOp s.jobs op
      | none => s.jobs := by
  unfold queueStep jobOp
  cases e with
  | arm input => rfl
  | call k c =>
    dsimp only [queueEvent]
    split_ifs <;> rfl
  | _ => rfl

/-- The rows that are not worked on stay active. -/
theorem active_step {op : JobOp} {r r' : Job} (h : RowStep jobs op r r')
    (hact : r.status.isActive = true) (hcomplete : ∀ now, op ≠ .complete r.id now)
    (hfail : ∀ error now force, op ≠ .fail r.id error now force)
    (hdelete : ∀ targets userId projectId now, op ≠ .deleteScope targets userId projectId now) :
    r'.status.isActive = true := by
  cases h with
  | kept => exact hact
  | @completed id now _ h => subst h; exact absurd rfl (hcomplete now)
  | @failed id error now force _ h => subst h; exact absurd rfl (hfail error now force)
  | closed hs error => exact absurd rfl (hdelete _ _ _ _)
  | merged h =>
    simp only [mergedRow]
    split_ifs
    · rfl
    · exact hact
  | _ => rfl

theorem mem_unseen_step : id ∈ (step s e).unseen ↔
    id ∈ s.unseen ∧ id ∉ leasedIds s.queue e ∨ written s.queue.jobs e = some id := by
  simp [step, mem_filter]

theorem queueEvent_call {s : Leases.State} {k : ℕ} {c : Call} {e : Leases.Event}
    (h : queueEvent s (.call k c) = some e) :
    e = .call k c ∧ ∃ l, s.leases[k]? = some l ∧ l.ended = false := by
  dsimp only [queueEvent] at h
  split_ifs at h with hopen
  obtain ⟨l, hl, hover⟩ := (any_eq_true _ _).mp hopen
  exact ⟨(some.inj h).symm, l, hl, by simpa using hover⟩

theorem row_step_active {r r' : Job} {op : JobOp} (hop : jobOp s.queue e = some op)
    (hact : r.status.isActive = true) (hfree : ∀ l ∈ s.queue.leases, l.jobId = r.id → l.ended = true)
    (h : RowStep s.queue.jobs op r r') : r'.status.isActive = true := by
  refine active_step h hact ?_ ?_ ?_
  all_goals
    intros
    rintro rfl
    cases e with
    | call k c =>
      obtain ⟨e', he', hop'⟩ := bind_eq_some_iff.mp hop
      obtain ⟨rfl, l, hl, hover⟩ := queueEvent_call he'
      simp only [opOf, hl, map_some, some.injEq] at hop'
      have hid : l.jobId = r.id := by
        cases c <;> simp only [Call.op, JobOp.complete.injEq, JobOp.fail.injEq, reduceCtorEq] at hop'
          <;> exact hop'.1
      rw [hfree l (mem_of_getElem? hl) hid] at hover
      cases hover
    | _ => cases hop

theorem step_row {r : Job} (hinv : Inv s) (hr : r ∈ s.queue.jobs) (hact : r.status.isActive = true)
    (hfree : ∀ l ∈ s.queue.leases, l.jobId = r.id → l.ended = true) :
    ∃ r' ∈ (step s e).queue.jobs, r'.id = r.id ∧ r'.status.isActive = true := by
  change ∃ r' ∈ (queueStep s.queue e).jobs, _
  rw [queueStep_jobs]
  cases hop : jobOp s.queue e with
  | none => exact ⟨r, hr, rfl, hact⟩
  | some op =>
    obtain ⟨r', hr', hstep⟩ := row_after hinv.nodup op hr
    exact ⟨r', hr', hstep.id_eq, row_step_active hop hact hfree hstep⟩

theorem written_active (hinv : Inv s) (hw : written s.queue.jobs e = some id) (hu : Undisturbed s e) :
    ∃ row ∈ (step s e).queue.jobs, row.id = id ∧ row.status.isActive = true := by
  cases e with
  | enqueue w job =>
    obtain ⟨row, hrow, rfl⟩ := map_eq_some_iff.mp hw
    obtain ⟨hmem, hact⟩ := existingJob_active hrow
    exact step_row hinv hmem hact (hu row.id hw)
  | arm input =>
    obtain ⟨row, hrow, hok⟩ := bind_eq_some_iff.mp hw
    split_ifs at hok with harm
    obtain rfl := some.inj hok
    refine ⟨armedRow input row, ?_, rfl, rfl⟩
    change _ ∈ (armWorkMemoryIdleFlush input s.queue.jobs).toOption.getD s.queue.jobs
    simp only [armWorkMemoryIdleFlush, hrow, updateActive] at harm ⊢
    split_ifs at harm ⊢
    · cases harm
    · change armedRow input row ∈ update (hasId row.id) (armedRow input) s.queue.jobs
      exact mem_map.mpr ⟨row, (getJobByDedupeKey_mem hrow).1, if_pos (decide_eq_true (rfl : row.id = row.id))⟩
  | _ => cases hw

/-- A lease that is over stays so. -/
theorem leases_queueStep {l : Lease} (hl : l ∈ (step s e).queue.leases) :
    (∃ l₀ ∈ s.queue.leases, l₀.jobId = l.jobId ∧ (l₀.ended = true → l.ended = true)) ∨
      l.jobId ∈ leasedIds s.queue e := by
  have hqueue : ∀ e' : Leases.Event, l ∈ (Leases.step s.queue e').leases →
      (∃ l₀ ∈ s.queue.leases, l₀.jobId = l.jobId ∧ (l₀.ended = true → l.ended = true)) ∨
        l ∈ newLeases s.queue e' := by
    intro e' hl
    obtain ⟨k, hk⟩ := mem_iff_getElem?.mp hl
    rcases leases_step hk with ⟨l₀, hl₀, rfl⟩ | ⟨-, hnew⟩
    · refine Or.inl ⟨l₀, mem_of_getElem? hl₀, rfl, fun hover => ?_⟩
      cases e' <;> simp [isOver, hover]
    · exact Or.inr (mem_of_getElem? hnew)
  have hkept : l ∈ s.queue.leases →
      ∃ l₀ ∈ s.queue.leases, l₀.jobId = l.jobId ∧ (l₀.ended = true → l.ended = true) :=
    fun hl => ⟨l, hl, rfl, id⟩
  cases e with
  | arm input => exact Or.inl (hkept hl)
  | call k c =>
    change l ∈ (queueStep s.queue (.call k c)).leases at hl
    dsimp only [queueStep, queueEvent] at hl
    split_ifs at hl
    · exact Or.inl ((hqueue _ hl).resolve_right (by simp [newLeases]))
    · exact Or.inl (hkept hl)
  | lease w o =>
    refine (hqueue (.lease w o) hl).imp_right fun hnew => ?_
    obtain ⟨w', o', he, row, hrow, rfl⟩ := mem_newLeases hnew
    cases he
    exact mem_map_of_mem hrow
  | tick ms => exact Or.inl ((hqueue (.tick ms) hl).resolve_right (by simp [newLeases]))
  | requeueUnstarted ks =>
    exact Or.inl ((hqueue (.requeueUnstarted ks) hl).resolve_right (by simp [newLeases]))
  | requeueFailed w limit targets =>
    exact Or.inl ((hqueue (.requeueFailed w limit targets) hl).resolve_right
      (by simp [newLeases]))
  | requeueExpired excluded =>
    exact Or.inl ((hqueue (.requeueExpired excluded) hl).resolve_right (by simp [newLeases]))
  | restart => exact Or.inl ((hqueue (.restart) hl).resolve_right (by simp [newLeases]))
  | enqueue w job =>
    exact Or.inl ((hqueue (.enqueue w job) hl).resolve_right (by simp [newLeases]))

/-- **Step lemma.** -/
theorem inv_step (hinv : Inv s) (hu : Undisturbed s e) : Inv (step s e) where
  nodup := by
    change ((queueStep s.queue e).jobs.map (·.id)).Nodup
    rw [queueStep_jobs]
    cases jobOp s.queue e with
    | none => exact hinv.nodup
    | some op => exact nodup_ids hinv.nodup op
  noneLost := by
    intro id hid
    rcases mem_unseen_step.mp hid with ⟨hold, -⟩ | hw
    · obtain ⟨row, hrow, rfl, hact⟩ := hinv.noneLost id hold
      exact step_row hinv hrow hact (hinv.free row.id hold)
    · exact written_active hinv hw hu
  free := by
    intro id hid l hl hlid
    rcases leases_queueStep hl with ⟨l₀, hl₀, he, hover⟩ | hnew
    · refine hover ?_
      rcases mem_unseen_step.mp hid with ⟨hold, -⟩ | hw
      · exact hinv.free id hold l₀ hl₀ (he.trans hlid)
      · exact hu id hw l₀ hl₀ (he.trans hlid)
    · rcases mem_unseen_step.mp hid with ⟨-, hnot⟩ | hw
      · exact absurd (hlid ▸ hnew) hnot
      · cases e <;> first | cases hw | cases hnew

/-! ### Runs -/

theorem complete_loses (hw : written s.queue.jobs e = some id) {k : ℕ} {l : Lease}
    (hl : s.queue.leases[k]? = some l) (hover : l.ended = false) (hid : l.jobId = id) :
    ¬ NoneLost (step (step s e) (.call k .complete)) := by
  have hk : (step s e).queue.leases[k]? = some l := by
    cases e with
    | enqueue w job =>
      have := leases_step_old (e := .enqueue w job) hl
      simp only [isOver, calls, not_mem_nil, decide_false, Bool.or_false] at this
      exact this
    | arm input => exact hl
    | _ => cases hw
  intro hnone
  have hunseen : id ∈ (step (step s e) (.call k .complete)).unseen :=
    mem_unseen_step.mpr (Or.inl ⟨mem_unseen_step.mpr (Or.inr hw), not_mem_nil⟩)
  obtain ⟨row, hrow, hrid, hact⟩ := hnone id hunseen
  have hjobs : (step (step s e) (.call k .complete)).queue.jobs =
      completeJob id (step s e).queue.now (step s e).queue.jobs := by
    change (queueStep _ _).jobs = _
    rw [queueStep_jobs]
    simp only [jobOp, queueEvent, hk, any_some, hover, Bool.not_false, if_true,
      bind_some, opOf, map_some, Call.op, hid, applyOp]
  rw [hjobs] at hrow
  obtain ⟨row₀, -, rfl⟩ := mem_map.mp hrow
  by_cases hp : hasId id row₀ = true
  · rw [if_pos hp] at hact; cases hact
  · rw [if_neg hp] at hrid
    exact hp (decide_eq_true hrid)

theorem start_inv (hn : (jobs.map (·.id)).Nodup) (now : ℕ) : Inv (start jobs now) :=
  ⟨hn, fun id hid => by simp [start] at hid, fun id hid => by simp [start] at hid⟩

/-- **No trigger is lost** in a run that writes a row only when no worker has still to make its call
for it; after any other write the call that completes the job loses it. -/
theorem noneLost_run (jobs : List Job) (hn : (jobs.map (·.id)).Nodup) (now : ℕ) (es : List Event) :
    ((∀ t ∈ taken step (start jobs now) es, Undisturbed t.1 t.2) →
      ∀ s ∈ visited step (start jobs now) es, NoneLost s) ∧
    ∀ t ∈ taken step (start jobs now) es, ¬ Undisturbed t.1 t.2 →
      ∃ k, ¬ NoneLost (step (step t.1 t.2) (.call k .complete)) := by
  refine ⟨fun hu s hs => ?_, fun t _ hu => ?_⟩
  · exact (invariant_of_steps (fun _ _ => inv_step) es _ (start_inv hn now) hu s hs).noneLost
  · unfold Undisturbed at hu
    push Not at hu
    obtain ⟨id, hw, l, hl, hid, hover⟩ := hu
    obtain ⟨k, hk⟩ := mem_iff_getElem?.mp hl
    exact ⟨k, complete_loses hw hk (by simpa using hover) hid⟩

end

/-! ### The flush that arms itself -/

def armInput (now : ℕ) : ArmInput where
  sessionId := "session_1"
  userId := "user_1"
  lastActivityAt := now
  runAfter := now + 7200000
  now := now
  newId := "job_1"

/-- The flush is leased when its time has come, finds that the session was active, arms itself again
from inside the job, and is completed. -/
def rearmRun : List Event :=
  [.arm (armInput 0), .tick 7200000, .lease {} {}, .arm (armInput 1000), .call 0 .complete]

/-- Armed again after the call, it stays queued. -/
theorem noneLost_run_armedAfter : NoneLost (final step (start [] 0)
    [.arm (armInput 0), .tick 7200000, .lease {} {}, .call 0 .complete, .arm (armInput 7200000)]) :=
  (noneLost_run [] (by decide) 0 _).1 (by decide +kernel) _ (final_mem_visited step _ _)

theorem rearmRun_loses : ¬ ∀ (jobs : List Job), (jobs.map (·.id)).Nodup → ∀ (now : ℕ)
    (es : List Event), ∀ s ∈ visited step (start jobs now) es, NoneLost s := by
  intro h
  obtain ⟨row, hrow, -, hact⟩ := h [] (by decide) 0 rearmRun _
    (final_mem_visited step rearmRun (start [] 0)) "job_1" (by decide +kernel)
  have hdone : ∀ row ∈ (final step (start [] 0) rearmRun).queue.jobs,
      row.status.isActive = false := by decide +kernel
  rw [hdone row hrow] at hact
  cases hact

end Memmy.Storage.Triggers
