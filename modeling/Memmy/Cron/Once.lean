import Memmy.Cron.Service
import Memmy.Lib.Run

/-! # Every occurrence runs once

The timer starts a job for its deadline, and the completion moves the deadline or ends the job. A line
of another process carries the whole job as its snapshot had it: played over a job that has run since,
it brings back the old deadline, and played after a job has been removed, it brings back the job.

* `OncePerOccurrence`, `NotBack`: no deadline of a schedule is run twice, a one-time schedule once at
  all, and a job that was removed after it has run stays away.
* `Allowed`: no such line is played, and no one-time job that has run is switched on again.
* `RowOk`, `Inv`: the deadline of a job that is switched on lies behind every run of its schedule.
* `run_once`: then every run has both. -/

namespace Memmy.Cron.Once

open Lib.Run Lib.Sort Cron.Service List Option

variable {cal : Calendar}

/-! ### The property -/

/-- **A schedule is run for a deadline once**, and one with a single deadline once. -/
def OncePerOccurrence (log : List Firing) : Prop :=
  log.Pairwise fun later earlier => later.scheduleRef = earlier.scheduleRef →
    earlier.kind ≠ .oneTime ∧ earlier.scheduledFor < later.scheduledFor

/-- No job that was removed after it has run is there. -/
def NotBack (s : State) : Prop := ∀ r ∈ s.jobs, r.job.id ∉ s.retired

instance (log : List Firing) : Decidable (OncePerOccurrence log) := by
  unfold OncePerOccurrence; infer_instance

instance (s : State) : Decidable (NotBack s) := by unfold NotBack; infer_instance

/-! ### The condition on the steps -/

/-- The job waits for a deadline. -/
def waits (job : CronJob) : Bool := job.enabled && job.state.nextRunAtMs.isSome

/-- A one-time job that has run for its schedule is switched on. -/
def SwitchesOnAgain (s : State) (edit : Edit) (row : Row) : Prop :=
  edit = .enable true ∧ row.job.schedule.kind = .oneTime ∧ ∃ f ∈ s.log, f.scheduleRef = row.scheduleRef

instance (s : State) (edit : Edit) (row : Row) : Decidable (SwitchesOnAgain s edit row) := by
  unfold SwitchesOnAgain; infer_instance

/-- **The edit was made on the job as it is**: its schedule is the same, and if the edited job waits
for a deadline, so are its switch and its deadline, and the job has not been started since. -/
def UpToDate (u : Update) (row : Row) : Prop :=
  u.base.schedule = row.job.schedule ∧
    (waits u.job = false ∨
      (u.base.enabled = row.job.enabled ∧
        u.base.state.nextRunAtMs = row.job.state.nextRunAtMs ∧
        ∀ lastRun ∈ row.job.state.lastRunAtMs, lastRun ≤ u.editedAt))

instance (u : Update) (row : Row) : Decidable (UpToDate u row) := by
  unfold UpToDate; infer_instance

/-- An edit of a removed job, or one of an older state of the job without a new schedule, is not
played. -/
def LineOk (s : State) : Line → Prop
  | .del _ => True
  | .add job => ∀ f ∈ s.log, f.id ≠ job.id
  | .update u =>
    match findRow s.jobs u.job.id with
    | none => ∀ f ∈ s.log, f.id ≠ u.job.id
    | some row =>
      u.edit.reschedules = true ∨ (UpToDate u row ∧ ¬SwitchesOnAgain s u.edit row)

instance (s : State) : (l : Line) → Decidable (LineOk s l)
  | .del _ => inferInstanceAs (Decidable True)
  | .add job => inferInstanceAs (Decidable (∀ f ∈ s.log, f.id ≠ job.id))
  | .update u => by unfold LineOk; dsimp only; split <;> infer_instance

def LinesOk : State → List Line → Prop
  | _, [] => True
  | s, l :: ls => LineOk s l ∧ LinesOk (mergeLine s l) ls

instance decidableLinesOk : (s : State) → (ls : List Line) → Decidable (LinesOk s ls)
  | _, [] => inferInstanceAs (Decidable True)
  | s, l :: ls =>
    have := decidableLinesOk (mergeLine s l) ls
    inferInstanceAs (Decidable (LineOk s l ∧ LinesOk (mergeLine s l) ls))

/-- A call does not switch on a one-time job that has run. -/
def EditOk (s : State) : Op → Prop
  | .edit jobId edit => ∀ row ∈ findRow s.jobs jobId, ¬SwitchesOnAgain s edit row
  | _ => True

instance (s : State) (op : Op) : Decidable (EditOk s op) := by
  cases op <;> unfold EditOk <;> infer_instance

variable (cal) in
/-- The state that the lines are played onto, if the operation plays them. -/
def mergesIn (s : State) : Op → Option State
  | .tick _ | .externalAdd _ | .externalEdit _ _ | .externalDel _ => none
  | .complete error => s.active.map fun a => completeJob cal a error s
  | _ => if s.active = none then some s else none

variable (cal) in
/-- **The condition on a step.** -/
def Allowed (s : State) (op : Op) : Prop :=
  (∀ m ∈ mergesIn cal s op, LinesOk { m with lines := [] } m.lines) ∧ EditOk (loadStore s) op

instance (s : State) (op : Op) : Decidable (Allowed cal s op) := by
  unfold Allowed; infer_instance

/-! ### The invariant -/

/-- **What holds of a job in the list.** -/
structure RowOk (s : State) (r : Row) : Prop where
  fresh : r.ref < s.nextRef ∧ r.scheduleRef < s.nextRef
  known : ∀ f ∈ s.log, f.scheduleRef = r.scheduleRef → f.id = r.job.id ∧ f.kind = r.job.schedule.kind
  ran : ∀ f ∈ s.log, f.scheduleRef = r.scheduleRef →
    (∃ lastRun ∈ r.job.state.lastRunAtMs, f.started ≤ lastRun) ∨ ∃ a ∈ s.active, r.scheduleRef = a.scheduleRef
  /-- A deadline that the job waits for is behind every run, unless it is the one being run for. -/
  deadline : r.job.enabled = true → ∀ next ∈ r.job.state.nextRunAtMs,
    (∀ f ∈ s.log, f.scheduleRef = r.scheduleRef → f.kind ≠ .oneTime ∧ f.scheduledFor < next) ∨
      ∃ a ∈ s.active, r.scheduleRef = a.scheduleRef ∧ next = a.scheduledFor
  isActive : ∀ a ∈ s.active, r.scheduleRef = a.scheduleRef → r.job.id = a.id ∧ r.ref = a.ref
  kept : r.job.id ∉ s.retired

variable (cal) in
structure Inv (s : State) : Prop where
  nodup : (s.jobs.map (·.job.id)).Nodup
  rows : ∀ r ∈ s.jobs, RowOk s r
  own : ∀ r ∈ s.jobs, ∀ r' ∈ s.jobs, r.scheduleRef = r'.scheduleRef → r.job.id = r'.job.id
  logged : ∀ f ∈ s.log, f.scheduledFor ≤ f.started ∧ f.started ≤ s.now ∧ f.scheduleRef < s.nextRef
  latest : ∀ a ∈ s.active, (∀ f ∈ s.log, f.started ≤ a.started) ∧ a.started ≤ s.now ∧
    a.scheduledFor ≤ a.started ∧ ∃ f ∈ s.log, f.id = a.id ∧ f.scheduleRef = a.scheduleRef
  made : ∀ u, Line.update u ∈ s.lines → editJob cal u.editedAt u.edit u.base = some u.job
  once : OncePerOccurrence s.log
  retiredRan : ∀ id ∈ s.retired, ∃ f ∈ s.log, f.id = id

variable {s s' : State} {row r : Row}

theorem RowOk.congr (h : RowOk s r) (hlog : s'.log = s.log) (hactive : s'.active = s.active)
    (hnext : s.nextRef ≤ s'.nextRef) (hkept : r.job.id ∉ s'.retired) : RowOk s' r where
  fresh := ⟨h.fresh.1.trans_le hnext, h.fresh.2.trans_le hnext⟩
  known := by rw [hlog]; exact h.known
  ran := by rw [hlog, hactive]; exact h.ran
  deadline := by rw [hlog, hactive]; exact h.deadline
  isActive := by rw [hactive]; exact h.isActive
  kept := hkept

/-! ### Rows of the list -/

variable {a : Active} {jobs : List Row} {p : Row → Bool} {id : String}

theorem mem_setRow (h : r ∈ setRow jobs row) : r = row ∨ (r ∈ jobs ∧ r.job.id ≠ row.job.id) := by
  unfold setRow at h
  split_ifs at h with hany
  · obtain ⟨x, hx, rfl⟩ := mem_map.mp h
    split_ifs with hid
    · exact Or.inl rfl
    · exact Or.inr ⟨hx, hid⟩
  · rcases mem_append.mp h with h | h
    · refine Or.inr ⟨h, fun hid => hany (any_eq_true.mpr ⟨r, h, by simpa using hid⟩)⟩
    · exact Or.inl (mem_singleton.mp h)

theorem nodup_setRow (h : (jobs.map (·.job.id)).Nodup) (row : Row) :
    ((setRow jobs row).map (·.job.id)).Nodup := by
  unfold setRow
  split_ifs with hany
  · rw [List.map_map]
    convert h using 1
    refine map_congr_left fun r _ => ?_
    simp only [Function.comp_apply]
    split_ifs with hid
    · exact hid.symm
    · rfl
  · rw [map_append, nodup_append]
    refine ⟨h, nodup_singleton _, ?_⟩
    rintro a ha b hb rfl
    obtain ⟨r, hr, rfl⟩ := mem_map.mp ha
    exact hany (any_eq_true.mpr ⟨r, hr, by simpa using hb⟩)

theorem findRow_some (h : findRow jobs id = some row) : row ∈ jobs ∧ row.job.id = id := by
  refine ⟨mem_of_find?_eq_some h, ?_⟩
  have hid := find?_some h
  exact of_decide_eq_true hid

theorem findRow_none (h : findRow jobs id = none) : ∀ r ∈ jobs, r.job.id ≠ id := by
  intro r hr hid
  have := find?_eq_none.mp h r hr
  exact this (by simpa using hid)

theorem eq_of_id (h : (jobs.map (·.job.id)).Nodup) (hr : r ∈ jobs)
    (hrow : row ∈ jobs) (hid : r.job.id = row.job.id) : r = row :=
  inj_on_of_nodup_map h hr hrow hid

/-! ### Operations on the list -/

/-- An operation that starts no run: what is left to see are the rows. -/
theorem Inv.of_rows (hinv : Inv cal s) (hlog : s'.log = s.log) (hnow : s'.now = s.now)
    (hlines : s'.lines = s.lines) (hactive : ∀ a ∈ s'.active, a ∈ s.active)
    (hnext : s.nextRef ≤ s'.nextRef) (hnodup : (s'.jobs.map (·.job.id)).Nodup)
    (hrows : ∀ r ∈ s'.jobs, RowOk s' r)
    (hown : ∀ r ∈ s'.jobs, ∀ r' ∈ s'.jobs, r.scheduleRef = r'.scheduleRef → r.job.id = r'.job.id)
    (hretired : ∀ id ∈ s'.retired, id ∈ s.retired ∨ ∃ f ∈ s.log, f.id = id) : Inv cal s' where
  nodup := hnodup
  rows := hrows
  own := hown
  logged := by
    rw [hlog, hnow]
    exact fun f hf => ⟨(hinv.logged f hf).1, (hinv.logged f hf).2.1, (hinv.logged f hf).2.2.trans_le hnext⟩
  latest := by
    rw [hlog, hnow]
    exact fun a ha => hinv.latest a (hactive a ha)
  made := by
    rw [hlines]
    exact hinv.made
  once := by
    rw [hlog]
    exact hinv.once
  retiredRan := by
    rw [hlog]
    exact fun id hid => (hretired id hid).elim (hinv.retiredRan id) fun h => h

/-- A row takes its place in the list. -/
theorem inv_setRow (hinv : Inv cal s) {n : ℕ} (hn : s.nextRef ≤ n)
    (hrow : RowOk { s with jobs := setRow s.jobs row, nextRef := n } row)
    (hown : ∀ r ∈ s.jobs, r.scheduleRef = row.scheduleRef → r.job.id = row.job.id) :
    Inv cal { s with jobs := setRow s.jobs row, nextRef := n } := by
  refine hinv.of_rows rfl rfl rfl (fun _ h => h) hn (nodup_setRow hinv.nodup row) ?_ ?_
    fun id hid => Or.inl hid
  · intro r hr
    rcases mem_setRow hr with rfl | ⟨hr, -⟩
    · exact hrow
    · exact (hinv.rows r hr).congr rfl rfl hn (hinv.rows r hr).kept
  · intro r hr r' hr' he
    rcases mem_setRow hr with rfl | ⟨hold, -⟩ <;> rcases mem_setRow hr' with rfl | ⟨hold', -⟩
    · rfl
    · exact (hown r' hold' he.symm).symm
    · exact hown r hold he
    · exact hinv.own r hold r' hold' he

theorem mem_retired_removeRows (h : id ∈ (removeRows p s).retired) :
    id ∈ s.retired ∨ (∃ f ∈ s.log, f.id = id) ∧ ∃ r ∈ s.jobs, p r = true ∧ r.job.id = id := by
  rcases mem_append.mp h with h | h
  · obtain ⟨hmem, hran⟩ := mem_filter.mp h
    obtain ⟨r, hr, hid⟩ := mem_map.mp hmem
    obtain ⟨hr, hp⟩ := mem_filter.mp hr
    obtain ⟨f, hf, he⟩ := any_eq_true.mp hran
    exact Or.inr ⟨⟨f, hf, of_decide_eq_true he⟩, r, hr, hp, hid⟩
  · exact Or.inl h

theorem mem_removeRows (h : r ∈ (removeRows p s).jobs) : r ∈ s.jobs ∧ p r = false := by
  obtain ⟨hr, hp⟩ := mem_filter.mp h
  exact ⟨hr, by simpa using hp⟩

theorem nodup_removeRows (h : (s.jobs.map (·.job.id)).Nodup) (p : Row → Bool) :
    ((removeRows p s).jobs.map (·.job.id)).Nodup :=
  h.sublist (filter_sublist.map _)

/-- A row that stays is not one of the retired ones. -/
theorem kept_removeRows (hnodup : (s.jobs.map (·.job.id)).Nodup)
    (hkept : r.job.id ∉ s.retired) (h : r ∈ (removeRows p s).jobs) : r.job.id ∉ (removeRows p s).retired := by
  obtain ⟨hr, hp⟩ := mem_removeRows h
  intro hmem
  rcases mem_retired_removeRows hmem with hmem | ⟨-, r', hr', hp', hid⟩
  · exact hkept hmem
  · rw [eq_of_id hnodup hr' hr hid, hp] at hp'
    cases hp'

theorem inv_removeRows (hinv : Inv cal s) (p : Row → Bool) : Inv cal (removeRows p s) := by
  refine hinv.of_rows rfl rfl rfl (fun _ h => h) le_rfl (nodup_removeRows hinv.nodup p) ?_ ?_
    fun id hid => (mem_retired_removeRows hid).imp_right And.left
  · intro r hr
    have hold := hinv.rows r (mem_removeRows hr).1
    exact hold.congr rfl rfl le_rfl (kept_removeRows hinv.nodup hold.kept hr)
  · exact fun r hr r' hr' => hinv.own r (mem_removeRows hr).1 r' (mem_removeRows hr').1

/-- Nothing has run for a new schedule. -/
theorem inv_putRow (hinv : Inv cal s) {job : CronJob} (h : job.id ∉ s.retired) : Inv cal (putRow job s) := by
  have hnone : ∀ f ∈ s.log, f.scheduleRef ≠ s.nextRef + 1 := fun f hf he => by
    have := (hinv.logged f hf).2.2
    omega
  refine inv_setRow hinv (Nat.le_add_right _ 2)
    { fresh := ⟨Nat.lt_add_of_pos_right two_pos, Nat.lt_succ_self _⟩
      known := fun f hf he => absurd he (hnone f hf)
      ran := fun f hf he => absurd he (hnone f hf)
      deadline := fun _ _ _ => Or.inl fun f hf he => absurd he (hnone f hf)
      isActive := ?_
      kept := h } ?_
  · intro a ha he
    obtain ⟨-, -, -, f, hf, -, href⟩ := hinv.latest a ha
    exact absurd (href.trans he.symm) (hnone f hf)
  · intro r hr he
    have := (hinv.rows r hr).fresh.2
    have he' : r.scheduleRef = s.nextRef + 1 := he
    omega

theorem inv_putJob (hinv : Inv cal s) (job : CronJob) : Inv cal (putJob job s) := by
  have hfiltered : Inv cal { s with retired := s.retired.filter (· ≠ job.id) } :=
    hinv.of_rows rfl rfl rfl (fun _ h => h) le_rfl hinv.nodup
      (fun r hr => (hinv.rows r hr).congr rfl rfl le_rfl fun hmem =>
        (hinv.rows r hr).kept (mem_filter.mp hmem).1)
      hinv.own fun id hid => Or.inl (mem_filter.mp hid).1
  exact inv_putRow hfiltered (by simp)

/-! ### Deadlines -/

variable {schedule : CronSchedule} {executed : List String}

theorem computeNextRun_gt {base next : ℤ}
    (h : computeNextRun cal schedule base = some next) (hkind : schedule.kind ≠ .oneTime) : base < next := by
  unfold computeNextRun at h
  cases hk : schedule.kind with
  | oneTime => exact absurd hk hkind
  | every =>
    rw [hk] at h
    dsimp only at h
    split at h
    · split_ifs at h
      cases h
      omega
    · cases h
  | cron =>
    rw [hk] at h
    dsimp only at h
    split at h
    · unfold computeCronNextRun at h
      split_ifs at h
      exact cal.nextInstant_gt h
    · cases h

theorem advanceInterval_gt {scheduledFor ended next : ℤ}
    (h : advanceInterval schedule scheduledFor ended = some next) (hle : scheduledFor ≤ ended) :
    ended < next := by
  unfold advanceInterval at h
  split at h
  · cases h
  · next interval _ =>
    split_ifs at h with hpos hlate
    · omega
    · cases h
      have hdiv := Int.lt_ediv_add_one_mul_self (ended - scheduledFor) (not_le.mp hpos)
      omega

/-! ### Edits -/

/-- **What an edit does to a job.** Without a new schedule, a deadline it waits for is the one it had or
is computed now. -/
theorem editJob_spec {now : ℤ} {edit : Edit} {job job' : CronJob}
    (h : editJob cal now edit job = some job') :
    job'.id = job.id ∧ job'.state.lastRunAtMs = job.state.lastRunAtMs ∧
      (edit.reschedules = false → job'.schedule = job.schedule ∧
        (job'.enabled = true → ∀ next ∈ job'.state.nextRunAtMs,
          (job.enabled = true ∧ job.state.nextRunAtMs = some next) ∨
            (edit = .enable true ∧ computeNextRun cal job.schedule now = some next))) := by
  cases edit with
  | enable enabled =>
    cases h
    refine ⟨rfl, rfl, fun _ => ⟨rfl, fun he next hn => Or.inr ?_⟩⟩
    subst he
    exact ⟨rfl, hn⟩
  | update patch =>
    unfold editJob at h
    dsimp only at h
    by_cases hrefused : isSystem job = true ∨ patch.schedule.any (fun s => !validForAdd cal s) = true
    · rw [if_pos hrefused] at h
      cases h
    · rw [if_neg hrefused] at h
      cases h
      refine ⟨rfl, rfl, fun hnone => ?_⟩
      have hschedule : patch.schedule = none := by
        simpa [Edit.reschedules] using hnone
      simp only [hschedule, getD_none, isSome_none, Bool.false_eq_true, and_false, if_false, true_and]
      exact fun he next hn => Or.inl ⟨he, hn⟩

theorem rowOk_edit (edit : Edit) (now : ℤ) (hinv : Inv cal s) (hrow : row ∈ s.jobs)
    {job base : CronJob} {ref : ℕ} (hid : job.id = row.job.id)
    (hrun : ∀ lastRun ∈ row.job.state.lastRunAtMs, ∃ lastRun' ∈ job.state.lastRunAtMs, lastRun ≤ lastRun')
    (hschedule : job.schedule = row.job.schedule) (hbase : base.schedule = row.job.schedule)
    (hdeadline : job.enabled = true → ∀ next ∈ job.state.nextRunAtMs,
      (row.job.enabled = true ∧ row.job.state.nextRunAtMs = some next) ∨
        (edit = .enable true ∧ computeNextRun cal base.schedule now = some next ∧
          ∀ f ∈ s.log, f.scheduleRef = row.scheduleRef → f.started ≤ now))
    (honce : ¬SwitchesOnAgain s edit row) (href : s.active = none ∨ ref = row.ref)
    (hfresh : ref ≤ s.nextRef) :
    RowOk { s with nextRef := s.nextRef + 1 } { job := job, ref := ref, scheduleRef := row.scheduleRef } where
  fresh := ⟨Nat.lt_succ_of_le hfresh, ((hinv.rows row hrow).fresh.2).trans (Nat.lt_succ_self _)⟩
  known := by
    intro f hf he
    rw [hid, hschedule]
    exact (hinv.rows row hrow).known f hf he
  ran := by
    intro f hf he
    rcases (hinv.rows row hrow).ran f hf he with ⟨lastRun, hlast, hle⟩ | hactive
    · obtain ⟨lastRun', hlast', hle'⟩ := hrun lastRun hlast
      exact Or.inl ⟨lastRun', hlast', hle.trans hle'⟩
    · exact Or.inr hactive
  deadline := by
    intro henabled next hnext
    rcases hdeadline henabled next hnext with ⟨hold, hnext'⟩ | ⟨hedit, hnext', htime⟩
    · exact (hinv.rows row hrow).deadline hold next hnext'
    · refine Or.inl fun f hf he => ?_
      have hkind := ((hinv.rows row hrow).known f hf he).2
      have hne : row.job.schedule.kind ≠ .oneTime := fun hone => honce ⟨hedit, hone, f, hf, he⟩
      have hgt := computeNextRun_gt hnext' (by rw [hbase]; exact hne)
      have hle := htime f hf he
      have hsched := (hinv.logged f hf).1
      exact ⟨by rw [hkind]; exact hne, by omega⟩
  isActive := by
    intro a ha he
    obtain ⟨h1, h2⟩ := (hinv.rows row hrow).isActive a ha he
    refine ⟨by rw [← h1]; exact hid, ?_⟩
    rcases href with hnone | href
    · rw [hnone] at ha
      cases ha
    · rw [href]
      exact h2
  kept := by
    rw [hid]
    exact (hinv.rows row hrow).kept

theorem keepResult_spec (current job : CronJob) :
    (keepResult current job).id = job.id ∧ (keepResult current job).schedule = job.schedule ∧
      (keepResult current job).enabled = job.enabled ∧
      (keepResult current job).state.nextRunAtMs = job.state.nextRunAtMs ∧
      ∀ lastRun ∈ current.state.lastRunAtMs,
        ∃ lastRun' ∈ (keepResult current job).state.lastRunAtMs, lastRun ≤ lastRun' := by
  unfold keepResult
  split_ifs with hlater
  · exact ⟨rfl, rfl, rfl, rfl, fun lastRun h => ⟨lastRun, h, le_rfl⟩⟩
  · refine ⟨rfl, rfl, rfl, rfl, fun lastRun h => ?_⟩
    rw [mem_def.mp h] at hlater
    cases hjob : job.state.lastRunAtMs with
    | none =>
      rw [hjob] at hlater
      exact absurd rfl hlater
    | some lastRun' =>
      rw [hjob] at hlater
      exact ⟨lastRun', rfl, by simpa [laterRun] using hlater⟩

/-! ### Lines -/

theorem not_retired_of_not_ran (hinv : Inv cal s) (h : ∀ f ∈ s.log, f.id ≠ id) : id ∉ s.retired := by
  intro hmem
  obtain ⟨f, hf, he⟩ := hinv.retiredRan id hmem
  exact h f hf he

/-- **A line of another process.** -/
theorem inv_mergeLine (hinv : Inv cal s) (hidle : s.active = none) {l : Line} (hok : LineOk s l)
    (hmade : ∀ u, l = .update u → editJob cal u.editedAt u.edit u.base = some u.job) :
    Inv cal (mergeLine s l) := by
  cases l with
  | del jobId =>
    unfold mergeLine
    dsimp only
    split_ifs
    · exact hinv
    · exact inv_removeRows hinv _
  | add job => exact inv_putRow hinv (not_retired_of_not_ran hinv hok)
  | update u =>
    unfold LineOk at hok
    unfold mergeLine
    dsimp only at hok ⊢
    cases hfind : findRow s.jobs u.job.id with
    | none =>
      rw [hfind] at hok
      exact inv_putRow hinv (not_retired_of_not_ran hinv hok)
    | some current =>
      rw [hfind] at hok
      obtain ⟨hcurrent, hid⟩ := findRow_some hfind
      obtain ⟨hkid, hkschedule, hkenabled, hknext, hklast⟩ := keepResult_spec current.job u.job
      split_ifs with hres
      · refine inv_putRow hinv ?_
        rw [hkid, ← hid]
        exact (hinv.rows current hcurrent).kept
      · obtain ⟨⟨hbase, hfresh⟩, honce⟩ := hok.resolve_left hres
        obtain ⟨-, -, hsame⟩ := editJob_spec (hmade u rfl)
        obtain ⟨hschedule, hdeadline⟩ := hsame (by simpa using hres)
        have hrow := rowOk_edit u.edit u.editedAt hinv hcurrent (hkid.trans hid.symm) hklast
          (hkschedule.trans (hschedule.trans hbase)) hbase ?_ honce (Or.inl hidle) (le_refl s.nextRef)
        · refine inv_setRow hinv (Nat.le_succ _) (hrow.congr rfl rfl le_rfl hrow.kept) ?_
          intro r hr he
          exact (hinv.own r hr current hcurrent he).trans (hid.trans hkid.symm)
        · intro henabled next hnext
          rw [hkenabled] at henabled
          rw [hknext] at hnext
          have hwaits : waits u.job = true := by
            rw [waits, henabled, mem_def.mp hnext]
            rfl
          rw [hwaits] at hfresh
          obtain ⟨hen, hnx, hsince⟩ := hfresh.resolve_left (by decide)
          rcases hdeadline henabled next hnext with ⟨h1, h2⟩ | ⟨h1, h2⟩
          · exact Or.inl ⟨hen ▸ h1, hnx ▸ h2⟩
          · refine Or.inr ⟨h1, h2, fun f hf he => ?_⟩
            rcases (hinv.rows current hcurrent).ran f hf he with ⟨lastRun, hlast, hle⟩ | ⟨a, ha, -⟩
            · exact hle.trans (hsince lastRun hlast)
            · rw [hidle] at ha
              cases ha

theorem mergeLine_kept (s : State) (l : Line) :
    (mergeLine s l).active = s.active ∧ (mergeLine s l).lines = s.lines := by
  cases l with
  | del jobId => unfold mergeLine; dsimp only; split_ifs <;> exact ⟨rfl, rfl⟩
  | add job => exact ⟨rfl, rfl⟩
  | update u =>
    unfold mergeLine
    dsimp only
    cases findRow s.jobs u.job.id with
    | none => exact ⟨rfl, rfl⟩
    | some current => dsimp only; split_ifs <;> exact ⟨rfl, rfl⟩

theorem inv_mergeLines : ∀ (ls : List Line) (s : State), Inv cal s → s.active = none →
    LinesOk s ls → (∀ u, Line.update u ∈ ls → editJob cal u.editedAt u.edit u.base = some u.job) →
    Inv cal (ls.foldl mergeLine s)
  | [], s, hinv, _, _, _ => hinv
  | l :: ls, s, hinv, hidle, hok, hmade => by
    refine inv_mergeLines ls (mergeLine s l) ?_ ?_ hok.2 fun u hu =>
      hmade u (mem_cons_of_mem _ hu)
    · exact inv_mergeLine hinv hidle hok.1 fun u hu => hmade u (hu ▸ mem_cons_self)
    · rw [(mergeLine_kept s l).1, hidle]

/-- The lines are played once. -/
theorem mergeLines_kept (ls : List Line) (s : State) :
    (ls.foldl mergeLine s).active = s.active ∧ (ls.foldl mergeLine s).lines = s.lines := by
  induction ls generalizing s with
  | nil => exact ⟨rfl, rfl⟩
  | cons l ls ih =>
    rw [foldl_cons, (ih _).1, (ih _).2]
    exact mergeLine_kept s l

theorem mergeAction_lines (s : State) : (mergeAction s).lines = [] := (mergeLines_kept _ _).2

theorem mergeAction_active (s : State) : (mergeAction s).active = s.active := (mergeLines_kept _ _).1

theorem inv_mergeAction (hinv : Inv cal s) (hidle : s.active = none)
    (hok : LinesOk { s with lines := [] } s.lines) : Inv cal (mergeAction s) :=
  inv_mergeLines s.lines _
    { nodup := hinv.nodup
      rows := fun r hr => (hinv.rows r hr).congr rfl rfl le_rfl (hinv.rows r hr).kept
      own := hinv.own
      logged := hinv.logged
      latest := hinv.latest
      made := fun _ hu => absurd hu not_mem_nil
      once := hinv.once
      retiredRan := hinv.retiredRan } hidle hok hinv.made

/-! ### Calls -/

theorem inv_editRow (hinv : Inv cal s) {jobId : String} {edit : Edit}
    (hok : ∀ row ∈ findRow s.jobs jobId, ¬SwitchesOnAgain s edit row) :
    Inv cal (editRow cal jobId edit s) := by
  unfold editRow
  cases hfind : findRow s.jobs jobId with
  | none => exact hinv
  | some row =>
    dsimp only
    obtain ⟨hrow, hid⟩ := findRow_some hfind
    cases hedit : editJob cal s.now edit row.job with
    | none => exact hinv
    | some job =>
      obtain ⟨hjid, hlast, hsame⟩ := editJob_spec hedit
      have hold := hinv.rows row hrow
      cases hres : edit.reschedules with
      | true =>
        have hnone : ∀ f ∈ s.log, f.scheduleRef ≠ s.nextRef := fun f hf he => by
          have := (hinv.logged f hf).2.2
          omega
        refine inv_setRow hinv (Nat.le_succ _)
          { fresh := ⟨hold.fresh.1.trans (Nat.lt_succ_self _), Nat.lt_succ_self _⟩
            known := fun f hf he => absurd he (hnone f hf)
            ran := fun f hf he => absurd he (hnone f hf)
            deadline := fun _ _ _ => Or.inl fun f hf he => absurd he (hnone f hf)
            isActive := ?_
            kept := by dsimp only; rw [hjid]; exact hold.kept } ?_
        · intro a ha he
          obtain ⟨-, -, -, f, hf, -, href⟩ := hinv.latest a ha
          exact absurd (href.trans he.symm) (hnone f hf)
        · intro r hr he
          have := (hinv.rows r hr).fresh.2
          have he' : r.scheduleRef = s.nextRef := he
          omega
      | false =>
        obtain ⟨hschedule, hdeadline⟩ := hsame hres
        have hnew := rowOk_edit edit s.now hinv hrow hjid
          (fun lastRun h => ⟨lastRun, by rw [hlast]; exact h, le_rfl⟩) hschedule
          (Eq.refl row.job.schedule) ?_ (hok row hfind) (Or.inr (Eq.refl row.ref)) hold.fresh.1.le
        · refine inv_setRow hinv (Nat.le_succ _) (hnew.congr rfl rfl le_rfl hnew.kept) ?_
          intro r hr he
          exact (hinv.own r hr row hrow he).trans hjid.symm
        · intro henabled next hnext
          rcases hdeadline henabled next hnext with h | ⟨h1, h2⟩
          · exact Or.inl h
          · exact Or.inr ⟨h1, h2, fun f hf _ => (hinv.logged f hf).2.1⟩

/-! ### Runs of a job -/

theorem nextDue_spec (h : nextDue s executed = some row) :
    row ∈ s.jobs ∧ row.job.enabled = true ∧ ∃ next, row.job.state.nextRunAtMs = some next ∧ next ≤ s.now := by
  have hmem := (mem_sortBy dueOrder).mp (mem_of_head? h)
  obtain ⟨hrow, hdue⟩ := mem_filter.mp hmem
  simp only [isDue, Bool.and_eq_true] at hdue
  obtain ⟨⟨henabled, -⟩, hnext⟩ := hdue
  refine ⟨hrow, henabled, ?_⟩
  cases hn : row.job.state.nextRunAtMs with
  | none => rw [hn] at hnext; cases hnext
  | some next => exact ⟨next, rfl, by simpa [hn] using hnext⟩

/-- **The timer starts a job**: its deadline is behind every run of its schedule. -/
theorem inv_fire (hinv : Inv cal s) (hidle : s.active = none)
    (hrow : row ∈ s.jobs) (henabled : row.job.enabled = true) {next : ℤ}
    (hnext : row.job.state.nextRunAtMs = some next) (hdue : next ≤ s.now) :
    Inv cal (fire s executed row) := by
  have hold := hinv.rows row hrow
  have hbefore : ∀ f ∈ s.log, f.scheduleRef = row.scheduleRef → f.kind ≠ .oneTime ∧ f.scheduledFor < next := by
    rcases hold.deadline henabled next hnext with h | ⟨a, ha, -⟩
    · exact h
    · rw [hidle] at ha
      cases ha
  have hself : ∀ r ∈ s.jobs, r.scheduleRef = row.scheduleRef → r = row := fun r hr he =>
    eq_of_id hinv.nodup hr hrow (hinv.own r hr row hrow he)
  unfold fire
  rw [hnext]
  exact
    { nodup := hinv.nodup
      rows := by
        intro r hr
        have hr' := hinv.rows r hr
        refine
          { fresh := hr'.fresh
            known := ?_
            ran := ?_
            deadline := ?_
            isActive := ?_
            kept := hr'.kept }
        · intro f hf he
          rcases mem_cons.mp hf with rfl | hf
          · rw [hself r hr he.symm]
            exact ⟨rfl, rfl⟩
          · exact hr'.known f hf he
        · intro f hf he
          rcases mem_cons.mp hf with rfl | hf
          · exact Or.inr ⟨_, rfl, he.symm⟩
          · rcases hr'.ran f hf he with h | ⟨a, ha, -⟩
            · exact Or.inl h
            · rw [hidle] at ha
              cases ha
        · intro hen n hn
          by_cases he : r.scheduleRef = row.scheduleRef
          · rw [hself r hr he, hnext] at hn
            cases hn
            exact Or.inr ⟨_, rfl, he, rfl⟩
          · rcases hr'.deadline hen n hn with h | ⟨a, ha, -⟩
            · refine Or.inl fun f hf hfe => ?_
              rcases mem_cons.mp hf with rfl | hf
              · exact absurd hfe.symm he
              · exact h f hf hfe
            · rw [hidle] at ha
              cases ha
        · rintro a ha he
          cases ha
          rw [hself r hr he]
          exact ⟨rfl, rfl⟩
      own := hinv.own
      logged := by
        intro f hf
        rcases mem_cons.mp hf with rfl | hf
        · exact ⟨hdue, le_rfl, hold.fresh.2⟩
        · exact hinv.logged f hf
      latest := by
        rintro a ha
        cases ha
        refine ⟨fun f hf => ?_, le_rfl, hdue, _, mem_cons_self, rfl, rfl⟩
        rcases mem_cons.mp hf with rfl | hf
        · exact le_rfl
        · exact (hinv.logged f hf).2.1
      made := hinv.made
      once := pairwise_cons.mpr ⟨fun f hf he => hbefore f hf he.symm, hinv.once⟩
      retiredRan := by
        intro id hid
        obtain ⟨f, hf, he⟩ := hinv.retiredRan id hid
        exact ⟨f, mem_cons_of_mem _ hf, he⟩ }

theorem inv_runPass (hinv : Inv cal s) (hidle : s.active = none)
    (hok : LinesOk { s with lines := [] } s.lines) (executed : List String) :
    Inv cal (runPass executed s) := by
  have hmerged := inv_mergeAction hinv hidle hok
  unfold runPass
  dsimp only
  cases hdue : nextDue (mergeAction s) executed with
  | none => exact hmerged
  | some row =>
    obtain ⟨hrow, henabled, next, hnext, hle⟩ := nextDue_spec hdue
    exact inv_fire hmerged ((mergeAction_active s).trans hidle) hrow henabled hnext hle

theorem RowOk.settle (h : RowOk s r) (ha : s.active = some a)
    (hne : r.scheduleRef ≠ a.scheduleRef) (hlog : s'.log = s.log) (hactive : s'.active = none)
    (hnext : s.nextRef ≤ s'.nextRef) (hkept : r.job.id ∉ s'.retired) : RowOk s' r where
  fresh := ⟨h.fresh.1.trans_le hnext, h.fresh.2.trans_le hnext⟩
  known := by rw [hlog]; exact h.known
  ran := by
    rw [hlog]
    intro f hf he
    refine (h.ran f hf he).imp_right ?_
    rintro ⟨b, hb, hbe⟩
    rw [ha] at hb
    cases hb
    exact absurd hbe hne
  deadline := by
    rw [hlog]
    intro henabled next hn
    refine (h.deadline henabled next hn).imp_right ?_
    rintro ⟨b, hb, hbe, -⟩
    rw [ha] at hb
    cases hb
    exact absurd hbe hne
  isActive := by
    intro b hb
    rw [hactive] at hb
    cases hb
  kept := hkept

theorem rowOk_recorded (hinv : Inv cal s) (ha : s.active = some a)
    (hrow : row ∈ s.jobs) {row' : Row} (hjob : row'.job.id = row.job.id)
    (hschedule : row'.job.schedule = row.job.schedule) (href : row'.ref = row.ref)
    (hsref : row'.scheduleRef = row.scheduleRef)
    (hlast : row'.job.state.lastRunAtMs = some a.started)
    (hdeadline : row'.job.enabled = true → ∀ next ∈ row'.job.state.nextRunAtMs,
      ∀ f ∈ s.log, f.scheduleRef = row.scheduleRef → f.kind ≠ .oneTime ∧ f.scheduledFor < next)
    (hlog : s'.log = s.log) (hactive : s'.active = none) (hnext : s'.nextRef = s.nextRef)
    (hretired : s'.retired = s.retired) : RowOk s' row' where
  fresh := by
    rw [href, hsref, hnext]
    exact (hinv.rows row hrow).fresh
  known := by
    rw [hlog, hsref, hjob, hschedule]
    exact (hinv.rows row hrow).known
  ran := by
    rw [hlog]
    exact fun f hf _ => Or.inl ⟨a.started, hlast, (hinv.latest a ha).1 f hf⟩
  deadline := by
    rw [hlog, hsref]
    exact fun henabled next hn => Or.inl (hdeadline henabled next hn)
  isActive := by
    intro b hb
    rw [hactive] at hb
    cases hb
  kept := by
    rw [hjob, hretired]
    exact (hinv.rows row hrow).kept

theorem completeJob_active (a : Active) (error : Option String) (s : State) :
    (completeJob cal a error s).active = none := by
  unfold completeJob
  dsimp only
  cases findRow s.jobs a.id with
  | none => rfl
  | some found => dsimp only; split_ifs <;> rfl

/-- **A run ends**: the deadline is moved behind it, or the job has ended, or an edit has set one. -/
theorem inv_completeJob (hinv : Inv cal s) (ha : s.active = some a)
    (error : Option String) : Inv cal (completeJob cal a error s) := by
  obtain ⟨hlatest, hstarted, hscheduled, -⟩ := hinv.latest a ha
  have hother : ∀ r ∈ s.jobs, r.job.id ≠ a.id ∨ r.ref ≠ a.ref → r.scheduleRef ≠ a.scheduleRef := by
    intro r hr hne he
    obtain ⟨h1, h2⟩ := (hinv.rows r hr).isActive a ha he
    exact hne.elim (fun h => h h1) fun h => h h2
  have hkeep : (∀ r ∈ s.jobs, r.job.id ≠ a.id ∨ r.ref ≠ a.ref) → Inv cal { s with active := none } := by
    intro hall
    refine hinv.of_rows rfl rfl rfl (nofun) le_rfl hinv.nodup (fun r hr => ?_)
      hinv.own fun id hid => Or.inl hid
    exact (hinv.rows r hr).settle ha (hother r hr (hall r hr)) rfl rfl le_rfl (hinv.rows r hr).kept
  unfold completeJob
  dsimp only
  cases hfind : findRow s.jobs a.id with
  | none => exact hkeep fun r hr => Or.inl (findRow_none hfind r hr)
  | some found =>
    obtain ⟨hfound, hid⟩ := findRow_some hfind
    dsimp only
    by_cases href : found.ref ≠ a.ref
    · rw [if_pos href]
      refine hkeep fun r hr => ?_
      by_cases he : r.job.id = a.id
      · rw [eq_of_id hinv.nodup hr hfound (he.trans hid.symm)]
        exact Or.inr href
      · exact Or.inl he
    · rw [if_neg href]
      -- The row is replaced by `row'`, the others belong to other jobs.
      have hset : ∀ row' : Row, row'.job.id = found.job.id →
          row'.scheduleRef = found.scheduleRef →
          RowOk { s with jobs := setRow s.jobs row', active := none } row' →
          Inv cal { s with jobs := setRow s.jobs row', active := none } := by
        intro row' hid' href' hrow'
        refine hinv.of_rows rfl rfl rfl (nofun) le_rfl (nodup_setRow hinv.nodup row')
          ?_ ?_ fun id hid => Or.inl hid
        · intro r hr
          rcases mem_setRow hr with rfl | ⟨hr, hne⟩
          · exact hrow'
          · rw [hid', hid] at hne
            exact (hinv.rows r hr).settle ha (hother r hr (Or.inl hne)) rfl rfl le_rfl
              (hinv.rows r hr).kept
        · intro r hr r' hr' he
          rcases mem_setRow hr with rfl | ⟨hold, -⟩ <;>
            rcases mem_setRow hr' with rfl | ⟨hold', -⟩
          · rfl
          · rw [hid']
            exact hinv.own found hfound r' hold' (href'.symm.trans he)
          · rw [hid']
            exact hinv.own r hold found hfound (he.trans href')
          · exact hinv.own r hold r' hold' he
      split_ifs with hedited hdelete
      · refine hset _ rfl rfl (rowOk_recorded hinv ha hfound rfl rfl rfl rfl rfl ?_ rfl rfl rfl rfl)
        intro henabled next hnext
        rcases (hinv.rows found hfound).deadline henabled next hnext with h | ⟨b, hb, hbref, hbnext⟩
        · exact h
        · rw [ha] at hb
          cases hb
          rcases hedited with h | h | h
          · exact absurd (h.symm.trans henabled) (by decide)
          · exact absurd hbref h
          · exact absurd (hbnext ▸ mem_def.mp hnext) h
      · refine hinv.of_rows rfl rfl rfl (nofun) le_rfl
          (nodup_removeRows hinv.nodup _) ?_
          (fun r hr r' hr' => hinv.own r (mem_removeRows hr).1 r' (mem_removeRows hr').1)
          fun id hid => (mem_retired_removeRows hid).imp_right And.left
        intro r hr
        obtain ⟨hold, hp⟩ := mem_removeRows hr
        have hne : r.job.id ≠ a.id := by simpa using hp
        exact (hinv.rows r hold).settle ha (hother r hold (Or.inl hne)) rfl rfl le_rfl
          (kept_removeRows hinv.nodup (hinv.rows r hold).kept hr)
      · refine hset _ rfl rfl (rowOk_recorded hinv ha hfound rfl rfl rfl rfl rfl ?_ rfl rfl rfl rfl)
        intro henabled next hnext f hf he
        have hkind := ((hinv.rows found hfound).known f hf he).2
        obtain ⟨hsched, hnow, -⟩ := hinv.logged f hf
        have hgt : found.job.schedule.kind ≠ .oneTime ∧ s.now < next := by
          dsimp only [finishRow, recordRun] at henabled hnext
          cases hk : found.job.schedule.kind with
          | oneTime => rw [hk] at henabled; simp at henabled
          | every =>
            rw [hk] at hnext
            exact ⟨by decide, advanceInterval_gt hnext (hscheduled.trans hstarted)⟩
          | cron =>
            rw [hk] at hnext
            exact ⟨by decide, computeNextRun_gt hnext (by rw [hk]; decide)⟩
        exact ⟨by rw [hkind]; exact hgt.1, by omega⟩

/-! ### Steps and runs -/

theorem inv_lines (hinv : Inv cal s) (l : Line)
    (hmade : ∀ u, l = .update u → editJob cal u.editedAt u.edit u.base = some u.job) :
    Inv cal { s with lines := s.lines ++ [l] } where
  nodup := hinv.nodup
  rows := fun r hr => (hinv.rows r hr).congr rfl rfl le_rfl (hinv.rows r hr).kept
  own := hinv.own
  logged := hinv.logged
  latest := hinv.latest
  made := by
    intro u hu
    rcases mem_append.mp hu with hu | hu
    · exact hinv.made u hu
    · exact hmade u (mem_singleton.mp hu).symm
  once := hinv.once
  retiredRan := hinv.retiredRan

theorem inv_tick (hinv : Inv cal s) (ms : ℕ) : Inv cal { s with now := s.now + ms } where
  nodup := hinv.nodup
  rows := fun r hr => (hinv.rows r hr).congr rfl rfl le_rfl (hinv.rows r hr).kept
  own := hinv.own
  logged := by
    intro f hf
    obtain ⟨h1, h2, h3⟩ := hinv.logged f hf
    exact ⟨h1, by dsimp only; omega, h3⟩
  latest := by
    intro a ha
    obtain ⟨h1, h2, h3⟩ := hinv.latest a ha
    exact ⟨h1, by dsimp only; omega, h3⟩
  made := hinv.made
  once := hinv.once
  retiredRan := hinv.retiredRan

theorem inv_loadStore (hinv : Inv cal s)
    (hok : s.active = none → LinesOk { s with lines := [] } s.lines) : Inv cal (loadStore s) := by
  unfold loadStore
  cases ha : s.active with
  | some a => exact hinv
  | none => exact inv_mergeAction hinv ha (hok ha)

theorem inv_onTimer (hinv : Inv cal s)
    (hok : s.active = none → LinesOk { s with lines := [] } s.lines) : Inv cal (onTimer s) := by
  unfold onTimer
  cases ha : s.active with
  | some a => exact hinv
  | none =>
    have hload : loadStore s = mergeAction s := by unfold loadStore; rw [ha]
    rw [hload]
    refine inv_runPass (inv_mergeAction hinv ha (hok ha)) ((mergeAction_active s).trans ha) ?_ []
    rw [mergeAction_lines]
    exact trivial

theorem inv_step (hinv : Inv cal s) {op : Op} (hok : Allowed cal s op) : Inv cal (step cal s op) := by
  obtain ⟨hlines, hedit⟩ := hok
  have hload : mergesIn cal s op = (if s.active = none then some s else none) →
      s.active = none → LinesOk { s with lines := [] } s.lines := fun hm hn => by
    rw [if_pos hn] at hm
    exact hlines s hm
  cases op with
  | tick ms => exact inv_tick hinv ms
  | externalAdd new =>
    unfold step
    dsimp only
    split_ifs
    · exact inv_lines hinv _ fun u hu => by cases hu
    · exact hinv
  | externalEdit base edit =>
    unfold step
    dsimp only
    cases hjob : editJob cal s.now edit base with
    | none => exact hinv
    | some job => exact inv_lines hinv _ fun u hu => by cases hu; exact hjob
  | externalDel jobId => exact inv_lines hinv _ fun u hu => by cases hu
  | load => exact inv_loadStore hinv (hload rfl)
  | add job => exact inv_putJob (inv_loadStore hinv (hload rfl)) job
  | addJob new =>
    unfold step
    dsimp only
    split_ifs
    · exact inv_putJob (inv_loadStore hinv (hload rfl)) _
    · exact inv_loadStore hinv (hload rfl)
  | registerSystemJob job => exact inv_putJob (inv_loadStore hinv (hload rfl)) _
  | unregisterSystemJob jobId => exact inv_removeRows (inv_loadStore hinv (hload rfl)) _
  | removeJob jobId => exact inv_removeRows (inv_loadStore hinv (hload rfl)) _
  | removeForSessions keys => exact inv_removeRows (inv_loadStore hinv (hload rfl)) _
  | edit jobId edit =>
    exact inv_editRow (inv_loadStore hinv (hload rfl)) hedit
  | timer => exact inv_onTimer hinv (hload rfl)
  | complete error =>
    unfold step
    cases ha : s.active with
    | none => exact hinv
    | some a =>
      refine inv_runPass (inv_completeJob hinv ha error) (completeJob_active a error s) ?_ _
      exact hlines _ (by simp [mergesIn, ha])

theorem inv_start {jobs : List CronJob} (hnodup : (jobs.map (·.id)).Nodup) (now : ℤ) :
    Inv cal (start jobs now) := by
  have hids : (start jobs now).jobs.map (·.job.id) = jobs.map (·.id) := by
    unfold start
    rw [List.map_map]
    exact (map_map (l := jobs.zipIdx) (f := Prod.fst) (g := (·.id))).symm.trans
      (by rw [zipIdx_map_fst])
  have hrow : ∀ r ∈ (start jobs now).jobs, ∃ i, ∃ h : i < jobs.length,
      r = { job := jobs[i], ref := 2 * i, scheduleRef := 2 * i + 1 } := by
    intro r hr
    obtain ⟨⟨job, i⟩, hp, rfl⟩ := mem_map.mp hr
    obtain ⟨h, he⟩ := mem_zipIdx' hp
    exact ⟨i, h, by rw [← he]⟩
  refine
    { nodup := by rw [hids]; exact hnodup
      rows := ?_
      own := ?_
      logged := fun f hf => absurd hf not_mem_nil
      latest := fun a ha => by cases ha
      made := fun u hu => absurd hu not_mem_nil
      once := List.Pairwise.nil
      retiredRan := fun id hid => absurd hid not_mem_nil }
  · intro r hr
    obtain ⟨i, hi, rfl⟩ := hrow r hr
    exact
      { fresh := ⟨by unfold start; dsimp only; omega, by unfold start; dsimp only; omega⟩
        known := fun f hf => absurd hf not_mem_nil
        ran := fun f hf => absurd hf not_mem_nil
        deadline := fun _ _ _ => Or.inl fun f hf => absurd hf not_mem_nil
        isActive := fun a ha => by cases ha
        kept := not_mem_nil }
  · intro r hr r' hr' he
    obtain ⟨i, hi, rfl⟩ := hrow r hr
    obtain ⟨j, hj, rfl⟩ := hrow r' hr'
    have hij : i = j := by dsimp only at he; omega
    subst hij
    rfl

/-- **At most once.** In a run whose steps are all allowed, no schedule is run twice for a deadline, a
one-time schedule once at all, and no job that was removed after it has run comes back. -/
theorem run_once (cal : Calendar) (jobs : List CronJob) (hnodup : (jobs.map (·.id)).Nodup) (now : ℤ)
    (ops : List Op) (hok : ∀ t ∈ taken (step cal) (start jobs now) ops, Allowed cal t.1 t.2) :
    ∀ t ∈ visited (step cal) (start jobs now) ops, OncePerOccurrence t.log ∧ NotBack t := by
  intro t ht
  have hstep : ∀ s op, Inv cal s → Allowed cal s op → Inv cal (step cal s op) := fun _ _ h hop => inv_step h hop
  have hinv : Inv cal t := invariant_of_steps hstep ops _ (inv_start hnodup now) hok t ht
  exact ⟨hinv.once, fun r hr => (hinv.rows r hr).kept⟩

/-! ### A stale line -/

/-- Every cron expression is due each minute. -/
def minutes : Calendar where
  parseDate := fun _ => none
  nextInstant := fun _ base _ => some (base + 60000)
  nextInstant_gt := fun h => by cases h; omega
  validTimezone := fun _ => true

/-- A reminder for the instant `1000`. -/
def reminder : CronJob where
  id := "a1b2c3d4"
  name := "reminder"
  schedule := { kind := .oneTime, atMs := some 1000 }
  state := { nextRunAtMs := some 1000 }

/-- Another process renames the job as it was before its run. -/
def renameRun (job : CronJob) : List Op :=
  [.tick 1500, .timer, .externalEdit job (.update { name := some "call" }), .complete none, .timer]

/-- The rename is merged before the run. -/
def renamedBefore : List Op :=
  [.externalEdit reminder (.update { name := some "call" }), .tick 1500, .timer, .complete none, .timer]

theorem run_once_renamedBefore :
    OncePerOccurrence (final (step minutes) (start [reminder] 0) renamedBefore).log ∧
      NotBack (final (step minutes) (start [reminder] 0) renamedBefore) :=
  run_once minutes [reminder] (by decide +kernel) 0 renamedBefore (by decide +kernel) _
    (final_mem_visited (step minutes) renamedBefore _)

/-- Its line runs the reminder again, and brings it back if it is deleted after its run. -/
theorem renameRun_repeats :
    ¬OncePerOccurrence
        (final (step minutes) (start [reminder] 0) (renameRun reminder)).log ∧
      ¬NotBack (final (step minutes) (start [{ reminder with deleteAfterRun := true }] 0)
        (renameRun { reminder with deleteAfterRun := true })) := by
  decide +kernel

end Memmy.Cron.Once
