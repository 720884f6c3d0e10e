import Mathlib.Order.Bounds.Basic
import Memmy.Cron.ActionFile

/-! # Edits during a run

While the callback of a job runs, calls and merged lines change the list of the jobs. `executeJob` then moves
the deadline, unless the job is another object, is switched off, or has another schedule object or another
deadline than at the start.

* `advanceInterval_least`: the deadline of an interval is the first one of its phase behind the end.
* `untouched_changes`: a job that no edit names is as it was at the start.
* `Completes`: what the completion may do to the edits of the run, and what it does without them.
* `completes_iff`: it does this exactly if no edit has switched the job on again for the same deadline, and
  the job was switched on. -/

namespace Memmy.Cron.Completion

open Cron.Service Cron.ActionFile Lib.KeyMap List Option

/-! ### The store during the run -/

abbrev rowId (r : Row) : String := r.job.id

structure Store where
  rows : List Row
  nextRef : ℕ
  /-- The jobs that were deleted, switched, rescheduled or replaced. -/
  edited : List String := []

def load (jobs : List CronJob) : Store where
  rows := (Service.start jobs 0).jobs
  nextRef := (Service.start jobs 0).nextRef

inductive Change where
  /-- `removeJob`, `unregisterSystemJob`, `removeWebuiJobsForSessionKeys`. -/
  | remove (ids : List String)
  /-- `add`, `addJob`, `registerSystemJob`. -/
  | add (job : CronJob)
  | enable (jobId : String) (enabled : Bool) (now : ℤ)
  /-- `updateJob`; a schedule may be the job's own object. -/
  | update (jobId : String) (patch : JobPatch) (own : Bool) (now : ℤ)
  | merge (actions : List Action)

/-- A job with a schedule of its own takes its place. -/
def putJob (s : Store) (job : CronJob) : Store where
  rows := set rowId s.rows
    { job := job
      ref := s.nextRef
      scheduleRef := s.nextRef + 1 }
  nextRef := s.nextRef + 2
  edited := job.id :: s.edited

def mergeRow (s : Store) : Action → Store
  | .add job => putJob s job
  | .update job =>
    match get? rowId s.rows job.id with
    | some current => putJob s (keepResult current.job job)
    | none => putJob s job
  | .del jobId =>
    if jobId = "" then s
    else
      { s with
        rows := delete rowId s.rows jobId
        edited := jobId :: s.edited }
  | .other => s

variable (cal : Calendar)

/-- The edit sets the switch or the schedule. -/
def chooses : Edit → Bool
  | .enable _ => true
  | .update patch => patch.schedule.isSome

/-- An edit of a job in place. -/
def editJobIn (s : Store) (jobId : String) (edit : Row → Edit) (own : Bool) (now : ℤ) : Store :=
  match get? rowId s.rows jobId with
  | none => s
  | some row =>
    match editJob cal now (edit row) row.job with
    | none => s
    | some job =>
      { rows := set rowId s.rows
          { row with
            job := job
            scheduleRef := if (edit row).reschedules && !own then s.nextRef else row.scheduleRef }
        nextRef := s.nextRef + 1
        edited := if chooses (edit row) then jobId :: s.edited else s.edited }

def change (s : Store) : Change → Store
  | .remove ids =>
    { s with
      rows := s.rows.filter fun r => !ids.contains r.job.id
      edited := ids ++ s.edited }
  | .add job =>
    { rows := delete rowId s.rows job.id ++
        [{ job := job
           ref := s.nextRef
           scheduleRef := s.nextRef + 1 }]
      nextRef := s.nextRef + 2
      edited := job.id :: s.edited }
  | .enable jobId enabled now => editJobIn cal s jobId (fun _ => .enable enabled) false now
  | .update jobId patch own now =>
    editJobIn cal s jobId (fun row => .update
      { patch with schedule := if own then some row.job.schedule else patch.schedule }) own now
  | .merge actions => actions.foldl mergeRow { s with rows := ofList rowId s.rows }

/-! ### The completion -/

/-- What `executeJob` notes when it starts. -/
structure Run where
  id : String
  ref : ℕ
  scheduleRef : ℕ
  scheduledForMs : Option ℤ
  started : ℤ

def begin (row : Row) (started : ℤ) : Run where
  id := row.job.id
  ref := row.ref
  scheduleRef := row.scheduleRef
  scheduledForMs := row.job.state.nextRunAtMs
  started := started

/-- The deadline behind a run that has ended. -/
def following (schedule : CronSchedule) (scheduledForMs : Option ℤ) (ended : ℤ) : Option ℤ :=
  match schedule.kind, scheduledForMs with
  | .every, some scheduledFor => advanceInterval schedule scheduledFor ended
  | _, _ => computeNextRun cal schedule ended

/-- The result of the run on the job. -/
def recorded (run : Run) (ended : ℤ) (error : Option String) (row : Row) : Row :=
  { row with
    job := recordRun
      { id := run.id
        ref := run.ref
        scheduleRef := run.scheduleRef
        scheduledFor := run.scheduledForMs.getD 0
        started := run.started
        executed := [] } ended error row.job }

/-- The job is as the run has found it. -/
def Unedited (run : Run) (row : Row) : Prop :=
  row.ref = run.ref ∧ row.job.enabled = true ∧ row.scheduleRef = run.scheduleRef ∧
    row.job.state.nextRunAtMs = run.scheduledForMs

instance (run : Run) (row : Row) : Decidable (Unedited run row) := by unfold Unedited; infer_instance

/-- The next deadline, or the end, of a job that is as the run has found it. -/
def advance (run : Run) (ended : ℤ) (row : Row) : Row :=
  { row with
    job :=
      { row.job with
        enabled := decide (row.job.schedule.kind ≠ .oneTime) && row.job.enabled
        state :=
          { row.job.state with
            nextRunAtMs :=
              if row.job.schedule.kind = .oneTime then none
              else following cal row.job.schedule run.scheduledForMs ended } } }

/-- The end of `executeJob`. An object that is no longer in the list is out of reach. -/
def finish (run : Run) (ended : ℤ) (error : Option String) (s : Store) : Store :=
  match get? rowId s.rows run.id with
  | none => s
  | some found =>
    if found.ref ≠ run.ref then s
    else
      let row := recorded run ended error found
      if ¬ Unedited run row then { s with rows := set rowId s.rows row }
      else if row.job.schedule.kind = .oneTime ∧ row.job.deleteAfterRun = true then
        { s with rows := delete rowId s.rows run.id }
      else { s with rows := set rowId s.rows (advance cal run ended row) }

/-! ### The property -/

/-- What an edit chooses. -/
def chosen (r : Row) : Bool × Option ℤ := (r.job.enabled, r.job.state.nextRunAtMs)

/-- **The completion of a run**, of a job that was `row` at the start. -/
structure Completes (row : Row) (run : Run) (ended : ℤ) (before after : Store) : Prop where
  /-- Nothing that is gone is back. -/
  gone : ∀ id, get? rowId before.rows id = none → get? rowId after.rows id = none
  /-- What an edit has chosen stays. -/
  stays : run.id ∈ before.edited → ∀ id, (get? rowId after.rows id).map chosen =
    (get? rowId before.rows id).map chosen
  /-- Without an edit an interval is moved to its first deadline behind the end. -/
  next : run.id ∉ before.edited → ∀ interval d, row.job.schedule.kind = .every →
    row.job.schedule.everyMs = some interval → 0 < interval → row.job.state.nextRunAtMs = some d →
    ∃ r next, get? rowId after.rows run.id = some r ∧ r.job.state.nextRunAtMs = some next ∧
      IsLeast {t | (∃ n : ℕ, t = d + n * interval) ∧ ended < t} next

/-- The edits have brought the job back to where the run found it, and the completion takes it from there. -/
def Overwritten (run : Run) (ended : ℤ) (before : Store) : Prop :=
  ∃ row, get? rowId before.rows run.id = some row ∧ Unedited run row ∧
    (row.job.schedule.kind = .oneTime ∨
      following cal row.job.schedule run.scheduledForMs ended ≠ run.scheduledForMs)

/-- **The condition.** No edit of the job ends where the run began; and a job that nobody has edited is switched
on, or its deadline is still to come. -/
def Sound (row : Row) (run : Run) (ended : ℤ) (before : Store) : Prop :=
  (run.id ∈ before.edited → ¬ Overwritten cal run ended before) ∧
    (run.id ∉ before.edited → ∀ interval d, row.job.schedule.kind = .every →
      row.job.schedule.everyMs = some interval → 0 < interval → row.job.state.nextRunAtMs = some d →
      row.job.enabled = true ∨ ended < d)

/-! ### The arithmetic of an interval -/

/-- **The first deadline of the phase behind the end.** -/
theorem advanceInterval_least {schedule : CronSchedule} {interval : ℤ} (h : schedule.everyMs = some interval)
    (hpositive : 0 < interval) (d ended : ℤ) :
    ∃ next, advanceInterval schedule d ended = some next ∧
      IsLeast {t | (∃ n : ℕ, t = d + n * interval) ∧ ended < t} next := by
  unfold advanceInterval
  rw [h]
  dsimp only
  rw [if_neg (not_le.mpr hpositive)]
  by_cases hfuture : ended < d
  · rw [if_pos hfuture]
    refine ⟨d, rfl, ⟨⟨0, by simp⟩, hfuture⟩, ?_⟩
    rintro t ⟨⟨n, rfl⟩, -⟩
    have hn : (0 : ℤ) ≤ n * interval := mul_nonneg (Int.natCast_nonneg n) hpositive.le
    omega
  · rw [if_neg hfuture]
    have hquotient : 0 ≤ (ended - d) / interval := Int.ediv_nonneg (by omega) hpositive.le
    have hdiv := Int.mul_ediv_add_emod (ended - d) interval
    have hmod := Int.emod_lt_of_pos (ended - d) hpositive
    refine ⟨_, rfl, ⟨⟨((ended - d) / interval + 1).toNat, ?_⟩, ?_⟩, ?_⟩
    · rw [Int.toNat_of_nonneg (by omega)]
    · rw [add_mul, one_mul, mul_comm ((ended - d) / interval)]
      omega
    · rintro t ⟨⟨n, rfl⟩, hlate⟩
      have hn : (ended - d) / interval < n := Int.ediv_lt_of_lt_mul hpositive (by omega)
      have hle : ((ended - d) / interval + 1) * interval ≤ n * interval :=
        mul_le_mul_of_nonneg_right (by omega) hpositive.le
      omega

/-! ### What nobody has edited -/

/-- The job is the object of the start, with the same switch, schedule and deadline. -/
def SameJob (row r : Row) : Prop :=
  r.ref = row.ref ∧ r.scheduleRef = row.scheduleRef ∧ r.job.schedule = row.job.schedule ∧ chosen r = chosen row

/-- The job is edited, or it is as at the start. -/
def Untouched (row : Row) (s : Store) : Prop :=
  row.job.id ∈ s.edited ∨ ∃ r, get? rowId s.rows row.job.id = some r ∧ SameJob row r

theorem Untouched.of_edited {row : Row} {s s' : Store} (h : Untouched row s) (hedited : s.edited ⊆ s'.edited)
    (hrow : row.job.id ∉ s'.edited → get? rowId s'.rows row.job.id = get? rowId s.rows row.job.id) :
    Untouched row s' := by
  by_cases hmem : row.job.id ∈ s'.edited
  · exact Or.inl hmem
  · refine Or.inr ?_
    rw [hrow hmem]
    exact h.resolve_left fun h => hmem (hedited h)

section Steps
variable {row : Row} {s : Store}

theorem untouched_putJob (h : Untouched row s) (job : CronJob) : Untouched row (putJob s job) := by
  refine h.of_edited (subset_cons_self _ _) fun hmem => ?_
  have hid : ¬ job.id = row.job.id := fun he => hmem (he ▸ mem_cons_self)
  exact (get?_set _ _ _).trans (if_neg hid)

theorem untouched_mergeRow (h : Untouched row s) (a : Action) : Untouched row (mergeRow s a) := by
  cases a with
  | add job => exact untouched_putJob h job
  | update job =>
    unfold mergeRow
    dsimp only
    split
    · exact untouched_putJob h _
    · exact untouched_putJob h _
  | del jobId =>
    unfold mergeRow
    dsimp only
    split_ifs
    · exact h
    · refine h.of_edited (subset_cons_self _ _) fun hmem => ?_
      have hid : ¬ row.job.id = jobId := fun he => hmem (he ▸ mem_cons_self)
      exact (get?_delete _ _ _).trans (if_neg hid)
  | other => exact h

theorem nodup_mergeRow (h : (s.rows.map rowId).Nodup) (a : Action) : ((mergeRow s a).rows.map rowId).Nodup := by
  cases a with
  | add job => exact nodup_set h _
  | update job =>
    unfold mergeRow
    dsimp only
    split
    · exact nodup_set h _
    · exact nodup_set h _
  | del jobId =>
    unfold mergeRow
    dsimp only
    split_ifs
    · exact h
    · exact nodup_delete h _
  | other => exact h

theorem editJob_kept {now : ℤ} {edit : Edit} {job job' : CronJob} (h : editJob cal now edit job = some job') :
    job'.id = job.id ∧ (chooses edit = false → job'.schedule = job.schedule ∧ job'.enabled = job.enabled ∧
      job'.state.nextRunAtMs = job.state.nextRunAtMs) := by
  cases edit with
  | enable enabled =>
    cases h
    exact ⟨rfl, fun he => absurd he (by simp [chooses])⟩
  | update patch =>
    unfold editJob at h
    dsimp only at h
    by_cases hrefused : isSystem job = true ∨ patch.schedule.any (fun s => !validForAdd cal s) = true
    · rw [if_pos hrefused] at h
      cases h
    · rw [if_neg hrefused] at h
      cases h
      refine ⟨rfl, fun hchooses => ?_⟩
      have hnone : patch.schedule = none := by simpa [chooses] using hchooses
      rw [hnone]
      exact ⟨rfl, rfl, if_neg fun h => Bool.false_ne_true h.2⟩

theorem untouched_editJobIn (h : Untouched row s) (jobId : String) (edit : Row → Edit) (own : Bool) (now : ℤ) :
    Untouched row (editJobIn cal s jobId edit own now) := by
  unfold editJobIn
  cases hfound : get? rowId s.rows jobId with
  | none => exact h
  | some found =>
    dsimp only
    cases hjob : editJob cal now (edit found) found.job with
    | none => exact h
    | some job =>
      obtain ⟨hid, hkept⟩ := editJob_kept cal hjob
      have hfoundId : found.job.id = jobId := (key_of_get? hfound : rowId found = jobId)
      cases hchooses : chooses (edit found) with
      | false =>
        have hreschedules : (edit found).reschedules = false := by
          cases hedit : edit found with
          | enable enabled => rfl
          | update patch => rwa [hedit] at hchooses
        rw [if_neg Bool.false_ne_true, hreschedules]
        rcases h with h | ⟨r, hr, hsame⟩
        · exact Or.inl h
        · refine Or.inr ?_
          rw [get?_set]
          by_cases hrow : job.id = row.job.id
          · have hr' : found = r := by
              rw [← hrow, hid, hfoundId, hfound] at hr
              exact some.inj hr
            obtain ⟨hschedule, henabled, hnext⟩ := hkept hchooses
            refine ⟨_, if_pos hrow, hr' ▸ hsame.1, hr' ▸ hsame.2.1, hschedule.trans (hr' ▸ hsame.2.2.1), ?_⟩
            have hchosen : chosen found = chosen row := hr' ▸ hsame.2.2.2
            rw [← hchosen]
            exact Prod.ext henabled hnext
          · rw [if_neg hrow]
            exact ⟨r, hr, hsame⟩
      | true =>
        refine h.of_edited (subset_cons_self _ _) fun hmem => ?_
        have hne : ¬ job.id = row.job.id := by
          rw [hid, hfoundId]
          exact fun he => hmem (he ▸ mem_cons_self)
        exact (get?_set _ _ _).trans (if_neg hne)

theorem nodup_editJobIn (h : (s.rows.map rowId).Nodup) (jobId : String) (edit : Row → Edit) (own : Bool)
    (now : ℤ) : ((editJobIn cal s jobId edit own now).rows.map rowId).Nodup := by
  unfold editJobIn
  cases get? rowId s.rows jobId with
  | none => exact h
  | some found =>
    dsimp only
    cases editJob cal now (edit found) found.job with
    | none => exact h
    | some job => exact nodup_set h _

/-- **A change** names the job, or leaves it. -/
theorem untouched_change (hnodup : (s.rows.map rowId).Nodup) (h : Untouched row s) (c : Change) :
    Untouched row (change cal s c) := by
  cases c with
  | remove ids =>
    refine h.of_edited (subset_append_right _ _) fun hmem => ?_
    have hid : row.job.id ∉ ids := fun he => hmem (mem_append_left _ he)
    unfold change get?
    rw [find?_filter]
    congr 1
    funext x
    by_cases hx : x.job.id = row.job.id
    · simp [hx, hid]
    · simp [hx]
  | add job =>
    refine h.of_edited (subset_cons_self _ _) fun hmem => ?_
    have hid : ¬ job.id = row.job.id := fun he => hmem (he ▸ mem_cons_self)
    have hdelete : get? rowId (delete rowId s.rows job.id) row.job.id = get? rowId s.rows row.job.id :=
      (get?_delete _ _ _).trans (if_neg (Ne.symm hid))
    rw [← hdelete]
    unfold change get?
    simp [hid]
  | enable jobId enabled now => exact untouched_editJobIn cal h _ _ _ _
  | update jobId patch own now => exact untouched_editJobIn cal h _ _ _ _
  | merge actions =>
    have hgeneral : ∀ (actions : List Action) {s : Store}, Untouched row s →
        Untouched row (actions.foldl mergeRow s) := by
      intro actions
      induction actions with
      | nil => exact id
      | cons a actions ih => exact fun h => ih (untouched_mergeRow h a)
    refine hgeneral actions ?_
    rw [ofList_eq_self hnodup]
    exact h

theorem nodup_change (h : (s.rows.map rowId).Nodup) (c : Change) : ((change cal s c).rows.map rowId).Nodup := by
  cases c with
  | remove ids => exact h.sublist (filter_sublist.map _)
  | add job =>
    have hdelete := nodup_delete h job.id
    unfold change
    rw [map_append, nodup_append]
    refine ⟨hdelete, nodup_singleton _, ?_⟩
    intro id hid id' hid' he
    obtain ⟨r, hr, rfl⟩ := mem_map.mp hid
    have hne : rowId r ≠ job.id := by simpa using (mem_filter.mp hr).2
    rw [map_singleton, mem_singleton] at hid'
    exact hne (he.trans hid')
  | enable jobId enabled now => exact nodup_editJobIn cal h _ _ _ _
  | update jobId patch own now => exact nodup_editJobIn cal h _ _ _ _
  | merge actions =>
    have hgeneral : ∀ (actions : List Action) {s : Store}, (s.rows.map rowId).Nodup →
        ((actions.foldl mergeRow s).rows.map rowId).Nodup := by
      intro actions
      induction actions with
      | nil => exact id
      | cons a actions ih => exact fun h => ih (nodup_mergeRow h a)
    exact hgeneral actions (nodup_ofList _)

/-- **All the changes of a run.** -/
theorem untouched_changes : ∀ (cs : List Change) {s : Store}, (s.rows.map rowId).Nodup → Untouched row s →
    Untouched row (cs.foldl (change cal) s)
  | [], _, _, h => h
  | c :: cs, _, hnodup, h =>
    untouched_changes cs (nodup_change cal hnodup c) (untouched_change cal hnodup h c)

end Steps

/-! ### The completion -/

section Finish
variable {cal} {row : Row} {s : Store} {started ended : ℤ} {error : Option String} {found : Row} {run : Run}

theorem unedited_recorded : Unedited run (recorded run ended error found) ↔ Unedited run found := Iff.rfl

theorem finish_of_none (h : get? rowId s.rows run.id = none) : finish cal run ended error s = s := by
  unfold finish
  rw [h]

section
variable (h : get? rowId s.rows run.id = some found)
include h

theorem finish_of_ref (href : found.ref ≠ run.ref) : finish cal run ended error s = s := by
  unfold finish
  rw [h]
  exact if_pos href

/-- A job whose edits are seen keeps them. -/
theorem finish_of_edited (href : found.ref = run.ref) (hedited : ¬ Unedited run found) :
    finish cal run ended error s = { s with rows := set rowId s.rows (recorded run ended error found) } := by
  unfold finish
  rw [h]
  dsimp only
  rw [if_neg (not_not.mpr href), if_pos (by rwa [unedited_recorded])]

/-- **A job without an edit** goes on to its next deadline, or ends. -/
theorem finish_of_unedited (hunedited : Unedited run found) : finish cal run ended error s =
      if found.job.schedule.kind = .oneTime ∧ found.job.deleteAfterRun = true then
        { s with rows := delete rowId s.rows run.id }
      else
        { s with rows := set rowId s.rows (advance cal run ended (recorded run ended error found)) } := by
  unfold finish
  rw [h]
  dsimp only
  have hrecorded : Unedited run (recorded run ended error found) := hunedited
  rw [if_neg (not_not.mpr hunedited.1), if_neg (not_not.mpr hrecorded)]
  rfl

end

theorem finish_gone (run : Run) {id : String} (h : get? rowId s.rows id = none) :
    get? rowId (finish cal run ended error s).rows id = none := by
  have hset : ∀ r : Row, r.job.id = run.id → get? rowId s.rows run.id ≠ none →
      get? rowId (set rowId s.rows r) id = none := by
    intro r hr hsome
    rw [get?_set, if_neg, h]
    intro he
    have he' : r.job.id = id := he
    exact hsome (by rw [← hr, he', h])
  cases hfound : get? rowId s.rows run.id with
  | none => rwa [finish_of_none hfound]
  | some found =>
    have hid : found.job.id = run.id := (key_of_get? hfound : rowId found = run.id)
    have hsome : get? rowId s.rows run.id ≠ none := by rw [hfound]; exact some_ne_none _
    by_cases href : found.ref = run.ref
    · by_cases hunedited : Unedited run found
      · rw [finish_of_unedited hfound hunedited]
        split_ifs
        · rw [get?_delete, h, ite_self]
        · exact hset _ hid hsome
      · rw [finish_of_edited hfound href hunedited]
        exact hset _ hid hsome
    · rwa [finish_of_ref hfound href]

theorem stays_set {r : Row} (h : get? rowId s.rows run.id = some found) (hid : r.job.id = run.id)
    (hchosen : chosen r = chosen found) (id : String) :
    (get? rowId (set rowId s.rows r) id).map chosen = (get? rowId s.rows id).map chosen := by
  rw [get?_set]
  by_cases he : r.job.id = id
  · rw [if_pos he, ← he, hid, h, map_some, map_some, hchosen]
  · rw [if_neg he]

/-- **The choices stay** exactly if the edits do not end where the run began. -/
theorem finish_stays (run : Run) :
    (∀ id, (get? rowId (finish cal run ended error s).rows id).map chosen = (get? rowId s.rows id).map chosen) ↔
      ¬ Overwritten cal run ended s := by
  cases hfound : get? rowId s.rows run.id with
  | none =>
    rw [finish_of_none hfound]
    refine iff_of_true (fun _ => rfl) ?_
    rintro ⟨found, h, -⟩
    rw [hfound] at h
    cases h
  | some found =>
    have hid : found.job.id = run.id := (key_of_get? hfound : rowId found = run.id)
    have hoverwritten : Overwritten cal run ended s ↔ Unedited run found ∧ (found.job.schedule.kind = .oneTime ∨
        following cal found.job.schedule run.scheduledForMs ended ≠ run.scheduledForMs) := by
      constructor
      · rintro ⟨r, hr, h⟩
        rw [hfound] at hr
        cases hr
        exact h
      · exact fun h => ⟨found, hfound, h⟩
    rw [hoverwritten]
    by_cases hunedited : Unedited run found
    · rw [finish_of_unedited hfound hunedited]
      obtain ⟨-, henabled, -, hnext⟩ := id hunedited
      split_ifs with hdelete
      · refine iff_of_false (fun h => ?_) (not_not.mpr ⟨hunedited, Or.inl hdelete.1⟩)
        have hgone := h run.id
        rw [get?_delete, if_pos rfl, hfound] at hgone
        cases hgone
      · have hadvanced : chosen (advance cal run ended (recorded run ended error found)) = chosen found ↔
            ¬ (found.job.schedule.kind = .oneTime ∨
              following cal found.job.schedule run.scheduledForMs ended ≠ run.scheduledForMs) := by
          change (decide (found.job.schedule.kind ≠ .oneTime) && found.job.enabled,
            if found.job.schedule.kind = .oneTime then none
            else following cal found.job.schedule run.scheduledForMs ended) =
              (found.job.enabled, found.job.state.nextRunAtMs) ↔ _
          rw [henabled, hnext]
          by_cases hkind : found.job.schedule.kind = .oneTime
          · simp [hkind]
          · simp [hkind]
        by_cases hsame : chosen (advance cal run ended (recorded run ended error found)) = chosen found
        · exact iff_of_true (stays_set hfound hid hsame) fun h => hadvanced.mp hsame h.2
        · refine iff_of_false (fun h => hsame ?_) (not_not.mpr ⟨hunedited, ?_⟩)
          · have hrow := h run.id
            rw [get?_set, if_pos (by exact hid), hfound] at hrow
            exact some.inj hrow
          · exact not_not.mp fun h => hsame (hadvanced.mpr h)
    · refine iff_of_true ?_ fun h => hunedited h.1
      by_cases href : found.ref = run.ref
      · rw [finish_of_edited hfound href hunedited]
        exact stays_set hfound hid rfl
      · rw [finish_of_ref hfound href]
        exact fun _ => rfl

/-- **Without an edit**, a job that is switched on gets the first deadline behind the end; another one keeps
its deadline. -/
theorem finish_next (h : Untouched row s) (hnot : row.job.id ∉ s.edited) {interval d : ℤ}
    (hkind : row.job.schedule.kind = .every) (hevery : row.job.schedule.everyMs = some interval)
    (hpositive : 0 < interval) (hd : row.job.state.nextRunAtMs = some d) :
    (∃ r next, get? rowId (finish cal (begin row started) ended error s).rows row.job.id = some r ∧
        r.job.state.nextRunAtMs = some next ∧
        IsLeast {t | (∃ n : ℕ, t = d + n * interval) ∧ ended < t} next) ↔
      (row.job.enabled = true ∨ ended < d) := by
  obtain ⟨r, hr, href, hscheduleRef, hschedule, hchosen⟩ := h.resolve_left hnot
  have hid : r.job.id = row.job.id := (key_of_get? hr : rowId r = row.job.id)
  have henabled : r.job.enabled = row.job.enabled := congrArg Prod.fst hchosen
  have hnext : r.job.state.nextRunAtMs = row.job.state.nextRunAtMs := congrArg Prod.snd hchosen
  have hr' : get? rowId s.rows (begin row started).id = some r := hr
  by_cases hon : row.job.enabled = true
  · have hunedited : Unedited (begin row started) r := ⟨href, henabled.trans hon, hscheduleRef, hnext⟩
    have hnever : ¬ (r.job.schedule.kind = .oneTime ∧ r.job.deleteAfterRun = true) := by
      rw [hschedule, hkind]
      exact fun h => by cases h.1
    rw [finish_of_unedited hr' hunedited, if_neg hnever]
    obtain ⟨next, hadvance, hleast⟩ := advanceInterval_least hevery hpositive d ended
    refine iff_of_true ⟨_, next, (get?_set _ _ _).trans (if_pos hid), ?_, hleast⟩ (Or.inl hon)
    change (if r.job.schedule.kind = .oneTime then none
      else following cal r.job.schedule row.job.state.nextRunAtMs ended) = some next
    rw [hschedule, hkind, if_neg (by simp), hd]
    unfold following
    rw [hkind]
    exact hadvance
  · have hedited : ¬ Unedited (begin row started) r := fun h => hon (henabled ▸ h.2.1)
    rw [finish_of_edited hr' href hedited]
    have hrow : get? rowId (set rowId s.rows (recorded (begin row started) ended error r)) row.job.id =
        some (recorded (begin row started) ended error r) := (get?_set _ _ _).trans (if_pos hid)
    constructor
    · rintro ⟨r', next, hr'', hnext', hleast⟩
      rw [hrow] at hr''
      cases hr''
      have hd' : some d = some next := by
        rw [← hd, ← hnext]
        exact hnext'
      cases hd'
      exact Or.inr hleast.1.2
    · rintro (h | h)
      · exact absurd h hon
      · refine ⟨_, d, hrow, hnext.trans hd, ⟨⟨0, by simp⟩, h⟩, ?_⟩
        rintro t ⟨⟨n, rfl⟩, -⟩
        have hn : (0 : ℤ) ≤ n * interval := mul_nonneg (Int.natCast_nonneg n) hpositive.le
        omega

end Finish

/-! ### Every run of a job -/

theorem nodup_load {jobs : List CronJob} (h : (jobs.map (·.id)).Nodup) : ((load jobs).rows.map rowId).Nodup := by
  have hids : (load jobs).rows.map rowId = jobs.map (·.id) := by
    unfold load Service.start
    rw [List.map_map]
    have hfst : (jobs.zipIdx.map fun p : CronJob × ℕ => p.1.id) = jobs.map (·.id) := by
      have hcomp : (fun p : CronJob × ℕ => p.1.id) = (fun j : CronJob => j.id) ∘ Prod.fst := rfl
      rw [hcomp, ← List.map_map, zipIdx_map_fst]
    exact hfst
  rwa [hids]

/-- **A run completes as its edits want it** exactly if they do not end where it began, and a job that nobody
has edited is switched on or has its deadline still to come. -/
theorem completes_iff (cal : Calendar) (jobs : List CronJob) (hnodup : (jobs.map (·.id)).Nodup) (row : Row)
    (hrow : row ∈ (load jobs).rows) (changes : List Change) (started ended : ℤ) (error : Option String) :
    Completes row (begin row started) ended (changes.foldl (change cal) (load jobs))
        (finish cal (begin row started) ended error (changes.foldl (change cal) (load jobs))) ↔
      Sound cal row (begin row started) ended (changes.foldl (change cal) (load jobs)) := by
  have hnodup' := nodup_load hnodup
  have huntouched : Untouched row (changes.foldl (change cal) (load jobs)) :=
    untouched_changes cal changes hnodup' (Or.inr ⟨row, get?_of_mem hnodup' hrow, rfl, rfl, rfl, rfl⟩)
  constructor
  · intro h
    refine ⟨fun hedited => (finish_stays _).mp (h.stays hedited), ?_⟩
    intro hnot interval d hkind hevery hpositive hd
    exact (finish_next huntouched hnot hkind hevery hpositive hd).mp
      (h.next hnot interval d hkind hevery hpositive hd)
  · rintro ⟨hstays, hnext⟩
    refine ⟨fun id => finish_gone _, fun hedited => (finish_stays _).mpr (hstays hedited), ?_⟩
    intro hnot interval d hkind hevery hpositive hd
    exact (finish_next huntouched hnot hkind hevery hpositive hd).mpr
      (hnext hnot interval d hkind hevery hpositive hd)

section SwitchedOnAgain

/-- No dates and no cron expressions. -/
def noDates : Calendar where
  parseDate _ := none
  nextInstant _ _ _ := none
  nextInstant_gt h := by cases h
  validTimezone _ := true

/-- A reminder that is due. -/
def due : CronJob where
  id := "r1"
  schedule :=
    { kind := .oneTime
      atMs := some 1000 }
  state := { nextRunAtMs := some 1000 }

def dueRow : Row where
  job := due
  ref := 0
  scheduleRef := 1

theorem completes_iff_due :
    Completes dueRow (begin dueRow 1000) 1003 ([Change.enable "r1" false 1001].foldl (change noDates) (load [due]))
        (finish noDates (begin dueRow 1000) 1003 none
          ([Change.enable "r1" false 1001].foldl (change noDates) (load [due]))) ↔
      Sound noDates dueRow (begin dueRow 1000) 1003
        ([Change.enable "r1" false 1001].foldl (change noDates) (load [due])) :=
  completes_iff noDates [due] (by decide) dueRow (by decide) [.enable "r1" false 1001] 1000 1003 none

/-- **Switched off and on again** while it runs, the reminder has the old deadline, and is switched off at the
end. -/
theorem not_completes_due : ¬ Completes dueRow (begin dueRow 1000) 1003
    ([Change.enable "r1" false 1001, .enable "r1" true 1002].foldl (change noDates) (load [due]))
    (finish noDates (begin dueRow 1000) 1003 none
      ([Change.enable "r1" false 1001, .enable "r1" true 1002].foldl (change noDates) (load [due]))) := by
  intro h
  have hstays := h.stays (by decide) "r1"
  revert hstays
  decide

end SwitchedOnAgain

end Memmy.Cron.Completion
