import Memmy.Storage.Jobs

/-! # What an operation does to a row

`RowStep jobs op r r'`: the operation `op` on the table `jobs` may turn its row `r` into `r'`. Every
operation turns each row into one and appends at most one row (`applyOp_rows`); the facts about runs
of the queue are read off from this alone.

* `leaseRows_candidate`: only candidates are leased.
* `applyOp_rows`: the rows after an operation.
* `nodup_ids`: ids stay distinct. -/

namespace Memmy.Storage.JobSteps

open Lib.Rows Lib.Sort List Bool
open Storage.Jobs

/-- The change of one row. -/
inductive RowStep (jobs : List Job) : JobOp → Job → Job → Prop
  | kept {op r} : RowStep jobs op r r
  | leased {w o now r} (h : r ∈ leaseRows w o now jobs) :
    RowStep jobs (.lease w o now) r (leasedRow (now + o.leaseSeconds * 1000) now r)
  | completed {id now r} (h : r.id = id) : RowStep jobs (.complete id now) r (completedRow now r)
  | failed {id error now force r} (h : r.id = id) :
    RowStep jobs (.fail id error now force) r (failedRow error now force r)
  | deferred {id runAfter now r} (h : r.id = id) (hs : r.status = .leased) :
    RowStep jobs (.defer id runAfter now) r (deferredRow runAfter now r)
  | requeuedFailed {w limit targets now r} (hs : r.status = .failed) :
    RowStep jobs (.requeueFailed w limit targets now) r (requeuedFailedRow now r)
  | restarted {now r} (hs : r.status = .leased) :
    RowStep jobs (.requeueAfterRestart now) r (requeuedLeasedRow now r)
  | unstarted {ids now r} (hs : r.status = .leased) (h : r.id ∈ ids) :
    RowStep jobs (.requeueUnstarted ids now) r (requeuedLeasedRow now r)
  | expired {excluded now r} (hs : r.status = .leased) (h : ∃ t, r.leasedUntil = some t ∧ t ≤ now) :
    RowStep jobs (.requeueExpired excluded now) r (requeuedLeasedRow now r)
  | closed {targets userId projectId now r} (hs : r.status.isActive = true) (error : Option String) :
    RowStep jobs (.deleteScope targets userId projectId now) r
      { completedRow now r with lastError := error }
  | merged {w job r} (h : existingJob w job jobs = some r) :
    RowStep jobs (.enqueue w job) r (mergedRow job (mergeJobPayload r.payload job.payload) r)
  | armed {input r} (h : getJobByDedupeKey (idleFlushKey input.sessionId) jobs = some r) :
    RowStep jobs (.arm input) r (armedRow input r)

/-- The job that an operation may insert. -/
def newJob? : JobOp → Option Job
  | .enqueue _ job => some job
  | .insertImmutable job => some job
  | .arm input => some (newFlushJob input)
  | _ => none

/-- The unique keys let the job in. -/
structure Fits (job : Job) (jobs : List Job) : Prop where
  id_new : ∀ row ∈ jobs, row.id ≠ job.id
  seq_new : ∀ row ∈ jobs, ∀ key seq, row.scopeKey = some key → row.scopeSeq = some seq →
    ¬ (job.scopeKey = some key ∧ job.scopeSeq = some seq)

/-! ### The single operations -/

section
variable {jobs jobs' : List Job} {job r r' : Job} {op : JobOp}
variable {f : Job → Job} {R : Job → Job → Prop} {o : LeaseOptions} {w : Surroundings} {now : ℕ}

theorem RowStep.id_eq (h : RowStep jobs op r r') : r'.id = r.id := by
  cases h with
  | failed h => unfold failedRow; split <;> rfl
  | _ => rfl

theorem RowStep.keys (h : RowStep jobs op r r') :
    r'.jobType = r.jobType ∧ r'.scopeKey = r.scopeKey ∧ r'.scopeSeq = r.scopeSeq := by
  cases h with
  | failed h => unfold failedRow; split <;> exact ⟨rfl, rfl, rfl⟩
  | _ => exact ⟨rfl, rfl, rfl⟩

/-- A row is leased because it was, or because this call takes it. -/
theorem RowStep.leased_cases (h : RowStep jobs op r r') (hs : r'.status = .leased) :
    r.status = .leased ∨ ∃ w o now, op = .lease w o now ∧ r ∈ leaseRows w o now jobs := by
  cases h with
  | kept => exact Or.inl hs
  | leased h => exact Or.inr ⟨_, _, _, rfl, h⟩
  | failed h =>
    unfold failedRow at hs
    by_cases hd : r.status = .deadLetter
    · rw [if_pos hd] at hs; exact Or.inl hs
    · rw [if_neg hd] at hs
      split_ifs at hs
  | merged h =>
    simp only [mergedRow] at hs
    split_ifs at hs
    exact Or.inl hs
  | _ => cases hs

theorem insertRow_ok (h : insertRow job jobs = .ok jobs') : jobs' = jobs ++ [job] ∧ Fits job jobs := by
  unfold insertRow at h
  split_ifs at h with hid hkey hactive hseq
  refine ⟨(Except.ok.inj h).symm, fun row hrow he => hid ?_, ?_⟩
  · exact any_eq_true.mpr ⟨row, hrow, decide_eq_true he⟩
  · rintro row hrow key seq hk hs ⟨hk', hs'⟩
    exact hseq (any_eq_true.mpr ⟨row, hrow, by simp [hk, hs, hk', hs']⟩)

theorem leaseRows_candidate
    (h : r ∈ leaseRows w o now jobs) : r ∈ jobs ∧ isCandidate w o now jobs r = true := by
  unfold leaseRows at h
  by_cases hempty : o.targetMemoryIds = some [] ∨ o.allowedJobTypes = some []
  · rw [if_pos hempty] at h; cases h
  rw [if_neg hempty] at h
  have hmem : r ∈ (sortBy (evolutionJobOrder w) (jobs.filter (isCandidate w o now jobs))).take
      o.limit := by
    revert h
    dsimp only
    split
    · intro h; cases h
    · intro h
      split_ifs at h
      · exact (mem_filter.mp h).1
      · exact h
  exact mem_filter.mp ((mem_sortBy _).mp (mem_of_mem_take hmem))

theorem candidate_due (h : isCandidate w o now jobs r = true) : isDue now r = true := by
  simp only [isCandidate, and_eq_true] at h
  exact h.1.1.1.1.1.1.1

theorem due_cases (h : isDue now r = true) :
    r.status = .queued ∨ r.status = .leased ∧ ∃ t, r.leasedUntil = some t ∧ t ≤ now := by
  simp only [isDue, or_eq_true, and_eq_true, decide_eq_true_eq, Option.any_eq_true] at h
  exact h

theorem nodup_leaseRows (hn : (jobs.map (·.id)).Nodup) : ((leaseRows w o now jobs).map (·.id)).Nodup := by
  have hsorted : (((sortBy (evolutionJobOrder w) (jobs.filter (isCandidate w o now jobs))).take
      o.limit).map (·.id)).Nodup :=
    (((filter_sublist.map _).nodup hn).perm ((sortBy_perm _ _).map _).symm).sublist
      ((take_sublist _ _).map _)
  unfold leaseRows
  by_cases hempty : o.targetMemoryIds = some [] ∨ o.allowedJobTypes = some []
  · rw [if_pos hempty]; exact nodup_nil
  rw [if_neg hempty]
  dsimp only
  split
  · exact nodup_nil
  · split_ifs
    · exact hsorted.sublist (filter_sublist.map _)
    · exact hsorted

theorem requeueFailedRows_failed {limit : ℕ} {targets : Option (List String)}
    (h : r ∈ requeueFailedRows w limit targets jobs) : r ∈ jobs ∧ r.status = .failed := by
  obtain ⟨hr, hp⟩ := mem_filter.mp ((mem_sortBy _).mp (mem_of_mem_take h))
  simp only [and_eq_true, decide_eq_true_eq] at hp
  exact ⟨hr, hp.1.1⟩

theorem getActiveJob_active {key : String} (h : getActiveJobByDedupeKey w key jobs = some r) :
    r ∈ jobs ∧ r.dedupeKey = some key ∧ r.status.isActive = true := by
  obtain ⟨hr, hp⟩ := mem_filter.mp ((mem_sortBy _).mp (mem_of_mem_head? h))
  simp only [and_eq_true, decide_eq_true_eq] at hp
  exact ⟨hr, hp⟩

theorem existingJob_active (h : existingJob w job jobs = some r) : r ∈ jobs ∧ r.status.isActive = true := by
  unfold existingJob at h
  cases hk : job.dedupeKey with
  | none => simp [hk] at h
  | some key =>
    simp only [hk] at h
    split_ifs at h
    exact ⟨(getActiveJob_active h).1, (getActiveJob_active h).2.2⟩

theorem getJobByDedupeKey_mem {key : String} (h : getJobByDedupeKey key jobs = some r) :
    r ∈ jobs ∧ r.dedupeKey = some key := by
  obtain ⟨hr, hp⟩ := mem_filter.mp ((mem_sortBy _).mp (mem_of_mem_head? h))
  exact ⟨hr, of_decide_eq_true hp⟩

theorem jobOfTarget_active {target : String × String} (h : jobOfTarget jobs target = some r) :
    r ∈ jobs ∧ r.status.isActive = true := by
  have hp := find?_some h
  simp only [and_eq_true] at hp
  exact ⟨mem_of_find?_eq_some h, hp.2⟩

theorem changed_update_ids {sel : List Job}
    (hn : (jobs.map (·.id)).Nodup) (hsel : ∀ s ∈ sel, s ∈ jobs) (hf : ∀ s ∈ sel, R s (f s))
    (hself : ∀ s, R s s) : Changed R jobs (update (fun row => decide (row.id ∈ sel.map (·.id))) f jobs) :=
  changed_update (fun s hs hp => hf s (mem_of_key_mem hn hsel hs (of_decide_eq_true hp)))
    fun s _ _ => hself s

theorem changed_update_id (hn : (jobs.map (·.id)).Nodup)
    (hr : r ∈ jobs) (hf : R r (f r)) (hself : ∀ s, R s s) : Changed R jobs (update (hasId r.id) f jobs) :=
  changed_update (fun s hs hp => by
    rw [eq_of_key_eq hn hs hr (of_decide_eq_true hp)]; exact hf) fun s _ _ => hself s

/-- An update of one row, refused or not. -/
theorem changed_updateActive {id : String} (hf : ∀ r ∈ jobs, r.id = id → R r (f r)) (hself : ∀ r, R r r) :
    Changed R jobs ((updateActive id f jobs).toOption.getD jobs) := by
  unfold updateActive
  split_ifs
  · exact Changed.refl fun r _ => hself r
  · exact changed_update (fun r hr hp => hf r hr (of_decide_eq_true hp)) fun r _ _ => hself r

end

/-! ### Closing the jobs of a scope -/

section
variable {jobs : List Job} {now : ℕ}

/-- What `deleteScopeMemory` does to a row. -/
def Closed (now : ℕ) (r r' : Job) : Prop :=
  r' = r ∨ r.status.isActive = true ∧ ∃ error, r' = { completedRow now r with lastError := error }

theorem Closed.trans (a b c : Job) (h : Closed now a b) (h' : Closed now b c) : Closed now a c := by
  rcases h with rfl | ⟨ha, e, rfl⟩
  · exact h'
  · rcases h' with rfl | ⟨hb, -⟩
    · exact Or.inr ⟨ha, e, rfl⟩
    · exact absurd hb (by simp [completedRow, JobStatus.isActive])

theorem Closed.id_eq (h : Closed now r r') : r'.id = r.id := by
  rcases h with rfl | ⟨-, e, rfl⟩ <;> rfl

theorem closeTargets_changed (now : ℕ) (targets : List (String × String)) :
    ∀ jobs : List Job, (jobs.map (·.id)).Nodup →
      Changed (Closed now) jobs (targets.foldl (fun jobs target =>
        match jobOfTarget jobs target with
        | some job => update (hasId job.id) (completedRow now) jobs
        | none => jobs) jobs) := by
  induction targets with
  | nil => intro jobs _; exact Changed.refl fun _ _ => Or.inl rfl
  | cons target targets ih =>
    intro jobs hn
    have hone : Changed (Closed now) jobs (match jobOfTarget jobs target with
        | some job => update (hasId job.id) (completedRow now) jobs
        | none => jobs) := by
      cases hj : jobOfTarget jobs target with
      | none => exact Changed.refl fun _ _ => Or.inl rfl
      | some job =>
        obtain ⟨hmem, hact⟩ := jobOfTarget_active hj
        exact changed_update_id hn hmem (Or.inr ⟨hact, job.lastError, rfl⟩) fun _ => Or.inl rfl
    refine Changed.trans Closed.trans hone (ih _ ?_)
    rw [Changed.map_eq (g := Job.id) (fun _ _ => Closed.id_eq) hone]
    exact hn

theorem deleteScope_changed (targets : List (String × String)) (userId : String)
    (projectId : Option String) (hn : (jobs.map (·.id)).Nodup) :
    Changed (Closed now) jobs (deleteScopeMemory targets userId projectId now jobs) := by
  have hclosed := closeTargets_changed now targets jobs hn
  cases projectId with
  | none => exact hclosed
  | some project =>
    refine Changed.trans Closed.trans hclosed (changed_update (fun r _ hp => ?_) fun _ _ _ =>
      Or.inl rfl)
    simp only [and_eq_true, or_eq_true, decide_eq_true_eq] at hp
    refine Or.inr ⟨?_, none, rfl⟩
    rcases hp.2 with hs | hs <;> rw [hs] <;> rfl

end

/-! ### Every operation -/

section
variable {jobs : List Job}

theorem leaseQueuedJobs_changed (w : Surroundings) (o : LeaseOptions) (now : ℕ)
    (hn : (jobs.map (·.id)).Nodup) :
    Changed (RowStep jobs (.lease w o now)) jobs (leaseQueuedJobs w o now jobs).1 :=
  changed_update_ids hn (fun _ hs => (leaseRows_candidate hs).1) (fun _ hs => .leased hs)
    fun _ => .kept

theorem leasedRow_mem
    (h : r ∈ leaseRows w o now jobs) :
    leasedRow (now + o.leaseSeconds * 1000) now r ∈ (leaseQueuedJobs w o now jobs).1 :=
  mem_map.mpr ⟨r, (leaseRows_candidate h).1, if_pos (decide_eq_true (mem_map_of_mem h))⟩

section
variable (hn : (jobs.map (·.id)).Nodup)
include hn

/-- The table after an operation, without the row it inserts. -/
theorem applyOp_rows (op : JobOp) :
    ∃ old new, applyOp jobs op = old ++ new ∧ Changed (RowStep jobs op) jobs old ∧
      (new = [] ∨ ∃ job, newJob? op = some job ∧ new = [job] ∧ Fits job jobs) := by
  have hkept : ∀ op, Changed (RowStep jobs op) jobs jobs := fun _ => Changed.refl fun _ _ => .kept
  have hall : ∀ {rows}, applyOp jobs op = rows → Changed (RowStep jobs op) jobs rows →
      ∃ old new, applyOp jobs op = old ++ new ∧ Changed (RowStep jobs op) jobs old ∧
        (new = [] ∨ ∃ job, newJob? op = some job ∧ new = [job] ∧ Fits job jobs) :=
    fun {rows} he hc => ⟨rows, [], by rw [he, append_nil], hc, Or.inl rfl⟩
  have hinsert : ∀ {job}, newJob? op = some job →
      applyOp jobs op = (insertRow job jobs).toOption.getD jobs →
      ∃ old new, applyOp jobs op = old ++ new ∧ Changed (RowStep jobs op) jobs old ∧
        (new = [] ∨ ∃ job, newJob? op = some job ∧ new = [job] ∧ Fits job jobs) := by
    intro job hjob he
    cases hr : insertRow job jobs with
    | error e => rw [hr] at he; exact hall he (hkept op)
    | ok jobs' =>
      obtain ⟨hj, hfits⟩ := insertRow_ok hr
      rw [hr] at he
      exact ⟨jobs, [job], by rw [he, ← hj]; rfl, hkept op, Or.inr ⟨job, hjob, rfl, hfits⟩⟩
  cases op with
  | lease w o now => exact hall rfl (leaseQueuedJobs_changed w o now hn)
  | complete id now =>
    exact hall rfl (changed_update (fun r _ hp => .completed (of_decide_eq_true hp))
      fun _ _ _ => .kept)
  | fail id error now force =>
    refine hall rfl (changed_updateActive (fun r _ hid => .failed hid) fun _ => .kept)
  | defer id runAfter now =>
    refine hall rfl (changed_update (fun r _ hp => ?_) fun _ _ _ => .kept)
    simp only [hasId, and_eq_true, decide_eq_true_eq] at hp
    exact .deferred hp.1 hp.2
  | requeueFailed w limit targets now =>
    exact hall rfl (changed_update_ids hn (fun _ hs => (requeueFailedRows_failed hs).1)
      (fun _ hs => .requeuedFailed (requeueFailedRows_failed hs).2) fun _ => .kept)
  | requeueAfterRestart now =>
    exact hall rfl (changed_update (fun r _ hp => .restarted (of_decide_eq_true hp))
      fun _ _ _ => .kept)
  | requeueUnstarted ids now =>
    refine hall rfl (changed_update (fun r _ hp => ?_) fun _ _ _ => .kept)
    simp only [and_eq_true, decide_eq_true_eq] at hp
    exact .unstarted hp.1 hp.2
  | requeueExpired excluded now =>
    refine hall rfl (changed_update (fun r _ hp => ?_) fun _ _ _ => .kept)
    simp only [and_eq_true, decide_eq_true_eq, Option.any_eq_true] at hp
    exact .expired hp.1.1 hp.1.2
  | deleteScope targets userId projectId now =>
    refine hall rfl ((deleteScope_changed targets userId projectId hn).imp fun r r' h => ?_)
    rcases h with rfl | ⟨hs, e, rfl⟩
    · exact .kept
    · exact .closed hs e
  | enqueue w job =>
    cases he : existingJob w job jobs with
    | none => exact hinsert rfl (by simp only [applyOp, enqueueJob, he])
    | some existing =>
      refine hall (by simp only [applyOp, enqueueJob, he]; rfl)
        (changed_update_id hn (existingJob_active he).1 (.merged he) fun _ => .kept)
  | insertImmutable job =>
    by_cases hok : insertImmutableJob job jobs = insertRow job jobs
    · exact hinsert rfl (by simp only [applyOp, hok])
    · have : (insertImmutableJob job jobs).toOption = none := by
        unfold insertImmutableJob at hok ⊢
        split_ifs at hok ⊢ <;> first | rfl | exact absurd rfl hok
      exact hall (by simp only [applyOp, this]; rfl) (hkept _)
  | arm input =>
    cases he : getJobByDedupeKey (idleFlushKey input.sessionId) jobs with
    | none => exact hinsert rfl (by simp only [applyOp, armWorkMemoryIdleFlush, he])
    | some existing =>
      have hchanged : Changed (RowStep jobs (.arm input)) jobs
          ((updateActive existing.id (armedRow input) jobs).toOption.getD jobs) := by
        refine changed_updateActive (fun r hr hid => ?_) fun _ => .kept
        rw [eq_of_key_eq hn hr (getJobByDedupeKey_mem he).1 hid]
        exact .armed he
      exact hall (by simp only [applyOp, armWorkMemoryIdleFlush, he]) hchanged

/-- Every row is still there, and the operation has done to it what it may. -/
theorem row_after (op : JobOp) (hr : r ∈ jobs) : ∃ r' ∈ applyOp jobs op, RowStep jobs op r r' := by
  obtain ⟨old, new, he, hc, -⟩ := applyOp_rows hn op
  obtain ⟨r', hr', hstep⟩ := hc.exists_new r hr
  exact ⟨r', by rw [he]; exact mem_append_left _ hr', hstep⟩

/-- An operation that inserts nothing. -/
theorem row_before (hop : newJob? op = none)
    (hr : r' ∈ applyOp jobs op) : ∃ r ∈ jobs, RowStep jobs op r r' := by
  obtain ⟨old, new, he, hc, hnew⟩ := applyOp_rows hn op
  rcases hnew with rfl | ⟨job, hjob, -⟩
  · rw [he, append_nil] at hr
    exact hc.exists_old r' hr
  · rw [hop] at hjob; cases hjob

/-- **Ids stay distinct.** -/
theorem nodup_ids (op : JobOp) : ((applyOp jobs op).map (·.id)).Nodup := by
  obtain ⟨old, new, he, hc, hnew⟩ := applyOp_rows hn op
  have hids : old.map (·.id) = jobs.map (·.id) := hc.map_eq fun _ _ => RowStep.id_eq
  rw [he, map_append, hids]
  rcases hnew with rfl | ⟨job, -, rfl, hfits⟩
  · rw [map_nil, append_nil]; exact hn
  · refine nodup_append.mpr ⟨hn, nodup_singleton _, ?_⟩
    rintro id hid id' hid' rfl
    obtain ⟨row, hrow, hrid⟩ := mem_map.mp hid
    exact hfits.id_new row hrow (hrid.trans (mem_singleton.mp hid'))

end

end

end Memmy.Storage.JobSteps
