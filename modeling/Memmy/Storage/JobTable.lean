import Memmy.Storage.ScopeOrder

/-! # The job table over a run

Only `failJob` and `armWorkMemoryIdleFlush` can make a job active that was not, and both go through the unique
index, as the inserts do.

* `run_rows`: the rows of a table come first in every later one.
* `run_dedupe`: no two active jobs have one `dedupeKey`, so no other statement meets the index.
* `run_attempts`: no job is tried more often than it may be. -/

namespace Memmy.Storage.JobTable

open Lib.Rows Lib.Run List Storage.Jobs Storage.JobSteps

variable {jobs rows : List Job} {job r r' : Job} {op : JobOp}

abbrev Distinct (jobs : List Job) : Prop := (jobs.map (·.id)).Nodup

/-- The columns that no operation writes. -/
def identity (r : Job) : String × Option String × String × String × Option String × Option ℕ × ℕ :=
  (r.id, r.dedupeKey, r.jobType, r.userId, r.scopeKey, r.scopeSeq, r.createdAt)

theorem identity_eq (h : RowStep jobs op r r') : identity r' = identity r := by
  cases h with
  | failed h => unfold failedRow; split <;> rfl
  | _ => rfl

/-- **Rows stay**, in their order and with what identifies them. -/
theorem run_rows (ops more : List JobOp) : (final applyOp [] ops).map identity <+:
    (final applyOp (final applyOp [] ops) more).map identity := by
  refine (invariant_final (I := fun jobs => Distinct jobs ∧ (final applyOp [] ops).map identity <+: jobs.map identity)
    (fun jobs op h => ?_) more _
    ⟨invariant_final (I := Distinct) (fun _ op hn => nodup_ids hn op) ops [] nodup_nil, prefix_rfl⟩).2
  obtain ⟨old, new, he, hc, -⟩ := applyOp_rows h.1 op
  refine ⟨nodup_ids h.1 op, h.2.trans ?_⟩
  rw [he, map_append, ← hc.map_eq (g := identity) fun _ _ => identity_eq]
  exact prefix_append _ _

/-- No two active jobs have one key. -/
def Unique (jobs : List Job) : Prop :=
  ∀ a ∈ jobs, ∀ b ∈ jobs, a.status.isActive = true → b.status.isActive = true →
    a.dedupeKey.isSome = true → a.dedupeKey = b.dedupeKey → a.id = b.id

theorem id_of_not_clash (h : dedupeClash job jobs = false) (hr : r ∈ jobs) (hjob : job.status.isActive = true)
    (hact : r.status.isActive = true) (hkey : job.dedupeKey.isSome = true) (heq : r.dedupeKey = job.dedupeKey) :
    r.id = job.id := by
  by_contra hne
  refine Bool.eq_false_iff.mp h ?_
  unfold dedupeClash
  rw [hjob, hkey, Bool.true_and, Bool.true_and, any_eq_true]
  exact ⟨r, hr, by simp [hne, hact, heq]⟩

/-- A row that the index lets in. -/
theorem Unique.put (h : Unique jobs) (hclash : ¬ dedupeClash job jobs = true)
    (hrows : ∀ r ∈ rows, r = job ∨ r ∈ jobs) : Unique rows := by
  have hclash := Bool.eq_false_iff.mpr hclash
  intro a ha b hb hact hbct hkey heq
  rcases hrows a ha with rfl | ha <;> rcases hrows b hb with rfl | hb
  · rfl
  · exact (id_of_not_clash hclash hb hact hbct hkey heq.symm).symm
  · exact id_of_not_clash hclash ha hbct hact (heq ▸ hkey) heq
  · exact h a ha b hb hact hbct hkey heq

theorem unique_insertRow (h : Unique jobs) : Unique ((insertRow job jobs).toOption.getD jobs) := by
  unfold insertRow
  split_ifs with _ _ hclash <;> first
    | exact h
    | exact h.put hclash fun r hr => (mem_append.mp hr).symm.imp_left mem_singleton.mp

theorem unique_updateActive {id : String} {f : Job → Job} (h : Unique jobs) (hn : Distinct jobs) :
    Unique ((updateActive id f jobs).toOption.getD jobs) := by
  unfold updateActive
  split_ifs with hclash
  · exact h
  change Unique (update (hasId id) f jobs)
  cases hrow : jobs.find? (hasId id) with
  | none => rwa [update_eq_self fun r hr => Bool.eq_false_iff.mpr (find?_eq_none.mp hrow r hr)]
  | some row =>
    have hid : row.id = id := of_decide_eq_true (find?_some (p := hasId id) hrow)
    refine @Unique.put _ _ (f row) h (by simpa [hrow] using hclash) fun r hr => ?_
    obtain ⟨old, hold, ⟨hp, rfl⟩ | ⟨-, rfl⟩⟩ := mem_update hr
    · exact Or.inl (congrArg f (eq_of_key_eq hn hold (mem_of_find?_eq_some hrow)
        ((of_decide_eq_true hp).trans hid.symm)))
    · exact Or.inr hold

/-- The operations that may take an active row from one that is done. -/
def reactivates : JobOp → Bool
  | .fail .. | .arm _ => true
  | _ => false

theorem active_of_rowStep (h : RowStep jobs op r r') (hop : reactivates op = false)
    (hs : r'.status.isActive = true) : r.status.isActive = true := by
  cases h with
  | kept => exact hs
  | leased h =>
    rcases due_cases (candidate_due (leaseRows_candidate h).2) with h | ⟨h, -⟩ <;> rw [h] <;> rfl
  | completed => cases hs
  | failed | armed => cases hop
  | deferred _ h | requeuedFailed h | restarted h | unstarted h | expired h => rw [h]; rfl
  | closed h => exact h
  | merged h => exact (existingJob_active h).2

theorem Unique.changed (h : Unique jobs) (hc : Changed (RowStep jobs op) jobs rows)
    (hop : reactivates op = false) : Unique rows := by
  intro a' ha b' hb hact hbct hkey heq
  obtain ⟨a, ha, hsa⟩ := hc.exists_old a' ha
  obtain ⟨b, hb, hsb⟩ := hc.exists_old b' hb
  have hka : a'.dedupeKey = a.dedupeKey := congrArg (·.2.1) (identity_eq hsa)
  have hkb : b'.dedupeKey = b.dedupeKey := congrArg (·.2.1) (identity_eq hsb)
  rw [hka] at hkey heq
  rw [hkb] at heq
  rw [hsa.id_eq, hsb.id_eq]
  exact h a ha b hb (active_of_rowStep hsa hop hact) (active_of_rowStep hsb hop hbct) hkey heq

theorem unique_applyOp (h : Unique jobs) (hn : Distinct jobs) (op : JobOp) :
    Unique (applyOp jobs op) := by
  have hrest : newJob? op = none → reactivates op = false → Unique (applyOp jobs op) := by
    intro hnew hop
    obtain ⟨old, new, he, hc, rfl | ⟨_, hjob, -⟩⟩ := applyOp_rows hn op
    · rw [he, append_nil]
      exact h.changed hc hop
    · rw [hnew] at hjob
      cases hjob
  cases op with
  | fail => exact unique_updateActive h hn
  | insertImmutable job =>
    change Unique ((insertImmutableJob job jobs).toOption.getD jobs)
    unfold insertImmutableJob
    split_ifs <;> first | exact h | exact unique_insertRow h
  | enqueue w job =>
    cases he : existingJob w job jobs with
    | none => simpa only [applyOp, enqueueJob, he] using unique_insertRow h
    | some existing =>
      simp only [applyOp, enqueueJob, he]
      exact h.changed (changed_update_id hn (existingJob_active he).1 (.merged he) fun _ => .kept) rfl
  | arm input =>
    cases he : getJobByDedupeKey (idleFlushKey input.sessionId) jobs with
    | none => simpa only [applyOp, armWorkMemoryIdleFlush, he] using unique_insertRow h
    | some existing =>
      simp only [applyOp, armWorkMemoryIdleFlush, he]
      exact unique_updateActive h hn
  | _ => exact hrest rfl rfl

/-- **The index on active keys holds** after every run, whatever checks it. -/
theorem run_dedupe (ops : List JobOp) : Distinct (final applyOp [] ops) ∧ Unique (final applyOp [] ops) :=
  invariant_final (I := fun jobs => Distinct jobs ∧ Unique jobs)
    (fun _ op h => ⟨nodup_ids h.1 op, unique_applyOp h.2 h.1 op⟩) ops []
    ⟨nodup_nil, fun _ ha => absurd ha not_mem_nil⟩

/-! ### The attempts -/

theorem attempts_of_rowStep (h : RowStep jobs op r r') (hr : r.attempts ≤ r.maxAttempts) :
    r'.attempts ≤ r'.maxAttempts := by
  cases h with
  | leased h =>
    have hp := (leaseRows_candidate h).2
    simp only [isCandidate, Bool.and_eq_true, decide_eq_true_eq] at hp
    exact hp.1.1.1.1.1.1.2
  | failed => unfold failedRow; split <;> exact hr
  | deferred | restarted | unstarted | expired => exact (Nat.sub_le _ _).trans hr
  | merged => exact hr.trans (Nat.le_max_left _ _)
  | armed => exact Nat.zero_le _
  | _ => exact hr

/-- **No job is tried too often.** -/
theorem run_attempts (ops : List JobOp)
    (hnew : ∀ op ∈ ops, ∀ job ∈ newJob? op, job.attempts ≤ job.maxAttempts) :
    ∀ r ∈ final applyOp [] ops, r.attempts ≤ r.maxAttempts := by
  refine (invariant_of_steps
    (I := fun jobs => Distinct jobs ∧ ∀ r ∈ jobs, r.attempts ≤ r.maxAttempts)
    (P := fun _ op => ∀ job ∈ newJob? op, job.attempts ≤ job.maxAttempts) (fun jobs op h hp => ?_) ops []
    ⟨nodup_nil, by simp⟩ (fun t ht => hnew t.2 (event_mem_of_mem_taken ht)) _ (final_mem_visited ..)).2
  refine ⟨nodup_ids h.1 op, fun r' hr' => ?_⟩
  obtain ⟨old, new, he, hc, hnew⟩ := applyOp_rows h.1 op
  rw [he] at hr'
  rcases mem_append.mp hr' with hr' | hr'
  · obtain ⟨r, hr, hstep⟩ := hc.exists_old r' hr'
    exact attempts_of_rowStep hstep (h.2 r hr)
  · rcases hnew with rfl | ⟨job, hjob, rfl, -⟩
    · cases hr'
    · obtain rfl := mem_singleton.mp hr'
      exact hp r' hjob

theorem run_attempts_twoJobs : (final applyOp [] ScopeOrder.twoJobs).length = 2 ∧
    ∀ r ∈ final applyOp [] ScopeOrder.twoJobs, r.attempts ≤ r.maxAttempts :=
  ⟨by decide +kernel, run_attempts ScopeOrder.twoJobs (by decide +kernel)⟩

end Memmy.Storage.JobTable
