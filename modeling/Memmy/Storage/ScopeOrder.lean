import Mathlib.Data.List.Pairwise
import Memmy.Lib.Run
import Memmy.Storage.JobSteps

/-! # The jobs of one key run one after the other

The jobs of the scoped types have a key and a number in it. A job of a key is leased only while no
other one is, and only when every earlier one is done.

* `Apart`: what two rows keep between them; `apart_step`: every operation keeps it.
* `leaseRows_first`: a leased job is the first of its key.
* `run_scope_order`: both in every run. -/

namespace Memmy.Storage.ScopeOrder

open Lib.Run List
open Storage.Jobs Storage.JobSteps

/-- Two jobs of a scoped type with the same key. -/
def SameKey (a b : Job) : Prop :=
  isScoped a = true ∧ a.jobType = b.jobType ∧ a.scopeKey.isSome = true ∧ a.scopeKey = b.scopeKey

/-- `scope_seq < scope_seq`, false for missing numbers. -/
def Before (a b : Job) : Prop := ∃ i j, a.scopeSeq = some i ∧ b.scopeSeq = some j ∧ i < j

/-- At most one job of a key is leased. -/
def OneLeased (jobs : List Job) : Prop :=
  ∀ a ∈ jobs, ∀ b ∈ jobs, SameKey a b → a.status = .leased → b.status = .leased → a.id = b.id

/-- A lease takes no job with an earlier one of its key that is not done, and no two of one key. -/
def LeasesInOrder (w : Surroundings) (o : LeaseOptions) (now : ℕ) (jobs : List Job) : Prop :=
  (∀ job ∈ (leaseQueuedJobs w o now jobs).2, ∀ other ∈ jobs, SameKey job other → Before other job →
    other.status.isActive = false) ∧
  (leaseQueuedJobs w o now jobs).2.Pairwise fun a b => ¬ SameKey a b

/-- What two rows of the table keep between them. -/
structure Apart (a b : Job) : Prop where
  id : a.id ≠ b.id
  seq : ∀ key i, a.scopeKey = some key → a.scopeSeq = some i → ¬ (b.scopeKey = some key ∧ b.scopeSeq = some i)
  leased : SameKey a b → ¬ (a.status = .leased ∧ b.status = .leased)

section
variable {w : Surroundings} {o : LeaseOptions} {now : ℕ} {jobs : List Job} {a b a' b' : Job} {op : JobOp}

theorem SameKey.symm (h : SameKey a b) : SameKey b a := by
  obtain ⟨hs, ht, hk, he⟩ := h
  exact ⟨by simpa only [isScoped, ht] using hs, ht.symm, by rw [← he]; exact hk, he.symm⟩

theorem SameKey.before (ha : RowStep jobs op a a') (hb : RowStep jobs op b b')
    (h : SameKey a' b') : SameKey a b := by
  simpa only [SameKey, isScoped, ha.keys.1, ha.keys.2.1, hb.keys.1, hb.keys.2.1] using h

theorem candidate_scoped (h : isCandidate w o now jobs a = true) (hs : isScoped a = true) :
    a.scopeSeq.isSome = true ∧ keyLeased jobs a = false ∧ keyBlocked jobs a = false := by
  simp only [isCandidate, Bool.and_eq_true, Bool.or_eq_true, Bool.not_eq_true', hs] at h
  rcases h.1.1.1.2 with hf | hc
  · cases hf
  · exact ⟨hc.1.1.2, hc.1.2, hc.2⟩

theorem not_leased_of_keyLeased (h : keyLeased jobs a = false) (hb : b ∈ jobs) (hk : SameKey a b)
    (hid : a.id ≠ b.id) : b.status ≠ .leased := by
  intro hs
  have := any_eq_false.mp h b hb
  simp [hk.2.1, hk.2.2.2, hs, hid.symm] at this

theorem not_active_of_keyBlocked (h : keyBlocked jobs a = false) (hb : b ∈ jobs) (hk : SameKey a b)
    (hlt : Before b a) : b.status.isActive = false := by
  obtain ⟨i, j, hi, hj, hij⟩ := hlt
  have := any_eq_false.mp h b hb
  simp only [hi, hj, hk.2.1, hk.2.2.2, hij] at this
  simpa using this

theorem active_of_due (h : isDue now a = true) : a.status.isActive = true := by
  rcases due_cases h with hs | ⟨hs, -⟩ <;> rw [hs] <;> rfl

/-- **First of its key.** No earlier job of the key of a leased one is active. -/
theorem leaseRows_first (ha : a ∈ leaseRows w o now jobs) (hb : b ∈ jobs) (hk : SameKey a b)
    (hlt : Before b a) : b.status.isActive = false :=
  not_active_of_keyBlocked (candidate_scoped (leaseRows_candidate ha).2 hk.1).2.2 hb hk hlt

/-- Of two jobs of one key, one call leases at most one: the earlier one blocks the other. -/
theorem leaseRows_apart (hap : Apart a b) (ha : a ∈ leaseRows w o now jobs)
    (hb : b ∈ leaseRows w o now jobs) : ¬ SameKey a b := by
  intro hk
  obtain ⟨haj, hac⟩ := leaseRows_candidate ha
  obtain ⟨hbj, hbc⟩ := leaseRows_candidate hb
  obtain ⟨i, hi⟩ := Option.isSome_iff_exists.mp (candidate_scoped hac hk.1).1
  obtain ⟨j, hj⟩ := Option.isSome_iff_exists.mp (candidate_scoped hbc hk.symm.1).1
  obtain ⟨key, hkey⟩ := Option.isSome_iff_exists.mp hk.2.2.1
  have hne : i ≠ j := fun he => hap.seq key i hkey hi ⟨hk.2.2.2 ▸ hkey, he ▸ hj⟩
  rcases Nat.lt_or_gt_of_ne hne with hlt | hgt
  · have := leaseRows_first hb haj hk.symm ⟨i, j, hi, hj, hlt⟩
    rw [active_of_due (candidate_due hac)] at this
    cases this
  · have := leaseRows_first ha hbj hk ⟨j, i, hj, hi, hgt⟩
    rw [active_of_due (candidate_due hbc)] at this
    cases this

/-- **Step lemma**, for two rows. -/
theorem apart_step (ha : a ∈ jobs) (hb : b ∈ jobs) (h : Apart a b) (hsa : RowStep jobs op a a')
    (hsb : RowStep jobs op b b') : Apart a' b' where
  id := by rw [hsa.id_eq, hsb.id_eq]; exact h.id
  seq := by rw [hsa.keys.2.1, hsa.keys.2.2, hsb.keys.2.1, hsb.keys.2.2]; exact h.seq
  leased := by
    rintro hk ⟨hla, hlb⟩
    have hk₀ : SameKey a b := SameKey.before hsa hsb hk
    rcases hsa.leased_cases hla with hla | ⟨w, o, now, rfl, hra⟩
    · rcases hsb.leased_cases hlb with hlb | ⟨w, o, now, rfl, hrb⟩
      · exact h.leased hk₀ ⟨hla, hlb⟩
      · exact not_leased_of_keyLeased (candidate_scoped (leaseRows_candidate hrb).2 hk₀.symm.1).2.1
          ha hk₀.symm h.id.symm hla
    · rcases hsb.leased_cases hlb with hlb | ⟨w', o', now', he, hrb⟩
      · exact not_leased_of_keyLeased (candidate_scoped (leaseRows_candidate hra).2 hk₀.1).2.1
          hb hk₀ h.id hlb
      · cases he
        exact leaseRows_apart h hra hrb hk₀

/-! ### Runs -/

def InsertsQueued (op : JobOp) : Prop := ∀ job ∈ newJob? op, job.status = .queued

instance (op : JobOp) : Decidable (InsertsQueued op) :=
  inferInstanceAs (Decidable (∀ job ∈ newJob? op, job.status = .queued))

theorem nodup_of_apart (h : jobs.Pairwise Apart) : (jobs.map (·.id)).Nodup := by
  rw [List.Nodup, pairwise_map]
  exact h.imp fun hab => hab.id

/-- **Step lemma**, for the table. -/
theorem pairwise_apart_step (h : jobs.Pairwise Apart) (hins : InsertsQueued op) :
    (applyOp jobs op).Pairwise Apart := by
  obtain ⟨old, new, he, hc, hnew⟩ := applyOp_rows (nodup_of_apart h) op
  have hold : old.Pairwise Apart :=
    hc.pairwise (fun a ha b hb a' b' hab hsa hsb => apart_step ha hb hab hsa hsb) h
  rw [he]
  rcases hnew with rfl | ⟨job, hjob, rfl, hfits⟩
  · rw [append_nil]; exact hold
  · refine pairwise_append.mpr ⟨hold, pairwise_singleton _ _, fun a' ha' b hb => ?_⟩
    obtain rfl := mem_singleton.mp hb
    obtain ⟨a, ha, hsa⟩ := hc.exists_old a' ha'
    refine ⟨?_, ?_, fun _ hl => ?_⟩
    · rw [hsa.id_eq]; exact hfits.id_new a ha
    · rw [hsa.keys.2.1, hsa.keys.2.2]; exact hfits.seq_new a ha
    · rw [hins b hjob] at hl; cases hl.2

instance : Std.Symm Apart where
  symm _ _ h := ⟨h.id.symm, fun key i hk hi hb => h.seq key i hb.1 hb.2 ⟨hk, hi⟩,
    fun hk hl => h.leased hk.symm ⟨hl.2, hl.1⟩⟩

theorem oneLeased_of_apart (h : jobs.Pairwise Apart) : OneLeased jobs := by
  intro a ha b hb hk hla hlb
  by_contra hid
  have hab : Apart a b := h.forall ha hb fun he => hid (congrArg Job.id he)
  exact hab.leased hk ⟨hla, hlb⟩

/-- Leasing changes none of the keys. -/
theorem leasesInOrder_of_apart (h : jobs.Pairwise Apart) : LeasesInOrder w o now jobs := by
  refine ⟨?_, ?_⟩
  · intro job hjob other hother hk hlt
    obtain ⟨row, hrow, rfl⟩ := mem_map.mp hjob
    exact leaseRows_first hrow hother hk hlt
  · refine pairwise_map.mpr ?_
    have hids : (leaseRows w o now jobs).Pairwise fun a b => a.id ≠ b.id :=
      pairwise_map.mp (nodup_leaseRows (nodup_of_apart h))
    refine hids.imp_of_mem fun {a b} ha hb hid hk => ?_
    have hab : Apart a b := h.forall (leaseRows_candidate ha).1 (leaseRows_candidate hb).1
      fun he => hid (congrArg Job.id he)
    exact leaseRows_apart hab ha hb hk

/-- **Order.** In every state of every run from an empty table, at most one job of a key is leased,
and a lease call takes the jobs of a key in order, one at a time. -/
theorem run_scope_order (ops : List JobOp) (hins : ∀ op ∈ ops, InsertsQueued op) :
    ∀ jobs ∈ visited applyOp [] ops, OneLeased jobs ∧ ∀ w o now, LeasesInOrder w o now jobs := by
  have hinv : ∀ jobs ∈ visited applyOp [] ops, jobs.Pairwise Apart :=
    invariant_of_steps (P := fun _ op => InsertsQueued op) (fun _ _ => pairwise_apart_step) ops []
      .nil fun t ht => hins t.2 (event_mem_of_mem_taken ht)
  exact fun jobs hjobs => ⟨oneLeased_of_apart (hinv jobs hjobs),
    fun _ _ _ => leasesInOrder_of_apart (hinv jobs hjobs)⟩

def extractJob (id : String) (seq : ℕ) : Job where
  id := id
  jobType := "work_memory_extract"
  status := .queued
  userId := "user_1"
  scopeKey := some "work:user_1"
  scopeSeq := some seq
  attempts := 0
  maxAttempts := 3
  createdAt := seq
  updatedAt := seq

/-- Two jobs of a key: the first is leased and completed, then the second is leased. -/
def twoJobs : List JobOp :=
  [.enqueue {} (extractJob "job_1" 1), .enqueue {} (extractJob "job_2" 2), .lease {} {} 5,
    .complete "job_1" 6, .lease {} {} 7]

theorem run_scope_order_twoJobs : OneLeased (final applyOp [] twoJobs) ∧
    ∀ w o now, LeasesInOrder w o now (final applyOp [] twoJobs) :=
  run_scope_order twoJobs (by decide +kernel) _ (final_mem_visited applyOp twoJobs [])

end

end Memmy.Storage.ScopeOrder
