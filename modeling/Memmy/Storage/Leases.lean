import Memmy.Lib.Run
import Memmy.Storage.JobSteps

/-! # Workers that hold leases

Workers lease jobs, work on them while the clock runs, and give them back through `complete`, `fail`,
`defer` or `requeueUnstarted`. A call names its job by id alone, so nothing in the table tells the
holder of the lease from a worker whose lease ran out and was taken over. `State` remembers the leases
in the order they were taken; `stale` is a lease that a later one has replaced.

* `TerminalKept`, `StaleInert`: what a step has to keep.
* `Allowed`: no call is late, as far as that matters.
* `Inv`, `inv_step`: under it, a lease that has not run out is the current one.
* `run_fenced`: then every run keeps both. -/

namespace Memmy.Storage.Leases

open Lib.Rows Lib.Run List
open Storage.Jobs Storage.JobSteps

/-! ### The machine -/

structure Lease where
  jobId : String
  leasedUntil : ℕ
  /-- The worker has made its call, or its process has stopped. -/
  ended : Bool := false
  deriving DecidableEq, Repr

structure State where
  jobs : List Job
  now : ℕ
  leases : List Lease := []

/-- How a worker gives a job back. -/
inductive Call where
  | complete
  | fail (error : String) (forceDeadLetter : Bool)
  | defer (runAfter : ℕ)

inductive Event where
  | tick (ms : ℕ)
  | lease (w : Surroundings) (o : LeaseOptions)
  | call (k : ℕ) (c : Call)
  | requeueUnstarted (ks : List ℕ)
  | requeueFailed (w : Surroundings) (limit : ℕ) (targetMemoryIds : Option (List String))
  | requeueExpired (excludedJobTypes : List String)
  | restart
  | deleteScope (pendingTargets : List (String × String)) (userId : String) (projectId : Option String)
  | enqueue (w : Surroundings) (job : Job)
  | insertImmutable (job : Job)

def Call.op (id : String) (now : ℕ) : Call → JobOp
  | .complete => .complete id now
  | .fail error force => .fail id error now force
  | .defer runAfter => .defer id runAfter now

/-- The jobs of the leases `ks`. -/
def jobIds (s : State) (ks : List ℕ) : List String := ks.filterMap fun k => (s.leases[k]?).map (·.jobId)

/-- The operation on the table. -/
def opOf (s : State) : Event → Option JobOp
  | .tick _ => none
  | .lease w o => some (.lease w o s.now)
  | .call k c => (s.leases[k]?).map fun l => c.op l.jobId s.now
  | .requeueUnstarted ks => some (.requeueUnstarted (jobIds s ks) s.now)
  | .requeueFailed w limit targets => some (.requeueFailed w limit targets s.now)
  | .requeueExpired excluded => some (.requeueExpired excluded s.now)
  | .restart => some (.requeueAfterRestart s.now)
  | .deleteScope targets userId projectId => some (.deleteScope targets userId projectId s.now)
  | .enqueue w job => some (.enqueue w job)
  | .insertImmutable job => some (.insertImmutable job)

/-- The leases whose worker makes a call. -/
def calls : Event → List ℕ
  | .call k _ => [k]
  | .requeueUnstarted ks => ks
  | _ => []

/-- The leases of the jobs that `leaseQueuedJobs` returns. -/
def newLeases (s : State) : Event → List Lease
  | .lease w o => (leaseQueuedJobs w o s.now s.jobs).2.map fun job =>
      { jobId := job.id, leasedUntil := s.now + o.leaseSeconds * 1000 }
  | _ => []

/-- A worker that has made its call is done; those of a stopped process are gone. -/
def isOver (e : Event) (k : ℕ) (l : Lease) : Bool :=
  match e with
  | .restart => true
  | _ => l.ended || decide (k ∈ calls e)

def step (s : State) (e : Event) : State where
  jobs := match opOf s e with
    | some op => applyOp s.jobs op
    | none => s.jobs
  now := match e with
    | .tick ms => s.now + ms
    | _ => s.now
  leases := (s.leases.mapIdx fun k l => { l with ended := isOver e k l }) ++ newLeases s e

def start (jobs : List Job) (now : ℕ) : State := { jobs, now }

/-! ### What a step has to keep -/

def statusOf (jobs : List Job) (id : String) : Option JobStatus := (jobs.find? (hasId id)).map (·.status)

/-- A job that is done stays as it is. -/
def TerminalKept (s s' : State) : Prop :=
  ∀ id st, statusOf s.jobs id = some st → st.isTerminal = true → statusOf s'.jobs id = some st

/-- A later lease of the same job has been taken. -/
def stale (s : State) (k : ℕ) : Bool :=
  (s.leases[k]?).any fun l => (s.leases.drop (k + 1)).any fun l' => l'.jobId = l.jobId

/-- A worker whose lease was taken over changes nothing. -/
def StaleInert (s : State) (e : Event) : Prop :=
  ∀ k ∈ calls e, ∀ l ∈ s.leases[k]?, stale s k = true →
    statusOf (step s e).jobs l.jobId = statusOf s.jobs l.jobId

/-! ### When the calls are harmless -/

/-- The call leaves a job of this status alone. -/
def idle : Event → JobStatus → Bool
  | .call _ .complete, st => st = .succeeded
  | .call _ (.fail _ _), st => st = .deadLetter
  | .call _ (.defer _), st => st ≠ .leased
  | .requeueUnstarted _, st => st ≠ .leased
  | _, _ => true

/-- The lease has not run out, and its worker has not made its call. -/
def live (s : State) (l : Lease) : Bool := !l.ended && decide (s.now < l.leasedUntil)

/-- Each call finds nothing to do, or a job that is not done and whose lease is still the worker's: it
has not run out, or it was not taken over. -/
def Allowed (s : State) (e : Event) : Prop :=
  ∀ k ∈ calls e, ∀ l ∈ s.leases[k]?, ∀ row ∈ s.jobs, row.id = l.jobId →
    idle e row.status = true ∨ row.status.isTerminal = false ∧ (live s l = true ∨ stale s k = false)

instance (s : State) (e : Event) : Decidable (Allowed s e) :=
  inferInstanceAs (Decidable (∀ k ∈ calls e, ∀ l ∈ s.leases[k]?, ∀ row ∈ s.jobs, row.id = l.jobId →
    idle e row.status = true ∨ row.status.isTerminal = false ∧ (live s l = true ∨ stale s k = false)))

/-! ### The lease that has not run out -/

/-- The row of a lease that has not run out: leased to it, or done. -/
def Covered (l : Lease) (row : Job) : Prop :=
  row.id = l.jobId ∧
    (row.status = .leased ∧ row.leasedUntil = some l.leasedUntil ∨ row.status.isTerminal = true)

structure Inv (s : State) : Prop where
  nodup : (s.jobs.map (·.id)).Nodup
  current : ∀ (k : ℕ) (l : Lease), s.leases[k]? = some l → live s l = true → stale s k = false
  covered : ∀ (k : ℕ) (l : Lease), s.leases[k]? = some l → live s l = true → ∃ row ∈ s.jobs, Covered l row

section
variable {s : State} {e : Event} {k : ℕ} {l : Lease}

theorem live_iff : live s l = true ↔ l.ended = false ∧ s.now < l.leasedUntil := by
  simp [live]

theorem stale_iff : stale s k = true ↔
    ∃ l, s.leases[k]? = some l ∧ ∃ m l', k < m ∧ s.leases[m]? = some l' ∧ l'.jobId = l.jobId := by
  simp only [stale, Option.any_eq_true, any_eq_true, decide_eq_true_eq]
  refine exists_congr fun l => and_congr_right fun _ => ?_
  constructor
  · rintro ⟨l', hl', he⟩
    obtain ⟨j, hj⟩ := mem_iff_getElem?.mp hl'
    rw [getElem?_drop] at hj
    exact ⟨k + 1 + j, l', by omega, hj, he⟩
  · rintro ⟨m, l', hm, hl', he⟩
    refine ⟨l', mem_iff_getElem?.mpr ⟨m - (k + 1), ?_⟩, he⟩
    rw [getElem?_drop, show k + 1 + (m - (k + 1)) = m by omega]
    exact hl'

theorem start_inv {jobs : List Job} (hn : (jobs.map (·.id)).Nodup) (now : ℕ) : Inv (start jobs now) :=
  ⟨hn, fun k l h => by simp [start] at h, fun k l h => by simp [start] at h⟩

theorem step_jobs_of_none (h : opOf s e = none) : (step s e).jobs = s.jobs := by
  simp only [step, h]

theorem step_jobs_of_some {op : JobOp} (h : opOf s e = some op) : (step s e).jobs = applyOp s.jobs op := by
  simp only [step, h]

theorem step_nodup (hn : (s.jobs.map (·.id)).Nodup) : ((step s e).jobs.map (·.id)).Nodup := by
  cases h : opOf s e with
  | none => rw [step_jobs_of_none h]; exact hn
  | some op => rw [step_jobs_of_some h]; exact nodup_ids hn op

theorem now_le_step : s.now ≤ (step s e).now := by
  unfold step
  cases e <;> simp

theorem leases_step (h : (step s e).leases[k]? = some l) :
    (∃ l₀, s.leases[k]? = some l₀ ∧ l = { l₀ with ended := isOver e k l₀ }) ∨
      s.leases.length ≤ k ∧ (newLeases s e)[k - s.leases.length]? = some l := by
  simp only [step] at h
  rw [getElem?_append, length_mapIdx] at h
  by_cases hk : k < s.leases.length
  · rw [if_pos hk, getElem?_mapIdx] at h
    obtain ⟨l₀, hl₀, he⟩ := Option.map_eq_some_iff.mp h
    exact Or.inl ⟨l₀, hl₀, he.symm⟩
  · rw [if_neg hk] at h
    exact Or.inr ⟨by omega, h⟩

theorem leases_step_old (h : s.leases[k]? = some l) :
    (step s e).leases[k]? = some { l with ended := isOver e k l } := by
  have hk : k < s.leases.length := (List.getElem?_eq_some_iff.mp h).1
  simp only [step]
  rw [getElem?_append_left (by rw [length_mapIdx]; exact hk), getElem?_mapIdx, h]
  rfl

theorem mem_newLeases (h : l ∈ newLeases s e) : ∃ w o, e = .lease w o ∧
    ∃ row ∈ leaseRows w o s.now s.jobs, l = ⟨row.id, s.now + o.leaseSeconds * 1000, false⟩ := by
  cases e with
  | lease w o =>
    simp only [newLeases, leaseQueuedJobs, map_map, mem_map] at h
    obtain ⟨row, hrow, he⟩ := h
    exact ⟨w, o, rfl, row, hrow, he.symm⟩
  | _ => cases h

theorem nodup_newLeases (hn : (s.jobs.map (·.id)).Nodup) : ((newLeases s e).map (·.jobId)).Nodup := by
  cases e with
  | lease w o =>
    simp only [newLeases, leaseQueuedJobs, map_map]
    exact nodup_leaseRows hn
  | _ => exact nodup_nil

/-- A job whose lease has not run out is not leased again. -/
theorem covered_not_due {row : Job} (hl : live s l = true) (hc : Covered l row) : isDue s.now row = false := by
  rw [live_iff] at hl
  by_contra hd
  rw [Bool.not_eq_false] at hd
  rcases due_cases hd with hq | ⟨hs, t, ht, hle⟩
  · rcases hc.2 with ⟨hs, -⟩ | hs <;> rw [hq] at hs <;> cases hs
  · rcases hc.2 with ⟨-, hu⟩ | hterm
    · rw [hu] at ht
      have := Option.some.inj ht
      omega
    · rw [hs] at hterm; cases hterm

/-- A call for the job of a lease that has not run out, by another worker, finds nothing to do. -/
theorem other_call_idle (hinv : Inv s) (ha : Allowed s e) (hk : s.leases[k]? = some l)
    (hl : live s l = true) (hkeep : k ∉ calls e) {j : ℕ} {l' : Lease} (hj : j ∈ calls e)
    (hl' : s.leases[j]? = some l') (hid : l'.jobId = l.jobId) {row : Job} (hrow : row ∈ s.jobs)
    (hc : Covered l row) : idle e row.status = true := by
  have hne : j ≠ k := fun h => hkeep (h ▸ hj)
  have hnot : stale s k = false := hinv.current k l hk hl
  rcases ha j hj l' hl' row hrow (hc.1.trans hid.symm) with hidle | ⟨-, hlive⟩
  · exact hidle
  · rcases Nat.lt_or_gt_of_ne hne with hlt | hgt
    · -- the other lease is the older one: it was taken over by `k`
      have hst : stale s j = true := stale_iff.mpr ⟨l', hl', k, l, hlt, hk, hid.symm⟩
      rcases hlive with hlive | hns
      · rw [hinv.current j l' hl' hlive] at hst; cases hst
      · rw [hns] at hst; cases hst
    · have hst : stale s k = true := stale_iff.mpr ⟨l, hk, j, l', hgt, hl', hid⟩
      rw [hnot] at hst; cases hst

theorem covered_step (hinv : Inv s) (ha : Allowed s e) (hk : s.leases[k]? = some l)
    (hl : live s l = true) (hkeep : isOver e k l = false) {op : JobOp} (hop : opOf s e = some op)
    {row row' : Job} (hrow : row ∈ s.jobs) (hc : Covered l row)
    (hstep : RowStep s.jobs op row row') : Covered l row' := by
  have hdue : isDue s.now row = false := covered_not_due hl hc
  have hnotcall : k ∉ calls e := by
    cases e <;> simp_all [isOver]
  cases e with
  | tick ms => cases hop
  | lease w o =>
    cases hop
    cases hstep with
    | kept => exact hc
    | leased h => rw [candidate_due (leaseRows_candidate h).2] at hdue; cases hdue
  | call j c =>
    obtain ⟨l', hl', rfl⟩ := Option.map_eq_some_iff.mp hop
    by_cases hid : l'.jobId = l.jobId
    · have hidle := other_call_idle hinv ha hk hl hnotcall (mem_singleton_self j) hl' hid hrow hc
      cases c with
      | complete =>
        cases hstep with
        | kept => exact hc
        | completed h => exact ⟨hc.1, Or.inr rfl⟩
      | fail error force =>
        cases hstep with
        | kept => exact hc
        | failed h =>
          have hd : row.status = .deadLetter := of_decide_eq_true hidle
          rw [failedRow, if_pos hd]
          exact hc
      | defer runAfter =>
        cases hstep with
        | kept => exact hc
        | deferred h hs => exact absurd hs (of_decide_eq_true hidle)
    · have hne : row.id ≠ l'.jobId := fun h => hid (h.symm.trans hc.1)
      cases c <;> cases hstep <;> first | exact hc | exact absurd ‹row.id = _› hne
  | requeueUnstarted ks =>
    cases hop
    cases hstep with
    | kept => exact hc
    | unstarted hs h =>
      obtain ⟨j, hj, he⟩ := mem_filterMap.mp h
      obtain ⟨l', hl', hid⟩ := Option.map_eq_some_iff.mp he
      have hidle := other_call_idle hinv ha hk hl hnotcall (j := j) hj hl' (hid.trans hc.1) hrow hc
      exact absurd hs (of_decide_eq_true hidle)
  | requeueFailed w limit targets =>
    cases hop
    cases hstep with
    | kept => exact hc
    | requeuedFailed hs => rcases hc.2 with ⟨h, -⟩ | h <;> rw [hs] at h <;> cases h
  | requeueExpired excluded =>
    cases hop
    cases hstep with
    | kept => exact hc
    | expired hs h =>
      obtain ⟨t, ht, hle⟩ := h
      simp [isDue, hs, ht, hle] at hdue
  | restart => simp [isOver] at hkeep
  | deleteScope targets userId projectId =>
    cases hop
    cases hstep with
    | kept => exact hc
    | closed hs error => exact ⟨hc.1, Or.inr rfl⟩
  | enqueue w job =>
    cases hop
    cases hstep with
    | kept => exact hc
    | merged h =>
      refine ⟨hc.1, Or.inl ?_⟩
      rcases hc.2 with ⟨hs, hu⟩ | hterm
      · simp [mergedRow, hs, hu]
      · have hact := (existingJob_active h).2
        cases hs : row.status <;> rw [hs] at hterm hact <;> simp [JobStatus.isTerminal,
          JobStatus.isActive] at hterm hact
  | insertImmutable job =>
    cases hop
    cases hstep
    exact hc

theorem live_before {l₀ : Lease} (hl : live (step s e) { l₀ with ended := isOver e k l₀ } = true) :
    live s l₀ = true ∧ isOver e k l₀ = false := by
  rw [live_iff] at hl ⊢
  obtain ⟨hover, hlt⟩ := hl
  have hle := now_le_step (s := s) (e := e)
  refine ⟨⟨?_, by dsimp only at hlt; omega⟩, hover⟩
  cases e <;> simp_all [isOver]

theorem not_leased_anew (hinv : Inv s) (hk : s.leases[k]? = some l) (hl : live s l = true)
    {l' : Lease} (hnew : l' ∈ newLeases s e) : l'.jobId ≠ l.jobId := by
  intro hid
  obtain ⟨w, o, rfl, row, hrow, rfl⟩ := mem_newLeases hnew
  obtain ⟨row', hrow', hc⟩ := hinv.covered k l hk hl
  obtain ⟨hmem, hcand⟩ := leaseRows_candidate hrow
  have heq : row' = row := eq_of_key_eq hinv.nodup hrow' hmem (hc.1.trans hid.symm)
  have hdue := covered_not_due hl hc
  rw [heq, candidate_due hcand] at hdue
  cases hdue

theorem current_step (hinv : Inv s) (hk : (step s e).leases[k]? = some l)
    (hl : live (step s e) l = true) : stale (step s e) k = false := by
  by_contra hst
  rw [Bool.not_eq_false, stale_iff] at hst
  obtain ⟨l₁, hl₁, m, l', hm, hl', hid⟩ := hst
  obtain rfl : l = l₁ := Option.some.inj (hk.symm.trans hl₁)
  rcases leases_step hk with ⟨l₀, hl₀, rfl⟩ | ⟨hlen, hnew⟩
  · obtain ⟨hlive, -⟩ := live_before hl
    rcases leases_step hl' with ⟨l₂, hl₂, rfl⟩ | ⟨-, hnew⟩
    · have : stale s k = true := stale_iff.mpr ⟨l₀, hl₀, m, l₂, hm, hl₂, hid⟩
      rw [hinv.current k l₀ hl₀ hlive] at this
      cases this
    · exact not_leased_anew hinv hl₀ hlive (mem_of_getElem? hnew) hid
  · rcases leases_step hl' with ⟨l₂, hl₂, -⟩ | ⟨hlen', hnew'⟩
    · have := (List.getElem?_eq_some_iff.mp hl₂).1
      omega
    · have hn := nodup_newLeases (e := e) hinv.nodup
      have h₁ : ((newLeases s e).map (·.jobId))[k - s.leases.length]? = some l.jobId := by
        rw [getElem?_map, hnew]; rfl
      have h₂ : ((newLeases s e).map (·.jobId))[m - s.leases.length]? = some l.jobId := by
        rw [getElem?_map, hnew', ← hid]; rfl
      have := (List.getElem?_inj (List.getElem?_eq_some_iff.mp h₁).1 hn).mp (h₁.trans h₂.symm)
      omega

theorem covered_after (hinv : Inv s) (ha : Allowed s e) (hk : (step s e).leases[k]? = some l)
    (hl : live (step s e) l = true) : ∃ row ∈ (step s e).jobs, Covered l row := by
  rcases leases_step hk with ⟨l₀, hl₀, rfl⟩ | ⟨-, hnew⟩
  · obtain ⟨hlive, hkeep⟩ := live_before hl
    obtain ⟨row, hrow, hc⟩ := hinv.covered k l₀ hl₀ hlive
    cases hop : opOf s e with
    | none => exact ⟨row, by rw [step_jobs_of_none hop]; exact hrow, hc⟩
    | some op =>
      obtain ⟨row', hrow', hstep⟩ := row_after hinv.nodup op hrow
      exact ⟨row', by rw [step_jobs_of_some hop]; exact hrow',
        covered_step hinv ha hl₀ hlive hkeep hop hrow hc hstep⟩
  · obtain ⟨w, o, rfl, row, hrow, rfl⟩ := mem_newLeases (mem_of_getElem? hnew)
    exact ⟨_, leasedRow_mem hrow, rfl, Or.inl ⟨rfl, rfl⟩⟩

/-- **Step lemma.** -/
theorem inv_step (hinv : Inv s) (ha : Allowed s e) : Inv (step s e) :=
  ⟨step_nodup hinv.nodup, fun _ _ => current_step hinv, fun _ _ => covered_after hinv ha⟩

end

/-! ### Runs -/

section
variable {s : State} {e : Event} {op : JobOp} {jobs : List Job}

theorem statusOf_eq_some (hn : (jobs.map (·.id)).Nodup) {id : String}
    {st : JobStatus} : statusOf jobs id = some st ↔ ∃ row ∈ jobs, row.id = id ∧ row.status = st := by
  unfold statusOf
  constructor
  · intro h
    obtain ⟨row, hrow, hst⟩ := Option.map_eq_some_iff.mp h
    have hid : hasId id row = true := find?_some hrow
    exact ⟨row, mem_of_find?_eq_some hrow, of_decide_eq_true hid, hst⟩
  · rintro ⟨row, hrow, rfl, rfl⟩
    cases hf : jobs.find? (hasId row.id) with
    | none => exact absurd (decide_eq_true rfl) (find?_eq_none.mp hf row hrow)
    | some row' =>
      have hid : hasId row.id row' = true := find?_some hf
      rw [eq_of_key_eq hn (mem_of_find?_eq_some hf) hrow (of_decide_eq_true hid)]
      rfl

theorem statusOf_eq_none {id : String} : statusOf jobs id = none ↔ ∀ row ∈ jobs, row.id ≠ id := by
  simp [statusOf, hasId, find?_eq_none]

theorem idle_kept (hop : opOf s e = some op) (hc : calls e ≠ []) {row row' : Job}
    (hidle : idle e row.status = true) (hstep : RowStep s.jobs op row row') : row'.status = row.status := by
  cases e with
  | call j c =>
    obtain ⟨l, -, rfl⟩ := Option.map_eq_some_iff.mp hop
    cases c with
    | complete =>
      cases hstep with
      | kept => rfl
      | completed h => exact (of_decide_eq_true hidle).symm
    | fail error force =>
      cases hstep with
      | kept => rfl
      | failed h => rw [failedRow, if_pos (of_decide_eq_true hidle)]
    | defer runAfter =>
      cases hstep with
      | kept => rfl
      | deferred h hs => exact absurd hs (of_decide_eq_true hidle)
  | requeueUnstarted ks =>
    cases hop
    cases hstep with
    | kept => rfl
    | unstarted hs h => exact absurd hs (of_decide_eq_true hidle)
  | _ => exact absurd rfl hc

theorem opOf_ne_arm {input : ArmInput} : opOf s e ≠ some (.arm input) := by
  intro hop
  cases e with
  | call j c =>
    obtain ⟨l, -, he⟩ := Option.map_eq_some_iff.mp hop
    cases c <;> cases he
  | _ => cases hop

/-- A job that is done keeps its status: the calls are idle, and the other operations take active
jobs only. -/
theorem terminal_step (ha : Allowed s e) (hop : opOf s e = some op) {row row' : Job}
    (hrow : row ∈ s.jobs) (hterm : row.status.isTerminal = true)
    (hstep : RowStep s.jobs op row row') : row'.status = row.status := by
  have hcall : ∀ k ∈ calls e, ∀ l, s.leases[k]? = some l → row.id = l.jobId → row'.status = row.status := by
    intro k hk l hl hid
    rcases ha k hk l hl row hrow hid with hidle | ⟨hnot, -⟩
    · exact idle_kept hop (ne_nil_of_mem hk) hidle hstep
    · rw [hterm] at hnot; cases hnot
  have hnotact : row.status.isActive = false := by
    cases hs : row.status <;> rw [hs] at hterm <;> first | rfl | cases hterm
  cases hstep with
  | kept => rfl
  | completed h | failed h =>
    cases e with
    | call k c =>
      obtain ⟨l, hl, he⟩ := Option.map_eq_some_iff.mp hop
      cases c <;> cases he
      exact hcall k (mem_singleton_self k) l hl h
    | _ => cases hop
  | deferred h hs | unstarted hs h => rw [hs] at hterm; cases hterm
  | requeuedFailed hs => rw [hs] at hterm; cases hterm
  | restarted hs => rw [hs] at hterm; cases hterm
  | expired hs h => rw [hs] at hterm; cases hterm
  | closed hs error => rw [hs] at hnotact; cases hnotact
  | merged h => rw [(existingJob_active h).2] at hnotact; cases hnotact
  | armed h => exact absurd hop opOf_ne_arm
  | leased h =>
    rcases due_cases (candidate_due (leaseRows_candidate h).2) with hs | ⟨hs, -⟩ <;>
      rw [hs] at hterm <;> cases hterm

theorem terminalKept_step (hinv : Inv s) (ha : Allowed s e) : TerminalKept s (step s e) := by
  intro id st hst hterm
  obtain ⟨row, hrow, hid, rfl⟩ := (statusOf_eq_some hinv.nodup).mp hst
  rw [statusOf_eq_some (step_nodup hinv.nodup)]
  cases hop : opOf s e with
  | none => exact ⟨row, by rw [step_jobs_of_none hop]; exact hrow, hid, rfl⟩
  | some op =>
    obtain ⟨row', hrow', hstep⟩ := row_after hinv.nodup op hrow
    exact ⟨row', by rw [step_jobs_of_some hop]; exact hrow', hstep.id_eq.trans hid,
      terminal_step ha hop hrow hterm hstep⟩

theorem newJob?_of_call (hop : opOf s e = some op) (hc : calls e ≠ []) : newJob? op = none := by
  cases e with
  | call k c =>
    obtain ⟨l, -, rfl⟩ := Option.map_eq_some_iff.mp hop
    cases c <;> rfl
  | requeueUnstarted ks => cases hop; rfl
  | _ => exact absurd rfl hc

theorem staleInert_step (hinv : Inv s) (ha : Allowed s e) : StaleInert s e := by
  intro k hk l hl hstale
  have hc : calls e ≠ [] := ne_nil_of_mem hk
  cases hop : opOf s e with
  | none => rw [step_jobs_of_none hop]
  | some op =>
    rw [step_jobs_of_some hop]
    cases hst : statusOf s.jobs l.jobId with
    | none =>
      rw [statusOf_eq_none] at hst ⊢
      intro row' hrow' hid
      obtain ⟨row, hrow, hstep⟩ := row_before hinv.nodup (newJob?_of_call hop hc) hrow'
      exact hst row hrow (hstep.id_eq.symm.trans hid)
    | some st =>
      obtain ⟨row, hrow, hid, rfl⟩ := (statusOf_eq_some hinv.nodup).mp hst
      rw [statusOf_eq_some (nodup_ids hinv.nodup op)]
      obtain ⟨row', hrow', hstep⟩ := row_after hinv.nodup op hrow
      refine ⟨row', hrow', hstep.id_eq.trans hid, ?_⟩
      rcases ha k hk l hl row hrow hid with hidle | ⟨-, hlive | hns⟩
      · exact idle_kept hop hc hidle hstep
      · rw [hinv.current k l hl hlive] at hstale; cases hstale
      · rw [hns] at hstale; cases hstale

/-- **Fencing.** In a run whose calls are all allowed, a job that is done stays done, and a worker
whose lease was taken over changes nothing. -/
theorem run_fenced (jobs : List Job) (hn : (jobs.map (·.id)).Nodup) (now : ℕ) (es : List Event)
    (ha : ∀ t ∈ taken step (start jobs now) es, Allowed t.1 t.2) :
    ∀ t ∈ taken step (start jobs now) es, TerminalKept t.1 (step t.1 t.2) ∧ StaleInert t.1 t.2 := by
  intro t ht
  have hinv : Inv t.1 := invariant_of_steps (fun _ _ => inv_step) es _ (start_inv hn now) ha t.1
    (mem_visited_of_mem_taken step ht)
  exact ⟨terminalKept_step hinv (ha t ht), staleInert_step hinv (ha t ht)⟩

end

/-! ### A late worker -/

/-- A reward job, as it is enqueued. -/
def rewardJob : Job where
  id := "job_1"
  jobType := "reward"
  status := .queued
  userId := "user_1"
  attempts := 0
  maxAttempts := 3
  createdAt := 0
  updatedAt := 0

/-- The worker of the first lease is late: the second one has completed the job when it fails. -/
def lateRun : List Event :=
  [.lease {} {}, .tick 61000, .lease {} {}, .call 1 .complete, .call 0 (.fail "timeout" false)]

theorem run_fenced_twoWorkers :
    TerminalKept (final step (start [rewardJob] 0) (lateRun.take 4))
        (step (final step (start [rewardJob] 0) (lateRun.take 4)) (.call 0 .complete)) ∧
      StaleInert (final step (start [rewardJob] 0) (lateRun.take 4)) (.call 0 .complete) :=
  run_fenced [rewardJob] (by decide +kernel) 0 (lateRun.take 4 ++ [.call 0 .complete])
    (by decide +kernel) _ (last_mem_taken step (lateRun.take 4) _ (.call 0 .complete))

/-- Its call fails the job that has succeeded. -/
theorem lateRun_not_kept : ¬ ∀ (jobs : List Job), (jobs.map (·.id)).Nodup → ∀ (now : ℕ)
    (es : List Event), ∀ t ∈ taken step (start jobs now) es,
      TerminalKept t.1 (step t.1 t.2) ∧ StaleInert t.1 t.2 := by
  intro h
  have hlast := (h [rewardJob] (by decide +kernel) 0 lateRun _ (last_mem_taken step (lateRun.take 4)
    _ (.call 0 (.fail "timeout" false)))).1 "job_1" .succeeded (by decide +kernel) rfl
  revert hlast
  decide +kernel

end Memmy.Storage.Leases
