import Memmy.Lib.Run
import Memmy.Storage.Jobs

/-! # The embedding retries

The table `embedding_retry_queue` has one row for a vector of a memory. A worker claims the rows that
are due and settles each claim with one of the three marks, which name the worker and the end of its
lease. `State` remembers the claims, the newest first, and the numbers of the settled ones.

* `enqueueEmbeddingRetry`: a new row, or the row of the target written anew.
* `claimDueEmbeddingRetries`, `markClaimed`: a claim and its settlement.
* `noneStranded_iff`: no row is stranded exactly if no row in progress is enqueued again.
* `markFenced_of_inv`: a mark takes effect only for the current claim, once. -/

namespace Memmy.Storage.EmbeddingRetries

open Lib.Rows Lib.Run Lib.Sort List Option
open Memmy.Storage.Jobs (MemoryInfo Surroundings isAgentSource isOnboardingFirstReport)

/-! ### Rows -/

inductive TargetKind where
  | trace
  | policy
  | worldModel
  | skill
  deriving DecidableEq, Repr

inductive VectorField where
  | vecSummary
  | vecAction
  | vec
  deriving DecidableEq, Repr

inductive EmbedRole where
  | document
  | query
  deriving DecidableEq, Repr

inductive RetryStatus where
  | pending
  | inProgress
  | failed
  | succeeded
  deriving DecidableEq, Repr

namespace RetryStatus

/-- `status IN ('failed', 'succeeded')`. -/
def isSettled : RetryStatus → Bool
  | failed | succeeded => true
  | pending | inProgress => false

end RetryStatus

structure EmbeddingRetry where
  id : String
  targetKind : TargetKind
  targetId : String
  vectorField : VectorField
  sourceText : String
  embedRole : EmbedRole
  status : RetryStatus
  attempts : ℕ
  maxAttempts : ℕ
  nextAttemptAt : ℕ
  claimedBy : Option String
  leaseUntil : Option ℕ
  lastError : Option String
  createdAt : ℕ
  updatedAt : ℕ
  deriving DecidableEq, Repr

/-! ### Operations -/

structure EnqueueInput where
  id : String
  targetKind : TargetKind
  targetId : String
  vectorField : VectorField
  sourceText : String
  embedRole : Option EmbedRole := none
  maxAttempts : Option ℕ := none

def newRow (input : EnqueueInput) (now : ℕ) : EmbeddingRetry where
  id := input.id
  targetKind := input.targetKind
  targetId := input.targetId
  vectorField := input.vectorField
  sourceText := if input.sourceText = "" then "(empty)" else input.sourceText
  embedRole := input.embedRole.getD .document
  status := .pending
  attempts := 0
  maxAttempts := input.maxAttempts.getD 6
  nextAttemptAt := now
  claimedBy := none
  leaseUntil := none
  lastError := none
  createdAt := now
  updatedAt := now

/-- `UNIQUE (target_kind, target_id, vector_field)`. -/
def sameTarget (a b : EmbeddingRetry) : Bool :=
  a.targetKind = b.targetKind && a.targetId = b.targetId && a.vectorField = b.vectorField

/-- `ON CONFLICT DO UPDATE`: the claim is dropped, the status of a row in progress stays. -/
def upsertedRow (excluded row : EmbeddingRetry) : EmbeddingRetry :=
  { row with
    sourceText := excluded.sourceText
    embedRole := excluded.embedRole
    status := if row.status.isSettled then .pending else row.status
    attempts := if row.status.isSettled then 0 else row.attempts
    maxAttempts := excluded.maxAttempts
    nextAttemptAt := min row.nextAttemptAt excluded.nextAttemptAt
    claimedBy := none
    leaseUntil := none
    lastError := if row.status.isSettled then none else row.lastError
    updatedAt := excluded.updatedAt }

def enqueueEmbeddingRetry (input : EnqueueInput) (now : ℕ) (rows : List EmbeddingRetry) :
    Except String (List EmbeddingRetry) :=
  let new := newRow input now
  if rows.any (sameTarget new) then .ok (update (sameTarget new) (upsertedRow new) rows)
  else if rows.any fun row => row.id = new.id then
    .error "UNIQUE constraint failed: embedding_retry_queue.id"
  else .ok (rows ++ [new])

def targetMemory (w : Surroundings) (row : EmbeddingRetry) : Option MemoryInfo :=
  w.memories.find? fun m => m.id = row.targetId

def retryPriority (w : Surroundings) (row : EmbeddingRetry) : ℤ :=
  match targetMemory w row with
  | none => 2
  | some m =>
    if isOnboardingFirstReport m then -100
    else if row.targetKind = .trace ∧ m.memoryLayer = "L1" then (if isAgentSource m then 1 else 0)
    else 2

/-- `embeddingRetryOrderSql`; a row without a memory comes last in its tier. -/
def embeddingRetryOrder (w : Surroundings) : EmbeddingRetry → EmbeddingRetry → Ordering :=
  compareLex (ascending (retryPriority w))
    (compareLex (descending fun row => ((targetMemory w row).map fun m => m.createdAt + 1).getD 0)
      (compareLex (ascending (·.nextAttemptAt)) (ascending (·.createdAt))))

/-- The condition under which a row can be claimed. -/
def isDue (now : ℕ) (row : EmbeddingRetry) : Bool :=
  (row.status = .pending || row.status = .inProgress && row.leaseUntil.any fun t => t ≤ now) &&
    decide (row.nextAttemptAt ≤ now)

structure ClaimInput where
  workerId : String
  leaseUntil : ℕ
  limit : ℕ := 25
  targetMemoryIds : Option (List String) := none

def claimRows (w : Surroundings) (input : ClaimInput) (now : ℕ) (rows : List EmbeddingRetry) :
    List EmbeddingRetry :=
  if input.targetMemoryIds = some [] then []
  else
    (sortBy (embeddingRetryOrder w) (rows.filter fun row => isDue now row &&
      input.targetMemoryIds.all fun ids => decide (row.targetId ∈ ids))).take
        (max 1 (min 200 input.limit))

def claimedRow (input : ClaimInput) (now : ℕ) (row : EmbeddingRetry) : EmbeddingRetry :=
  { row with
    status := .inProgress
    claimedBy := some input.workerId
    leaseUntil := some input.leaseUntil
    updatedAt := now }

/-- The table and the rows that the worker gets. -/
def claimDueEmbeddingRetries (w : Surroundings) (input : ClaimInput) (now : ℕ)
    (rows : List EmbeddingRetry) : List EmbeddingRetry × List EmbeddingRetry :=
  let claimed := claimRows w input now rows
  (update (fun row => decide (row.id ∈ claimed.map (·.id)) && isDue now row) (claimedRow input now)
      rows,
    claimed.map (claimedRow input now))

/-- How a worker settles a claim. -/
inductive Mark where
  | retry (attempts nextAttemptAt : ℕ) (error : String)
  | failed (attempts : ℕ) (error : String)
  | succeeded
  deriving DecidableEq, Repr

def markedRow (now : ℕ) (row : EmbeddingRetry) : Mark → EmbeddingRetry
  | .retry attempts nextAttemptAt error =>
    { row with
      status := .pending
      attempts := attempts
      nextAttemptAt := nextAttemptAt
      claimedBy := none
      leaseUntil := none
      lastError := some error
      updatedAt := now }
  | .failed attempts error =>
    { row with
      status := .failed
      attempts := attempts
      claimedBy := none
      leaseUntil := none
      lastError := some error
      updatedAt := now }
  | .succeeded =>
    { row with
      status := .succeeded
      nextAttemptAt := now
      claimedBy := none
      leaseUntil := none
      updatedAt := now }

/-- `isEmbeddingRetryClaimHeld`, the condition of every mark. -/
def claimHeld (id workerId : String) (leaseUntil : ℕ) (row : EmbeddingRetry) : Bool :=
  row.id = id && row.status = .inProgress && row.claimedBy = some workerId &&
    row.leaseUntil = some leaseUntil

/-- The three `markEmbeddingRetry*Claimed`. -/
def markClaimed (id workerId : String) (leaseUntil : ℕ) (mark : Mark) (now : ℕ)
    (rows : List EmbeddingRetry) : List EmbeddingRetry :=
  update (claimHeld id workerId leaseUntil) (fun row => markedRow now row mark) rows

/-! ### The machine -/

/-- A claim that a worker was given. -/
structure Claim where
  number : ℕ
  rowId : String
  workerId : String
  leaseUntil : ℕ
  deriving DecidableEq, Repr

structure State where
  rows : List EmbeddingRetry := []
  now : ℕ
  claims : List Claim := []
  settled : List ℕ := []

inductive Event where
  | tick (ms : ℕ)
  | enqueue (input : EnqueueInput)
  | claim (w : Surroundings) (input : ClaimInput)
  | mark (id workerId : String) (leaseUntil : ℕ) (mark : Mark)

/-- The current claim of a row is the last one. -/
def currentClaim (s : State) (id : String) : Option Claim := s.claims.find? fun c => c.rowId = id

def newClaims (s : State) (input : ClaimInput) (rows : List EmbeddingRetry) : List Claim :=
  rows.mapIdx fun i row => ⟨s.claims.length + i, row.id, input.workerId, input.leaseUntil⟩

def step (s : State) : Event → State
  | .tick ms => { s with now := s.now + ms }
  | .enqueue input =>
    { s with rows := (enqueueEmbeddingRetry input s.now s.rows).toOption.getD s.rows }
  | .claim w input =>
    let (rows, claimed) := claimDueEmbeddingRetries w input s.now s.rows
    { s with rows := rows, claims := newClaims s input claimed ++ s.claims }
  | .mark id workerId leaseUntil mark =>
    { s with
      rows := markClaimed id workerId leaseUntil mark s.now s.rows
      settled := if s.rows.any (claimHeld id workerId leaseUntil)
        then s.settled ++ ((currentClaim s id).map (·.number)).toList else s.settled }

def start (now : ℕ) : State := { now }

/-! ### No row is stranded -/

/-- Every row that is not settled can be claimed at some later time. -/
def NoneStranded (s : State) : Prop :=
  ∀ row ∈ s.rows, row.status.isSettled = false → ∃ now, s.now ≤ now ∧ isDue now row = true

/-- The rows that an enqueued retry is written into are not in progress. -/
def EnqueuesFree (s : State) : Event → Prop
  | .enqueue input => ∀ row ∈ s.rows, sameTarget (newRow input s.now) row = true → row.status ≠ .inProgress
  | _ => True

instance (s : State) : ∀ e : Event, Decidable (EnqueuesFree s e)
  | .enqueue input => inferInstanceAs (Decidable (∀ row ∈ s.rows,
      sameTarget (newRow input s.now) row = true → row.status ≠ .inProgress))
  | .tick _ => .isTrue trivial
  | .claim _ _ => .isTrue trivial
  | .mark _ _ _ _ => .isTrue trivial

theorem claimable_iff {row : EmbeddingRetry} {now : ℕ} :
    (∃ later, now ≤ later ∧ isDue later row = true) ↔
      row.status = .pending ∨ row.status = .inProgress ∧ row.leaseUntil.isSome = true := by
  simp only [isDue, Bool.and_eq_true, Bool.or_eq_true, decide_eq_true_eq, Option.any_eq_true]
  constructor
  · rintro ⟨later, -, hs | ⟨hs, t, ht, -⟩, -⟩
    · exact Or.inl hs
    · exact Or.inr ⟨hs, by rw [ht]; rfl⟩
  · rintro (hs | ⟨hs, hl⟩)
    · exact ⟨max now row.nextAttemptAt, by omega, Or.inl hs, by omega⟩
    · obtain ⟨t, ht⟩ := isSome_iff_exists.mp hl
      exact ⟨max now (max t row.nextAttemptAt), by omega, Or.inr ⟨hs, t, ht, by omega⟩, by omega⟩

/-- A row is settled, pending, or in progress with a lease. -/
def Sound (row : EmbeddingRetry) : Prop := row.status = .inProgress → row.leaseUntil.isSome = true

theorem noneStranded_iff_sound {s : State} : NoneStranded s ↔ ∀ row ∈ s.rows, Sound row := by
  refine forall_congr' fun row => forall_congr' fun _ => ?_
  rw [claimable_iff, Sound]
  cases row.status <;> simp [RetryStatus.isSettled]

section
variable {s : State} {e : Event} {rows : List EmbeddingRetry} {input : ClaimInput} {row : EmbeddingRetry}

theorem claimRows_due {w : Surroundings} {now : ℕ}
    (h : row ∈ claimRows w input now rows) : row ∈ rows ∧ isDue now row = true := by
  unfold claimRows at h
  split_ifs at h
  · cases h
  · obtain ⟨hr, hp⟩ := mem_filter.mp ((mem_sortBy _).mp (mem_of_mem_take h))
    exact ⟨hr, (Bool.and_eq_true_iff.mp hp).1⟩

theorem enqueue_cases (rows : List EmbeddingRetry) (input : EnqueueInput) (now : ℕ) :
    (enqueueEmbeddingRetry input now rows).toOption.getD rows =
        update (sameTarget (newRow input now)) (upsertedRow (newRow input now)) rows ∨
      (enqueueEmbeddingRetry input now rows).toOption.getD rows = rows ∨
      (enqueueEmbeddingRetry input now rows).toOption.getD rows = rows ++ [newRow input now] ∧
        ∀ row ∈ rows, row.id ≠ input.id := by
  unfold enqueueEmbeddingRetry
  dsimp only
  split_ifs with hsame hid
  · exact Or.inl rfl
  · exact Or.inr (Or.inl rfl)
  · refine Or.inr (Or.inr ⟨rfl, fun row hrow he => hid ?_⟩)
    exact any_eq_true.mpr ⟨row, hrow, decide_eq_true he⟩

theorem sound_upserted {excluded : EmbeddingRetry} :
    Sound (upsertedRow excluded row) ↔ row.status ≠ .inProgress := by
  unfold Sound upsertedRow
  cases row.status <;> simp [RetryStatus.isSettled]

theorem sound_marked (now : ℕ) (row : EmbeddingRetry) (mark : Mark) : Sound (markedRow now row mark) := by
  cases mark <;> exact fun h => nomatch h

/-- **Step lemma.** -/
theorem noneStranded_step (h : NoneStranded s) (hfree : EnqueuesFree s e) : NoneStranded (step s e) := by
  rw [noneStranded_iff_sound] at h ⊢
  cases e with
  | tick ms => exact h
  | enqueue input =>
    change ∀ row ∈ (enqueueEmbeddingRetry input s.now s.rows).toOption.getD s.rows, Sound row
    rcases enqueue_cases s.rows input s.now with he | he | ⟨he, -⟩
    · rw [he]
      intro row' hrow'
      obtain ⟨row, hrow, ⟨hp, rfl⟩ | ⟨-, rfl⟩⟩ := mem_update hrow'
      · exact sound_upserted.mpr (hfree row hrow hp)
      · exact h _ hrow
    · rw [he]; exact h
    · rw [he, forall_mem_append]
      exact ⟨h, by rw [forall_mem_singleton]; exact fun hs => nomatch hs⟩
  | claim w input =>
    intro row' hrow'
    obtain ⟨row, hrow, ⟨-, rfl⟩ | ⟨-, rfl⟩⟩ := mem_update hrow'
    · exact fun _ => rfl
    · exact h _ hrow
  | mark id workerId leaseUntil mark =>
    intro row' hrow'
    obtain ⟨row, hrow, ⟨-, rfl⟩ | ⟨-, rfl⟩⟩ := mem_update hrow'
    · exact sound_marked _ _ _
    · exact h _ hrow

/-- A row in progress that is enqueued again loses its lease and keeps its status. -/
theorem enqueuesFree_of_step (h : NoneStranded (step s e)) : EnqueuesFree s e := by
  rw [noneStranded_iff_sound] at h
  cases e with
  | enqueue input =>
    intro row hrow hp
    have hany : s.rows.any (sameTarget (newRow input s.now)) = true := any_eq_true.mpr ⟨row, hrow, hp⟩
    have hrows : (step s (.enqueue input)).rows =
        update (sameTarget (newRow input s.now)) (upsertedRow (newRow input s.now)) s.rows := by
      simp only [step, enqueueEmbeddingRetry, if_pos hany]
      rfl
    rw [hrows] at h
    exact sound_upserted.mp (h _ (mem_map.mpr ⟨row, hrow, if_pos hp⟩))
  | _ => trivial

/-! ### A claim is settled once -/

/-- A mark changes the table only for the worker of the current claim, and while that is open. -/
def MarkFenced (s : State) : Event → Prop
  | .mark id workerId leaseUntil mark =>
    (step s (.mark id workerId leaseUntil mark)).rows ≠ s.rows →
      ∃ c, currentClaim s id = some c ∧ c.workerId = workerId ∧ c.leaseUntil = leaseUntil ∧ c.number ∉ s.settled
  | _ => True

structure Inv (s : State) : Prop where
  nodup_ids : (s.rows.map (·.id)).Nodup
  numbers : (s.claims.map (·.number)).Nodup
  number_lt : ∀ c ∈ s.claims, c.number < s.claims.length
  settled_lt : ∀ n ∈ s.settled, n < s.claims.length
  settled_nodup : s.settled.Nodup
  held : ∀ row ∈ s.rows, ∀ workerId leaseUntil,
    claimHeld row.id workerId leaseUntil row = true →
      ∃ c, currentClaim s row.id = some c ∧ c.workerId = workerId ∧ c.leaseUntil = leaseUntil ∧
        c.number ∉ s.settled

theorem start_inv (now : ℕ) : Inv (start now) :=
  ⟨nodup_nil, nodup_nil, by simp [start], by simp [start], nodup_nil, fun _ h => nomatch h⟩

theorem claimHeld_iff {id workerId : String} {leaseUntil : ℕ} :
    claimHeld id workerId leaseUntil row = true ↔ row.id = id ∧ row.status = .inProgress ∧
      row.claimedBy = some workerId ∧ row.leaseUntil = some leaseUntil := by
  simp [claimHeld, and_assoc]

theorem currentClaim_row {id : String} {c : Claim} (h : currentClaim s id = some c) :
    c ∈ s.claims ∧ c.rowId = id := by
  have hid := find?_some h
  exact ⟨mem_of_find?_eq_some h, of_decide_eq_true hid⟩

theorem inv_enqueue (hinv : Inv s) (input : EnqueueInput) : Inv (step s (.enqueue input)) := by
  obtain ⟨hids, hnum, hlt, hslt, hsnodup, hheld⟩ := hinv
  refine ⟨?_, hnum, hlt, hslt, hsnodup, ?_⟩
  · change (((enqueueEmbeddingRetry input s.now s.rows).toOption.getD s.rows).map (·.id)).Nodup
    rcases enqueue_cases s.rows input s.now with he | he | ⟨he, hnew⟩
    · rw [he, map_update (f := upsertedRow _) (g := EmbeddingRetry.id) fun _ => rfl]; exact hids
    · rw [he]; exact hids
    · rw [he, map_append]
      refine nodup_append.mpr ⟨hids, nodup_singleton _, ?_⟩
      rintro id hid id' hid' rfl
      obtain ⟨row, hrow, hrid⟩ := mem_map.mp hid
      exact hnew row hrow (hrid.trans (mem_singleton.mp hid'))
  · change ∀ row ∈ (enqueueEmbeddingRetry input s.now s.rows).toOption.getD s.rows, _
    rcases enqueue_cases s.rows input s.now with he | he | ⟨he, -⟩
    · rw [he]
      intro row' hrow' workerId leaseUntil hh
      obtain ⟨row, hrow, ⟨-, rfl⟩ | ⟨-, rfl⟩⟩ := mem_update hrow'
      · exact nomatch (claimHeld_iff.mp hh).2.2.1
      · exact hheld _ hrow _ _ hh
    · rw [he]; exact hheld
    · rw [he, forall_mem_append, forall_mem_singleton]
      exact ⟨hheld, fun _ _ hh => nomatch (claimHeld_iff.mp hh).2.1⟩

theorem mem_newClaims {c : Claim} (h : c ∈ newClaims s input rows) :
    s.claims.length ≤ c.number ∧ c.number < s.claims.length + rows.length ∧
      c.workerId = input.workerId ∧ c.leaseUntil = input.leaseUntil ∧
      ∃ row ∈ rows, row.id = c.rowId := by
  obtain ⟨i, hi, rfl⟩ := mem_mapIdx.mp h
  exact ⟨by simp, by simpa using hi, rfl, rfl, rows[i], getElem_mem hi, rfl⟩

theorem nodup_newClaims (input : ClaimInput) : ((newClaims s input rows).map (·.number)).Nodup := by
  rw [List.Nodup, pairwise_iff_getElem]
  simp only [newClaims, getElem_map, getElem_mapIdx]
  omega

theorem currentClaim_new (s : State) (input : ClaimInput) (hrow : row ∈ rows) :
    ∃ c, (newClaims s input rows ++ s.claims).find? (fun c => c.rowId = row.id) = some c ∧
      c ∈ newClaims s input rows := by
  obtain ⟨i, hi, rfl⟩ := mem_iff_getElem.mp hrow
  have hmem : (⟨s.claims.length + i, rows[i].id, input.workerId, input.leaseUntil⟩ : Claim) ∈
      newClaims s input rows := mem_mapIdx.mpr ⟨i, hi, rfl⟩
  cases hf : (newClaims s input rows).find? fun c => c.rowId = rows[i].id with
  | none => exact absurd (decide_eq_true rfl) (find?_eq_none.mp hf _ hmem)
  | some c => exact ⟨c, by rw [find?_append, hf]; rfl, mem_of_find?_eq_some hf⟩

theorem currentClaim_old {id : String} (h : ∀ row ∈ rows, row.id ≠ id) :
    (newClaims s input rows ++ s.claims).find? (fun c => c.rowId = id) = currentClaim s id := by
  rw [find?_append]
  have : (newClaims s input rows).find? (fun c => c.rowId = id) = none := by
    refine find?_eq_none.mpr fun c hc he => ?_
    obtain ⟨-, -, -, -, row, hrow, hid⟩ := mem_newClaims hc
    exact h row hrow (hid.trans (of_decide_eq_true he))
  rw [this]
  rfl

theorem inv_claim (hinv : Inv s) (w : Surroundings) (input : ClaimInput) : Inv (step s (.claim w input)) := by
  obtain ⟨hids, hnum, hlt, hslt, hsnodup, hheld⟩ := hinv
  have hlen : ∀ rows : List EmbeddingRetry, (newClaims s input rows ++ s.claims).length =
      rows.length + s.claims.length := fun rows => by simp [newClaims]
  refine ⟨?_, ?_, ?_, ?_, hsnodup, ?_⟩
  · change ((update _ _ s.rows).map (·.id)).Nodup
    rw [map_update (f := claimedRow input s.now) (g := EmbeddingRetry.id) fun _ => rfl]
    exact hids
  · change ((newClaims s input _ ++ s.claims).map (·.number)).Nodup
    rw [map_append]
    refine nodup_append.mpr ⟨nodup_newClaims input, hnum, ?_⟩
    rintro n hn n' hn' rfl
    obtain ⟨c, hc, rfl⟩ := mem_map.mp hn
    obtain ⟨c', hc', he⟩ := mem_map.mp hn'
    have hge := (mem_newClaims hc).1
    have hlt' := hlt c' hc'
    omega
  · change ∀ c ∈ newClaims s input _ ++ s.claims, c.number < (newClaims s input _ ++ s.claims).length
    intro c hc
    rw [hlen]
    rcases mem_append.mp hc with hc | hc
    · have := (mem_newClaims hc).2.1
      omega
    · have := hlt c hc
      omega
  · change ∀ n ∈ s.settled, n < (newClaims s input _ ++ s.claims).length
    intro n hn
    rw [hlen]
    have := hslt n hn
    omega
  · intro row' hrow' workerId leaseUntil hh
    obtain ⟨row, hrow, ⟨hp, rfl⟩ | ⟨hp, rfl⟩⟩ := mem_update hrow'
    · obtain ⟨hid, hdue⟩ := Bool.and_eq_true_iff.mp hp
      have hsel : row ∈ claimRows w input s.now s.rows :=
        mem_of_key_mem (k := EmbeddingRetry.id) hids (fun r hr => (claimRows_due hr).1) hrow
          (of_decide_eq_true hid)
      obtain ⟨c, hc, hnew⟩ := currentClaim_new s input
        (mem_map_of_mem (f := claimedRow input s.now) hsel)
      obtain ⟨hge, -, hworker, hlease, -⟩ := mem_newClaims hnew
      obtain ⟨-, -, hw, hl⟩ := claimHeld_iff.mp hh
      refine ⟨c, hc, hworker.trans (some.inj hw), hlease.trans (some.inj hl), ?_⟩
      exact fun hmem => absurd (hslt _ hmem) (by omega)
    · have hnot : ∀ r ∈ (claimRows w input s.now s.rows).map (claimedRow input s.now), r.id ≠ row'.id := by
        intro r hr hid
        obtain ⟨r₀, hr₀, rfl⟩ := mem_map.mp hr
        obtain ⟨hmem, hdue⟩ := claimRows_due hr₀
        have : r₀ = row' := eq_of_key_eq (k := EmbeddingRetry.id) hids hmem hrow hid
        subst this
        rw [hdue, Bool.and_true, decide_eq_false_iff_not] at hp
        exact hp (mem_map_of_mem hr₀)
      obtain ⟨c, hc, hrest⟩ := hheld row' hrow workerId leaseUntil hh
      exact ⟨c, (currentClaim_old hnot).trans hc, hrest⟩

theorem markedRow_settled (now : ℕ) (row : EmbeddingRetry) (mark : Mark) :
    (markedRow now row mark).id = row.id ∧ (markedRow now row mark).claimedBy = none := by
  cases mark <;> exact ⟨rfl, rfl⟩

theorem inv_mark (hinv : Inv s) (id workerId : String) (leaseUntil : ℕ) (mark : Mark) :
    Inv (step s (.mark id workerId leaseUntil mark)) := by
  have hinv' := hinv
  obtain ⟨hids, hnum, hlt, hslt, hsnodup, hheld⟩ := hinv'
  have hkeep : ((markClaimed id workerId leaseUntil mark s.now s.rows).map (·.id)).Nodup := by
    unfold markClaimed
    rw [map_update (f := fun row => markedRow s.now row mark) (g := EmbeddingRetry.id)
      fun row => (markedRow_settled s.now row mark).1]
    exact hids
  by_cases hany : s.rows.any (claimHeld id workerId leaseUntil) = true
  · obtain ⟨row, hrow, hh⟩ := any_eq_true.mp hany
    have hrid : row.id = id := (claimHeld_iff.mp hh).1
    obtain ⟨c, hc, -, -, hopen⟩ := hheld row hrow workerId leaseUntil (by rw [hrid]; exact hh)
    rw [hrid] at hc
    have hsettled : (step s (.mark id workerId leaseUntil mark)).settled = s.settled ++ [c.number] := by
      simp only [step, if_pos hany, hc, map_some, toList_some]
    refine ⟨hkeep, hnum, hlt, ?_, ?_, ?_⟩
    · rw [hsettled]
      intro n hn
      rcases mem_append.mp hn with hn | hn
      · exact hslt n hn
      · rw [mem_singleton.mp hn]
        exact hlt c (currentClaim_row hc).1
    · rw [hsettled]
      refine nodup_append.mpr ⟨hsnodup, nodup_singleton _, ?_⟩
      rintro n hn n' hn' rfl
      exact hopen (mem_singleton.mp hn' ▸ hn)
    · rw [hsettled]
      intro row' hrow' workerId' leaseUntil' hh'
      obtain ⟨r, hr, ⟨-, rfl⟩ | ⟨hp, rfl⟩⟩ := mem_update hrow'
      · exact nomatch (claimHeld_iff.mp hh').2.2.1.symm.trans (markedRow_settled s.now r mark).2
      · obtain ⟨c', hc', hw', hl', hopen'⟩ := hheld row' hr workerId' leaseUntil' hh'
        refine ⟨c', hc', hw', hl', fun hmem => ?_⟩
        rcases mem_append.mp hmem with hmem | hmem
        · exact hopen' hmem
        · -- the claim just settled is on another row
          have heq : c' = c := eq_of_key_eq (k := Claim.number) hnum
            (currentClaim_row hc').1 (currentClaim_row hc).1
            (mem_singleton.mp hmem)
          have h₁ : c'.rowId = row'.id := (currentClaim_row hc').2
          have h₂ : c.rowId = id := (currentClaim_row hc).2
          have hsame : row = row' := eq_of_key_eq (k := EmbeddingRetry.id) hids hrow hr
            (by rw [hrid, ← h₂, ← heq, h₁])
          rw [← hsame, hh] at hp
          cases hp
  · have hnone : ∀ r ∈ s.rows, claimHeld id workerId leaseUntil r = false := by
      simpa using hany
    have hrows : (step s (.mark id workerId leaseUntil mark)).rows = s.rows := update_eq_self hnone
    have hsettled : (step s (.mark id workerId leaseUntil mark)).settled = s.settled := by
      simp only [step, if_neg hany]
    exact ⟨hkeep, hnum, hlt, by rw [hsettled]; exact hslt, by rw [hsettled]; exact hsnodup,
      by rw [hsettled, hrows]; exact hheld⟩

/-- **Step lemma.** -/
theorem inv_step (hinv : Inv s) : Inv (step s e) := by
  cases e with
  | tick ms => exact ⟨hinv.1, hinv.2, hinv.3, hinv.4, hinv.5, hinv.6⟩
  | enqueue input => exact inv_enqueue hinv input
  | claim w input => exact inv_claim hinv w input
  | mark id workerId leaseUntil mark => exact inv_mark hinv id workerId leaseUntil mark

theorem markFenced_of_inv (hinv : Inv s) : MarkFenced s e := by
  cases e with
  | mark id workerId leaseUntil mark =>
    intro hchange
    obtain ⟨row, hrow, hh⟩ : ∃ row ∈ s.rows, claimHeld id workerId leaseUntil row = true := by
      by_contra hnone
      refine hchange (update_eq_self fun row hrow => ?_)
      exact Bool.eq_false_iff.mpr fun hh => hnone ⟨row, hrow, hh⟩
    have hrid : row.id = id := (claimHeld_iff.mp hh).1
    have := hinv.held row hrow workerId leaseUntil (by rw [hrid]; exact hh)
    rwa [hrid] at this
  | _ => trivial

/-- **Retries.** In a run from the empty table no row is stranded, in any state, exactly if no row in
progress is enqueued again; and a mark takes effect only for the current claim, each of them once. -/
theorem noneStranded_iff (now : ℕ) (es : List Event) :
    ((∀ s ∈ visited step (start now) es, NoneStranded s) ↔
      ∀ t ∈ taken step (start now) es, EnqueuesFree t.1 t.2) ∧
    (∀ t ∈ taken step (start now) es, MarkFenced t.1 t.2) ∧
    ∀ s ∈ visited step (start now) es, s.settled.Nodup := by
  have hinv : ∀ s ∈ visited step (start now) es, Inv s := invariant (fun _ _ => inv_step) es _ (start_inv now)
  refine ⟨?_, fun t ht => ?_, fun s hs => (hinv s hs).settled_nodup⟩
  · exact invariant_iff_steps (fun _ _ => noneStranded_step) (fun _ _ => enqueuesFree_of_step) es _
      fun _ h => nomatch h
  · exact markFenced_of_inv (hinv t.1 (mem_visited_of_mem_taken step ht))

end

/-! ### A retry enqueued while it is in progress -/

def retryInput : EnqueueInput where
  id := "embed_retry_1"
  targetKind := .trace
  targetId := "memory_1"
  vectorField := .vecSummary
  sourceText := "text"

def reenqueueRun : List Event :=
  [.enqueue retryInput, .claim {} { workerId := "worker_1", leaseUntil := 300000 }, .enqueue retryInput]

/-- Its row stays in progress without a lease. -/
theorem reenqueueRun_stranded : ¬ ∀ (now : ℕ) (es : List Event),
    (∀ s ∈ visited step (start now) es, NoneStranded s) ∧
    (∀ t ∈ taken step (start now) es, MarkFenced t.1 t.2) ∧
    ∀ s ∈ visited step (start now) es, s.settled.Nodup := by
  intro h
  have hlast := (h 0 reenqueueRun).1 _ (final_mem_visited step reenqueueRun (start 0))
  have hrow : ∃ row ∈ (final step (start 0) reenqueueRun).rows, row.status = .inProgress ∧
      row.leaseUntil = none := by decide +kernel
  obtain ⟨row, hmem, hs, hl⟩ := hrow
  have := noneStranded_iff_sound.mp hlast row hmem hs
  rw [hl] at this
  cases this

end Memmy.Storage.EmbeddingRetries
