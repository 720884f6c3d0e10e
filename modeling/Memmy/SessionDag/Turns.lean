import Mathlib.Data.List.Find
import Memmy.SessionDag.History
import Memmy.SessionDag.Queue

/-! # The table of turns

What the writes of the queue do to the rows: each keeps the ids and the message ranges (`Keeps`), but for a
turn that is enqueued for the first time. A claim takes the turn that begins first among those that may be
claimed.

* `upsertTurn_stored`, `upsertTurn_new`: an enqueue.
* `claimNextTurn_cases`: a claim.
* `turns_of_commits`: a committed patch. -/

namespace Memmy.SessionDag.Turns

open Lib.JsonValue Lib.Sort SessionDag.Types SessionDag.Store SessionDag.Builder List
  SessionDag.Invariant SessionDag.History

/-! ### Rows -/

/-- The write keeps the id and the range of a row. -/
structure Keeps (f : DagTurn → DagTurn) (t : DagTurn) : Prop where
  id : (f t).turnId = t.turnId
  start : (f t).messageStart = t.messageStart
  stop : (f t).messageEnd = t.messageEnd

def written (turnId : String) (g : DagTurn → DagTurn) (t : DagTurn) : DagTurn :=
  if t.turnId = turnId then g t else t

theorem keeps_written (turnId : String) {g : DagTurn → DagTurn} (hg : ∀ t, Keeps g t) (t : DagTurn) :
    Keeps (written turnId g) t := by
  obtain ⟨h1, h2, h3⟩ := hg t
  unfold written
  refine ⟨?_, ?_, ?_⟩ <;> split_ifs <;> first | assumption | rfl

/-- **A table in message order**: one row for each turn, with a range, and no two ranges overlap. -/
structure Table (turns : List DagTurn) : Prop where
  ids : (turns.map (·.turnId)).Nodup
  ranges : ∀ t ∈ turns, t.messageStart < t.messageEnd
  apart : ∀ t ∈ turns, ∀ u ∈ turns, t.turnId ≠ u.turnId →
    t.messageEnd ≤ u.messageStart ∨ u.messageEnd ≤ t.messageStart

section Table
variable {turns : List DagTurn}

theorem table_nil : Table [] := ⟨nodup_nil, by simp, by simp⟩

theorem Table.eq_of_id (h : Table turns) {t u : DagTurn} (ht : t ∈ turns) (hu : u ∈ turns)
    (hid : t.turnId = u.turnId) : t = u :=
  inj_on_of_nodup_map h.ids ht hu hid

theorem Table.map (h : Table turns) {f : DagTurn → DagTurn} (hf : ∀ t ∈ turns, Keeps f t) :
    Table (turns.map f) where
  ids := by
    rw [map_map, show (turns.map ((·.turnId) ∘ f)) = turns.map (·.turnId) from
      map_congr_left fun t ht => (hf t ht).id]
    exact h.ids
  ranges := by
    intro t ht
    obtain ⟨t', ht', rfl⟩ := mem_map.mp ht
    rw [(hf t' ht').start, (hf t' ht').stop]
    exact h.ranges t' ht'
  apart := by
    intro t ht u hu hne
    obtain ⟨t', ht', rfl⟩ := mem_map.mp ht
    obtain ⟨u', hu', rfl⟩ := mem_map.mp hu
    rw [(hf t' ht').id, (hf u' hu').id] at hne
    rw [(hf t' ht').start, (hf t' ht').stop, (hf u' hu').start, (hf u' hu').stop]
    exact h.apart t' ht' u' hu' hne

/-- A turn that begins where all others have ended. -/
theorem Table.snoc (h : Table turns) {row : DagTurn} (hnew : ∀ t ∈ turns, t.turnId ≠ row.turnId)
    (hrange : row.messageStart < row.messageEnd)
    (hbehind : ∀ t ∈ turns, t.messageEnd ≤ row.messageStart) : Table (turns ++ [row]) where
  ids := by
    rw [map_append, nodup_append]
    refine ⟨h.ids, nodup_singleton _, fun a ha b hb => ?_⟩
    obtain ⟨t, ht, rfl⟩ := mem_map.mp ha
    rw [mem_singleton.mp hb]
    exact hnew t ht
  ranges := by
    intro t ht
    rcases mem_append.mp ht with ht | ht
    · exact h.ranges t ht
    · rw [mem_singleton.mp ht]
      exact hrange
  apart := by
    intro t ht u hu hne
    rcases mem_append.mp ht with ht | ht <;> rcases mem_append.mp hu with hu | hu
    · exact h.apart t ht u hu hne
    · rw [mem_singleton.mp hu]
      exact Or.inl (hbehind t ht)
    · rw [mem_singleton.mp ht]
      exact Or.inr (hbehind u hu)
    · rw [mem_singleton.mp ht, mem_singleton.mp hu] at hne
      exact absurd rfl hne

end Table

/-! ### Reading -/

section Reading
variable {db db' : Db} {f : DagTurn → DagTurn}

theorem getTurn_eq_none {turnId : String} (h : getTurn db turnId = none) :
    ∀ t ∈ db.turns, t.turnId ≠ turnId := fun t ht hid =>
  find?_eq_none.mp h t ht (decide_eq_true hid)

theorem getTurn_of_mem (h : Table db.turns) {t : DagTurn} (ht : t ∈ db.turns) :
    getTurn db t.turnId = some t := by
  cases hg : getTurn db t.turnId with
  | none => exact absurd rfl (getTurn_eq_none hg t ht)
  | some u =>
    obtain ⟨hu, hid⟩ := getTurn_eq_some hg
    rw [h.eq_of_id hu ht hid]

theorem getTurn_map (hturns : db'.turns = db.turns.map f) (hf : ∀ t ∈ db.turns, Keeps f t)
    (turnId : String) : getTurn db' turnId = (getTurn db turnId).map f := by
  unfold getTurn
  rw [hturns, find?_map]
  congr 1
  refine find?_congr fun t ht => ?_
  simp only [Function.comp_apply, (hf t ht).id]

theorem getMeta_setMeta (db : Db) (key value : String) : getMeta (setMeta db key value) key = some value := by
  simp [getMeta, setMeta]

theorem getMeta_setMeta_of_ne (db : Db) {key key' : String} (hne : key' ≠ key) (value : String) :
    getMeta (setMeta db key value) key' = getMeta db key' := by
  unfold getMeta setMeta
  rw [find?_cons_of_neg (by simpa using hne.symm), find?_filter]
  congr 1
  refine find?_congr fun r _ => ?_
  by_cases hr : r.1 = key'
  · simp [hr, hne]
  · simp [hr]

end Reading

/-! ### Enqueuing -/

section Enqueue
variable {db db₁ : Db} {input : DagTurnInput} {now : ℕ} {row : DagTurn}

/-- **Enqueuing a stored turn** with its own range. -/
theorem upsertTurn_stored (h : Table db.turns) {old : DagTurn} (hold : getTurn db input.turnId = some old)
    (hstart : integer? input.messageStart = some old.messageStart)
    (hstop : integer? input.messageEnd = some old.messageEnd)
    (hop : upsertTurn db input now = .ok (db₁, row)) :
    db₁.metaRows = db.metaRows ∧ ∃ f, db₁.turns = db.turns.map f ∧
      ∀ t ∈ db.turns, Keeps f t ∧ (f t).dagStatus = t.dagStatus := by
  unfold upsertTurn at hop
  rw [hstart, hstop] at hop
  dsimp only at hop
  split_ifs at hop with hrange
  rw [hold] at hop
  cases hop
  refine ⟨rfl, _, rfl, fun t ht => ?_⟩
  by_cases hid : t.turnId = input.turnId
  · obtain ⟨hmem, hid'⟩ := getTurn_eq_some hold
    have heq := h.eq_of_id ht hmem (hid.trans hid'.symm)
    subst heq
    refine ⟨⟨?_, ?_, ?_⟩, ?_⟩ <;> rw [if_pos hid] <;> rfl
  · refine ⟨⟨?_, ?_, ?_⟩, ?_⟩ <;> rw [if_neg hid]

/-- **Enqueuing a new turn.** -/
theorem upsertTurn_new (hnone : getTurn db input.turnId = none)
    (hop : upsertTurn db input now = .ok (db₁, row)) :
    db₁.metaRows = db.metaRows ∧ db₁.turns = db.turns ++ [row] ∧
      integer? input.messageStart = some row.messageStart ∧ row.messageStart < row.messageEnd ∧
      row.turnId = input.turnId ∧ row.dagStatus = .pending := by
  unfold upsertTurn at hop
  split at hop
  · next start stop hstart hstop =>
    split_ifs at hop with hrange
    rw [hnone] at hop
    cases hop
    refine ⟨rfl, rfl, hstart, ?_, rfl, rfl⟩
    change start < stop
    omega
  · cases hop

theorem integer?_intCast (z : ℤ) : integer? (.finite z) = some z := by
  simp [integer?]

end Enqueue

/-! ### Claiming -/

section Claim
variable {db : Db} {now : ℕ}

/-- `releaseRunning`, on one row. -/
def released (now : ℕ) (t : DagTurn) : DagTurn :=
  if t.dagStatus = .running then
    { t with dagStatus := .retry, runningStartedAt := none, updatedAt := now }
  else t

theorem keeps_released (t : DagTurn) : Keeps (released now) t := by
  unfold released
  refine ⟨?_, ?_, ?_⟩ <;> split_ifs <;> rfl

theorem released_done {t : DagTurn} : (released now t).dagStatus = .done ↔ t.dagStatus = .done := by
  unfold released
  split_ifs with hr
  · rw [hr]
    simp
  · rfl

def claimedRow (now : ℕ) (t : DagTurn) : DagTurn :=
  { t with dagStatus := .running, runningStartedAt := some now, updatedAt := now }

theorem keeps_claimedRow (now : ℕ) (turnId : String) (t : DagTurn) : Keeps (written turnId (claimedRow now)) t :=
  keeps_written turnId (g := claimedRow now) (fun _ => ⟨rfl, rfl, rfl⟩) t

theorem table_releaseRunning (now : ℕ) (h : Table db.turns) : Table (releaseRunning db now).turns :=
  Table.map (f := released now) h fun t _ => keeps_released t

/-- **A claim takes the turn that begins first**, of those that may be claimed. -/
theorem claimNextTurn_cases (now : ℕ) (h : Table db.turns) :
    (claimNextTurn db now).1.metaRows = db.metaRows ∧
      (((claimNextTurn db now).2 = none ∧
        (claimNextTurn db now).1.turns = db.turns.map (released now)) ∨
      ∃ row ∈ (releaseRunning db now).turns, isClaimable now row = true ∧
        (∀ u ∈ (releaseRunning db now).turns, isClaimable now u = true →
          row.messageStart ≤ u.messageStart) ∧
        (claimNextTurn db now).1.turns =
          (releaseRunning db now).turns.map (written row.turnId (claimedRow now)) ∧
        (claimNextTurn db now).2 = some (claimedRow now row)) := by
  unfold claimNextTurn
  dsimp only
  split
  · exact ⟨rfl, Or.inl ⟨rfl, rfl⟩⟩
  · next row hrow =>
    obtain ⟨hmem, hclaim, hfirst⟩ := find?_sortBy (ascending fun t : DagTurn => t.messageStart) hrow
    refine ⟨rfl, Or.inr ⟨row, hmem, hclaim, fun u hu hp => ascending_isLE.mp (hfirst u hu hp), rfl, ?_⟩⟩
    have htable : Table (updateTurn (releaseRunning db now) row.turnId (claimedRow now)).turns :=
      (table_releaseRunning now h).map fun t _ => keeps_claimedRow now row.turnId t
    exact getTurn_of_mem htable (t := claimedRow now row) (mem_map.mpr ⟨row, hmem, if_pos rfl⟩)

end Claim

/-! ### Building -/

section Build
variable {sessionKey : String} {env : Env} {db db' : Db} {turn : DagTurn} {patch : DagPatch}

theorem commits_of_build {parsed : Json} {maxNodes : ℕ} {run : PatchRun}
    (h : buildAndApply sessionKey env maxNodes parsed db turn = some (.ok (db', run))) :
    ∃ patch, Commits sessionKey env db turn patch db' := by
  unfold buildAndApply at h
  split at h
  · cases h
  · next patch hp => exact ⟨patch, .model parsed maxNodes hp, _, _, run, Option.some.inj h⟩

theorem commits_of_fallback {run : PatchRun}
    (h : applyDeterministicFallback sessionKey env db turn = .ok (db', run)) :
    ∃ patch, Commits sessionKey env db turn patch db' :=
  ⟨_, .fallback, _, _, run, h⟩

/-- **A committed patch marks its turn as done**, as the last one processed, and touches no other turn. -/
theorem turns_of_commits (hw : WellFormed sessionKey db) (h : Table db.turns)
    (hc : Commits sessionKey env db turn patch db') {old : DagTurn}
    (hold : getTurn db turn.turnId = some old) (hstart : old.messageStart = turn.messageStart)
    (hstop : old.messageEnd = turn.messageEnd) :
    getMeta db' "last_processed_turn_id" = some turn.turnId ∧ ∃ f, db'.turns = db.turns.map f ∧
      ∀ t ∈ db.turns, Keeps f t ∧ (f t).dagStatus = if t.turnId = turn.turnId then .done else t.dagStatus := by
  obtain ⟨-, mode, writeSource, db₁, turnRow, run, olds, news, goalTask, -, -, -, ha, rfl⟩ :=
    applied_of_commits hw hc
  obtain ⟨-, f, hturns, hf⟩ := upsertTurn_stored h hold
    (show integer? (turnToInput turn).messageStart = _ by
      rw [hstart]
      exact integer?_intCast turn.messageStart)
    (show integer? (turnToInput turn).messageEnd = _ by
      rw [hstop]
      exact integer?_intCast turn.messageEnd) ha.upsert
  refine ⟨getMeta_setMeta _ _ _, ?_⟩
  set mark : DagTurn → DagTurn := fun t =>
    { t with
      dagStatus := .done
      buildMode := some mode
      runningStartedAt := none
      nextRetryAt := none
      lastError := none
      processedAt := some env.doneNow
      updatedAt := env.doneNow } with hmark
  refine ⟨written turn.turnId mark ∘ f, ?_, fun t ht => ?_⟩
  · rw [← map_map, ← hturns, ← ha.ran.turns,
      ← (completeGoalTask_turns run.db turn.turnId env.goalNow goalTask).1]
    rfl
  · obtain ⟨hkeeps, hstatus⟩ := hf t ht
    obtain ⟨h1, h2, h3⟩ := keeps_written turn.turnId (g := mark) (fun _ => ⟨rfl, rfl, rfl⟩) (f t)
    refine ⟨⟨h1.trans hkeeps.id, h2.trans hkeeps.start, h3.trans hkeeps.stop⟩, ?_⟩
    unfold written
    rw [Function.comp_apply, hkeeps.id]
    split_ifs
    · rfl
    · exact hstatus

end Build

end Memmy.SessionDag.Turns
