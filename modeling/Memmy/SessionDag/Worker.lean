import Memmy.SessionDag.Coverage

/-! # The worker of a queue between two microtasks

`SessionDagQueue` once more, for its own wakes: `wake` starts the worker if none runs, `process` claims and
builds turns until there is none to claim or one has failed, and sets the retry timer. `running` is cleared
only in the `finally` callback behind it, some microtasks after `process` has returned; a timer does not fire
before. The statements of the store and the constructor of the builder do not fail here, and a slot of the
manager is given when the worker asks for it or later.

* `awake_step`, `heeded_of_awake`: a wake is lost exactly if it comes behind the return of `process` and there is
  work.
* `neverStranded_iff`: along a run the queue is never left idle with work exactly if no wake is lost. -/

namespace Memmy.SessionDag.Worker

open Lib.JsonValue Lib.Run Lib.Sort SessionDag.Types SessionDag.Store SessionDag.Builder SessionDag.Queue
open List
  SessionDag.Turns SessionDag.History SessionDag.Invariant SessionDag.Coverage SessionDag.Completion

/-- Where the worker is. -/
inductive Phase where
  /-- `running` is false. -/
  | idle
  | waiting
  | building (turn : DagTurn)
  /-- `process` has returned, and the `finally` callback is due. -/
  | stopping

structure State where
  db : Db
  phase : Phase
  closed : Bool
  storeClosed : Bool
  retryTimer : Option ℕ
  woken : Bool

def State.running (s : State) : Bool :=
  match s.phase with
  | .idle => false
  | _ => true

def start : State where
  db := {}
  phase := .idle
  closed := false
  storeClosed := false
  retryTimer := none
  woken := false

inductive Event where
  /-- `slot`: the manager has a slot free. -/
  | enqueue (turn : DagTurnInput) (now : ℕ) (slot : Bool)
  | wake (now : ℕ) (slot : Bool)
  | timer (now : ℕ) (slot : Bool)
  | slot (now : ℕ)
  /-- `buildAndApply` has come to its end (`reply` is `none`: the call or the parser failed). -/
  | built (reply : Option Json) (error : String) (env fallbackEnv : Env) (now : ℕ)
  | finish
  | close
  | restart (env : Env)

section Steps
variable {M : Type} (c : Config M)

/-- The tables after a build of the turn, and the delay of the timer if the build has failed. -/
def build (db : Db) (turn : DagTurn) (reply : Option Json) (error : String) (env fallbackEnv : Env)
    (now : ℕ) : Db × Option ℕ :=
  match reply.bind fun parsed =>
      buildAndApply c.sessionKey env c.maxBuilderContextNodes parsed db turn with
  | some (.ok (db', _)) => (db', none)
  | _ =>
    if turn.attemptCount + 1 < c.maxUpdateAttempts then
      (markTurnRetry db turn.turnId error (now + c.retryDelayMs turn.attemptCount) now,
        some (c.retryDelayMs turn.attemptCount))
    else match applyDeterministicFallback c.sessionKey fallbackEnv db turn with
      | .ok (db', _) => (db', none)
      | .error e => (markTurnBlocked db turn.turnId e.message (some (now + c.retryDelayMs 0)) now,
          some (c.retryDelayMs 0))

variable (s : State)

def scheduleRetry (at' : ℕ) : State := if s.closed then s else { s with retryTimer := some at' }

/-- The deadlines of the turns that wait for their next try. -/
def retryDeadlines (db : Db) : List ℕ :=
  (db.turns.filter fun t => t.dagStatus = .retry).filterMap (·.nextRetryAt)

/-- One round of the loop of `process`, up to its next await. -/
def loop (now : ℕ) : State :=
  if s.closed then { s with phase := .stopping }
  else
    match claimNextTurn s.db now with
    | (db, some turn) =>
      { s with
        db := db
        phase := .building turn }
    | (db, none) =>
      let s' := { s with
        db := db
        phase := .stopping }
      match (retryDeadlines db).min? with
      | some nextRetryAt => scheduleRetry s' (max now nextRetryAt)
      | none => s'

def wake (now : ℕ) (slot : Bool) : State :=
  if s.closed then s
  else
    let s' := { s with
      retryTimer := none
      woken := true }
    match s.phase with
    | .idle => if slot then loop s' now else { s' with phase := .waiting }
    | _ => s'

def closeStore : State := { s with storeClosed := true }

def step : Event → State
  | .enqueue turn now slot =>
    if s.closed then s
    else
      match upsertTurn s.db turn now with
      | .ok (db, _) => wake { s with db := db } now slot
      | .error _ => s
  | .wake now slot => wake s now slot
  | .timer now slot =>
    match s.phase, s.retryTimer with
    | .stopping, _ => s
    | _, some due => if due ≤ now then wake { s with retryTimer := none } now slot else s
    | _, none => s
  | .slot now =>
    match s.phase with
    | .waiting => loop s now
    | _ => s
  | .built reply error env fallbackEnv now =>
    match s.phase with
    | .building turn =>
      match build c s.db turn reply error env fallbackEnv now with
      | (db, none) => loop { s with db := db } now
      | (db, some delayMs) =>
        scheduleRetry { s with
          db := db
          phase := .stopping } (now + delayMs)
    | _ => s
  | .finish =>
    match s.phase with
    | .stopping =>
      let s' := { s with phase := .idle }
      if s.closed then closeStore s' else s'
    | _ => s
  | .close =>
    let s' := { s with
      closed := true
      retryTimer := none }
    match s.phase with
    | .idle => closeStore s'
    | _ => s'
  | .restart env =>
    { start with db := (repairTaskTransitionsOnce c.sessionKey env s.db).toOption.getD s.db }

end Steps

/-! ### The property -/

def AllDone (db : Db) : Prop := ∀ t ∈ db.turns, t.dagStatus = .done

instance (db : Db) : Decidable (AllDone db) := inferInstanceAs (Decidable (∀ t ∈ db.turns, t.dagStatus = .done))

/-- **Never idle with work**: a queue that has been woken, is not closed, does not run and has set no timer
has processed all its turns. -/
def NotStranded (s : State) : Prop :=
  s.woken = true → s.closed = false → s.running = false → s.retryTimer = none → AllDone s.db

theorem running_eq_false {s : State} : s.running = false ↔ s.phase = .idle := by
  unfold State.running
  cases s.phase <;> simp

/-- The worker has decided to stop, and the queue still says that it runs. -/
def Stopping (s : State) : Prop := s.phase = .stopping ∧ s.closed = false

/-- A wake does not come between the two, unless there is nothing to do. -/
def Heeded (s : State) : Event → Prop
  | .enqueue turn now _ => Stopping s → ∀ r, upsertTurn s.db turn now = .ok r → AllDone r.1
  | .wake _ _ => Stopping s → AllDone s.db
  | _ => True

/-! ### The turns that can be claimed -/

section Turns
variable {sessionKey : String} {db db' : Db}

/-- A turn that has not been tried waits for nothing. -/
def PendingNow (db : Db) : Prop := ∀ t ∈ db.turns, t.dagStatus = .pending → t.nextRetryAt = none

section
variable (h : PendingNow db)
include h

theorem PendingNow.map {f : DagTurn → DagTurn} (hturns : db'.turns = db.turns.map f)
    (hf : ∀ t ∈ db.turns, (f t).dagStatus = .pending → t.dagStatus = .pending ∧ (f t).nextRetryAt = t.nextRetryAt) :
    PendingNow db' := by
  unfold PendingNow
  rw [hturns]
  intro t ht hpending
  obtain ⟨t', ht', rfl⟩ := mem_map.mp ht
  obtain ⟨hbefore, hat⟩ := hf t' ht' hpending
  rw [hat]
  exact h t' ht' hbefore

theorem PendingNow.updateTurn {turnId : String} {g : DagTurn → DagTurn}
    (hg : ∀ t, (g t).dagStatus = .pending → t.dagStatus = .pending ∧ (g t).nextRetryAt = t.nextRetryAt) :
    PendingNow (Store.updateTurn db turnId g) := by
  refine h.map (f := written turnId g) rfl fun t _ => ?_
  unfold written
  by_cases hid : t.turnId = turnId
  · rw [if_pos hid]
    exact hg t
  · rw [if_neg hid]
    exact fun hpending => ⟨hpending, rfl⟩

theorem pendingNow_upsertTurn {input : DagTurnInput} {now : ℕ} {r : Db × DagTurn}
    (hop : upsertTurn db input now = .ok r) : PendingNow r.1 := by
  unfold Store.upsertTurn at hop
  split at hop
  · split_ifs at hop
    split at hop
    · cases hop
      exact h.updateTurn fun _ hpending => ⟨hpending, rfl⟩
    · cases hop
      intro t ht
      rcases mem_append.mp ht with ht | ht
      · exact h t ht
      · rw [mem_singleton.mp ht]
        exact fun _ => rfl
  · cases hop

theorem pendingNow_released (now : ℕ) : PendingNow (releaseRunning db now) := by
  refine h.map (f := released now) rfl fun t _ => ?_
  unfold released
  by_cases hrunning : t.dagStatus = .running
  · rw [if_pos hrunning]
    exact nofun
  · rw [if_neg hrunning]
    exact fun hpending => ⟨hpending, rfl⟩

theorem pendingNow_claimNextTurn (now : ℕ) : PendingNow (claimNextTurn db now).1 := by
  unfold Store.claimNextTurn
  dsimp only
  split
  · exact pendingNow_released h now
  · exact (pendingNow_released h now).updateTurn fun _ hpending => by cases hpending

end

theorem pendingNow_of_commits (hw : WellFormed sessionKey db) (h : PendingNow db) {env : Env} {turn : DagTurn}
    {patch : DagPatch} (hc : Commits sessionKey env db turn patch db') : PendingNow db' := by
  obtain ⟨-, mode, writeSource, db₁, turnRow, run, olds, news, goalTask, -, -, -, ha, rfl⟩ :=
    applied_of_commits hw hc
  have h₁ : PendingNow db₁ := pendingNow_upsertTurn h ha.upsert
  have hturns : (completeGoalTask run.db turn.turnId env.goalNow goalTask).turns = db₁.turns :=
    (completeGoalTask_turns run.db turn.turnId env.goalNow goalTask).1.trans ha.ran.turns
  have h₂ : PendingNow (completeGoalTask run.db turn.turnId env.goalNow goalTask) := by
    unfold PendingNow
    rw [hturns]
    exact h₁
  exact @PendingNow.updateTurn _ h₂ turn.turnId _ fun _ hpending => by cases hpending

/-- **Nothing to claim**: what is not done waits for its next try. -/
theorem claimNextTurn_none (h : PendingNow db) {now : ℕ} (hnone : (claimNextTurn db now).2 = none) :
    ∀ t ∈ (claimNextTurn db now).1.turns, t.dagStatus = .done ∨
      (t.dagStatus = .retry ∧ ∃ due, t.nextRetryAt = some due) := by
  have hreleased := pendingNow_released h now
  have hrunning : ∀ t ∈ (releaseRunning db now).turns, t.dagStatus ≠ .running := by
    intro t ht
    obtain ⟨t', -, rfl⟩ := mem_map.mp ht
    by_cases hr : t'.dagStatus = .running
    · rw [if_pos hr]
      exact DagTurnStatus.noConfusion
    · rw [if_neg hr]
      exact hr
  unfold Store.claimNextTurn at hnone ⊢
  dsimp only at hnone ⊢
  split at hnone
  · next hfind =>
    intro t ht
    have hclaim := find?_eq_none.mp hfind t ((mem_sortBy _).mpr ht)
    unfold isClaimable at hclaim
    cases hstatus : t.dagStatus with
    | pending =>
      rw [hstatus, hreleased t ht hstatus] at hclaim
      exact absurd rfl hclaim
    | running => exact absurd hstatus (hrunning t ht)
    | retry =>
      rw [hstatus] at hclaim
      cases hat : t.nextRetryAt with
      | none =>
        rw [hat] at hclaim
        exact absurd rfl hclaim
      | some due => exact Or.inr ⟨rfl, due, rfl⟩
    | done => exact Or.inl rfl
    | blocked =>
      rw [hstatus] at hclaim
      exact absurd rfl hclaim
  · next row hfind =>
    exfalso
    have hmem : row ∈ (releaseRunning db now).turns := (mem_sortBy _).mp (mem_of_find?_eq_some hfind)
    exact getTurn_eq_none hnone _ (mem_map.mpr ⟨row, hmem, if_pos rfl⟩) rfl

theorem allDone_of_no_deadline (h : ∀ t ∈ db.turns, t.dagStatus = .done ∨
    (t.dagStatus = .retry ∧ ∃ due, t.nextRetryAt = some due)) (hnone : (retryDeadlines db).min? = none) :
    AllDone db := by
  intro t ht
  rcases h t ht with hdone | ⟨hretry, due, hdue⟩
  · exact hdone
  · exfalso
    have hmem : due ∈ retryDeadlines db :=
      mem_filterMap.mpr ⟨t, mem_filter.mpr ⟨ht, decide_eq_true hretry⟩, hdue⟩
    rw [min?_eq_none_iff.mp hnone] at hmem
    cases hmem

end Turns

/-! ### The steps -/

section Steps
variable {M : Type} {c : Config M} {s : State}

/-- **A queue that is about to be idle**, or is, has work only behind its timer. -/
def Awake (s : State) : Prop :=
  s.woken = true → s.closed = false → s.phase = .idle ∨ s.phase = .stopping → s.retryTimer = none → AllDone s.db

/-- The store is in order. -/
structure Sound (c : Config M) (db : Db) : Prop where
  graph : WellFormed c.sessionKey db
  pending : PendingNow db

theorem sound_start : Sound c start.db where
  graph := wellFormed_empty
  pending := by
    intro t ht
    cases ht

section
variable (h : Sound c s.db)
include h

theorem sound_build (turn : DagTurn) (reply : Option Json) (error : String)
    (env fallbackEnv : Env) (now : ℕ) :
    Sound c (build c s.db turn reply error env fallbackEnv now).1 := by
  have hcommits : ∀ {env db' patch}, Commits c.sessionKey env s.db turn patch db' → Sound c db' := by
    intro env db' patch hc
    obtain ⟨-, mode, writeSource, run, hop⟩ := id hc
    exact ⟨wellFormed_applyPatch h.graph hop, pendingNow_of_commits h.graph h.pending hc⟩
  unfold build
  split
  · next hbuild =>
    obtain ⟨parsed, -, hop⟩ := Option.bind_eq_some_iff.mp hbuild
    obtain ⟨patch, hc⟩ := commits_of_build hop
    exact hcommits hc
  · split_ifs
    · exact ⟨h.graph.congr rfl rfl, h.pending.updateTurn fun _ hpending => by cases hpending⟩
    · split
      · next hop =>
        obtain ⟨patch, hc⟩ := commits_of_fallback hop
        exact hcommits hc
      · exact ⟨h.graph.congr rfl rfl, h.pending.updateTurn fun _ hpending => by cases hpending⟩

theorem sound_upsertTurn {input : DagTurnInput} {now : ℕ} {r : Db × DagTurn}
    (hop : upsertTurn s.db input now = .ok r) : Sound c r.1 :=
  ⟨h.graph.congr (upsertTurn_graph hop).1 (upsertTurn_graph hop).2, pendingNow_upsertTurn h.pending hop⟩

theorem sound_loop (now : ℕ) : Sound c (loop s now).db := by
  have hclaim : Sound c (claimNextTurn s.db now).1 :=
    ⟨h.graph.congr (claimNextTurn_graph s.db now).1 (claimNextTurn_graph s.db now).2,
      pendingNow_claimNextTurn h.pending now⟩
  unfold loop
  by_cases hclosed : s.closed = true
  · rw [if_pos hclosed]
    exact h
  · rw [if_neg hclosed]
    rcases hres : claimNextTurn s.db now with ⟨db, _ | turn⟩
    · rw [hres] at hclaim
      dsimp only
      split
      · unfold scheduleRetry
        split_ifs
        · exact hclaim
        · exact hclaim
      · exact hclaim
    · rw [hres] at hclaim
      exact hclaim

/-- **The end of the loop**: the timer is set, or all turns are done. -/
theorem awake_loop (now : ℕ) : Awake (loop s now) := by
  unfold loop
  by_cases hclosed : s.closed = true
  · rw [if_pos hclosed]
    intro _ hopen
    rw [show s.closed = false from hopen] at hclosed
    cases hclosed
  · rw [if_neg hclosed]
    rcases hres : claimNextTurn s.db now with ⟨db, _ | turn⟩
    · have hwaits := claimNextTurn_none h.pending (congrArg Prod.snd hres)
      rw [hres] at hwaits
      dsimp only
      cases hnext : (retryDeadlines db).min? with
      | none => exact fun _ _ _ _ => allDone_of_no_deadline hwaits hnext
      | some nextRetryAt =>
        dsimp only
        unfold scheduleRetry
        rw [if_neg hclosed]
        intro _ _ _ htimer
        cases htimer
    · intro _ _ hphase
      rcases hphase with hphase | hphase <;> cases hphase

theorem sound_wake (now : ℕ) (slot : Bool) : Sound c (wake s now slot).db := by
  unfold wake
  by_cases hclosed : s.closed = true
  · rw [if_pos hclosed]
    exact h
  · rw [if_neg hclosed]
    split
    · by_cases hslot : slot = true
      · rw [if_pos hslot]
        exact sound_loop (s := { s with retryTimer := none, woken := true }) h now
      · rw [if_neg hslot]
        exact h
    · exact h

/-- **A wake** starts the worker, or finds it at work; it is lost on one that is about to stop. -/
theorem awake_wake {now : ℕ} {slot : Bool} (hheeded : Stopping s → AllDone s.db) : Awake (wake s now slot) := by
  unfold wake
  by_cases hclosed : s.closed = true
  · rw [if_pos hclosed]
    intro _ hopen
    rw [hclosed] at hopen
    cases hopen
  · rw [if_neg hclosed]
    split
    · by_cases hslot : slot = true
      · rw [if_pos hslot]
        exact awake_loop (s := { s with retryTimer := none, woken := true }) h now
      · rw [if_neg hslot]
        intro _ _ hidle
        rcases hidle with hidle | hidle <;> cases hidle
    · next hrunning =>
      intro _ hopen hphase _
      rcases hphase with hphase | hphase
      · exact absurd hphase hrunning
      · exact hheeded ⟨hphase, hopen⟩

theorem sound_step (e : Event) : Sound c (step c s e).db := by
  cases e with
  | enqueue turn now slot =>
    dsimp only [step]
    split_ifs
    · exact h
    · split
      · next db row hop => exact sound_wake (s := { s with db := db }) (sound_upsertTurn h hop) now slot
      · exact h
  | wake now slot => exact sound_wake h now slot
  | timer now slot =>
    dsimp only [step]
    split
    · exact h
    · split_ifs
      · exact sound_wake (s := { s with retryTimer := none }) h now slot
      · exact h
    · exact h
  | slot now =>
    dsimp only [step]
    split
    · exact sound_loop h now
    · exact h
  | built reply error env fallbackEnv now =>
    dsimp only [step]
    split
    · next turn _ =>
      have hbuild := sound_build h turn reply error env fallbackEnv now
      rcases hres : build c s.db turn reply error env fallbackEnv now with ⟨db, _ | delayMs⟩
      · rw [hres] at hbuild
        exact sound_loop (s := { s with db := db }) hbuild now
      · rw [hres] at hbuild
        dsimp only
        unfold scheduleRetry
        split_ifs
        · exact hbuild
        · exact hbuild
    · exact h
  | finish =>
    dsimp only [step]
    split
    · split_ifs
      · exact h
      · exact h
    · exact h
  | close =>
    dsimp only [step]
    split
    · exact h
    · exact h
  | restart env =>
    dsimp only [step]
    cases hop : repairTaskTransitionsOnce c.sessionKey env s.db with
    | error => exact h
    | ok db =>
      obtain ⟨hturns, -⟩ := repair_turns hop
      refine ⟨wellFormed_repairTaskTransitionsOnce h.graph hop, ?_⟩
      change PendingNow db
      unfold PendingNow
      rw [hturns]
      exact h.pending

/-- **One step**: no work is left behind unless a wake is lost. -/
theorem awake_step (ha : Awake s) {e : Event} (hheeded : Heeded s e) : Awake (step c s e) := by
  cases e with
  | enqueue turn now slot =>
    dsimp only [step]
    by_cases hclosed : s.closed = true
    · rw [if_pos hclosed]
      exact ha
    · rw [if_neg hclosed]
      cases hop : upsertTurn s.db turn now with
      | error => exact ha
      | ok r =>
        exact awake_wake (s := { s with db := r.1 }) (sound_upsertTurn h hop) fun hs => hheeded hs r hop
  | wake now slot => exact awake_wake h hheeded
  | timer now slot =>
    dsimp only [step]
    split
    · exact ha
    · next _ hphase =>
      split_ifs
      · refine awake_wake (s := { s with retryTimer := none }) h fun hs => absurd hs.1 fun hp => ?_
        exact hphase hp
      · exact ha
    · exact ha
  | slot now =>
    dsimp only [step]
    split
    · exact awake_loop h now
    · exact ha
  | built reply error env fallbackEnv now =>
    dsimp only [step]
    split
    · next turn _ =>
      have hbuild := sound_build h turn reply error env fallbackEnv now
      rcases hres : build c s.db turn reply error env fallbackEnv now with ⟨db, _ | delayMs⟩
      · rw [hres] at hbuild
        exact awake_loop (s := { s with db := db }) hbuild now
      · dsimp only
        unfold scheduleRetry
        by_cases hclosed : s.closed = true
        · rw [if_pos hclosed]
          intro _ hopen
          rw [show s.closed = false from hopen] at hclosed
          cases hclosed
        · rw [if_neg hclosed]
          intro _ _ _ htimer
          cases htimer
    · exact ha
  | finish =>
    dsimp only [step]
    split
    · next hphase =>
      by_cases hclosed : s.closed = true
      · rw [if_pos hclosed]
        intro _ hopen
        rw [show s.closed = false from hopen] at hclosed
        cases hclosed
      · rw [if_neg hclosed]
        exact fun hwoken hopen _ htimer => ha hwoken hopen (Or.inr hphase) htimer
    · exact ha
  | close =>
    dsimp only [step]
    split
    · exact nofun
    · exact nofun
  | restart env => exact nofun

end

/-- **A lost wake** leaves work behind at once. -/
theorem heeded_of_awake {e : Event} (ha : Awake (step c s e)) : Heeded s e := by
  have hwake : ∀ {s : State} {now slot}, Awake (wake s now slot) → Stopping s → AllDone s.db := by
    intro s now slot ha ⟨hphase, hopen⟩
    unfold wake at ha
    rw [if_neg (by rw [hopen]; exact Bool.false_ne_true)] at ha
    split at ha
    · next hidle => cases hphase.symm.trans hidle
    · exact ha rfl hopen (Or.inr hphase) rfl
  cases e with
  | enqueue turn now slot =>
    intro hs r hop
    dsimp only [step] at ha
    rw [if_neg (by rw [hs.2]; exact Bool.false_ne_true), hop] at ha
    exact hwake ha hs
  | wake now slot => exact hwake ha
  | _ => trivial

/-- What is asked of the queue, and of the queue once a worker that is about to stop has stopped. -/
theorem awake_iff : Awake s ↔ NotStranded s ∧ NotStranded (step c s .finish) := by
  constructor
  · refine fun ha => ⟨fun hwoken hopen hidle => ha hwoken hopen (Or.inl (running_eq_false.mp hidle)), ?_⟩
    dsimp only [step]
    split
    · next hphase =>
      split_ifs with hclosed
      · intro _ hopen
        rw [show s.closed = false from hopen] at hclosed
        cases hclosed
      · exact fun hwoken hopen _ => ha hwoken hopen (Or.inr hphase)
    · exact fun hwoken hopen hidle => ha hwoken hopen (Or.inl (running_eq_false.mp hidle))
  · rintro ⟨hnow, hthen⟩ hwoken hopen hphase htimer
    rcases hphase with hphase | hphase
    · exact hnow hwoken hopen (running_eq_false.mpr hphase) htimer
    · dsimp only [step] at hthen
      rw [hphase] at hthen
      rw [if_neg (by rw [hopen]; exact Bool.false_ne_true)] at hthen
      exact hthen hwoken hopen rfl htimer

end Steps

/-! ### Runs -/

/-- **Exactly the runs that lose no wake** leave the queue idle only when all turns are done, in every state
and after a worker that is about to stop in it has stopped. -/
theorem neverStranded_iff {M : Type} (c : Config M) (events : List Event) :
    (∀ s ∈ visited (step c) start events, NotStranded s ∧ NotStranded (step c s .finish)) ↔
      ∀ t ∈ taken (step c) start events, Heeded t.1 t.2 := by
  have hsound : ∀ s ∈ visited (step c) start events, Sound c s.db :=
    invariant (I := fun s : State => Sound c s.db) (fun _ e h => sound_step h e) events _ sound_start
  have hexact := invariant_iff_steps (I := fun s : State => Sound c s.db ∧ Awake s)
    (fun s (e : Event) h hP => ⟨sound_step h.1 e, awake_step h.1 h.2 hP⟩) (fun s e h => heeded_of_awake h.2) events
    start ⟨sound_start, nofun⟩
  rw [← hexact]
  refine forall₂_congr fun (s : State) hs => ?_
  exact awake_iff.symm.trans ⟨fun ha => ⟨hsound s hs, ha⟩, fun h => h.2⟩

namespace Example

/-- The first turn is built and nothing is left to claim; the second one is enqueued before `running` is
cleared. -/
def overtaken : List Event :=
  [.enqueue (sampleTurn 1 none) 1 true, .built (some samplePatch) "" (sampleEnv 2) (sampleEnv 2) 2,
    .enqueue (sampleTurn 2 none) 2 true, .finish]

/-- The queue is idle, and the second turn waits for a wake that does not come. -/
theorem overtaken_stranded : ¬ ∀ s ∈ visited (step sampleConfig) start overtaken, NotStranded s := by
  intro h
  have hfinal := h _ (final_mem_visited _ _ _)
  have hstate : (final (step sampleConfig) start overtaken).woken = true ∧
      (final (step sampleConfig) start overtaken).closed = false ∧
      (final (step sampleConfig) start overtaken).running = false ∧
      (final (step sampleConfig) start overtaken).retryTimer = none ∧
      ¬ AllDone (final (step sampleConfig) start overtaken).db := by
    decide +kernel
  obtain ⟨hwoken, hopen, hidle, htimer, hwork⟩ := hstate
  exact hwork (hfinal hwoken hopen hidle htimer)

end Example

end Memmy.SessionDag.Worker
