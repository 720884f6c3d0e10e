import Memmy.SessionDag.Written

/-! # Histories of a session

The queue of a session stores turns and claims them; the builder commits for a turn the completed patch
of a model or the fallback. `BuildStep` lists what can happen, in any order and for any turn; what throws
leaves the tables as they were.

* `step_cases`: a step leaves the graph alone, or commits a patch that the builder wrote.
* `applied_of_commits`: what a committed patch has done and passed.
* `wellFormed_of_history`: the graph is well formed, turns have a range and one row each, and every edge
  belongs to a turn that is done. -/

namespace Memmy.SessionDag.History

open Lib.JsonValue Lib.Result Lib.Run Lib.Sort SessionDag.Types SessionDag.PatchSchema
open List SessionDag.Selection SessionDag.Store SessionDag.Builder SessionDag.Invariant
  SessionDag.Validated SessionDag.Progress SessionDag.Written

/-- What happens to the tables of a session. -/
inductive BuildStep where
  | enqueue (turn : DagTurnInput) (now : ℕ)
  | claim (now : ℕ)
  | retry (turnId error : String) (nextRetryAt now : ℕ)
  | block (turnId error : String) (nextRetryAt : Option ℕ) (now : ℕ)
  | build (parsed : Json) (maxBuilderContextNodes : ℕ) (turn : DagTurn) (env : Env)
  | fallback (turn : DagTurn) (env : Env)

/-- The queue has claimed the turn. -/
def isRunning (db : Db) (turnId : String) : Bool := (getTurn db turnId).any fun t => t.dagStatus = .running

/-- The tables after a step; a failure is noted for a turn that is claimed. -/
def buildStep (sessionKey : String) (db : Db) : BuildStep → Db
  | .enqueue turn now => (upsertTurn db turn now).toOption.elim db (·.1)
  | .claim now => (claimNextTurn db now).1
  | .retry turnId error nextRetryAt now =>
    if isRunning db turnId then markTurnRetry db turnId error nextRetryAt now else db
  | .block turnId error nextRetryAt now =>
    if isRunning db turnId then markTurnBlocked db turnId error nextRetryAt now else db
  | .build parsed maxBuilderContextNodes turn env =>
    match buildAndApply sessionKey env maxBuilderContextNodes parsed db turn with
    | some (.ok (db', _)) => db'
    | _ => db
  | .fallback turn env => (applyDeterministicFallback sessionKey env db turn).toOption.elim db (·.1)

def Commits (sessionKey : String) (env : Env) (db : Db) (turn : DagTurn) (patch : DagPatch) (db' : Db) : Prop :=
  WrittenFor sessionKey db turn patch ∧ ∃ mode writeSource run, applyPatch sessionKey env db
    { turn := turnToInput turn, patch := patch, buildMode := mode, writeSource := writeSource } =
      .ok (db', run)

section Steps
variable {sessionKey : String} {db : Db}

/-- The step commits a patch for the turn, if it does not fail. -/
def IsCommit (turn : DagTurn) (env : Env) (s : BuildStep) : Prop :=
  s = .fallback turn env ∨ ∃ parsed maxNodes, s = .build parsed maxNodes turn env

theorem commit_cases (sessionKey : String) (db : Db) {turn : DagTurn} {env : Env} {s : BuildStep} (hs : IsCommit turn env s) :
    buildStep sessionKey db s = db ∨
      ∃ patch, Commits sessionKey env db turn patch (buildStep sessionKey db s) := by
  rcases hs with rfl | ⟨parsed, maxNodes, rfl⟩
  · simp only [buildStep]
    cases hop : applyDeterministicFallback sessionKey env db turn with
    | error => exact Or.inl rfl
    | ok r => exact Or.inr ⟨_, .fallback, _, _, r.2, hop⟩
  · simp only [buildStep, buildAndApply]
    cases hp : buildPatch parsed (readBuilderContext sessionKey db maxNodes) (turnGoal turn) with
    | error => exact Or.inl rfl
    | ok patch =>
      dsimp only
      cases hop : applyPatch sessionKey env db _ with
      | error => exact Or.inl rfl
      | ok r => exact Or.inr ⟨patch, .model parsed maxNodes hp, _, _, r.2, hop⟩

theorem enqueue_graph (sessionKey : String) (db : Db) (turn : DagTurnInput) (now : ℕ) :
    (buildStep sessionKey db (.enqueue turn now)).nodes = db.nodes ∧
      (buildStep sessionKey db (.enqueue turn now)).edges = db.edges := by
  simp only [buildStep]
  cases hop : upsertTurn db turn now with
  | error => exact ⟨rfl, rfl⟩
  | ok r => exact upsertTurn_graph hop

/-- **What a step can do to the graph.** -/
theorem step_cases (sessionKey : String) (db : Db) (s : BuildStep) :
    ((buildStep sessionKey db s).nodes = db.nodes ∧ (buildStep sessionKey db s).edges = db.edges) ∨
      ∃ turn env patch, IsCommit turn env s ∧
        Commits sessionKey env db turn patch (buildStep sessionKey db s) := by
  have hcommit : ∀ {turn env}, IsCommit turn env s →
      ((buildStep sessionKey db s).nodes = db.nodes ∧ (buildStep sessionKey db s).edges = db.edges) ∨
      ∃ turn env patch, IsCommit turn env s ∧
        Commits sessionKey env db turn patch (buildStep sessionKey db s) := by
    intro turn env hs
    rcases commit_cases sessionKey db hs with he | ⟨patch, hc⟩
    · exact Or.inl (by rw [he]; exact ⟨rfl, rfl⟩)
    · exact Or.inr ⟨turn, env, patch, hs, hc⟩
  cases s with
  | enqueue turn now => exact Or.inl (enqueue_graph sessionKey db turn now)
  | claim now => exact Or.inl (claimNextTurn_graph db now)
  | retry turnId error nextRetryAt now =>
    refine Or.inl ?_
    simp only [buildStep]
    split_ifs <;> exact ⟨rfl, rfl⟩
  | block turnId error nextRetryAt now =>
    refine Or.inl ?_
    simp only [buildStep]
    split_ifs <;> exact ⟨rfl, rfl⟩
  | build parsed maxNodes turn env => exact hcommit (Or.inr ⟨parsed, maxNodes, rfl⟩)
  | fallback turn env => exact hcommit (Or.inl rfl)

theorem wellFormed_buildStep (h : WellFormed sessionKey db) (s : BuildStep) :
    WellFormed sessionKey (buildStep sessionKey db s) := by
  rcases step_cases sessionKey db s with ⟨hn, he⟩ | ⟨_, _, _, -, -, _, _, _, hop⟩
  · exact h.congr hn he
  · exact wellFormed_applyPatch h hop

end Steps

/-! ### A committed patch -/

section Applied
variable {sessionKey : String} {env : Env} {db db' : Db} {options : ApplyDagPatchOptions}

/-- **What a committed patch has done and passed**: `db₁` are the tables with the turn, `run` is the state
after the loop. -/
structure Applied (sessionKey : String) (env : Env) (db : Db) (options : ApplyDagPatchOptions) (db₁ : Db)
    (turnRow : DagTurn) (run : PatchRun) (olds news : List DagNode) (goalTask : Option DagNode) :
    Prop where
  upsert : upsertTurn db options.turn env.upsertNow = .ok (db₁, turnRow)
  check : checkGoalPatch options.turn.goalContext (selectRootTask (readNodes sessionKey db))
    options.patch = .ok ()
  ran : Ran sessionKey env turnRow options.turn.goalContext db₁ options.patch run olds news
  children : assertAddedChildNodesReachableFromTaskRoot (readNodes sessionKey run.db)
    (readEdges run.db) run.addedChildNodeIds = .ok ()
  transition : assertTaskTransitionIntegrity (readNodes sessionKey run.db) (readEdges run.db)
    ((selectRootTask (readNodes sessionKey db)).map (·.id)) run.addedTaskNodeIds = .ok ()
  boundary : assertGoalBoundary (readNodes sessionKey run.db) (readEdges run.db) options.turn.turnId
    options.turn.goalContext (selectRootTask (readNodes sessionKey db)) run.addedTaskNodeIds =
      .ok goalTask

/-- The tables that a committed patch leaves. -/
def appliedDb (env : Env) (options : ApplyDagPatchOptions) (run : PatchRun) (goalTask : Option DagNode) : Db :=
  markTurnDone (completeGoalTask run.db options.turn.turnId env.goalNow goalTask)
    options.turn.turnId options.buildMode env.doneNow

/-- **An applied patch, taken apart.** -/
theorem applied_of_applyPatch (h : WellFormed sessionKey db) {ids : List String}
    (hpatch : PatchOk ids options.patch) (hids : ∀ id ∈ ids, ∃ m ∈ db.nodes, m.id = id)
    {run : PatchRun} (hop : applyPatch sessionKey env db options = .ok (db', run)) :
    ∃ db₁ turnRow olds news goalTask,
      Applied sessionKey env db options db₁ turnRow run olds news goalTask ∧
        db' = appliedDb env options run goalTask := by
  unfold applyPatch at hop
  simp only [bind_eq_ok, mapError_eq_ok, pure_eq, Except.ok.injEq, Prod.mk.injEq] at hop
  obtain ⟨⟨db₁, turnRow⟩, hturn, u, hcheck, run', hrun, db₂, hfinish, rfl, rfl⟩ := hop
  obtain ⟨hn, he⟩ := upsertTurn_graph hturn
  obtain ⟨olds, news, hran⟩ := ran_of_foldlM hpatch (by rw [hn]; exact hids) (h.congr hn he) hrun
  obtain ⟨goalTask, h1, h2, h3, rfl⟩ := finishPatch_ok hfinish
  exact ⟨db₁, turnRow, olds, news, goalTask, ⟨hturn, hcheck, hran, h1, h2, h3⟩, rfl⟩

/-- **A committed patch, taken apart.** -/
theorem applied_of_commits (h : WellFormed sessionKey db) {turn : DagTurn} {patch : DagPatch}
    (hc : Commits sessionKey env db turn patch db') :
    ∃ ids mode writeSource db₁ turnRow run olds news goalTask,
      PatchOk ids patch ∧ (∀ id ∈ ids, ∃ m ∈ db.nodes, m.id = id) ∧ (addedTasks patch).length ≤ 1 ∧
      Applied sessionKey env db
        { turn := turnToInput turn, patch := patch, buildMode := mode, writeSource := writeSource }
        db₁ turnRow run olds news goalTask ∧
      db' = appliedDb env
        { turn := turnToInput turn, patch := patch, buildMode := mode, writeSource := writeSource }
        run goalTask := by
  obtain ⟨hwritten, mode, writeSource, run, hop⟩ := hc
  obtain ⟨ids, hpatch, hids, hone⟩ := patchOk_of_written h hwritten
  obtain ⟨db₁, turnRow, olds, news, goalTask, ha, hdb⟩ := applied_of_applyPatch h hpatch hids hop
  exact ⟨ids, mode, writeSource, db₁, turnRow, run, olds, news, goalTask, hpatch, hids, hone, ha, hdb⟩

end Applied

/-! ### Turns -/

section Turns
variable {sessionKey : String} {db db' : Db} {f : DagTurn → DagTurn} {turnId : String}

/-- **The turns of a history**: one row and a range each, and the turn of an edge is done. -/
structure Enqueued (db : Db) : Prop where
  ids : (db.turns.map (·.turnId)).Nodup
  ranges : ∀ t ∈ db.turns, t.messageStart < t.messageEnd
  edges : ∀ e ∈ db.edges, ∃ t ∈ db.turns, e.createdTurnId = some t.turnId ∧ t.dagStatus = .done

theorem enqueued_empty : Enqueued {} := ⟨nodup_nil, by simp, by simp⟩

/-- A write of the turns that leaves none undone. -/
theorem Enqueued.map (h : Enqueued db) (hid : ∀ t, (f t).turnId = t.turnId)
    (hrange : ∀ t ∈ db.turns, (f t).messageStart < (f t).messageEnd)
    (hdone : ∀ t ∈ db.turns, t.dagStatus = .done → (f t).dagStatus = .done)
    (hturns : db'.turns = db.turns.map f) (hedges : db'.edges = db.edges) : Enqueued db' where
  ids := by
    rw [hturns, map_map, show (fun t : DagTurn => t.turnId) ∘ f = fun t => t.turnId from funext hid]
    exact h.ids
  ranges := by
    rw [hturns]
    intro t ht
    obtain ⟨t', ht', rfl⟩ := mem_map.mp ht
    exact hrange t' ht'
  edges := by
    rw [hturns, hedges]
    intro e he
    obtain ⟨t, ht, hcreated, hdone'⟩ := h.edges e he
    exact ⟨f t, mem_map.mpr ⟨t, ht, rfl⟩, by rw [hcreated, hid], hdone t ht hdone'⟩

theorem Enqueued.updateTurn (h : Enqueued db) (hid : ∀ t, (f t).turnId = t.turnId)
    (hrange : ∀ t ∈ db.turns, t.turnId = turnId → (f t).messageStart < (f t).messageEnd)
    (hdone : ∀ t ∈ db.turns, t.turnId = turnId → t.dagStatus = .done → (f t).dagStatus = .done) :
    Enqueued (Store.updateTurn db turnId f) := by
  refine h.map (f := fun t => if t.turnId = turnId then f t else t) ?_ ?_ ?_ rfl rfl
  · intro t
    split_ifs
    · exact hid t
    · rfl
  · intro t ht
    split_ifs with he
    · exact hrange t ht he
    · exact h.ranges t ht
  · intro t ht hs
    split_ifs with he
    · exact hdone t ht he hs
    · exact hs

theorem getTurn_eq_some {t : DagTurn} (h : getTurn db turnId = some t) : t ∈ db.turns ∧ t.turnId = turnId := by
  exact ⟨mem_of_find?_eq_some h, by simpa using find?_some h⟩

theorem Enqueued.eq_of_id (h : Enqueued db) {t t' : DagTurn} (ht : t ∈ db.turns) (ht' : t' ∈ db.turns)
    (hid : t.turnId = t'.turnId) : t = t' :=
  inj_on_of_nodup_map h.ids ht ht' hid

theorem Enqueued.upsertTurn (h : Enqueued db) {input : DagTurnInput} {now : ℕ} {turn : DagTurn}
    (hop : Store.upsertTurn db input now = .ok (db', turn)) :
    Enqueued db' ∧ turn.turnId = input.turnId ∧ ∃ t ∈ db'.turns, t.turnId = input.turnId := by
  unfold Store.upsertTurn at hop
  split at hop
  next start stop _ _ =>
    split_ifs at hop with hrange
    split at hop
    · next old hold =>
      cases hop
      obtain ⟨hmem, hid⟩ := getTurn_eq_some hold
      refine ⟨h.updateTurn (fun _ => rfl) (fun _ _ _ => ?_) (fun _ _ _ hs => hs), hid,
        _, mem_map.mpr ⟨old, hmem, rfl⟩, ?_⟩
      · change start < stop
        omega
      · split_ifs
        exact hid
    · next hnone =>
      cases hop
      refine ⟨⟨?_, ?_, ?_⟩, rfl, _, mem_append_right _ mem_cons_self, rfl⟩
      · rw [map_append, nodup_append]
        refine ⟨h.ids, nodup_singleton _, ?_⟩
        intro a ha b hb
        obtain ⟨t, ht, rfl⟩ := mem_map.mp ha
        rw [mem_singleton.mp hb]
        exact fun he => find?_eq_none.mp hnone t ht (decide_eq_true he)
      · intro t ht
        rcases mem_append.mp ht with ht | ht
        · exact h.ranges t ht
        · rw [mem_singleton.mp ht]
          change start < stop
          omega
      · intro e he
        obtain ⟨t, ht, hrest⟩ := h.edges e he
        exact ⟨t, mem_append_left _ ht, hrest⟩
  · cases hop

theorem Enqueued.claimNextTurn (h : Enqueued db) (now : ℕ) : Enqueued (Store.claimNextTurn db now).1 := by
  have hreleased : Enqueued (releaseRunning db now) := by
    refine h.map (f := fun t => if t.dagStatus = .running then
      { t with dagStatus := .retry, runningStartedAt := none, updatedAt := now } else t) ?_ ?_ ?_ rfl rfl
    · intro t
      split_ifs <;> rfl
    · intro t ht
      split_ifs <;> exact h.ranges t ht
    · intro t _ hs
      rw [if_neg (by rw [hs]; decide)]
      exact hs
  unfold Store.claimNextTurn
  dsimp only
  split
  · exact hreleased
  · next row hrow =>
    refine hreleased.updateTurn (fun _ => rfl) (fun t ht _ => hreleased.ranges t ht) ?_
    intro t ht hid hs
    exfalso
    have hmem : row ∈ (releaseRunning db now).turns := by
      have := mem_of_find?_eq_some hrow
      unfold listTurns at this
      rwa [mem_sortBy] at this
    have hclaim := find?_some hrow
    rw [← hreleased.eq_of_id ht hmem hid] at hclaim
    unfold isClaimable at hclaim
    rw [hs] at hclaim
    cases hclaim

theorem Enqueued.mark (h : Enqueued db) (hrunning : isRunning db turnId = true)
    (hid : ∀ t, (f t).turnId = t.turnId)
    (hrange : ∀ t, (f t).messageStart = t.messageStart ∧ (f t).messageEnd = t.messageEnd) :
    Enqueued (Store.updateTurn db turnId f) := by
  refine h.updateTurn hid (fun t ht _ => ?_) ?_
  · rw [(hrange t).1, (hrange t).2]
    exact h.ranges t ht
  · intro t ht hid hs
    exfalso
    unfold isRunning at hrunning
    cases hg : getTurn db turnId with
    | none => rw [hg] at hrunning; cases hrunning
    | some t' =>
      obtain ⟨hmem, hid'⟩ := getTurn_eq_some hg
      rw [hg, ← h.eq_of_id ht hmem (hid.trans hid'.symm)] at hrunning
      simp [hs] at hrunning

theorem completeGoalTask_turns (db : Db) (turnId : String) (now : ℕ) (goalTask : Option DagNode) :
    (completeGoalTask db turnId now goalTask).turns = db.turns ∧
      (completeGoalTask db turnId now goalTask).edges = db.edges := by
  cases goalTask <;> exact ⟨rfl, rfl⟩

/-- **A committed patch marks its turn as done**, and its edges are of that turn. -/
theorem Enqueued.applied {db₁ : Db} {turnRow : DagTurn}
    {run : PatchRun} {olds news : List DagNode} {goalTask : Option DagNode} (h : Enqueued db)
    (ha : Applied sessionKey env db options db₁ turnRow run olds news goalTask) :
    Enqueued (appliedDb env options run goalTask) ∧
      ∃ t ∈ (appliedDb env options run goalTask).turns, t.turnId = options.turn.turnId ∧
        t.dagStatus = .done := by
  obtain ⟨h₁, hid, row, hrow, hrowid⟩ := h.upsertTurn ha.upsert
  obtain ⟨hturns, hedges⟩ := completeGoalTask_turns run.db options.turn.turnId env.goalNow goalTask
  obtain ⟨es, hes, hnew⟩ := ha.ran.edges
  set mark : DagTurn → DagTurn := fun t =>
    { t with
      dagStatus := .done
      buildMode := some options.buildMode
      runningStartedAt := none
      nextRetryAt := none
      lastError := none
      processedAt := some env.doneNow
      updatedAt := env.doneNow } with hmark
  have hdone : (appliedDb env options run goalTask).turns =
      db₁.turns.map fun t => if t.turnId = options.turn.turnId then mark t else t := by
    rw [← ha.ran.turns, ← hturns]
    rfl
  have hrowdone : ∃ t ∈ (appliedDb env options run goalTask).turns,
      t.turnId = options.turn.turnId ∧ t.dagStatus = .done := by
    rw [hdone]
    exact ⟨mark row, mem_map.mpr ⟨row, hrow, if_pos hrowid⟩, hrowid, rfl⟩
  refine ⟨⟨?_, ?_, ?_⟩, hrowdone⟩
  · rw [hdone, map_map]
    refine (map_congr_left fun t _ => ?_ : _ = db₁.turns.map (·.turnId)) ▸ h₁.ids
    simp only [Function.comp_apply]
    split_ifs <;> rfl
  · rw [hdone]
    intro t ht
    obtain ⟨t', ht', rfl⟩ := mem_map.mp ht
    split_ifs <;> exact h₁.ranges t' ht'
  · intro e he
    change e ∈ (completeGoalTask run.db options.turn.turnId env.goalNow goalTask).edges at he
    rw [hedges, hes] at he
    rcases mem_append.mp he with he | he
    · obtain ⟨t, ht, hcreated, hs⟩ := h₁.edges e he
      rw [hdone]
      refine ⟨_, mem_map.mpr ⟨t, ht, rfl⟩, ?_, ?_⟩
      · rw [hcreated]
        split_ifs <;> rfl
      · split_ifs
        · rfl
        · exact hs
    · obtain ⟨-, hcreated, -⟩ := hnew e he
      obtain ⟨t, ht, hid', hs⟩ := hrowdone
      exact ⟨t, ht, by rw [hcreated, hid, hid'], hs⟩

/-- **One step keeps the turns as they are promised.** -/
theorem enqueued_buildStep (hw : WellFormed sessionKey db) (h : Enqueued db) (s : BuildStep) :
    Enqueued (buildStep sessionKey db s) := by
  have hcommit : ∀ {turn env}, IsCommit turn env s → Enqueued (buildStep sessionKey db s) := by
    intro turn env hs
    rcases commit_cases sessionKey db hs with he | ⟨patch, hc⟩
    · rw [he]; exact h
    · obtain ⟨ids, mode, writeSource, db₁, turnRow, run, olds, news, goalTask, -, -, -, ha, hdb⟩ :=
        applied_of_commits hw hc
      rw [hdb]
      exact (h.applied ha).1
  cases s with
  | enqueue turn now =>
    simp only [buildStep]
    cases hop : upsertTurn db turn now with
    | error => exact h
    | ok r => exact (h.upsertTurn hop).1
  | claim now => exact h.claimNextTurn now
  | retry turnId error nextRetryAt now =>
    simp only [buildStep]
    split_ifs with hrunning
    · exact h.mark hrunning (fun _ => rfl) fun _ => ⟨rfl, rfl⟩
    · exact h
  | block turnId error nextRetryAt now =>
    simp only [buildStep]
    split_ifs with hrunning
    · exact h.mark hrunning (fun _ => rfl) fun _ => ⟨rfl, rfl⟩
    · exact h
  | build parsed maxNodes turn env => exact hcommit (Or.inr ⟨parsed, maxNodes, rfl⟩)
  | fallback turn env => exact hcommit (Or.inl rfl)

end Turns

/-! ### Runs -/

/-- **What holds in every history.** -/
theorem wellFormed_of_history (sessionKey : String) (history : List BuildStep) :
    ∀ db ∈ visited (buildStep sessionKey) {} history, WellFormed sessionKey db ∧ Enqueued db :=
  invariant (I := fun db => WellFormed sessionKey db ∧ Enqueued db)
    (fun _ s h => ⟨wellFormed_buildStep h.1 s, enqueued_buildStep h.1 h.2 s⟩) history _
    ⟨wellFormed_empty, enqueued_empty⟩

/-- **Every edge comes from a turn that is done.** -/
theorem enqueued_of_history (sessionKey : String) (history : List BuildStep) :
    Enqueued (final (buildStep sessionKey) {} history) :=
  (wellFormed_of_history sessionKey history _ (final_mem_visited ..)).2

end Memmy.SessionDag.History
