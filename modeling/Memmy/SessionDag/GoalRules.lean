import Memmy.SessionDag.LastResort

/-! # The rules of a goal, twice

What a patch may do to the task of a goal is checked on its operations, against the context that the builder read,
and again by the store, on the rows that are left. `goalRules_iff` says exactly which accepted patches the store
does not refuse by its rules of a goal.

* `sideTargets_of_validated`, `checkGoalPatch_of_accepted`: what the first check promises.
* `frozen_iff`: when the task of a goal that was cleared is left frozen.
* `sideBranches_iff`, `boundary_iff`: when the rows that the operations leave pass the rules of a goal.
* `goalRules_iff`: when the patch does, for every state of every history, every turn and every accepted patch. -/

namespace Memmy.SessionDag.GoalRules

open Relation Lib.JsonValue Lib.Result Lib.Run SessionDag.Types List
open Except
open Option SessionDag.PatchSchema SessionDag.Selection SessionDag.Store SessionDag.Builder
  SessionDag.Shape SessionDag.Invariant SessionDag.Validated SessionDag.Progress SessionDag.Context
  SessionDag.Transition SessionDag.Normalize SessionDag.Completion SessionDag.Written
  SessionDag.History SessionDag.LastResort

/-! ### The property and the condition -/

/-- The patch `p` **is accepted** for the turn, and completed to `q`. -/
structure Accepted (sessionKey : String) (db : Db) (maxNodes : ℕ) (parsed : Json) (turn : DagTurn)
    (p q : DagPatch) : Prop where
  validated : validateDagPatch parsed (contextNodeKinds (readBuilderContext sessionKey db maxNodes)) = .ok p
  normalized : normalizeDagTaskTransition p (readBuilderContext sessionKey db maxNodes) (turnGoal turn) = .ok q

def patchOptions (turn : DagTurn) (q : DagPatch) : ApplyDagPatchOptions where
  turn := turnToInput turn
  patch := q
  buildMode := .llmPatch
  writeSource := .llmPatch

/-- The store **refuses by a rule of a goal**: by one of its checks, or because the goal has a task. -/
def GoalRule (e : StoreError) : Prop := (∃ e', e = .goalBoundary e') ∨ e = .constraint "dag_nodes.goal_id"

/-- **The other rules let the patch through**: the range of the turn, the operations, the new steps and the
tasks. -/
def PassesOtherRules (sessionKey : String) (env : Env) (db : Db) (turn : DagTurn) (q : DagPatch) : Prop :=
  ∃ db₁ row, upsertTurn db (turnToInput turn) env.upsertNow = .ok (db₁, row) ∧
    match q.foldlM (applyOp sessionKey env row (turnGoal turn) .llmPatch) { db := db₁ } with
    | .error e => e = .constraint "dag_nodes.goal_id"
    | .ok run =>
      assertAddedChildNodesReachableFromTaskRoot (readNodes sessionKey run.db) (readEdges run.db)
        run.addedChildNodeIds = .ok () ∧
      assertTaskTransitionIntegrity (readNodes sessionKey run.db) (readEdges run.db)
        ((selectRootTask (readNodes sessionKey db)).map (·.id)) run.addedTaskNodeIds = .ok ()

/-- The root keeps open or is frozen by what the patch says itself: no update sets it done or failed, and no edge
lets a new task continue it. -/
def LeavesFrozen (p : DagPatch) (root : DagNode) : Prop :=
  (∀ u ∈ updatesOf p root.id, ∀ s ∈ u.status, s = .frozen) ∧
    ∀ e, .addEdge e ∈ p → e.sourceId = root.id → ∀ a ∈ addedTasks p, e.targetId = a.tempId → e.type ≠ .continues

/-- The side branches that were written for the turn before start at the task. -/
def OwnBranchesAt (edges : List DagEdge) (turn : DagTurn) (taskId : Option String) : Prop :=
  ∀ e ∈ edges, e.type = .sideBranch → e.createdTurnId = some turn.turnId → taskId = some e.sourceId

/-- **When the rules of a goal agree.** Without a goal: a new task leaves the open task of a goal that was cleared
frozen. With a goal that is the root's: the goal is completed, or the root is open, or the patch opens it. With
another goal: the patch adds a task, and no node has the goal yet. -/
def GoalFits (nodes : List DagNode) (edges : List DagEdge) (turn : DagTurn) (p : DagPatch) : Prop :=
  match turnGoal turn with
  | none => OwnBranchesAt edges turn none ∧ ∀ root, selectRootTask nodes = some root →
      root.goalId.any (· ≠ "") = true → root.status.isOpen = true → addedTasks p ≠ [] → LeavesFrozen p root
  | some g =>
    (∃ root, selectRootTask nodes = some root ∧ root.goalId = some g.goalId ∧
      OwnBranchesAt edges turn (some root.id) ∧
      (g.status = .completed ∨ root.status.isOpen = true ∨ ∃ u ∈ updatesOf p root.id, u.status.isSome = true)) ∨
    ((∀ root, selectRootTask nodes = some root → root.goalId ≠ some g.goalId) ∧
      OwnBranchesAt edges turn none ∧ addedTasks p ≠ [] ∧ ∀ n ∈ nodes, n.goalId ≠ some g.goalId)

/-! ### What the first check promises -/

section Targets
variable {kinds : ContextKinds} {r r' : PatchReading} {e : AddEdgePatchOp}

def TargetIsStep (kinds : ContextKinds) (ops : DagPatch) (e : AddEdgePatchOp) : Prop :=
  (∃ a, .addNode a ∈ ops ∧ a.tempId = e.targetId ∧ a.kind ≠ .task) ∨
    ∃ k, kinds.lookup e.targetId = some k ∧ k ≠ .task

/-- What is known of the kinds and the side branches that have been read so far. -/
structure SidesOk (kinds : ContextKinds) (r : PatchReading) : Prop where
  tempKinds : ∀ t k, r.tempKinds.lookup t = some k → ∃ a, .addNode a ∈ r.ops ∧ a.tempId = t ∧ a.kind = k
  sides : ∀ e, .addEdge e ∈ r.ops → e.type = .sideBranch → TargetIsStep kinds r.ops e

theorem TargetIsStep.mono {ops : DagPatch} (h : TargetIsStep kinds ops e) (op : DagPatchOp) :
    TargetIsStep kinds (ops ++ [op]) e :=
  h.imp_left fun ⟨a, ha, hrest⟩ => ⟨a, mem_append_left _ ha, hrest⟩

theorem SidesOk.validateOp (hr : SidesOk kinds r) {rawOp : Json × ℕ}
    (h : PatchSchema.validateOp kinds r rawOp = .ok r') : SidesOk kinds r' := by
  have hold : ∀ (op : DagPatchOp) e, .addEdge e ∈ r.ops → e.type = .sideBranch →
      TargetIsStep kinds (r.ops ++ [op]) e := fun op e he ht => (hr.sides e he ht).mono op
  have htemps : ∀ (op : DagPatchOp) t k, r.tempKinds.lookup t = some k →
      ∃ a, .addNode a ∈ r.ops ++ [op] ∧ a.tempId = t ∧ a.kind = k := by
    intro op t k ht
    obtain ⟨a, ha, hrest⟩ := hr.tempKinds t k ht
    exact ⟨a, mem_append_left _ ha, hrest⟩
  unfold PatchSchema.validateOp at h
  split at h
  · cases h
  split at h
  · simp only [bind_eq_ok, throwIf_eq_ok, pure_eq, ok.injEq] at h
    obtain ⟨add, -, -, -, rfl⟩ := h
    refine ⟨fun t k ht => ?_, fun e he ht => ?_⟩
    · rw [lookup_append] at ht
      rcases or_eq_some_iff.mp ht with ht | ⟨-, ht⟩
      · exact htemps _ t k ht
      · rw [lookup_cons] at ht
        split at ht
        · next heq =>
          exact ⟨add, by simp, (eq_of_beq heq).symm, some.inj ht⟩
        · cases ht
    · rcases mem_append.mp he with he | he
      · exact hold _ e he ht
      · cases mem_singleton.mp he
  · simp only [bind_eq_ok, throwIf_eq_ok, pure_eq, ok.injEq] at h
    obtain ⟨update, -, -, -, rfl⟩ := h
    refine ⟨htemps _, fun e he ht => ?_⟩
    rcases mem_append.mp he with he | he
    · exact hold _ e he ht
    · cases mem_singleton.mp he
  · simp only [bind_eq_ok, pure_eq, ok.injEq] at h
    obtain ⟨edge, hedge, rfl⟩ := h
    refine ⟨htemps _, fun e he ht => ?_⟩
    rcases mem_append.mp he with he | he
    · exact hold _ e he ht
    · cases mem_singleton.mp he
      unfold validateAddEdge at hedge
      simp only [bind_eq_ok, throwIf_eq_ok, pure_eq, ok.injEq] at hedge
      obtain ⟨-, -, sourceId, -, targetId, -, -, -, -, -, -, hknown, type, -, -, -, -, hkind, rfl⟩ := hedge
      have hne : (r.tempKinds.lookup targetId).or (kinds.lookup targetId) ≠ some .task :=
        fun hk => hkind ⟨ht, hk⟩
      cases htemp : r.tempKinds.lookup targetId with
      | some k =>
        rw [htemp] at hne
        obtain ⟨a, ha, hid, rfl⟩ := htemps _ targetId k htemp
        exact Or.inl ⟨a, ha, hid, fun hk => hne (congrArg some hk)⟩
      | none =>
        rw [htemp] at hne hknown
        obtain ⟨k, hk⟩ := ne_none_iff_exists'.mp hknown
        exact Or.inr ⟨k, hk, fun hk' => hne (hk.trans (congrArg some hk'))⟩
  · cases h

/-- **A side branch of a checked patch** leads to a step. -/
theorem sideTargets_of_validated {input : Json} {ops : DagPatch} (h : validateDagPatch input kinds = .ok ops)
    (he : .addEdge e ∈ ops) (ht : e.type = .sideBranch) : TargetIsStep kinds ops e := by
  unfold validateDagPatch at h
  split at h
  · cases h
  simp only [bind_eq_ok] at h
  obtain ⟨-, -, h⟩ := h
  split at h
  · simp only [bind_eq_ok, pure_eq, ok.injEq] at h
    obtain ⟨r, hr, -, -, rfl⟩ := h
    have hstart : SidesOk kinds {} := ⟨fun t k ht => by simp at ht, by simp⟩
    exact (foldlM_invariant (I := SidesOk kinds) (fun _ hb _ _ _ hop => hb.validateOp hop) hstart hr).sides
      e he ht
  · cases h

end Targets

/-! ### The completed patch -/

section Completed
variable {sessionKey : String} {db : Db} {maxNodes : ℕ} {parsed : Json} {turn : DagTurn} {p q : DagPatch}
  {ctx : DagBuilderContext} {goal : Option DagGoalContext} {root : DagNode}

theorem rootTask_of_root (h : WellFormed sessionKey db)
    (hroot : selectRootTask (readNodes sessionKey db) = some root) :
    rootTask (readBuilderContext sessionKey db maxNodes) = some (toContextNode root) := by
  have hctx := contextOk_of_root h.built hroot maxNodes
  have hk : (toContextNode root).kind = .task := kind_of_root hroot
  unfold rootTask
  rw [rootTaskId_of_root h hroot maxNodes, bind_some]
  cases hf : (readBuilderContext sessionKey db maxNodes).nodes.find? fun n => n.id = root.id ∧ n.kind = .task with
  | none =>
    have := find?_eq_none.mp hf _ hctx.mem
    exact absurd (decide_eq_true ⟨rfl, hk⟩) this
  | some c =>
    have hc := find?_some hf
    rw [decide_eq_true_eq] at hc
    rw [hctx.ids c (mem_of_find?_eq_some hf) hc.1]

variable (maxNodes) in
theorem goalRoot_of_root (h : WellFormed sessionKey db)
    (hroot : selectRootTask (readNodes sessionKey db) = some root) (g : DagGoalContext) :
    goalRoot (readBuilderContext sessionKey db maxNodes) (some g) =
      if root.goalId = some g.goalId then some (toContextNode root) else none := by
  unfold goalRoot
  rw [rootTask_of_root h hroot]
  rfl

theorem goalRoot_of_no_root (h : WellFormed sessionKey db)
    (hroot : selectRootTask (readNodes sessionKey db) = none) (goal : Option DagGoalContext) :
    goalRoot (readBuilderContext sessionKey db maxNodes) goal = none := by
  rw [context_of_no_root h hroot]
  cases goal <;> rfl

section
variable (h : normalizeDagTaskTransition p ctx goal = .ok q)
include h

theorem kept_of_normalized :
    q.filterMap DagPatchOp.addNode? = p.filterMap DagPatchOp.addNode? ∧ sideBranches q = sideBranches p := by
  by_cases hadd : addedTasks p = []
  · rcases normalizeDagTaskTransition_of_no_task hadd h with rfl | ⟨root, -, rfl⟩
    · exact ⟨rfl, rfl⟩
    · exact ⟨rfl, rfl⟩
  · obtain ⟨added, hadded, -, -, ⟨-, rfl⟩ | ⟨rootId, -, htransition⟩⟩ := normalizeDagTaskTransition_ok hadd h
    · exact ⟨rfl, rfl⟩
    · obtain ⟨root, status, type, hres, rfl⟩ := normalizeTransition_eq_ok.mp htransition
      exact ⟨addNodes_transitionPatch _ _ _ _ _ _ _, sideBranches_transitionPatch hres⟩

theorem addedTasks_of_normalized : addedTasks q = addedTasks p := by
  rw [addedTasks_eq, addedTasks_eq, (kept_of_normalized h).1]

theorem addNode_mem_of_normalized {a : AddNodePatchOp} (ha : .addNode a ∈ p) : .addNode a ∈ q := by
  have hmem : a ∈ p.filterMap DagPatchOp.addNode? := mem_filterMap.mpr ⟨_, ha, rfl⟩
  rw [← (kept_of_normalized h).1] at hmem
  obtain ⟨op, hop, hadd⟩ := mem_filterMap.mp hmem
  cases op <;> cases hadd
  exact hop

theorem sideBranchSource_of_normalized
    (he : e ∈ sideBranches q) : sideBranchSource p ctx goal = some e.sourceId := by
  rw [(kept_of_normalized h).2] at he
  unfold normalizeDagTaskTransition at h
  rw [bind_eq_ok] at h
  obtain ⟨-, -, h⟩ := h
  rw [bind_eq_ok] at h
  obtain ⟨u, hside, -⟩ := h
  unfold checkSideBranches at hside
  rw [throwIf_eq_ok] at hside
  by_contra hne
  refine hside ⟨e, he, fun hsome => hne ?_⟩
  exact (filter_eq_some_iff.mp hsome).1

end

theorem updates_of_goalRoot {g : DagGoalContext} {c : DagContextNode} (hg : goalRoot ctx (some g) = some c)
    (h : normalizeDagTaskTransition p ctx (some g) = .ok q) :
    addedTasks p = [] ∧
      (g.status ≠ .completed → q = p ∧ ∀ u ∈ updatesOf p c.id, ∀ s ∈ u.status, s.isOpen = true) ∧
      (g.status = .completed → ∀ u ∈ updatesOf q c.id, ∀ s ∈ u.status, s = .done) := by
  unfold normalizeDagTaskTransition at h
  simp only [bind_eq_ok, throwIf_eq_ok] at h
  obtain ⟨-, -, -, -, h⟩ := h
  rw [hg] at h
  unfold normalizeGoalTurn at h
  simp only [bind_eq_ok, throwIf_eq_ok, not_not] at h
  obtain ⟨-, hnone, h⟩ := h
  have hmem : ∀ {ops : DagPatch} {u : UpdateNodePatchOp} {s : DagNodeStatus}, u ∈ updatesOf ops c.id →
      s ∈ u.status → s ∈ (updatesOf ops c.id).filterMap (·.status) :=
    fun hu hs => mem_filterMap.mpr ⟨_, hu, hs⟩
  refine ⟨hnone, fun hstatus => ?_, fun hstatus => ?_⟩
  · rw [if_pos hstatus, bind_eq_ok] at h
    obtain ⟨u, hopen, hq⟩ := h
    rw [throwIf_eq_ok] at hopen
    refine ⟨(ok.inj hq).symm, fun u hu s hs => ?_⟩
    by_contra hclosed
    exact hopen ⟨s, hmem hu hs, by simpa [isTerminalTaskStatus] using hclosed⟩
  · rw [if_neg (not_not.mpr hstatus), bind_eq_ok] at h
    obtain ⟨u, hdone, hq⟩ := h
    rw [throwIf_eq_ok] at hdone
    have hp : ∀ u ∈ updatesOf p c.id, ∀ s ∈ u.status, s = .done := by
      intro u hu s hs
      by_contra hne
      exact hdone ⟨s, hmem hu hs, hne⟩
    split_ifs at hq
    · rw [← ok.inj hq]
      exact hp
    · rw [← ok.inj hq]
      intro u hu s hs
      rw [show updatesOf (.updateNode { nodeId := c.id, status := some .done } :: p) c.id =
        { nodeId := c.id, status := some .done } :: updatesOf p c.id by
          rw [← singleton_append, updatesOf_append, updatesOf_updateNode, if_pos rfl]
          rfl] at hu
      rcases mem_cons.mp hu with rfl | hu
      · exact (some.inj hs).symm
      · exact hp u hu s hs

/-- **The check before the operations passes.** -/
theorem checkGoalPatch_of_accepted (h : WellFormed sessionKey db)
    (ha : Accepted sessionKey db maxNodes parsed turn p q) :
    checkGoalPatch (turnGoal turn) (selectRootTask (readNodes sessionKey db)) q = .ok () := by
  have hq := ha.normalized
  unfold checkGoalPatch
  cases hg : turnGoal turn with
  | none => rfl
  | some g =>
    cases hroot : selectRootTask (readNodes sessionKey db) with
    | none => rfl
    | some root =>
      dsimp only
      split_ifs with hsame
      · rw [hg] at hq
        have hgr := goalRoot_of_root maxNodes h hroot g
        rw [if_pos hsame] at hgr
        obtain ⟨hnone, hopen, hdone⟩ := updates_of_goalRoot hgr hq
        rw [addedTasks_of_normalized hq, hnone, throwIf_of_not (by simp), ok_bind, throwIf_of_not, ok_bind,
          throwIf_of_not]
        · rintro ⟨hc, s, hs, hne⟩
          obtain ⟨u, hu, hus⟩ := mem_filterMap.mp hs
          exact hne (hdone hc u hu s hus)
        · rintro ⟨hnc, s, hs, hclosed⟩
          obtain ⟨u, hu, hus⟩ := mem_filterMap.mp hs
          obtain ⟨rfl, hopen⟩ := hopen hnc
          rw [show s.isOpen = true from hopen u hu s hus] at hclosed
          cases hclosed
      · rfl

/-- **When the task of a goal that was cleared is left frozen.** -/
theorem frozen_iff {added : AddNodePatchOp} {status : DagNodeStatus} {type : DagEdgeType}
    (hadded : addedTasks p = [added]) {croot : DagContextNode}
    (hres : Resolves p ctx none added root.id croot status type) (hopen : croot.status.isOpen = true)
    (hgoal : croot.goalId.any (· ≠ "") = true) : status = .frozen ↔ LeavesFrozen p root := by
  have hterminal : isTerminalTaskStatus croot.status = false := by
    unfold isTerminalTaskStatus
    rw [hopen]
    rfl
  have hstatuses : ∀ s, s ∈ explicitStatuses p root.id ↔ ∃ u ∈ updatesOf p root.id, u.status = some s := by
    intro s
    unfold explicitStatuses
    rw [mem_dedup, mem_filterMap]
  have hedge : ∀ e, .addEdge e ∈ p → e.targetId = added.tempId → e ∈ taskEdges p ctx added := by
    intro e he ht
    refine mem_filter.mpr ⟨mem_filterMap.mpr ⟨_, he, rfl⟩, ?_⟩
    unfold isTaskEdge
    simp [ht]
  have hedgeType : ∀ e ∈ taskEdges p ctx added, e.type = type := by
    intro e he
    obtain ⟨e', he'⟩ := length_eq_one_iff.mp (le_antisymm hres.oneEdge (length_pos_of_mem he))
    rw [he', mem_singleton] at he
    exact hres.agrees e.type (by unfold explicitEdgeType; rw [he', he]; rfl)
  have hfrozen : status = .frozen ↔ type = .supersedes := by
    have htype := hres.edgeType
    cases status <;> simp [taskTransitionEdgeType] at htype <;> simp [← htype]
  constructor
  · rintro rfl
    refine ⟨fun u hu s hs => ?_, fun e he hs a ha ht hcontinues => ?_⟩
    · have hmem := (hstatuses s).mpr ⟨u, hu, hs⟩
      obtain ⟨s', hs'⟩ := length_eq_one_iff.mp (le_antisymm hres.oneStatus (length_pos_of_mem hmem))
      have hresolved := hres.resolved
      rw [hs', mem_singleton] at hmem
      rw [hs'] at hresolved
      exact hmem.trans hresolved
    · rw [hadded, mem_singleton] at ha
      rw [ha] at ht
      rw [hedgeType e (hedge e he ht), hfrozen.mp rfl] at hcontinues
      cases hcontinues
  · rintro ⟨hupdates, hedges⟩
    have hresolved := hres.resolved
    cases hs : (explicitStatuses p root.id).head? with
    | some s =>
      rw [hs] at hresolved
      obtain ⟨u, hu, hus⟩ := (hstatuses s).mp (mem_of_head? hs)
      exact hresolved.symm.trans (hupdates u hu s hus)
    | none =>
      rw [hs] at hresolved
      cases ht : explicitEdgeType p ctx added with
      | some t =>
        rw [ht] at hresolved
        obtain ⟨e, he, rfl⟩ := map_eq_some_iff.mp ht
        have hmem := mem_of_head? he
        obtain ⟨hsource, htarget, htypes⟩ := hres.edges e hmem
        obtain ⟨hop, -⟩ := mem_filter.mp hmem
        obtain ⟨op, hop, hope⟩ := mem_filterMap.mp hop
        have hop' : .addEdge e ∈ p := by
          cases op <;> cases hope
          exact hop
        have hne := hedges e hop' hsource added (by rw [hadded]; exact mem_singleton_self _) htarget
        rw [← hresolved]
        unfold resolveStatus
        dsimp only
        rw [if_neg (by rw [hterminal]; simp), if_neg hne]
      | none =>
        rw [ht] at hresolved
        rw [← hresolved]
        unfold resolveStatus
        rw [if_neg (by rw [hterminal]; simp), if_pos ⟨rfl, hgoal⟩]

end Completed

/-! ### What the operations leave -/

section Run
variable {sessionKey : String} {env : Env} {db : Db} {maxNodes : ℕ} {parsed : Json} {turn : DagTurn}
  {p q : DagPatch} {turnRow : DagTurn} {run : PatchRun} {olds news : List DagNode} {root : DagNode}
variable {op : AddEdgePatchOp}
variable {g : DagGoalContext} {ids : List String} {id : String}

theorem sideBranchError_iff (hb : Built sessionKey (shapes db) db.edges) {e : DagEdge} {row step : DagNode}
    (hrow : row ∈ db.nodes) (hid : row.id = e.sourceId) (hk : row.kind = .task) {g : String}
    (hg : row.goalId = some g) (hne : g ≠ "") (hstep : step ∈ db.nodes) (hstepId : step.id = e.targetId)
    (hstepKind : step.kind ≠ .task) {goalTask : Option DagNode} {turnId : String} :
    sideBranchError (readNodes sessionKey db) goalTask turnId e = none ↔
      (e.createdTurnId = some turnId → goalTask.map (·.id) = some e.sourceId) := by
  have hfs := byId_readNodes hb (parse_mem_readNodes hb hrow)
  have hft := byId_readNodes hb (parse_mem_readNodes hb hstep)
  rw [show (parseNodeRow row).id = e.sourceId from hid] at hfs
  rw [show (parseNodeRow step).id = e.targetId from hstepId] at hft
  unfold sideBranchError
  rw [hfs, hft, if_neg (by simp [hg, hk, hstepKind, hne])]
  split_ifs with hown
  · simp only [false_iff]
    exact fun h => hown.2 (h hown.1)
  · simp only [true_iff]
    intro hcreated
    by_contra hother
    exact hown ⟨hcreated, hother⟩

theorem goalId_ne_empty (hg : turnGoal turn = some g) : g.goalId ≠ "" := by
  unfold turnGoal at hg
  split at hg
  · next hgoalId _ _ =>
    cases hg
    simpa using (filter_eq_some_iff.mp hgoalId).2
  · cases hg

section
variable (h : WellFormed sessionKey db)
include h

theorem tempName_ne_old (hok : PatchOk ids q)
    {a : AddNodePatchOp} (ha : .addNode a ∈ q) {m : DagNode} (hm : m ∈ db.nodes) : a.tempId ≠ m.id := by
  obtain ⟨s, hs⟩ := h.built.named (shape m) (mem_shapes.mpr ⟨m, hm, rfl⟩)
  exact fun heq => (hok.adds a ha).temp.ne_id s (heq.trans hs)

section
variable (ha : Accepted sessionKey db maxNodes parsed turn p q)
include ha

theorem source_of_sideBranch (hok : PatchOk ids q) (hone : (addedTasks q).length ≤ 1)
    (hran : Ran sessionKey env turnRow (turnGoal turn) db q run olds news)
    (hside : op ∈ sideBranches q) (hsource : Names db run.tempNodeIds op.sourceId id) :
    ∃ g, turnGoal turn = some g ∧
      ∃ row ∈ run.db.nodes, row.id = id ∧ row.kind = .task ∧ row.goalId = some g.goalId := by
  have hexpected := sideBranchSource_of_normalized ha.normalized hside
  unfold sideBranchSource at hexpected
  cases hg : turnGoal turn with
  | none => rw [hg] at hexpected; cases hexpected
  | some g =>
    rw [hg] at hexpected
    refine ⟨g, rfl, ?_⟩
    cases hgr : goalRoot (readBuilderContext sessionKey db maxNodes) (some g) with
    | some c =>
      rw [hgr] at hexpected
      cases hroot : selectRootTask (readNodes sessionKey db) with
      | none => rw [goalRoot_of_no_root h hroot] at hgr; cases hgr
      | some root =>
        rw [goalRoot_of_root _ h hroot] at hgr
        split_ifs at hgr with hsame
        cases hgr
        obtain ⟨m, hm, rfl⟩ := exists_row_of_root hroot
        obtain ⟨m', hm', hrow⟩ := hran.exists_old hm
        rw [show op.sourceId = m.id from (some.inj hexpected).symm] at hsource
        exact ⟨m', by rw [hran.nodes]; exact mem_append_left _ hm',
          hrow.id.trans (names_old h.built hran hok hm hsource).symm,
          hrow.kind.trans (kind_of_root hroot : (parseNodeRow m).kind = .task),
          hrow.goalId.trans hsame⟩
    | none =>
      rw [hgr, ← addedTasks_of_normalized ha.normalized] at hexpected
      obtain ⟨added, hhead, hid⟩ := map_eq_some_iff.mp hexpected
      have hmem := mem_of_head? hhead
      obtain ⟨x, hx⟩ := length_eq_one_iff.mp (le_antisymm hone (length_pos_of_mem hmem))
      rw [hx, mem_singleton] at hmem
      obtain ⟨n, hn, hrow, htemp, hk, -⟩ := exists_addedTask hran (hx.trans (congrArg (fun a => [a]) hmem.symm))
      refine ⟨n, by rw [hran.nodes]; exact mem_append_right _ hn, ?_, hk, ?_⟩
      · rw [← hid] at hsource
        rcases hsource with hs | ⟨hname, m, hm, hmid⟩
        · exact hran.snd_eq_of_temp hok.temps htemp hs
        · exact absurd (hname.trans hmid.symm)
            (tempName_ne_old h hok (mem_addedTasks.mp (mem_of_head? hhead)).1 hm)
      · rw [hrow.goalId, hg]
        exact if_pos (hrow.kind.symm.trans hk)

theorem target_of_sideBranch
    (hok : PatchOk ((contextNodeKinds (readBuilderContext sessionKey db maxNodes)).map (·.1)) q)
    (hran : Ran sessionKey env turnRow (turnGoal turn) db q run olds news)
    (hside : op ∈ sideBranches q) (htarget : Names db run.tempNodeIds op.targetId id) :
    ∃ step ∈ run.db.nodes, step.id = id ∧ step.kind ≠ .task := by
  have hkind : TargetIsStep (contextNodeKinds (readBuilderContext sessionKey db maxNodes)) p op := by
    rw [(kept_of_normalized ha.normalized).2] at hside
    obtain ⟨hedge, ht⟩ := mem_filter.mp hside
    obtain ⟨o, ho, hoe⟩ := mem_filterMap.mp hedge
    cases o <;> cases hoe
    exact sideTargets_of_validated ha.validated ho (of_decide_eq_true ht)
  rcases htarget with htemp | ⟨hname, m, hm, hmid⟩
  · obtain ⟨-, n, hn, rfl⟩ := hran.mem_tempNodeIds htemp
    obtain ⟨a, haq, hrow, htemp'⟩ := hran.of_new hn
    have hname : a.tempId = op.targetId := hran.eq_of_names (Or.inl htemp') htemp
    refine ⟨n, by rw [hran.nodes]; exact mem_append_right _ hn, rfl, ?_⟩
    rw [hrow.kind]
    rcases hkind with ⟨a', ha', hid', hk'⟩ | ⟨k, hk, -⟩
    · have htemps := hok.temps
      have hsame : a' = a := inj_on_of_nodup_map htemps
        (mem_filterMap.mpr ⟨_, addNode_mem_of_normalized ha.normalized ha', rfl⟩)
        (mem_filterMap.mpr ⟨_, haq, rfl⟩) (hid'.trans hname.symm)
      exact hsame ▸ hk'
    · refine absurd ?_ (hok.adds a haq).new
      rw [hname, ← lookup_isSome, hk]
      rfl
  · obtain ⟨m', hm', hrow⟩ := hran.exists_old hm
    refine ⟨m', by rw [hran.nodes]; exact mem_append_left _ hm', hrow.id.trans hmid, ?_⟩
    rw [hrow.kind]
    rcases hkind with ⟨a', ha', hid', -⟩ | ⟨k, hk, hne⟩
    · exact absurd (hid'.trans (hname.trans hmid.symm))
        (tempName_ne_old h hok (addNode_mem_of_normalized ha.normalized ha') hm)
    · obtain ⟨l₁, l₂, hl, -⟩ := lookup_eq_some_iff.mp hk
      have hmem : (op.targetId, k) ∈ contextNodeKinds (readBuilderContext sessionKey db maxNodes) := by
        rw [hl]
        simp
      obtain ⟨c, hc, hck⟩ := mem_map.mp hmem
      rw [Prod.mk.injEq] at hck
      cases hroot : selectRootTask (readNodes sessionKey db) with
      | none =>
        rw [context_of_no_root h hroot] at hc
        cases hc
      | some root =>
        obtain ⟨n, hn, rfl⟩ := (contextOk_of_root h.built hroot maxNodes).rows c hc
        have heq : n = parseNodeRow m := eq_of_id_readNodes h.built hn (parse_mem_readNodes h.built hm)
          (hck.1.trans (hname.trans hmid.symm))
        rw [heq] at hck
        exact fun hk' => hne (hck.2.symm.trans hk')

/-- **When the side branches pass**: those that were there, and were written for the turn before, have to start
at the task of its goal. -/
theorem sideBranches_iff (hran : Ran sessionKey env turnRow (turnGoal turn) db q run olds news) :
    ((readEdges run.db).filter fun e => e.type = .sideBranch).findSome? (sideBranchError (readNodes sessionKey run.db)
      ((turnGoal turn).bind fun g => (readNodes sessionKey run.db).find? fun n => n.goalId = some g.goalId)
      turn.turnId) = none ↔
    OwnBranchesAt db.edges turn (((turnGoal turn).bind fun g =>
      (readNodes sessionKey run.db).find? fun n => n.goalId = some g.goalId).map (·.id)) := by
  obtain ⟨hok, hone⟩ := patchOk_of_normalized (validateDagPatch_ok ha.validated)
    (fun id hid => mem_contextNodeKinds h hid) ha.normalized
  rw [findSome?_eq_none_iff]
  constructor
  · intro hall e he ht hcreated
    have herror := hall e (mem_filter.mpr ⟨mem_readEdges.mpr (hran.loop.oldEdges e he), decide_eq_true ht⟩)
    obtain ⟨⟨s, hs, hsid, hsk, g, hg, hgne⟩, t, htm, htid, htk⟩ := h.sideBranches e he ht
    obtain ⟨row, hrow, rfl⟩ := mem_shapes.mp (hran.loop.oldNodes s hs)
    obtain ⟨step, hstep, rfl⟩ := mem_shapes.mp (hran.loop.oldNodes t htm)
    exact (sideBranchError_iff hran.loop.built hrow hsid hsk hg hgne hstep htid htk).mp herror hcreated
  · intro hown e he
    obtain ⟨he, ht⟩ := mem_filter.mp he
    rw [mem_readEdges] at he
    rw [decide_eq_true_eq] at ht
    by_cases hold : e ∈ db.edges
    · obtain ⟨⟨s, hs, hsid, hsk, g, hg, hgne⟩, t, htm, htid, htk⟩ := h.sideBranches e hold ht
      obtain ⟨row, hrow, rfl⟩ := mem_shapes.mp (hran.loop.oldNodes s hs)
      obtain ⟨step, hstep, rfl⟩ := mem_shapes.mp (hran.loop.oldNodes t htm)
      exact (sideBranchError_iff hran.loop.built hrow hsid hsk hg hgne hstep htid htk).mpr (hown e hold ht)
    · obtain ⟨es, hes, hall⟩ := hran.edges
      rw [hes] at he
      obtain ⟨-, -, op, hop, htype, hsource, htarget⟩ := hall e ((mem_append.mp he).resolve_left hold)
      have hside : op ∈ sideBranches q :=
        mem_filter.mpr ⟨mem_filterMap.mpr ⟨_, hop, rfl⟩, decide_eq_true (htype.symm.trans ht)⟩
      obtain ⟨g, hg, row, hrow, hid, hk, hgoal⟩ := source_of_sideBranch h ha hok hone hran hside hsource
      obtain ⟨step, hstep, hstepId, hstepKind⟩ := target_of_sideBranch h ha hok hran hside htarget
      refine (sideBranchError_iff hran.loop.built hrow hid hk hgoal (goalId_ne_empty hg) hstep hstepId
        hstepKind).mpr fun _ => ?_
      rw [hg, bind_some, find_goal hran.loop.built hrow hgoal]
      exact congrArg some hid

end

end

theorem statusAfter_cases (ops : DagPatch) (id : String) (status : DagNodeStatus) :
    (statusAfter ops id status = status ∧ ∀ u ∈ updatesOf ops id, u.status = none) ∨
      ∃ u ∈ updatesOf ops id, u.status = some (statusAfter ops id status) := by
  unfold statusAfter
  generalize updatesOf ops id = us
  induction us generalizing status with
  | nil => exact Or.inl ⟨rfl, by simp⟩
  | cons u us ih =>
    rw [foldl_cons]
    rcases ih (u.status.getD status) with ⟨hsame, hnone⟩ | ⟨u', hu', hs⟩
    · cases hs : u.status with
      | none =>
        rw [hs] at hsame
        exact Or.inl ⟨hsame, forall_mem_cons.mpr ⟨hs, hnone⟩⟩
      | some s =>
        rw [hs] at hsame
        exact Or.inr ⟨u, mem_cons_self, by rw [hs]; exact congrArg some hsame.symm⟩
    · exact Or.inr ⟨u', mem_cons_of_mem _ hu', hs⟩

theorem exists_rootRow (hran : Ran sessionKey env turnRow (turnGoal turn) db q run olds news)
    (hroot : selectRootTask (readNodes sessionKey db) = some root) :
    ∃ m ∈ run.db.nodes, m.id = root.id ∧ m.goalId = root.goalId ∧
      m.status = statusAfter q root.id root.status := by
  obtain ⟨m, hm, rfl⟩ := exists_row_of_root hroot
  obtain ⟨m', hm', hrow⟩ := hran.exists_old hm
  exact ⟨m', by rw [hran.nodes]; exact mem_append_left _ hm', hrow.id, hrow.goalId, hrow.status⟩

section
variable (h : WellFormed sessionKey db)
include h

section
variable (ha : Accepted sessionKey db maxNodes parsed turn p q)
variable (hran : Ran sessionKey env turnRow (turnGoal turn) db q run olds news)
include ha hran

theorem cleared_iff (hg : turnGoal turn = none)
    (hroot : selectRootTask (readNodes sessionKey db) = some root) (hgoal : root.goalId.any (· ≠ "") = true)
    (hopen : root.status.isOpen = true) (hadd : run.addedTaskNodeIds = id :: ids) :
    ((byId (readNodes sessionKey run.db) root.id).map (·.status) = some .frozen ∧
      ((readEdges run.db).any fun e => decide (e.sourceId = root.id ∧
        (byId (readNodes sessionKey run.db) id).map (·.id) = some e.targetId ∧ e.type = .supersedes)) = true) ↔
    LeavesFrozen p root := by
  have hlen := length_addedTaskNodeIds hran
  have hne : addedTasks p ≠ [] := by
    rw [addedTasks_of_normalized ha.normalized, hadd] at hlen
    exact fun hnil => by rw [hnil] at hlen; cases hlen
  have hq := ha.normalized
  obtain ⟨hok, -⟩ := patchOk_of_normalized (validateDagPatch_ok ha.validated)
    (fun id hid => mem_contextNodeKinds h hid) hq
  rw [hg] at hq
  have hctx := contextOk_of_root h.built hroot maxNodes
  obtain ⟨added, hadded, -, -, ⟨hnone, -⟩ | ⟨rootId, hid, htransition⟩⟩ := normalizeDagTaskTransition_ok hne hq
  · rw [rootTaskId_of_root h hroot maxNodes] at hnone
    cases hnone
  rw [rootTaskId_of_root h hroot maxNodes] at hid
  cases hid
  obtain ⟨croot, status, type, hres, hqeq⟩ := normalizeTransition_eq_ok.mp htransition
  have hcroot : croot = toContextNode root :=
    hctx.ids croot (mem_of_find?_eq_some hres.found) (by simpa using find?_some hres.found)
  obtain ⟨m, hm, hmid, -, hmstatus⟩ := exists_rootRow hran hroot
  have hbyId := byId_readNodes hran.loop.built (parse_mem_readNodes hran.loop.built hm)
  rw [show (parseNodeRow m).id = root.id from hmid] at hbyId
  have hstatus : (parseNodeRow m).status = status := by
    rw [parseNodeRow_status, hmstatus, hqeq]
    exact statusAfter_root hres (by rw [hcroot]; rfl)
  rw [hbyId, map_some, hstatus, some.injEq,
    ← frozen_iff hadded hres (by rw [hcroot]; exact hopen) (by rw [hcroot]; exact hgoal)]
  refine ⟨And.left, fun hfrozen => ⟨hfrozen, ?_⟩⟩
  have haddedq : addedTasks q = [added] := by rw [addedTasks_of_normalized ha.normalized, hadded]
  obtain ⟨n, hn, -, htemp, -, hids⟩ := exists_addedTask hran haddedq
  rw [hadd, List.cons.injEq] at hids
  obtain ⟨e, he, htype, hs, ht⟩ := hran.linked (transitionEdge added root.id type) (by
    rw [hqeq]
    exact mem_append_right _ (mem_singleton_self _))
  obtain ⟨old, hold, hroot'⟩ := exists_row_of_root hroot
  have hsource : e.sourceId = root.id := by
    rw [show (transitionEdge added root.id type).sourceId = old.id by rw [← hroot']; rfl] at hs
    rw [names_old h.built hran hok hold hs, ← hroot']
    rfl
  have htarget : e.targetId = n.id := by
    rcases ht with ht | ⟨hname, m', hm', hid'⟩
    · exact hran.snd_eq_of_temp hok.temps ht htemp
    · exact absurd (hname.trans hid'.symm)
        (tempName_ne_old h hok (mem_addedTasks.mp (haddedq ▸ mem_cons_self : added ∈ addedTasks q)).1 hm')
  have hnew := byId_readNodes hran.loop.built (parse_mem_readNodes hran.loop.built
    (by rw [hran.nodes]; exact mem_append_right _ hn : n ∈ run.db.nodes))
  have hsupersedes : type = .supersedes := by
    have := hres.edgeType
    rw [hfrozen] at this
    exact (some.inj this).symm
  refine any_eq_true.mpr ⟨e, mem_readEdges.mpr he, decide_eq_true ⟨hsource, ?_, htype.trans hsupersedes⟩⟩
  rw [hids.1, show n.id = (parseNodeRow n).id from rfl, hnew, htarget]
  rfl

theorem boundary_none (hg : turnGoal turn = none) :
    (∃ goalTask, assertGoalBoundary (readNodes sessionKey run.db) (readEdges run.db) turn.turnId (turnGoal turn)
      (selectRootTask (readNodes sessionKey db)) run.addedTaskNodeIds = .ok goalTask) ↔
    GoalFits (readNodes sessionKey db) db.edges turn p := by
  have hsides := sideBranches_iff h ha hran
  have hlen := length_addedTaskNodeIds hran
  rw [addedTasks_of_normalized ha.normalized] at hlen
  unfold GoalFits assertGoalBoundary
  rw [hg] at hsides ⊢
  dsimp only [bind_none, map_none] at hsides ⊢
  cases hfind : ((readEdges run.db).filter fun e => e.type = .sideBranch).findSome?
      (sideBranchError (readNodes sessionKey run.db) none turn.turnId) with
  | some e =>
    rw [hfind] at hsides
    simp only [reduceCtorEq, exists_false, false_iff]
    exact fun hfits => by cases hsides.mpr hfits.1
  | none =>
    rw [and_iff_right (hsides.mp hfind)]
    cases hroot : selectRootTask (readNodes sessionKey db) with
    | none => simp
    | some root =>
      cases hadd : run.addedTaskNodeIds with
      | nil =>
        rw [hadd, length_nil, eq_comm, length_eq_zero_iff] at hlen
        simp [hlen]
      | cons id ids =>
        dsimp only [head?_cons]
        have hne : addedTasks p ≠ [] := by
          intro hnil
          rw [hadd, hnil] at hlen
          cases hlen
        by_cases hcleared : root.goalId.any (· ≠ "") = true ∧ root.status.isOpen = true
        · have hiff := cleared_iff h ha hran hg hroot hcleared.1 hcleared.2 hadd
          constructor
          · rintro ⟨goalTask, hok⟩ r hr - - -
            cases hr
            split_ifs at hok with hbad
            refine hiff.mp ⟨?_, ?_⟩
            · by_contra hne'
              exact hbad ⟨hcleared.1, hcleared.2, Or.inl hne'⟩
            · by_contra hne'
              exact hbad ⟨hcleared.1, hcleared.2, Or.inr (by simpa using hne')⟩
          · intro hfits
            obtain ⟨hfrozen, hedge⟩ := hiff.mpr (hfits root rfl hcleared.1 hcleared.2 hne)
            refine ⟨none, if_neg ?_⟩
            rintro ⟨-, -, hbad | hbad⟩
            · exact hbad hfrozen
            · rw [hedge] at hbad
              cases hbad
        · rw [if_neg fun hc => hcleared ⟨hc.1, hc.2.1⟩]
          refine iff_of_true ⟨_, rfl⟩ ?_
          intro r hr hgoal hopen
          cases hr
          exact absurd ⟨hgoal, hopen⟩ hcleared

theorem boundary_same
    (hg : turnGoal turn = some g) (hroot : selectRootTask (readNodes sessionKey db) = some root)
    (hsame : root.goalId = some g.goalId) :
    (∃ goalTask, assertGoalBoundary (readNodes sessionKey run.db) (readEdges run.db) turn.turnId (turnGoal turn)
      (selectRootTask (readNodes sessionKey db)) run.addedTaskNodeIds = .ok goalTask) ↔
    OwnBranchesAt db.edges turn (some root.id) ∧ (g.status = .completed ∨ root.status.isOpen = true ∨
      ∃ u ∈ updatesOf p root.id, u.status.isSome = true) := by
  have hq := ha.normalized
  rw [hg] at hq
  have hgr := goalRoot_of_root maxNodes h hroot g
  rw [if_pos hsame] at hgr
  obtain ⟨hnone, hopen, -⟩ := updates_of_goalRoot hgr hq
  have hempty : run.addedTaskNodeIds = [] := by
    rw [← length_eq_zero_iff, length_addedTaskNodeIds hran, addedTasks_of_normalized ha.normalized, hnone]
    rfl
  obtain ⟨m, hm, hmid, hmgoal, hmstatus⟩ := exists_rootRow hran hroot
  have hfind := find_goal hran.loop.built hm (hmgoal.trans hsame)
  have hsides := sideBranches_iff h ha hran
  unfold assertGoalBoundary
  rw [hg] at hsides ⊢
  dsimp only [bind_some] at hsides ⊢
  rw [hfind, hroot, hempty] at *
  rw [map_some, show (parseNodeRow m).id = root.id from hmid] at hsides
  cases herror : ((readEdges run.db).filter fun e => e.type = .sideBranch).findSome?
      (sideBranchError (readNodes sessionKey run.db) (some (parseNodeRow m)) turn.turnId) with
  | some e =>
    rw [herror] at hsides
    simp only [reduceCtorEq, exists_false, false_iff]
    exact fun hfits => by cases hsides.mpr hfits.1
  | none =>
    rw [and_iff_right (hsides.mp herror)]
    dsimp only [bind_some]
    rw [throwIf_of_not (by simp), ok_bind, throwIf_of_not (by simp), ok_bind, throwIf_of_not (by simp [hsame]), ok_bind]
    by_cases hc : g.status = .completed
    · rw [if_pos hc]
      exact iff_of_true ⟨_, rfl⟩ (Or.inl hc)
    · obtain ⟨rfl, hopen⟩ := hopen hc
      rw [if_neg hc, or_iff_right hc]
      have hiff : m.status.isOpen = true ↔ root.status.isOpen = true ∨
          ∃ u ∈ updatesOf q root.id, u.status.isSome = true := by
        rw [hmstatus]
        rcases statusAfter_cases q root.id root.status with ⟨hkept, hno⟩ | ⟨u, hu, hs⟩
        · rw [hkept]
          refine ⟨Or.inl, fun hor => hor.resolve_right ?_⟩
          rintro ⟨u, hu, hsome⟩
          rw [hno u hu] at hsome
          cases hsome
        · exact iff_of_true (hopen u hu _ hs) (Or.inr ⟨u, hu, by rw [hs]; rfl⟩)
      rw [← hiff]
      constructor
      · rintro ⟨goalTask, hok⟩
        rw [bind_eq_ok] at hok
        obtain ⟨u, hopen', -⟩ := hok
        rw [throwIf_eq_ok, Bool.not_eq_false] at hopen'
        exact hopen'
      · intro ho
        exact ⟨none, by rw [throwIf_of_not (by rw [parseNodeRow_status, ho]; simp)]; rfl⟩

/-- **With another goal.** -/
theorem boundary_other (hg : turnGoal turn = some g)
    (hother : ∀ root, selectRootTask (readNodes sessionKey db) = some root → root.goalId ≠ some g.goalId) :
    (∃ goalTask, assertGoalBoundary (readNodes sessionKey run.db) (readEdges run.db) turn.turnId (turnGoal turn)
      (selectRootTask (readNodes sessionKey db)) run.addedTaskNodeIds = .ok goalTask) ↔
    OwnBranchesAt db.edges turn none ∧ addedTasks p ≠ [] ∧
      ∀ n ∈ readNodes sessionKey db, n.goalId ≠ some g.goalId := by
  obtain ⟨hok, hone⟩ := patchOk_of_normalized (validateDagPatch_ok ha.validated)
    (fun id hid => mem_contextNodeKinds h hid) ha.normalized
  have hlen := length_addedTaskNodeIds hran
  have hswitch : ¬ (selectRootTask (readNodes sessionKey db)).bind (·.goalId) = some g.goalId := by
    intro hbind
    obtain ⟨root, hroot, hgoal⟩ := bind_eq_some_iff.mp hbind
    exact hother root hroot hgoal
  have hsides := sideBranches_iff h ha hran
  unfold assertGoalBoundary
  rw [hg] at hsides ⊢
  dsimp only [bind_some] at hsides ⊢
  cases hadd : addedTasks q with
  | nil =>
    have hempty : run.addedTaskNodeIds = [] := by
      rw [← length_eq_zero_iff, hlen, hadd]
      rfl
    refine iff_of_false ?_ fun hfits => hfits.2.1 (by rw [← addedTasks_of_normalized ha.normalized, hadd])
    rintro ⟨goalTask, hboundary⟩
    split at hboundary
    · cases hboundary
    split at hboundary
    · cases hboundary
    simp only [bind_eq_ok, throwIf_eq_ok] at hboundary
    obtain ⟨-, -, -, -, -, hneeds, -⟩ := hboundary
    exact hneeds ⟨hswitch, hempty⟩
  | cons added rest =>
    have haddedq : addedTasks q = [added] := by
      rw [hadd, length_cons] at hone
      rw [hadd, length_eq_zero_iff.mp (by omega : rest.length = 0)]
    have hadop := (mem_addedTasks.mp (haddedq ▸ mem_cons_self : added ∈ addedTasks q))
    obtain ⟨n, hn, hrow, -, hk, hids⟩ := exists_addedTask hran haddedq
    have hnmem : n ∈ run.db.nodes := by
      rw [hran.nodes]
      exact mem_append_right _ hn
    have hngoal : n.goalId = some g.goalId := by
      rw [hrow.goalId, hg]
      exact if_pos (hrow.kind.symm.trans hk)
    have hnopen : n.status.isOpen = true := by
      rw [hrow.status]
      exact (hok.adds added hadop.1).openTask hadop.2
    have hfree : ∀ n ∈ readNodes sessionKey db, n.goalId ≠ some g.goalId := by
      intro old hold hgoal
      obtain ⟨m, hm, -, rfl⟩ := mem_readNodes.mp hold
      obtain ⟨m', hm', hrow'⟩ := hran.exists_old hm
      have heq := eq_of_goal hran.loop.built hnmem
        (by rw [hran.nodes]; exact mem_append_left _ hm') hngoal (hrow'.goalId.trans hgoal)
      exact hran.new_ne_old hn hm (by rw [heq]; exact hrow'.id)
    have hown : OwnBranchesAt db.edges turn (some n.id) ↔ OwnBranchesAt db.edges turn none := by
      refine forall₂_congr fun e he => forall₂_congr fun _ _ => ?_
      obtain ⟨-, ⟨s, hs, hsid⟩, -⟩ := h.built.joins e he
      obtain ⟨m, hm, rfl⟩ := mem_shapes.mp hs
      refine iff_of_false ?_ (by simp)
      rw [some.injEq]
      exact fun heq => hran.new_ne_old hn hm (heq.trans hsid.symm)
    have hfits : addedTasks p ≠ [] ∧ ∀ n ∈ readNodes sessionKey db, n.goalId ≠ some g.goalId := by
      refine ⟨?_, hfree⟩
      rw [← addedTasks_of_normalized ha.normalized, haddedq]
      simp
    rw [find_goal hran.loop.built hnmem hngoal] at hsides ⊢
    rw [map_some, show (parseNodeRow n).id = n.id from rfl, hown] at hsides
    rw [and_iff_left hfits, ← hsides]
    cases herror : ((readEdges run.db).filter fun e => e.type = .sideBranch).findSome?
        (sideBranchError (readNodes sessionKey run.db) (some (parseNodeRow n)) turn.turnId) with
    | some e => simp
    | none =>
      dsimp only
      rw [hids, throwIf_of_not (by simp), ok_bind, throwIf_of_not (fun hc => hswitch hc.1), ok_bind,
        throwIf_of_not (by simp), ok_bind]
      refine iff_of_true ?_ rfl
      split_ifs
      · exact ⟨_, rfl⟩
      · exact ⟨none, by rw [throwIf_of_not (by rw [parseNodeRow_status, hnopen]; simp)]; rfl⟩

/-- **When the rules of a goal let the rows pass.** -/
theorem boundary_iff :
    (∃ goalTask, assertGoalBoundary (readNodes sessionKey run.db) (readEdges run.db) turn.turnId (turnGoal turn)
      (selectRootTask (readNodes sessionKey db)) run.addedTaskNodeIds = .ok goalTask) ↔
    GoalFits (readNodes sessionKey db) db.edges turn p := by
  cases hg : turnGoal turn with
  | none =>
    rw [← hg]
    exact boundary_none h ha hran hg
  | some g =>
    unfold GoalFits
    rw [hg]
    dsimp only
    rw [← hg]
    by_cases hsame : ∃ root, selectRootTask (readNodes sessionKey db) = some root ∧ root.goalId = some g.goalId
    · obtain ⟨root, hroot, hgoal⟩ := hsame
      rw [boundary_same h ha hran hg hroot hgoal]
      constructor
      · exact fun hfits => Or.inl ⟨root, hroot, hgoal, hfits⟩
      · rintro (⟨r, hr, -, hfits⟩ | ⟨hother, -⟩)
        · rw [hroot] at hr
          cases hr
          exact hfits
        · exact absurd hgoal (hother root hroot)
    · have hother : ∀ root, selectRootTask (readNodes sessionKey db) = some root → root.goalId ≠ some g.goalId :=
        fun root hroot hgoal => hsame ⟨root, hroot, hgoal⟩
      rw [boundary_other h ha hran hg hother]
      constructor
      · exact fun hfits => Or.inr ⟨hother, hfits⟩
      · rintro (⟨r, hr, hgoal, -⟩ | ⟨-, hfits⟩)
        · exact absurd ⟨r, hr, hgoal⟩ hsame
        · exact hfits

end

theorem taken_of_foldlM (hok : PatchOk ids q)
    (hone : (addedTasks q).length ≤ 1) (hids : ∀ id ∈ ids, ∃ m ∈ db.nodes, m.id = id)
    (hloop : q.foldlM (applyOp sessionKey env turnRow (turnGoal turn) .llmPatch) { db := db } =
      .error (.constraint "dag_nodes.goal_id")) :
    addedTasks q ≠ [] ∧ ∃ g, turnGoal turn = some g ∧ ∃ m ∈ db.nodes, m.goalId = some g.goalId := by
  obtain ⟨pre, op, post, run, hsplit, ⟨olds, news, hran⟩, hop⟩ := foldlM_prefix_error
    (I := fun ops run => ∃ olds news, Ran sessionKey env turnRow (turnGoal turn) db ops run olds news)
    (fun _ _ _ _ _ hsplit ⟨_, _, hran⟩ hop => hran.applyOp hok hids hsplit hop)
    ⟨_, _, ran_nil h⟩ hloop
  have hmem : op ∈ q := by rw [hsplit]; simp
  cases op with
  | addNode a =>
    rcases addNode_error hran (hok.adds a hmem).importance
      (fun hk => length_addedTasks_before hone hsplit hk) hop with ⟨-, hk, htaken⟩ | ⟨herr, -⟩
    · exact ⟨ne_nil_of_mem (mem_addedTasks.mpr ⟨hmem, hk⟩), htaken⟩
    · exact absurd (StoreError.constraint.inj herr) (by decide)
  | updateNode u => exact absurd hop (updateNode_error hran (hok.updates u hmem) hids)
  | addEdge e =>
    have hscopes := hok.scopes
    rw [hsplit, scoped_append] at hscopes
    obtain ⟨s, t, -, -, ⟨herr, -⟩ | ⟨herr, -⟩ | ⟨herr, -⟩ | ⟨herr, -⟩⟩ :=
      addEdge_error hran hids hscopes.2.1 hop
    · cases herr
    · cases herr
    · cases herr
    · exact absurd (StoreError.constraint.inj herr) (by decide)

end

theorem not_fits_of_taken (ha : Accepted sessionKey db maxNodes parsed turn p q) (h : WellFormed sessionKey db)
    (hadd : addedTasks q ≠ []) (hg : turnGoal turn = some g) {m : DagNode}
    (hm : m ∈ db.nodes) (hgoal : m.goalId = some g.goalId) :
    ¬ GoalFits (readNodes sessionKey db) db.edges turn p := by
  rw [addedTasks_of_normalized ha.normalized] at hadd
  unfold GoalFits
  rw [hg]
  rintro (⟨root, hroot, hsame, -⟩ | ⟨-, -, -, hfree⟩)
  · have hgr := goalRoot_of_root maxNodes h hroot g
    rw [if_pos hsame] at hgr
    have hq := ha.normalized
    rw [hg] at hq
    exact hadd (updates_of_goalRoot hgr hq).1
  · exact hfree _ (parse_mem_readNodes h.built hm) hgoal

end Run

/-! ### In every state of every history -/

section Always
variable {sessionKey : String}

theorem Accepted.congr {db₁ : Db}
    (hn : db₁.nodes = db.nodes) (he : db₁.edges = db.edges)
    (ha : Accepted sessionKey db maxNodes parsed turn p q) :
    Accepted sessionKey db₁ maxNodes parsed turn p q := by
  have hctx := readBuilderContext_congr sessionKey maxNodes hn he
  exact ⟨by rw [hctx]; exact ha.validated, by rw [hctx]; exact ha.normalized⟩

theorem applyPatch_of_upsert {db₁ : Db} {row : DagTurn}
    (hup : upsertTurn db (turnToInput turn) env.upsertNow = .ok (db₁, row))
    (hcheck : checkGoalPatch (turnGoal turn) (selectRootTask (readNodes sessionKey db)) q = .ok ()) :
    applyPatch sessionKey env db (patchOptions turn q) = (do
      let run ← q.foldlM (applyOp sessionKey env row (turnGoal turn) .llmPatch) { db := db₁ }
      let db' ← finishPatch sessionKey env (patchOptions turn q) (selectRootTask (readNodes sessionKey db)) run
      pure (db', run)) := by
  have hup' : upsertTurn db (patchOptions turn q).turn env.upsertNow = .ok (db₁, row) := hup
  have hcheck' : checkGoalPatch (patchOptions turn q).turn.goalContext
      (selectRootTask (readNodes sessionKey db)) (patchOptions turn q).patch = .ok () := hcheck
  unfold applyPatch
  simp only [hup', ok_bind, hcheck', Except.mapError]
  rfl

theorem finishPatch_goalRule {env : Env} {turn : DagTurn} {q : DagPatch} {run : PatchRun}
    {root : Option DagNode} :
    (∃ e, finishPatch sessionKey env (patchOptions turn q) root run = .error e ∧ GoalRule e) ↔
      (assertAddedChildNodesReachableFromTaskRoot (readNodes sessionKey run.db) (readEdges run.db)
        run.addedChildNodeIds = .ok () ∧
      assertTaskTransitionIntegrity (readNodes sessionKey run.db) (readEdges run.db) (root.map (·.id))
        run.addedTaskNodeIds = .ok ()) ∧
      ¬ ∃ goalTask, assertGoalBoundary (readNodes sessionKey run.db) (readEdges run.db) turn.turnId
        (turnGoal turn) root run.addedTaskNodeIds = .ok goalTask := by
  unfold finishPatch
  dsimp only
  cases hchildren : assertAddedChildNodesReachableFromTaskRoot (readNodes sessionKey run.db) (readEdges run.db)
      run.addedChildNodeIds with
  | error e =>
    refine iff_of_false ?_ fun h => by cases h.1.1
    rintro ⟨e', he, hrule⟩
    obtain rfl : e = e' := error.inj he
    unfold assertAddedChildNodesReachableFromTaskRoot at hchildren
    split at hchildren
    · rcases hrule with ⟨e', rfl⟩ | rfl <;> cases hchildren
    · cases hchildren
  | ok u =>
    cases htransition : assertTaskTransitionIntegrity (readNodes sessionKey run.db) (readEdges run.db)
        (root.map (·.id)) run.addedTaskNodeIds with
    | error e =>
      refine iff_of_false ?_ fun h => by cases h.1.2
      rintro ⟨e', he, hrule⟩
      obtain rfl : .transition e = e' := error.inj he
      rcases hrule with ⟨e', he'⟩ | he' <;> cases he'
    | ok u =>
      rw [and_iff_right ⟨rfl, rfl⟩]
      change (∃ e, ((assertGoalBoundary (readNodes sessionKey run.db) (readEdges run.db) turn.turnId
        (turnGoal turn) root run.addedTaskNodeIds).mapError .goalBoundary >>= _) = .error e ∧ GoalRule e) ↔ _
      cases hboundary : assertGoalBoundary (readNodes sessionKey run.db) (readEdges run.db) turn.turnId
          (turnGoal turn) root run.addedTaskNodeIds with
      | error e => exact iff_of_true ⟨_, rfl, Or.inl ⟨e, rfl⟩⟩ (by simp)
      | ok goalTask =>
        refine iff_of_false ?_ fun h => h ⟨_, rfl⟩
        rintro ⟨e, he, -⟩
        cases he

/-- **When the rules of a goal agree with the first check**: in every state of every history, for every turn and
every accepted patch, the store refuses the patch by none of its rules of a goal exactly if the patch fits or
another rule refuses it before. -/
theorem goalRules_iff (sessionKey : String) (history : List BuildStep) {db : Db}
    (hdb : db ∈ visited (buildStep sessionKey) {} history) (maxNodes : ℕ) (parsed : Json) (turn : DagTurn)
    (env : Env) {p q : DagPatch} (ha : Accepted sessionKey db maxNodes parsed turn p q) :
    (∀ e, applyPatch sessionKey env db (patchOptions turn q) = .error e → ¬ GoalRule e) ↔
      (PassesOtherRules sessionKey env db turn q → GoalFits (readNodes sessionKey db) db.edges turn p) := by
  obtain ⟨h, -⟩ := wellFormed_of_history sessionKey history db hdb
  have hcheck := checkGoalPatch_of_accepted h ha
  cases hup : upsertTurn db (turnToInput turn) env.upsertNow with
  | error e =>
    refine iff_of_true ?_ ?_
    · intro e' he hrule
      have he' : applyPatch sessionKey env db (patchOptions turn q) = .error e := by
        unfold applyPatch
        rw [show upsertTurn db (patchOptions turn q).turn env.upsertNow = .error e from hup]
        rfl
      rw [he', Except.error.injEq] at he
      rw [← he, (upsertTurn_error hup).1] at hrule
      rcases hrule with ⟨e', hrule⟩ | hrule <;> cases hrule
    · rintro ⟨db₁, row, hup', -⟩
      rw [hup] at hup'
      cases hup'
  | ok result =>
    obtain ⟨db₁, row⟩ := result
    obtain ⟨hn, he⟩ := upsertTurn_graph hup
    have h₁ : WellFormed sessionKey db₁ := h.congr hn he
    have ha₁ := ha.congr hn he
    have hread := readNodes_congr sessionKey hn
    obtain ⟨hok, hone⟩ := patchOk_of_normalized (validateDagPatch_ok ha₁.validated)
      (fun id hid => mem_contextNodeKinds h₁ hid) ha₁.normalized
    have hids := fun id (hid : id ∈ (contextNodeKinds (readBuilderContext sessionKey db₁ maxNodes)).map (·.1)) =>
      exists_of_mem_context hid
    have hpasses : PassesOtherRules sessionKey env db turn q ↔
        match q.foldlM (applyOp sessionKey env row (turnGoal turn) .llmPatch) { db := db₁ } with
        | .error e => e = .constraint "dag_nodes.goal_id"
        | .ok run =>
          assertAddedChildNodesReachableFromTaskRoot (readNodes sessionKey run.db) (readEdges run.db)
            run.addedChildNodeIds = .ok () ∧
          assertTaskTransitionIntegrity (readNodes sessionKey run.db) (readEdges run.db)
            ((selectRootTask (readNodes sessionKey db)).map (·.id)) run.addedTaskNodeIds = .ok () := by
      unfold PassesOtherRules
      rw [hup]
      constructor
      · rintro ⟨_, _, heq, hrest⟩
        cases heq
        exact hrest
      · exact fun hrest => ⟨_, _, rfl, hrest⟩
    rw [applyPatch_of_upsert hup hcheck, hpasses, ← hread, ← he]
    cases hloop : q.foldlM (applyOp sessionKey env row (turnGoal turn) .llmPatch) { db := db₁ } with
    | error e =>
      constructor
      · rintro hnone rfl
        exact absurd (Or.inr rfl) (hnone _ rfl)
      · rintro hfits e' he' hrule
        obtain rfl : e = e' := error.inj he'
        rcases hrule with ⟨e', rfl⟩ | rfl
        · cases error_of_foldlM hok hone hids h₁ hloop
        · obtain ⟨hadd, g, hg, m, hm, hgoal⟩ := taken_of_foldlM h₁ hok hone hids hloop
          exact not_fits_of_taken ha₁ h₁ hadd hg hm hgoal (hfits rfl)
    | ok run =>
      obtain ⟨olds, news, hran⟩ := ran_of_foldlM hok hids h₁ hloop
      rw [← boundary_iff h₁ ha₁ hran, ok_bind]
      have hiff := @finishPatch_goalRule sessionKey env turn q run (selectRootTask (readNodes sessionKey db₁))
      constructor
      · intro hnone hrules
        by_contra hno
        obtain ⟨e, hfinish, hrule⟩ := hiff.mpr ⟨hrules, hno⟩
        exact hnone e (by rw [hfinish]; rfl) hrule
      · intro hfits e herror hrule
        rw [bind_eq_error] at herror
        rcases herror with herror | ⟨db', -, herror⟩
        · obtain ⟨hrules, hno⟩ := hiff.mp ⟨e, herror, hrule⟩
          exact hno (hfits hrules)
        · cases herror

end Always

/-! ### Two patches that are refused -/

section Sample

/-- How an accepted raw patch ends for a turn: the error of the store, if there is one. -/
def acceptedOutcome (env : Env) (db : Db) (turn : DagTurn) (parsed : Json) : Option (Option StoreError) :=
  match validateDagPatch parsed (contextNodeKinds (readBuilderContext "s" db 40)) with
  | .error _ => none
  | .ok p =>
    match normalizeDagTaskTransition p (readBuilderContext "s" db 40) (turnGoal turn) with
    | .error _ => none
    | .ok q =>
      match applyPatch "s" env db (patchOptions turn q) with
      | .error e => some (some e)
      | .ok _ => some none

theorem exists_of_acceptedOutcome
    {error : Option StoreError} (h : acceptedOutcome env db turn parsed = some error) :
    ∃ p q, Accepted "s" db 40 parsed turn p q ∧
      ∀ e, error = some e → applyPatch "s" env db (patchOptions turn q) = .error e := by
  unfold acceptedOutcome at h
  split at h
  · cases h
  next p hp =>
  split at h
  · cases h
  next q hq =>
  refine ⟨p, q, ⟨hp, hq⟩, ?_⟩
  rintro e rfl
  split at h
  · next he =>
    rw [he, some.inj (some.inj h)]
  · cases h

/-- The first turn of a goal. -/
def goalHistory : List BuildStep := [.enqueue (sampleTurn 1 (some sampleGoal)) 1]

/-- The goal has a task, then it is cleared: the next turn has none. -/
def clearedHistory : List BuildStep :=
  goalHistory ++ [.build samplePatch 40 (queuedTurn 1 (some sampleGoal)) (sampleEnv 1),
    .enqueue (sampleTurn 2 none) 2]

/-- **Two accepted patches that the store refuses**: the empty one for the first turn of a goal, and one that
sets the task of a cleared goal done for a new task. -/
theorem goal_refused :
    (∃ db ∈ visited (buildStep "s") {} goalHistory, ∃ p q,
      Accepted "s" db 40 (.obj [("ops", .arr [])]) (queuedTurn 1 (some sampleGoal)) p q ∧
      applyPatch "s" (sampleEnv 1) db (patchOptions (queuedTurn 1 (some sampleGoal)) q) =
        .error (.goalBoundary .goalTaskMissing)) ∧
    ∃ db ∈ visited (buildStep "s") {} clearedHistory, ∃ p q,
      Accepted "s" db 40 nextPatch (queuedTurn 2 none) p q ∧
      applyPatch "s" (sampleEnv 2) db (patchOptions (queuedTurn 2 none) q) =
        .error (.goalBoundary .clearedGoalTask) := by
  constructor
  · obtain ⟨p, q, ha, herror⟩ := exists_of_acceptedOutcome (by decide +kernel :
      acceptedOutcome (sampleEnv 1) (final (buildStep "s") {} goalHistory) (queuedTurn 1 (some sampleGoal))
        (.obj [("ops", .arr [])]) = some (some (.goalBoundary .goalTaskMissing)))
    exact ⟨_, final_mem_visited (buildStep "s") goalHistory _, p, q, ha, herror _ rfl⟩
  · obtain ⟨p, q, ha, herror⟩ := exists_of_acceptedOutcome (by decide +kernel :
      acceptedOutcome (sampleEnv 2) (final (buildStep "s") {} clearedHistory) (queuedTurn 2 none) nextPatch =
        some (some (.goalBoundary .clearedGoalTask)))
    exact ⟨_, final_mem_visited (buildStep "s") clearedHistory _, p, q, ha, herror _ rfl⟩

/-- The task of the first turn of a goal. -/
theorem goalRules_iff_first : ∃ p q,
    Accepted "s" (final (buildStep "s") {} goalHistory) 40 samplePatch (queuedTurn 1 (some sampleGoal)) p q ∧
    ((∀ e, applyPatch "s" (sampleEnv 1) (final (buildStep "s") {} goalHistory)
        (patchOptions (queuedTurn 1 (some sampleGoal)) q) = .error e → ¬ GoalRule e) ↔
      (PassesOtherRules "s" (sampleEnv 1) (final (buildStep "s") {} goalHistory)
          (queuedTurn 1 (some sampleGoal)) q →
        GoalFits (readNodes "s" (final (buildStep "s") {} goalHistory))
          (final (buildStep "s") {} goalHistory).edges (queuedTurn 1 (some sampleGoal)) p)) := by
  obtain ⟨p, q, ha, -⟩ := exists_of_acceptedOutcome (by decide +kernel :
    acceptedOutcome (sampleEnv 1) (final (buildStep "s") {} goalHistory) (queuedTurn 1 (some sampleGoal))
      samplePatch = some none)
  exact ⟨p, q, ha, goalRules_iff "s" goalHistory (final_mem_visited (buildStep "s") goalHistory _) 40
    samplePatch (queuedTurn 1 (some sampleGoal)) (sampleEnv 1) ha⟩

end Sample

end Memmy.SessionDag.GoalRules
