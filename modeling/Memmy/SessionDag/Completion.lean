import Memmy.SessionDag.Normalize
import Memmy.SessionDag.Transition

/-! # A completed patch and the checks of the store

A checked patch that adds a task is completed on a context that the store has cut down, and is judged by the
store on its rows. `completed_patch` says that the two agree on the tasks, that the completion keeps the
other operations, and that it changes nothing when it is repeated.

* `normalizeDagTaskTransition_ok`: what a patch with a new task is completed to.
* `assertTransition_of_completed`: the check of the tasks passes.
* `completed_patch`: how a completed patch can still fail. -/

namespace Memmy.SessionDag.Completion

open Lib.JsonValue Lib.Result Lib.Run SessionDag.Types SessionDag.PatchSchema
open List SessionDag.Selection SessionDag.Store SessionDag.Builder SessionDag.Shape
  SessionDag.Invariant SessionDag.Validated SessionDag.Progress SessionDag.Context
  SessionDag.Transition SessionDag.Normalize DagPatchOp

/-! ### What is completed -/

section Completed
variable {ops q : DagPatch} {ctx : DagBuilderContext} {goal : Option DagGoalContext}
variable {added : AddNodePatchOp} {rootId : String}

/-- **What a patch with a new task is completed to.** -/
theorem normalizeDagTaskTransition_ok (hadd : addedTasks ops ≠ [])
    (h : normalizeDagTaskTransition ops ctx goal = .ok q) :
    ∃ added, addedTasks ops = [added] ∧ checkSideBranches ops ctx goal = .ok () ∧
      goalRoot ctx goal = none ∧
      ((rootTaskId ctx = none ∧ q = ops) ∨ ∃ rootId, rootTaskId ctx = some rootId ∧
        normalizeTransition ops ctx goal added rootId = .ok q) := by
  unfold normalizeDagTaskTransition at h
  simp only [bind_eq_ok, throwIf_eq_ok] at h
  obtain ⟨-, hone, u, hside, h⟩ := h
  have hgoal : goalRoot ctx goal = none := by
    cases hg : goalRoot ctx goal with
    | none => rfl
    | some root =>
      exfalso
      cases goal with
      | none => simp [goalRoot] at hg
      | some g =>
        rw [hg] at h
        unfold normalizeGoalTurn at h
        rw [bind_eq_ok] at h
        obtain ⟨u, hnone, -⟩ := h
        exact (throwIf_eq_ok.mp hnone) hadd
  obtain ⟨added, hadded⟩ := length_eq_one_iff.mp
    (le_antisymm (by omega) (length_pos_iff.mpr hadd) : (addedTasks ops).length = 1)
  refine ⟨added, hadded, hside, hgoal, ?_⟩
  rw [hgoal, hadded] at h
  cases hroot : rootTaskId ctx with
  | none =>
    rw [hroot] at h
    cases goal <;> exact Or.inl ⟨rfl, (Except.ok.inj h).symm⟩
  | some rootId =>
    rw [hroot] at h
    cases goal <;> exact Or.inr ⟨rootId, rfl, h⟩

/-- The converse. -/
theorem normalizeDagTaskTransition_of (hadded : addedTasks ops = [added])
    (hside : checkSideBranches ops ctx goal = .ok ()) (hgoal : goalRoot ctx goal = none)
    (hroot : rootTaskId ctx = some rootId) :
    normalizeDagTaskTransition ops ctx goal = normalizeTransition ops ctx goal added rootId := by
  unfold normalizeDagTaskTransition
  rw [hadded, throwIf_of_not (by simp), ok_bind, hside, ok_bind, hgoal, hroot]
  cases goal <;> rfl

theorem sideBranches_transitionPatch {root : DagContextNode} {status : DagNodeStatus} {type : DagEdgeType}
    (h : Resolves ops ctx goal added rootId root status type) :
    sideBranches (transitionPatch ops ctx added rootId root status type) = sideBranches ops := by
  have htype : (transitionEdge added rootId type).type ≠ .sideBranch := by
    have := h.edgeType
    rintro rfl
    cases status <;> simp [taskTransitionEdgeType] at this
  unfold sideBranches
  rw [addEdges_transitionPatch, filter_append, filter_filter,
    filter_cons_of_neg (by simpa using htype), filter_nil, append_nil]
  refine filter_congr fun e he => ?_
  cases htask : isTaskEdge ops ctx added e with
  | false => simp
  | true =>
    obtain ⟨-, -, ht⟩ := h.edges e (mem_filter.mpr ⟨he, htask⟩)
    rcases ht with ht | ht <;> simp [ht]

/-- **Completing twice.** -/
theorem normalizeDagTaskTransition_idem {ids : List String} (hok : PatchOk ids ops)
    (hadd : addedTasks ops ≠ []) (h : normalizeDagTaskTransition ops ctx goal = .ok q) :
    normalizeDagTaskTransition q ctx goal = .ok q := by
  obtain ⟨added, hadded, hside, hgoal, ⟨-, rfl⟩ | ⟨rootId, hroot, htransition⟩⟩ :=
    normalizeDagTaskTransition_ok hadd h
  · exact h
  · obtain ⟨root, status, type, hres, rfl⟩ := normalizeTransition_eq_ok.mp htransition
    have hadded' : addedTasks (transitionPatch ops ctx added rootId root status type) = [added] := by
      rw [addedTasks_transitionPatch, hadded]
    have hside' : checkSideBranches (transitionPatch ops ctx added rootId root status type) ctx goal =
        .ok () := by
      unfold checkSideBranches sideBranchSource at hside ⊢
      rwa [sideBranches_transitionPatch hres, addedTasks_transitionPatch]
    rw [normalizeDagTaskTransition_of hadded' hside' hgoal hroot]
    exact normalizeTransition_idem hok hres

end Completed

/-! ### What is kept -/

section Kept
variable (ops : DagPatch) (ctx : DagBuilderContext)

/-- An operation on a node that is no update of the root. -/
def isOtherNodeOp (op : DagPatchOp) : Bool :=
  op.addEdge?.isNone && !op.updateNode?.any fun u => rootTaskId ctx = some u.nodeId

/-- An edge that does not join two tasks. -/
def isOtherEdge (op : DagPatchOp) : Bool :=
  op.addEdge?.any fun e =>
    !(nodeKind ops ctx e.sourceId = some .task && nodeKind ops ctx e.targetId = some .task)

end Kept

section KeptLemmas
variable {ops : DagPatch} {ctx : DagBuilderContext} {goal : Option DagGoalContext}
  {added : AddNodePatchOp} {root : DagNode} {nodes : List DagNode} {croot : DagContextNode}
  {status : DagNodeStatus} {type : DagEdgeType}

theorem isOtherNodeOp_eq (hroot : ctx.rootTaskId = some root.id) (hne : root.id ≠ "") :
    isOtherNodeOp ctx = fun op => op.addEdge?.isNone && !isRootUpdate root.id op := by
  have hid : rootTaskId ctx = some root.id := by
    unfold rootTaskId
    rw [hroot]
    simp [hne]
  funext op
  unfold isOtherNodeOp isRootUpdate
  rw [hid]
  cases op with
  | updateNode u => simp [updateNode?, addEdge?, eq_comm]
  | _ => rfl

theorem nodeKind_added (hok : PatchOk ((contextNodeKinds ctx).map (·.1)) ops)
    (hadded : addedTasks ops = [added]) : nodeKind ops ctx added.tempId = some .task := by
  obtain ⟨hop, hk⟩ := mem_addedTasks.mp (hadded ▸ mem_cons_self : added ∈ addedTasks ops)
  have hnode : added ∈ ops.filterMap addNode? := mem_filterMap.mpr ⟨_, hop, rfl⟩
  have hctx : ctx.nodes.reverse.find? (fun n => n.id = added.tempId) = none := by
    rw [find?_eq_none]
    intro c hc hid
    refine (hok.adds added hop).new ?_
    unfold contextNodeKinds
    rw [map_map, mem_map]
    exact ⟨c, mem_reverse.mp hc, by simpa using hid⟩
  unfold nodeKind
  rw [hctx]
  cases hf : (ops.filterMap addNode?).reverse.find? fun op => op.tempId = added.tempId with
  | none =>
    have := find?_eq_none.mp hf added (mem_reverse.mpr hnode)
    simp at this
  | some a =>
    have ha : a ∈ ops.filterMap addNode? := mem_reverse.mp (mem_of_find?_eq_some hf)
    have hid : a.tempId = added.tempId := by simpa using find?_some hf
    rw [inj_on_of_nodup_map hok.temps ha hnode hid]
    exact congrArg some hk

theorem nodeKind_root (ops : DagPatch) (hctx : ContextOk nodes root ctx) (hk : root.kind = .task) :
    nodeKind ops ctx root.id = some .task := by
  unfold nodeKind
  cases hf : ctx.nodes.reverse.find? fun n => n.id = root.id with
  | none =>
    have := find?_eq_none.mp hf _ (mem_reverse.mpr hctx.mem)
    simp [toContextNode] at this
  | some c =>
    have hc := mem_reverse.mp (mem_of_find?_eq_some hf)
    rw [hctx.ids c hc (by simpa using find?_some hf)]
    exact congrArg some hk

/-- **The other operations on nodes stay, in their order.** -/
theorem filter_isOtherNodeOp (hroot : ctx.rootTaskId = some root.id) (hne : root.id ≠ "") :
    (transitionPatch ops ctx added root.id croot status type).filter (isOtherNodeOp ctx) =
      ops.filter (isOtherNodeOp ctx) := by
  rw [isOtherNodeOp_eq hroot hne]
  exact nodeOps_transitionPatch ops ctx added root.id croot status type

/-- **The edges that join no two tasks stay, in their order.** -/
theorem filter_isOtherEdge (hctx : ContextOk nodes root ctx) (hk : root.kind = .task)
    (hok : PatchOk ((contextNodeKinds ctx).map (·.1)) ops) (hadded : addedTasks ops = [added])
    (hres : Resolves ops ctx goal added root.id croot status type) :
    (transitionPatch ops ctx added root.id croot status type).filter (isOtherEdge ops ctx) =
      ops.filter (isOtherEdge ops ctx) := by
  have hother : ∀ op ∈ ops, isOtherEdge ops ctx op =
      op.addEdge?.any fun e => !isTaskEdge ops ctx added e := by
    intro op hop
    cases op with
    | addEdge e =>
      simp only [isOtherEdge, addEdge?, Option.any_some]
      cases ht : isTaskEdge ops ctx added e with
      | false =>
        unfold isTaskEdge at ht
        rw [Bool.or_eq_false_iff] at ht
        rw [ht.1]
      | true =>
        obtain ⟨hs, ht, -⟩ := hres.edges e (mem_filter.mpr
          ⟨mem_filterMap.mpr ⟨_, hop, rfl⟩, ht⟩)
        rw [hs, ht, nodeKind_root _ hctx hk, nodeKind_added hok hadded]
        rfl
    | _ => rfl
  have hq : (transitionPatch ops ctx added root.id croot status type).filter (isOtherEdge ops ctx) =
      edgeOps ops ctx added := by
    unfold transitionPatch
    rw [filter_append, filter_append, filter_append]
    have h1 : (rootOps ops root.id croot status).filter (isOtherEdge ops ctx) = [] := by
      rcases rootOps_cases ops root.id croot status with hr | hr <;> rw [hr] <;> rfl
    have h2 : (nodeOps ops root.id).filter (isOtherEdge ops ctx) = [] := by
      rw [filter_eq_nil_iff]
      intro op hop
      have := (mem_filter.mp hop).2
      cases op <;> simp_all [addEdge?, isOtherEdge]
    have h3 : (edgeOps ops ctx added).filter (isOtherEdge ops ctx) = edgeOps ops ctx added := by
      refine filter_eq_self.mpr fun op hop => ?_
      obtain ⟨hmem, hp⟩ := mem_filter.mp hop
      rw [hother op hmem]
      exact hp
    have h4 : [addEdge (transitionEdge added root.id type)].filter (isOtherEdge ops ctx) =
        [] := by
      simp [isOtherEdge, addEdge?, transitionEdge, nodeKind_root _ hctx hk,
        nodeKind_added hok hadded]
    rw [h1, h2, h3, h4, nil_append, nil_append, append_nil]
  rw [hq]
  exact (filter_congr hother).symm

end KeptLemmas

/-! ### What the completed patch does to the tasks -/

section Status
variable {sessionKey : String} {db : Db} {root : DagNode} {maxNodes : ℕ} {ops : DagPatch}
  {goal : Option DagGoalContext} {added : AddNodePatchOp} {croot : DagContextNode}
  {status : DagNodeStatus} {type : DagEdgeType}

theorem id_ne_empty (h : Built sessionKey (shapes db) db.edges) {n : DagNode} (hn : n ∈ db.nodes) :
    n.id ≠ "" := by
  obtain ⟨s, hs⟩ := h.named (shape n) (mem_shapes.mpr ⟨n, hn, rfl⟩)
  change n.id = _ at hs
  rw [hs]
  intro he
  simpa using congrArg String.length he

theorem rootTaskId_of_root (h : WellFormed sessionKey db)
    (hroot : selectRootTask (readNodes sessionKey db) = some root) (maxNodes : ℕ) :
    rootTaskId (readBuilderContext sessionKey db maxNodes) = some root.id := by
  obtain ⟨m, hm, hmroot⟩ := exists_row_of_root hroot
  have hne : root.id ≠ "" := by
    rw [← hmroot]
    exact (id_ne_empty h.built hm : m.id ≠ "")
  unfold rootTaskId
  rw [(contextOk_of_root h.built hroot maxNodes).rootTaskId]
  simp [hne]

theorem id_eq_root_of_context (h : WellFormed sessionKey db)
    (hroot : selectRootTask (readNodes sessionKey db) = some root) {m : DagNode} (hm : m ∈ db.nodes)
    (hk : m.kind = .task)
    (hid : m.id ∈ (contextNodeKinds (readBuilderContext sessionKey db maxNodes)).map (·.1)) :
    m.id = root.id := by
  unfold contextNodeKinds at hid
  rw [map_map] at hid
  obtain ⟨c, hc, hcid⟩ := mem_map.mp hid
  have hctx := contextOk_of_root h.built hroot maxNodes
  obtain ⟨n, hn, rfl⟩ := hctx.rows c hc
  have heq : n = parseNodeRow m := eq_of_id_readNodes h.built hn (parse_mem_readNodes h.built hm) hcid
  have := hctx.tasks _ hc (by rw [heq]; exact hk)
  exact hcid.symm.trans (congrArg DagContextNode.id this)

theorem updatesOf_of_ne_root (h : WellFormed sessionKey db)
    (hroot : selectRootTask (readNodes sessionKey db) = some root)
    (hok : PatchOk ((contextNodeKinds (readBuilderContext sessionKey db maxNodes)).map (·.1)) ops)
    {m : DagNode} (hm : m ∈ db.nodes) (hk : m.kind = .task) (hne : m.id ≠ root.id) :
    updatesOf ops m.id = [] := by
  refine eq_nil_iff_forall_not_mem.mpr fun u hu => ?_
  obtain ⟨hop, hid⟩ := mem_updatesOf.mp hu
  exact hne (id_eq_root_of_context h hroot hm hk (hid ▸ (hok.updates u hop).known))

theorem statusAfter_root
    (hres : Resolves ops ctx goal added root.id croot status type)
    (hstatus : croot.status = root.status) :
    statusAfter (transitionPatch ops ctx added root.id croot status type) root.id root.status =
      status := by
  unfold statusAfter
  rw [updatesOf_transitionPatch, if_pos rfl]
  rcases rootOps_cases ops root.id croot status with hr | hr <;> rw [hr]
  · rcases hres.status_eq with ⟨hw, -⟩ | ⟨-, -, -, hs, -⟩
    · unfold rootOps at hr
      rw [if_pos (Or.inr hw)] at hr
      cases hr
    · exact hstatus.symm.trans hs
  · rcases hres.status_eq with ⟨-, hs⟩ | ⟨-, hs, -, hrs, -⟩
    · simp [updateNode?, hs]
    · simp [updateNode?, hs, ← hstatus, hrs]

end Status

/-! ### Applying it -/

section Apply
variable {sessionKey : String} {env : Env} {db db₁ : Db} {root : DagNode} {maxNodes : ℕ}
  {p q : DagPatch} {goal : Option DagGoalContext} {added : AddNodePatchOp}
  {croot : DagContextNode} {status : DagNodeStatus} {type : DagEdgeType} {turnRow : DagTurn}
  {run : PatchRun} {olds news : List DagNode} {e : StoreError}

/-- **The check of the tasks passes after a completed patch.** -/
theorem assertTransition_of_completed (h : WellFormed sessionKey db)
    (hroot : selectRootTask (readNodes sessionKey db) = some root)
    (hok : PatchOk ((contextNodeKinds (readBuilderContext sessionKey db maxNodes)).map (·.1)) p)
    (hadded : addedTasks p = [added])
    (hres : Resolves p (readBuilderContext sessionKey db maxNodes) goal added root.id croot status type)
    (hran : Ran sessionKey env turnRow goal db
      (transitionPatch p (readBuilderContext sessionKey db maxNodes) added root.id croot status type)
      run olds news) :
    assertTaskTransitionIntegrity (readNodes sessionKey run.db) (readEdges run.db) (some root.id)
      run.addedTaskNodeIds = .ok () := by
  set ctx := readBuilderContext sessionKey db maxNodes with hctxdef
  set q := transitionPatch p ctx added root.id croot status type with hq
  have hctx : ContextOk (readNodes sessionKey db) root ctx := contextOk_of_root h.built hroot maxNodes
  obtain ⟨haddop, haddkind⟩ := mem_addedTasks.mp (hadded ▸ mem_cons_self : added ∈ addedTasks p)
  have hrootIds : root.id ∈ (contextNodeKinds ctx).map (·.1) := by
    unfold contextNodeKinds
    rw [map_map]
    exact mem_map.mpr ⟨_, hctx.mem, rfl⟩
  have hcroot : croot.status = root.status := by
    have hmem := mem_of_find?_eq_some hres.found
    have hid : croot.id = root.id := by simpa using find?_some hres.found
    rw [hctx.ids croot hmem hid]
    rfl
  have hqok : PatchOk ((contextNodeKinds ctx).map (·.1)) q := patchOk_transitionPatch hok hrootIds haddop
  have hstatus := statusAfter_root hres hcroot
  refine assertTransition_of_root hran h hqok hroot (by rw [hq, addedTasks_transitionPatch, hadded])
    ((hok.adds added haddop).openTask haddkind) ?_
    (by rw [hstatus]; exact hres.edgeType) ?_ ?_
  · intro m hm hk
    by_cases hid : m.id = root.id
    · have hrow : m.status = root.status := by
        have := eq_of_id_readNodes h.built (parse_mem_readNodes h.built hm) (selectRootTask_cases hroot).1 hid
        exact (congrArg DagNode.status this : (parseNodeRow m).status = root.status)
      rw [hid, hrow, hstatus]
      have := hres.edgeType
      cases status <;> first | rfl | simp [taskTransitionEdgeType] at this
    · have hnone : updatesOf q m.id = [] := by
        rw [hq, updatesOf_transitionPatch, if_neg hid]
        exact updatesOf_of_ne_root h hroot hok hm hk hid
      unfold statusAfter
      rw [hnone]
      exact closed_of_ne_root h hroot hm hk hid
  · rw [hq]
    exact mem_append_right _ mem_cons_self
  · intro e he ht
    rcases mem_transitionPatch he with he | ⟨-, he, -⟩ | ⟨-, e', he, htask⟩ | he
    · cases he
    · cases he
    · obtain rfl := addEdge.inj he
      unfold isTaskEdge at htask
      simp [ht] at htask
    · exact addEdge.inj he

theorem upsertTurn_error {input : DagTurnInput} {now : ℕ}
    (h : upsertTurn db input now = .error e) : e = .turnRange ∧
      ¬ ∃ start stop, integer? input.messageStart = some start ∧
        integer? input.messageEnd = some stop ∧ start < stop := by
  unfold upsertTurn at h
  cases hs : integer? input.messageStart with
  | none => rw [hs] at h; cases h; exact ⟨rfl, by simp⟩
  | some start =>
    cases ht : integer? input.messageEnd with
    | none => rw [hs, ht] at h; cases h; exact ⟨rfl, by simp⟩
    | some stop =>
      rw [hs, ht] at h
      dsimp only at h
      split_ifs at h with hle
      · cases h
        refine ⟨rfl, ?_⟩
        rintro ⟨_, _, ⟨⟩, ⟨⟩, hlt⟩
        omega
      · split at h <;> cases h

theorem finishPatch_error {options : ApplyDagPatchOptions} {root : Option DagNode}
    (h : finishPatch sessionKey env options root run = .error e) :
    (∃ kind id, e = .childNotReachable kind id) ∨
      (∃ e', assertTaskTransitionIntegrity (readNodes sessionKey run.db) (readEdges run.db)
        (root.map (·.id)) run.addedTaskNodeIds = .error e') ∨ ∃ e', e = .goalBoundary e' := by
  unfold finishPatch at h
  simp only [bind_eq_error, mapError_eq_error, pure_eq, reduceCtorEq, and_false, exists_false, or_false] at h
  rcases h with h | ⟨-, -, ⟨e', h, -⟩ | ⟨-, -, e', -, h⟩⟩
  · unfold assertAddedChildNodesReachableFromTaskRoot at h
    split at h
    · exact Or.inl ⟨_, _, (Except.error.inj h).symm⟩
    · cases h
  · exact Or.inr (Or.inl ⟨e', h⟩)
  · exact Or.inr (Or.inr ⟨e', h.symm⟩)

theorem OpError.congr (hn : db₁.nodes = db.nodes) (he : db₁.edges = db.edges)
    (h : OpError env goal db₁ e) : OpError env goal db e := by
  have hfresh : Fresh env db → Fresh env db₁ := fun hf =>
    ⟨hf.distinct, by rw [hn]; exact hf.nodes, by rw [he]; exact hf.edges⟩
  cases h with
  | selfLoop => exact .selfLoop
  | supersedesNotFrozen => exact .supersedesNotFrozen
  | cycle => exact .cycle
  | goalTaken g hgoal htaken => exact .goalTaken g hgoal (hn ▸ htaken)
  | nodeIdTaken h => exact .nodeIdTaken fun hf => h (hfresh hf)
  | edgeIdTaken h => exact .edgeIdTaken fun hf => h (hfresh hf)

/-- **The ways in which a completed patch can still fail.** -/
inductive Remaining (env : Env) (db : Db) (turn : DagTurnInput) : StoreError → Prop where
  | turnRange (h : ¬ ∃ start stop, integer? turn.messageStart = some start ∧
      integer? turn.messageEnd = some stop ∧ start < stop) : Remaining env db turn .turnRange
  | op {e : StoreError} (h : OpError env turn.goalContext db e) : Remaining env db turn e
  | childNotReachable (kind id : String) : Remaining env db turn (.childNotReachable kind id)
  | goalBoundary (e : GoalBoundaryError) : Remaining env db turn (.goalBoundary e)

theorem readBuilderContext_congr (sessionKey : String) (maxNodes : ℕ) (hn : db₁.nodes = db.nodes)
    (he : db₁.edges = db.edges) :
    readBuilderContext sessionKey db₁ maxNodes = readBuilderContext sessionKey db maxNodes := by
  unfold readBuilderContext readNodes readEdges
  rw [hn, he]

theorem readNodes_congr (sessionKey : String) (hn : db₁.nodes = db.nodes) :
    readNodes sessionKey db₁ = readNodes sessionKey db := by
  unfold readNodes
  rw [hn]

/-- **How a completed patch can fail.** -/
theorem remaining_of_error (h : WellFormed sessionKey db) {turn : DagTurnInput} {mode : DagBuildMode}
    {writeSource : DagWriteSource}
    (hok : PatchOk ((contextNodeKinds (readBuilderContext sessionKey db maxNodes)).map (·.1)) p)
    (hadd : addedTasks p ≠ [])
    (hq : normalizeDagTaskTransition p (readBuilderContext sessionKey db maxNodes) turn.goalContext =
      .ok q)
    (herror : applyPatch sessionKey env db
      { turn := turn, patch := q, buildMode := mode, writeSource := writeSource } = .error e) :
    Remaining env db turn e := by
  obtain ⟨added, hadded, -, -, hcases⟩ := normalizeDagTaskTransition_ok hadd hq
  have haddop := mem_addedTasks.mp (hadded ▸ mem_cons_self : added ∈ addedTasks p)
  unfold applyPatch at herror
  simp only [bind_eq_error, mapError_eq_error, pure_eq, reduceCtorEq, and_false, exists_false,
    or_false] at herror
  rcases herror with herror | ⟨⟨db₁, turnRow⟩, hturn, ⟨e', -, rfl⟩ | ⟨-, -, hloop⟩⟩
  · obtain ⟨rfl, hrange⟩ := upsertTurn_error herror
    exact .turnRange hrange
  · exact .goalBoundary e'
  obtain ⟨hn, he⟩ := upsertTurn_graph hturn
  have h₁ : WellFormed sessionKey db₁ := h.congr hn he
  have hctx := readBuilderContext_congr sessionKey maxNodes hn he
  rw [← hctx] at hok hq hcases
  have hids : ∀ id ∈ (contextNodeKinds (readBuilderContext sessionKey db₁ maxNodes)).map (·.1),
      ∃ m ∈ db₁.nodes, m.id = id := fun id hid => exists_of_mem_context hid
  have hnodes := readNodes_congr sessionKey hn
  rw [← hnodes] at hloop
  -- what the patch is, with and without a root
  have hpatch : PatchOk ((contextNodeKinds (readBuilderContext sessionKey db₁ maxNodes)).map (·.1)) q ∧
      addedTasks q = [added] ∧ ∀ {run : PatchRun} {olds news : List DagNode},
        Ran sessionKey env turnRow turn.goalContext db₁ q run olds news →
        assertTaskTransitionIntegrity (readNodes sessionKey run.db) (readEdges run.db)
          ((selectRootTask (readNodes sessionKey db₁)).map (·.id)) run.addedTaskNodeIds = .ok () := by
    cases hroot : selectRootTask (readNodes sessionKey db₁) with
    | none =>
      have hempty := context_of_no_root h₁ hroot maxNodes
      have hq' : q = p := by
        rcases hcases with ⟨-, rfl⟩ | ⟨rootId, hid, -⟩
        · rfl
        · rw [hempty] at hid
          simp [rootTaskId] at hid
      subst hq'
      exact ⟨hok, hadded, fun hran => assertTransition_of_no_root hran (nodes_of_no_root h₁ hroot)
        hadded ((hok.adds added haddop.1).openTask haddop.2)⟩
    | some root =>
      have hctxOk := contextOk_of_root h₁.built hroot maxNodes
      have hid := rootTaskId_of_root h₁ hroot maxNodes
      rcases hcases with ⟨hnone, -⟩ | ⟨rootId, hid', htransition⟩
      · rw [hid] at hnone; cases hnone
      rw [hid] at hid'
      cases hid'
      obtain ⟨croot, status, type, hres, rfl⟩ := normalizeTransition_eq_ok.mp htransition
      have hrootIds : root.id ∈
          (contextNodeKinds (readBuilderContext sessionKey db₁ maxNodes)).map (·.1) := by
        unfold contextNodeKinds
        rw [map_map]
        exact mem_map.mpr ⟨_, hctxOk.mem, rfl⟩
      exact ⟨patchOk_transitionPatch hok hrootIds haddop.1,
        by rw [addedTasks_transitionPatch, hadded],
        fun hran => assertTransition_of_completed h₁ hroot hok hadded hres hran⟩
  obtain ⟨hqok, hqadded, hassert⟩ := hpatch
  rcases hloop with hloop | ⟨run, hrun, hfinish⟩
  · exact .op (OpError.congr hn he
      (error_of_foldlM hqok (by rw [hqadded]; simp) hids h₁ hloop))
  · obtain ⟨olds, news, hran⟩ := ran_of_foldlM hqok hids h₁ hrun
    rcases finishPatch_error hfinish with ⟨kind, id, rfl⟩ | ⟨e', hassert'⟩ | ⟨e', rfl⟩
    · exact .childNotReachable kind id
    · rw [hassert hran] at hassert'
      cases hassert'
    · exact .goalBoundary e'

end Apply

/-! ### In every state of the store -/

/-- **A completed patch agrees with the store**: it never fails in the check of the tasks, it keeps the other
operations in their order, and completing it again changes nothing. -/
theorem completed_patch (sessionKey : String) (history : List StoreOp) {db : Db}
    (hdb : db ∈ visited (step sessionKey) {} history) (maxNodes : ℕ) (parsed : Json)
    (turn : DagTurnInput) (env : Env) (mode : DagBuildMode) (writeSource : DagWriteSource)
    {p q : DagPatch}
    (hp : validateDagPatch parsed (contextNodeKinds (readBuilderContext sessionKey db maxNodes)) = .ok p)
    (hadd : addedTasks p ≠ [])
    (hq : normalizeDagTaskTransition p (readBuilderContext sessionKey db maxNodes) turn.goalContext =
      .ok q) :
    (∀ e, applyPatch sessionKey env db
        { turn := turn, patch := q, buildMode := mode, writeSource := writeSource } = .error e →
      Remaining env db turn e) ∧
    q.filter (isOtherNodeOp (readBuilderContext sessionKey db maxNodes)) =
      p.filter (isOtherNodeOp (readBuilderContext sessionKey db maxNodes)) ∧
    q.filter (isOtherEdge p (readBuilderContext sessionKey db maxNodes)) =
      p.filter (isOtherEdge p (readBuilderContext sessionKey db maxNodes)) ∧
    normalizeDagTaskTransition q (readBuilderContext sessionKey db maxNodes) turn.goalContext =
      .ok q := by
  have h := wellFormed_of_run sessionKey history db hdb
  have hok := validateDagPatch_ok hp
  have hkept : q.filter (isOtherNodeOp (readBuilderContext sessionKey db maxNodes)) =
      p.filter (isOtherNodeOp (readBuilderContext sessionKey db maxNodes)) ∧
      q.filter (isOtherEdge p (readBuilderContext sessionKey db maxNodes)) =
      p.filter (isOtherEdge p (readBuilderContext sessionKey db maxNodes)) := by
    obtain ⟨added, hadded, -, -, ⟨-, rfl⟩ | ⟨rootId, hid, htransition⟩⟩ := normalizeDagTaskTransition_ok hadd hq
    · exact ⟨rfl, rfl⟩
    obtain ⟨croot, status, type, hres, rfl⟩ := normalizeTransition_eq_ok.mp htransition
    cases hroot : selectRootTask (readNodes sessionKey db) with
    | none =>
      rw [context_of_no_root h hroot] at hid
      simp [rootTaskId] at hid
    | some root =>
      have hctx := contextOk_of_root h.built hroot maxNodes
      obtain ⟨hid', hne⟩ := Option.filter_eq_some_iff.mp hid
      rw [hctx.rootTaskId] at hid'
      cases hid'
      exact ⟨filter_isOtherNodeOp hctx.rootTaskId (by simpa using hne),
        filter_isOtherEdge hctx (kind_of_root hroot) hok hadded hres⟩
  exact ⟨fun e he => remaining_of_error h hok hadd hq he, hkept.1, hkept.2,
    normalizeDagTaskTransition_idem hok hadd hq⟩

/-! ### A session with two tasks -/

section Sample

def sampleEnv (n : ℕ) : Env where
  upsertNow := n
  now := n
  goalNow := n
  doneNow := n
  sortableId := fun k => String.ofList (List.replicate n 'x' ++ List.replicate k 'y')

def sampleGoal : DagGoalContext := { goalId := "g", objective := "o", status := .active }

def sampleTurn (n : ℕ) (goal : Option DagGoalContext) : DagTurnInput where
  turnId := String.ofList (List.replicate n 't')
  messageStart := .finite (2 * n)
  messageEnd := .finite (2 * n + 2)
  goalContext := goal

def sampleTask : AddNodePatchOp where
  tempId := "n0"
  kind := .task
  status := .active
  title := "T"
  summary := "S"
  importance := .finite 80

def sampleHistory : List StoreOp :=
  [.applyPatch
      { turn := sampleTurn 1 (some sampleGoal), patch := [.addNode sampleTask]
        buildMode := .llmPatch, writeSource := .llmPatch } (sampleEnv 1),
    .applyPatch
      { turn := sampleTurn 2 none
        patch :=
          [.updateNode { nodeId := nodeIdOf (sampleEnv 1) 0, status := some .frozen },
            .addNode sampleTask,
            .addEdge { sourceId := nodeIdOf (sampleEnv 1) 0, targetId := "n0", type := .supersedes }]
        buildMode := .llmPatch, writeSource := .llmPatch } (sampleEnv 2)]

def sampleDb : Db := final (step "s") {} sampleHistory

/-- A raw patch that adds a task. -/
def samplePatch : Json :=
  .obj [("ops", .arr [.obj
    [("op", .str "add_node"), ("temp_id", .str "n0"), ("kind", .str "task"),
      ("status", .str "active"), ("title", .str "T"), ("summary", .str "S"),
      ("importance", .num (.finite 80))]])]

/-- The way of the raw patch for a turn: how many tasks it adds, and the error. -/
def sampleOutcome (goal : Option DagGoalContext) : Option (ℕ × Option StoreError) :=
  match validateDagPatch samplePatch (contextNodeKinds (readBuilderContext "s" sampleDb 40)) with
  | .error _ => none
  | .ok p =>
    match normalizeDagTaskTransition p (readBuilderContext "s" sampleDb 40) goal with
    | .error _ => none
    | .ok q =>
      match applyPatch "s" (sampleEnv 3) sampleDb
        { turn := sampleTurn 3 goal, patch := q, buildMode := .llmPatch, writeSource := .llmPatch } with
      | .error e => some ((addedTasks p).length, some e)
      | .ok _ => some ((addedTasks p).length, none)

theorem exists_of_sampleOutcome {error : Option StoreError}
    (h : sampleOutcome goal = some (1, error)) : ∃ p q,
      validateDagPatch samplePatch (contextNodeKinds (readBuilderContext "s" sampleDb 40)) = .ok p ∧
      addedTasks p ≠ [] ∧
      normalizeDagTaskTransition p (readBuilderContext "s" sampleDb 40) goal = .ok q ∧
      ∀ e, error = some e → applyPatch "s" (sampleEnv 3) sampleDb
        { turn := sampleTurn 3 goal, patch := q, buildMode := .llmPatch, writeSource := .llmPatch } =
          .error e := by
  unfold sampleOutcome at h
  split at h
  · cases h
  next p hp =>
  split at h
  · cases h
  next q hq =>
  have hlen : (addedTasks p).length = 1 := by
    split at h <;> simp only [Option.some.injEq, Prod.mk.injEq] at h <;> exact h.1
  refine ⟨p, q, hp, ?_, hq, ?_⟩
  · intro hnil
    rw [hnil] at hlen
    cases hlen
  rintro e rfl
  split at h
  · next he =>
    rw [he]
    simp only [Option.some.injEq, Prod.mk.injEq] at h
    rw [h.2]
  · simp at h

/-- **A goal that has a task already cannot be given to the new one**: the completed patch fails on a
constraint of the tables. -/
theorem goal_taken : ∃ db ∈ visited (step "s") {} sampleHistory, ∃ p q,
    validateDagPatch samplePatch (contextNodeKinds (readBuilderContext "s" db 40)) = .ok p ∧
    addedTasks p ≠ [] ∧
    normalizeDagTaskTransition p (readBuilderContext "s" db 40) (some sampleGoal) = .ok q ∧
    applyPatch "s" (sampleEnv 3) db
      { turn := sampleTurn 3 (some sampleGoal), patch := q, buildMode := .llmPatch
        writeSource := .llmPatch } = .error (.constraint "dag_nodes.goal_id") := by
  obtain ⟨p, q, hp, hadd, hq, herror⟩ := exists_of_sampleOutcome
    (by decide +kernel : sampleOutcome (some sampleGoal) = some (1, some (.constraint "dag_nodes.goal_id")))
  exact ⟨sampleDb, final_mem_visited (step "s") sampleHistory _, p, q, hp, hadd, hq, herror _ rfl⟩

/-- A third task for the session of the sample. -/
theorem completed_patch_third : ∃ p q,
    validateDagPatch samplePatch (contextNodeKinds (readBuilderContext "s" sampleDb 40)) = .ok p ∧
    addedTasks p ≠ [] ∧
    normalizeDagTaskTransition p (readBuilderContext "s" sampleDb 40) none = .ok q ∧
    ((∀ e, applyPatch "s" (sampleEnv 3) sampleDb
        { turn := sampleTurn 3 none, patch := q, buildMode := .llmPatch, writeSource := .llmPatch } =
          .error e → Remaining (sampleEnv 3) sampleDb (sampleTurn 3 none) e) ∧
      q.filter (isOtherNodeOp (readBuilderContext "s" sampleDb 40)) =
        p.filter (isOtherNodeOp (readBuilderContext "s" sampleDb 40)) ∧
      q.filter (isOtherEdge p (readBuilderContext "s" sampleDb 40)) =
        p.filter (isOtherEdge p (readBuilderContext "s" sampleDb 40)) ∧
      normalizeDagTaskTransition q (readBuilderContext "s" sampleDb 40) none = .ok q) := by
  obtain ⟨p, q, hp, hadd, hq, -⟩ := exists_of_sampleOutcome
    (by decide +kernel : sampleOutcome none = some (1, none))
  exact ⟨p, q, hp, hadd, hq, completed_patch "s" sampleHistory (final_mem_visited (step "s") sampleHistory _) 40
    samplePatch (sampleTurn 3 none) (sampleEnv 3) .llmPatch .llmPatch hp hadd hq⟩

end Sample

end Memmy.SessionDag.Completion
