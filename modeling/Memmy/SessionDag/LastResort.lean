import Mathlib.Data.List.Pairwise
import Memmy.SessionDag.History

/-! # When the fallback goes through

The fallback goes on with the task that was written last and is not frozen; the store judges its patch by
the root, which need not be that task. `fallback_iff` says exactly when the patch is applied: there is no
task yet, or the existing task is one that the store accepts for the turn (`FallbackFits`).

* `foldlM_fallback`: the operations of the fallback cannot fail, unless the goal of the turn is taken.
* `fallback_of_fits`, `fits_of_applied`: the two directions.
* `fallback_iff`: both, in every state of every history. -/

namespace Memmy.SessionDag.LastResort

open Relation Lib.JsonValue Lib.Reach Lib.Result Lib.Run SessionDag.Types
open Option
open List SessionDag.PatchSchema SessionDag.Selection SessionDag.Store SessionDag.Builder
  SessionDag.Shape SessionDag.Invariant SessionDag.Validated SessionDag.Progress SessionDag.Context
  SessionDag.Transition SessionDag.Normalize SessionDag.Completion SessionDag.Written
  SessionDag.History

/-- **When the store accepts the patch of the fallback.** -/
def FallbackFits (nodes : List DagNode) (turn : DagTurn) : Prop :=
  tasksOf nodes = [] ∨ ∃ e, existingTask nodes = some e ∧
    match turnGoal turn with
    | none => truthy e.goalId = none ∨ selectRootTask nodes = some e
    | some g => selectRootTask nodes = some e ∧
        if e.goalId = some g.goalId then g.status = .completed ∨ e.status.isOpen = true
        else ∀ n ∈ nodes, n.goalId ≠ some g.goalId

/-! ### The updates of the fallback -/

section Updates
variable {nodes : List DagNode} {turn : DagTurn} {e : DagNode}

theorem existingTaskTransition_ok (e : DagNode) :
    taskTransitionEdgeType (existingTaskTransition e).1 = some (existingTaskTransition e).2 := by
  unfold existingTaskTransition
  split_ifs with h
  · rcases h with h | h <;> rw [h] <;> rfl
  · rfl

theorem updatesOf_closeUpdates (id : String) :
    updatesOf (closeUpdates e) id = if (existingTaskTransition e).1 ≠ e.status ∧ e.id = id then
      [{ nodeId := e.id, status := some (existingTaskTransition e).1 }] else [] := by
  unfold closeUpdates
  split_ifs with h h' h'
  · rw [updatesOf_updateNode, if_pos h'.2]
  · rw [updatesOf_updateNode, if_neg fun he => h' ⟨h, he⟩]
  · exact absurd h'.1 h
  · rfl

/-- **A task that is replaced** is closed as its transition says. -/
theorem statusAfter_of_new (h : existingTask nodes = some e) (hm : mustCreateTask nodes turn = true)
    (id : String) (status : DagNodeStatus) :
    statusAfter (fallbackPatch nodes turn) id status =
      if (existingTaskTransition e).1 ≠ e.status ∧ e.id = id then (existingTaskTransition e).1
      else status := by
  unfold statusAfter
  rw [fallbackPatch_of_new h hm, updatesOf_append, updatesOf_closeUpdates]
  split_ifs <;> rfl

theorem mem_updatesOf_existing (h : existingTask nodes = some e)
    (hm : mustCreateTask nodes turn = false) {id : String} {u : UpdateNodePatchOp}
    (hu : u ∈ updatesOf (fallbackPatch nodes turn) id) :
    u = doneUpdate id ∧ continuesSameGoal nodes turn = true ∧
      ((e.id = id ∧ (turnGoal turn).any (·.status = .completed) = true) ∨
        ∃ s, activeSubtask nodes = some s ∧ s.id = id) := by
  obtain ⟨hop, hid⟩ := mem_updatesOf.mp hu
  rw [fallbackPatch_of_existing h hm] at hop
  simp only [mem_append, mem_singleton, reduceCtorEq, or_false] at hop
  rcases hop with hop | hop
  · unfold completeUpdates at hop
    split_ifs at hop with hc
    · cases mem_singleton.mp hop
      exact ⟨congrArg doneUpdate hid, hc.2, Or.inl ⟨hid, hc.1⟩⟩
    · cases hop
  · unfold stepUpdates at hop
    cases hs : activeSubtask nodes with
    | none => rw [hs] at hop; cases hop
    | some s =>
      rw [hs] at hop
      split_ifs at hop with hc
      · cases mem_singleton.mp hop
        exact ⟨congrArg doneUpdate hid, hc, Or.inr ⟨s, rfl, hid⟩⟩
      · cases hop

theorem statusAfter_of_existing (h : existingTask nodes = some e)
    (hm : mustCreateTask nodes turn = false) (id : String) (status : DagNodeStatus) :
    statusAfter (fallbackPatch nodes turn) id status =
      if updatesOf (fallbackPatch nodes turn) id = [] then status else .done :=
  statusAfter_of_const fun u hu => by
    rw [(mem_updatesOf_existing h hm hu).1]
    rfl

end Updates

/-! ### The loop of the fallback -/

section Loop
variable {sessionKey : String} {db : Db} {turn : DagTurn}

theorem ne_fallback (h : WellFormed sessionKey db) {n : DagNode} (hn : n ∈ graphNodes sessionKey db) :
    n.id ≠ "fallback_task" ∧ n.id ≠ "fallback_subtask" := by
  obtain ⟨row, hrow, -, rfl⟩ := mem_readNodes.mp hn
  obtain ⟨s, hs⟩ := h.built.named (shape row) (mem_shapes.mpr ⟨row, hrow, rfl⟩)
  change row.id = _ at hs
  change row.id ≠ _ ∧ row.id ≠ _
  rw [hs]
  exact ⟨fun he => tempName_fallback.1.ne_id s he.symm, fun he => tempName_fallback.2.ne_id s he.symm⟩

theorem exists_row {n : DagNode} (hn : n ∈ graphNodes sessionKey db) :
    ∃ m ∈ db.nodes, m.id = n.id ∧ m.status = n.status ∧ m.kind = n.kind ∧ m.goalId = n.goalId := by
  obtain ⟨row, hrow, -, rfl⟩ := mem_readNodes.mp hn
  exact ⟨row, hrow, rfl, rfl, rfl, rfl⟩

/-- The nodes that the fallback knows are there. -/
theorem exists_of_mem_graph {id : String} (hid : id ∈ (graphNodes sessionKey db).map (·.id)) :
    ∃ m ∈ db.nodes, m.id = id := by
  obtain ⟨n, hn, rfl⟩ := mem_map.mp hid
  obtain ⟨row, hrow, hrid, -⟩ := exists_row hn
  exact ⟨row, hrow, hrid⟩

/-- **Every edge of the fallback leads to a node that it has just added.** -/
theorem fits_fallbackPatch (h : WellFormed sessionKey db) (turn : DagTurn) :
    Fits db [] (fallbackPatch (graphNodes sessionKey db) turn) := by
  have hne : ("fallback_task" : String) ≠ "fallback_subtask" := by decide +kernel
  cases he : existingTask (graphNodes sessionKey db) with
  | none =>
    rw [fallbackPatch_of_none he]
    refine ⟨⟨?_, hne, by simp, nofun⟩, trivial⟩
    simp [tempIds, DagPatchOp.addNode?, stepEdge, fallbackSubtask]
  | some e =>
    obtain ⟨hmem, -⟩ := existingTask_eq_some he
    obtain ⟨hne1, hne2⟩ := ne_fallback h hmem
    cases hm : mustCreateTask (graphNodes sessionKey db) turn with
    | true =>
      rw [fallbackPatch_of_new he hm, fits_append]
      constructor
      · refine fits_of_no_edge _ _ fun op hop => ?_
        obtain ⟨u, rfl, -⟩ := mem_closeUpdates (mem_singleton_self e.id) hop
        rfl
      · refine ⟨⟨?_, hne1, ?_, ?_⟩, ⟨?_, hne, ?_, nofun⟩, trivial⟩
        · simp [tempIds, DagPatchOp.addNode?, taskEdge, fallbackTask]
        · intro e' he'
          exfalso
          rcases mem_append.mp he' with he' | he'
          · obtain ⟨u, hu, -⟩ := mem_closeUpdates (mem_singleton_self e.id) he'
            cases hu
          · simp at he'
        · intro ht
          obtain ⟨m, hm, hid, hstatus, -⟩ := exists_row hmem
          refine ⟨m, hm, hid, ?_⟩
          have htype := existingTaskTransition_ok e
          rw [show (existingTaskTransition e).2 = .supersedes from ht] at htype
          have hfrozen : (existingTaskTransition e).1 = .frozen := by
            revert htype
            cases (existingTaskTransition e).1 <;> simp [taskTransitionEdgeType]
          unfold statusAfter
          rw [nil_append, updatesOf_append, updatesOf_closeUpdates, updatesOf_addNode,
            append_nil, hfrozen, if_pos ⟨fun he' => (existingTask_eq_some he).2.2 he'.symm, hid.symm⟩]
          rfl
        · simp [tempIds, DagPatchOp.addNode?, stepEdge, fallbackTask, fallbackSubtask]
        · intro e' he'
          simp only [mem_append, nil_append, mem_singleton, reduceCtorEq, or_false,
            DagPatchOp.addEdge.injEq] at he'
          rcases he' with he' | rfl
          · obtain ⟨u, hu, -⟩ := mem_closeUpdates (mem_singleton_self e.id) he'
            cases hu
          · exact hne2
    | false =>
      rw [fallbackPatch_of_existing he hm]
      have hnodes : ∀ n ∈ graphNodes sessionKey db, n.id ∈ (graphNodes sessionKey db).map (·.id) :=
        fun n hn => mem_map.mpr ⟨n, hn, rfl⟩
      have hno : ∀ op ∈ completeUpdates (graphNodes sessionKey db) turn e ++
          [.addNode (fallbackSubtask turn)] ++ stepUpdates (graphNodes sessionKey db) turn,
          op.addEdge? = none := by
        intro op hop
        simp only [mem_append, mem_singleton] at hop
        rcases hop with (hop | rfl) | hop
        · obtain ⟨u, rfl, -⟩ := mem_completeUpdates (hnodes e hmem) hop
          rfl
        · rfl
        · obtain ⟨u, rfl, -⟩ := mem_stepUpdates hnodes hop
          rfl
      obtain ⟨htarget, hsource⟩ := parentEdge_known (hnodes e hmem) hnodes
      obtain ⟨n, hn, hnid⟩ := mem_map.mp hsource
      refine (fits_append _ _ _).mpr ⟨fits_of_no_edge _ _ hno, ⟨?_, ?_, ?_, ?_⟩, trivial⟩
      · rw [htarget]
        simp [tempIds_append, fallbackSubtask]
      · rw [htarget, ← hnid]
        exact (ne_fallback h hn).2
      · intro e' he'
        cases hno _ he'
      · intro ht
        unfold parentEdge at ht
        split at ht <;> cases ht

end Loop

/-! ### The check of the new nodes -/

section Children
variable {sessionKey : String} {env : Env} {turn : DagTurn} {goal : Option DagGoalContext}
  {db db₀ : Db} {ids : List String} {patch : DagPatch} {run : PatchRun} {olds news : List DagNode}

/-- **The check passes** when every new node is reached from a task. -/
theorem assertChildren_ok (hb : Built sessionKey (shapes db) db.edges) {added : List String}
    (h : ∀ id ∈ added, ∃ t ∈ db.nodes, t.kind = .task ∧ ReflTransGen (Linked db.edges) t.id id) :
    assertAddedChildNodesReachableFromTaskRoot (readNodes sessionKey db) (readEdges db) added =
      .ok () := by
  have hknown : ∀ m ∈ shapes db, (byId (readNodes sessionKey db) m.id).isSome = true := by
    intro m hm
    obtain ⟨n, hn, rfl⟩ := mem_shapes.mp hm
    change (byId (readNodes sessionKey db) (parseNodeRow n).id).isSome = true
    rw [byId_readNodes hb (parse_mem_readNodes hb hn)]
    rfl
  have hreached : ∀ id ∈ added, id ∈ reachableFromTasks (readNodes sessionKey db) (readEdges db) := by
    intro id hid
    obtain ⟨t, ht, hk, hpath⟩ := h id hid
    refine (mem_reach_iff _ _ _ _).mpr ⟨t.id, mem_map.mpr ⟨parseNodeRow t,
      mem_tasksOf.mpr ⟨parse_mem_readNodes hb ht, hk⟩, rfl⟩, reached_mono (fun e he => ?_) hpath⟩
    obtain ⟨-, ⟨s, hs, hsid⟩, t, ht, htid⟩ := hb.joins e he
    refine mem_filter.mpr ⟨mem_readEdges.mpr he, decide_eq_true ⟨?_, ?_⟩⟩
    · rw [← hsid]; exact hknown s hs
    · rw [← htid]; exact hknown t ht
  unfold assertAddedChildNodesReachableFromTaskRoot
  rw [find?_eq_none.mpr fun id hid => by simpa using hreached id hid]

theorem exists_task_reaching (h : WellFormed sessionKey db) (hm : m ∈ db.nodes) :
    ∃ t ∈ db.nodes, t.kind = .task ∧ ReflTransGen (Linked db.edges) t.id m.id := by
  by_cases hk : m.kind = .task
  · exact ⟨m, hm, hk, ReflTransGen.refl⟩
  · obtain ⟨t, ht, htk, hpath⟩ := h.rooted (shape m) (mem_shapes.mpr ⟨m, hm, rfl⟩) hk
    obtain ⟨n, hn, rfl⟩ := mem_shapes.mp ht
    exact ⟨n, hn, htk, hpath⟩

theorem reached_of_edge (op : AddEdgePatchOp) (h₀ : WellFormed sessionKey db₀)
    (h : Ran sessionKey env turn goal db₀ patch run olds news) (hpatch : PatchOk ids patch)
    (hop : .addEdge op ∈ patch) {n : DagNode} (htemp : (op.targetId, n.id) ∈ run.tempNodeIds)
    (hsource : (∃ m ∈ db₀.nodes, m.id = op.sourceId) ∨
      ∃ t ∈ news, t.kind = .task ∧ (op.sourceId, t.id) ∈ run.tempNodeIds) :
    ∃ t ∈ run.db.nodes, t.kind = .task ∧ ReflTransGen (Linked run.db.edges) t.id n.id := by
  have htempName : ∀ {name id : String}, (name, id) ∈ run.tempNodeIds → ∀ m ∈ db₀.nodes, name ≠ m.id := by
    intro name id hmem m hm he
    obtain ⟨a, ha, rfl⟩ := mem_tempIds.mp (h.mem_tempNodeIds hmem).1
    obtain ⟨s, hs⟩ := h₀.built.named (shape m) (mem_shapes.mpr ⟨m, hm, rfl⟩)
    exact (hpatch.adds a ha).temp.ne_id s (he.trans hs)
  have hresolves : ∀ {name id id' : String}, (name, id) ∈ run.tempNodeIds →
      Names db₀ run.tempNodeIds name id' → id' = id := by
    rintro name id id' hmem (hmem' | ⟨rfl, m, hm, hid⟩)
    · exact h.snd_eq_of_temp hpatch.temps hmem' hmem
    · exact absurd hid.symm (htempName hmem m hm)
  obtain ⟨e, he, -, hs, ht⟩ := h.linked op hop
  have hstep : Linked run.db.edges e.sourceId n.id := linked_iff.mpr ⟨e, he, rfl, hresolves htemp ht⟩
  rcases hsource with ⟨m, hm, hid⟩ | ⟨t, ht, hk, hmem⟩
  · obtain ⟨t, ht, hk, hpath⟩ := exists_task_reaching h₀ hm
    obtain ⟨t', ht', hrow⟩ := h.exists_old ht
    rw [← hid] at hs
    rw [names_old h₀.built h hpatch hm hs] at hstep
    refine ⟨t', by rw [h.nodes]; exact mem_append_left _ ht', hrow.kind.trans hk, ?_⟩
    rw [hrow.id]
    exact (reached_mono h.loop.oldEdges hpath).tail hstep
  · rw [hresolves hmem hs] at hstep
    exact ⟨t, by rw [h.nodes]; exact mem_append_right _ ht, hk, ReflTransGen.single hstep⟩

end Children

/-! ### The check of the goal -/

section Boundary
variable {nodes : List DagNode} {edges : List DagEdge} {turnId : String}
variable {added : List String} {root : Option DagNode}

theorem sideBranches_ok (hb : Built sessionKey (shapes db) db.edges)
    (hside : SideBranchesOk (shapes db) db.edges)
    (hnew : ∀ e ∈ db.edges, e.type = .sideBranch → e.createdTurnId ≠ some turnId)
    (goalTask : Option DagNode) :
    ((readEdges db).filter fun e => e.type = .sideBranch).findSome?
      (sideBranchError (readNodes sessionKey db) goalTask turnId) = none := by
  rw [findSome?_eq_none_iff]
  intro e he
  obtain ⟨he, ht⟩ := mem_filter.mp he
  rw [mem_readEdges] at he
  rw [decide_eq_true_eq] at ht
  obtain ⟨⟨s, hs, hsid, hsk, g, hg, hgne⟩, t, htm, htid, htk⟩ := hside e he ht
  obtain ⟨s, hsrow, rfl⟩ := mem_shapes.mp hs
  obtain ⟨t, htrow, rfl⟩ := mem_shapes.mp htm
  have hfs := byId_readNodes hb (parse_mem_readNodes hb hsrow)
  have hft := byId_readNodes hb (parse_mem_readNodes hb htrow)
  rw [show (parseNodeRow s).id = e.sourceId from hsid] at hfs
  rw [show (parseNodeRow t).id = e.targetId from htid] at hft
  unfold sideBranchError
  rw [hfs, hft, if_neg, if_neg fun h => hnew e he ht h.1]
  have hgoal : s.goalId = some g := hg
  have hkind : s.kind = .task := hsk
  have htkind : t.kind ≠ .task := htk
  simp [hgoal, hkind, htkind, hgne]

theorem assertGoalBoundary_none
    (hside : ∀ goalTask, (edges.filter fun e => e.type = .sideBranch).findSome?
      (sideBranchError nodes goalTask turnId) = none)
        (hroot : ∀ r, root = some r → ∀ id, added.head? = some id → r.goalId.any (· ≠ "") = true →
      r.status.isOpen = true → (byId nodes r.id).map (·.status) = some .frozen ∧
        ∃ e ∈ edges, e.sourceId = r.id ∧ (byId nodes id).map (·.id) = some e.targetId ∧
          e.type = .supersedes) :
    assertGoalBoundary nodes edges turnId none root added = .ok none := by
  unfold assertGoalBoundary
  dsimp only
  rw [hside]
  cases root with
  | none => rfl
  | some r =>
    cases hid : added.head? with
    | none => rfl
    | some id =>
      refine if_neg ?_
      rintro ⟨hg, ho, hbad⟩
      obtain ⟨hfrozen, e, he, hedge⟩ := hroot r rfl id hid hg ho
      rcases hbad with hbad | hbad
      · exact hbad hfrozen
      · rw [List.any_eq_false] at hbad
        exact hbad e he (by simpa using hedge)

theorem assertGoalBoundary_some
    (hside : ∀ goalTask, (edges.filter fun e => e.type = .sideBranch).findSome?
      (sideBranchError nodes goalTask turnId) = none)
    {g : DagGoalContext} {task : DagNode}
    (htask : nodes.find? (fun n => n.goalId = some g.goalId) = some task) (hone : added.length ≤ 1)
    (hswitch : root.bind (·.goalId) = some g.goalId ↔ added = [])
    (hopen : g.status ≠ .completed → task.status.isOpen = true) :
    ∃ goalTask, assertGoalBoundary nodes edges turnId (some g) root added = .ok goalTask := by
  unfold assertGoalBoundary
  dsimp only [bind_some]
  rw [hside, htask]
  dsimp only
  rw [throwIf_of_not (by omega), ok_bind, throwIf_of_not (fun h => h.2 (hswitch.mp h.1)), ok_bind,
    throwIf_of_not (fun h => h.1 (hswitch.mpr h.2)), ok_bind]
  split_ifs with hc
  · exact ⟨_, rfl⟩
  · rw [throwIf_of_not (by rw [hopen hc]; simp)]
    exact ⟨_, rfl⟩

end Boundary

/-! ### The patch as a whole -/

section Parts
variable {sessionKey : String} {env : Env} {db db₁ : Db} {options : ApplyDagPatchOptions}
  {turnRow : DagTurn} {run : PatchRun} {goalTask : Option DagNode}

theorem applyPatch_of_parts (hup : upsertTurn db options.turn env.upsertNow = .ok (db₁, turnRow))
    (hcheck : checkGoalPatch options.turn.goalContext (selectRootTask (readNodes sessionKey db))
      options.patch = .ok ())
    (hrun : options.patch.foldlM
      (applyOp sessionKey env turnRow options.turn.goalContext options.writeSource) { db := db₁ } =
        .ok run)
    (hchildren : assertAddedChildNodesReachableFromTaskRoot (readNodes sessionKey run.db)
      (readEdges run.db) run.addedChildNodeIds = .ok ())
    (htransition : assertTaskTransitionIntegrity (readNodes sessionKey run.db) (readEdges run.db)
      ((selectRootTask (readNodes sessionKey db)).map (·.id)) run.addedTaskNodeIds = .ok ())
    (hboundary : assertGoalBoundary (readNodes sessionKey run.db) (readEdges run.db)
      options.turn.turnId options.turn.goalContext (selectRootTask (readNodes sessionKey db))
      run.addedTaskNodeIds = .ok goalTask) :
    applyPatch sessionKey env db options = .ok (appliedDb env options run goalTask, run) := by
  have hfinish : finishPatch sessionKey env options (selectRootTask (readNodes sessionKey db)) run =
      .ok (appliedDb env options run goalTask) := by
    unfold finishPatch
    dsimp only
    rw [hchildren, ok_bind, htransition, hboundary]
    rfl
  unfold applyPatch
  simp only [hup, ok_bind, hcheck, Except.mapError, hrun, hfinish, pure_eq]

end Parts

/-! ### The three ways -/

section Ways
variable {turn : DagTurn} {nodes : List DagNode}

theorem mustCreateTask_of_some (turn : DagTurn) (he : existingTask nodes = some e) :
    mustCreateTask nodes turn = match turnGoal turn with
      | none => (truthy e.goalId).isSome
      | some g => !decide (e.goalId = some g.goalId) := by
  unfold mustCreateTask continuesSameGoal
  rw [he]
  cases turnGoal turn <;> simp

theorem fallbackFits_iff :
    FallbackFits nodes turn ↔ tasksOf nodes = [] ∨
      ∃ e, existingTask nodes = some e ∧
        ((mustCreateTask nodes turn = true ∧ selectRootTask nodes = some e ∧
          ∀ g, turnGoal turn = some g → ∀ n ∈ nodes, n.goalId ≠ some g.goalId) ∨
        (mustCreateTask nodes turn = false ∧
          ∀ g, turnGoal turn = some g → selectRootTask nodes = some e ∧
            (g.status = .completed ∨ e.status.isOpen = true))) := by
  refine or_congr_right (exists_congr fun e => and_congr_right fun he => ?_)
  have hmust := mustCreateTask_of_some turn he
  cases hg : turnGoal turn with
  | none =>
    rw [hg] at hmust
    rw [hmust]
    cases truthy e.goalId <;> simp
  | some g =>
    rw [hg] at hmust
    rw [hmust]
    by_cases hsame : e.goalId = some g.goalId
    · simp [hsame]
    · simp [hsame]

theorem existingTask_of_no_task (h : tasksOf nodes = []) : existingTask nodes = none := by
  cases he : existingTask nodes with
  | none => rfl
  | some e =>
    obtain ⟨hmem, hk, -⟩ := existingTask_eq_some he
    have : e ∈ tasksOf nodes := mem_tasksOf.mpr ⟨hmem, hk⟩
    rw [h] at this
    cases this

end Ways

/-! ### It goes through -/

section Success
variable {sessionKey : String} {env : Env} {db : Db} {turn turnRow : DagTurn} {run : PatchRun}
  {olds news : List DagNode} {e : DagNode} {writeSource : DagWriteSource}

theorem addedTasks_fallbackPatch :
    addedTasks (fallbackPatch nodes turn) =
      if mustCreateTask nodes turn = true then [fallbackTask turn] else [] := by
  cases he : existingTask nodes with
  | none =>
    have hm : mustCreateTask nodes turn = true := by unfold mustCreateTask; rw [he]; rfl
    rw [fallbackPatch_of_none he, if_pos hm]
    rfl
  | some e =>
    cases hm : mustCreateTask nodes turn with
    | true =>
      rw [fallbackPatch_of_new he hm, addedTasks_append, if_pos rfl]
      obtain ⟨-, h2, -⟩ := facts_of_updates fun op (hop : op ∈ closeUpdates e) => by
        obtain ⟨u, rfl, -⟩ := mem_closeUpdates (mem_singleton_self e.id) hop
        exact ⟨u, rfl⟩
      rw [h2]
      rfl
    | false =>
      refine eq_nil_iff_forall_not_mem.mpr fun a ha => ?_
      obtain ⟨hop, hk⟩ := mem_addedTasks.mp ha
      rw [fallbackPatch_of_existing he hm] at hop
      simp only [mem_append, mem_singleton, reduceCtorEq, or_false, DagPatchOp.addNode.injEq] at hop
      rcases hop with (hop | rfl) | hop
      · obtain ⟨u, hu, -⟩ := mem_completeUpdates (mem_singleton_self e.id) hop
        cases hu
      · cases hk
      · obtain ⟨u, hu, -⟩ := mem_stepUpdates
          (fun n hn => (mem_map_of_mem hn : n.id ∈ nodes.map (·.id))) hop
        cases hu

theorem openTask_fallbackTask (turn : DagTurn) : (fallbackTask turn).status.isOpen = true := by
  unfold fallbackTask
  split_ifs <;> rfl

/-- **A queued turn can be stored again.** -/
theorem upsertTurn_of_range (db : Db) (hrange : turn.messageStart < turn.messageEnd) (now : ℕ) :
    ∃ db₁ row, upsertTurn db (turnToInput turn) now = .ok (db₁, row) := by
  have hs : integer? (turnToInput turn).messageStart = some turn.messageStart := by
    simp [turnToInput, integer?]
  have ht : integer? (turnToInput turn).messageEnd = some turn.messageEnd := by
    simp [turnToInput, integer?]
  unfold upsertTurn
  rw [hs, ht]
  dsimp only
  rw [if_neg (by omega)]
  cases getTurn db (turnToInput turn).turnId <;> exact ⟨_, _, rfl⟩

/-- **The check before the operations.** -/
theorem checkGoalPatch_fallback (h : WellFormed sessionKey db)
    (hfits : FallbackFits (graphNodes sessionKey db) turn) :
    checkGoalPatch (turnGoal turn) (selectRootTask (readNodes sessionKey db))
      (fallbackPatch (graphNodes sessionKey db) turn) = .ok () := by
  cases hg : turnGoal turn with
  | none => rfl
  | some g =>
    cases hroot : selectRootTask (readNodes sessionKey db) with
    | none => rfl
    | some root =>
      unfold checkGoalPatch
      dsimp only
      split_ifs with hsame
      · rcases fallbackFits_iff.mp hfits with hnil | ⟨e, he, ⟨-, -, hfree⟩ | ⟨hm, hgo⟩⟩
        · rw [graphNodes_eq, ← selectRootTask_eq_none, hroot] at hnil
          cases hnil
        · exact absurd hsame (hfree g hg root (selectRootTask_cases hroot).1)
        · obtain ⟨hre, hstatus⟩ := hgo g hg
          have hupdates : ∀ s ∈ (updatesOf (fallbackPatch (graphNodes sessionKey db) turn) root.id).filterMap
              (·.status), s = .done ∧ g.status = .completed := by
            intro s hs
            obtain ⟨u, hu, hus⟩ := mem_filterMap.mp hs
            obtain ⟨rfl, -, ⟨-, hc⟩ | ⟨s', hs', hid⟩⟩ := mem_updatesOf_existing he hm hu
            · rw [hg] at hc
              exact ⟨(some.inj hus).symm, by simpa using hc⟩
            · exfalso
              obtain ⟨hmem, hk, -⟩ := activeSubtask_eq_some hs'
              have := eq_of_id_readNodes h.built hmem (selectRootTask_cases hroot).1 hid
              rw [this, (selectRootTask_cases hroot).2.1] at hk
              cases hk
          rw [addedTasks_fallbackPatch, hm, throwIf_of_not (by simp), ok_bind, throwIf_of_not, ok_bind,
            throwIf_of_not]
          · rintro ⟨-, s, hs, hne⟩
            exact hne (hupdates s hs).1
          · rintro ⟨hnc, s, hs, -⟩
            exact hnc (hupdates s hs).2
      · rfl

/-- **The operations of the fallback.** -/
theorem foldlM_fallback (turnRow : DagTurn) (writeSource : DagWriteSource) (h : WellFormed sessionKey db)
    (hfresh : Fresh env db)
    (hfits : FallbackFits (graphNodes sessionKey db) turn) :
    ∃ run, (fallbackPatch (graphNodes sessionKey db) turn).foldlM
      (applyOp sessionKey env turnRow (turnGoal turn) writeSource) { db := db } = .ok run := by
  obtain ⟨hok, hone⟩ := patchOk_fallbackPatch_graph h turn
  refine foldlM_ok_of_fits hok hone (fun _ hid => exists_of_mem_graph hid) h (fits_fallbackPatch h turn)
    hfresh ?_
  intro hadd g hg m hm
  rcases fallbackFits_iff.mp hfits with hnil | ⟨e, he, ⟨-, -, hfree⟩ | ⟨hmust, -⟩⟩
  · rw [nodes_of_no_root h (selectRootTask_eq_none.mpr hnil)] at hm
    cases hm
  · exact hfree g hg (parseNodeRow m) (parse_mem_readNodes h.built hm)
  · rw [addedTasks_fallbackPatch, if_neg (by rw [hmust]; simp)] at hadd
    exact absurd rfl hadd

/-- What the new step is put below is there. -/
theorem exists_parent (he : existingTask (graphNodes sessionKey db) = some e) :
    ∃ m ∈ db.nodes, m.id = (parentEdge (graphNodes sessionKey db) e).sourceId := by
  obtain ⟨-, hsource⟩ := parentEdge_known
    (mem_map_of_mem (existingTask_eq_some he).1 : e.id ∈ (graphNodes sessionKey db).map (·.id))
    (fun n hn => mem_map.mpr ⟨n, hn, rfl⟩)
  obtain ⟨n, hn, hid⟩ := mem_map.mp hsource
  obtain ⟨row, hrow, hrid, -⟩ := exists_row hn
  exact ⟨row, hrow, hrid.trans hid⟩

/-- **The new step is reached.** -/
theorem assertChildren_fallback (h : WellFormed sessionKey db)
    (hran : Ran sessionKey env turnRow (turnGoal turn) db
      (fallbackPatch (graphNodes sessionKey db) turn) run olds news) :
    assertAddedChildNodesReachableFromTaskRoot (readNodes sessionKey run.db) (readEdges run.db)
      run.addedChildNodeIds = .ok () := by
  obtain ⟨hok, -⟩ := patchOk_fallbackPatch_graph h turn
  refine assertChildren_ok hran.loop.built fun id hid => ?_
  rw [hran.addedChildren] at hid
  obtain ⟨n, hn, rfl⟩ := mem_map.mp hid
  obtain ⟨hnew, hk⟩ := mem_filter.mp hn
  rw [decide_eq_true_eq] at hk
  obtain ⟨op, hop, hrow, htemp⟩ := hran.of_new hnew
  have hstep : op.tempId = "fallback_subtask" := by
    rcases mem_fallbackPatch_addNode hop with rfl | rfl
    · exact absurd hrow.kind hk
    · rfl
  rw [hstep] at htemp
  by_cases hadd : mustCreateTask (graphNodes sessionKey db) turn = true
  · have hone : addedTasks (fallbackPatch (graphNodes sessionKey db) turn) = [fallbackTask turn] := by
      rw [addedTasks_fallbackPatch, if_pos hadd]
    obtain ⟨t, ht, -, httemp, htk, -⟩ := exists_addedTask hran hone
    refine reached_of_edge (stepEdge "fallback_task" .decomposes) h hran hok ?_ htemp
      (Or.inr ⟨t, ht, htk, httemp⟩)
    cases he : existingTask (graphNodes sessionKey db) with
    | none => rw [fallbackPatch_of_none he]; simp
    | some e => rw [fallbackPatch_of_new he hadd]; simp
  · rw [Bool.not_eq_true] at hadd
    cases he : existingTask (graphNodes sessionKey db) with
    | none => unfold mustCreateTask at hadd; rw [he] at hadd; cases hadd
    | some e =>
      have htarget : (parentEdge (graphNodes sessionKey db) e).targetId = "fallback_subtask" := by
        unfold parentEdge
        split <;> rfl
      refine reached_of_edge (parentEdge (graphNodes sessionKey db) e) h hran hok ?_
        (by rw [htarget]; exact htemp) (Or.inl (exists_parent he))
      rw [fallbackPatch_of_existing he hadd]
      exact mem_append_right _ mem_cons_self

/-- **The check of the tasks.** -/
theorem assertTransition_fallback (h : WellFormed sessionKey db)
    (hfits : FallbackFits (graphNodes sessionKey db) turn)
    (hran : Ran sessionKey env turnRow (turnGoal turn) db
      (fallbackPatch (graphNodes sessionKey db) turn) run olds news) :
    assertTaskTransitionIntegrity (readNodes sessionKey run.db) (readEdges run.db)
      ((selectRootTask (readNodes sessionKey db)).map (·.id)) run.addedTaskNodeIds = .ok () := by
  obtain ⟨hok, -⟩ := patchOk_fallbackPatch_graph h turn
  rcases fallbackFits_iff.mp hfits with hnil | ⟨e, he, ⟨hm, hroot, -⟩ | ⟨hm, -⟩⟩
  · have hroot : selectRootTask (readNodes sessionKey db) = none := selectRootTask_eq_none.mpr hnil
    have hm : mustCreateTask (graphNodes sessionKey db) turn = true := by
      unfold mustCreateTask
      rw [existingTask_of_no_task hnil]
      rfl
    rw [hroot]
    exact assertTransition_of_no_root hran (nodes_of_no_root h hroot)
      (by rw [addedTasks_fallbackPatch, if_pos hm]) (openTask_fallbackTask turn)
  · rw [graphNodes_eq] at hroot
    rw [hroot]
    have hafter : ∀ id status, statusAfter (fallbackPatch (graphNodes sessionKey db) turn) id status = _ :=
      fun id status => statusAfter_of_new he hm id status
    have hclosed : ((existingTaskTransition e).1).isOpen = false := by
      have := existingTaskTransition_ok e
      revert this
      cases (existingTaskTransition e).1 <;> simp [taskTransitionEdgeType, DagNodeStatus.isOpen]
    have hself : statusAfter (fallbackPatch (graphNodes sessionKey db) turn) e.id e.status =
        (existingTaskTransition e).1 := by
      rw [hafter]
      split_ifs with hc
      · rfl
      · by_contra hne
        exact hc ⟨fun he => hne he.symm, rfl⟩
    refine assertTransition_of_root hran h hok hroot
      (by rw [addedTasks_fallbackPatch, if_pos hm]) (openTask_fallbackTask turn) ?_
      (by rw [hself]; exact existingTaskTransition_ok e) ?_ ?_
    · intro m hmem hk
      by_cases hid : m.id = e.id
      · have hrow : m.status = e.status :=
          (congrArg DagNode.status (eq_of_id_readNodes h.built (parse_mem_readNodes h.built hmem)
            (selectRootTask_cases hroot).1 hid) : (parseNodeRow m).status = e.status)
        rw [hid, hrow, hself]
        exact hclosed
      · rw [hafter, if_neg fun hc => hid hc.2.symm]
        exact closed_of_ne_root h hroot hmem hk hid
    · rw [fallbackPatch_of_new he hm]
      exact mem_append_right _ (by simp [taskEdge, fallbackTask])
    · intro op hop ht
      rcases mem_fallbackPatch_addEdge hop with ⟨e', he', rfl⟩ | ⟨ht', -⟩
      · rw [he] at he'
        cases he'
        rfl
      · rw [ht] at ht'
        exact absurd ht' (by decide +kernel : ("fallback_task" : String) ≠ "fallback_subtask")
  · refine assertTransition_of_no_task hran h
      (by rw [addedTasks_fallbackPatch, if_neg (by rw [hm]; simp)]) ?_ _
    intro m _ _ hopen
    rw [statusAfter_of_existing he hm] at hopen
    split_ifs at hopen
    · exact hopen
    · cases hopen

/-- Two rows with one goal are one row. -/
theorem eq_of_goal (hb : Built sessionKey (shapes db) db.edges) {n n' : DagNode} (hn : n ∈ db.nodes)
    (hn' : n' ∈ db.nodes) {g : String} (hg : n.goalId = some g) (hg' : n'.goalId = some g) : n = n' := by
  have hshape : shape n = shape n' := by
    by_contra hne
    have : Std.Symm fun a b : NodeShape => a.goalId.isSome = true → a.goalId ≠ b.goalId :=
      ⟨fun a b h hb he => h (by rw [← he]; exact hb) he.symm⟩
    exact hb.goals.forall (mem_shapes.mpr ⟨n, hn, rfl⟩) (mem_shapes.mpr ⟨n', hn', rfl⟩) hne
      (by change n.goalId.isSome = true; rw [hg]; rfl) (hg.trans hg'.symm)
  exact inj_on_of_nodup_map (nodup_ids_nodes hb.ids rfl) hn hn' (congrArg NodeShape.id hshape)

/-- **The task of a goal is found.** -/
theorem find_goal (hb : Built sessionKey (shapes db) db.edges) {n : DagNode} (hn : n ∈ db.nodes)
    {g : String} (hg : n.goalId = some g) :
    (readNodes sessionKey db).find? (fun n => n.goalId = some g) = some (parseNodeRow n) := by
  cases hf : (readNodes sessionKey db).find? fun n => n.goalId = some g with
  | none => exact absurd (decide_eq_true hg) (find?_eq_none.mp hf (parseNodeRow n) (parse_mem_readNodes hb hn))
  | some n' =>
    obtain ⟨row, hrow, -, rfl⟩ := mem_readNodes.mp (mem_of_find?_eq_some hf)
    have hg' := find?_some hf
    rw [decide_eq_true_eq] at hg'
    rw [eq_of_goal hb hrow hn hg' hg]

theorem sideBranches_fallback (h : WellFormed sessionKey db)
    (hqueued : ∀ e ∈ db.edges, e.createdTurnId ≠ some turn.turnId)
    (hran : Ran sessionKey env turnRow (turnGoal turn) db
      (fallbackPatch (graphNodes sessionKey db) turn) run olds news) (goalTask : Option DagNode) :
    ((readEdges run.db).filter fun e => e.type = .sideBranch).findSome?
      (sideBranchError (readNodes sessionKey run.db) goalTask turn.turnId) = none := by
  have hold : ∀ e ∈ run.db.edges, e.type = .sideBranch → e ∈ db.edges := by
    intro e he ht
    obtain ⟨es, hes, hall⟩ := hran.edges
    rw [hes] at he
    rcases mem_append.mp he with he | he
    · exact he
    · exfalso
      obtain ⟨-, -, op, hop, htype, -⟩ := hall e he
      rw [ht] at htype
      rcases mem_fallbackPatch_addEdge hop with ⟨e', -, rfl⟩ | ⟨-, hne⟩
      · have := existingTaskTransition_ok e'
        rw [show (existingTaskTransition e').2 = .sideBranch from htype.symm] at this
        revert this
        cases (existingTaskTransition e').1 <;> simp [taskTransitionEdgeType]
      · exact hne htype.symm
  refine sideBranches_ok hran.loop.built ?_ (fun e he ht => hqueued e (hold e he ht)) goalTask
  intro e he ht
  obtain ⟨⟨s, hs, hrest⟩, t, htm, hrest'⟩ := h.sideBranches e (hold e he ht) ht
  exact ⟨⟨s, hran.loop.oldNodes s hs, hrest⟩, t, hran.loop.oldNodes t htm, hrest'⟩

theorem edge_to_new (h : WellFormed sessionKey db) (he : existingTask (graphNodes sessionKey db) = some e)
    (hm : mustCreateTask (graphNodes sessionKey db) turn = true)
    (hran : Ran sessionKey env turnRow (turnGoal turn) db
      (fallbackPatch (graphNodes sessionKey db) turn) run olds news) {id : String}
    (hid : ("fallback_task", id) ∈ run.tempNodeIds) :
    ∃ edge ∈ run.db.edges, edge.sourceId = e.id ∧ edge.targetId = id ∧
      edge.type = (existingTaskTransition e).2 := by
  obtain ⟨hok, -⟩ := patchOk_fallbackPatch_graph h turn
  obtain ⟨m, hmem, hmid, -⟩ := exists_row (existingTask_eq_some he).1
  obtain ⟨edge, hedge, htype, hs, ht⟩ := hran.linked (taskEdge e) (by
    rw [fallbackPatch_of_new he hm]
    simp)
  refine ⟨edge, hedge, ?_, ?_, htype⟩
  · rw [show (taskEdge e).sourceId = m.id from hmid.symm] at hs
    exact (names_old h.built hran hok hmem hs).trans hmid
  · rcases ht with ht | ⟨hname, m', hm', hid'⟩
    · exact hran.snd_eq_of_temp hok.temps ht hid
    · obtain ⟨s, hs'⟩ := h.built.named (shape m') (mem_shapes.mpr ⟨m', hm', rfl⟩)
      exact absurd (hname.trans (hid'.symm.trans hs')) (tempName_fallback.1.ne_id s)

theorem goal_of_existing (he : existingTask (graphNodes sessionKey db) = some e)
    (hm : mustCreateTask (graphNodes sessionKey db) turn = false) {g : DagGoalContext}
    (hg : turnGoal turn = some g) : e.goalId = some g.goalId := by
  have := mustCreateTask_of_some turn he
  rw [hm, hg] at this
  simpa using this

/-- **The check of the goal.** -/
theorem assertGoalBoundary_fallback (h : WellFormed sessionKey db)
    (hqueued : ∀ e ∈ db.edges, e.createdTurnId ≠ some turn.turnId)
    (hfits : FallbackFits (graphNodes sessionKey db) turn)
    (hran : Ran sessionKey env turnRow (turnGoal turn) db
      (fallbackPatch (graphNodes sessionKey db) turn) run olds news) :
    ∃ goalTask, assertGoalBoundary (readNodes sessionKey run.db) (readEdges run.db) turn.turnId
      (turnGoal turn) (selectRootTask (readNodes sessionKey db)) run.addedTaskNodeIds = .ok goalTask := by
  have hside := sideBranches_fallback h hqueued hran
  have hlen := length_addedTaskNodeIds hran
  rw [addedTasks_fallbackPatch] at hlen
  -- the new task, when there is one
  have hnew : mustCreateTask (graphNodes sessionKey db) turn = true → ∃ n ∈ news,
      NewRow sessionKey env (turnGoal turn) (fallbackTask turn) n ∧
      ("fallback_task", n.id) ∈ run.tempNodeIds ∧ n.kind = .task ∧ run.addedTaskNodeIds = [n.id] :=
    fun hm => exists_addedTask hran (by rw [addedTasks_fallbackPatch, if_pos hm])
  have hgoalTask : ∀ g, turnGoal turn = some g → mustCreateTask (graphNodes sessionKey db) turn = true →
      ∃ task, (readNodes sessionKey run.db).find? (fun n => n.goalId = some g.goalId) = some task ∧
        task.status.isOpen = true := by
    intro g hg hm
    obtain ⟨n, hn, hrow, -, hk, -⟩ := hnew hm
    have hgoal : n.goalId = some g.goalId := by
      rw [hrow.goalId, hg]
      rfl
    exact ⟨_, find_goal hran.loop.built (by rw [hran.nodes]; exact mem_append_right _ hn) hgoal,
      by rw [parseNodeRow_status, hrow.status]; exact openTask_fallbackTask turn⟩
  rcases fallbackFits_iff.mp hfits with hnil | ⟨e, he, ⟨hm, hroot, hfree⟩ | ⟨hm, hgo⟩⟩
  · have hroot : selectRootTask (readNodes sessionKey db) = none := selectRootTask_eq_none.mpr hnil
    have hm : mustCreateTask (graphNodes sessionKey db) turn = true := by
      unfold mustCreateTask
      rw [existingTask_of_no_task hnil]
      rfl
    rw [hm, if_pos rfl, length_singleton] at hlen
    rw [hroot]
    cases hg : turnGoal turn with
    | none => exact ⟨none, assertGoalBoundary_none hside fun r hr => by cases hr⟩
    | some g =>
      obtain ⟨task, htask, hopen⟩ := hgoalTask g hg hm
      refine assertGoalBoundary_some hside htask (by omega) ?_ fun _ => hopen
      simp only [bind_none, reduceCtorEq, false_iff]
      intro hnil
      rw [hnil] at hlen
      cases hlen
  · rw [graphNodes_eq] at hroot
    obtain ⟨n, hn, hrow, htemp, hk, hadded⟩ := hnew hm
    rw [hroot]
    cases hg : turnGoal turn with
    | none =>
      refine ⟨none, assertGoalBoundary_none hside ?_⟩
      rintro r hr id hid - hopen
      cases hr
      rw [hadded] at hid
      cases hid
      have htransition : existingTaskTransition e = (.frozen, .supersedes) := by
        unfold existingTaskTransition
        rw [if_neg]
        rintro (hs | hs) <;> rw [hs] at hopen <;> cases hopen
      obtain ⟨edge, hedge, hs, ht, htype⟩ := edge_to_new h he hm hran htemp
      obtain ⟨m, hmem, rfl⟩ := exists_row_of_root hroot
      obtain ⟨m', hm', hold⟩ := hran.exists_old hmem
      have hm'mem : m' ∈ run.db.nodes := by rw [hran.nodes]; exact mem_append_left _ hm'
      constructor
      · rw [show (parseNodeRow m).id = (parseNodeRow m').id from hold.id.symm,
          byId_readNodes hran.loop.built (parse_mem_readNodes hran.loop.built hm'mem), map_some,
          parseNodeRow_status, hold.status, statusAfter_of_new he hm, htransition, if_pos]
        exact ⟨fun hs => (existingTask_eq_some he).2.2 hs.symm, rfl⟩
      · refine ⟨edge, mem_readEdges.mpr hedge, hs, ?_, by rw [htype, htransition]⟩
        have hnmem : n ∈ run.db.nodes := by rw [hran.nodes]; exact mem_append_right _ hn
        rw [show n.id = (parseNodeRow n).id from rfl,
          byId_readNodes hran.loop.built (parse_mem_readNodes hran.loop.built hnmem), map_some, ht]
        rfl
    | some g =>
      obtain ⟨task, htask, hopen⟩ := hgoalTask g hg hm
      refine assertGoalBoundary_some hside htask (by rw [hadded]; simp) ?_ fun _ => hopen
      rw [hadded, bind_some]
      refine ⟨fun hsame => absurd hsame (hfree g hg e (selectRootTask_cases hroot).1), nofun⟩
  · rw [hm, if_neg (by simp), length_nil, length_eq_zero_iff] at hlen
    rw [hlen]
    cases hg : turnGoal turn with
    | none => exact ⟨none, assertGoalBoundary_none hside fun r _ id hid => by cases hid⟩
    | some g =>
      obtain ⟨hroot, hstatus⟩ := hgo g hg
      rw [graphNodes_eq] at hroot
      have hgoal := goal_of_existing he hm hg
      obtain ⟨m, hmem, rfl⟩ := exists_row_of_root hroot
      obtain ⟨m', hm', hold⟩ := hran.exists_old hmem
      have hm'mem : m' ∈ run.db.nodes := by rw [hran.nodes]; exact mem_append_left _ hm'
      have htask := find_goal hran.loop.built hm'mem (hold.goalId.trans hgoal)
      refine assertGoalBoundary_some hside htask (by simp) ?_ ?_
      · rw [hroot, bind_some, hgoal]
        simp
      · intro hnc
        have hnone : updatesOf (fallbackPatch (graphNodes sessionKey db) turn) m.id = [] := by
          refine eq_nil_iff_forall_not_mem.mpr fun u hu => ?_
          obtain ⟨-, -, ⟨-, hc⟩ | ⟨s, hs, hid⟩⟩ := mem_updatesOf_existing he hm hu
          · rw [hg] at hc
            exact hnc (by simpa using hc)
          · obtain ⟨hsmem, hsk, -⟩ := activeSubtask_eq_some hs
            have := eq_of_id_readNodes h.built hsmem (selectRootTask_cases hroot).1 hid
            rw [this, (selectRootTask_cases hroot).2.1] at hsk
            cases hsk
        rw [parseNodeRow_status, hold.status]
        unfold statusAfter
        rw [hnone]
        exact hstatus.resolve_left hnc

end Success

/-! ### The two directions -/

section Directions
variable {sessionKey : String} {env : Env} {db db' : Db} {turn : DagTurn} {run : PatchRun} {turnRow : DagTurn}

theorem goal_of_assert
    {g : DagGoalContext}
    (h : assertGoalBoundary nodes edges turnId (some g) root added = .ok goalTask) :
    ∃ task, nodes.find? (fun n => n.goalId = some g.goalId) = some task ∧
      (added = [] → root.bind (·.goalId) = some g.goalId) ∧
      (g.status = .completed ∨ task.status.isOpen = true) := by
  unfold assertGoalBoundary at h
  dsimp only [bind_some] at h
  split at h
  · cases h
  split at h
  · cases h
  next task htask =>
  simp only [bind_eq_ok, throwIf_eq_ok] at h
  obtain ⟨-, -, -, -, -, hnew, h⟩ := h
  refine ⟨task, htask, fun hnil => ?_, ?_⟩
  · by_contra hne
    exact hnew ⟨hne, hnil⟩
  · by_cases hc : g.status = .completed
    · exact Or.inl hc
    · rw [if_neg hc, bind_eq_ok] at h
      obtain ⟨u, hopen, -⟩ := h
      rw [throwIf_eq_ok, Bool.not_eq_false] at hopen
      exact Or.inr hopen

theorem graphNodes_congr (sessionKey : String) (hn : db₁.nodes = db.nodes) :
    graphNodes sessionKey db₁ = graphNodes sessionKey db := by
  rw [graphNodes_eq, graphNodes_eq, readNodes_congr sessionKey hn]

/-- **When it fits, it goes through.** -/
theorem fallback_of_fits (h : WellFormed sessionKey db) (hq : Enqueued db) (hturn : turn ∈ db.turns)
    (hstatus : turn.dagStatus ≠ .done) (hfresh : Fresh env db)
    (hfits : FallbackFits (graphNodes sessionKey db) turn) :
    ∃ db' run, applyDeterministicFallback sessionKey env db turn = .ok (db', run) := by
  obtain ⟨db₁, turnRow, hup⟩ := upsertTurn_of_range db (hq.ranges turn hturn) env.upsertNow
  obtain ⟨hn, he⟩ := upsertTurn_graph hup
  have h₁ : WellFormed sessionKey db₁ := h.congr hn he
  have hnodes := graphNodes_congr sessionKey hn
  have hread := readNodes_congr sessionKey hn
  have hqueued : ∀ e ∈ db₁.edges, e.createdTurnId ≠ some turn.turnId := by
    rw [he]
    intro e he' hcreated
    obtain ⟨t, ht, htid, hdone⟩ := hq.edges e he'
    rw [htid, some.injEq] at hcreated
    rw [hq.eq_of_id ht hturn hcreated] at hdone
    exact hstatus hdone
  have hcheck := checkGoalPatch_fallback h hfits
  rw [← hnodes] at hfits
  obtain ⟨run, hrun⟩ := foldlM_fallback turnRow .deterministicFallback h₁
    ⟨hfresh.distinct, by rw [hn]; exact hfresh.nodes, by rw [he]; exact hfresh.edges⟩ hfits
  obtain ⟨hok, -⟩ := patchOk_fallbackPatch_graph h₁ turn
  obtain ⟨olds, news, hran⟩ := ran_of_foldlM hok (fun _ hid => exists_of_mem_graph hid) h₁ hrun
  obtain ⟨goalTask, hboundary⟩ := assertGoalBoundary_fallback h₁ hqueued hfits hran
  have htransition := assertTransition_fallback h₁ hfits hran
  rw [hread] at hboundary htransition
  rw [hnodes] at hrun
  exact ⟨_, run, applyPatch_of_parts hup hcheck hrun (assertChildren_fallback h₁ hran) htransition
    hboundary⟩

theorem root_of_transition {root : DagNode}
    (h : WellFormed sessionKey db) (hm : mustCreateTask (graphNodes sessionKey db) turn = true)
    (hran : Ran sessionKey env turnRow (turnGoal turn) db
      (fallbackPatch (graphNodes sessionKey db) turn) run olds news)
    (hroot : selectRootTask (readNodes sessionKey db) = some root)
    (hassert : assertTaskTransitionIntegrity (readNodes sessionKey run.db) (readEdges run.db)
      (some root.id) run.addedTaskNodeIds = .ok ()) :
    existingTask (graphNodes sessionKey db) = some root := by
  obtain ⟨hok, -⟩ := patchOk_fallbackPatch_graph h turn
  obtain ⟨n, hn, -, htemp, -, hadded⟩ := exists_addedTask hran (by rw [addedTasks_fallbackPatch, if_pos hm])
  rw [hadded] at hassert
  obtain ⟨-, t, -, hincoming, hsource, -⟩ := transition_of_assert hassert
  obtain ⟨ht, htarget⟩ := mem_filter.mp (hincoming ▸ mem_cons_self :
    t ∈ (readEdges run.db).filter fun e => e.targetId = n.id)
  rw [decide_eq_true_eq] at htarget
  obtain ⟨es, hes, hall⟩ := hran.edges
  rw [mem_readEdges, hes] at ht
  rcases mem_append.mp ht with ht | ht
  · obtain ⟨-, -, m, hshape, hmid⟩ := h.built.joins t ht
    obtain ⟨m, hm', rfl⟩ := mem_shapes.mp hshape
    exact absurd (htarget.symm.trans hmid.symm) (hran.new_ne_old hn hm')
  · obtain ⟨-, -, op, hop, -, hs, htn⟩ := hall t ht
    rw [htarget] at htn
    have hname := hran.eq_of_names htn htemp
    rcases mem_fallbackPatch_addEdge hop with ⟨e, he, rfl⟩ | ⟨hstep, -⟩
    · obtain ⟨m, hm', hmid, -⟩ := exists_row (existingTask_eq_some he).1
      rw [show (taskEdge e).sourceId = m.id from hmid.symm, hsource] at hs
      have hid : root.id = e.id := (names_old h.built hran hok hm' hs).trans hmid
      rw [he, eq_of_id_readNodes h.built (existingTask_eq_some he).1 (selectRootTask_cases hroot).1
        hid.symm]
    · rw [hstep] at hname
      exact absurd hname.symm (by decide +kernel : ("fallback_task" : String) ≠ "fallback_subtask")

/-- **What goes through, fits.** -/
theorem fits_of_applied (h : WellFormed sessionKey db) {mode : DagBuildMode}
   
    (ha : Applied sessionKey env db
      { turn := turnToInput turn, patch := fallbackPatch (graphNodes sessionKey db) turn
        buildMode := mode, writeSource := writeSource } db₁ turnRow run olds news goalTask) :
    FallbackFits (graphNodes sessionKey db) turn := by
  obtain ⟨hn, he⟩ := upsertTurn_graph ha.upsert
  have h₁ : WellFormed sessionKey db₁ := h.congr hn he
  have hnodes := graphNodes_congr sessionKey hn
  have hread := readNodes_congr sessionKey hn
  have hran : Ran sessionKey env turnRow (turnGoal turn) db₁
      (fallbackPatch (graphNodes sessionKey db) turn) run olds news := ha.ran
  have htransition := ha.transition
  have hboundary : assertGoalBoundary (readNodes sessionKey run.db) (readEdges run.db) turn.turnId
    (turnGoal turn) (selectRootTask (readNodes sessionKey db)) run.addedTaskNodeIds = .ok goalTask :=
    ha.boundary
  rw [← hread] at htransition hboundary
  rw [← hnodes] at hran ⊢
  rw [fallbackFits_iff]
  cases hroot : selectRootTask (readNodes sessionKey db₁) with
  | none => exact Or.inl (selectRootTask_eq_none.mp hroot)
  | some root =>
    rw [hroot] at htransition hboundary
    refine Or.inr ?_
    cases hm : mustCreateTask (graphNodes sessionKey db₁) turn with
    | true =>
      have hexisting := root_of_transition h₁ hm hran hroot htransition
      refine ⟨root, hexisting, Or.inl ⟨rfl, hroot, ?_⟩⟩
      intro g hg n hn' hgoal
      obtain ⟨row, hrow, -, rfl⟩ := mem_readNodes.mp hn'
      obtain ⟨new, hnew, hnewRow, -⟩ := exists_addedTask hran (by rw [addedTasks_fallbackPatch, if_pos hm])
      obtain ⟨row', hrow', hold⟩ := hran.exists_old hrow
      have hgoal' : row'.goalId = some g.goalId := hold.goalId.trans hgoal
      have hnewGoal : new.goalId = some g.goalId := by rw [hnewRow.goalId, hg]; rfl
      have heq := eq_of_goal hran.loop.built
        (by rw [hran.nodes]; exact mem_append_right _ hnew)
        (by rw [hran.nodes]; exact mem_append_left _ hrow') hnewGoal hgoal'
      exact hran.new_ne_old hnew hrow (by rw [heq]; exact hold.id)
    | false =>
      cases hexisting : existingTask (graphNodes sessionKey db₁) with
      | none => unfold mustCreateTask at hm; rw [hexisting] at hm; cases hm
      | some e =>
        refine ⟨e, rfl, Or.inr ⟨rfl, fun g hg => ?_⟩⟩
        have hgoal := goal_of_existing hexisting hm hg
        have hadded : run.addedTaskNodeIds = [] := by
          rw [← length_eq_zero_iff, length_addedTaskNodeIds hran, addedTasks_fallbackPatch, hm]
          rfl
        rw [hg, hadded] at hboundary
        obtain ⟨task, htask, hrootGoal, hopen⟩ := goal_of_assert hboundary
        have hrootGoal := hrootGoal rfl
        obtain ⟨m, hmem, rfl⟩ := exists_row_of_root hroot
        obtain ⟨row, hrow, -, rfl⟩ := mem_readNodes.mp (existingTask_eq_some hexisting).1
        have hre : m = row := eq_of_goal h₁.built hmem hrow hrootGoal hgoal
        subst hre
        refine ⟨hroot, ?_⟩
        obtain ⟨m', hm', hold⟩ := hran.exists_old hmem
        rw [find_goal hran.loop.built (by rw [hran.nodes]; exact mem_append_left _ hm')
          (hold.goalId.trans hgoal)] at htask
        cases htask
        rw [parseNodeRow_status, hold.status, statusAfter_of_existing hexisting hm] at hopen
        split_ifs at hopen
        · exact hopen
        · exact Or.inl (hopen.resolve_right (by decide))

/-- **Exactly when the fallback goes through**, in every state of every history and for every queued turn: the
turn is done then. -/
theorem fallback_iff (sessionKey : String) (history : List BuildStep) {db : Db}
    (hdb : db ∈ visited (buildStep sessionKey) {} history) {turn : DagTurn} (hturn : turn ∈ db.turns)
    (hqueued : turn.dagStatus ≠ .done) (env : Env) (hfresh : Fresh env db) :
    (∃ db' run, applyDeterministicFallback sessionKey env db turn = .ok (db', run) ∧
      ∃ t ∈ db'.turns, t.turnId = turn.turnId ∧ t.dagStatus = .done) ↔
    FallbackFits (readGraphForHistoryDag sessionKey db).nodes turn := by
  obtain ⟨h, hq⟩ := wellFormed_of_history sessionKey history db hdb
  obtain ⟨hok, -⟩ := patchOk_fallbackPatch_graph h turn
  constructor
  · rintro ⟨db', run, hop, -⟩
    obtain ⟨db₁, turnRow, olds, news, goalTask, ha, -⟩ :=
      applied_of_applyPatch h hok (fun _ hid => exists_of_mem_graph hid) hop
    exact fits_of_applied h ha
  · intro hfits
    obtain ⟨db', run, hop⟩ := fallback_of_fits h hq hturn hqueued hfresh hfits
    obtain ⟨db₁, turnRow, olds, news, goalTask, ha, hdb'⟩ :=
      applied_of_applyPatch h hok (fun _ hid => exists_of_mem_graph hid) hop
    exact ⟨db', run, hop, by rw [hdb']; exact (hq.applied ha).2⟩

end Directions

/-! ### A session that is stuck -/

section Stuck

/-- A row of the queue of the sample. -/
def queuedTurn (n : ℕ) (goal : Option DagGoalContext) : DagTurn :=
  newTurn (sampleTurn n goal) (2 * n) (2 * n + 2) n

/-- A raw patch that closes the first task for a new one. -/
def nextPatch : Json :=
  .obj [("ops", .arr [
    .obj [("op", .str "update_node"), ("node_id", .str (nodeIdOf (sampleEnv 1) 0)),
      ("status", .str "done")],
    .obj [("op", .str "add_node"), ("temp_id", .str "n0"), ("kind", .str "task"),
      ("status", .str "active"), ("title", .str "T"), ("summary", .str "S"),
      ("importance", .num (.finite 80))]])]

/-- A task, then one for a goal: the two are written at the same time. -/
def stuckHistory : List BuildStep :=
  [.enqueue (sampleTurn 1 none) 1, .build samplePatch 40 (queuedTurn 1 none) (sampleEnv 1),
    .enqueue (sampleTurn 2 (some sampleGoal)) 2,
    .build nextPatch 40 (queuedTurn 2 (some sampleGoal)) (sampleEnv 2),
    .enqueue (sampleTurn 3 (some sampleGoal)) 3]

def stuckDb : Db := final (buildStep "s") {} stuckHistory

/-- How the fallback ends. -/
def fallbackError (env : Env) (db : Db) (turn : DagTurn) : Option StoreError :=
  match applyDeterministicFallback "s" env db turn with
  | .error e => some e
  | .ok _ => none

theorem error_of_fallbackError {e : StoreError}
    (h : fallbackError env db turn = some e) : applyDeterministicFallback "s" env db turn = .error e := by
  unfold fallbackError at h
  split at h
  · next e' he => rw [he, some.inj h]
  · cases h

/-- **The next turn of the goal cannot be folded in**: the closed task and the task of the goal were written
at the same time, the fallback takes the closed one, and makes a second task for the goal. -/
theorem fallback_throws : ∃ db ∈ visited (buildStep "s") {} stuckHistory, ∃ turn ∈ db.turns,
    turn.dagStatus ≠ .done ∧
    applyDeterministicFallback "s" (sampleEnv 3) db turn = .error (.goalBoundary .secondTask) :=
  ⟨stuckDb, final_mem_visited (buildStep "s") stuckHistory _, queuedTurn 3 (some sampleGoal),
    by decide +kernel, by decide,
    error_of_fallbackError (by decide +kernel)⟩

theorem sampleEnv_distinct (n : ℕ) (i j : ℕ) (h : (sampleEnv n).sortableId i = (sampleEnv n).sortableId j) :
    i = j := by
  have := congrArg (fun s : String => s.toList.length) h
  simpa [sampleEnv] using this

theorem fresh_first : Fresh (sampleEnv 1) (final (buildStep "s") {} [.enqueue (sampleTurn 1 none) 1]) := by
  obtain ⟨hn, he⟩ := enqueue_graph "s" {} (sampleTurn 1 none) 1
  refine ⟨sampleEnv_distinct 1, fun k n hmem => ?_, fun k e hmem => ?_⟩
  · rw [final_cons, final_nil, hn] at hmem
    cases hmem
  · rw [final_cons, final_nil, he] at hmem
    cases hmem

/-- The first turn of a session. -/
theorem fallback_iff_first :
    (∃ db' run, applyDeterministicFallback "s" (sampleEnv 1)
        (final (buildStep "s") {} [.enqueue (sampleTurn 1 none) 1]) (queuedTurn 1 none) = .ok (db', run) ∧
      ∃ t ∈ db'.turns, t.turnId = (queuedTurn 1 none).turnId ∧ t.dagStatus = .done) ↔
    FallbackFits (readGraphForHistoryDag "s"
      (final (buildStep "s") {} [.enqueue (sampleTurn 1 none) 1])).nodes (queuedTurn 1 none) :=
  fallback_iff "s" [.enqueue (sampleTurn 1 none) 1] (final_mem_visited (buildStep "s") _ _)
    (by decide +kernel) (by decide) (sampleEnv 1) fresh_first

end Stuck

end Memmy.SessionDag.LastResort
