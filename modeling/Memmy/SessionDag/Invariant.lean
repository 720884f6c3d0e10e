import Memmy.Lib.Run
import Memmy.SessionDag.Shape

/-! # The graph is well formed in every run

The invariant has two halves. `Built` holds between any two operations of a patch: ids and goals are
unique, edges join two nodes, and no cycle is closed. The other half holds of a patch as a whole: it is
what the checks at its end look for (`WellFormed`), and the repair keeps it.

* `Loop.applyOp`, `wellFormed_applyPatch`: what one operation, and one patch, keeps.
* `wellFormed_repairTaskTransitionsOnce`: what the repair keeps.
* `graphOk_of_run`: the graph is well formed in every state of every run of the store. -/

namespace Memmy.SessionDag.Invariant

open Relation Lib.Reach Lib.Result Lib.Run Lib.Sort SessionDag.Types SessionDag.PatchSchema List
open Except
open Option
  SessionDag.Selection SessionDag.Store SessionDag.Shape

/-! ### What holds between two operations of a patch -/

/-- What tells two edges apart. -/
def ends (e : DagEdge) : String × String × DagEdgeType := (e.sourceId, e.targetId, e.type)

/-- **What every single operation keeps.** -/
structure Built (sessionKey : String) (ns : List NodeShape) (es : List DagEdge) : Prop where
  keys : ∀ n ∈ ns, n.sessionKey = sessionKey
  ids : (ns.map (·.id)).Nodup
  named : ∀ n ∈ ns, ∃ s, n.id = "n_" ++ s
  goals : ns.Pairwise fun n n' => n.goalId.isSome = true → n.goalId ≠ n'.goalId
  goalTasks : ∀ n ∈ ns, n.goalId.isSome = true → n.kind = .task
  joins : ∀ e ∈ es, e.sourceId ≠ e.targetId ∧ (∃ n ∈ ns, n.id = e.sourceId) ∧ ∃ n ∈ ns, n.id = e.targetId
  distinct : (es.map ends).Nodup
  acyclic : Acyclic (Linked es)

section Built
variable {sessionKey : String} {ns : List NodeShape} {es : List DagEdge}

theorem Built.addNode (h : Built sessionKey ns es) {n : NodeShape} (hkey : n.sessionKey = sessionKey)
    (hname : ∃ s, n.id = "n_" ++ s) (hid : ∀ m ∈ ns, m.id ≠ n.id)
    (hgoal : ∀ m ∈ ns, m.goalId.isSome = true → m.goalId ≠ n.goalId)
    (htask : n.goalId.isSome = true → n.kind = .task) : Built sessionKey (ns ++ [n]) es where
  keys := by
    simpa [or_imp, forall_and, hkey] using h.keys
  named := by
    simpa [or_imp, forall_and] using ⟨h.named, hname⟩
  ids := by
    rw [map_append, map_singleton, nodup_append]
    exact ⟨h.ids, nodup_singleton _, by simpa using hid⟩
  goals := pairwise_append.mpr ⟨h.goals, pairwise_singleton _ _, by simpa using hgoal⟩
  goalTasks := by
    intro m hm
    rcases mem_append.mp hm with hm | hm
    · exact h.goalTasks m hm
    · rw [mem_singleton.mp hm]; exact htask
  joins := by
    intro e he
    obtain ⟨hne, ⟨s, hs, hsid⟩, ⟨t, ht, htid⟩⟩ := h.joins e he
    exact ⟨hne, ⟨s, mem_append_left _ hs, hsid⟩, ⟨t, mem_append_left _ ht, htid⟩⟩
  distinct := h.distinct
  acyclic := h.acyclic

theorem Built.addEdge (h : Built sessionKey ns es) {e : DagEdge} (hne : e.sourceId ≠ e.targetId)
    (hs : ∃ n ∈ ns, n.id = e.sourceId) (ht : ∃ n ∈ ns, n.id = e.targetId)
    (hnew : ∀ e' ∈ es, ends e' ≠ ends e)
    (hcycle : ¬ TransGen (Linked es) e.targetId e.sourceId) : Built sessionKey ns (es ++ [e]) where
  keys := h.keys
  ids := h.ids
  named := h.named
  goals := h.goals
  goalTasks := h.goalTasks
  joins := by
    intro e' he'
    rcases mem_append.mp he' with he' | he'
    · exact h.joins e' he'
    · rw [mem_singleton.mp he']; exact ⟨hne, hs, ht⟩
  distinct := by
    rw [map_append, map_singleton, nodup_append]
    refine ⟨h.distinct, nodup_singleton _, ?_⟩
    rintro _ hmem _ hb
    obtain ⟨e', he', rfl⟩ := mem_map.mp hmem
    rw [mem_singleton.mp hb]
    exact hnew e' he'
  acyclic := (h.acyclic.insert hne hcycle).mono fun _ _ => linked_append.mp

end Built

theorem mem_shapes {db : Db} {m : NodeShape} : m ∈ shapes db ↔ ∃ n ∈ db.nodes, shape n = m := mem_map

theorem exists_shape {db : Db} {id : String} (h : ∃ n ∈ db.nodes, n.id = id) : ∃ m ∈ shapes db, m.id = id := by
  obtain ⟨n, hn, hid⟩ := h
  exact ⟨shape n, mem_shapes.mpr ⟨n, hn, rfl⟩, hid⟩

/-! ### The loop of a patch -/

section Loop
variable {sessionKey : String} {env : Env} {turn : DagTurn} {goal : Option DagGoalContext}
  {writeSource : DagWriteSource} {db₀ : Db} {run run' : PatchRun}

/-- **The invariant of the loop**: the graph only grows, and a new node is a task or is noted for the
check that it is reachable. -/
structure Loop (sessionKey : String) (db₀ : Db) (run : PatchRun) : Prop where
  built : Built sessionKey (shapes run.db) run.db.edges
  oldNodes : ∀ n ∈ shapes db₀, n ∈ shapes run.db
  newNodes : ∀ n ∈ shapes run.db, n ∈ shapes db₀ ∨ n.kind = .task ∨ n.id ∈ run.addedChildNodeIds
  oldEdges : ∀ e ∈ db₀.edges, e ∈ run.db.edges

section
variable (h : Loop sessionKey db₀ run)
include h

theorem Loop.addNode {op : AddNodePatchOp}
    (hop : applyOp sessionKey env turn goal writeSource run (.addNode op) = .ok run') :
    Loop sessionKey db₀ run' := by
  obtain ⟨db, hdb, rfl⟩ := applyOp_addNode_ok hop
  obtain ⟨importance, -, -, -, hgoal, hid, rfl⟩ := insertNode_ok.mp hdb
  have hshapes : ∀ nodes : List DagNode, ∀ n, (nodes ++ [n]).map shape = nodes.map shape ++ [shape n] :=
    fun nodes n => by rw [map_append, map_singleton]
  refine ⟨?_, ?_, ?_, h.oldEdges⟩
  · show Built sessionKey (List.map shape (_ ++ _)) _
    rw [hshapes, shape_newNode]
    refine h.built.addNode rfl ⟨_, rfl⟩ ?_ ?_ ?_
    · rintro m hm
      obtain ⟨n, hn, rfl⟩ := mem_shapes.mp hm
      exact hid n hn
    · rintro m hm
      obtain ⟨n, hn, rfl⟩ := mem_shapes.mp hm
      exact hgoal n hn
    · intro hg
      by_contra hk
      simp only [newGoalId, if_neg hk] at hg
      cases hg
  · intro n hn
    show n ∈ List.map shape (_ ++ _)
    rw [hshapes]
    exact mem_append_left _ (h.oldNodes n hn)
  · intro n hn
    change n ∈ List.map shape (_ ++ _) at hn
    rw [hshapes, shape_newNode] at hn
    by_cases hk : op.kind = .task
    · rcases mem_append.mp hn with hn | hn
      · simpa only [if_pos hk] using h.newNodes n hn
      · rw [mem_singleton.mp hn]
        exact Or.inr (Or.inl hk)
    · simp only [if_neg hk]
      rcases mem_append.mp hn with hn | hn
      · rcases h.newNodes n hn with h1 | h1 | h1
        · exact Or.inl h1
        · exact Or.inr (Or.inl h1)
        · exact Or.inr (Or.inr (mem_append_left _ h1))
      · rw [mem_singleton.mp hn]
        exact Or.inr (Or.inr (mem_append_right _ mem_cons_self))

theorem Loop.updateNode {op : UpdateNodePatchOp}
    (hop : applyOp sessionKey env turn goal writeSource run (.updateNode op) = .ok run') :
    Loop sessionKey db₀ run' := by
  obtain ⟨db, hdb, rfl⟩ := applyOp_updateNode_ok hop
  obtain ⟨row, -, -, -, importance, rfl⟩ := updateNode_ok hdb
  have hshapes := shapes_setNode run.db op.nodeId
    (shape_updatedRow op turn writeSource env.now (parseNodeRow row) importance)
  exact ⟨by rw [hshapes]; exact h.built, by rw [hshapes]; exact h.oldNodes,
    by rw [hshapes]; exact h.newNodes, h.oldEdges⟩

theorem Loop.addEdge {op : AddEdgePatchOp}
    (hop : applyOp sessionKey env turn goal writeSource run (.addEdge op) = .ok run') :
    Loop sessionKey db₀ run' := by
  obtain ⟨s, t, -, -, ⟨rfl, -⟩ | ⟨hins, rfl⟩⟩ := applyOp_addEdge_ok hop
  · exact h
  · refine ⟨h.built.addEdge hins.ne (exists_shape hins.source) (exists_shape hins.target) ?_ hins.acyclic,
      h.oldNodes, h.newNodes, fun e he => mem_append_left _ (h.oldEdges e he)⟩
    intro e he heq
    simp only [ends, patchEdge, Prod.mk.injEq] at heq
    exact hins.new e he heq

/-- **One operation of a patch keeps the invariant of the loop.** -/
theorem Loop.applyOp : ∀ {op : DagPatchOp},
    Store.applyOp sessionKey env turn goal writeSource run op = .ok run' → Loop sessionKey db₀ run'
  | .addNode _, hop => h.addNode hop
  | .updateNode _, hop => h.updateNode hop
  | .addEdge _, hop => h.addEdge hop

theorem Loop.foldlM {patch : DagPatch}
    (hrun : patch.foldlM (Store.applyOp sessionKey env turn goal writeSource) run = .ok run') :
    Loop sessionKey db₀ run' :=
  foldlM_invariant (fun _ hb _ _ _ hop => hb.applyOp hop) h hrun

end

end Loop

/-! ### What holds between two patches -/

/-- Every step is reached from a task. -/
def Rooted (ns : List NodeShape) (es : List DagEdge) : Prop :=
  ∀ n ∈ ns, n.kind ≠ .task → ∃ t ∈ ns, t.kind = .task ∧ ReflTransGen (Linked es) t.id n.id

/-- A side branch leads from a task of a goal to a step. -/
def SideBranchesOk (ns : List NodeShape) (es : List DagEdge) : Prop :=
  ∀ e ∈ es, e.type = .sideBranch →
    (∃ s ∈ ns, s.id = e.sourceId ∧ s.kind = .task ∧ ∃ g, s.goalId = some g ∧ g ≠ "") ∧
      ∃ t ∈ ns, t.id = e.targetId ∧ t.kind ≠ .task

/-- **The invariant of the tables.** -/
structure WellFormed (sessionKey : String) (db : Db) : Prop where
  built : Built sessionKey (shapes db) db.edges
  rooted : Rooted (shapes db) db.edges
  sideBranches : SideBranchesOk (shapes db) db.edges
  oneOpen : (openTasks db.nodes).length ≤ 1

section WellFormed
variable {sessionKey : String} {db db' : Db} {f : DagNode → DagNode} {ns : List NodeShape}

theorem wellFormed_empty : WellFormed sessionKey {} := by
  refine ⟨⟨by simp [shapes], by simp [shapes], by simp [shapes], by simp [shapes],
    by simp [shapes], by simp, by simp, ?_⟩, by simp [Rooted, shapes], by simp [SideBranchesOk], by simp [openTasks, tasksOf]⟩
  intro x hx
  obtain ⟨y, hy, -⟩ := TransGen.head'_iff.mp hx
  obtain ⟨e, he, -⟩ := linked_iff.mp hy
  cases he

theorem WellFormed.congr (h : WellFormed sessionKey db) (hn : db'.nodes = db.nodes)
    (he : db'.edges = db.edges) : WellFormed sessionKey db' := by
  have hs : shapes db' = shapes db := by unfold shapes; rw [hn]
  exact ⟨by rw [hs, he]; exact h.built, by rw [hs, he]; exact h.rooted,
    by rw [hs, he]; exact h.sideBranches, by rw [hn]; exact h.oneOpen⟩

theorem Rooted.mono {es es' : List DagEdge} (h : Rooted ns es) (he : ∀ e ∈ es, e ∈ es') : Rooted ns es' := by
  intro n hn hk
  obtain ⟨t, ht, htk, hreach⟩ := h n hn hk
  exact ⟨t, ht, htk, reached_mono he hreach⟩

theorem length_openTasks (nodes : List DagNode) :
    (openTasks nodes).length = nodes.countP fun n => decide (n.kind = .task) && n.status.isOpen := by
  unfold openTasks tasksOf
  rw [List.filter_filter, countP_eq_length_filter]
  congr 1
  refine filter_congr fun n _ => ?_
  rw [Bool.and_comm]

theorem readNodes_perm (h : ∀ n ∈ shapes db, n.sessionKey = sessionKey) :
    (readNodes sessionKey db).Perm (db.nodes.map parseNodeRow) := by
  have hkeys : (db.nodes.filter fun n => n.sessionKey = sessionKey) = db.nodes := by
    refine filter_eq_self.mpr fun n hn => ?_
    rw [decide_eq_true_eq]
    exact h (shape n) (mem_shapes.mpr ⟨n, hn, rfl⟩)
  unfold readNodes
  rw [hkeys]
  exact sortBy_perm _ _

theorem nodup_ids_nodes (h : (ns.map (·.id)).Nodup) {nodes : List DagNode}
    (hns : nodes.map shape = ns) : (nodes.map (·.id)).Nodup := by
  subst hns
  rwa [List.map_map] at h

section
variable (h : Built sessionKey (shapes db) db.edges)
include h

theorem nodup_ids_readNodes : ((readNodes sessionKey db).map (·.id)).Nodup := by
  rw [((readNodes_perm h.keys).map _).nodup_iff, List.map_map]
  exact nodup_ids_nodes h.ids rfl

/-- Two rows with one id are one row. -/
theorem eq_of_id_readNodes {n n' : DagNode}
    (hn : n ∈ readNodes sessionKey db) (hn' : n' ∈ readNodes sessionKey db) (hid : n.id = n'.id) :
    n = n' :=
  inj_on_of_nodup_map (nodup_ids_readNodes h) hn hn' hid

theorem byId_readNodes {n : DagNode}
    (hn : n ∈ readNodes sessionKey db) : byId (readNodes sessionKey db) n.id = some n := by
  cases hf : byId (readNodes sessionKey db) n.id with
  | none => exact absurd rfl (byId_eq_none.mp hf n hn)
  | some n' =>
    obtain ⟨hn', hid⟩ := byId_eq_some hf
    rw [eq_of_id_readNodes h hn' hn hid]

theorem parse_mem_readNodes {n : DagNode} (hn : n ∈ db.nodes) : parseNodeRow n ∈ readNodes sessionKey db :=
  mem_readNodes.mpr ⟨n, hn, h.keys _ (mem_shapes.mpr ⟨n, hn, rfl⟩), rfl⟩

end

theorem length_openTasks_readNodes (h : ∀ n ∈ shapes db, n.sessionKey = sessionKey) :
    (openTasks (readNodes sessionKey db)).length = (openTasks db.nodes).length := by
  rw [length_openTasks, length_openTasks, (readNodes_perm h).countP_eq, countP_map]
  rfl

theorem length_openTasks_setNode_le {id : String} (hf : ∀ n, shape (f n) = shape n)
    (hopen : ∀ n ∈ db.nodes, n.id = id → (f n).status.isOpen = true → n.status.isOpen = true) :
    (openTasks (setNode db id f).nodes).length ≤ (openTasks db.nodes).length := by
  rw [length_openTasks, length_openTasks]
  unfold setNode
  rw [countP_map]
  refine countP_mono_left fun n hn => ?_
  simp only [Function.comp_apply, Bool.and_eq_true, decide_eq_true_eq]
  rintro ⟨hk, ho⟩
  split_ifs at hk ho with hid
  · exact ⟨(congrArg NodeShape.kind (hf n)).symm.trans hk, hopen n hn hid ho⟩
  · exact ⟨hk, ho⟩

/-- A write that closes a node, or leaves its status, keeps the invariant. -/
theorem WellFormed.setNode (h : WellFormed sessionKey db) {id : String} (hf : ∀ n, shape (f n) = shape n)
    (hopen : ∀ n ∈ db.nodes, n.id = id → (f n).status.isOpen = true → n.status.isOpen = true) :
    WellFormed sessionKey (Store.setNode db id f) := by
  have hs := shapes_setNode db id hf
  exact ⟨by rw [hs]; exact h.built, by rw [hs]; exact h.rooted, by rw [hs]; exact h.sideBranches,
    (length_openTasks_setNode_le hf hopen).trans h.oneOpen⟩

end WellFormed

/-! ### A whole patch -/

section Finish
variable {sessionKey : String} {env : Env} {db db₀ db' : Db} {options : ApplyDagPatchOptions}
  {root : Option DagNode} {run : PatchRun} {edges : List DagEdge} {nodes : List DagNode} {ids : List String}

theorem finishPatch_ok (h : finishPatch sessionKey env options root run = .ok db') :
    ∃ goalTask,
      assertAddedChildNodesReachableFromTaskRoot (readNodes sessionKey run.db) (readEdges run.db)
        run.addedChildNodeIds = .ok () ∧
      assertTaskTransitionIntegrity (readNodes sessionKey run.db) (readEdges run.db)
        (root.map (·.id)) run.addedTaskNodeIds = .ok () ∧
      assertGoalBoundary (readNodes sessionKey run.db) (readEdges run.db) options.turn.turnId
        options.turn.goalContext root run.addedTaskNodeIds = .ok goalTask ∧
      db' = markTurnDone (completeGoalTask run.db options.turn.turnId env.goalNow goalTask)
        options.turn.turnId options.buildMode env.doneNow := by
  unfold finishPatch at h
  simp only [bind_eq_ok, mapError_eq_ok, pure_eq, ok.injEq] at h
  obtain ⟨_, h1, _, h2, goalTask, h3, rfl⟩ := h
  exact ⟨goalTask, h1, h2, h3, rfl⟩

/-- **What the check of the new nodes finds.** -/
theorem reachable_of_assert
    (h : assertAddedChildNodesReachableFromTaskRoot nodes edges ids = .ok ()) {id : String} (hid : id ∈ ids) :
    ∃ t ∈ nodes, t.kind = .task ∧ ReflTransGen (Linked edges) t.id id := by
  unfold assertAddedChildNodesReachableFromTaskRoot at h
  split at h
  · cases h
  · next hnone =>
    have hreach := find?_eq_none.mp hnone id hid
    simp only [decide_eq_true_eq, not_not] at hreach
    obtain ⟨x, hx, hpath⟩ := (mem_reach_iff _ _ _ _).mp hreach
    obtain ⟨t, ht, rfl⟩ := mem_map.mp hx
    obtain ⟨ht, hk⟩ := mem_tasksOf.mp ht
    exact ⟨t, ht, hk, reached_mono (fun e he => mem_of_mem_filter he) hpath⟩

/-- **What the check of the tasks finds.** -/
theorem oneOpen_of_assert {rootId : Option String}
    (h : assertTaskTransitionIntegrity nodes edges rootId ids = .ok ()) : (openTasks nodes).length ≤ 1 := by
  unfold assertTaskTransitionIntegrity at h
  simp only [bind_eq_ok, throwIf_eq_ok] at h
  omega

/-- **What the check of the side branches finds.** -/
theorem sideBranch_of_assert {turnId : String}
    {goalTask : Option DagNode}
    (h : assertGoalBoundary nodes edges turnId goal root ids = .ok goalTask) {e : DagEdge}
    (he : e ∈ edges) (ht : e.type = .sideBranch) :
    (∃ s ∈ nodes, s.id = e.sourceId ∧ s.kind = .task ∧ ∃ g, s.goalId = some g ∧ g ≠ "") ∧
      ∃ t ∈ nodes, t.id = e.targetId ∧ t.kind ≠ .task := by
  unfold assertGoalBoundary at h
  dsimp only at h
  split at h
  · cases h
  next hnone =>
  have herr := findSome?_eq_none_iff.mp hnone e (mem_filter.mpr ⟨he, by simpa using ht⟩)
  unfold sideBranchError at herr
  by_cases hbad : ((byId nodes e.sourceId).bind (·.goalId)).filter (· ≠ "") = none ∨
      (byId nodes e.sourceId).map (·.kind) ≠ some .task ∨
      byId nodes e.targetId = none ∨ (byId nodes e.targetId).map (·.kind) = some .task
  · rw [if_pos hbad] at herr; cases herr
  push Not at hbad
  obtain ⟨hgoal, hkind, htarget, hstep⟩ := hbad
  constructor
  · obtain ⟨s, hs, hk⟩ := map_eq_some_iff.mp hkind
    rw [hs] at hgoal
    refine ⟨s, (byId_eq_some hs).1, (byId_eq_some hs).2, hk, ?_⟩
    cases hg : s.goalId with
    | none => simp [hg] at hgoal
    | some g => exact ⟨g, rfl, by simpa [hg] using hgoal⟩
  · obtain ⟨t, ht⟩ := ne_none_iff_exists'.mp htarget
    refine ⟨t, (byId_eq_some ht).1, (byId_eq_some ht).2, fun hk => hstep ?_⟩
    rw [ht, map_some, hk]

theorem exists_shape_of_readNodes {p : NodeShape → Prop}
    (h : ∃ n ∈ readNodes sessionKey db, p (shape n)) : ∃ m ∈ shapes db, p m := by
  obtain ⟨n, hn, hp⟩ := h
  obtain ⟨row, hrow, -, rfl⟩ := mem_readNodes.mp hn
  exact ⟨shape row, mem_shapes.mpr ⟨row, hrow, rfl⟩, by simpa using hp⟩

/-- **The checks at the end of a patch give the second half of the invariant.** -/
theorem wellFormed_of_loop (h₀ : WellFormed sessionKey db₀) (hloop : Loop sessionKey db₀ run)
    (h : finishPatch sessionKey env options root run = .ok db') : WellFormed sessionKey db' := by
  obtain ⟨goalTask, hchildren, htasks, hgoal, rfl⟩ := finishPatch_ok h
  have hrun : WellFormed sessionKey run.db := by
    refine ⟨hloop.built, ?_, ?_, ?_⟩
    · intro n hn hk
      have hold : ∀ t ∈ shapes db₀, t.kind = .task ∧ ReflTransGen (Linked db₀.edges) t.id n.id →
          ∃ t ∈ shapes run.db, t.kind = .task ∧ ReflTransGen (Linked run.db.edges) t.id n.id :=
        fun t ht h => ⟨t, hloop.oldNodes t ht, h.1, reached_mono hloop.oldEdges h.2⟩
      rcases hloop.newNodes n hn with h1 | h1 | h1
      · obtain ⟨t, ht, h⟩ := h₀.rooted n h1 hk
        exact hold t ht h
      · exact absurd h1 hk
      · obtain ⟨t, ht, htk, hreach⟩ := reachable_of_assert hchildren h1
        refine exists_shape_of_readNodes
          (p := fun m => m.kind = .task ∧ ReflTransGen (Linked run.db.edges) m.id n.id)
          ⟨t, ht, htk, reached_mono (fun e he => mem_readEdges.mp he) hreach⟩
    · intro e he ht
      obtain ⟨hs, ht⟩ := sideBranch_of_assert hgoal (mem_readEdges.mpr he) ht
      exact ⟨exists_shape_of_readNodes
          (p := fun m => m.id = e.sourceId ∧ m.kind = .task ∧ ∃ g, m.goalId = some g ∧ g ≠ "") hs,
        exists_shape_of_readNodes (p := fun m => m.id = e.targetId ∧ m.kind ≠ .task) ht⟩
    · rw [← length_openTasks_readNodes hloop.built.keys]
      exact oneOpen_of_assert htasks
  have hdone : WellFormed sessionKey
      (completeGoalTask run.db options.turn.turnId env.goalNow goalTask) := by
    cases goalTask with
    | none => exact hrun
    | some task => exact hrun.setNode (fun _ => rfl) fun _ _ _ ho => by cases ho
  exact hdone.congr rfl rfl

theorem upsertTurn_graph {input : DagTurnInput} {now : ℕ}
    (h : upsertTurn db input now = .ok (db', turn)) : db'.nodes = db.nodes ∧ db'.edges = db.edges := by
  unfold upsertTurn at h
  split at h
  · split_ifs at h
    split at h <;> cases h <;> exact ⟨rfl, rfl⟩
  · cases h

/-- **A patch keeps the graph well formed.** -/
theorem wellFormed_applyPatch (h₀ : WellFormed sessionKey db)
    (h : applyPatch sessionKey env db options = .ok (db', run)) : WellFormed sessionKey db' := by
  unfold applyPatch at h
  simp only [bind_eq_ok, pure_eq, ok.injEq, Prod.mk.injEq] at h
  obtain ⟨⟨db₁, turn⟩, hturn, -, -, run', hrun, db₂, hfinish, rfl, rfl⟩ := h
  obtain ⟨hn, he⟩ := upsertTurn_graph hturn
  have h₁ : WellFormed sessionKey db₁ := h₀.congr hn he
  have hstart : Loop sessionKey db₁ { db := db₁ } := ⟨h₁.built, fun _ h => h, fun _ h => Or.inl h, fun _ h => h⟩
  exact wellFormed_of_loop h₁ (hstart.foldlM hrun) hfinish

end Finish

/-! ### The repair -/

section Repair
variable {sessionKey : String} {env : Env} {db db' : Db}

/-- The row of a task that the repair closes. -/
def repairedRow (sessionKey : String) (status : DagNodeStatus) (nextTask n : DagNode) : DagNode :=
  if n.sessionKey = sessionKey then
    { n with
      status := status
      updatedTurnId := nextTask.createdTurnId
      updatedBy := .repair
      updatedAt := nextTask.createdAt }
  else n

theorem shape_repairedRow (status : DagNodeStatus) (nextTask n : DagNode) :
    shape (repairedRow sessionKey status nextTask n) = shape n := by
  unfold repairedRow; split_ifs <;> rfl

theorem isOpen_of_taskTransitionEdgeType {status : DagNodeStatus} {type : DagEdgeType}
    (h : taskTransitionEdgeType status = some type) :
    status.isOpen = false ∧ type ≠ .sideBranch := by
  cases status <;> cases h <;> exact ⟨rfl, by decide⟩

/-- **What the repair does for one pair of tasks**: nothing; or it closes the first one, and connects the
two unless they are connected. -/
theorem repairPair_ok {drawn drawn' : ℕ} {oldTask nextTask : DagNode}
    (h : repairPair sessionKey env (db, drawn) (oldTask, nextTask) = .ok (db', drawn')) :
    db' = db ∨ ∃ status db₁, status.isOpen = false ∧
      (db₁ = db ∨ db₁ = setNode db oldTask.id (repairedRow sessionKey status nextTask)) ∧
      (db' = db₁ ∨ ∃ e, e.sourceId = oldTask.id ∧ e.targetId = nextTask.id ∧ e.type ≠ .sideBranch ∧
        (∀ e' ∈ db.edges, e'.sourceId = oldTask.id → e'.targetId ≠ nextTask.id) ∧
        ¬ TransGen (Linked db.edges) nextTask.id oldTask.id ∧
        db' = { db₁ with edges := db₁.edges ++ [e] }) := by
  unfold repairPair at h
  dsimp only at h
  set directEdges := (readEdges db).filter fun e =>
    decide (e.sourceId = oldTask.id ∧ e.targetId = nextTask.id) with hdirect
  set status := repairedStatus (readNodes sessionKey db) (readEdges db) oldTask directEdges.head?
    with hstatus
  by_cases hambiguous : 1 < directEdges.length ∨ ∃ e ∈ directEdges, e.type ≠ .continues ∧ e.type ≠ .supersedes
  · rw [if_pos hambiguous] at h
    cases h; exact Or.inl rfl
  rw [if_neg hambiguous] at h
  cases hexpected : taskTransitionEdgeType status with
  | none => rw [hexpected] at h; cases h; exact Or.inl rfl
  | some expectedType =>
    obtain ⟨hclosed, htype⟩ := isOpen_of_taskTransitionEdgeType hexpected
    rw [hexpected] at h
    dsimp only at h
    by_cases hconflict : (directEdges.head?.any fun e => decide (e.type ≠ expectedType)) = true
    · rw [if_pos hconflict] at h; cases h; exact Or.inl rfl
    rw [if_neg hconflict] at h
    by_cases hcycle : directEdges.head?.isNone = true ∧ wouldCreateCycle db oldTask.id nextTask.id = true
    · rw [if_pos hcycle] at h; cases h; exact Or.inl rfl
    rw [if_neg hcycle] at h
    refine Or.inr ⟨status, if status ≠ oldTask.status then
      setNode db oldTask.id (repairedRow sessionKey status nextTask) else db, hclosed, ?_, ?_⟩
    · split_ifs
      · exact Or.inr rfl
      · exact Or.inl rfl
    · cases hexisting : directEdges.head? with
      | some e =>
        rw [hexisting] at h
        cases h; exact Or.inl rfl
      | none =>
        rw [hexisting] at h hcycle
        simp only [isSome_none, Bool.false_eq_true, if_false, bind_eq_ok, throwIf_eq_ok,
          pure_eq, ok.injEq, Prod.mk.injEq] at h
        obtain ⟨-, -, rfl, -⟩ := h
        refine Or.inr ⟨_, rfl, rfl, htype, ?_, ?_, rfl⟩
        · intro e he hs ht
          have hmem : e ∈ directEdges := mem_filter.mpr ⟨mem_readEdges.mpr he, by simpa using ⟨hs, ht⟩⟩
          rw [head?_eq_none_iff.mp hexisting] at hmem
          cases hmem
        · exact fun hpath => hcycle ⟨rfl, wouldCreateCycle_iff.mpr hpath⟩

theorem wellFormed_repairPair {drawn drawn' : ℕ} {oldTask nextTask : DagNode}
    (h₀ : WellFormed sessionKey db) (hold : ∃ m ∈ shapes db, m.id = oldTask.id)
    (hnext : ∃ m ∈ shapes db, m.id = nextTask.id) (hne : oldTask.id ≠ nextTask.id)
    (h : repairPair sessionKey env (db, drawn) (oldTask, nextTask) = .ok (db', drawn')) :
    WellFormed sessionKey db' ∧ shapes db' = shapes db := by
  rcases repairPair_ok h with rfl | ⟨status, db₁, hclosed, hdb₁, hdb'⟩
  · exact ⟨h₀, rfl⟩
  have h₁ : WellFormed sessionKey db₁ ∧ shapes db₁ = shapes db ∧ db₁.edges = db.edges := by
    rcases hdb₁ with rfl | rfl
    · exact ⟨h₀, rfl, rfl⟩
    · refine ⟨h₀.setNode (shape_repairedRow status nextTask) ?_,
        shapes_setNode _ _ (shape_repairedRow status nextTask), rfl⟩
      intro n _ _ ho
      unfold repairedRow at ho
      split_ifs at ho
      · rw [hclosed] at ho; cases ho
      · exact ho
  obtain ⟨h₁, hshapes, hedges⟩ := h₁
  rcases hdb' with rfl | ⟨e, hs, ht, htype, hnew, hcycle, rfl⟩
  · exact ⟨h₁, hshapes⟩
  refine ⟨⟨?_, h₁.rooted.mono fun e he => mem_append_left _ he, ?_, h₁.oneOpen⟩, hshapes⟩
  · refine h₁.built.addEdge (by rwa [hs, ht]) (by rw [hs, hshapes]; exact hold)
      (by rw [ht, hshapes]; exact hnext) ?_ (by rw [hs, ht, hedges]; exact hcycle)
    intro e' he' heq
    rw [hedges] at he'
    simp only [ends, Prod.mk.injEq, hs, ht] at heq
    exact hnew e' he' heq.1 heq.2.1
  · intro e' he' ht'
    rcases mem_append.mp he' with he' | he'
    · exact h₁.sideBranches e' he' ht'
    · rw [mem_singleton.mp he'] at ht'
      exact absurd ht' htype

theorem pairwise_zip_tail {α : Type} {R : α → α → Prop} :
    ∀ {l : List α}, l.Pairwise R → ∀ p ∈ l.zip l.tail, R p.1 p.2
  | [], _, p, hp => by cases hp
  | [_], _, p, hp => by cases hp
  | a :: b :: l, h, p, hp => by
    rw [pairwise_cons] at h
    rcases mem_cons.mp hp with rfl | hp
    · exact h.1 b mem_cons_self
    · exact pairwise_zip_tail h.2 p hp

/-- **The repair keeps the graph well formed.** -/
theorem wellFormed_repairTaskTransitionsOnce (h₀ : WellFormed sessionKey db)
    (h : repairTaskTransitionsOnce sessionKey env db = .ok db') : WellFormed sessionKey db' := by
  unfold repairTaskTransitionsOnce at h
  by_cases hdone : getMeta db repairMetaKey = some "done"
  · rw [if_pos hdone] at h; cases h; exact h₀
  rw [if_neg hdone] at h
  set tasks := sortBy compareRepair (tasksOf (readNodes sessionKey db)) with htasks
  have hmem : ∀ t ∈ tasks, ∃ m ∈ shapes db, m.id = t.id := by
    intro t ht
    obtain ⟨ht, -⟩ := mem_tasksOf.mp ((mem_sortBy _).mp ht)
    exact exists_shape_of_readNodes (p := fun m => m.id = t.id) ⟨t, ht, rfl⟩
  have hids : (tasks.map (·.id)).Nodup := by
    rw [((sortBy_perm compareRepair _).map _).nodup_iff]
    exact (nodup_ids_readNodes h₀.built).sublist (filter_sublist.map _)
  simp only [bind_eq_ok, pure_eq, ok.injEq] at h
  obtain ⟨⟨db₁, drawn⟩, hrun, rfl⟩ := h
  have hI := foldlM_invariant
    (I := fun state : Db × ℕ => WellFormed sessionKey state.1 ∧ shapes state.1 = shapes db)
    (by
      rintro ⟨db₁, drawn₁⟩ ⟨hw, hshapes⟩ ⟨oldTask, nextTask⟩ hpair ⟨db₂, drawn₂⟩ hstep
      have hne := pairwise_zip_tail (pairwise_map.mp hids) _ hpair
      obtain ⟨hold, hnext⟩ := of_mem_zip hpair
      obtain ⟨hw₂, hshapes₂⟩ := wellFormed_repairPair hw (by rw [hshapes]; exact hmem _ hold)
        (by rw [hshapes]; exact hmem _ (mem_of_mem_tail hnext)) hne hstep
      exact ⟨hw₂, hshapes₂.trans hshapes⟩)
    ⟨h₀, rfl⟩ hrun
  exact hI.1.congr rfl rfl

end Repair

/-! ### Runs -/

section Runs
variable {sessionKey : String} {db : Db}

theorem claimNextTurn_graph (db : Db) (now : ℕ) :
    (claimNextTurn db now).1.nodes = db.nodes ∧ (claimNextTurn db now).1.edges = db.edges := by
  unfold claimNextTurn
  dsimp only
  split <;> exact ⟨rfl, rfl⟩

/-- **One operation of the store keeps the graph well formed.** -/
theorem wellFormed_step (h : WellFormed sessionKey db) (op : StoreOp) :
    WellFormed sessionKey (step sessionKey db op) := by
  cases op with
  | upsertTurn input now =>
    change WellFormed sessionKey ((upsertTurn db input now).toOption.elim db (·.1))
    cases hop : upsertTurn db input now with
    | error => exact h
    | ok r => exact h.congr (upsertTurn_graph hop).1 (upsertTurn_graph hop).2
  | claimNextTurn now => exact h.congr (claimNextTurn_graph db now).1 (claimNextTurn_graph db now).2
  | markTurnRetry => exact h.congr rfl rfl
  | markTurnBlocked => exact h.congr rfl rfl
  | markTurnDone => exact h.congr rfl rfl
  | applyPatch options env =>
    change WellFormed sessionKey ((applyPatch sessionKey env db options).toOption.elim db (·.1))
    cases hop : applyPatch sessionKey env db options with
    | error => exact h
    | ok r => exact wellFormed_applyPatch h hop
  | createSnapshot => exact h.congr rfl rfl
  | reopen env =>
    change WellFormed sessionKey ((repairTaskTransitionsOnce sessionKey env db).toOption.getD db)
    cases hop : repairTaskTransitionsOnce sessionKey env db with
    | error => exact h
    | ok r => exact wellFormed_repairTaskTransitionsOnce h hop

theorem wellFormed_of_run (sessionKey : String) (ops : List StoreOp) :
    ∀ db ∈ visited (step sessionKey) {} ops, WellFormed sessionKey db :=
  invariant (I := WellFormed sessionKey) (fun _ op h => wellFormed_step h op) ops _ wellFormed_empty

/-- **A well-formed graph**, on the rows of the tables. -/
structure GraphOk (db : Db) : Prop where
  ids : (db.nodes.map (·.id)).Nodup
  acyclic : Acyclic fun a b => ∃ e ∈ db.edges, e.sourceId = a ∧ e.targetId = b
  joins : ∀ e ∈ db.edges, e.sourceId ≠ e.targetId ∧ (∃ n ∈ db.nodes, n.id = e.sourceId) ∧
    ∃ n ∈ db.nodes, n.id = e.targetId
  distinct : db.edges.Pairwise fun e e' =>
    ¬ (e.sourceId = e'.sourceId ∧ e.targetId = e'.targetId ∧ e.type = e'.type)
  oneOpen : (db.nodes.filter fun n => n.kind = .task ∧ (n.status = .active ∨ n.status = .blocked)).length ≤ 1
  goals : db.nodes.Pairwise fun n n' => n.goalId.isSome = true → n.goalId ≠ n'.goalId
  goalTasks : ∀ n ∈ db.nodes, n.goalId.isSome = true → n.kind = .task
  rooted : ∀ n ∈ db.nodes, n.kind ≠ .task → ∃ t ∈ db.nodes, t.kind = .task ∧
    ReflTransGen (fun a b => ∃ e ∈ db.edges, e.sourceId = a ∧ e.targetId = b) t.id n.id
  sideBranches : ∀ e ∈ db.edges, e.type = .sideBranch →
    (∃ s ∈ db.nodes, s.id = e.sourceId ∧ s.kind = .task ∧ s.goalId.isSome = true) ∧
      ∃ t ∈ db.nodes, t.id = e.targetId ∧ t.kind ≠ .task

theorem exists_node {p : NodeShape → Prop} (h : ∃ m ∈ shapes db, p m) : ∃ n ∈ db.nodes, p (shape n) := by
  obtain ⟨m, hm, hp⟩ := h
  obtain ⟨n, hn, rfl⟩ := mem_shapes.mp hm
  exact ⟨n, hn, hp⟩

theorem WellFormed.graphOk (h : WellFormed sessionKey db) : GraphOk db := by
  have hlinked : (fun a b => ∃ e ∈ db.edges, e.sourceId = a ∧ e.targetId = b) = Linked db.edges :=
    funext₂ fun a b => propext linked_iff.symm
  have hshape : ∀ {n}, n ∈ db.nodes → shape n ∈ shapes db := fun {n} hn =>
    mem_shapes.mpr ⟨n, hn, rfl⟩
  refine ⟨?_, ?_, ?_, ?_, ?_, ?_, ?_, ?_, ?_⟩
  · exact nodup_ids_nodes h.built.ids rfl
  · rw [hlinked]; exact h.built.acyclic
  · intro e he
    obtain ⟨hne, hs, ht⟩ := h.built.joins e he
    exact ⟨hne, exists_node (p := fun m => m.id = e.sourceId) hs,
      exists_node (p := fun m => m.id = e.targetId) ht⟩
  · refine (pairwise_map.mp h.built.distinct).imp fun {e e'} hne hsame => hne ?_
    simpa only [ends, Prod.mk.injEq] using hsame
  · have hopen := h.oneOpen
    unfold openTasks tasksOf at hopen
    rw [List.filter_filter] at hopen
    convert hopen using 3
    ext n
    simp only [DagNodeStatus.isOpen, Bool.decide_and, Bool.decide_or]
    rw [Bool.and_comm]
  · exact pairwise_map.mp h.built.goals
  · exact fun n hn => h.built.goalTasks (shape n) (hshape hn)
  · intro n hn hk
    rw [hlinked]
    exact exists_node (p := fun m => m.kind = .task ∧ ReflTransGen (Linked db.edges) m.id n.id)
      (h.rooted (shape n) (hshape hn) hk)
  · intro e he ht
    obtain ⟨⟨s, hs, hid, hk, g, hg, -⟩, ht⟩ := h.sideBranches e he ht
    exact ⟨exists_node (p := fun m => m.id = e.sourceId ∧ m.kind = .task ∧ m.goalId.isSome = true)
        ⟨s, hs, hid, hk, by rw [hg]; rfl⟩,
      exists_node (p := fun m => m.id = e.targetId ∧ m.kind ≠ .task) ht⟩

/-- **The graph is well formed in every state of every run of the store.** -/
theorem graphOk_of_run (sessionKey : String) (ops : List StoreOp) :
    ∀ db ∈ visited (step sessionKey) {} ops, GraphOk db :=
  fun db hdb => (wellFormed_of_run sessionKey ops db hdb).graphOk

/-- A turn that opens a task with one step below it. -/
def openingRun : List StoreOp :=
  [.applyPatch
    { turn := { turnId := "t", messageStart := .finite 0, messageEnd := .finite 2 }
      patch :=
        [.addNode { tempId := "n0", kind := .task, status := .active, title := "T", summary := "S",
                    importance := .finite 80 },
          .addNode { tempId := "n1", kind := .subtask, status := .active, title := "T",
                     summary := "S", importance := .finite 50 },
          .addEdge { sourceId := "n0", targetId := "n1", type := .decomposes }]
      buildMode := .llmPatch
      writeSource := .llmPatch }
    { upsertNow := 1, now := 1, goalNow := 1, doneNow := 1
      sortableId := fun k => String.ofList (List.replicate k 'x') }]

theorem graphOk_of_run_opening : (final (step "s") {} openingRun).nodes.length = 2 ∧
    GraphOk (final (step "s") {} openingRun) :=
  ⟨by decide +kernel, graphOk_of_run "s" openingRun _ (final_mem_visited _ openingRun _)⟩

end Runs

end Memmy.SessionDag.Invariant
