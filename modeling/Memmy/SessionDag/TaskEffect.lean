import Memmy.SessionDag.LastResort

/-! # What a commit does to the tasks

Of the tasks that were there a committed patch writes the root alone, and of the edges between tasks it adds
the one from the root to a new task, or none. This is where the completion of a model's patch and the choice of
the fallback meet the checks of the store.

* `updatesOf_of_applied`: no other task is updated.
* `taskEdges_of_no_task`, `taskEdges_of_task`: the new edges between tasks.
* `effect_of_commits`: both, on the tables after the commit. -/

namespace Memmy.SessionDag.TaskEffect

open Relation Lib.Result SessionDag.Types SessionDag.PatchSchema
open Option
open List SessionDag.Selection SessionDag.Store SessionDag.Builder SessionDag.Shape
  SessionDag.Invariant SessionDag.Validated SessionDag.Progress SessionDag.Context
  SessionDag.Transition SessionDag.Normalize SessionDag.Completion SessionDag.Written
  SessionDag.History SessionDag.LastResort

/-! ### Tasks and the edges between them -/

/-- The tasks, in the order in which they were created. -/
def tasks (db : Db) : List DagNode := db.nodes.filter fun n => n.kind = .task

def isTaskId (db : Db) (id : String) : Bool := db.nodes.any fun n => n.id = id ∧ n.kind = .task

def taskEdges (db : Db) : List DagEdge :=
  db.edges.filter fun e => isTaskId db e.sourceId ∧ isTaskId db e.targetId

variable {db : Db}

theorem mem_tasks {n : DagNode} : n ∈ tasks db ↔ n ∈ db.nodes ∧ n.kind = .task := by
  simp [tasks]

theorem isTaskId_iff {id : String} : isTaskId db id = true ↔ ∃ n ∈ tasks db, n.id = id := by
  simp only [isTaskId, List.any_eq_true, decide_eq_true_eq, mem_tasks]
  exact ⟨fun ⟨n, hn, hid, hk⟩ => ⟨n, ⟨hn, hk⟩, hid⟩, fun ⟨n, ⟨hn, hk⟩, hid⟩ => ⟨n, hn, hid, hk⟩⟩

theorem mem_taskEdges {e : DagEdge} :
    e ∈ taskEdges db ↔ e ∈ db.edges ∧ isTaskId db e.sourceId = true ∧ isTaskId db e.targetId = true := by
  simp [taskEdges]

/-! ### What the builder writes about tasks -/

section Written
variable {sessionKey : String} {env : Env} {db : Db} {turn turnRow : DagTurn} {patch : DagPatch}
  {root m : DagNode}

section
variable (h : WellFormed sessionKey db)
include h

theorem known_of_row {ids : List String} {ops : DagPatch}
    (hok : PatchOk ids ops) (hm : m ∈ db.nodes) {name : String} (hname : name ∈ tempIds ops ++ ids)
    (hid : m.id = name) : m.id ∈ ids := by
  rcases mem_append.mp hname with hname | hname
  · obtain ⟨a, ha, rfl⟩ := mem_tempIds.mp hname
    obtain ⟨s, hs⟩ := h.built.named (shape m) (mem_shapes.mpr ⟨m, hm, rfl⟩)
    exact absurd (hid.symm.trans hs) ((hok.adds a ha).temp.ne_id s)
  · rwa [hid]

/-- **No edge of the builder leads from a task to a task that was there**, but for one from that task to
itself. -/
theorem source_eq_of_written (hp : WrittenFor sessionKey db turn patch)
    {op : AddEdgePatchOp} (hop : .addEdge op ∈ patch) (hm : m ∈ db.nodes) (hk : m.kind = .task)
    (htarget : m.id = op.targetId)
    (hsource : (∃ s ∈ db.nodes, s.kind = .task ∧ s.id = op.sourceId) ∨
      ∃ a, .addNode a ∈ patch ∧ a.kind = .task ∧ a.tempId = op.sourceId) :
    op.sourceId = op.targetId := by
  cases hp with
  | fallback =>
    exfalso
    obtain ⟨hne1, hne2⟩ := ne_fallback h
      (show parseNodeRow m ∈ graphNodes sessionKey db from parse_mem_readNodes h.built hm)
    rcases mem_fallbackPatch_addEdge hop with ⟨e, -, rfl⟩ | ⟨ht, -⟩
    · exact hne1 htarget
    · exact hne2 (htarget.trans ht)
  | model parsed maxNodes hp =>
    obtain ⟨p, hvalid, hp⟩ := bind_eq_ok.mp hp
    have hok := validateDagPatch_ok hvalid
    cases hroot : selectRootTask (readNodes sessionKey db) with
    | none =>
      rw [nodes_of_no_root h hroot] at hm
      cases hm
    | some root =>
      -- names of tasks that were there stand for the root
      have hold : ∀ {s name}, s ∈ db.nodes → s.kind = .task → s.id = name →
          name ∈ tempIds p ++ (contextNodeKinds (readBuilderContext sessionKey db maxNodes)).map (·.1) →
          name = root.id := fun hs hsk hid hname =>
        hid.symm.trans (id_eq_root_of_context h hroot hs hsk (known_of_row h hok hs hname hid))
      by_cases hadd : addedTasks p = []
      · have hopp : .addEdge op ∈ p := by
          rcases normalizeDagTaskTransition_of_no_task hadd hp with rfl | ⟨r, -, rfl⟩
          · exact hop
          · simpa using hop
        obtain ⟨hks, hkt⟩ := hok.scopes.of_mem hopp
        rcases hsource with ⟨s, hs, hsk, hsid⟩ | ⟨a, ha, hak, -⟩
        · rw [hold hs hsk hsid hks, hold hm hk htarget hkt]
        · have hap : .addNode a ∈ p := by
            rcases normalizeDagTaskTransition_of_no_task hadd hp with rfl | ⟨r, -, rfl⟩
            · exact ha
            · simpa using ha
          have := mem_addedTasks.mpr ⟨hap, hak⟩
          rw [hadd] at this
          cases this
      · obtain ⟨added, hadded, -, -, ⟨hnone, -⟩ | ⟨rootId, hid, htransition⟩⟩ :=
          normalizeDagTaskTransition_ok hadd hp
        · rw [rootTaskId_of_root h hroot maxNodes] at hnone
          cases hnone
        · rw [rootTaskId_of_root h hroot maxNodes] at hid
          obtain ⟨croot, status, type, hres, rfl⟩ := normalizeTransition_eq_ok.mp htransition
          have haddedOp := mem_addedTasks.mp (hadded ▸ mem_cons_self : added ∈ addedTasks p)
          rcases mem_transitionPatch hop with hop | ⟨-, hop, -⟩ | ⟨hopp, e, he, htask⟩ | hop
          · cases hop
          · cases hop
          · exfalso
            cases he
            obtain ⟨hks, hkt⟩ := hok.scopes.of_mem hopp
            have hctx := contextOk_of_root h.built hroot maxNodes
            have hrootKind := nodeKind_root p hctx (kind_of_root hroot)
            have htargetKind : nodeKind p (readBuilderContext sessionKey db maxNodes) op.targetId =
                some .task := by
              rw [hold hm hk htarget hkt, hrootKind]
            have hsourceKind : nodeKind p (readBuilderContext sessionKey db maxNodes) op.sourceId =
                some .task := by
              rcases hsource with ⟨s, hs, hsk, hsid⟩ | ⟨a, ha, hak, haid⟩
              · rw [hold hs hsk hsid hks, hrootKind]
              · have ha' := mem_addedTasks.mpr ⟨ha, hak⟩
                rw [addedTasks_transitionPatch, hadded, mem_singleton] at ha'
                rw [← haid, ha', nodeKind_added hok hadded]
            unfold isTaskEdge at htask
            simp [hsourceKind, htargetKind] at htask
          · exfalso
            cases hop
            obtain ⟨s, hs⟩ := h.built.named (shape m) (mem_shapes.mpr ⟨m, hm, rfl⟩)
            exact (hok.adds added haddedOp.1).temp.ne_id s (htarget.symm.trans hs)

theorem activeSubtask_ne {s : DagNode}
    (hs : activeSubtask (graphNodes sessionKey db) = some s) (hm : m ∈ db.nodes) (hk : m.kind = .task) :
    s.id ≠ m.id := by
  intro hid
  obtain ⟨hmem, hsk, -⟩ := activeSubtask_eq_some hs
  have := eq_of_id_readNodes h.built hmem (parse_mem_readNodes h.built hm) hid
  rw [this, parseNodeRow_kind, hk] at hsk
  cases hsk

theorem updatesOf_of_fits (hfits : FallbackFits (graphNodes sessionKey db) turn)
    (hroot : selectRootTask (readNodes sessionKey db) = some root) (hm : m ∈ db.nodes)
    (hk : m.kind = .task) (hne : m.id ≠ root.id) :
    updatesOf (fallbackPatch (graphNodes sessionKey db) turn) m.id = [] := by
  rcases fallbackFits_iff.mp hfits with hnil | ⟨e, he, ⟨hmust, hre, -⟩ | ⟨hmust, hgo⟩⟩
  · rw [nodes_of_no_root h (selectRootTask_eq_none.mpr hnil)] at hm
    cases hm
  · rw [graphNodes_eq, hroot] at hre
    cases hre
    rw [fallbackPatch_of_new he hmust, updatesOf_append, updatesOf_closeUpdates, if_neg fun hc => hne hc.2.symm]
    rfl
  · refine eq_nil_iff_forall_not_mem.mpr fun u hu => ?_
    obtain ⟨-, hsame, ⟨hid, -⟩ | ⟨s, hs, hid⟩⟩ := mem_updatesOf_existing he hmust hu
    · cases hg : turnGoal turn with
      | none => unfold continuesSameGoal at hsame; rw [hg] at hsame; cases hsame
      | some g =>
        obtain ⟨hre, -⟩ := hgo g hg
        rw [graphNodes_eq, hroot] at hre
        cases hre
        exact hne hid.symm
    · exact activeSubtask_ne h hs hm hk hid

/-- **A committed patch updates no task but the root.** -/
theorem updatesOf_of_applied (hp : WrittenFor sessionKey db turn patch)
    {mode : DagBuildMode} {writeSource : DagWriteSource} {db₁ : Db} {run : PatchRun}
    {olds news : List DagNode} {goalTask : Option DagNode}
    (ha : Applied sessionKey env db
      { turn := turnToInput turn, patch := patch, buildMode := mode, writeSource := writeSource }
      db₁ turnRow run olds news goalTask)
    (hroot : selectRootTask (readNodes sessionKey db) = some root) (hm : m ∈ db.nodes)
    (hk : m.kind = .task) (hne : m.id ≠ root.id) : updatesOf patch m.id = [] := by
  cases hp with
  | fallback => exact updatesOf_of_fits h (fits_of_applied h ha) hroot hm hk hne
  | model parsed maxNodes hp =>
    obtain ⟨p, hvalid, hp⟩ := bind_eq_ok.mp hp
    have hok := validateDagPatch_ok hvalid
    have hnone := updatesOf_of_ne_root h hroot hok hm hk hne
    by_cases hadd : addedTasks p = []
    · rcases normalizeDagTaskTransition_of_no_task hadd hp with rfl | ⟨r, hr, rfl⟩
      · exact hnone
      · have hid := (goalRoot_mem hr).2.2
        rw [rootTaskId_of_root h hroot maxNodes, some.injEq] at hid
        have hcons : updatesOf (.updateNode (doneUpdate r.id) :: p) m.id =
            updatesOf [.updateNode (doneUpdate r.id)] m.id ++ updatesOf p m.id :=
          updatesOf_append [.updateNode (doneUpdate r.id)] p m.id
        rw [hcons, updatesOf_updateNode, hnone, if_neg]
        · rfl
        · exact fun he : r.id = m.id => hne (he.symm.trans hid.symm)
    · obtain ⟨added, hadded, -, -, ⟨hno, -⟩ | ⟨rootId, hid, htransition⟩⟩ :=
        normalizeDagTaskTransition_ok hadd hp
      · rw [rootTaskId_of_root h hroot maxNodes] at hno
        cases hno
      · rw [rootTaskId_of_root h hroot maxNodes] at hid
        cases hid
        obtain ⟨croot, status, type, -, rfl⟩ := normalizeTransition_eq_ok.mp htransition
        rw [updatesOf_transitionPatch, if_neg hne, hnone]

end

end Written

/-! ### The edges between tasks -/

section Edges
variable {sessionKey : String} {env : Env} {db db₁ : Db} {turn turnRow : DagTurn} {patch : DagPatch}
  {run : PatchRun} {olds news : List DagNode} {goal : Option DagGoalContext}

theorem task_of_names (h : Ran sessionKey env turnRow goal db₁ patch run olds news) {name id : String}
    (hn : Names db₁ run.tempNodeIds name id) (hk : isTaskId run.db id = true) :
    (∃ s ∈ db₁.nodes, s.kind = .task ∧ s.id = name ∧ s.id = id) ∨
      ∃ n ∈ news, n.kind = .task ∧ n.id = id ∧ (name, id) ∈ run.tempNodeIds ∧
        ∃ a, .addNode a ∈ patch ∧ a.kind = .task ∧ a.tempId = name := by
  obtain ⟨n, hn', hid⟩ := isTaskId_iff.mp hk
  obtain ⟨hmem, hkind⟩ := mem_tasks.mp hn'
  rcases hn with hn | ⟨rfl, s, hs, hsid⟩
  · obtain ⟨-, n', hnew, hid'⟩ := h.mem_tempNodeIds hn
    obtain ⟨a, ha, hrow, htemp⟩ := h.of_new hnew
    have heq : n' = n := h.eq_of_id (by rw [h.nodes]; exact mem_append_right _ hnew) hmem
      (hid'.trans hid.symm)
    subst heq
    rw [hid'] at htemp
    exact Or.inr ⟨n', hnew, hkind, hid', hn, a, ha, hrow.kind.symm.trans hkind, h.eq_of_names (Or.inl htemp) hn⟩
  · obtain ⟨s', hs', hrow⟩ := h.exists_old hs
    have heq : s' = n := h.eq_of_id (by rw [h.nodes]; exact mem_append_left _ hs') hmem
      (hrow.id.trans (hsid.trans hid.symm))
    exact Or.inl ⟨s, hs, by rw [← hrow.kind, heq]; exact hkind, hsid, hsid⟩

theorem target_new (h : WellFormed sessionKey db) (hp : WrittenFor sessionKey db turn patch)
    (hn : db₁.nodes = db.nodes) (hran : Ran sessionKey env turnRow goal db₁ patch run olds news)
    {e : DagEdge} (he : e ∈ run.db.edges) (hnew : e ∉ db₁.edges)
    (hs : isTaskId run.db e.sourceId = true) (ht : isTaskId run.db e.targetId = true) :
    ∃ n ∈ news, n.kind = .task ∧ n.id = e.targetId := by
  obtain ⟨es, hes, hall⟩ := hran.edges
  rw [hes] at he
  obtain ⟨-, -, op, hop, -, hsn, htn⟩ := hall e ((mem_append.mp he).resolve_left hnew)
  rcases task_of_names hran htn ht with ⟨m, hm, hk, hname, hid⟩ | ⟨n, hn', hk, hid, -⟩
  · exfalso
    have hsource : (∃ s ∈ db.nodes, s.kind = .task ∧ s.id = op.sourceId) ∨
        ∃ a, .addNode a ∈ patch ∧ a.kind = .task ∧ a.tempId = op.sourceId := by
      rcases task_of_names hran hsn hs with ⟨s, hs, hsk, hsname, -⟩ | ⟨-, -, -, -, -, ha⟩
      · exact Or.inl ⟨s, hn ▸ hs, hsk, hsname⟩
      · exact Or.inr ha
    have hself := source_eq_of_written h hp hop (hn ▸ hm) hk hname hsource
    -- both ends stand for the one task that was there
    have hends : e.sourceId = e.targetId := by
      rw [hself] at hsn
      rcases task_of_names hran hsn hs with ⟨s, hs, -, hsname, hsid⟩ | ⟨n, -, -, -, htemp, -⟩
      · exact hsid.symm.trans (hsname.trans (hname.symm.trans hid))
      · obtain ⟨a, ha, haid⟩ := mem_tempIds.mp (hran.mem_tempNodeIds htemp).1
        obtain ⟨ids, hok, -⟩ := patchOk_of_written h hp
        obtain ⟨x, hx⟩ := h.built.named (shape m) (mem_shapes.mpr ⟨m, hn ▸ hm, rfl⟩)
        exact absurd (haid.trans (hname.symm.trans hx)) ((hok.adds a ha).temp.ne_id x)
    exact (hran.loop.built.joins e (by rw [hes]; exact he)).1 hends
  · exact ⟨n, hn', hk, hid⟩

section
variable (hb : Built sessionKey (shapes db₁) db₁.edges)
include hb

theorem isTaskId_old (hran : Ran sessionKey env turnRow goal db₁ patch run olds news) {m : NodeShape}
    (hm : m ∈ shapes db₁) : isTaskId run.db m.id = isTaskId db₁ m.id := by
  obtain ⟨n, hn, rfl⟩ := mem_shapes.mp hm
  obtain ⟨n', hn', hrow⟩ := hran.exists_old hn
  have hn'mem : n' ∈ run.db.nodes := by rw [hran.nodes]; exact mem_append_left _ hn'
  rw [Bool.eq_iff_iff, isTaskId_iff, isTaskId_iff]
  constructor
  · rintro ⟨x, hx, hid⟩
    have heq : x = n' := hran.eq_of_id (mem_tasks.mp hx).1 hn'mem (hid.trans hrow.id.symm)
    exact ⟨n, mem_tasks.mpr ⟨hn, by rw [← hrow.kind, ← heq]; exact (mem_tasks.mp hx).2⟩, rfl⟩
  · rintro ⟨x, hx, hid⟩
    have heq : x = n := inj_on_of_nodup_map (nodup_ids_nodes hb.ids rfl) (mem_tasks.mp hx).1 hn hid
    exact ⟨n', mem_tasks.mpr ⟨hn'mem, hrow.kind.trans (heq ▸ (mem_tasks.mp hx).2)⟩, hrow.id⟩

/-- The edges between tasks after the loop: those before, and new ones. -/
theorem taskEdges_ran (hran : Ran sessionKey env turnRow goal db₁ patch run olds news) :
    ∃ es, run.db.edges = db₁.edges ++ es ∧ taskEdges run.db = taskEdges db₁ ++
      es.filter fun e => isTaskId run.db e.sourceId ∧ isTaskId run.db e.targetId := by
  obtain ⟨es, hes, -⟩ := hran.edges
  refine ⟨es, hes, ?_⟩
  unfold taskEdges
  rw [hes, filter_append]
  congr 1
  refine filter_congr fun e he => ?_
  obtain ⟨-, ⟨s, hs, hsid⟩, t, ht, htid⟩ := hb.joins e he
  rw [← hsid, ← htid, isTaskId_old hb hran hs, isTaskId_old hb hran ht]

theorem nodup_edges : db₁.edges.Nodup := List.Nodup.of_map _ hb.distinct

end

/-- **No new task, no new edge between tasks.** -/
theorem taskEdges_of_no_task (h : WellFormed sessionKey db) (hp : WrittenFor sessionKey db turn patch)
    (hn : db₁.nodes = db.nodes) (he : db₁.edges = db.edges)
    (hran : Ran sessionKey env turnRow goal db₁ patch run olds news)
    (hadded : run.addedTaskNodeIds = []) : taskEdges run.db = taskEdges db₁ := by
  have h₁ := (h.congr hn he).built
  obtain ⟨es, hes, htask⟩ := taskEdges_ran h₁ hran
  rw [htask, append_right_eq_self, filter_eq_nil_iff]
  intro e hmem hc
  rw [decide_eq_true_eq] at hc
  have hnodup := nodup_edges hran.loop.built
  rw [hes, nodup_append] at hnodup
  obtain ⟨n, hnew, hk, -⟩ := target_new h hp hn hran (by rw [hes]; exact mem_append_right _ hmem)
    (fun hold => hnodup.2.2 e hold e hmem rfl) hc.1 hc.2
  have := hran.addedTasks
  rw [hadded] at this
  have hmem' : n.id ∈ (news.filter fun n => n.kind = .task).map (·.id) :=
    mem_map.mpr ⟨n, mem_filter.mpr ⟨hnew, decide_eq_true hk⟩, rfl⟩
  rw [← this] at hmem'
  cases hmem'

/-- **The one new edge between tasks**, when there is one to the new task. -/
theorem taskEdges_of_task (h : WellFormed sessionKey db) (hp : WrittenFor sessionKey db turn patch)
    (hn : db₁.nodes = db.nodes) (he : db₁.edges = db.edges)
    (hran : Ran sessionKey env turnRow goal db₁ patch run olds news) {id : String}
    (hadded : run.addedTaskNodeIds = [id]) {t : DagEdge}
    (hincoming : (readEdges run.db).filter (fun e => e.targetId = id) = [t])
    (hsource : isTaskId run.db t.sourceId = true) : taskEdges run.db = taskEdges db₁ ++ [t] := by
  have h₁ := (h.congr hn he).built
  obtain ⟨es, hes, htask⟩ := taskEdges_ran h₁ hran
  obtain ⟨ht, htarget⟩ := mem_filter.mp (hincoming ▸ mem_cons_self :
    t ∈ (readEdges run.db).filter fun e => e.targetId = id)
  rw [mem_readEdges, hes] at ht
  rw [decide_eq_true_eq] at htarget
  have hnews : (news.filter fun n => n.kind = .task).map (·.id) = [id] := hran.addedTasks ▸ hadded
  obtain ⟨n, hnmem, hnid⟩ := mem_map.mp (hnews ▸ mem_cons_self :
    id ∈ (news.filter fun n => n.kind = .task).map (·.id))
  obtain ⟨hnew, hk⟩ := mem_filter.mp hnmem
  rw [decide_eq_true_eq] at hk
  have htmem : t ∈ es := by
    refine (mem_append.mp ht).resolve_left fun hold => ?_
    obtain ⟨-, -, m, hshape, hmid⟩ := h₁.joins t hold
    obtain ⟨m, hm, rfl⟩ := mem_shapes.mp hshape
    exact hran.new_ne_old hnew hm (hnid.trans (htarget.symm.trans hmid.symm))
  have hnodup := nodup_edges hran.loop.built
  rw [hes, nodup_append] at hnodup
  rw [htask]
  congr 1
  refine eq_singleton_of_map (f := fun e => e) (by simpa using hnodup.2.1.sublist filter_sublist) ?_ ?_
  · refine mem_filter.mpr ⟨htmem, decide_eq_true ⟨hsource, ?_⟩⟩
    rw [htarget, isTaskId_iff]
    exact ⟨n, mem_tasks.mpr ⟨by rw [hran.nodes]; exact mem_append_right _ hnew, hk⟩, hnid⟩
  · intro e hmem
    obtain ⟨hmem, hc⟩ := mem_filter.mp hmem
    rw [decide_eq_true_eq] at hc
    have he' : e ∈ run.db.edges := by rw [hes]; exact mem_append_right _ hmem
    obtain ⟨n', hnew', hk', hid'⟩ := target_new h hp hn hran he'
      (fun hold => hnodup.2.2 e hold e hmem rfl) hc.1 hc.2
    have hone : n'.id ∈ (news.filter fun n => n.kind = .task).map (·.id) :=
      mem_map.mpr ⟨n', mem_filter.mpr ⟨hnew', decide_eq_true hk'⟩, rfl⟩
    rw [hnews, mem_singleton] at hone
    have : e ∈ (readEdges run.db).filter fun e => e.targetId = id :=
      mem_filter.mpr ⟨mem_readEdges.mpr he', decide_eq_true (hid'.symm.trans hone)⟩
    rw [hincoming, mem_singleton] at this
    rw [this]

end Edges

/-! ### After the commit -/

section Effect
variable {sessionKey : String} {env : Env} {db db' : Db} {turn : DagTurn} {patch : DagPatch} {turnId : String}

/-- What has become of a task that was there: the root is written, or it is the task of the goal that the
turn completes. -/
structure TaskRow (env : Env) (patch : DagPatch) (root m n : DagNode) : Prop where
  id : n.id = m.id
  other : m.id ≠ root.id → n.status = m.status ∧ n.updatedAt = m.updatedAt
  root : m.id = root.id →
    (n.status = statusAfter patch root.id m.status ∧
      n.updatedAt = if updatesOf patch root.id = [] then m.updatedAt else env.now) ∨
    (addedTasks patch = [] ∧ n.status = .done ∧ n.updatedAt = env.goalNow)

/-- A new task is open, or it is the task of a goal that is completed already. -/
def NewTask (env : Env) (turn : DagTurn) (rootGoal : Option String) (n : DagNode) : Prop :=
  (n.status.isOpen = true ∧ n.updatedAt = env.now) ∨
    (n.status = .done ∧ n.updatedAt = env.goalNow ∧
      ∃ g, turnGoal turn = some g ∧ g.status = .completed ∧ rootGoal ≠ some g.goalId)

/-- **What a commit does to the tasks**: nothing to a session without tasks; the first task; an update of the
root; or a task that follows the root, which is closed as the edge says. -/
inductive Effect (env : Env) (db : Db) (turn : DagTurn) (patch : DagPatch) (db' : Db) : Option DagNode → Prop
  | empty (hnil : db.nodes = []) (htasks : tasks db' = []) (hedges : taskEdges db' = []) :
    Effect env db turn patch db' none
  | first (n : DagNode) (hnil : db.nodes = []) (hnew : NewTask env turn none n) (htasks : tasks db' = [n])
    (hedges : taskEdges db' = []) : Effect env db turn patch db' none
  | same (root : DagNode) (hrows : List.Forall₂ (TaskRow env patch root) (tasks db) (tasks db'))
    (hedges : taskEdges db' = taskEdges db) (hadd : addedTasks patch = []) :
    Effect env db turn patch db' (some root)
  | next (root : DagNode) (ts : List DagNode) (n r : DagNode) (t : DagEdge)
    (hrows : List.Forall₂ (TaskRow env patch root) (tasks db) ts) (hnew : NewTask env turn root.goalId n)
    (hadd : addedTasks patch ≠ []) (htasks : tasks db' = ts ++ [n]) (hedges : taskEdges db' = taskEdges db ++ [t])
    (hsource : t.sourceId = root.id) (htarget : t.targetId = n.id) (hr : r ∈ ts) (hrid : r.id = root.id)
    (htype : taskTransitionEdgeType r.status = some t.type) :
    Effect env db turn patch db' (some root)

/-- The row of a task after the goal of the turn is completed. -/
def finalRow (turnId : String) (now : ℕ) (goalTask : Option DagNode) (n : DagNode) : DagNode :=
  if goalTask.any fun task => n.id = task.id then
    { n with status := .done, updatedTurnId := some turnId, updatedAt := now }
  else n

theorem finalRow_id (turnId : String) (now : ℕ) (goalTask : Option DagNode) (n : DagNode) :
    (finalRow turnId now goalTask n).id = n.id ∧ (finalRow turnId now goalTask n).kind = n.kind := by
  unfold finalRow
  split_ifs <;> exact ⟨rfl, rfl⟩

theorem tasks_completeGoalTask (db : Db) (turnId : String) (now : ℕ) (goalTask : Option DagNode) :
    tasks (completeGoalTask db turnId now goalTask) =
      (tasks db).map (finalRow turnId now goalTask) := by
  have hnodes : (completeGoalTask db turnId now goalTask).nodes =
      db.nodes.map (finalRow turnId now goalTask) := by
    cases goalTask with
    | none => exact (map_id' db.nodes).symm
    | some task =>
      refine map_congr_left fun n _ => ?_
      unfold finalRow
      simp only [any_some, decide_eq_true_eq]
  unfold tasks
  rw [hnodes, List.filter_map]
  congr 1
  refine filter_congr fun n _ => ?_
  simp only [Function.comp_apply, (finalRow_id turnId now goalTask n).2]

theorem completed_of_assert {nodes : List DagNode} {edges : List DagEdge}
    {root : Option DagNode} {added : List String} {task : DagNode}
    (h : assertGoalBoundary nodes edges turnId goal root added = .ok (some task)) :
    ∃ g, goal = some g ∧ g.status = .completed ∧
      nodes.find? (fun n => n.goalId = some g.goalId) = some task ∧
      (root.bind (·.goalId) = some g.goalId ↔ added = []) := by
  unfold assertGoalBoundary at h
  dsimp only at h
  split at h
  · cases h
  cases goal with
  | none =>
    dsimp only at h
    split at h
    · split_ifs at h
      cases h
    · cases h
  | some g =>
    dsimp only [bind_some] at h
    split at h
    · cases h
    next task' htask =>
    simp only [bind_eq_ok, throwIf_eq_ok] at h
    obtain ⟨-, -, -, hswitch, -, hnew, h⟩ := h
    have hc : g.status = .completed := by
      by_contra hc
      rw [if_neg hc, bind_eq_ok] at h
      obtain ⟨u, -, h⟩ := h
      cases h
    rw [if_pos hc] at h
    cases h
    refine ⟨g, rfl, hc, htask, fun hs => ?_, fun hnil => ?_⟩
    · by_contra hne
      exact hswitch ⟨hs, hne⟩
    · by_contra hne
      exact hnew ⟨hne, hnil⟩

theorem finalRow_of_ne {now : ℕ} {goalTask : Option DagNode} {n : DagNode}
    (h : ∀ task, goalTask = some task → n.id ≠ task.id) : finalRow turnId now goalTask n = n := by
  refine if_neg fun hany => ?_
  cases goalTask with
  | none => cases hany
  | some task => exact h task rfl (by simpa using hany)

theorem finalRow_of_eq (turnId : String) (now : ℕ) {task n : DagNode} (h : n.id = task.id) :
    (finalRow turnId now (some task) n).status = .done ∧
      (finalRow turnId now (some task) n).updatedAt = now := by
  unfold finalRow
  rw [if_pos (by simpa using h)]
  exact ⟨rfl, rfl⟩

theorem taskEdges_completeGoalTask (db : Db) (turnId : String) (now : ℕ) (goalTask : Option DagNode) :
    taskEdges (completeGoalTask db turnId now goalTask) = taskEdges db := by
  have hid : ∀ id, isTaskId (completeGoalTask db turnId now goalTask) id = isTaskId db id := by
    intro id
    rw [Bool.eq_iff_iff, isTaskId_iff, isTaskId_iff, tasks_completeGoalTask]
    constructor
    · rintro ⟨n, hn, hid⟩
      obtain ⟨m, hm, rfl⟩ := mem_map.mp hn
      exact ⟨m, hm, (finalRow_id turnId now goalTask m).1.symm.trans hid⟩
    · rintro ⟨m, hm, hid⟩
      exact ⟨_, mem_map.mpr ⟨m, hm, rfl⟩, (finalRow_id turnId now goalTask m).1.trans hid⟩
  unfold taskEdges
  simp only [hid, (completeGoalTask_turns db turnId now goalTask).2]

section Commit
variable {db₁ : Db} {turnRow : DagTurn} {run : PatchRun} {olds news : List DagNode}
  {goalTask : Option DagNode} {goal : Option DagGoalContext} {root : DagNode} {turnId : String}

theorem taskRows_of_ran (turnId : String) (goalTask : Option DagNode)
    (hran : Ran sessionKey env turnRow goal db₁ patch run olds news)
    (hother : ∀ m ∈ db₁.nodes, m.kind = .task → m.id ≠ root.id → updatesOf patch m.id = [])
    (hgoal : ∀ task, goalTask = some task → ∀ m ∈ db₁.nodes, m.id = task.id →
      m.id = root.id ∧ addedTasks patch = []) :
    List.Forall₂ (TaskRow env patch root) (tasks db₁)
      ((olds.filter fun n => n.kind = .task).map (finalRow turnId env.goalNow goalTask)) := by
  have hfilter : List.Forall₂ (OldRow env patch) (tasks db₁) (olds.filter fun n => n.kind = .task) :=
    rel_filter (fun m n hrow => by
      change decide (m.kind = .task) = true ↔ decide (n.kind = .task) = true
      rw [hrow.kind]) hran.oldRows
  refine forall₂_map_right hfilter fun m hm n _ hrow => ?_
  obtain ⟨hm, hk⟩ := mem_tasks.mp hm
  refine ⟨(finalRow_id turnId env.goalNow goalTask n).1.trans hrow.id, fun hne => ?_, fun hid => ?_⟩
  · rw [finalRow_of_ne fun task ht he => hne (hgoal task ht m hm (hrow.id.symm.trans he)).1]
    have hnone := hother m hm hk hne
    constructor
    · rw [hrow.status]
      unfold statusAfter
      rw [hnone]
      rfl
    · rw [hrow.updatedAt, if_pos hnone]
  · by_cases hset : ∃ task, goalTask = some task ∧ n.id = task.id
    · obtain ⟨task, rfl, hid'⟩ := hset
      exact Or.inr ⟨(hgoal task rfl m hm (hrow.id.symm.trans hid')).2, finalRow_of_eq _ _ hid'⟩
    · rw [finalRow_of_ne fun task ht he => hset ⟨task, ht, he⟩]
      exact Or.inl ⟨by rw [hrow.status, hid], by rw [hrow.updatedAt, hid]⟩

theorem goalTask_of_no_task (hran : Ran sessionKey env turnRow goal db₁ patch run olds news) {task : DagNode}
    (hroot : selectRootTask (readNodes sessionKey db₁) = some root)
    (hassert : assertGoalBoundary (readNodes sessionKey run.db) (readEdges run.db) turnId goal
      (some root) [] = .ok (some task)) : task.id = root.id := by
  obtain ⟨g, -, -, htask, hswitch⟩ := completed_of_assert hassert
  have hgoal : root.goalId = some g.goalId := hswitch.mpr rfl
  obtain ⟨m, hm, rfl⟩ := exists_row_of_root hroot
  obtain ⟨n, hn, hrow⟩ := hran.exists_old hm
  rw [find_goal hran.loop.built (by rw [hran.nodes]; exact mem_append_left _ hn)
    (hrow.goalId.trans hgoal)] at htask
  rw [← some.inj htask]
  exact hrow.id

theorem newTask_of_ran {a : AddNodePatchOp} {n : DagNode}
    (hran : Ran sessionKey env turnRow (turnGoal turn) db₁ patch run olds news) (hn : n ∈ news)
    (hrow : NewRow sessionKey env (turnGoal turn) a n) (hk : a.kind = .task)
    (hopen : a.status.isOpen = true) {rootTask : Option DagNode}
    (hassert : assertGoalBoundary (readNodes sessionKey run.db) (readEdges run.db) turnId
      (turnGoal turn) rootTask [n.id] = .ok goalTask) :
    NewTask env turn (rootTask.bind (·.goalId)) (finalRow turnId env.goalNow goalTask n) ∧
      ∀ task, goalTask = some task → task.id = n.id := by
  cases goalTask with
  | none =>
    have hnone : ∀ task, (none : Option DagNode) = some task → n.id ≠ task.id := by simp
    rw [finalRow_of_ne hnone]
    exact ⟨Or.inl ⟨by rw [hrow.status]; exact hopen, hrow.updatedAt⟩, by simp⟩
  | some task =>
    obtain ⟨g, hg, hc, htask, hswitch⟩ := completed_of_assert hassert
    have hgoal : n.goalId = some g.goalId := by
      rw [hrow.goalId, hg]
      unfold newGoalId
      rw [if_pos hk]
      rfl
    rw [find_goal hran.loop.built (by rw [hran.nodes]; exact mem_append_right _ hn) hgoal] at htask
    have hid : task.id = n.id := by
      rw [← some.inj htask]
      rfl
    obtain ⟨hdone, hat⟩ := finalRow_of_eq turnId env.goalNow hid.symm
    refine ⟨Or.inr ⟨hdone, hat, g, hg, hc, fun hs => ?_⟩, fun _ ht => by cases ht; exact hid⟩
    cases hswitch.mp hs

theorem taskEdges_of_first (h : WellFormed sessionKey db) (hp : WrittenFor sessionKey db turn patch)
    (hn : db₁.nodes = db.nodes) (he : db₁.edges = db.edges)
    (hran : Ran sessionKey env turnRow goal db₁ patch run olds news) (hnil : db.nodes = []) {id : String}
    (hadded : run.addedTaskNodeIds = [id])
    (hassert : assertTaskTransitionIntegrity (readNodes sessionKey run.db) (readEdges run.db) none [id] =
      .ok ()) : taskEdges run.db = [] := by
  refine eq_nil_iff_forall_not_mem.mpr fun e hmem => ?_
  obtain ⟨hedge, hs, ht⟩ := mem_taskEdges.mp hmem
  have hnew : e ∉ db₁.edges := by
    intro hold
    obtain ⟨-, ⟨m, hm, -⟩, -⟩ := (h.congr hn he).built.joins e hold
    obtain ⟨m, hm, -⟩ := mem_shapes.mp hm
    rw [hn, hnil] at hm
    cases hm
  obtain ⟨n, hn', hk, hid⟩ := target_new h hp hn hran hedge hnew hs ht
  have hone : n.id ∈ (news.filter fun n => n.kind = .task).map (·.id) :=
    mem_map.mpr ⟨n, mem_filter.mpr ⟨hn', decide_eq_true hk⟩, rfl⟩
  rw [← hran.addedTasks, hadded, mem_singleton] at hone
  obtain ⟨s, hsmem, hsid⟩ := isTaskId_iff.mp hs
  obtain ⟨hsmem, hsk⟩ := mem_tasks.mp hsmem
  refine no_transition_of_assert hassert e (mem_readEdges.mpr hedge) (hid.symm.trans hone) ?_
  rw [← hsid, show s.id = (parseNodeRow s).id from rfl,
    byId_readNodes hran.loop.built (parse_mem_readNodes hran.loop.built hsmem)]
  exact congrArg some hsk

theorem tasks_of_ran (hran : Ran sessionKey env turnRow goal db₁ patch run olds news) (turnId : String)
    (now : ℕ) (goalTask : Option DagNode) : tasks (completeGoalTask run.db turnId now goalTask) =
      (olds.filter fun n => n.kind = .task).map (finalRow turnId now goalTask) ++
        (news.filter fun n => n.kind = .task).map (finalRow turnId now goalTask) := by
  rw [tasks_completeGoalTask, tasks, hran.nodes, filter_append, map_append]

theorem rootRow_of_ran (hran : Ran sessionKey env turnRow goal db₁ patch run olds news)
    (hroot : selectRootTask (readNodes sessionKey db₁) = some root) {r : DagNode}
    (hr : byId (readNodes sessionKey run.db) root.id = some r) :
    ∃ r₀ ∈ olds, r₀.kind = .task ∧ r₀.id = root.id ∧ r₀.status = r.status := by
  obtain ⟨hmem, hid⟩ := byId_eq_some hr
  obtain ⟨m, hm, hmr⟩ := exists_row_of_root hroot
  obtain ⟨n, hn, hrow⟩ := hran.exists_old hm
  have hk : m.kind = .task := by
    rw [← parseNodeRow_kind m, hmr]
    exact kind_of_root hroot
  have hnid : n.id = root.id := by rw [hrow.id, ← hmr, parseNodeRow_id]
  have heq := eq_of_id_readNodes hran.loop.built hmem
    (parse_mem_readNodes hran.loop.built (by rw [hran.nodes]; exact mem_append_left _ hn))
    (hid.trans hnid.symm)
  exact ⟨n, hn, hrow.kind.trans hk, hnid, by rw [heq, parseNodeRow_status]⟩

end Commit

/-- **What a commit does to the tasks.** -/
theorem effect_of_commits (h : WellFormed sessionKey db) (hc : Commits sessionKey env db turn patch db') :
    Effect env db turn patch db' (selectRootTask (readNodes sessionKey db)) := by
  have hp := hc.1
  obtain ⟨ids, mode, writeSource, db₁, turnRow, run, olds, news, goalTask, hok, -, hone, ha, rfl⟩ :=
    applied_of_commits h hc
  obtain ⟨hn, he⟩ := upsertTurn_graph ha.upsert
  have hran := ha.ran
  have htasks := tasks_of_ran hran turn.turnId env.goalNow goalTask
  have hedges := taskEdges_completeGoalTask run.db turn.turnId env.goalNow goalTask
  have htasks₁ : tasks db₁ = tasks db := by unfold tasks; rw [hn]
  have hedges₁ : taskEdges db₁ = taskEdges db := by unfold taskEdges isTaskId; rw [hn, he]
  have hlen := length_addedTaskNodeIds hran
  -- the new task, if there is one
  have hnewTask : ∀ a, addedTasks patch = [a] → ∃ n ∈ news,
      NewRow sessionKey env (turnGoal turn) a n ∧ n.kind = .task ∧
        run.addedTaskNodeIds = [n.id] ∧ (news.filter fun n => n.kind = .task) = [n] ∧
        a.kind = .task ∧ a.status.isOpen = true := by
    intro a hadd
    obtain ⟨n, hnew, hrow, -, hk, hadded⟩ := exists_addedTask hran hadd
    obtain ⟨hmem, hak⟩ := mem_addedTasks.mp (hadd ▸ mem_cons_self : a ∈ addedTasks patch)
    refine ⟨n, hnew, hrow, hk, hadded, ?_, hak, (hok.adds a hmem).openTask hak⟩
    have hids := hran.addedTasks
    rw [hadded] at hids
    obtain ⟨x, hx⟩ := length_eq_one_iff.mp
      (by rw [← length_map (f := (·.id)), ← hids]; rfl : (news.filter fun n => n.kind = .task).length = 1)
    have hmem' : n ∈ news.filter fun n => n.kind = .task := mem_filter.mpr ⟨hnew, decide_eq_true hk⟩
    rw [hx, mem_singleton] at hmem'
    rw [hx, hmem']
  have hnoTask : addedTasks patch = [] → run.addedTaskNodeIds = [] ∧
      (news.filter fun n => n.kind = .task) = [] := by
    intro hadd
    rw [hadd, length_nil, length_eq_zero_iff] at hlen
    refine ⟨hlen, ?_⟩
    have hids := hran.addedTasks
    rw [hlen] at hids
    exact map_eq_nil_iff.mp hids.symm
  cases hroot : selectRootTask (readNodes sessionKey db) with
  | none =>
    have hnil := nodes_of_no_root h hroot
    have holds : olds = [] := by
      have := hran.oldRows
      rw [hn, hnil] at this
      cases this
      rfl
    subst holds
    cases hadd : addedTasks patch with
    | nil =>
      obtain ⟨hadded, hnews⟩ := hnoTask hadd
      refine .empty hnil (htasks.trans (by rw [hnews]; rfl)) (hedges.trans ?_)
      rw [taskEdges_of_no_task h hp hn he hran hadded, hedges₁]
      refine eq_nil_iff_forall_not_mem.mpr fun e hmem => ?_
      obtain ⟨-, hs, -⟩ := mem_taskEdges.mp hmem
      obtain ⟨s, hs, -⟩ := isTaskId_iff.mp hs
      rw [mem_tasks, hnil] at hs
      cases hs.1
    | cons a rest =>
      obtain rfl : rest = [] := by
        rw [hadd, length_cons] at hone
        exact length_eq_zero_iff.mp (by omega)
      obtain ⟨n, hnew, hrow, hk, hadded, hnews, hak, hopen⟩ := hnewTask a hadd
      have hassert := ha.boundary
      have htransition := ha.transition
      rw [hroot, hadded] at hassert htransition
      obtain ⟨hnewTask, -⟩ := newTask_of_ran hran hnew hrow hak hopen hassert
      exact .first _ hnil hnewTask (htasks.trans (by rw [hnews]; rfl))
        (hedges.trans (taskEdges_of_first h hp hn he hran hnil hadded htransition))
  | some root =>
    have hroot₁ : selectRootTask (readNodes sessionKey db₁) = some root := by
      rw [readNodes_congr sessionKey hn]
      exact hroot
    have hother : ∀ m ∈ db₁.nodes, m.kind = .task → m.id ≠ root.id → updatesOf patch m.id = [] :=
      fun m hm hk hne => updatesOf_of_applied h hp ha hroot (hn ▸ hm) hk hne
    have hassert := ha.boundary
    rw [hroot] at hassert
    cases hadd : addedTasks patch with
    | nil =>
      obtain ⟨hadded, hnews⟩ := hnoTask hadd
      rw [hadded] at hassert
      have hrows := taskRows_of_ran turn.turnId goalTask hran hother ?_
      · refine .same root ?_ (hedges.trans ?_) hadd
        · rw [← htasks₁]
          convert hrows using 1
          exact htasks.trans (by rw [hnews, map_nil, append_nil])
        · rw [taskEdges_of_no_task h hp hn he hran hadded, hedges₁]
      · rintro task rfl m - hid
        exact ⟨hid.trans (goalTask_of_no_task hran hroot₁ hassert), hadd⟩
    | cons a rest =>
      obtain rfl : rest = [] := by
        rw [hadd, length_cons] at hone
        exact length_eq_zero_iff.mp (by omega)
      obtain ⟨n, hnew, hrow, hk, hadded, hnews, hak, hopen⟩ := hnewTask a hadd
      have htransition := ha.transition
      rw [hroot, hadded] at htransition
      rw [hadded] at hassert
      obtain ⟨hnewTask, hgoalTask⟩ := newTask_of_ran hran hnew hrow hak hopen hassert
      obtain ⟨r, t, hr, hincoming, hsource, htype⟩ := transition_of_assert htransition
      obtain ⟨r₀, hr₀, hrk, hrid, hrs⟩ := rootRow_of_ran hran hroot₁ hr
      have hfinal : finalRow turn.turnId env.goalNow goalTask r₀ = r₀ := finalRow_of_ne fun task ht => by
        obtain ⟨m, hm, hmrow⟩ := hran.of_old hr₀
        rw [hgoalTask task ht, hmrow.id]
        exact (hran.new_ne_old hnew hm).symm
      have hrows := taskRows_of_ran turn.turnId goalTask hran hother ?_
      · refine .next root _ _ r₀ t (htasks₁ ▸ hrows) hnewTask
          (by rw [hadd]; exact cons_ne_nil _ _) (htasks.trans (by rw [hnews]; rfl)) (hedges.trans ?_) hsource ?_ ?_ ?_ ?_
        · rw [taskEdges_of_task h hp hn he hran hadded hincoming, hedges₁]
          rw [isTaskId_iff]
          refine ⟨r₀, mem_tasks.mpr ⟨?_, hrk⟩, hrid.trans hsource.symm⟩
          rw [hran.nodes]
          exact mem_append_left _ hr₀
        · have ht := mem_filter.mp (hincoming ▸ mem_cons_self :
            t ∈ (readEdges run.db).filter fun e => e.targetId = n.id)
          exact (of_decide_eq_true ht.2).trans (finalRow_id _ _ _ n).1.symm
        · exact mem_map.mpr ⟨r₀, mem_filter.mpr ⟨hr₀, decide_eq_true hrk⟩, hfinal⟩
        · exact hrid
        · rw [hrs]
          exact htype
      · rintro task ht m hm hid
        rw [hgoalTask task ht] at hid
        exact absurd hid.symm (hran.new_ne_old hnew hm)

end Effect

end Memmy.SessionDag.TaskEffect
