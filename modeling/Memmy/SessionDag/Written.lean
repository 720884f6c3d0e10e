import Memmy.SessionDag.Completion

/-! # What the builder writes

A patch that is committed for a turn is the completed patch of a model or the patch of the fallback. Both are
checked patches that add one task at most.

* `patchOk_of_normalized`: a completed patch is a checked one.
* `fallbackPatch_of_none`, `fallbackPatch_of_new`, `fallbackPatch_of_existing`: the patches of the fallback.
* `patchOk_of_written`: what the builder writes is a checked patch. -/

namespace Memmy.SessionDag.Written

open Lib.JsonValue Lib.Result Lib.Sort SessionDag.Types SessionDag.PatchSchema SessionDag.Selection
open List SessionDag.Store SessionDag.Builder SessionDag.Shape SessionDag.Invariant
  SessionDag.Validated SessionDag.Context SessionDag.Normalize SessionDag.Completion

/-! ### The patch of a model -/

section Model
variable {ops q : DagPatch} {ctx : DagBuilderContext} {goal : Option DagGoalContext} {ids : List String}

/-- The update that completes the task of a goal. -/
def doneUpdate (rootId : String) : UpdateNodePatchOp := { nodeId := rootId, status := some .done }

/-- **What a patch without a new task is completed to.** -/
theorem normalizeDagTaskTransition_of_no_task (hadd : addedTasks ops = [])
    (h : normalizeDagTaskTransition ops ctx goal = .ok q) :
    q = ops ∨ ∃ root, goalRoot ctx goal = some root ∧ q = .updateNode (doneUpdate root.id) :: ops := by
  unfold normalizeDagTaskTransition at h
  simp only [bind_eq_ok, throwIf_eq_ok] at h
  obtain ⟨-, -, -, -, h⟩ := h
  rw [hadd] at h
  cases hg : goalRoot ctx goal with
  | none =>
    rw [hg] at h
    refine Or.inl ?_
    cases goal <;> exact (Except.ok.inj h).symm
  | some root =>
    cases goal with
    | none => simp [goalRoot] at hg
    | some g =>
      rw [hg] at h
      unfold normalizeGoalTurn at h
      rw [bind_eq_ok] at h
      obtain ⟨-, -, h⟩ := h
      dsimp only at h
      split_ifs at h <;> simp only [bind_eq_ok, pure_eq, Except.ok.injEq] at h <;>
        obtain ⟨-, -, rfl⟩ := h
      · exact Or.inl rfl
      · exact Or.inl rfl
      · exact Or.inr ⟨root, rfl, rfl⟩

theorem goalRoot_mem {root : DagContextNode} (h : goalRoot ctx goal = some root) :
    root ∈ ctx.nodes ∧ root.kind = .task ∧ rootTaskId ctx = some root.id := by
  unfold goalRoot at h
  cases goal with
  | none => cases h
  | some g =>
    cases ht : rootTask ctx with
    | none => rw [ht] at h; cases h
    | some root' =>
      rw [ht] at h
      dsimp only at h
      split_ifs at h
      cases h
      obtain ⟨id, hid, hf⟩ := Option.bind_eq_some_iff.mp ht
      have hp := find?_some hf
      simp only [decide_eq_true_eq] at hp
      exact ⟨mem_of_find?_eq_some hf, hp.2, by rw [hid, hp.1]⟩

theorem patchOk_cons_update (h : PatchOk ids ops) {u : UpdateNodePatchOp}
    (hu : UpdateOk ids u) : PatchOk ids (.updateNode u :: ops) where
  adds := fun a ha => h.adds a (by simpa using ha)
  updates := by
    intro u' hu'
    rcases mem_cons.mp hu' with hu' | hu'
    · cases hu'; exact hu
    · exact h.updates u' hu'
  temps := h.temps
  scopes := h.scopes

theorem updateOk_status {id : String} (hid : id ∈ ids) (status : DagNodeStatus) :
    UpdateOk ids { nodeId := id, status := some status } :=
  ⟨hid, by simp, by simp, by simp⟩

/-- **A completed patch is a checked one** and adds one task at most. -/
theorem patchOk_of_normalized (hok : PatchOk ((contextNodeKinds ctx).map (·.1)) ops)
    (hroot : ∀ id, rootTaskId ctx = some id → id ∈ (contextNodeKinds ctx).map (·.1))
    (h : normalizeDagTaskTransition ops ctx goal = .ok q) :
    PatchOk ((contextNodeKinds ctx).map (·.1)) q ∧ (addedTasks q).length ≤ 1 := by
  by_cases hadd : addedTasks ops = []
  · rcases normalizeDagTaskTransition_of_no_task hadd h with rfl | ⟨root, hg, rfl⟩
    · exact ⟨hok, by rw [hadd]; simp⟩
    · refine ⟨patchOk_cons_update hok (updateOk_status (hroot _ (goalRoot_mem hg).2.2) .done), ?_⟩
      have : addedTasks (.updateNode (doneUpdate root.id) :: ops) = addedTasks ops := rfl
      rw [this, hadd]
      simp
  · obtain ⟨added, hadded, -, -, ⟨-, rfl⟩ | ⟨rootId, hid, htransition⟩⟩ := normalizeDagTaskTransition_ok hadd h
    · exact ⟨hok, by rw [hadded]; simp⟩
    · obtain ⟨root, status, type, hres, rfl⟩ := normalizeTransition_eq_ok.mp htransition
      refine ⟨patchOk_transitionPatch hok (hroot _ hid) (mem_addedTasks.mp (hadded ▸
        mem_cons_self : added ∈ addedTasks ops)).1, ?_⟩
      rw [addedTasks_transitionPatch, hadded]
      simp

end Model

/-! ### The patch of the fallback -/

section Fallback
variable {nodes : List DagNode} {turn : DagTurn} {e s : DagNode}

theorem existingTask_eq_some (h : existingTask nodes = some e) :
    e ∈ nodes ∧ e.kind = .task ∧ e.status ≠ .frozen := by
  obtain ⟨hmem, -⟩ := head?_sortBy _ h
  obtain ⟨hmem, hp⟩ := mem_filter.mp hmem
  rw [decide_eq_true_eq] at hp
  exact ⟨hmem, hp⟩

theorem existingTask_eq_none (h : existingTask nodes = none) :
    ∀ n ∈ nodes, n.kind = .task → n.status = .frozen := by
  intro n hn hk
  unfold existingTask at h
  rw [head?_eq_none_iff, sortBy_eq_nil, filter_eq_nil_iff] at h
  by_contra hs
  exact h n hn (decide_eq_true ⟨hk, hs⟩)

theorem activeSubtask_eq_some (h : activeSubtask nodes = some s) :
    s ∈ nodes ∧ s.kind = .subtask ∧ s.status.isOpen = true := by
  obtain ⟨hmem, -⟩ := head?_sortBy _ h
  obtain ⟨hmem, hp⟩ := mem_filter.mp hmem
  rw [decide_eq_true_eq] at hp
  exact ⟨hmem, hp⟩

/-- The edge to the new step. -/
def stepEdge (sourceId : String) (type : DagEdgeType) : AddEdgePatchOp where
  sourceId := sourceId
  targetId := "fallback_subtask"
  type := type

/-- The edge to the new task. -/
def taskEdge (e : DagNode) : AddEdgePatchOp where
  sourceId := e.id
  targetId := "fallback_task"
  type := (existingTaskTransition e).2

/-- The update that closes the existing task for a new one. -/
def closeUpdates (e : DagNode) : DagPatch :=
  if (existingTaskTransition e).1 ≠ e.status then
    [.updateNode { nodeId := e.id, status := some (existingTaskTransition e).1 }] else []

/-- The update that completes the existing task. -/
def completeUpdates (nodes : List DagNode) (turn : DagTurn) (e : DagNode) : DagPatch :=
  if (turnGoal turn).any (·.status = .completed) ∧ continuesSameGoal nodes turn = true then
    [.updateNode (doneUpdate e.id)] else []

/-- The update that closes the open step before the new one. -/
def stepUpdates (nodes : List DagNode) (turn : DagTurn) : DagPatch :=
  match activeSubtask nodes with
  | some s => if continuesSameGoal nodes turn = true then [.updateNode (doneUpdate s.id)] else []
  | none => []

/-- What the new step is put below, when there is no new task. -/
def parentEdge (nodes : List DagNode) (e : DagNode) : AddEdgePatchOp :=
  match activeSubtask nodes with
  | some s => stepEdge s.id .continues
  | none => stepEdge e.id .decomposes

/-- **The first task of a session**, or one beside frozen tasks. -/
theorem fallbackPatch_of_none (h : existingTask nodes = none) :
    fallbackPatch nodes turn = [.addNode (fallbackTask turn), .addNode (fallbackSubtask turn),
      .addEdge (stepEdge "fallback_task" .decomposes)] := by
  have hm : mustCreateTask nodes turn = true := by unfold mustCreateTask; simp [h]
  unfold fallbackPatch fallbackNewTask fallbackConnect
  rw [h, hm]
  cases activeSubtask nodes <;> cases turnGoal turn <;> rfl

/-- **A task that replaces the existing one.** -/
theorem fallbackPatch_of_new (h : existingTask nodes = some e) (hm : mustCreateTask nodes turn = true) :
    fallbackPatch nodes turn = closeUpdates e ++ [.addNode (fallbackTask turn), .addEdge (taskEdge e),
      .addNode (fallbackSubtask turn), .addEdge (stepEdge "fallback_task" .decomposes)] := by
  have hsame : continuesSameGoal nodes turn = false := by
    by_contra hc
    rw [Bool.not_eq_false] at hc
    unfold mustCreateTask at hm
    cases hg : turnGoal turn with
    | none => unfold continuesSameGoal at hc; rw [hg] at hc; cases hc
    | some g => simp [h, hc, hg] at hm
  unfold fallbackPatch fallbackNewTask fallbackConnect closeUpdates
  rw [h, hm, hsame]
  cases activeSubtask nodes <;> cases turnGoal turn <;>
    simp [stepEdge, taskEdge, append_assoc]

/-- **A step below the existing task.** -/
theorem fallbackPatch_of_existing (h : existingTask nodes = some e)
    (hm : mustCreateTask nodes turn = false) :
    fallbackPatch nodes turn = completeUpdates nodes turn e ++ [.addNode (fallbackSubtask turn)] ++
      stepUpdates nodes turn ++ [.addEdge (parentEdge nodes e)] := by
  unfold fallbackPatch fallbackConnect completeUpdates stepUpdates parentEdge
  rw [h, hm]
  cases activeSubtask nodes <;> cases turnGoal turn <;>
    simp [stepEdge, doneUpdate, append_assoc]

end Fallback

/-! ### It is a checked patch -/

section Checked
variable {ids : List String} (hids : ∀ id ∈ ids, ∃ s, id = "n_" ++ s)
variable {e : DagNode} {op : DagPatchOp} {turn : DagTurn} {nodes : List DagNode}

theorem tempName_fallback : TempName "fallback_task" ∧ TempName "fallback_subtask" := by
  refine ⟨⟨by decide +kernel, fun s h => ?_⟩, ⟨by decide +kernel, fun s h => ?_⟩⟩ <;>
    simp [String.ext_iff] at h

include hids

theorem addOk_fallbackTask (turn : DagTurn) : AddOk ids (fallbackTask turn) where
  temp := tempName_fallback.1
  new := fun h => by
    obtain ⟨s, hs⟩ := hids _ h
    exact tempName_fallback.1.ne_id s hs
  importance := ⟨80, by omega, rfl⟩
  openTask := fun _ => by
    unfold fallbackTask
    split_ifs <;> rfl

theorem addOk_fallbackSubtask (turn : DagTurn) : AddOk ids (fallbackSubtask turn) where
  temp := tempName_fallback.2
  new := fun h => by
    obtain ⟨s, hs⟩ := hids _ h
    exact tempName_fallback.2.ne_id s hs
  importance := by
    unfold fallbackSubtask fallbackImportance
    by_cases hb : fallbackStatus turn = .blocked
    · exact ⟨65, by omega, by simp [hb]⟩
    · exact ⟨50, by omega, by simp [hb]⟩
  openTask := nofun

omit hids in
theorem addedTasks_append (ops ops' : DagPatch) :
    addedTasks (ops ++ ops') = addedTasks ops ++ addedTasks ops' := filterMap_append

omit hids in
theorem facts_of_updates : ∀ {ops : DagPatch}, (∀ op ∈ ops, ∃ u, op = .updateNode u) →
    tempIds ops = [] ∧ addedTasks ops = [] ∧ ∀ known, Scoped known ops
  | [], _ => ⟨rfl, rfl, fun _ => trivial⟩
  | op :: ops, h => by
    obtain ⟨u, rfl⟩ := h op mem_cons_self
    obtain ⟨h1, h2, h3⟩ := facts_of_updates fun op hop => h op (mem_cons_of_mem _ hop)
    exact ⟨h1, h2, h3⟩

omit hids in
theorem mem_closeUpdates (he : e.id ∈ ids) (h : op ∈ closeUpdates e) :
    ∃ u, op = .updateNode u ∧ UpdateOk ids u := by
  unfold closeUpdates at h
  split_ifs at h
  · exact ⟨_, mem_singleton.mp h, updateOk_status he _⟩
  · cases h

omit hids in
theorem mem_completeUpdates (he : e.id ∈ ids) (h : op ∈ completeUpdates nodes turn e) :
    ∃ u, op = .updateNode u ∧ UpdateOk ids u := by
  unfold completeUpdates at h
  split_ifs at h
  · exact ⟨_, mem_singleton.mp h, updateOk_status he _⟩
  · cases h

omit hids in
theorem mem_stepUpdates (hnodes : ∀ n ∈ nodes, n.id ∈ ids) (h : op ∈ stepUpdates nodes turn) :
    ∃ u, op = .updateNode u ∧ UpdateOk ids u := by
  unfold stepUpdates at h
  cases hs : activeSubtask nodes with
  | none => rw [hs] at h; cases h
  | some s =>
    rw [hs] at h
    split_ifs at h
    · exact ⟨_, mem_singleton.mp h, updateOk_status (hnodes s (activeSubtask_eq_some hs).1) _⟩
    · cases h

omit hids in
theorem parentEdge_known (he : e.id ∈ ids) (hnodes : ∀ n ∈ nodes, n.id ∈ ids) :
    (parentEdge nodes e).targetId = "fallback_subtask" ∧ (parentEdge nodes e).sourceId ∈ ids := by
  unfold parentEdge
  cases hs : activeSubtask nodes with
  | none => exact ⟨rfl, he⟩
  | some s => exact ⟨rfl, hnodes s (activeSubtask_eq_some hs).1⟩

/-- **The patch of the fallback is a checked one**, and adds one task at most. -/
theorem patchOk_fallbackPatch (hnodes : ∀ n ∈ nodes, n.id ∈ ids) (turn : DagTurn) :
    PatchOk ids (fallbackPatch nodes turn) ∧ (addedTasks (fallbackPatch nodes turn)).length ≤ 1 := by
  have hnames : (["fallback_task", "fallback_subtask"] : List String).Nodup := by decide +kernel
  have htask := addOk_fallbackTask hids turn
  have hstep := addOk_fallbackSubtask hids turn
  cases he : existingTask nodes with
  | none =>
    rw [fallbackPatch_of_none he]
    refine ⟨⟨?_, by simp, hnames, ?_⟩, le_refl 1⟩
    · simpa using ⟨htask, hstep⟩
    · simp [Scoped, stepEdge, fallbackTask, fallbackSubtask]
  | some e =>
    have heid := hnodes e (existingTask_eq_some he).1
    cases hm : mustCreateTask nodes turn with
    | true =>
      rw [fallbackPatch_of_new he hm]
      obtain ⟨h1, h2, h3⟩ := facts_of_updates fun op (hop : op ∈ closeUpdates e) => by
        obtain ⟨u, rfl, -⟩ := mem_closeUpdates heid hop
        exact ⟨u, rfl⟩
      refine ⟨⟨?_, ?_, by rw [tempIds_append, h1]; exact hnames, ?_⟩,
        by rw [addedTasks_append, h2]; exact le_refl 1⟩
      · intro a ha
        rcases mem_append.mp ha with ha | ha
        · obtain ⟨u, hu, -⟩ := mem_closeUpdates heid ha
          cases hu
        · have : a = fallbackTask turn ∨ a = fallbackSubtask turn := by simpa using ha
          rcases this with rfl | rfl
          · exact htask
          · exact hstep
      · intro u hu
        rcases mem_append.mp hu with hu | hu
        · obtain ⟨u', hu', hok⟩ := mem_closeUpdates heid hu
          cases hu'
          exact hok
        · simp at hu
      · rw [scoped_append, h1]
        refine ⟨h3 _, ?_⟩
        simp [Scoped, stepEdge, taskEdge, fallbackTask, fallbackSubtask, heid]
    | false =>
      rw [fallbackPatch_of_existing he hm]
      obtain ⟨h1, h2, h3⟩ := facts_of_updates fun op (hop : op ∈ completeUpdates nodes turn e) => by
        obtain ⟨u, rfl, -⟩ := mem_completeUpdates heid hop
        exact ⟨u, rfl⟩
      obtain ⟨h1', h2', h3'⟩ := facts_of_updates fun op (hop : op ∈ stepUpdates nodes turn) => by
        obtain ⟨u, rfl, -⟩ := mem_stepUpdates hnodes hop
        exact ⟨u, rfl⟩
      obtain ⟨htarget, hsource⟩ := parentEdge_known heid hnodes
      refine ⟨⟨?_, ?_, ?_, ?_⟩, ?_⟩
      · intro a ha
        simp only [mem_append, mem_singleton, or_assoc, DagPatchOp.addNode.injEq, reduceCtorEq, or_false] at ha
        rcases ha with ha | rfl | ha
        · obtain ⟨u, hu, -⟩ := mem_completeUpdates heid ha
          cases hu
        · exact hstep
        · obtain ⟨u, hu, -⟩ := mem_stepUpdates hnodes ha
          cases hu
      · intro u hu
        simp only [mem_append, mem_singleton, reduceCtorEq, or_false] at hu
        rcases hu with hu | hu
        · obtain ⟨u', hu', hok⟩ := mem_completeUpdates heid hu
          cases hu'
          exact hok
        · obtain ⟨u', hu', hok⟩ := mem_stepUpdates hnodes hu
          cases hu'
          exact hok
      · simp only [tempIds_append, h1, h1']
        exact nodup_singleton _
      · rw [scoped_append, scoped_append, scoped_append]
        refine ⟨⟨⟨h3 _, trivial⟩, h3' _⟩, ⟨?_, ?_⟩, trivial⟩
        · exact mem_append_right _ hsource
        · rw [htarget]
          refine mem_append_left _ ?_
          rw [tempIds_append, tempIds_append]
          exact mem_append_left _ (mem_append_right _ mem_cons_self)
      · rw [addedTasks_append, addedTasks_append, addedTasks_append, h2, h2']
        exact Nat.zero_le 1

omit hids in
/-- **What the fallback adds.** -/
theorem mem_fallbackPatch_addNode {op : AddNodePatchOp}
    (h : .addNode op ∈ fallbackPatch nodes turn) : op = fallbackTask turn ∨ op = fallbackSubtask turn := by
  have hnodes : ∀ n ∈ nodes, n.id ∈ nodes.map (·.id) := fun n hn => mem_map.mpr ⟨n, hn, rfl⟩
  cases he : existingTask nodes with
  | none =>
    rw [fallbackPatch_of_none he] at h
    simpa using h
  | some e =>
    have heid := hnodes e (existingTask_eq_some he).1
    cases hm : mustCreateTask nodes turn with
    | true =>
      rw [fallbackPatch_of_new he hm] at h
      rcases mem_append.mp h with h | h
      · obtain ⟨u, hu, -⟩ := mem_closeUpdates heid h
        cases hu
      · simpa using h
    | false =>
      rw [fallbackPatch_of_existing he hm] at h
      simp only [mem_append, mem_singleton, reduceCtorEq, or_false, DagPatchOp.addNode.injEq] at h
      rcases h with (h | rfl) | h
      · obtain ⟨u, hu, -⟩ := mem_completeUpdates heid h
        cases hu
      · exact Or.inr rfl
      · obtain ⟨u, hu, -⟩ := mem_stepUpdates hnodes h
        cases hu

omit hids in
/-- **What the fallback connects.** -/
theorem mem_fallbackPatch_addEdge {op : AddEdgePatchOp}
    (h : .addEdge op ∈ fallbackPatch nodes turn) :
    (∃ e, existingTask nodes = some e ∧ op = taskEdge e) ∨
      (op.targetId = "fallback_subtask" ∧ op.type ≠ .sideBranch) := by
  have hnodes : ∀ n ∈ nodes, n.id ∈ nodes.map (·.id) := fun n hn => mem_map.mpr ⟨n, hn, rfl⟩
  cases he : existingTask nodes with
  | none =>
    rw [fallbackPatch_of_none he] at h
    have : op = stepEdge "fallback_task" .decomposes := by simpa using h
    exact Or.inr (by rw [this]; exact ⟨rfl, by decide⟩)
  | some e =>
    have heid := hnodes e (existingTask_eq_some he).1
    cases hm : mustCreateTask nodes turn with
    | true =>
      rw [fallbackPatch_of_new he hm] at h
      rcases mem_append.mp h with h | h
      · obtain ⟨u, hu, -⟩ := mem_closeUpdates heid h
        cases hu
      · rcases (by simpa using h : op = taskEdge e ∨ op = stepEdge "fallback_task" .decomposes) with
          rfl | rfl
        · exact Or.inl ⟨e, rfl, rfl⟩
        · exact Or.inr ⟨rfl, by decide⟩
    | false =>
      rw [fallbackPatch_of_existing he hm] at h
      simp only [mem_append, mem_singleton, reduceCtorEq, or_false, DagPatchOp.addEdge.injEq] at h
      rcases h with (h | h) | rfl
      · obtain ⟨u, hu, -⟩ := mem_completeUpdates heid h
        cases hu
      · obtain ⟨u, hu, -⟩ := mem_stepUpdates hnodes h
        cases hu
      · refine Or.inr ⟨(parentEdge_known heid hnodes).1, ?_⟩
        unfold parentEdge stepEdge
        split <;> exact nofun

end Checked

/-! ### Either of the two -/

section Either
variable {sessionKey : String} {db : Db} {turn : DagTurn} {patch : DagPatch}

/-- The nodes that the fallback reads. -/
def graphNodes (sessionKey : String) (db : Db) : List DagNode := (readGraphForHistoryDag sessionKey db).nodes

theorem graphNodes_eq (sessionKey : String) (db : Db) :
    graphNodes sessionKey db = readNodes sessionKey db := rfl

/-- **A patch that the builder writes** for a turn. -/
inductive WrittenFor (sessionKey : String) (db : Db) (turn : DagTurn) : DagPatch → Prop
  | model (parsed : Json) (maxNodes : ℕ) {patch : DagPatch}
      (h : buildPatch parsed (readBuilderContext sessionKey db maxNodes) (turnGoal turn) = .ok patch) :
      WrittenFor sessionKey db turn patch
  | fallback : WrittenFor sessionKey db turn (fallbackPatch (graphNodes sessionKey db) turn)

section
variable (h : WellFormed sessionKey db)
include h

theorem rootTaskId_context {maxNodes : ℕ} {id : String}
    (hid : rootTaskId (readBuilderContext sessionKey db maxNodes) = some id) :
    ∃ root, selectRootTask (readNodes sessionKey db) = some root ∧ id = root.id := by
  cases hroot : selectRootTask (readNodes sessionKey db) with
  | none =>
    rw [context_of_no_root h hroot] at hid
    simp [rootTaskId] at hid
  | some root =>
    obtain ⟨hid, -⟩ := Option.filter_eq_some_iff.mp hid
    rw [(contextOk_of_root h.built hroot maxNodes).rootTaskId] at hid
    exact ⟨root, rfl, (Option.some.inj hid).symm⟩

theorem mem_contextNodeKinds {maxNodes : ℕ} {id : String}
    (hid : rootTaskId (readBuilderContext sessionKey db maxNodes) = some id) :
    id ∈ (contextNodeKinds (readBuilderContext sessionKey db maxNodes)).map (·.1) := by
  obtain ⟨root, hroot, rfl⟩ := rootTaskId_context h hid
  unfold contextNodeKinds
  rw [map_map]
  exact mem_map.mpr ⟨_, (contextOk_of_root h.built hroot maxNodes).mem, rfl⟩

theorem patchOk_fallbackPatch_graph (turn : DagTurn) :
    PatchOk ((graphNodes sessionKey db).map (·.id)) (fallbackPatch (graphNodes sessionKey db) turn) ∧
      (addedTasks (fallbackPatch (graphNodes sessionKey db) turn)).length ≤ 1 := by
  refine patchOk_fallbackPatch ?_ (fun n hn => mem_map.mpr ⟨n, hn, rfl⟩) turn
  intro id hid
  obtain ⟨n, hn, rfl⟩ := mem_map.mp hid
  obtain ⟨row, hrow, -, rfl⟩ := mem_readNodes.mp hn
  exact h.built.named (shape row) (mem_shapes.mpr ⟨row, hrow, rfl⟩)

/-- **What the builder writes is a checked patch** of nodes that are there, and adds one task at most. -/
theorem patchOk_of_written (hp : WrittenFor sessionKey db turn patch) :
    ∃ ids, PatchOk ids patch ∧ (∀ id ∈ ids, ∃ m ∈ db.nodes, m.id = id) ∧ (addedTasks patch).length ≤ 1 := by
  cases hp with
  | model parsed maxNodes hp =>
    obtain ⟨p, hvalid, hp⟩ := bind_eq_ok.mp hp
    obtain ⟨hok, hone⟩ := patchOk_of_normalized (validateDagPatch_ok hvalid)
      (fun id hid => mem_contextNodeKinds h hid) hp
    exact ⟨_, hok, fun id hid => exists_of_mem_context hid, hone⟩
  | fallback =>
    obtain ⟨hok, hone⟩ := patchOk_fallbackPatch_graph h turn
    refine ⟨_, hok, ?_, hone⟩
    intro id hid
    obtain ⟨n, hn, rfl⟩ := mem_map.mp hid
    obtain ⟨row, hrow, -, rfl⟩ := mem_readNodes.mp hn
    exact ⟨row, hrow, rfl⟩

end

end Either

end Memmy.SessionDag.Written
