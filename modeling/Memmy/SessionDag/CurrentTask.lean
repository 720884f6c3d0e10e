import Memmy.SessionDag.LastResort

/-! # The task that the fallback goes on with

The fallback takes the task that is not frozen and was written last, and puts its new step behind the open
step that was written last; the store takes the root. A commit that closes a task and adds the next one writes
both at one time, and the steps of a closed task can stay open, so the two can part.

* `existingTask_eq_root_iff`: when the two tasks are the same.
* `stepsFit_iff`, `stepBelowRoot_iff`: what the new step of an applied fallback is below.
* `goesOn_iff`: for every state of every history and every turn that the fallback commits. -/

namespace Memmy.SessionDag.CurrentTask

open Relation Lib.Reach Lib.Run Lib.Sort SessionDag.Types List SessionDag.PatchSchema
  SessionDag.Selection SessionDag.Store SessionDag.Builder SessionDag.Shape SessionDag.Invariant
  SessionDag.Progress SessionDag.Transition SessionDag.Completion SessionDag.Written
  SessionDag.History SessionDag.LastResort

/-! ### The property and the condition -/

/-- **`r` was written last** of the nodes that satisfy `p`; of several that were, it comes first. -/
def WrittenLast (p : DagNode → Prop) [DecidablePred p] (nodes : List DagNode) (r : DagNode) : Prop :=
  ∃ before after, nodes.filter p = before ++ r :: after ∧ (∀ n ∈ before, n.updatedAt < r.updatedAt) ∧
    ∀ n ∈ after, n.updatedAt ≤ r.updatedAt

def UnfrozenTask (n : DagNode) : Prop := n.kind = .task ∧ n.status ≠ .frozen

instance : DecidablePred UnfrozenTask := fun _ => inferInstanceAs (Decidable (_ ∧ _))

def OpenSubtask (n : DagNode) : Prop := n.kind = .subtask ∧ n.status.isOpen = true

instance : DecidablePred OpenSubtask := fun _ => inferInstanceAs (Decidable (_ ∧ _))

/-- No other task is before `r`: it is open; or none is, and of those written together with it it is the most
important one, and the first by its id among these. -/
def Foremost (nodes : List DagNode) (r : DagNode) : Prop :=
  r.status.isOpen = true ∨
    (openTasks nodes = [] ∧ ∀ n ∈ nodes, UnfrozenTask n → n ≠ r → n.updatedAt = r.updatedAt →
      n.importance < r.importance ∨ (n.importance = r.importance ∧ compare r.id n.id = .lt))

/-- The step is below the task, and below no other task. -/
def BelowOnly (nodes : List DagNode) (edges : List DagEdge) (taskId id : String) : Prop :=
  id ∈ taskSubgraphNodeIds taskId nodes edges ∧
    ∀ t ∈ tasksOf nodes, t.id ≠ taskId → id ∉ taskSubgraphNodeIds t.id nodes edges

/-- The turn goes on with the task: both have no goal, or the same one. -/
def KeepsTask (e : DagNode) (turn : DagTurn) : Prop :=
  match turnGoal turn with
  | some g => e.goalId = some g.goalId
  | none => truthy e.goalId = none

/-- **The new step of the fallback** is below the root, which is the new task if there is one, and below no
other task. -/
def StepBelowRoot (sessionKey : String) (db db' : Db) (turn : DagTurn) (run : PatchRun) : Prop :=
  ∃ id r, run.addedChildNodeIds = [id] ∧
    selectRootTask (graphNodes sessionKey
      (if mustCreateTask (graphNodes sessionKey db) turn then db' else db)) = some r ∧
    BelowOnly (graphNodes sessionKey db') (readEdges db') r.id id

/-- The turn gets a task of its own; or the open step that was written last is below the root only; or no
step is open, and the task that was written last is the foremost one. -/
def StepsFit (nodes : List DagNode) (edges : List DagEdge) (turn : DagTurn) : Prop :=
  ∃ e, WrittenLast UnfrozenTask nodes e ∧
    (¬ KeepsTask e turn ∨
      (∃ s r, WrittenLast OpenSubtask nodes s ∧ selectRootTask nodes = some r ∧
        BelowOnly nodes edges r.id s.id) ∨
      ((∀ n ∈ nodes, ¬ OpenSubtask n) ∧ Foremost nodes e))

/-! ### The two tasks -/

section Tasks
variable {nodes : List DagNode} {r e : DagNode}

theorem head?_sortBy_updatedAt (p : DagNode → Prop) [DecidablePred p] :
    (sortBy (descending (·.updatedAt)) (nodes.filter p)).head? = some r ↔ WrittenLast p nodes r := by
  rw [head?_sortBy_eq_some]
  unfold WrittenLast
  simp only [descending_eq_lt, descending_isLE]

theorem existingTask_iff : existingTask nodes = some e ↔ WrittenLast UnfrozenTask nodes e :=
  head?_sortBy_updatedAt UnfrozenTask

theorem activeSubtask_iff : activeSubtask nodes = some e ↔ WrittenLast OpenSubtask nodes e :=
  head?_sortBy_updatedAt OpenSubtask

theorem activeSubtask_eq_none_iff : activeSubtask nodes = none ↔ ∀ n ∈ nodes, ¬ OpenSubtask n := by
  unfold activeSubtask
  rw [head?_eq_none_iff, sortBy_eq_nil, filter_eq_nil_iff]
  simp only [decide_eq_true_eq, OpenSubtask]

theorem rootCandidates_of_none_open (hopen : openTasks nodes = []) (he : e ∈ nodes) (hu : UnfrozenTask e) :
    rootCandidates nodes = (tasksOf nodes).filter fun n => n.status ≠ .frozen := by
  have hne : (tasksOf nodes).filter (fun n => n.status ≠ .frozen) ≠ [] :=
    ne_nil_of_mem (mem_filter.mpr ⟨mem_tasksOf.mpr ⟨he, hu.1⟩, decide_eq_true hu.2⟩)
  have hfirst : (if openTasks nodes ≠ [] then openTasks nodes
      else (tasksOf nodes).filter fun n => n.status ≠ .frozen) =
        (tasksOf nodes).filter fun n => n.status ≠ .frozen := if_neg (not_not.mpr hopen)
  unfold rootCandidates
  rw [hfirst, if_pos hne]

/-- The order of the candidates that were written together. -/
theorem compareRoots_of_updatedAt {n : DagNode} (hat : n.updatedAt = r.updatedAt) :
    compareRoots r n = .lt ↔ n.importance < r.importance ∨
      (n.importance = r.importance ∧ compare r.id n.id = .lt) := by
  unfold compareRoots
  rw [compareLex_eq_lt, compareLex_eq_lt, descending_eq_lt, descending_eq_lt, descending_eq_eq, descending_eq_eq]
  constructor
  · rintro (hlt | ⟨-, hlt | ⟨heq, hid⟩⟩)
    · exact absurd hlt (by rw [hat]; exact lt_irrefl _)
    · exact Or.inl hlt
    · exact Or.inr ⟨heq.symm, hid⟩
  · rintro (hlt | ⟨heq, hid⟩)
    · exact Or.inr ⟨hat.symm, Or.inl hlt⟩
    · exact Or.inr ⟨hat.symm, Or.inr ⟨heq.symm, hid⟩⟩

theorem eq_of_compareRoots {n : DagNode} (h : compareRoots r n = .eq) : r.id = n.id := by
  unfold compareRoots compareLex at h
  rw [Ordering.then_eq_eq, Ordering.then_eq_eq] at h
  exact Std.compare_eq_iff_eq.mp h.2.2

theorem root_iff (hone : (openTasks nodes).length ≤ 1)
    (hids : ∀ n ∈ nodes, ∀ n' ∈ nodes, n.id = n'.id → n = n') (he : WrittenLast UnfrozenTask nodes e) :
    selectRootTask nodes = some e ↔ Foremost nodes e := by
  obtain ⟨hmem, hk, hs⟩ := existingTask_eq_some (existingTask_iff.mpr he)
  obtain ⟨before, after, hsplit, hbefore, hafter⟩ := he
  have hlast : ∀ n ∈ nodes, UnfrozenTask n → n.updatedAt ≤ e.updatedAt := by
    intro n hn hu
    have hn' : n ∈ nodes.filter UnfrozenTask := mem_filter.mpr ⟨hn, decide_eq_true hu⟩
    rw [hsplit] at hn'
    rcases mem_append.mp hn' with hn' | hn'
    · exact (hbefore n hn').le
    · rcases mem_cons.mp hn' with rfl | hn'
      · exact le_refl _
      · exact hafter n hn'
  by_cases hopen : e.status.isOpen = true
  · refine ⟨fun _ => Or.inl hopen, fun _ => ?_⟩
    have hin : e ∈ openTasks nodes := mem_openTasks.mpr ⟨hmem, hk, hopen⟩
    refine selectRootTask_of_lt ?_ fun n hn hne => ?_
    · unfold rootCandidates
      rw [if_pos (ne_nil_of_mem hin), if_pos (ne_nil_of_mem hin)]
      exact hin
    · unfold rootCandidates at hn
      rw [if_pos (ne_nil_of_mem hin), if_pos (ne_nil_of_mem hin)] at hn
      obtain ⟨x, hx⟩ := length_eq_one_iff.mp (le_antisymm hone (length_pos_of_mem hin))
      rw [hx, mem_singleton] at hn hin
      exact absurd (hn.trans hin.symm) hne
  · constructor
    · intro hroot
      rcases (selectRootTask_cases hroot).2.2 with ⟨ho, -⟩ | ⟨hnone, -, -⟩ | ⟨-, hfrozen, -⟩
      · exact absurd ho hopen
      · refine Or.inr ⟨hnone, fun n hn hu hne hat => ?_⟩
        obtain ⟨-, hle⟩ := head?_sortBy compareRoots hroot
        have hcmp := hle n (by
          rw [rootCandidates_of_none_open hnone hmem ⟨hk, hs⟩]
          exact mem_filter.mpr ⟨mem_tasksOf.mpr ⟨hn, hu.1⟩, decide_eq_true hu.2⟩)
        rw [← compareRoots_of_updatedAt hat]
        cases hres : compareRoots e n with
        | lt => rfl
        | eq => exact absurd (hids e hmem n hn (eq_of_compareRoots hres)).symm hne
        | gt =>
          rw [hres] at hcmp
          cases hcmp
      · exact absurd (hfrozen e (mem_tasksOf.mpr ⟨hmem, hk⟩)) hs
    · rintro (ho | ⟨hnone, hfirst⟩)
      · exact absurd ho hopen
      · refine head?_sortBy_of_lt compareRoots ?_ fun n hn hne => ?_
        · rw [rootCandidates_of_none_open hnone hmem ⟨hk, hs⟩]
          exact mem_filter.mpr ⟨mem_tasksOf.mpr ⟨hmem, hk⟩, decide_eq_true hs⟩
        · rw [rootCandidates_of_none_open hnone hmem ⟨hk, hs⟩, mem_filter, mem_tasksOf, decide_eq_true_eq] at hn
          obtain ⟨⟨hn, hnk⟩, hns⟩ := hn
          rcases (hlast n hn ⟨hnk, hns⟩).lt_or_eq with hlt | hat
          · exact compareLex_eq_lt_of_left (descending_eq_lt.mpr hlt)
          · exact (compareRoots_of_updatedAt hat).mpr (hfirst n hn ⟨hnk, hns⟩ hne hat)

/-- **When the two rules agree.** -/
theorem existingTask_eq_root_iff (hone : (openTasks nodes).length ≤ 1)
    (hids : ∀ n ∈ nodes, ∀ n' ∈ nodes, n.id = n'.id → n = n') (hex : ∃ n ∈ nodes, UnfrozenTask n) :
    existingTask nodes = selectRootTask nodes ↔ ∃ e, WrittenLast UnfrozenTask nodes e ∧ Foremost nodes e := by
  constructor
  · intro heq
    cases he : existingTask nodes with
    | none =>
      obtain ⟨n, hn, hk, hs⟩ := hex
      exact absurd (existingTask_eq_none he n hn hk) hs
    | some e =>
      have hlast := existingTask_iff.mp he
      exact ⟨e, hlast, (root_iff hone hids hlast).mp (heq.symm.trans he)⟩
  · rintro ⟨e, hlast, hfirst⟩
    rw [existingTask_iff.mpr hlast, (root_iff hone hids hlast).mpr hfirst]

theorem mustCreateTask_iff {turn : DagTurn} (he : existingTask nodes = some e) :
    mustCreateTask nodes turn = true ↔ ¬ KeepsTask e turn := by
  rw [mustCreateTask_of_some turn he]
  unfold KeepsTask
  cases turnGoal turn with
  | none => cases truthy e.goalId <;> simp
  | some g => simp

end Tasks

/-! ### What the fallback connects -/

section Patch
variable {nodes : List DagNode} {turn : DagTurn} {e : DagNode}

/-- The edge to the new step. -/
def connectEdge (nodes : List DagNode) (turn : DagTurn) (e : DagNode) : AddEdgePatchOp :=
  if mustCreateTask nodes turn then stepEdge "fallback_task" .decomposes else parentEdge nodes e

theorem target_connectEdge : (connectEdge nodes turn e).targetId = "fallback_subtask" := by
  unfold connectEdge parentEdge
  split_ifs
  · rfl
  · split <;> rfl

theorem addNodes_fallbackPatch (he : existingTask nodes = some e) :
    (fallbackPatch nodes turn).filterMap DagPatchOp.addNode? =
      if mustCreateTask nodes turn then [fallbackTask turn, fallbackSubtask turn]
      else [fallbackSubtask turn] := by
  have hupdates : ∀ {ops : DagPatch}, (∀ op ∈ ops, ∃ u, op = .updateNode u) →
      ops.filterMap DagPatchOp.addNode? = [] := fun h => filterMap_eq_nil_iff.mpr fun op hop => by
    obtain ⟨u, rfl⟩ := h op hop
    rfl
  cases hm : mustCreateTask nodes turn with
  | true =>
    rw [fallbackPatch_of_new he hm, filterMap_append, hupdates fun op hop => by
      obtain ⟨u, rfl, -⟩ := mem_closeUpdates (mem_singleton_self e.id) hop
      exact ⟨u, rfl⟩]
    rfl
  | false =>
    have hcomplete : (completeUpdates nodes turn e).filterMap DagPatchOp.addNode? = [] :=
      hupdates fun op hop => by
        obtain ⟨u, rfl, -⟩ := mem_completeUpdates (mem_singleton_self e.id) hop
        exact ⟨u, rfl⟩
    have hsteps : (stepUpdates nodes turn).filterMap DagPatchOp.addNode? = [] :=
      hupdates fun op hop => by
        obtain ⟨u, rfl, -⟩ := mem_stepUpdates
          (fun n hn => (mem_map_of_mem hn : n.id ∈ nodes.map (·.id))) hop
        exact ⟨u, rfl⟩
    rw [fallbackPatch_of_existing he hm, filterMap_append, filterMap_append,
      filterMap_append, hcomplete, hsteps]
    rfl

theorem addEdge_mem_fallbackPatch (he : existingTask nodes = some e) {op : AddEdgePatchOp} :
    .addEdge op ∈ fallbackPatch nodes turn ↔
      (mustCreateTask nodes turn = true ∧ op = taskEdge e) ∨ op = connectEdge nodes turn e := by
  unfold connectEdge
  cases hm : mustCreateTask nodes turn with
  | true =>
    have hclose : .addEdge op ∉ closeUpdates e := fun hop => by
      obtain ⟨u, hu, -⟩ := mem_closeUpdates (mem_singleton_self e.id) hop
      cases hu
    rw [fallbackPatch_of_new he hm, mem_append]
    simp [hclose]
  | false =>
    have hcomplete : .addEdge op ∉ completeUpdates nodes turn e := fun hop => by
      obtain ⟨u, hu, -⟩ := mem_completeUpdates (mem_singleton_self e.id) hop
      cases hu
    have hsteps : .addEdge op ∉ stepUpdates nodes turn := fun hop => by
      obtain ⟨u, hu, -⟩ := mem_stepUpdates
        (fun n hn => (mem_map_of_mem hn : n.id ∈ nodes.map (·.id))) hop
      cases hu
    rw [fallbackPatch_of_existing he hm]
    simp [hcomplete, hsteps]

end Patch

/-! ### What is below a task -/

section Below
variable {sessionKey : String} {db : Db} {ns ns' : List NodeShape} {es es' : List DagEdge} {x y t id : String}

def StepTo (ns : List NodeShape) (es : List DagEdge) (x y : String) : Prop :=
  Linked es x y ∧ ∃ n ∈ ns, n.id = y ∧ n.kind ≠ .task

/-- `BelowOnly`, on the rows. -/
def UnderOnly (ns : List NodeShape) (es : List DagEdge) (taskId id : String) : Prop :=
  ReflTransGen (StepTo ns es) taskId id ∧
    ∀ n ∈ ns, n.kind = .task → n.id ≠ taskId → ¬ ReflTransGen (StepTo ns es) n.id id

section
variable (hb : Built sessionKey (shapes db) db.edges)
include hb

theorem isStep_iff :
    isStep (readNodes sessionKey db) y = true ↔ ∃ n ∈ shapes db, n.id = y ∧ n.kind ≠ .task := by
  constructor
  · intro h
    unfold isStep at h
    split at h
    · next n hn =>
      obtain ⟨hmem, hid⟩ := byId_eq_some hn
      exact exists_shape_of_readNodes (p := fun m => m.id = y ∧ m.kind ≠ .task)
        ⟨n, hmem, hid, of_decide_eq_true h⟩
    · cases h
  · rintro ⟨m, hm, rfl, hk⟩
    obtain ⟨n, hn, rfl⟩ := mem_shapes.mp hm
    exact isStep_of_byId (n := parseNodeRow n) (byId_readNodes hb (parse_mem_readNodes hb hn)) hk

theorem mem_taskSubgraphNodeIds_iff : id ∈ taskSubgraphNodeIds t (readNodes sessionKey db) (readEdges db) ↔
      ReflTransGen (StepTo (shapes db) db.edges) t id := by
  have hstep : Step (·.sourceId) (·.targetId) (isStep (readNodes sessionKey db)) (readEdges db) =
      StepTo (shapes db) db.edges := by
    funext a b
    refine propext ⟨?_, ?_⟩
    · rintro ⟨e, he, hs, ht, hk⟩
      exact ⟨linked_iff.mpr ⟨e, mem_readEdges.mp he, hs, ht⟩, (isStep_iff hb).mp hk⟩
    · rintro ⟨hlink, hk⟩
      obtain ⟨e, he, hs, ht⟩ := linked_iff.mp hlink
      exact ⟨e, mem_readEdges.mpr he, hs, ht, (isStep_iff hb).mpr hk⟩
  unfold taskSubgraphNodeIds
  rw [mem_reach_iff, hstep]
  simp only [mem_singleton, exists_eq_left]

theorem belowOnly_iff :
    BelowOnly (readNodes sessionKey db) (readEdges db) t id ↔ UnderOnly (shapes db) db.edges t id := by
  unfold BelowOnly UnderOnly
  simp only [mem_taskSubgraphNodeIds_iff hb]
  refine and_congr_right fun _ => ⟨fun h m hm hk hne => ?_, fun h n hn hne => ?_⟩
  · obtain ⟨n, hn, rfl⟩ := mem_shapes.mp hm
    exact h (parseNodeRow n) (mem_tasksOf.mpr ⟨parse_mem_readNodes hb hn, hk⟩) hne
  · obtain ⟨hn, hk⟩ := mem_tasksOf.mp hn
    obtain ⟨row, hrow, -, rfl⟩ := mem_readNodes.mp hn
    exact h (shape row) (mem_shapes.mpr ⟨row, hrow, rfl⟩) hk hne

end

/-- **Nothing but a task is above itself.** -/
theorem reached_task (hids : (ns.map (·.id)).Nodup) {n : NodeShape} (hn : n ∈ ns) (hk : n.kind = .task)
    (h : ReflTransGen (StepTo ns es) x n.id) : x = n.id := by
  rcases ReflTransGen.cases_tail h with heq | ⟨z, -, -, m, hm, hid, hmk⟩
  · exact heq.symm
  · rw [inj_on_of_nodup_map hids hm hn hid] at hmk
    exact absurd hk hmk

theorem underOnly_task (hids : (ns.map (·.id)).Nodup) {n : NodeShape} (hn : n ∈ ns) (hk : n.kind = .task) :
    UnderOnly ns es t n.id ↔ t = n.id := by
  constructor
  · exact fun h => reached_task hids hn hk h.1
  · rintro rfl
    exact ⟨ReflTransGen.refl, fun m _ _ hne hm => hne (reached_task hids hn hk hm)⟩

/-- **A new step with one parent** is below what the parent is below. -/
theorem reached_of_parent (hp : StepTo ns es x y) (honly : ∀ e ∈ es, e.targetId = y → e.sourceId = x)
    (hne : t ≠ y) : ReflTransGen (StepTo ns es) t y ↔ ReflTransGen (StepTo ns es) t x := by
  rw [reflTransGen_of_parent hp fun z hz => ?_]
  · exact or_iff_right hne
  · obtain ⟨e, he, rfl, ht⟩ := linked_iff.mp hz.1
    exact honly e he ht

theorem underOnly_of_parent (hp : StepTo ns es x y) (honly : ∀ e ∈ es, e.targetId = y → e.sourceId = x)
    (hsteps : ∀ n ∈ ns, n.kind = .task → n.id ≠ y) (hne : t ≠ y) :
    UnderOnly ns es t y ↔ UnderOnly ns es t x := by
  unfold UnderOnly
  rw [reached_of_parent hp honly hne]
  refine and_congr_right fun _ => forall₂_congr fun n hn => forall_congr' fun hk => ?_
  rw [reached_of_parent hp honly (hsteps n hn hk)]

/-- **The graph has grown**: nothing new leads to a node that was there. -/
structure Grown (ns ns' : List NodeShape) (es es' : List DagEdge) : Prop where
  nodes : ∀ n ∈ ns, n ∈ ns'
  fresh : ∀ n ∈ ns', (∃ m ∈ ns, m.id = n.id) → n ∈ ns
  edges : ∀ e ∈ es, e ∈ es'
  sources : ∀ e ∈ es, ∃ n ∈ ns, n.id = e.sourceId
  targets : ∀ e ∈ es', (∃ n ∈ ns, n.id = e.targetId) → e ∈ es

theorem Grown.reached_iff (h : Grown ns ns' es es') (hy : ∃ n ∈ ns, n.id = y) :
    ReflTransGen (StepTo ns' es') x y ↔ ReflTransGen (StepTo ns es) x y := by
  constructor
  · intro hreach
    have hstep : ∀ a b, StepTo ns' es' a b → (∃ n ∈ ns, n.id = b) → StepTo ns es a b ∧ ∃ n ∈ ns, n.id = a := ?_
    · exact reflTransGen_of_old hstep hreach hy
    rintro a b ⟨hlink, n, hn, rfl, hk⟩ hold
    obtain ⟨e, he, rfl, ht⟩ := linked_iff.mp hlink
    have he := h.targets e he (by rw [ht]; exact hold)
    exact ⟨⟨linked_iff.mpr ⟨e, he, rfl, ht⟩, n, h.fresh n hn hold, rfl, hk⟩, h.sources e he⟩
  · refine ReflTransGen.mono ?_ x y
    rintro a b ⟨hlink, n, hn, hid, hk⟩
    exact ⟨linked_mono h.edges hlink, n, h.nodes n hn, hid, hk⟩

theorem Grown.underOnly_iff (h : Grown ns ns' es es') (htasks : ∀ n ∈ ns', n.kind = .task → n ∈ ns)
    (hy : ∃ n ∈ ns, n.id = y) : UnderOnly ns' es' t y ↔ UnderOnly ns es t y := by
  unfold UnderOnly
  rw [h.reached_iff hy]
  refine and_congr_right fun _ => ⟨fun hall n hn hk hne => ?_, fun hall n hn hk hne => ?_⟩
  · rw [← h.reached_iff hy]
    exact hall n (h.nodes n hn) hk hne
  · rw [h.reached_iff hy]
    exact hall n (htasks n hn hk) hk hne

end Below

/-! ### What the fallback leaves -/

section Applied
variable {sessionKey : String} {env : Env} {db : Db} {turn turnRow : DagTurn}
  {goal : Option DagGoalContext} {run : PatchRun} {olds news : List DagNode} {e : DagNode}

/-- The temporary names are no ids of nodes. -/
theorem target_ne_old (h : WellFormed sessionKey db) {op : AddEdgePatchOp}
    (hop : .addEdge op ∈ fallbackPatch (graphNodes sessionKey db) turn) {m : DagNode} (hm : m ∈ db.nodes) :
    op.targetId ≠ m.id := by
  obtain ⟨hne1, hne2⟩ := ne_fallback h (parse_mem_readNodes h.built hm)
  rcases mem_fallbackPatch_addEdge hop with ⟨e, -, rfl⟩ | ⟨ht, -⟩
  · exact hne1.symm
  · rw [ht]
    exact hne2.symm

theorem grown_of_ran (h : WellFormed sessionKey db)
    (hran : Ran sessionKey env turnRow goal db (fallbackPatch (graphNodes sessionKey db) turn) run olds news) :
    Grown (shapes db) (shapes run.db) db.edges run.db.edges where
  nodes := hran.loop.oldNodes
  fresh := by
    rintro n hn ⟨m, hm, hid⟩
    rwa [← inj_on_of_nodup_map hran.loop.built.ids (hran.loop.oldNodes m hm) hn hid]
  edges := hran.loop.oldEdges
  sources := fun e he => (h.built.joins e he).2.1
  targets := by
    rintro e he ⟨s, hs, hid⟩
    obtain ⟨m, hm, rfl⟩ := mem_shapes.mp hs
    obtain ⟨es, hes, hall⟩ := hran.edges
    rw [hes] at he
    rcases mem_append.mp he with he | he
    · exact he
    · exfalso
      obtain ⟨-, -, op, hop, -, -, htemp | ⟨hname, -⟩⟩ := hall e he
      · obtain ⟨-, n, hn, hnid⟩ := hran.mem_tempNodeIds htemp
        exact hran.new_ne_old hn hm (hnid.trans hid.symm)
      · exact target_ne_old h hop hm (hname.trans hid.symm)

/-- **The new step**, and its one parent. -/
theorem exists_step (h : WellFormed sessionKey db) (he : existingTask (graphNodes sessionKey db) = some e)
    (hran : Ran sessionKey env turnRow goal db (fallbackPatch (graphNodes sessionKey db) turn) run olds news) :
    ∃ n ∈ news, n.kind ≠ .task ∧ run.addedChildNodeIds = [n.id] ∧
      (∃ p, Names db run.tempNodeIds (connectEdge (graphNodes sessionKey db) turn e).sourceId p ∧
        Linked run.db.edges p n.id) ∧
      ∀ edge ∈ run.db.edges, edge.targetId = n.id →
        Names db run.tempNodeIds (connectEdge (graphNodes sessionKey db) turn e).sourceId edge.sourceId := by
  obtain ⟨hok, -⟩ := patchOk_fallbackPatch_graph h turn
  have hrows := hran.newRows
  rw [addNodes_fallbackPatch he] at hrows
  have hstep : (fallbackSubtask turn).kind ≠ .task := nofun
  obtain ⟨n, hn, hrow, hadded⟩ : ∃ n ∈ news, NewRow sessionKey env goal (fallbackSubtask turn) n ∧
      news.filter (fun n => n.kind ≠ .task) = [n] := by
    split_ifs at hrows
    · obtain ⟨t, u, ht, hu, rfl⟩ := List.forall₂_cons_left_iff.mp hrows
      obtain ⟨n, u, hn, hu', rfl⟩ := List.forall₂_cons_left_iff.mp hu
      obtain rfl := List.forall₂_nil_left_iff.mp hu'
      have htk : t.kind = .task := ht.kind
      have hnk : n.kind ≠ .task := by rw [hn.kind]; exact hstep
      exact ⟨n, by simp, hn, by simp [htk, hnk]⟩
    · obtain ⟨n, u, hn, hu, rfl⟩ := List.forall₂_cons_left_iff.mp hrows
      obtain rfl := List.forall₂_nil_left_iff.mp hu
      have hnk : n.kind ≠ .task := by rw [hn.kind]; exact hstep
      exact ⟨n, by simp, hn, by simp [hnk]⟩
  have hk : n.kind ≠ .task := by rw [hrow.kind]; exact hstep
  have htemp : ("fallback_subtask", n.id) ∈ run.tempNodeIds := by
    obtain ⟨op, hop, hrow', htemp⟩ := hran.of_new hn
    rcases mem_fallbackPatch_addNode hop with rfl | rfl
    · exact absurd hrow'.kind hk
    · exact htemp
  refine ⟨n, hn, hk, by rw [hran.addedChildren, hadded]; rfl, ?_, ?_⟩
  · obtain ⟨edge, hedge, -, hs, ht⟩ := hran.linked _ ((addEdge_mem_fallbackPatch he).mpr (Or.inr rfl))
    refine ⟨edge.sourceId, hs, linked_iff.mpr ⟨edge, hedge, rfl, ?_⟩⟩
    rw [target_connectEdge] at ht
    rcases ht with ht | ⟨hname, m, hm, hid⟩
    · exact hran.snd_eq_of_temp hok.temps ht htemp
    · exact absurd (hid.trans hname.symm) (ne_fallback h (parse_mem_readNodes h.built hm)).2
  · intro edge hedge ht
    obtain ⟨es, hes, hall⟩ := hran.edges
    rw [hes] at hedge
    rcases mem_append.mp hedge with hedge | hedge
    · obtain ⟨-, -, s, hs, hid⟩ := h.built.joins edge hedge
      obtain ⟨m, hm, rfl⟩ := mem_shapes.mp hs
      exact absurd (ht.symm.trans hid.symm) (hran.new_ne_old hn hm)
    · obtain ⟨-, -, op, hop, -, hs, htarget⟩ := hall edge hedge
      rw [ht] at htarget
      have hname := hran.eq_of_names htarget htemp
      rcases (addEdge_mem_fallbackPatch he).mp hop with ⟨-, rfl⟩ | rfl
      · exact absurd hname (by decide +kernel : ("fallback_task" : String) ≠ "fallback_subtask")
      · exact hs

/-- **The tables that are left**: the ids and kinds are those after the operations. -/
theorem graph_appliedDb (options : ApplyDagPatchOptions) (goalTask : Option DagNode) :
    shapes (appliedDb env options run goalTask) = shapes run.db ∧
      (appliedDb env options run goalTask).edges = run.db.edges := by
  cases goalTask with
  | none => exact ⟨rfl, rfl⟩
  | some task => exact ⟨shapes_setNode run.db task.id fun _ => rfl, rfl⟩

/-- **The step of the fallback goes on** below the open step, or below the existing task. -/
theorem underOnly_continued (h : WellFormed sessionKey db)
    (he : existingTask (graphNodes sessionKey db) = some e)
    (hm : mustCreateTask (graphNodes sessionKey db) turn = false)
    (hran : Ran sessionKey env turnRow goal db (fallbackPatch (graphNodes sessionKey db) turn) run olds news) :
    ∃ n ∈ news, run.addedChildNodeIds = [n.id] ∧ ∀ m ∈ db.nodes,
      (UnderOnly (shapes run.db) run.db.edges m.id n.id ↔ UnderOnly (shapes db) db.edges m.id
        (parentEdge (graphNodes sessionKey db) e).sourceId) := by
  obtain ⟨hok, -⟩ := patchOk_fallbackPatch_graph h turn
  obtain ⟨n, hn, hk, hadded, ⟨p, hp, hlink⟩, honly⟩ := exists_step h he hran
  obtain ⟨parent, hparent, hpid⟩ := exists_parent he
  have hconnect : connectEdge (graphNodes sessionKey db) turn e = parentEdge (graphNodes sessionKey db) e := by
    unfold connectEdge
    rw [hm]
    rfl
  rw [hconnect, ← hpid] at hp honly
  rw [names_old h.built hran hok hparent hp] at hlink
  have hnmem : shape n ∈ shapes run.db :=
    mem_shapes.mpr ⟨n, by rw [hran.nodes]; exact mem_append_right _ hn, rfl⟩
  have hgrown := grown_of_ran h hran
  have htasks : ∀ m ∈ shapes run.db, m.kind = .task → m ∈ shapes db := by
    intro m hm' hmk
    obtain ⟨row, hrow, rfl⟩ := mem_shapes.mp hm'
    rw [hran.nodes] at hrow
    rcases mem_append.mp hrow with hrow | hrow
    · obtain ⟨old, hold, hrow⟩ := hran.of_old hrow
      exact mem_shapes.mpr ⟨old, hold, hrow.shape.symm⟩
    · have hempty : run.addedTaskNodeIds = [] := by
        rw [← length_eq_zero_iff, length_addedTaskNodeIds hran, addedTasks_fallbackPatch, hm]
        rfl
      rw [hran.addedTasks, map_eq_nil_iff, filter_eq_nil_iff] at hempty
      exact absurd (decide_eq_true hmk) (hempty row hrow)
  refine ⟨n, hn, hadded, fun m hm' => ?_⟩
  rw [underOnly_of_parent ⟨hlink, shape n, hnmem, rfl, hk⟩
      (fun edge hedge ht => names_old h.built hran hok hparent (honly edge hedge ht)) ?_
      (hran.new_ne_old hn hm').symm,
    hgrown.underOnly_iff htasks (y := parent.id)
      ⟨shape parent, mem_shapes.mpr ⟨parent, hparent, rfl⟩, rfl⟩, hpid]
  intro t ht htk hid
  obtain ⟨row, hrow, rfl⟩ := mem_shapes.mp (htasks t ht htk)
  exact hran.new_ne_old hn hrow hid.symm

/-- **A new task of the fallback** is the root, and the step is below it. -/
theorem underOnly_created (h : WellFormed sessionKey db)
    (he : existingTask (graphNodes sessionKey db) = some e)
    (hm : mustCreateTask (graphNodes sessionKey db) turn = true)
    (hran : Ran sessionKey env turnRow goal db (fallbackPatch (graphNodes sessionKey db) turn) run olds news) :
    ∃ t ∈ news, ∃ n ∈ news, t.kind = .task ∧ t.status.isOpen = true ∧ run.addedChildNodeIds = [n.id] ∧
      UnderOnly (shapes run.db) run.db.edges t.id n.id := by
  obtain ⟨hok, -⟩ := patchOk_fallbackPatch_graph h turn
  obtain ⟨n, hn, hk, hadded, ⟨p, hp, hlink⟩, honly⟩ := exists_step h he hran
  obtain ⟨t, ht, hrow, htemp, htk, -⟩ := exists_addedTask hran (by rw [addedTasks_fallbackPatch, if_pos hm])
  have hconnect : (connectEdge (graphNodes sessionKey db) turn e).sourceId = "fallback_task" := by
    unfold connectEdge
    rw [hm]
    rfl
  have hnames : ∀ {id}, Names db run.tempNodeIds "fallback_task" id → id = t.id := by
    rintro id (hid | ⟨hname, m, hm, hid⟩)
    · exact hran.snd_eq_of_temp hok.temps hid htemp
    · exact absurd (hid.trans hname.symm) (ne_fallback h (parse_mem_readNodes h.built hm)).1
  rw [hconnect] at hp honly
  rw [hnames hp] at hlink
  have hmem : ∀ m ∈ news, shape m ∈ shapes run.db := fun m hm' =>
    mem_shapes.mpr ⟨m, by rw [hran.nodes]; exact mem_append_right _ hm', rfl⟩
  have hids := hran.loop.built.ids
  have hne : ∀ m ∈ shapes run.db, m.kind = .task → m.id ≠ n.id := by
    intro m hm' hmk hid
    rw [inj_on_of_nodup_map hids hm' (hmem n hn) hid] at hmk
    exact hk hmk
  refine ⟨t, ht, n, hn, htk, by rw [hrow.status]; exact openTask_fallbackTask turn, hadded, ?_⟩
  rw [underOnly_of_parent ⟨hlink, shape n, hmem n hn, rfl, hk⟩
    (fun edge hedge ht => hnames (honly edge hedge ht)) hne (t := t.id)
    (hne (shape t) (hmem t ht) htk)]
  exact (underOnly_task hids (hmem t ht) htk).mpr rfl

end Applied

/-! ### Every state of every history -/

section Committed
variable {sessionKey : String} {env : Env} {db db' : Db} {turn : DagTurn} {run : PatchRun} {e : DagNode}

theorem length_openTasks_graph (h : WellFormed sessionKey db) : (openTasks (graphNodes sessionKey db)).length ≤ 1 := by
  rw [graphNodes_eq, length_openTasks_readNodes h.built.keys]
  exact h.oneOpen

theorem root_of_open (h : WellFormed sessionKey db) {t : DagNode} (ht : t ∈ db.nodes) (hk : t.kind = .task)
    (hopen : t.status.isOpen = true) : selectRootTask (graphNodes sessionKey db) = some (parseNodeRow t) := by
  have hin : parseNodeRow t ∈ openTasks (graphNodes sessionKey db) :=
    mem_openTasks.mpr ⟨parse_mem_readNodes h.built ht, hk, hopen⟩
  have hcandidates : rootCandidates (graphNodes sessionKey db) = openTasks (graphNodes sessionKey db) := by
    unfold rootCandidates
    rw [if_pos (ne_nil_of_mem hin), if_pos (ne_nil_of_mem hin)]
  obtain ⟨x, hx⟩ := length_eq_one_iff.mp
    (le_antisymm (length_openTasks_graph h) (length_pos_of_mem hin))
  rw [hx, mem_singleton] at hin
  refine selectRootTask_of_lt ?_ fun n hn hne => ?_
  · rw [hcandidates, hx, hin]
    exact mem_singleton_self x
  · rw [hcandidates, hx, mem_singleton] at hn
    exact absurd (hn.trans hin.symm) hne

theorem goalTask_eq_none {edges : List DagEdge} {turnId : String}
    {root goalTask : Option DagNode} {added : List String}
    (h : assertGoalBoundary nodes edges turnId none root added = .ok goalTask) : goalTask = none := by
  unfold assertGoalBoundary at h
  dsimp only at h
  split at h
  · cases h
  · split at h
    · split_ifs at h
      exact (Except.ok.inj h).symm
    · exact (Except.ok.inj h).symm

/-- **Whether the steps fit** is whether the parent of the new one is below the root only. -/
theorem stepsFit_iff (h : WellFormed sessionKey db) (he : existingTask (graphNodes sessionKey db) = some e)
    (hm : mustCreateTask (graphNodes sessionKey db) turn = false) :
    StepsFit (graphNodes sessionKey db) (readEdges db) turn ↔
      ∃ r, selectRootTask (graphNodes sessionKey db) = some r ∧
        UnderOnly (shapes db) db.edges r.id (parentEdge (graphNodes sessionKey db) e).sourceId := by
  have hids : ∀ n ∈ graphNodes sessionKey db, ∀ n' ∈ graphNodes sessionKey db, n.id = n'.id → n = n' :=
    fun n hn n' hn' hid => eq_of_id_readNodes h.built hn hn' hid
  have hroot := root_iff (length_openTasks_graph h) hids (existingTask_iff.mp he)
  have hkeeps : KeepsTask e turn := by
    by_contra hk
    rw [(mustCreateTask_iff he).mpr hk] at hm
    cases hm
  have hfit : StepsFit (graphNodes sessionKey db) (readEdges db) turn ↔
      (∃ s r, WrittenLast OpenSubtask (graphNodes sessionKey db) s ∧
        selectRootTask (graphNodes sessionKey db) = some r ∧
          BelowOnly (graphNodes sessionKey db) (readEdges db) r.id s.id) ∨
      ((∀ n ∈ graphNodes sessionKey db, ¬ OpenSubtask n) ∧ Foremost (graphNodes sessionKey db) e) := by
    constructor
    · rintro ⟨e', he', hrest⟩
      rw [← existingTask_iff, he, Option.some.injEq] at he'
      rw [← he'] at hrest
      exact hrest.resolve_left (not_not.mpr hkeeps)
    · exact fun hrest => ⟨e, existingTask_iff.mp he, Or.inr hrest⟩
  rw [hfit]
  unfold parentEdge
  cases hs : activeSubtask (graphNodes sessionKey db) with
  | some s =>
    have hlast := activeSubtask_iff.mp hs
    constructor
    · rintro (⟨s', r, hs', hr, hbelow⟩ | ⟨hnone, -⟩)
      · rw [← activeSubtask_iff, hs, Option.some.injEq] at hs'
        rw [← hs'] at hbelow
        exact ⟨r, hr, (belowOnly_iff h.built).mp hbelow⟩
      · rw [activeSubtask_eq_none_iff.mpr hnone] at hs
        cases hs
    · rintro ⟨r, hr, hunder⟩
      exact Or.inl ⟨s, r, hlast, hr, (belowOnly_iff h.built).mpr hunder⟩
  | none =>
    obtain ⟨hmem, hk, -⟩ := existingTask_eq_some he
    obtain ⟨row, hrow, -, rfl⟩ := mem_readNodes.mp hmem
    have hunder : ∀ {t}, UnderOnly (shapes db) db.edges t (parseNodeRow row).id ↔ t = (parseNodeRow row).id :=
      underOnly_task h.built.ids (n := shape row) (mem_shapes.mpr ⟨row, hrow, rfl⟩) hk
    have hnone := activeSubtask_eq_none_iff.mp hs
    constructor
    · rintro (⟨s', r, hs', -⟩ | ⟨-, hfirst⟩)
      · rw [activeSubtask_iff.mpr hs'] at hs
        cases hs
      · exact ⟨_, hroot.mpr hfirst, hunder.mpr rfl⟩
    · rintro ⟨r, hr, hr'⟩
      refine Or.inr ⟨hnone, hroot.mp ?_⟩
      rw [hr, hids r (selectRootTask_cases hr).1 _ hmem (hunder.mp hr')]

/-- **What an applied fallback leaves.** -/
theorem stepBelowRoot_iff (h : WellFormed sessionKey db) (he : existingTask (graphNodes sessionKey db) = some e)
    (hgoal : mustCreateTask (graphNodes sessionKey db) turn = true → turnGoal turn = none)
    (hop : applyDeterministicFallback sessionKey env db turn = .ok (db', run)) :
    StepBelowRoot sessionKey db db' turn run ↔ StepsFit (graphNodes sessionKey db) (readEdges db) turn := by
  obtain ⟨hok, -⟩ := patchOk_fallbackPatch_graph h turn
  have hwf' : WellFormed sessionKey db' := wellFormed_applyPatch h hop
  obtain ⟨db₁, turnRow, olds, news, goalTask, ha, hdb'⟩ :=
    applied_of_applyPatch h hok (fun _ hid => exists_of_mem_graph hid) hop
  obtain ⟨hn₁, he₁⟩ := upsertTurn_graph ha.upsert
  have h₁ : WellFormed sessionKey db₁ := h.congr hn₁ he₁
  have hnodes := graphNodes_congr sessionKey hn₁
  have hran : Ran sessionKey env turnRow (turnGoal turn) db₁
      (fallbackPatch (graphNodes sessionKey db₁) turn) run olds news := by
    rw [hnodes]
    exact ha.ran
  obtain ⟨hshapes, hedges⟩ := @graph_appliedDb env run
    { turn := turnToInput turn, patch := fallbackPatch (graphNodes sessionKey db) turn
      buildMode := .deterministicFallback, writeSource := .deterministicFallback } goalTask
  have hbelow : ∀ {t id}, BelowOnly (graphNodes sessionKey db') (readEdges db') t id ↔
      UnderOnly (shapes run.db) run.db.edges t id := by
    intro t id
    rw [← hshapes, ← hedges, graphNodes_eq sessionKey db', belowOnly_iff hwf'.built, hdb']
    rfl
  cases hm : mustCreateTask (graphNodes sessionKey db) turn with
  | true =>
    have hfits : StepsFit (graphNodes sessionKey db) (readEdges db) turn :=
      ⟨e, existingTask_iff.mp he, Or.inl ((mustCreateTask_iff he).mp hm)⟩
    obtain ⟨t, ht, n, hn, hk, hopen, hadded, hunder⟩ :=
      underOnly_created h₁ (by rw [hnodes]; exact he) (by rw [hnodes]; exact hm) hran
    have hnone : goalTask = none := by
      have hb := ha.boundary
      rw [show (turnToInput turn).goalContext = none from hgoal hm] at hb
      exact goalTask_eq_none hb
    have htmem : t ∈ db'.nodes := by
      rw [hdb', hnone]
      change t ∈ run.db.nodes
      rw [hran.nodes]
      exact mem_append_right _ ht
    refine iff_of_true ⟨n.id, parseNodeRow t, hadded, ?_, hbelow.mpr hunder⟩ hfits
    rw [if_pos hm]
    exact root_of_open hwf' htmem hk hopen
  | false =>
    obtain ⟨n, hn, hadded, hunder⟩ :=
      underOnly_continued h₁ (by rw [hnodes]; exact he) (by rw [hnodes]; exact hm) hran
    rw [stepsFit_iff h he hm]
    rw [hnodes, he₁, show shapes db₁ = shapes db from congrArg (List.map shape) hn₁, hn₁] at hunder
    constructor
    · rintro ⟨id, r, hid, hr, hstep⟩
      rw [hadded, List.cons.injEq] at hid
      rw [if_neg (by rw [hm]; simp)] at hr
      rw [← hid.1, hbelow] at hstep
      obtain ⟨row, hrow, -, rfl⟩ := mem_readNodes.mp (selectRootTask_cases hr).1
      exact ⟨_, hr, (hunder row hrow).mp hstep⟩
    · rintro ⟨r, hr, hstep⟩
      obtain ⟨row, hrow, -, rfl⟩ := mem_readNodes.mp (selectRootTask_cases hr).1
      refine ⟨n.id, parseNodeRow row, hadded, ?_, hbelow.mpr ((hunder row hrow).mpr hstep)⟩
      rw [if_neg (by rw [hm]; simp)]
      exact hr

/-- **The task that the fallback goes on with**, in every state of every history: it is the root exactly when
the task that was written last is the foremost one; and the step of an applied fallback is below the root exactly
when the steps fit. -/
theorem goesOn_iff (sessionKey : String) (history : List BuildStep) {db : Db}
    (hdb : db ∈ visited (buildStep sessionKey) {} history)
    (hex : ∃ n ∈ graphNodes sessionKey db, UnfrozenTask n) :
    (existingTask (graphNodes sessionKey db) = selectRootTask (graphNodes sessionKey db) ↔
      ∃ e, WrittenLast UnfrozenTask (graphNodes sessionKey db) e ∧ Foremost (graphNodes sessionKey db) e) ∧
    ∀ turn env db' run,
      (mustCreateTask (graphNodes sessionKey db) turn = true → turnGoal turn = none) →
      applyDeterministicFallback sessionKey env db turn = .ok (db', run) →
      (StepBelowRoot sessionKey db db' turn run ↔ StepsFit (graphNodes sessionKey db) (readEdges db) turn) := by
  obtain ⟨h, -⟩ := wellFormed_of_history sessionKey history db hdb
  refine ⟨existingTask_eq_root_iff (length_openTasks_graph h)
    (fun n hn n' hn' hid => eq_of_id_readNodes h.built hn hn' hid) hex, ?_⟩
  intro turn env db' run hgoal hop
  cases he : existingTask (graphNodes sessionKey db) with
  | none =>
    obtain ⟨n, hn, hk, hs⟩ := hex
    exact absurd (existingTask_eq_none he n hn hk) hs
  | some e => exact stepBelowRoot_iff h he hgoal hop

end Committed

/-! ### A closed task that is gone on with -/

section Closed

/-- A turn without a goal, after a closed task and an open one were written together. -/
def closedHistory : List BuildStep := stuckHistory.dropLast ++ [.enqueue (sampleTurn 3 none) 3]

def closedDb : Db := final (buildStep "s") {} closedHistory

/-- No new step of the applied fallback is below the root. -/
def StepOutside (env : Env) (db : Db) (turn : DagTurn) : Bool :=
  match applyDeterministicFallback "s" env db turn with
  | .ok (db', run) => decide (mustCreateTask (graphNodes "s" db) turn = false ∧
      ∀ id ∈ run.addedChildNodeIds, ∀ r ∈ (selectRootTask (graphNodes "s" db)).toList,
        id ∉ taskSubgraphNodeIds r.id (graphNodes "s" db') (readEdges db'))
  | .error _ => false

theorem not_below_of_outside (h : StepOutside env db turn = true) :
    ∃ db' run, applyDeterministicFallback "s" env db turn = .ok (db', run) ∧
      ¬ StepBelowRoot "s" db db' turn run := by
  unfold StepOutside at h
  split at h
  · next db' run hop =>
    obtain ⟨hm, hout⟩ := of_decide_eq_true h
    refine ⟨db', run, hop, ?_⟩
    rintro ⟨id, r, hid, hr, hbelow, -⟩
    rw [if_neg (by rw [hm]; simp)] at hr
    exact hout id (by rw [hid]; exact mem_singleton_self id) r (by rw [hr]; exact mem_singleton_self r)
      hbelow
  · cases h

/-- **The step goes below the closed task**, not below the open one that is the root. -/
theorem below_closed_task : ∃ db ∈ visited (buildStep "s") {} closedHistory,
    (∃ n ∈ graphNodes "s" db, UnfrozenTask n) ∧
    existingTask (graphNodes "s" db) ≠ selectRootTask (graphNodes "s" db) ∧
    ∃ turn ∈ db.turns, turnGoal turn = none ∧
      ∃ db' run, applyDeterministicFallback "s" (sampleEnv 3) db turn = .ok (db', run) ∧
        ¬ StepBelowRoot "s" db db' turn run :=
  ⟨closedDb, final_mem_visited (buildStep "s") closedHistory _, by decide +kernel,
    fun h => absurd (congrArg (Option.map (·.id)) h) (by decide +kernel), queuedTurn 3 none,
    by decide +kernel, rfl, not_below_of_outside (by decide +kernel)⟩

/-- The open task of the first turn. -/
theorem goesOn_iff_first :
    let db := final (buildStep "s") {} (stuckHistory.take 2)
    (existingTask (graphNodes "s" db) = selectRootTask (graphNodes "s" db) ↔
      ∃ e, WrittenLast UnfrozenTask (graphNodes "s" db) e ∧ Foremost (graphNodes "s" db) e) ∧
    ∀ turn env db' run,
      (mustCreateTask (graphNodes "s" db) turn = true → turnGoal turn = none) →
      applyDeterministicFallback "s" env db turn = .ok (db', run) →
      (StepBelowRoot "s" db db' turn run ↔ StepsFit (graphNodes "s" db) (readEdges db) turn) :=
  goesOn_iff "s" (stuckHistory.take 2) (final_mem_visited (buildStep "s") _ _) (by decide +kernel)

end Closed

end Memmy.SessionDag.CurrentTask
