import Mathlib.Data.List.Dedup
import Memmy.SessionDag.Validated

/-! # What completing a patch does

A patch that adds a task beside a root is completed to `transitionPatch`: one update of the root, the other
operations on nodes, the other edges, and one edge from the root to the new task.

* `normalizeTransition_eq_ok`: when and to what a patch is completed.
* `patchOk_transitionPatch`: the completed patch is checked.
* `normalizeTransition_idem`: it is its own completion. -/

namespace Memmy.SessionDag.Normalize

open Lib.JsonValue Lib.Result SessionDag.Types SessionDag.PatchSchema SessionDag.Validated
open Option
open List DagPatchOp

section Transition
variable (ops : DagPatch) (ctx : DagBuilderContext) (goal : Option DagGoalContext)
  (added : AddNodePatchOp) (rootId : String) (root : DagContextNode) (status : DagNodeStatus)
  (type : DagEdgeType)

/-- The statuses that the patch gives the root. -/
def explicitStatuses : List DagNodeStatus := ((updatesOf ops rootId).filterMap (·.status)).dedup

def explicitEdgeType : Option DagEdgeType := (taskEdges ops ctx added).head?.map (·.type)

def isRootUpdate (op : DagPatchOp) : Bool := op.updateNode?.any fun u => u.nodeId = rootId

/-- **When the transition is settled**: what the patch says of the root and of the edge agrees. -/
structure Resolves : Prop where
  found : ctx.nodes.find? (fun n => n.id = rootId) = some root
  isTask : root.kind = .task
  edges : ∀ e ∈ taskEdges ops ctx added, e.sourceId = rootId ∧ e.targetId = added.tempId ∧
    (e.type = .continues ∨ e.type = .supersedes)
  oneEdge : (taskEdges ops ctx added).length ≤ 1
  oneStatus : (explicitStatuses ops rootId).length ≤ 1
  closes : ∀ s ∈ (explicitStatuses ops rootId).head?, s.isOpen = false
  resolved : resolveStatus ctx goal root (explicitStatuses ops rootId).head?
    (explicitEdgeType ops ctx added) = status
  edgeType : taskTransitionEdgeType status = some type
  agrees : ∀ t ∈ explicitEdgeType ops ctx added, t = type

def writesStatus : Bool := (explicitStatuses ops rootId).head?.isSome || !isTerminalTaskStatus root.status

def rootUpdate : UpdateNodePatchOp :=
  if writesStatus ops rootId root then
    { mergeRootUpdates rootId (updatesOf ops rootId) with status := some status }
  else mergeRootUpdates rootId (updatesOf ops rootId)

def rootOps : DagPatch :=
  if updatesOf ops rootId ≠ [] ∨ writesStatus ops rootId root = true then
    [.updateNode (rootUpdate ops rootId root status)]
  else []

/-- The other operations on nodes. -/
def nodeOps : DagPatch := ops.filter fun op => op.addEdge?.isNone && !isRootUpdate rootId op

/-- The other edges. -/
def edgeOps : DagPatch := ops.filter fun op => op.addEdge?.any fun e => !isTaskEdge ops ctx added e

def transitionEdge : AddEdgePatchOp := { sourceId := rootId, targetId := added.tempId, type := type }

def transitionPatch : DagPatch :=
  rootOps ops rootId root status ++ nodeOps ops rootId ++ edgeOps ops ctx added ++
    [.addEdge (transitionEdge added rootId type)]

variable {ops ctx goal added rootId root status type}

/-- **When and to what a patch is completed.** -/
theorem normalizeTransition_eq_ok {q : DagPatch} :
    normalizeTransition ops ctx goal added rootId = .ok q ↔ ∃ root status type,
      Resolves ops ctx goal added rootId root status type ∧
        q = transitionPatch ops ctx added rootId root status type := by
  have hbad : ∀ e : AddEdgePatchOp, decide (e.sourceId ≠ rootId ∨ e.targetId ≠ added.tempId ∨
      (e.type ≠ .continues ∧ e.type ≠ .supersedes)) = false ↔
      e.sourceId = rootId ∧ e.targetId = added.tempId ∧ (e.type = .continues ∨ e.type = .supersedes) := by
    intro e
    rw [decide_eq_false_iff_not]
    push Not
    rw [← or_iff_not_imp_left]
  unfold normalizeTransition
  constructor
  · intro h
    cases hf : (ctx.nodes.find? fun n => n.id = rootId).filter fun n => n.kind = .task with
    | none => rw [hf] at h; cases h
    | some root' =>
      rw [hf] at h
      obtain ⟨hfind, hkind⟩ := filter_eq_some_iff.mp hf
      dsimp only [ok_bind] at h
      split at h
      · split_ifs at h
      next hnone =>
      simp only [bind_eq_ok, throwIf_eq_ok] at h
      obtain ⟨-, hone, -, honeStatus, -, hcloses, h⟩ := h
      split at h
      · cases h
      next type htype =>
      simp only [bind_eq_ok, throwIf_eq_ok, pure_eq, Except.ok.injEq] at h
      obtain ⟨-, hagrees, rfl⟩ := h
      refine ⟨root', _, type, ⟨hfind, by simpa using hkind, ?_, by omega, by
        unfold explicitStatuses; omega, ?_, rfl, htype, ?_⟩, rfl⟩
      · intro e he
        exact (hbad e).mp (by simpa using find?_eq_none.mp hnone e he)
      · intro s hs
        by_contra ho
        exact hcloses ⟨s, hs, by simpa using ho⟩
      · intro t ht
        by_contra hne
        exact hagrees ⟨t, ht, hne⟩
  · rintro ⟨root, status, type, h, rfl⟩
    have hf : (ctx.nodes.find? fun n => n.id = rootId).filter (fun n => n.kind = .task) = some root :=
      filter_eq_some_iff.mpr ⟨h.found, by simpa using h.isTask⟩
    have hnone : (taskEdges ops ctx added).find? (fun e => decide (e.sourceId ≠ rootId ∨
        e.targetId ≠ added.tempId ∨ (e.type ≠ .continues ∧ e.type ≠ .supersedes))) = none := by
      refine find?_eq_none.mpr fun e he => ?_
      rw [(hbad e).mpr (h.edges e he)]
      simp
    have hcloses : ¬ ∃ s ∈ (explicitStatuses ops rootId).head?, s.isOpen = true := by
      rintro ⟨s, hs, ho⟩
      rw [h.closes s hs] at ho
      cases ho
    have hagrees : ¬ ∃ t ∈ explicitEdgeType ops ctx added, t ≠ type := by
      rintro ⟨t, ht, hne⟩
      exact hne (h.agrees t ht)
    have hone := h.oneEdge
    have honeStatus := h.oneStatus
    have hstatus := h.resolved
    unfold explicitStatuses at hcloses honeStatus hstatus
    unfold explicitEdgeType at hagrees hstatus
    rw [hf]
    dsimp only [ok_bind]
    rw [hnone]
    rw [throwIf_of_not (by omega), ok_bind, throwIf_of_not (by omega), ok_bind,
      throwIf_of_not hcloses, ok_bind, hstatus, h.edgeType]
    dsimp only
    rw [throwIf_of_not hagrees]
    rfl

end Transition

/-! ### The operations of the completed patch -/

section Ops
variable (ops : DagPatch) (ctx : DagBuilderContext) (added : AddNodePatchOp) (rootId : String)
  (root : DagContextNode) (status : DagNodeStatus) (type : DagEdgeType)

theorem rootOps_cases : rootOps ops rootId root status = [] ∨
    rootOps ops rootId root status = [.updateNode (rootUpdate ops rootId root status)] := by
  unfold rootOps
  split_ifs
  · exact Or.inr rfl
  · exact Or.inl rfl

theorem filterMap_rootOps {β : Type} (f : DagPatchOp → Option β) (hf : ∀ u, f (.updateNode u) = none) :
    (rootOps ops rootId root status).filterMap f = [] := by
  rcases rootOps_cases ops rootId root status with h | h <;> rw [h]
  · rfl
  · simp [hf]

theorem filterMap_addNode_nodeOps :
    (nodeOps ops rootId).filterMap addNode? = ops.filterMap addNode? := by
  unfold nodeOps
  rw [filterMap_filter]
  refine filterMap_congr fun op _ => ?_
  cases op <;> simp [addEdge?, addNode?, isRootUpdate, updateNode?]

theorem filterMap_addNode_edgeOps : (edgeOps ops ctx added).filterMap addNode? = [] := by
  unfold edgeOps
  rw [filterMap_filter, filterMap_eq_nil_iff]
  intro op _
  cases op <;> simp [addEdge?, addNode?]

/-- The new nodes stay as they are. -/
theorem addNodes_transitionPatch :
    (transitionPatch ops ctx added rootId root status type).filterMap addNode? =
      ops.filterMap addNode? := by
  unfold transitionPatch
  rw [filterMap_append, filterMap_append, filterMap_append,
    filterMap_rootOps _ _ _ _ _ fun _ => rfl, filterMap_addNode_nodeOps, filterMap_addNode_edgeOps]
  simp [addNode?]

theorem tempIds_transitionPatch :
    tempIds (transitionPatch ops ctx added rootId root status type) = tempIds ops := by
  unfold tempIds
  rw [addNodes_transitionPatch]

theorem addedTasks_transitionPatch :
    addedTasks (transitionPatch ops ctx added rootId root status type) = addedTasks ops := by
  rw [addedTasks_eq, addNodes_transitionPatch, ← addedTasks_eq]

theorem nodeKind_transitionPatch (id : String) :
    nodeKind (transitionPatch ops ctx added rootId root status type) ctx id = nodeKind ops ctx id := by
  unfold nodeKind
  rw [addNodes_transitionPatch]

theorem isTaskEdge_transitionPatch (e : AddEdgePatchOp) :
    isTaskEdge (transitionPatch ops ctx added rootId root status type) ctx added e =
      isTaskEdge ops ctx added e := by
  unfold isTaskEdge
  rw [nodeKind_transitionPatch, nodeKind_transitionPatch]

theorem isTaskEdge_transitionEdge : isTaskEdge ops ctx added (transitionEdge added rootId type) = true := by
  unfold isTaskEdge transitionEdge
  simp

theorem filterMap_addEdge_nodeOps : (nodeOps ops rootId).filterMap addEdge? = [] := by
  unfold nodeOps
  rw [filterMap_filter, filterMap_eq_nil_iff]
  intro op _
  cases op <;> simp [addEdge?]

theorem filterMap_addEdge_edgeOps : (edgeOps ops ctx added).filterMap addEdge? =
    (ops.filterMap addEdge?).filter fun e => !isTaskEdge ops ctx added e := by
  unfold edgeOps
  rw [filterMap_filter, filter_filterMap]
  refine filterMap_congr fun op _ => ?_
  cases op with
  | addEdge e => cases hb : isTaskEdge ops ctx added e <;> simp [addEdge?, Option.filter, hb]
  | _ => rfl

theorem addEdges_transitionPatch :
    (transitionPatch ops ctx added rootId root status type).filterMap addEdge? =
      ((ops.filterMap addEdge?).filter fun e => !isTaskEdge ops ctx added e) ++
        [transitionEdge added rootId type] := by
  unfold transitionPatch
  rw [filterMap_append, filterMap_append, filterMap_append,
    filterMap_rootOps _ _ _ _ _ fun _ => rfl, filterMap_addEdge_nodeOps, filterMap_addEdge_edgeOps]
  simp [addEdge?]

theorem taskEdges_transitionPatch :
    taskEdges (transitionPatch ops ctx added rootId root status type) ctx added =
      [transitionEdge added rootId type] := by
  unfold taskEdges
  rw [addEdges_transitionPatch, filter_append, List.filter_filter]
  have hnone : ((ops.filterMap addEdge?).filter fun e =>
      isTaskEdge (transitionPatch ops ctx added rootId root status type) ctx added e &&
        !isTaskEdge ops ctx added e) = [] := by
    rw [filter_eq_nil_iff]
    intro e _
    rw [isTaskEdge_transitionPatch]
    cases isTaskEdge ops ctx added e <;> simp
  rw [hnone, nil_append, filter_cons_of_pos]
  · rfl
  · rw [isTaskEdge_transitionPatch]
    exact isTaskEdge_transitionEdge ops ctx added rootId type

theorem nodeId_mergeRootUpdates (updates : List UpdateNodePatchOp) :
    (mergeRootUpdates rootId updates).nodeId = rootId := by
  exact List.foldlRecOn (motive := fun u : UpdateNodePatchOp => u.nodeId = rootId) updates _ rfl
    fun _ h _ _ => h

theorem nodeId_rootUpdate : (rootUpdate ops rootId root status).nodeId = rootId := by
  unfold rootUpdate
  split_ifs <;> exact nodeId_mergeRootUpdates rootId _

theorem nodeOps_transitionPatch :
    nodeOps (transitionPatch ops ctx added rootId root status type) rootId = nodeOps ops rootId := by
  unfold nodeOps transitionPatch
  rw [filter_append, filter_append, filter_append]
  have h1 : (rootOps ops rootId root status).filter
      (fun op => op.addEdge?.isNone && !isRootUpdate rootId op) = [] := by
    rcases rootOps_cases ops rootId root status with hr | hr <;> rw [hr]
    · rfl
    · simp [isRootUpdate, updateNode?, nodeId_rootUpdate]
  have h2 : (nodeOps ops rootId).filter
      (fun op => op.addEdge?.isNone && !isRootUpdate rootId op) = nodeOps ops rootId :=
    filter_eq_self.mpr fun op hop => (mem_filter.mp hop).2
  have h3 : (edgeOps ops ctx added).filter
      (fun op => op.addEdge?.isNone && !isRootUpdate rootId op) = [] := by
    rw [filter_eq_nil_iff]
    intro op hop
    have := (mem_filter.mp hop).2
    cases op <;> simp_all [addEdge?]
  rw [h1, h2, h3]
  simp [addEdge?, nodeOps]

theorem edgeOps_transitionPatch :
    edgeOps (transitionPatch ops ctx added rootId root status type) ctx added =
      edgeOps ops ctx added := by
  have hsame : (fun op : DagPatchOp => op.addEdge?.any fun e =>
      !isTaskEdge (transitionPatch ops ctx added rootId root status type) ctx added e) =
      fun op => op.addEdge?.any fun e => !isTaskEdge ops ctx added e := by
    funext op
    cases op with
    | addEdge e => simp [addEdge?, isTaskEdge_transitionPatch]
    | _ => rfl
  conv_lhs => unfold edgeOps
  rw [hsame]
  unfold transitionPatch
  rw [filter_append, filter_append, filter_append]
  have h1 : (rootOps ops rootId root status).filter
      (fun op => op.addEdge?.any fun e => !isTaskEdge ops ctx added e) = [] := by
    rcases rootOps_cases ops rootId root status with hr | hr <;> rw [hr] <;> rfl
  have h2 : (nodeOps ops rootId).filter
      (fun op => op.addEdge?.any fun e => !isTaskEdge ops ctx added e) = [] := by
    rw [filter_eq_nil_iff]
    intro op hop
    have := (mem_filter.mp hop).2
    cases op <;> simp_all [addEdge?]
  have h3 : (edgeOps ops ctx added).filter
      (fun op => op.addEdge?.any fun e => !isTaskEdge ops ctx added e) = edgeOps ops ctx added :=
    filter_eq_self.mpr fun op hop => (mem_filter.mp hop).2
  rw [h1, h2, h3]
  simp [addEdge?, isTaskEdge_transitionEdge, edgeOps]

theorem updatesOf_edgeOps (id : String) : updatesOf (edgeOps ops ctx added) id = [] := by
  unfold updatesOf edgeOps
  rw [filterMap_filter, filter_eq_nil_iff]
  intro u hu
  obtain ⟨op, -, hop⟩ := mem_filterMap.mp hu
  cases op <;> simp [addEdge?, updateNode?] at hop

theorem updatesOf_nodeOps (id : String) :
    updatesOf (nodeOps ops rootId) id = if id = rootId then [] else updatesOf ops id := by
  unfold updatesOf nodeOps
  rw [filterMap_filter, filter_filterMap, filter_filterMap]
  split_ifs with hid
  · rw [filterMap_eq_nil_iff]
    intro op _
    cases op <;> simp [addEdge?, updateNode?, isRootUpdate, hid]
  · refine filterMap_congr fun op _ => ?_
    cases op with
    | updateNode u =>
      by_cases hu : u.nodeId = rootId
      · have hne : rootId ≠ id := fun h => hid h.symm
        simp [addEdge?, updateNode?, isRootUpdate, Option.filter, hne, hu]
      · simp [addEdge?, updateNode?, isRootUpdate, hu]
    | _ => simp [updateNode?]

theorem updatesOf_transitionPatch (id : String) :
    updatesOf (transitionPatch ops ctx added rootId root status type) id =
      if id = rootId then
        (rootOps ops rootId root status).filterMap updateNode?
      else updatesOf ops id := by
  have happend : ∀ a b : DagPatch, updatesOf (a ++ b) id = updatesOf a id ++ updatesOf b id := by
    intro a b
    unfold updatesOf
    rw [filterMap_append, filter_append]
  have hedge : updatesOf [.addEdge (transitionEdge added rootId type)] id = [] := rfl
  unfold transitionPatch
  rw [happend, happend, happend, updatesOf_edgeOps, hedge, updatesOf_nodeOps, append_nil, append_nil]
  have hnodeId := nodeId_rootUpdate ops rootId root status
  split_ifs with hid
  · rw [append_nil]
    rcases rootOps_cases ops rootId root status with h | h <;> rw [h]
    · rfl
    · simp [updatesOf, updateNode?, hnodeId, hid]
  · have hne : rootId ≠ id := fun h => hid h.symm
    rcases rootOps_cases ops rootId root status with h | h <;> rw [h]
    · rfl
    · simp [updatesOf, updateNode?, hnodeId, hne]

end Ops

/-! ### The completed patch is checked -/

section Checked
variable {ops : DagPatch} {ctx : DagBuilderContext} {goal : Option DagGoalContext}
  {added : AddNodePatchOp} {rootId : String} {root : DagContextNode} {status : DagNodeStatus}
  {type : DagEdgeType} {ids : List String} {updates : List UpdateNodePatchOp} {u : UpdateNodePatchOp}

/-- What merging keeps of the updates. -/
structure MergeOk (u : UpdateNodePatchOp) : Prop where
  importance : ∀ i, u.importance = some i → ImportanceOk i
  detail : ∀ d, u.detailJson = some d → d.keys.Nodup
  sourceRefs : ∀ refs, u.sourceRefs = some refs → dedupeSourceRefs refs = refs

theorem mergeOk_mergeRootUpdates (h : ∀ u ∈ updates, UpdateOk ids u)
    (rootId : String) : MergeOk (mergeRootUpdates rootId updates) := by
  refine List.foldlRecOn (motive := MergeOk) updates _ ⟨by simp, by simp, by simp⟩ ?_
  intro merged hm u hu
  have hok := h u hu
  refine ⟨?_, ?_, ?_⟩
  · intro i hi
    rcases or_eq_some_iff.mp hi with hi | ⟨-, hi⟩
    · exact hok.importance i hi
    · exact hm.importance i hi
  · intro d hd
    rcases or_eq_some_iff.mp hd with hd | ⟨-, hd⟩
    · obtain ⟨d', -, rfl⟩ := map_eq_some_iff.mp hd
      refine JsonObject.nodup_keys_merge d' ?_
      cases hmd : merged.detailJson with
      | none => exact nodup_nil
      | some o => exact hm.detail o hmd
    · exact hm.detail d hd
  · intro refs hrefs
    rcases or_eq_some_iff.mp hrefs with hrefs | ⟨-, hrefs⟩
    · obtain ⟨refs', -, rfl⟩ := map_eq_some_iff.mp hrefs
      exact dedupeSourceRefs_idem _
    · exact hm.sourceRefs refs hrefs

theorem mem_updatesOf {id : String} : u ∈ updatesOf ops id ↔ .updateNode u ∈ ops ∧ u.nodeId = id := by
  unfold updatesOf
  rw [mem_filter, decide_eq_true_eq, mem_filterMap]
  refine and_congr_left fun _ => ⟨?_, fun h => ⟨_, h, rfl⟩⟩
  rintro ⟨op, hop, hu⟩
  cases op <;> cases hu
  exact hop

theorem mergeOk_rootUpdate (rootId : String) (root : DagContextNode) (status : DagNodeStatus)
    (h : PatchOk ids ops) : MergeOk (rootUpdate ops rootId root status) := by
  have hm : MergeOk (mergeRootUpdates rootId (updatesOf ops rootId)) :=
    mergeOk_mergeRootUpdates (fun u hu => h.updates u (mem_updatesOf.mp hu).1) rootId
  unfold rootUpdate
  split_ifs
  · exact ⟨hm.importance, hm.detail, hm.sourceRefs⟩
  · exact hm

/-- Where an operation of the completed patch comes from. -/
theorem mem_transitionPatch {op : DagPatchOp}
    (h : op ∈ transitionPatch ops ctx added rootId root status type) :
    op = .updateNode (rootUpdate ops rootId root status) ∨
      (op ∈ ops ∧ op.addEdge? = none ∧ isRootUpdate rootId op = false) ∨
      (op ∈ ops ∧ ∃ e, op = .addEdge e ∧ isTaskEdge ops ctx added e = false) ∨
      op = .addEdge (transitionEdge added rootId type) := by
  unfold transitionPatch at h
  simp only [mem_append, mem_singleton] at h
  rcases h with ((h | h) | h) | h
  · rcases rootOps_cases ops rootId root status with hr | hr <;> rw [hr] at h
    · cases h
    · exact Or.inl (mem_singleton.mp h)
  · obtain ⟨hmem, hp⟩ := mem_filter.mp h
    rw [Bool.and_eq_true] at hp
    exact Or.inr (Or.inl ⟨hmem, by simpa using hp.1, by simpa using hp.2⟩)
  · obtain ⟨hmem, hp⟩ := mem_filter.mp h
    cases op with
    | addEdge e => exact Or.inr (Or.inr (Or.inl ⟨hmem, e, rfl, by simpa [addEdge?] using hp⟩))
    | _ => simp [addEdge?] at hp
  · exact Or.inr (Or.inr (Or.inr h))

/-- **The completed patch is checked.** -/
theorem patchOk_transitionPatch (h : PatchOk ids ops) (hroot : rootId ∈ ids)
    (hadded : .addNode added ∈ ops) :
    PatchOk ids (transitionPatch ops ctx added rootId root status type) where
  adds := by
    intro a ha
    rcases mem_transitionPatch ha with ha | ha | ha | ha
    · cases ha
    · exact h.adds a ha.1
    · exact h.adds a ha.1
    · cases ha
  updates := by
    intro u hu
    rcases mem_transitionPatch hu with hu | hu | hu | hu
    · obtain rfl := updateNode.inj hu
      have hm := mergeOk_rootUpdate rootId root status h
      exact ⟨by rw [nodeId_rootUpdate]; exact hroot, hm.importance, hm.detail, hm.sourceRefs⟩
    · exact h.updates u hu.1
    · exact h.updates u hu.1
    · cases hu
  temps := by rw [tempIds_transitionPatch]; exact h.temps
  scopes := by
    have hnodes : ∀ e, .addEdge e ∉ rootOps ops rootId root status ++ nodeOps ops rootId := by
      intro e he
      rcases mem_append.mp he with he | he
      · rcases rootOps_cases ops rootId root status with hr | hr <;> rw [hr] at he
        · cases he
        · cases mem_singleton.mp he
      · simpa [addEdge?] using (mem_filter.mp he).2
    have htemps : tempIds (rootOps ops rootId root status ++ nodeOps ops rootId) = tempIds ops := by
      unfold tempIds
      rw [filterMap_append, filterMap_rootOps _ _ _ _ _ fun _ => rfl, filterMap_addNode_nodeOps]
      rfl
    unfold transitionPatch
    rw [append_assoc, scoped_append]
    refine ⟨scoped_of_forall_mem fun e he => absurd he (hnodes e), ?_⟩
    rw [htemps]
    refine scoped_of_forall_mem fun e he => ?_
    rcases mem_append.mp he with he | he
    · exact h.scopes.of_mem (mem_of_mem_filter he)
    · cases mem_singleton.mp he
      exact ⟨mem_append_right _ hroot, mem_append_left _ (mem_tempIds.mpr ⟨added, hadded, rfl⟩)⟩

/-! ### Completing twice -/

theorem mergeRootUpdates_singleton (hid : u.nodeId = rootId) (h : MergeOk u) :
    mergeRootUpdates rootId [u] = u := by
  subst hid
  obtain ⟨nodeId, title, summary, status, importance, detailJson, sourceRefs⟩ := u
  have hd : (detailJson.map fun d => JsonObject.merge [] d) = detailJson := by
    cases detailJson with
    | none => rfl
    | some d => rw [map_some, JsonObject.merge_nil (h.detail d rfl)]
  have hr : (sourceRefs.map fun refs => dedupeSourceRefs ([] ++ refs)) = sourceRefs := by
    cases sourceRefs with
    | none => rfl
    | some refs => rw [map_some, nil_append, h.sourceRefs refs rfl]
  simp only [mergeRootUpdates, foldl_cons, foldl_nil, getD_none, or_none, hd, hr]

theorem status_mergeRootUpdates
    (h : ∀ u ∈ updates, u.status = none) : (mergeRootUpdates rootId updates).status = none := by
  refine List.foldlRecOn (motive := fun u : UpdateNodePatchOp => u.status = none) updates _ rfl ?_
  intro merged hm u hu
  rw [h u hu, hm]
  rfl

theorem Resolves.status_eq (h : Resolves ops ctx goal added rootId root status type) :
    (writesStatus ops rootId root = true ∧ (rootUpdate ops rootId root status).status = some status) ∨
      (writesStatus ops rootId root = false ∧ (rootUpdate ops rootId root status).status = none ∧
        (explicitStatuses ops rootId).head? = none ∧ root.status = status ∧
        isTerminalTaskStatus root.status = true) := by
  cases hw : writesStatus ops rootId root with
  | true =>
    refine Or.inl ⟨rfl, ?_⟩
    unfold rootUpdate
    rw [if_pos hw]
  | false =>
    refine Or.inr ⟨rfl, ?_⟩
    unfold writesStatus at hw
    rw [Bool.or_eq_false_iff] at hw
    have hnone : (explicitStatuses ops rootId).head? = none := by simpa using hw.1
    have hterminal : isTerminalTaskStatus root.status = true := by simpa using hw.2
    have hnil : ∀ u ∈ updatesOf ops rootId, u.status = none := by
      rw [head?_eq_none_iff] at hnone
      unfold explicitStatuses at hnone
      rw [dedup_eq_nil, filterMap_eq_nil_iff] at hnone
      exact hnone
    refine ⟨?_, hnone, ?_, hterminal⟩
    · unfold rootUpdate writesStatus
      rw [hnone, hterminal]
      exact status_mergeRootUpdates hnil
    · have hres := h.resolved
      rw [hnone] at hres
      unfold resolveStatus at hres
      cases ht : explicitEdgeType ops ctx added with
      | none => rw [ht] at hres; dsimp only at hres; rwa [if_pos hterminal] at hres
      | some t => rw [ht] at hres; dsimp only at hres; rwa [if_pos hterminal] at hres

/-- **The completed patch is its own completion.** -/
theorem normalizeTransition_idem (hok : PatchOk ids ops)
    (h : Resolves ops ctx goal added rootId root status type) :
    normalizeTransition (transitionPatch ops ctx added rootId root status type) ctx goal added rootId =
      .ok (transitionPatch ops ctx added rootId root status type) := by
  set q := transitionPatch ops ctx added rootId root status type with hq
  have htaskEdges : taskEdges q ctx added = [transitionEdge added rootId type] :=
    taskEdges_transitionPatch ops ctx added rootId root status type
  have hexplicitEdge : explicitEdgeType q ctx added = some type := by
    unfold explicitEdgeType
    rw [htaskEdges]
    rfl
  have hupdates : updatesOf q rootId =
      (rootOps ops rootId root status).filterMap updateNode? := by
    rw [hq, updatesOf_transitionPatch, if_pos rfl]
  have htypes : type = .continues ∨ type = .supersedes := by
    have := h.edgeType
    cases status <;> simp_all [taskTransitionEdgeType]
  have hclosed : status.isOpen = false := by
    have := h.edgeType
    cases status <;> first | rfl | simp [taskTransitionEdgeType] at this
  -- what the completed patch says of the root's status
  have hexplicit : explicitStatuses q rootId = if writesStatus ops rootId root then [status] else [] := by
    unfold explicitStatuses
    rw [hupdates]
    rcases h.status_eq with ⟨hw, hs⟩ | ⟨hw, hs, -⟩
    · have hr : rootOps ops rootId root status = [.updateNode (rootUpdate ops rootId root status)] := by
        unfold rootOps
        rw [if_pos (Or.inr hw)]
      rw [hr, if_pos hw]
      simp [updateNode?, hs]
    · rw [hw]
      rcases rootOps_cases ops rootId root status with hr | hr <;> rw [hr]
      · rfl
      · simp [updateNode?, hs]
  have hwrites : writesStatus q rootId root = writesStatus ops rootId root := by
    rcases h.status_eq with ⟨hw, -⟩ | ⟨hw, -, -, -, ht⟩
    · rw [hw]
      unfold writesStatus
      rw [hexplicit, if_pos hw]
      rfl
    · rw [hw]
      unfold writesStatus
      rw [hexplicit, hw, ht]
      rfl
  have hresolves : Resolves q ctx goal added rootId root status type := by
    refine ⟨h.found, h.isTask, ?_, by rw [htaskEdges]; simp, ?_, ?_, ?_, h.edgeType, ?_⟩
    · rw [htaskEdges]
      rintro e he
      rw [mem_singleton.mp he]
      exact ⟨rfl, rfl, htypes⟩
    · rw [hexplicit]; split_ifs <;> simp
    · rw [hexplicit]
      intro s hs
      split_ifs at hs
      · simp only [head?_cons, mem_def, some.injEq] at hs
        rw [← hs]; exact hclosed
      · simp at hs
    · rw [hexplicit, hexplicitEdge]
      rcases h.status_eq with ⟨hw, -⟩ | ⟨hw, -, -, hroot, ht⟩
      · rw [if_pos hw]; rfl
      · rw [hw]
        unfold resolveStatus
        rw [if_neg (by simp)]
        dsimp only [head?_nil]
        rw [if_pos ht, hroot]
    · rw [hexplicitEdge]
      rintro t ⟨⟩
      rfl
  have hmerge : mergeRootUpdates rootId [rootUpdate ops rootId root status] =
      rootUpdate ops rootId root status :=
    mergeRootUpdates_singleton (nodeId_rootUpdate ops rootId root status) (mergeOk_rootUpdate _ _ _ hok)
  have hrootOps : rootOps q rootId root status = rootOps ops rootId root status := by
    rcases rootOps_cases ops rootId root status with hr | hr
    · have hnone : ¬ (updatesOf ops rootId ≠ [] ∨ writesStatus ops rootId root = true) := by
        intro hc
        unfold rootOps at hr
        rw [if_pos hc] at hr
        cases hr
      unfold rootOps
      rw [hwrites, hupdates, hr, if_neg hnone, if_neg]
      · rintro (hc | hc)
        · exact hc rfl
        · exact hnone (Or.inr hc)
    · have hup : updatesOf q rootId = [rootUpdate ops rootId root status] := by rw [hupdates, hr]; rfl
      have hru : rootUpdate q rootId root status = rootUpdate ops rootId root status := by
        rcases h.status_eq with ⟨hw, hs⟩ | ⟨hw, -⟩
        · conv_lhs => unfold rootUpdate
          rw [hwrites, if_pos hw, hup, hmerge, ← hs]
        · conv_lhs => unfold rootUpdate
          rw [hwrites, hw, hup, hmerge]
          rfl
      rw [hr]
      unfold rootOps
      rw [hup, if_pos (Or.inl (by simp)), hru]
  have hnodeOps : nodeOps q rootId = nodeOps ops rootId :=
    nodeOps_transitionPatch ops ctx added rootId root status type
  have hedgeOps : edgeOps q ctx added = edgeOps ops ctx added :=
    edgeOps_transitionPatch ops ctx added rootId root status type
  refine normalizeTransition_eq_ok.mpr ⟨root, status, type, hresolves, ?_⟩
  conv_rhs => unfold transitionPatch
  rw [hrootOps, hnodeOps, hedgeOps]
  rfl

end Checked

end Memmy.SessionDag.Normalize
