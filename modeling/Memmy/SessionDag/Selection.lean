import Memmy.Lib.Reach
import Memmy.Lib.Sort
import Memmy.SessionDag.Types

/-! # The root task and the active path

The root is the task that the session works on: the open one, or the one written last. The active path
leads from it to the most pressing open step below it, or to the last completed one. It is found
by a search up the incoming edges with a memo; the fuel of the two searches is the number of
nodes, since a search never enters a node that it is already in.

* `selectRootTask_cases`: which task is the root.
* `mem_taskSubgraphNodeIds`: below a task there are only steps.
* `deriveActivePathSelection_ok`: the active path starts with the root and holds no other task. -/

namespace Memmy.SessionDag.Selection

open Lib.Reach Lib.Sort SessionDag.Types List

/-- `new Map(nodes.map((node) => [node.id, node])).get(id)`; the ids are a primary key. -/
def byId (nodes : List DagNode) (id : String) : Option DagNode := nodes.find? fun n => n.id = id

/-! ### The root task -/

/-- The order in which tasks are candidates for the root. -/
def compareRoots : DagNode → DagNode → Ordering :=
  compareLex (descending (·.updatedAt)) (compareLex (descending (·.importance)) (ascending (·.id)))

instance : Std.TransCmp compareRoots := by unfold compareRoots; infer_instance

def tasksOf (nodes : List DagNode) : List DagNode := nodes.filter fun n => n.kind = .task

def openTasks (nodes : List DagNode) : List DagNode := (tasksOf nodes).filter fun n => n.status.isOpen

/-- The tasks that the root is taken from. -/
def rootCandidates (nodes : List DagNode) : List DagNode :=
  let candidates :=
    if openTasks nodes ≠ [] then openTasks nodes
    else (tasksOf nodes).filter fun n => n.status ≠ .frozen
  if candidates ≠ [] then candidates else tasksOf nodes

def selectRootTask (nodes : List DagNode) : Option DagNode := (sortBy compareRoots (rootCandidates nodes)).head?

/-! ### What is below a task -/

def isStep (nodes : List DagNode) (id : String) : Bool :=
  match byId nodes id with
  | some n => n.kind ≠ .task
  | none => false

def taskSubgraphNodeIds (rootId : String) (nodes : List DagNode) (edges : List DagEdge) :
    List String :=
  reach (·.sourceId) (·.targetId) (isStep nodes) edges [rootId]

def sideBranchSuccessorNodeIds (nodes : List DagNode) (edges : List DagEdge) : List String :=
  reach (·.sourceId) (·.targetId) (isStep nodes) edges
    ((edges.filter fun e => e.type = .sideBranch ∧ (byId nodes e.targetId).map (·.kind) ≠ some .task).map
      (·.targetId))

/-! ### The path to an open step -/

section Path
variable (nodes : List DagNode) (rootId : String) (incoming outgoing : String → List DagEdge)

def isActivePathEdge (edge : DagEdge) (target : DagNode) : Bool :=
  match byId nodes edge.sourceId with
  | none => false
  | some source =>
    if target.kind = .task then false
    else if source.id = rootId then source.kind = .task ∧ edge.type = .decomposes
    else if source.kind = .task then false
    else match edge.type with
      | .blocks => target.status = .blocked
      | .supersedes => source.status = .frozen
      | .continues => source.status ≠ .failed ∧ source.status ≠ .frozen
      | _ => false

def activeParentEdgeRank (target : DagNode) (edge : DagEdge) : ℕ :=
  let source := byId nodes edge.sourceId
  if edge.type = .blocks ∧ target.status = .blocked then 0
  else if edge.type = .supersedes ∧ source.map (·.status) = some .frozen then 1
  else if edge.type = .continues then 2
  else if edge.type = .decomposes ∧ source.map (·.id) = some rootId then 3
  else 4

def compareParentEdges (target : DagNode) : DagEdge → DagEdge → Ordering :=
  compareLex (ascending (activeParentEdgeRank nodes rootId target))
    (compareLex (descending fun e => ((byId nodes e.sourceId).map (·.importance)).getD 0)
      (compareLex (descending fun e => ((byId nodes e.sourceId).map (·.updatedAt)).getD 0)
        (compareLex (descending (·.createdAt)) (compareLex (ascending (·.sourceId)) (ascending (·.id))))))

abbrev PathMemo : Type := List (String × Option DagPathSelection)

/-- The loop over the parents of a node; `search` is the search from a parent. -/
def firstParentPath (search : String → PathMemo → Option DagPathSelection × PathMemo)
    (nodeId : String) : List DagEdge → PathMemo → Option DagPathSelection × PathMemo
  | [], memo => (none, memo)
  | edge :: rest, memo =>
    match search edge.sourceId memo with
    | (some found, memo') =>
      (some { nodeIds := found.nodeIds ++ [nodeId], edgeIds := found.edgeIds ++ [edge.id] }, memo')
    | (none, memo') => firstParentPath search nodeId rest memo'

def pathToRoot : ℕ → List String → String → PathMemo → Option DagPathSelection × PathMemo
  | 0, _, _, memo => (none, memo)
  | fuel + 1, visiting, nodeId, memo =>
    if nodeId = rootId then (some { nodeIds := [rootId], edgeIds := [] }, memo)
    else match memo.lookup nodeId with
      | some found => (found, memo)
      | none =>
        if nodeId ∈ visiting then (none, memo)
        else match byId nodes nodeId with
          | none => (none, memo)
          | some node =>
            if node.kind = .task then (none, memo)
            else
              let candidates := sortBy (compareParentEdges nodes rootId node)
                ((incoming nodeId).filter fun e => isActivePathEdge nodes rootId e node)
              let (found, memo') :=
                firstParentPath (pathToRoot fuel (nodeId :: visiting)) nodeId candidates memo
              (found, (nodeId, found) :: memo')

/-- The first step of the frontier that has a path. -/
def firstFrontierPath (fuel : ℕ) : List DagNode → PathMemo → Option DagPathSelection
  | [], _ => none
  | node :: rest, memo =>
    match pathToRoot nodes rootId incoming fuel [] node.id memo with
    | (some found, _) => some found
    | (none, memo') => firstFrontierPath fuel rest memo'

/-! ### The path to a completed step -/

def isDoneChild (nodeId : String) : Bool :=
  match byId nodes nodeId with
  | some n => n.kind ≠ .task ∧ n.status = .done
  | none => false

def terminal (p : DagPathSelection) : Option DagNode := p.nodeIds.getLast?.bind (byId nodes)

/-- `ids.join("\0")`. -/
def joinIds (ids : List String) : String := String.intercalate "\u0000" ids

def compareCompletedPaths : DagPathSelection → DagPathSelection → Ordering :=
  compareLex (descending fun p => ((terminal nodes p).map (·.lastMessageIndex)).getD (-1))
    (compareLex (descending fun p => ((terminal nodes p).map (·.updatedAt + 1)).getD 0)
      (compareLex (descending fun p => ((terminal nodes p).map (·.importance)).getD (-1))
        (compareLex (descending fun p => p.edgeIds.length)
          (compareLex (ascending fun p => joinIds p.nodeIds) (ascending fun p => joinIds p.edgeIds)))))

def bestCompletedPath (paths : List DagPathSelection) : Option DagPathSelection :=
  (sortBy (compareCompletedPaths nodes) paths).head?

abbrev SuffixMemo : Type := List (String × DagPathSelection)

/-- The loop over the edges to completed steps; `search` is the search from a step, `first` the node
that the paths are put behind. -/
def suffixPaths (search : String → SuffixMemo → DagPathSelection × SuffixMemo) (first : String) :
    List DagEdge → SuffixMemo → List DagPathSelection × SuffixMemo
  | [], memo => ([], memo)
  | edge :: rest, memo =>
    let (suffix, memo') := search edge.targetId memo
    let (paths, memo'') := suffixPaths search first rest memo'
    ({ nodeIds := first :: suffix.nodeIds, edgeIds := edge.id :: suffix.edgeIds } :: paths, memo'')

def bestCompletedSuffix : ℕ → List String → String → SuffixMemo → DagPathSelection × SuffixMemo
  | 0, _, nodeId, memo => ({ nodeIds := [nodeId], edgeIds := [] }, memo)
  | fuel + 1, visiting, nodeId, memo =>
    match memo.lookup nodeId with
    | some cached => (cached, memo)
    | none =>
      let self : DagPathSelection := { nodeIds := [nodeId], edgeIds := [] }
      if nodeId ∈ visiting then (self, memo)
      else
        let next := (outgoing nodeId).filter fun e =>
          e.type = .continues ∧ e.targetId ∉ nodeId :: visiting ∧ isDoneChild nodes e.targetId
        let (paths, memo') :=
          suffixPaths (bestCompletedSuffix fuel (nodeId :: visiting)) nodeId next memo
        let best := (bestCompletedPath nodes (self :: paths)).getD self
        (best, (nodeId, best) :: memo')

def completedPathFromRoot (fuel : ℕ) : Option DagPathSelection :=
  let next := (outgoing rootId).filter fun e => e.type = .decomposes ∧ isDoneChild nodes e.targetId
  bestCompletedPath nodes
    (suffixPaths (bestCompletedSuffix nodes outgoing fuel []) rootId next []).1

end Path

/-! ### The active path -/

def compareFrontier : DagNode → DagNode → Ordering :=
  compareLex (descending fun n => if n.status = .blocked then 1 else 0)
    (compareLex (descending (·.importance))
      (compareLex (descending (·.updatedAt)) (compareLex (descending (·.lastMessageIndex)) (ascending (·.id)))))

def deriveActivePathSelection (nodes : List DagNode) (edges : List DagEdge) : DagPathSelection :=
  match selectRootTask nodes with
  | none => { nodeIds := [], edgeIds := [] }
  | some root =>
    let sideBranchIds := sideBranchSuccessorNodeIds nodes edges
    let subgraphIds :=
      (taskSubgraphNodeIds root.id nodes edges).filter fun id => id ∉ sideBranchIds
    let inside := edges.filter fun e => e.sourceId ∈ subgraphIds ∧ e.targetId ∈ subgraphIds
    let incoming := fun id => inside.filter fun e => e.targetId = id
    let outgoing := fun id => inside.filter fun e => e.sourceId = id
    let frontier := sortBy compareFrontier <| nodes.filter fun n =>
      n.id ∈ subgraphIds ∧ n.kind ≠ .task ∧ n.status.isOpen
    let rootOnly : DagPathSelection := { nodeIds := [root.id], edgeIds := [] }
    match firstFrontierPath nodes root.id incoming (nodes.length + 1) frontier [] with
    | some found => found
    | none =>
      if root.status = .failed ∨ root.status = .frozen then rootOnly
      else (completedPathFromRoot nodes root.id outgoing (nodes.length + 1)).getD rootOnly

/-! ### Which task is the root -/

section Root
variable {nodes : List DagNode} {r : DagNode}

theorem mem_tasksOf {n : DagNode} : n ∈ tasksOf nodes ↔ n ∈ nodes ∧ n.kind = .task := by
  simp [tasksOf]

theorem mem_openTasks {n : DagNode} :
    n ∈ openTasks nodes ↔ n ∈ nodes ∧ n.kind = .task ∧ n.status.isOpen = true := by
  simp [openTasks, mem_tasksOf, and_assoc]

/-- **Which task is the root**: an open one; or one that is not frozen, when none is open; or any,
when all are frozen. It was written last of these. -/
theorem selectRootTask_cases (h : selectRootTask nodes = some r) :
    r ∈ nodes ∧ r.kind = .task ∧
      ((r.status.isOpen = true ∧ ∀ n ∈ openTasks nodes, n.updatedAt ≤ r.updatedAt) ∨
      (openTasks nodes = [] ∧ r.status ≠ .frozen ∧
        ∀ n ∈ tasksOf nodes, n.status ≠ .frozen → n.updatedAt ≤ r.updatedAt) ∨
      (openTasks nodes = [] ∧ (∀ n ∈ tasksOf nodes, n.status = .frozen) ∧
        ∀ n ∈ tasksOf nodes, n.updatedAt ≤ r.updatedAt)) := by
  obtain ⟨hmem, hle⟩ := head?_sortBy compareRoots h
  have hlast : ∀ n ∈ rootCandidates nodes, n.updatedAt ≤ r.updatedAt := fun n hn =>
    descending_isLE.mp (compareLex_isLE_left (hle n hn))
  unfold rootCandidates at hmem hlast
  by_cases hopen : openTasks nodes = []
  · simp only [hopen, ne_eq, not_true_eq_false, if_false] at hmem hlast
    by_cases hthawed : (tasksOf nodes).filter (fun n => n.status ≠ .frozen) = []
    · simp only [hthawed, not_true_eq_false, if_false] at hmem hlast
      have hfrozen : ∀ n ∈ tasksOf nodes, n.status = .frozen := by
        simpa using filter_eq_nil_iff.mp hthawed
      obtain ⟨hr, hk⟩ := mem_tasksOf.mp hmem
      exact ⟨hr, hk, Or.inr (Or.inr ⟨hopen, hfrozen, hlast⟩)⟩
    · simp only [hthawed, not_false_eq_true, if_true, mem_filter, decide_eq_true_eq]
        at hmem hlast
      obtain ⟨hr, hk⟩ := mem_tasksOf.mp hmem.1
      exact ⟨hr, hk, Or.inr (Or.inl ⟨hopen, hmem.2, fun n hn hs => hlast n ⟨hn, hs⟩⟩)⟩
  · simp only [hopen, ne_eq, not_false_eq_true, if_true] at hmem hlast
    obtain ⟨hr, hk, ho⟩ := mem_openTasks.mp hmem
    exact ⟨hr, hk, Or.inl ⟨ho, hlast⟩⟩

theorem selectRootTask_eq_none : selectRootTask nodes = none ↔ tasksOf nodes = [] := by
  unfold selectRootTask
  unfold rootCandidates
  refine ⟨fun h => ?_, fun h => by simp [openTasks, h]⟩
  generalize (if openTasks nodes ≠ [] then openTasks nodes
    else (tasksOf nodes).filter fun n => decide (n.status ≠ .frozen)) = candidates at h
  by_cases hc : candidates = []
  · simpa [hc] using h
  · simp [hc] at h

theorem selectRootTask_of_lt (h : r ∈ rootCandidates nodes)
    (hlt : ∀ n ∈ rootCandidates nodes, n ≠ r → n.updatedAt < r.updatedAt) :
    selectRootTask nodes = some r :=
  head?_sortBy_of_lt compareRoots h fun n hn hne =>
    compareLex_eq_lt_of_left (descending_eq_lt.mpr (hlt n hn hne))

end Root

/-! ### What is below a task -/

variable {nodes : List DagNode}

theorem mem_taskSubgraphNodeIds {edges : List DagEdge} {id : String}
    (h : id ∈ taskSubgraphNodeIds rootId nodes edges) : id = rootId ∨ isStep nodes id = true := by
  obtain ⟨x, hx, hreach⟩ := (mem_reach_iff _ _ _ _).mp h
  rw [mem_singleton] at hx
  subst hx
  rcases Relation.ReflTransGen.cases_tail hreach with rfl | ⟨y, -, e, -, -, -, hk⟩
  · exact Or.inl rfl
  · exact Or.inr hk

/-! ### What is on the active path -/

section Path
variable (nodes : List DagNode) (rootId : String) (incoming outgoing : String → List DagEdge)
variable {p : DagPathSelection}

/-- A path that starts with the root and goes on over steps. -/
def PathOk (p : DagPathSelection) : Prop :=
  ∃ rest, p.nodeIds = rootId :: rest ∧ ∀ id ∈ rest, isStep nodes id = true

def MemoOk (memo : PathMemo) : Prop := ∀ entry ∈ memo, ∀ p, entry.2 = some p → PathOk nodes rootId p

variable {nodes rootId incoming outgoing}

theorem pathOk_rootOnly : PathOk nodes rootId { nodeIds := [rootId], edgeIds := [] } := ⟨[], rfl, by simp⟩

theorem isStep_of_byId {id : String} {n : DagNode} (h : byId nodes id = some n)
    (hk : n.kind ≠ .task) : isStep nodes id = true := by
  unfold isStep; rw [h]; simpa using hk

theorem isStep_of_isDoneChild {id : String} (h : isDoneChild nodes id = true) : isStep nodes id = true := by
  unfold isDoneChild at h
  cases hn : byId nodes id with
  | none => rw [hn] at h; cases h
  | some n =>
    rw [hn] at h
    simp only [decide_eq_true_eq] at h
    exact isStep_of_byId hn h.1

theorem firstParentPath_ok {search : String → PathMemo → Option DagPathSelection × PathMemo}
    {nodeId : String} (hstep : isStep nodes nodeId = true)
    (hsearch : ∀ id memo, MemoOk nodes rootId memo →
      (∀ p, (search id memo).1 = some p → PathOk nodes rootId p) ∧
        MemoOk nodes rootId (search id memo).2) :
    ∀ (edges : List DagEdge) (memo : PathMemo), MemoOk nodes rootId memo →
      (∀ p, (firstParentPath search nodeId edges memo).1 = some p → PathOk nodes rootId p) ∧
        MemoOk nodes rootId (firstParentPath search nodeId edges memo).2
  | [], memo, hm => ⟨by simp [firstParentPath], hm⟩
  | edge :: rest, memo, hm => by
    obtain ⟨h1, h2⟩ := hsearch edge.sourceId memo hm
    unfold firstParentPath
    cases hs : search edge.sourceId memo with
    | mk found memo' =>
      rw [hs] at h1 h2
      cases found with
      | none => exact firstParentPath_ok hstep hsearch rest memo' h2
      | some found =>
        refine ⟨?_, h2⟩
        rintro p ⟨⟩
        obtain ⟨tail, ht, hok⟩ := h1 found rfl
        refine ⟨tail ++ [nodeId], by simp [ht], ?_⟩
        intro id hid
        rcases mem_append.mp hid with hid | hid
        · exact hok id hid
        · rw [mem_singleton.mp hid]; exact hstep

variable (incoming) in
theorem pathToRoot_ok : ∀ (fuel : ℕ) (visiting : List String) (nodeId : String) (memo : PathMemo),
    MemoOk nodes rootId memo →
      (∀ p, (pathToRoot nodes rootId incoming fuel visiting nodeId memo).1 = some p →
        PathOk nodes rootId p) ∧
      MemoOk nodes rootId (pathToRoot nodes rootId incoming fuel visiting nodeId memo).2
  | 0, _, _, _, hm => ⟨by simp [pathToRoot], hm⟩
  | fuel + 1, visiting, nodeId, memo, hm => by
    unfold pathToRoot
    by_cases hroot : nodeId = rootId
    · rw [if_pos hroot]
      exact ⟨by rintro p ⟨⟩; exact pathOk_rootOnly, hm⟩
    rw [if_neg hroot]
    cases hf : memo.lookup nodeId with
    | some found =>
      refine ⟨fun p hp => ?_, hm⟩
      obtain ⟨l₁, l₂, hl, -⟩ := lookup_eq_some_iff.mp hf
      exact hm (nodeId, found) (by rw [hl]; simp) p hp
    | none =>
      by_cases hvisiting : nodeId ∈ visiting
      · simp only [if_pos hvisiting]; exact ⟨by simp, hm⟩
      cases hnode : byId nodes nodeId with
      | none => simp only [if_neg hvisiting]; exact ⟨by simp, hm⟩
      | some node =>
        by_cases hk : node.kind = .task
        · simp only [if_neg hvisiting, if_pos hk]; exact ⟨by simp, hm⟩
        obtain ⟨h1, h2⟩ := firstParentPath_ok (isStep_of_byId hnode hk)
          (fun id memo => pathToRoot_ok fuel (nodeId :: visiting) id memo)
          (sortBy (compareParentEdges nodes rootId node)
            ((incoming nodeId).filter fun e => isActivePathEdge nodes rootId e node)) memo hm
        simp only [if_neg hvisiting, if_neg hk]
        refine ⟨h1, ?_⟩
        intro entry hentry p hp
        rcases mem_cons.mp hentry with rfl | hentry
        · exact h1 p hp
        · exact h2 entry hentry p hp

theorem firstFrontierPath_ok {fuel : ℕ} : ∀ (frontier : List DagNode) (memo : PathMemo),
    MemoOk nodes rootId memo → ∀ p,
      firstFrontierPath nodes rootId incoming fuel frontier memo = some p → PathOk nodes rootId p
  | [], _, _, _, h => by cases h
  | node :: rest, memo, hm, p, h => by
    obtain ⟨h1, h2⟩ := pathToRoot_ok incoming fuel [] node.id memo hm
    unfold firstFrontierPath at h
    cases hs : pathToRoot nodes rootId incoming fuel [] node.id memo with
    | mk found memo' =>
      rw [hs] at h h1 h2
      cases found with
      | none => exact firstFrontierPath_ok rest memo' h2 p h
      | some found => exact h1 p h

def StepsOk (nodes : List DagNode) (p : DagPathSelection) : Prop := ∀ id ∈ p.nodeIds, isStep nodes id = true

theorem bestCompletedPath_mem {paths : List DagPathSelection}
    (h : bestCompletedPath nodes paths = some p) : p ∈ paths :=
  (mem_sortBy _).mp (mem_of_head? h)

theorem suffixPaths_ok (search : String → SuffixMemo → DagPathSelection × SuffixMemo)
    (first : String)
    (hsearch : ∀ id memo, isStep nodes id = true → (∀ entry ∈ memo, StepsOk nodes entry.2) →
      StepsOk nodes (search id memo).1 ∧ ∀ entry ∈ (search id memo).2, StepsOk nodes entry.2) :
    ∀ (edges : List DagEdge) (memo : SuffixMemo), (∀ e ∈ edges, isStep nodes e.targetId = true) →
      (∀ entry ∈ memo, StepsOk nodes entry.2) →
      (∀ p ∈ (suffixPaths search first edges memo).1,
        ∃ rest, p.nodeIds = first :: rest ∧ ∀ id ∈ rest, isStep nodes id = true) ∧
      ∀ entry ∈ (suffixPaths search first edges memo).2, StepsOk nodes entry.2
  | [], memo, _, hm => ⟨by simp [suffixPaths], hm⟩
  | edge :: rest, memo, he, hm => by
    rw [forall_mem_cons] at he
    obtain ⟨h1, h2⟩ := hsearch edge.targetId memo he.1 hm
    obtain ⟨h3, h4⟩ := suffixPaths_ok search first hsearch rest (search edge.targetId memo).2 he.2 h2
    refine ⟨?_, h4⟩
    intro p hp
    rcases mem_cons.mp hp with rfl | hp
    · exact ⟨_, rfl, h1⟩
    · exact h3 p hp

theorem bestCompletedSuffix_ok : ∀ (fuel : ℕ) (visiting : List String) (nodeId : String)
    (memo : SuffixMemo), isStep nodes nodeId = true → (∀ entry ∈ memo, StepsOk nodes entry.2) →
      StepsOk nodes (bestCompletedSuffix nodes outgoing fuel visiting nodeId memo).1 ∧
      ∀ entry ∈ (bestCompletedSuffix nodes outgoing fuel visiting nodeId memo).2, StepsOk nodes entry.2
  | 0, _, nodeId, _, hstep, hm => ⟨by simpa [bestCompletedSuffix, StepsOk] using hstep, hm⟩
  | fuel + 1, visiting, nodeId, memo, hstep, hm => by
    have hself : StepsOk nodes { nodeIds := [nodeId], edgeIds := [] } := by
      simpa [StepsOk] using hstep
    unfold bestCompletedSuffix
    cases hf : memo.lookup nodeId with
    | some cached =>
      obtain ⟨l₁, l₂, hl, -⟩ := lookup_eq_some_iff.mp hf
      exact ⟨hm (nodeId, cached) (by rw [hl]; simp), hm⟩
    | none =>
      by_cases hvisiting : nodeId ∈ visiting
      · simp only [if_pos hvisiting]; exact ⟨hself, hm⟩
      simp only [if_neg hvisiting]
      set next := (outgoing nodeId).filter fun e => decide
        (e.type = .continues ∧ e.targetId ∉ nodeId :: visiting ∧ isDoneChild nodes e.targetId = true)
        with hnext
      have hsteps : ∀ e ∈ next, isStep nodes e.targetId = true := by
        intro e he
        have := (mem_filter.mp he).2
        simp only [decide_eq_true_eq] at this
        exact isStep_of_isDoneChild this.2.2
      obtain ⟨h1, h2⟩ := suffixPaths_ok
        (bestCompletedSuffix nodes outgoing fuel (nodeId :: visiting)) nodeId
        (fun id memo => bestCompletedSuffix_ok fuel (nodeId :: visiting) id memo)
        next memo hsteps hm
      set paths := suffixPaths (bestCompletedSuffix nodes outgoing fuel (nodeId :: visiting))
        nodeId next memo with hpaths
      have hbest : StepsOk nodes ((bestCompletedPath nodes
          ({ nodeIds := [nodeId], edgeIds := [] } :: paths.1)).getD
            { nodeIds := [nodeId], edgeIds := [] }) := by
        cases hb : bestCompletedPath nodes ({ nodeIds := [nodeId], edgeIds := [] } :: paths.1) with
        | none => exact hself
        | some p =>
          rcases mem_cons.mp (bestCompletedPath_mem hb) with rfl | hp
          · exact hself
          · obtain ⟨rest, hr, hok⟩ := h1 p hp
            intro id hid
            simp only [Option.getD_some, hr, mem_cons] at hid
            rcases hid with rfl | hid
            · exact hstep
            · exact hok id hid
      refine ⟨hbest, ?_⟩
      intro entry hentry
      rcases mem_cons.mp hentry with rfl | hentry
      · exact hbest
      · exact h2 entry hentry

theorem completedPathFromRoot_ok {fuel : ℕ}
    (h : completedPathFromRoot nodes rootId outgoing fuel = some p) : PathOk nodes rootId p := by
  refine (suffixPaths_ok _ _ (fun id memo => bestCompletedSuffix_ok fuel [] id memo) _ [] ?_ (by simp)).1
    p (bestCompletedPath_mem h)
  intro e he
  have := (mem_filter.mp he).2
  simp only [decide_eq_true_eq] at this
  exact isStep_of_isDoneChild this.2

end Path

/-- **The active path starts with the root and goes on over steps.** -/
theorem deriveActivePathSelection_ok {root : DagNode}
    (h : selectRootTask nodes = some root) (edges : List DagEdge) :
    PathOk nodes root.id (deriveActivePathSelection nodes edges) := by
  unfold deriveActivePathSelection
  rw [h]
  dsimp only
  split
  · next found hf => exact firstFrontierPath_ok _ [] (by intro e he; cases he) found hf
  · split_ifs
    · exact pathOk_rootOnly
    · generalize hc : completedPathFromRoot _ _ _ _ = found
      cases found with
      | none => exact pathOk_rootOnly
      | some p => exact completedPathFromRoot_ok hc

end Memmy.SessionDag.Selection
