import Memmy.SessionDag.Store

/-! # What an operation does to the graph

The invariants of the graph speak about the ids, kinds and goals of its nodes (`NodeShape`), which
never change, and about its edges; the rest of a node may change. `applyOp_effect` says what one
operation of a patch can do to either: nothing, add one node, or add one edge. -/

namespace Memmy.SessionDag.Shape

open Relation Lib.Reach Lib.Result Lib.Sort Lib.Text SessionDag.Types List
open Except SessionDag.Selection SessionDag.Store

/-- What never changes of a node. -/
structure NodeShape where
  id : String
  sessionKey : String
  kind : DagNodeKind
  goalId : Option String
  deriving DecidableEq

def shape (n : DagNode) : NodeShape :=
  { id := n.id, sessionKey := n.sessionKey, kind := n.kind, goalId := n.goalId }

def shapes (db : Db) : List NodeShape := db.nodes.map shape

/-- An edge leads from one id to the other. -/
abbrev Linked (edges : List DagEdge) : String → String → Prop :=
  Step (·.sourceId) (·.targetId) (fun _ => true) edges

variable {edges : List DagEdge}

theorem linked_iff {a b : String} : Linked edges a b ↔ ∃ e ∈ edges, e.sourceId = a ∧ e.targetId = b := by
  simp [Linked, Step]

theorem linked_append {e : DagEdge} {a b : String} :
    Linked (edges ++ [e]) a b ↔ Linked edges a b ∨ (a = e.sourceId ∧ b = e.targetId) := by
  simp only [linked_iff, mem_append, mem_singleton]
  constructor
  · rintro ⟨e', h | rfl, rfl, rfl⟩
    · exact Or.inl ⟨e', h, rfl, rfl⟩
    · exact Or.inr ⟨rfl, rfl⟩
  · rintro (⟨e', h, rfl, rfl⟩ | ⟨rfl, rfl⟩)
    · exact ⟨e', Or.inl h, rfl, rfl⟩
    · exact ⟨e, Or.inr rfl, rfl, rfl⟩

variable {edges' : List DagEdge}

theorem linked_mono (h : ∀ e ∈ edges, e ∈ edges') {a b : String} : Linked edges a b → Linked edges' a b := by
  rintro ⟨e, he, h1, h2⟩
  exact ⟨e, h e he, h1, h2⟩

theorem reached_mono (h : ∀ e ∈ edges, e ∈ edges') {a b : String}
    (hreach : ReflTransGen (Linked edges) a b) : ReflTransGen (Linked edges') a b :=
  ReflTransGen.mono (fun _ _ => linked_mono h) a b hreach

/-- **The recursive query** asks whether the source is reached from the target. -/
theorem wouldCreateCycle_iff {db : Db} {s t : String} :
    wouldCreateCycle db s t = true ↔ TransGen (Linked db.edges) t s := by
  unfold wouldCreateCycle
  rw [decide_eq_true_eq, mem_reach_iff, TransGen.head'_iff]
  constructor
  · rintro ⟨x, hx, h⟩
    exact ⟨x, (mem_successors _ _ _ _).mp hx, h⟩
  · rintro ⟨x, hx, h⟩
    exact ⟨x, (mem_successors _ _ _ _).mpr hx, h⟩

/-! ### Reading -/

section Read
variable {sessionKey : String} {db : Db} {n : DagNode} {id : String} {nodes : List DagNode}

@[simp] theorem parseNodeRow_id (n : DagNode) : (parseNodeRow n).id = n.id := rfl
@[simp] theorem parseNodeRow_sessionKey (n : DagNode) : (parseNodeRow n).sessionKey = n.sessionKey := rfl
@[simp] theorem parseNodeRow_kind (n : DagNode) : (parseNodeRow n).kind = n.kind := rfl
@[simp] theorem parseNodeRow_status (n : DagNode) : (parseNodeRow n).status = n.status := rfl
@[simp] theorem parseNodeRow_goalId (n : DagNode) : (parseNodeRow n).goalId = n.goalId := rfl
@[simp] theorem parseNodeRow_updatedAt (n : DagNode) : (parseNodeRow n).updatedAt = n.updatedAt := rfl
@[simp] theorem parseNodeRow_importance (n : DagNode) : (parseNodeRow n).importance = n.importance := rfl
@[simp] theorem shape_parseNodeRow (n : DagNode) : shape (parseNodeRow n) = shape n := rfl

theorem mem_readNodes :
    n ∈ readNodes sessionKey db ↔ ∃ row ∈ db.nodes, row.sessionKey = sessionKey ∧ parseNodeRow row = n := by
  unfold readNodes
  simp [and_assoc]

@[simp] theorem mem_readEdges {e : DagEdge} : e ∈ readEdges db ↔ e ∈ db.edges := by
  unfold readEdges; rw [mem_sortBy]

theorem byId_eq_some (h : byId nodes id = some n) : n ∈ nodes ∧ n.id = id := by
  exact ⟨mem_of_find?_eq_some h, by simpa using find?_some h⟩

theorem byId_eq_none : byId nodes id = none ↔ ∀ n ∈ nodes, n.id ≠ id := by
  unfold byId; simp

theorem getNode_eq_some (h : getNode sessionKey db id = some n) :
    ∃ row ∈ db.nodes, row.id = id ∧ row.sessionKey = sessionKey ∧ parseNodeRow row = n := by
  obtain ⟨row, hrow, rfl⟩ := Option.map_eq_some_iff.mp h
  have hp := find?_some hrow
  simp only [decide_eq_true_eq] at hp
  exact ⟨row, mem_of_find?_eq_some hrow, hp.1, hp.2, rfl⟩

end Read

/-! ### Writing -/

section Write
variable {sessionKey : String} {db db' : Db} {writeSource : DagWriteSource} {now : ℕ}

theorem shapes_setNode (db : Db) (id : String) {f : DagNode → DagNode} (hf : ∀ n, shape (f n) = shape n) :
    shapes (setNode db id f) = shapes db := by
  unfold shapes setNode
  rw [List.map_map]
  refine map_congr_left fun n _ => ?_
  simp only [Function.comp_apply]
  split_ifs
  · exact hf n
  · rfl

@[simp] theorem edges_setNode (id : String) (f : DagNode → DagNode) : (setNode db id f).edges = db.edges := rfl

@[simp] theorem shape_newNode (id : String) (op : AddNodePatchOp) (turn : DagTurn)
    (goal : Option DagGoalContext) (writeSource : DagWriteSource) (now : ℕ) (importance : ℚ) :
    shape (newNode sessionKey id op turn goal writeSource now importance) =
      { id := id, sessionKey := sessionKey, kind := op.kind, goalId := newGoalId op goal } := rfl

theorem insertNode_ok {id : String} {op : AddNodePatchOp} {turn : DagTurn}
    {goal : Option DagGoalContext} :
    insertNode sessionKey db id op turn goal writeSource now = .ok db' ↔
      ∃ importance, op.importance = .finite importance ∧ 0 ≤ importance ∧ importance ≤ 100 ∧
        (∀ n ∈ db.nodes, n.goalId.isSome = true → n.goalId ≠ newGoalId op goal) ∧
        (∀ n ∈ db.nodes, n.id ≠ id) ∧
        db' = { db with
          nodes := db.nodes ++ [newNode sessionKey id op turn goal writeSource now importance] } := by
  unfold insertNode
  cases op.importance with
  | finite q =>
    simp only [bind_eq_ok, throwIf_eq_ok, pure_eq, ok.injEq, JsNumber.finite.injEq]
    constructor
    · rintro ⟨-, h1, -, h2, -, h3, rfl⟩
      push Not at h1 h2 h3
      exact ⟨q, rfl, h1.1, h1.2, h2, h3, rfl⟩
    · rintro ⟨_, rfl, h0, h1, h2, h3, rfl⟩
      push Not
      exact ⟨(), ⟨h0, h1⟩, (), h2, (), h3, rfl⟩
  | _ => simp

@[simp] theorem shape_updatedRow (op : UpdateNodePatchOp) (turn : DagTurn)
    (writeSource : DagWriteSource) (now : ℕ) (node : DagNode) (importance : ℚ) (row : DagNode) :
    shape (updatedRow op turn writeSource now node importance row) = shape row := rfl

theorem updateNode_ok {op : UpdateNodePatchOp} {turn : DagTurn}
    (h : updateNode sessionKey db op turn writeSource now = .ok db') :
    ∃ row ∈ db.nodes, row.id = op.nodeId ∧ row.sessionKey = sessionKey ∧ ∃ importance,
      db' = setNode db op.nodeId
        (updatedRow op turn writeSource now (parseNodeRow row) importance) := by
  unfold updateNode at h
  cases hn : getNode sessionKey db op.nodeId with
  | none => rw [hn] at h; cases h
  | some node =>
    obtain ⟨row, hrow, hid, hkey, rfl⟩ := getNode_eq_some hn
    rw [hn] at h
    dsimp only at h
    split at h
    · cases h
    · next importance _ =>
      rw [parseNodeRow_id, hid] at h
      exact ⟨row, hrow, hid, hkey, importance, (ok.inj h).symm⟩

/-- The conditions under which an edge is inserted. -/
structure InsertsEdge (sessionKey : String) (db : Db) (id sourceId targetId : String)
    (type : DagEdgeType) : Prop where
  ne : sourceId ≠ targetId
  source : ∃ n ∈ db.nodes, n.id = sourceId
  target : ∃ n ∈ db.nodes, n.id = targetId
  new : ∀ e ∈ db.edges, ¬ (e.sourceId = sourceId ∧ e.targetId = targetId ∧ e.type = type)
  acyclic : ¬ TransGen (Linked db.edges) targetId sourceId
  fresh : ∀ e ∈ db.edges, e.id ≠ id
  frozen : type = .supersedes → (getNode sessionKey db sourceId).map (·.status) = some .frozen

/-- The row of an edge of a patch. -/
def patchEdge (id sourceId targetId : String) (type : DagEdgeType) (turnId : String)
    (writeSource : DagWriteSource) (now : ℕ) : DagEdge :=
  { id := id, sourceId := sourceId, targetId := targetId, type := type,
    createdTurnId := some turnId, createdBy := writeSource, createdAt := now }

theorem insertResolvedEdge_ok {id sourceId targetId turnId : String} {type : DagEdgeType}
    {r : Option Db}
    (h : insertResolvedEdge sessionKey db id sourceId targetId type turnId writeSource now = .ok r) :
    (r = none ∧ edgeExists db sourceId targetId type = true) ∨
      (InsertsEdge sessionKey db id sourceId targetId type ∧
        r = some { db with
          edges := db.edges ++ [patchEdge id sourceId targetId type turnId writeSource now] }) := by
  unfold insertResolvedEdge at h
  simp only [bind_eq_ok, throwIf_eq_ok] at h
  obtain ⟨-, hne, -, hnodes, -, hfrozen, h⟩ := h
  push Not at hnodes
  have hmem : ∀ {x : String}, getNode sessionKey db x ≠ none → ∃ n ∈ db.nodes, n.id = x := by
    intro x hx
    obtain ⟨n, hn⟩ := Option.ne_none_iff_exists'.mp hx
    obtain ⟨row, hrow, hid, -⟩ := getNode_eq_some hn
    exact ⟨row, hrow, hid⟩
  by_cases hex : edgeExists db sourceId targetId type = true
  · rw [if_pos hex] at h
    exact Or.inl ⟨(ok.inj h).symm, hex⟩
  · rw [if_neg hex] at h
    simp only [bind_eq_ok, throwIf_eq_ok, pure_eq, ok.injEq] at h
    obtain ⟨-, hcycle, -, hid, rfl⟩ := h
    rw [wouldCreateCycle_iff] at hcycle
    push Not at hid
    refine Or.inr ⟨⟨hne, hmem (by simpa using hnodes.1), hmem (by simpa using hnodes.2), ?_, hcycle,
      hid, fun ht => ?_⟩, rfl⟩
    · simpa [edgeExists] using hex
    · by_contra hc
      exact hfrozen ⟨ht, hc⟩

end Write

/-! ### One operation of a patch -/

section ApplyOp
variable {sessionKey : String} {env : Env} {turn : DagTurn} {goal : Option DagGoalContext}
  {writeSource : DagWriteSource} {run run' : PatchRun}

theorem applyOp_addNode_ok {op : AddNodePatchOp}
    (h : applyOp sessionKey env turn goal writeSource run (.addNode op) = .ok run') :
    ∃ db, insertNode sessionKey run.db (nodeIdOf env run.drawn) op turn goal writeSource env.now =
        .ok db ∧
      run' = { run with
        db := db
        drawn := run.drawn + 1
        tempNodeIds := setTempId run.tempNodeIds op.tempId (nodeIdOf env run.drawn)
        addedTaskNodeIds := if op.kind = .task then
          run.addedTaskNodeIds ++ [nodeIdOf env run.drawn] else run.addedTaskNodeIds
        addedChildNodeIds := if op.kind = .task then
          run.addedChildNodeIds else run.addedChildNodeIds ++ [nodeIdOf env run.drawn] } := by
  simp only [applyOp, bind_eq_ok, pure_eq, ok.injEq] at h
  obtain ⟨db, hdb, rfl⟩ := h
  exact ⟨db, hdb, rfl⟩

theorem applyOp_updateNode_ok {op : UpdateNodePatchOp}
    (h : applyOp sessionKey env turn goal writeSource run (.updateNode op) = .ok run') :
    ∃ db, updateNode sessionKey run.db op turn writeSource env.now = .ok db ∧ run' = { run with db := db } := by
  simp only [applyOp, bind_eq_ok, pure_eq, ok.injEq] at h
  obtain ⟨db, hdb, rfl⟩ := h
  exact ⟨db, hdb, rfl⟩

theorem applyOp_addEdge_ok {op : AddEdgePatchOp}
    (h : applyOp sessionKey env turn goal writeSource run (.addEdge op) = .ok run') :
    ∃ sourceId targetId, resolveTempId run.tempNodeIds op.sourceId = .ok sourceId ∧
      resolveTempId run.tempNodeIds op.targetId = .ok targetId ∧
      ((run' = run ∧ edgeExists run.db sourceId targetId op.type = true) ∨
        (InsertsEdge sessionKey run.db (edgeIdOf env run.drawn) sourceId targetId op.type ∧
          run' = { run with
            db := { run.db with edges := run.db.edges ++ [patchEdge (edgeIdOf env run.drawn)
              sourceId targetId op.type turn.turnId writeSource env.now] }
            drawn := run.drawn + 1
            edgeIds := run.edgeIds ++ [edgeIdOf env run.drawn] })) := by
  simp only [applyOp, bind_eq_ok] at h
  obtain ⟨s, hs, t, ht, r, hr, h⟩ := h
  refine ⟨s, t, hs, ht, ?_⟩
  rcases insertResolvedEdge_ok hr with ⟨rfl, hex⟩ | ⟨hins, rfl⟩
  · exact Or.inl ⟨(ok.inj h).symm, hex⟩
  · exact Or.inr ⟨hins, (ok.inj h).symm⟩

end ApplyOp

end Memmy.SessionDag.Shape
