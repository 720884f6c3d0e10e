import Mathlib.Data.List.Zip
import Memmy.SessionDag.Invariant
import Memmy.SessionDag.Validated

/-! # What the loop of a patch has done

`Ran` says how the tables and the state of the loop follow from the operations that have run: a row
that was there has the status that the updates of it give, the new rows are those of the new nodes in
order, and the new edges are those that the patch names.

* `Ran.applyOp`: one operation of a checked patch.
* `opError_of_applyOp`: the ways in which an operation of a checked patch can fail.
* `ran_of_foldlM`, `error_of_foldlM`: the same for the loop. -/

namespace Memmy.SessionDag.Progress

open Relation Lib.Reach Lib.Result SessionDag.Types SessionDag.PatchSchema List
open Option SessionDag.Store SessionDag.Shape SessionDag.Invariant SessionDag.Validated

/-! ### Rows -/

def statusAfter (ops : DagPatch) (id : String) (status : DagNodeStatus) : DagNodeStatus :=
  (updatesOf ops id).foldl (fun s u => u.status.getD s) status

theorem updatesOf_append (ops ops' : DagPatch) (id : String) :
    updatesOf (ops ++ ops') id = updatesOf ops id ++ updatesOf ops' id := by
  unfold updatesOf; rw [filterMap_append, filter_append]

@[simp] theorem updatesOf_addNode (op : AddNodePatchOp) (id : String) : updatesOf [.addNode op] id = [] := rfl

theorem updatesOf_updateNode (op : UpdateNodePatchOp) (id : String) :
    updatesOf [.updateNode op] id = if op.nodeId = id then [op] else [] := by
  change List.filter _ [op] = _
  by_cases h : op.nodeId = id <;> simp [h]

theorem foldl_status_of_const {d : DagNodeStatus} : ∀ {us : List UpdateNodePatchOp} {status : DagNodeStatus},
    (∀ u ∈ us, u.status = some d) → us.foldl (fun s u => u.status.getD s) status = if us = [] then status else d
  | [], _, _ => rfl
  | u :: us, status, h => by
    rw [foldl_cons, h u mem_cons_self, getD_some,
      foldl_status_of_const fun u hu => h u (mem_cons_of_mem _ hu), if_neg (cons_ne_nil _ _)]
    split_ifs <;> rfl

theorem statusAfter_of_const {ops : DagPatch} {id : String} {status d : DagNodeStatus}
    (h : ∀ u ∈ updatesOf ops id, u.status = some d) :
    statusAfter ops id status = if updatesOf ops id = [] then status else d :=
  foldl_status_of_const h

@[simp] theorem filterMap_snoc_updateNode (ops : DagPatch) (u : UpdateNodePatchOp) :
    (ops ++ [DagPatchOp.updateNode u]).filterMap DagPatchOp.addNode? = ops.filterMap DagPatchOp.addNode? := by
  rw [filterMap_append]
  exact append_nil _

@[simp] theorem filterMap_snoc_addEdge (ops : DagPatch) (e : AddEdgePatchOp) :
    (ops ++ [DagPatchOp.addEdge e]).filterMap DagPatchOp.addNode? = ops.filterMap DagPatchOp.addNode? := by
  rw [filterMap_append]
  exact append_nil _

section Rows
variable (sessionKey : String) (env : Env) (goal : Option DagGoalContext) {ops : DagPatch}

/-- What has become of a row that was there. -/
structure OldRow (ops : DagPatch) (m n : DagNode) : Prop where
  shape : shape n = Shape.shape m
  status : n.status = statusAfter ops m.id m.status
  createdAt : n.createdAt = m.createdAt
  updatedAt : n.updatedAt = if updatesOf ops m.id = [] then m.updatedAt else env.now

structure NewRow (op : AddNodePatchOp) (n : DagNode) : Prop where
  sessionKey : n.sessionKey = sessionKey
  kind : n.kind = op.kind
  status : n.status = op.status
  goalId : n.goalId = newGoalId op goal
  createdAt : n.createdAt = env.now
  updatedAt : n.updatedAt = env.now

variable {env}

theorem OldRow.id {m n : DagNode} (h : OldRow env ops m n) : n.id = m.id := congrArg NodeShape.id h.shape

theorem OldRow.kind {m n : DagNode} (h : OldRow env ops m n) : n.kind = m.kind :=
  congrArg NodeShape.kind h.shape

theorem OldRow.goalId {m n : DagNode} (h : OldRow env ops m n) : n.goalId = m.goalId :=
  congrArg NodeShape.goalId h.shape

theorem oldRow_refl (m : DagNode) : OldRow env [] m m := ⟨rfl, rfl, rfl, rfl⟩

theorem OldRow.snoc {m n : DagNode} (h : OldRow env ops m n) {op : DagPatchOp}
    (hop : updatesOf [op] m.id = []) : OldRow env (ops ++ [op]) m n := by
  have hu : updatesOf (ops ++ [op]) m.id = updatesOf ops m.id := by
    rw [updatesOf_append, hop, append_nil]
  exact ⟨h.shape, by rw [h.status]; unfold statusAfter; rw [hu], h.createdAt,
    by rw [h.updatedAt, hu]⟩

theorem OldRow.update {m n : DagNode} (h : OldRow env ops m n)
    {u : UpdateNodePatchOp} (hid : u.nodeId = m.id) (turn : DagTurn) (writeSource : DagWriteSource)
    (importance : ℚ) : OldRow env (ops ++ [.updateNode u]) m
      (updatedRow u turn writeSource env.now (parseNodeRow n) importance n) := by
  have hu : updatesOf (ops ++ [.updateNode u]) m.id = updatesOf ops m.id ++ [u] := by
    rw [updatesOf_append, updatesOf_updateNode, if_pos hid]
  refine ⟨h.shape, ?_, h.createdAt, ?_⟩
  · unfold statusAfter
    rw [hu, foldl_append]
    change u.status.getD n.status = _
    rw [h.status]
    rfl
  · rw [hu, if_neg (by simp)]
    rfl

end Rows

/-! ### The state of the loop -/

/-- What a name of a patch stands for. -/
def Names (db : Db) (tempNodeIds : List (String × String)) (name id : String) : Prop :=
  (name, id) ∈ tempNodeIds ∨ (name = id ∧ ∃ m ∈ db.nodes, m.id = id)

theorem Names.mono {db : Db} {tempNodeIds tempNodeIds' : List (String × String)}
    (h : ∀ p ∈ tempNodeIds, p ∈ tempNodeIds') {name id : String} (hn : Names db tempNodeIds name id) :
    Names db tempNodeIds' name id :=
  hn.imp_left (h _)

section Loop
variable (sessionKey : String) (env : Env) (turn : DagTurn) (goal : Option DagGoalContext)
  (writeSource : DagWriteSource) (db₀ : Db)

/-- **What the loop has done** when the operations `ops` have run. -/
structure Ran (ops : DagPatch) (run : PatchRun) (olds news : List DagNode) : Prop where
  loop : Loop sessionKey db₀ run
  nodes : run.db.nodes = olds ++ news
  oldRows : List.Forall₂ (OldRow env ops) db₀.nodes olds
  newRows : List.Forall₂ (NewRow sessionKey env goal) (ops.filterMap DagPatchOp.addNode?) news
  newIds : ∀ n ∈ news, ∃ j < run.drawn, n.id = nodeIdOf env j
  tempNodeIds : run.tempNodeIds = ((tempIds ops).zip (news.map (·.id))).reverse
  addedTasks : run.addedTaskNodeIds = (news.filter fun n => n.kind = .task).map (·.id)
  addedChildren : run.addedChildNodeIds = (news.filter fun n => n.kind ≠ .task).map (·.id)
  edges : ∃ es, run.db.edges = db₀.edges ++ es ∧ ∀ e ∈ es,
    (∃ j < run.drawn, e.id = edgeIdOf env j) ∧ e.createdTurnId = some turn.turnId ∧
      ∃ op, .addEdge op ∈ ops ∧ e.type = op.type ∧
        Names db₀ run.tempNodeIds op.sourceId e.sourceId ∧
        Names db₀ run.tempNodeIds op.targetId e.targetId
  linked : ∀ op, .addEdge op ∈ ops → ∃ e ∈ run.db.edges, e.type = op.type ∧
    Names db₀ run.tempNodeIds op.sourceId e.sourceId ∧
    Names db₀ run.tempNodeIds op.targetId e.targetId
  turns : run.db.turns = db₀.turns

variable {sessionKey env turn goal writeSource db₀}

/-- Before the first operation. -/
theorem ran_nil (h : WellFormed sessionKey db₀) :
    Ran sessionKey env turn goal db₀ [] { db := db₀ } db₀.nodes [] where
  loop := ⟨h.built, fun _ h => h, fun _ h => Or.inl h, fun _ h => h⟩
  nodes := (append_nil _).symm
  oldRows := List.forall₂_same.mpr fun m _ => oldRow_refl m
  newRows := List.Forall₂.nil
  newIds := by simp
  tempNodeIds := rfl
  addedTasks := rfl
  addedChildren := rfl
  edges := ⟨[], (append_nil _).symm, by simp⟩
  linked := by simp
  turns := rfl

theorem forall₂_map_right {α β : Type} {R S : α → β → Prop} {f : β → β} :
    ∀ {l : List α} {u : List β}, List.Forall₂ R l u → (∀ a ∈ l, ∀ b ∈ u, R a b → S a (f b)) →
      List.Forall₂ S l (u.map f)
  | [], [], _, _ => List.Forall₂.nil
  | a :: l, b :: u, h, hf => by
    obtain ⟨hab, h⟩ := List.forall₂_cons.mp h
    exact List.Forall₂.cons (hf a mem_cons_self b mem_cons_self hab) (forall₂_map_right h
      fun a ha b hb => hf a (mem_cons_of_mem _ ha) b (mem_cons_of_mem _ hb))

theorem fst_eq_of_zip {α β : Type} {a a' : α} {b : β} {l : List α} {u : List β} (hu : u.Nodup)
    (h : (a, b) ∈ l.zip u) (h' : (a', b) ∈ l.zip u) : a = a' := by
  obtain ⟨i, hi, heq⟩ := mem_iff_getElem.mp h
  obtain ⟨j, hj, heq'⟩ := mem_iff_getElem.mp h'
  rw [getElem_zip, Prod.mk.injEq] at heq heq'
  obtain rfl := hu.getElem_inj_iff.mp (heq.2.trans heq'.2.symm)
  exact heq.1.symm.trans heq'.1

theorem exists_zip_of_forall₂ {α β γ δ : Type} {R : α → β → Prop} (f : α → γ) (g : β → δ) :
    ∀ {l : List α} {u : List β}, List.Forall₂ R l u → ∀ {b}, b ∈ u →
      ∃ a ∈ l, R a b ∧ (f a, g b) ∈ (l.map f).zip (u.map g)
  | _, _, List.Forall₂.nil, _, hb => by cases hb
  | a :: l, b' :: u, List.Forall₂.cons hab h, b, hb => by
    rcases mem_cons.mp hb with rfl | hb
    · exact ⟨a, mem_cons_self, hab, mem_cons_self⟩
    · obtain ⟨a', ha', hr, hzip⟩ := exists_zip_of_forall₂ f g h hb
      exact ⟨a', mem_cons_of_mem _ ha', hr, mem_cons_of_mem _ hzip⟩

theorem exists_of_forall₂ {α β : Type} {R : α → β → Prop} {l : List α} {u : List β} (h : List.Forall₂ R l u) {b : β}
    (hb : b ∈ u) : ∃ a ∈ l, R a b := by
  obtain ⟨a, ha, hab, -⟩ := exists_zip_of_forall₂ id id h hb
  exact ⟨a, ha, hab⟩

section Facts
variable {ops : DagPatch} {run : PatchRun} {olds news : List DagNode}
  (h : Ran sessionKey env turn goal db₀ ops run olds news) {name : String}
variable {n : DagNode} {ids : List String} {id : String}

include h

theorem Ran.exists_old {m : DagNode} (hm : m ∈ db₀.nodes) : ∃ n ∈ olds, OldRow env ops m n :=
  exists_of_forall₂ h.oldRows.flip hm

theorem Ran.of_old (hn : n ∈ olds) : ∃ m ∈ db₀.nodes, OldRow env ops m n := exists_of_forall₂ h.oldRows hn

theorem Ran.of_new (hn : n ∈ news) :
    ∃ op, .addNode op ∈ ops ∧ NewRow sessionKey env goal op n ∧ (op.tempId, n.id) ∈ run.tempNodeIds := by
  obtain ⟨op, hop, hrow, hzip⟩ := exists_zip_of_forall₂ (·.tempId) (·.id) h.newRows hn
  obtain ⟨o, ho, hadd⟩ := mem_filterMap.mp hop
  cases o <;> cases hadd
  exact ⟨_, ho, hrow, by rw [h.tempNodeIds, mem_reverse]; exact hzip⟩

theorem Ran.length_news : news.length = (tempIds ops).length := by
  unfold tempIds
  rw [length_map, h.newRows.length_eq]

/-- Two rows with one id are one row. -/
theorem Ran.eq_of_id {n' : DagNode} (hn : n ∈ run.db.nodes) (hn' : n' ∈ run.db.nodes)
    (hid : n.id = n'.id) : n = n' :=
  inj_on_of_nodup_map (nodup_ids_nodes h.loop.built.ids rfl) hn hn' hid

theorem Ran.new_ne_old {m : DagNode} (hn : n ∈ news) (hm : m ∈ db₀.nodes) : n.id ≠ m.id := by
  obtain ⟨n', hn', hrow⟩ := h.exists_old hm
  have hnodup := h.loop.built.ids
  unfold shapes at hnodup
  rw [List.map_map, h.nodes, List.map_append, List.nodup_append] at hnodup
  have hne := hnodup.2.2 n'.id (mem_map.mpr ⟨n', hn', rfl⟩) n.id (mem_map.mpr ⟨n, hn, rfl⟩)
  rw [← hrow.id]
  exact fun he => hne he.symm

theorem Ran.mem_tempNodeIds (hmem : (name, id) ∈ run.tempNodeIds) :
    name ∈ tempIds ops ∧ ∃ n ∈ news, n.id = id := by
  rw [h.tempNodeIds, mem_reverse] at hmem
  obtain ⟨h1, h2⟩ := of_mem_zip hmem
  exact ⟨h1, mem_map.mp h2⟩

theorem Ran.exists_temp (hname : name ∈ tempIds ops) : ∃ id, (name, id) ∈ run.tempNodeIds := by
  have hlen : (tempIds ops).length ≤ (news.map (·.id)).length := by
    rw [length_map, h.length_news]
  rw [← map_fst_zip hlen, List.mem_map] at hname
  obtain ⟨p, hp, rfl⟩ := hname
  exact ⟨p.2, by rw [h.tempNodeIds, mem_reverse]; exact hp⟩

theorem Ran.lookup_ne_none (hname : name ∈ tempIds ops) : run.tempNodeIds.lookup name ≠ none := by
  intro hnone
  obtain ⟨id, hmem⟩ := h.exists_temp hname
  have := lookup_eq_none_iff.mp hnone _ hmem
  simp at this

theorem Ran.nodup_newIds : (news.map (·.id)).Nodup := by
  have hnodup := h.loop.built.ids
  unfold shapes at hnodup
  rw [List.map_map, h.nodes, List.map_append, List.nodup_append] at hnodup
  exact hnodup.2.1

theorem Ran.eq_of_names {name' : String} (hn : Names db₀ run.tempNodeIds name id)
    (hmem : (name', id) ∈ run.tempNodeIds) : name = name' := by
  obtain ⟨-, n, hnew, hid⟩ := h.mem_tempNodeIds hmem
  rcases hn with hn | ⟨-, m, hm, hmid⟩
  · rw [h.tempNodeIds, mem_reverse] at hn hmem
    exact fst_eq_of_zip h.nodup_newIds hn hmem
  · exact absurd (hid.trans hmid.symm) (h.new_ne_old hnew hm)

theorem Ran.snd_eq_of_temp (htemps : (tempIds ops).Nodup) {id' : String}
    (hmem : (name, id) ∈ run.tempNodeIds) (hmem' : (name, id') ∈ run.tempNodeIds) : id = id' := by
  rw [h.tempNodeIds, mem_reverse] at hmem hmem'
  have hswap : ∀ i, (name, i) ∈ (tempIds ops).zip (news.map (·.id)) →
      (i, name) ∈ (news.map (·.id)).zip (tempIds ops) := by
    intro i hi
    rw [← zip_swap]
    exact mem_map.mpr ⟨(name, i), hi, rfl⟩
  exact fst_eq_of_zip htemps (hswap id hmem) (hswap id' hmem')

theorem Ran.names_of_resolve
    (hids : ∀ id ∈ ids, ∃ m ∈ db₀.nodes, m.id = id) (hname : name ∈ tempIds ops ++ ids)
    (hres : resolveTempId run.tempNodeIds name = .ok id) : Names db₀ run.tempNodeIds name id := by
  unfold resolveTempId at hres
  cases hl : run.tempNodeIds.lookup name with
  | some nodeId =>
    rw [hl] at hres
    cases hres
    obtain ⟨l₁, l₂, hl, -⟩ := lookup_eq_some_iff.mp hl
    exact Or.inl (by rw [hl]; simp)
  | none =>
    rw [hl] at hres
    split_ifs at hres
    cases hres
    rcases mem_append.mp hname with hname | hname
    · exact absurd hl (h.lookup_ne_none hname)
    · exact Or.inr ⟨rfl, hids _ hname⟩

theorem Ran.resolve (hids : ∀ id ∈ ids, ∃ m ∈ db₀.nodes, m.id = id) (hname : name ∈ tempIds ops ++ ids) :
    ∃ id, resolveTempId run.tempNodeIds name = .ok id ∧ ∃ n ∈ run.db.nodes, n.id = id := by
  have hexists : ∀ id, resolveTempId run.tempNodeIds name = .ok id → ∃ n ∈ run.db.nodes, n.id = id := by
    intro id hres
    rw [h.nodes]
    rcases h.names_of_resolve hids hname hres with hmem | ⟨-, m, hm, hid⟩
    · obtain ⟨-, n, hn, hid⟩ := h.mem_tempNodeIds hmem
      exact ⟨n, mem_append_right _ hn, hid⟩
    · obtain ⟨n, hn, hrow⟩ := h.exists_old hm
      exact ⟨n, mem_append_left _ hn, hrow.id.trans hid⟩
  cases hl : run.tempNodeIds.lookup name with
  | some nodeId =>
    have hres : resolveTempId run.tempNodeIds name = .ok nodeId := by
      unfold resolveTempId; rw [hl]
    exact ⟨nodeId, hres, hexists _ hres⟩
  | none =>
    have hproto : name ∉ objectPrototypeKeys := by
      intro hproto
      rcases mem_append.mp hname with hname | hname
      · exact h.lookup_ne_none hname hl
      · obtain ⟨m, hm, rfl⟩ := hids _ hname
        obtain ⟨n, hn, hrow⟩ := h.exists_old hm
        obtain ⟨s, hs⟩ := h.loop.built.named (Shape.shape n)
          (mem_shapes.mpr ⟨n, by rw [h.nodes]; exact mem_append_left _ hn, rfl⟩)
        change n.id = _ at hs
        rw [← hrow.id, hs] at hproto
        revert hproto
        simp [objectPrototypeKeys, String.ext_iff]
    have hres : resolveTempId run.tempNodeIds name = .ok name := by
      unfold resolveTempId; rw [hl]; exact if_neg hproto
    exact ⟨name, hres, hexists _ hres⟩

end Facts

/-! ### One operation -/

section Step
variable {ops : DagPatch} {run run' : PatchRun} {olds news : List DagNode} {ids : List String}

section
variable (h : Ran sessionKey env turn goal db₀ ops run olds news)
include h

theorem Ran.addNode {a : AddNodePatchOp} (htemp : TempName a.tempId) (hnew : a.tempId ∉ tempIds ops)
    (hop : applyOp sessionKey env turn goal writeSource run (.addNode a) = .ok run') :
    ∃ n, Ran sessionKey env turn goal db₀ (ops ++ [.addNode a]) run' olds (news ++ [n]) := by
  have hloop := h.loop.addNode hop
  obtain ⟨db, hdb, rfl⟩ := applyOp_addNode_ok hop
  obtain ⟨importance, -, -, -, -, -, rfl⟩ := insertNode_ok.mp hdb
  set id := nodeIdOf env run.drawn with hid
  set n := newNode sessionKey id a turn goal writeSource env.now importance with hn
  have hset : setTempId run.tempNodeIds a.tempId id = (a.tempId, id) :: run.tempNodeIds := by
    unfold setTempId
    rw [if_neg htemp.ne_proto, filter_eq_self.mpr]
    rintro ⟨name, id'⟩ hmem
    rw [decide_eq_true_eq]
    rintro rfl
    exact hnew (h.mem_tempNodeIds hmem).1
  have hmono : ∀ p ∈ run.tempNodeIds, p ∈ setTempId run.tempNodeIds a.tempId id := by
    intro p hp
    rw [hset]
    exact mem_cons_of_mem _ hp
  refine ⟨n, hloop, ?_, ?_, ?_, ?_, ?_, ?_, ?_, ?_, ?_, h.turns⟩
  · rw [h.nodes, append_assoc]
  · exact h.oldRows.imp fun m n hrow => hrow.snoc rfl
  · rw [filterMap_append]
    exact rel_append h.newRows (List.Forall₂.cons ⟨rfl, rfl, rfl, rfl, rfl, rfl⟩ List.Forall₂.nil)
  · intro n' hn'
    rcases mem_append.mp hn' with hn' | hn'
    · obtain ⟨j, hj, hid'⟩ := h.newIds n' hn'
      exact ⟨j, by simp only; omega, hid'⟩
    · rw [mem_singleton.mp hn']
      exact ⟨run.drawn, by simp only; omega, rfl⟩
  · rw [hset, h.tempNodeIds, tempIds_append, List.map_append,
      zip_append (by rw [length_map, h.length_news]), reverse_append]
    rfl
  · by_cases hk : a.kind = .task
    · simp [hk, h.addedTasks, hn, newNode]
    · have hkn : n.kind ≠ .task := hk
      simp [hk, h.addedTasks, hkn]
  · by_cases hk : a.kind = .task
    · have hkn : n.kind = .task := hk
      simp [hk, h.addedChildren, hkn]
    · simp [hk, h.addedChildren, hn, newNode]
  · obtain ⟨es, hes, hall⟩ := h.edges
    refine ⟨es, hes, fun e he => ?_⟩
    obtain ⟨⟨j, hj, hid'⟩, hturn, op, hop, htype, hs, ht⟩ := hall e he
    exact ⟨⟨j, by simp only; omega, hid'⟩, hturn, op, mem_append_left _ hop, htype,
      hs.mono hmono, ht.mono hmono⟩
  · intro op hop
    obtain ⟨e, he, htype, hs, ht⟩ := h.linked op (by simpa using hop)
    exact ⟨e, he, htype, hs.mono hmono, ht.mono hmono⟩

theorem Ran.updateNode {u : UpdateNodePatchOp}
    
    (hknown : ∃ m ∈ db₀.nodes, m.id = u.nodeId)
    (hop : applyOp sessionKey env turn goal writeSource run (.updateNode u) = .ok run') :
    ∃ olds', Ran sessionKey env turn goal db₀ (ops ++ [.updateNode u]) run' olds' news := by
  have hloop := h.loop.updateNode hop
  obtain ⟨db, hdb, rfl⟩ := applyOp_updateNode_ok hop
  obtain ⟨row, hrow, hrowid, -, importance, rfl⟩ := updateNode_ok hdb
  obtain ⟨m₀, hm₀, hid₀⟩ := hknown
  set f := updatedRow u turn writeSource env.now (parseNodeRow row) importance with hf
  set g : DagNode → DagNode := fun n => if n.id = u.nodeId then f n else n with hg
  have hnews : news.map g = news := by
    conv_rhs => rw [← map_id news]
    refine map_congr_left fun n hn => ?_
    rw [hg]
    dsimp only
    rw [if_neg (hid₀ ▸ h.new_ne_old hn hm₀)]
    rfl
  refine ⟨olds.map g, hloop, ?_, ?_, ?_, h.newIds, ?_, h.addedTasks, h.addedChildren, ?_, ?_, h.turns⟩
  · change run.db.nodes.map g = _
    rw [h.nodes, List.map_append, hnews]
  · refine forall₂_map_right h.oldRows fun m _ n hn hold => ?_
    rw [hg]
    dsimp only
    by_cases hid : n.id = u.nodeId
    · rw [if_pos hid]
      have heq : n = row := h.eq_of_id (by rw [h.nodes]; exact mem_append_left _ hn) hrow
        (hid.trans hrowid.symm)
      have := hold.update (hid.symm.trans hold.id) turn writeSource importance
      rwa [heq] at this ⊢
    · rw [if_neg hid]
      exact hold.snoc (by rw [updatesOf_updateNode, if_neg fun he => hid (hold.id.trans he.symm)])
  · rw [filterMap_snoc_updateNode]
    exact h.newRows
  · rw [tempIds_append]
    simpa using h.tempNodeIds
  · obtain ⟨es, hes, hall⟩ := h.edges
    refine ⟨es, hes, fun e he => ?_⟩
    obtain ⟨hid', hturn, op, hop, hrest⟩ := hall e he
    exact ⟨hid', hturn, op, mem_append_left _ hop, hrest⟩
  · intro op hop
    exact h.linked op (by simpa using hop)

theorem Ran.addEdge {e : AddEdgePatchOp} (hids : ∀ id ∈ ids, ∃ m ∈ db₀.nodes, m.id = id)
    (hknown : e.sourceId ∈ tempIds ops ++ ids ∧ e.targetId ∈ tempIds ops ++ ids)
    (hop : applyOp sessionKey env turn goal writeSource run (.addEdge e) = .ok run') :
    Ran sessionKey env turn goal db₀ (ops ++ [.addEdge e]) run' olds news := by
  have hloop := h.loop.addEdge hop
  obtain ⟨s, t, hs, ht, hrun⟩ := applyOp_addEdge_ok hop
  have hsn := h.names_of_resolve hids hknown.1 hs
  have htn := h.names_of_resolve hids hknown.2 ht
  have hold : List.Forall₂ (OldRow env (ops ++ [.addEdge e])) db₀.nodes olds :=
    h.oldRows.imp fun m n hrow => hrow.snoc rfl
  have hnew : List.Forall₂ (NewRow sessionKey env goal)
      ((ops ++ [DagPatchOp.addEdge e]).filterMap DagPatchOp.addNode?) news := by
    rw [filterMap_snoc_addEdge]
    exact h.newRows
  have htemps : run.tempNodeIds = ((tempIds (ops ++ [.addEdge e])).zip (news.map (·.id))).reverse := by
    simpa using h.tempNodeIds
  obtain ⟨es, hes, hall⟩ := h.edges
  have hlinked : ∀ {edges : List DagEdge}, (∀ e' ∈ run.db.edges, e' ∈ edges) →
      (∃ e' ∈ edges, e'.type = e.type ∧ e'.sourceId = s ∧ e'.targetId = t) →
      ∀ op, DagPatchOp.addEdge op ∈ ops ++ [.addEdge e] → ∃ e' ∈ edges, e'.type = op.type ∧
        Names db₀ run.tempNodeIds op.sourceId e'.sourceId ∧
        Names db₀ run.tempNodeIds op.targetId e'.targetId := by
    rintro edges hsub ⟨e', he', htype, rfl, rfl⟩ op hop
    rcases mem_append.mp hop with hop | hop
    · obtain ⟨e₁, he₁, hrest⟩ := h.linked op hop
      exact ⟨e₁, hsub e₁ he₁, hrest⟩
    · cases mem_singleton.mp hop
      exact ⟨e', he', htype, hsn, htn⟩
  rcases hrun with ⟨rfl, hex⟩ | ⟨-, rfl⟩
  · refine ⟨hloop, h.nodes, hold, hnew, h.newIds, htemps, h.addedTasks, h.addedChildren,
      ⟨es, hes, ?_⟩, hlinked (fun _ h => h) ?_, h.turns⟩
    · intro e' he'
      obtain ⟨hid', hturn, op, hop, hrest⟩ := hall e' he'
      exact ⟨hid', hturn, op, mem_append_left _ hop, hrest⟩
    · unfold edgeExists at hex
      obtain ⟨e', he', hp⟩ := any_eq_true.mp hex
      simp only [decide_eq_true_eq] at hp
      exact ⟨e', he', hp.2.2, hp.1, hp.2.1⟩
  · refine ⟨hloop, h.nodes, hold, hnew, ?_, htemps, h.addedTasks, h.addedChildren,
      ⟨es ++ [patchEdge (edgeIdOf env run.drawn) s t e.type turn.turnId writeSource env.now], ?_, ?_⟩,
      hlinked (fun _ h => mem_append_left _ h)
        ⟨_, mem_append_right _ mem_cons_self, rfl, rfl, rfl⟩, h.turns⟩
    · intro n hn
      obtain ⟨j, hj, hid'⟩ := h.newIds n hn
      exact ⟨j, by simp only; omega, hid'⟩
    · rw [hes, append_assoc]
    · intro e' he'
      rcases mem_append.mp he' with he' | he'
      · obtain ⟨⟨j, hj, hid'⟩, hturn, op, hop, hrest⟩ := hall e' he'
        exact ⟨⟨j, by simp only; omega, hid'⟩, hturn, op, mem_append_left _ hop, hrest⟩
      · rw [mem_singleton.mp he']
        exact ⟨⟨run.drawn, by simp only; omega, rfl⟩, rfl, e, mem_append_right _ mem_cons_self,
          rfl, hsn, htn⟩

end

/-- **One operation of a checked patch.** -/
theorem Ran.applyOp {patch post : DagPatch} {op : DagPatchOp} (hpatch : PatchOk ids patch)
    (hids : ∀ id ∈ ids, ∃ m ∈ db₀.nodes, m.id = id) (hsplit : patch = ops ++ op :: post)
    (h : Ran sessionKey env turn goal db₀ ops run olds news)
    (hop : Store.applyOp sessionKey env turn goal writeSource run op = .ok run') :
    ∃ olds' news', Ran sessionKey env turn goal db₀ (ops ++ [op]) run' olds' news' := by
  have hmem : op ∈ patch := by rw [hsplit]; simp
  cases op with
  | addNode a =>
    have htemps := hpatch.temps
    rw [hsplit, tempIds_append, tempIds_addNode, List.nodup_append] at htemps
    obtain ⟨n, hn⟩ := h.addNode (hpatch.adds a hmem).temp
      (fun ha => htemps.2.2 _ ha _ mem_cons_self rfl) hop
    exact ⟨olds, news ++ [n], hn⟩
  | updateNode u =>
    obtain ⟨olds', ho⟩ := h.updateNode (hids _ (hpatch.updates u hmem).known) hop
    exact ⟨olds', news, ho⟩
  | addEdge e =>
    have hscopes := hpatch.scopes
    rw [hsplit, scoped_append] at hscopes
    exact ⟨olds, news, h.addEdge hids hscopes.2.1 hop⟩

/-- **The loop of a checked patch.** -/
theorem ran_of_foldlM {patch : DagPatch} (hpatch : PatchOk ids patch)
    (hids : ∀ id ∈ ids, ∃ m ∈ db₀.nodes, m.id = id) (h₀ : WellFormed sessionKey db₀)
    (hrun : patch.foldlM (Store.applyOp sessionKey env turn goal writeSource) { db := db₀ } = .ok run) :
    ∃ olds news, Ran sessionKey env turn goal db₀ patch run olds news :=
  foldlM_prefix
    (I := fun ops run => ∃ olds news, Ran sessionKey env turn goal db₀ ops run olds news)
    (fun _ _ _ _ _ hsplit ⟨_, _, h⟩ hop => h.applyOp hpatch hids hsplit hop)
    ⟨_, _, ran_nil h₀⟩ hrun

end Step

/-! ### What can fail -/

/-- The ids that a patch draws are new. -/
structure Fresh (env : Env) (db : Db) : Prop where
  distinct : ∀ i j, env.sortableId i = env.sortableId j → i = j
  nodes : ∀ k, ∀ n ∈ db.nodes, n.id ≠ nodeIdOf env k
  edges : ∀ k, ∀ e ∈ db.edges, e.id ≠ edgeIdOf env k

variable (env goal db₀) in
/-- **The ways in which an operation of a checked patch can fail.** -/
inductive OpError : StoreError → Prop where
  | selfLoop : OpError .selfLoop
  | supersedesNotFrozen : OpError .supersedesNotFrozen
  | cycle : OpError .cycle
  | goalTaken (g : DagGoalContext) (hgoal : goal = some g)
      (htaken : ∃ m ∈ db₀.nodes, m.goalId = some g.goalId) : OpError (.constraint "dag_nodes.goal_id")
  | nodeIdTaken (h : ¬ Fresh env db₀) : OpError (.constraint "dag_nodes.id")
  | edgeIdTaken (h : ¬ Fresh env db₀) : OpError (.constraint "dag_edges.id")

section Error
variable {ops patch post : DagPatch} {run : PatchRun} {olds news : List DagNode} {ids : List String}
  {err : StoreError} {a : AddNodePatchOp} {id : String}

theorem getNode_ne_none {db : Db}
    (h : ∃ n ∈ db.nodes, n.id = id ∧ n.sessionKey = sessionKey) : getNode sessionKey db id ≠ none := by
  obtain ⟨n, hn, hid, hkey⟩ := h
  unfold getNode
  rw [ne_eq, map_eq_none_iff, find?_eq_none]
  exact fun hnone => hnone n hn (by simpa using ⟨hid, hkey⟩)

theorem Ran.getNode_ne_none (h : Ran sessionKey env turn goal db₀ ops run olds news)
    (hid : ∃ n ∈ run.db.nodes, n.id = id) : getNode sessionKey run.db id ≠ none := by
  obtain ⟨n, hn, hid⟩ := hid
  exact Progress.getNode_ne_none ⟨n, hn, hid, h.loop.built.keys _ (mem_shapes.mpr ⟨n, hn, rfl⟩)⟩

theorem Ran.exists_known (h : Ran sessionKey env turn goal db₀ ops run olds news)
    (hid : ∃ m ∈ db₀.nodes, m.id = id) : ∃ n ∈ run.db.nodes, n.id = id := by
  obtain ⟨m, hm, hid⟩ := hid
  obtain ⟨n, hn, hrow⟩ := h.exists_old hm
  exact ⟨n, by rw [h.nodes]; exact mem_append_left _ hn, hrow.id.trans hid⟩

theorem length_addedTasks_of_mem (hmem : .addNode a ∈ ops) (hk : a.kind = .task) :
    0 < (addedTasks ops).length := by
  refine length_pos_of_mem (a := a) (mem_filterMap.mpr ⟨_, hmem, ?_⟩)
  simp [DagPatchOp.addedTask?, hk]

section
variable (h : Ran sessionKey env turn goal db₀ ops run olds news)
include h

/-- **How a new node fails**: a task whose goal is taken, or an id that is. -/
theorem addNode_error (himp : ImportanceOk a.importance) (hone : a.kind = .task → (addedTasks ops).length = 0)
    (hop : applyOp sessionKey env turn goal writeSource run (.addNode a) = .error err) :
    (err = .constraint "dag_nodes.goal_id" ∧ a.kind = .task ∧
      ∃ g, goal = some g ∧ ∃ m ∈ db₀.nodes, m.goalId = some g.goalId) ∨
    (err = .constraint "dag_nodes.id" ∧ ¬ Fresh env db₀) := by
  obtain ⟨k, hk, himp⟩ := himp
  simp only [applyOp, bind_eq_error, pure_eq, reduceCtorEq, and_false, exists_false, or_false] at hop
  unfold insertNode at hop
  rw [himp] at hop
  have hrange : ¬ ((k : ℚ) < 0 ∨ 100 < (k : ℚ)) := by
    push Not
    exact ⟨Nat.cast_nonneg k, by exact_mod_cast hk⟩
  simp only [bind_eq_error, throwIf_eq_error, hrange, false_and, false_or, throwIf_eq_ok, pure_eq,
    reduceCtorEq, and_false, exists_false, or_false] at hop
  obtain ⟨-, -, ⟨⟨n, hn, hsome, hgoal⟩, rfl⟩ | ⟨-, -, ⟨n, hn, hid⟩, rfl⟩⟩ := hop
  · rw [hgoal] at hsome
    unfold newGoalId at hsome hgoal
    by_cases htask : a.kind = .task
    · rw [if_pos htask] at hsome hgoal
      cases hg : goal with
      | none => rw [hg] at hsome; cases hsome
      | some g =>
        refine Or.inl ⟨rfl, htask, g, rfl, ?_⟩
        rw [h.nodes] at hn
        rcases mem_append.mp hn with hn | hn
        · obtain ⟨m, hm, hrow⟩ := h.of_old hn
          exact ⟨m, hm, by rw [← hrow.goalId, hgoal, hg]; rfl⟩
        · obtain ⟨op, hop, hrow, -⟩ := h.of_new hn
          exfalso
          have hkind : op.kind = .task := by
            by_contra hk
            have := hrow.goalId
            rw [hgoal, hg] at this
            unfold newGoalId at this
            rw [if_neg hk] at this
            cases this
          have := length_addedTasks_of_mem hop hkind
          have := hone htask
          omega
    · rw [if_neg htask] at hsome
      cases hsome
  · refine Or.inr ⟨rfl, fun hfresh => ?_⟩
    rw [h.nodes] at hn
    rcases mem_append.mp hn with hn | hn
    · obtain ⟨m, hm, hrow⟩ := h.of_old hn
      exact hfresh.nodes _ m hm (hrow.id.symm.trans hid)
    · obtain ⟨j, hj, hid'⟩ := h.newIds n hn
      have := hfresh.distinct j run.drawn (by simpa [nodeIdOf] using hid'.symm.trans hid)
      omega

theorem updateNode_error {u : UpdateNodePatchOp} (hu : UpdateOk ids u)
    (hids : ∀ id ∈ ids, ∃ m ∈ db₀.nodes, m.id = id) :
    applyOp sessionKey env turn goal writeSource run (.updateNode u) ≠ .error err := by
  intro hop
  simp only [applyOp, bind_eq_error, pure_eq, reduceCtorEq, and_false, exists_false, or_false] at hop
  unfold updateNode at hop
  cases hn : getNode sessionKey run.db u.nodeId with
  | none => exact h.getNode_ne_none (h.exists_known (hids _ hu.known)) hn
  | some node =>
    rw [hn] at hop
    cases himp : u.importance with
    | none => simp only [himp, reduceCtorEq] at hop
    | some i =>
      obtain ⟨k, -, -, hk⟩ := normalizeImportance_of_ok (hu.importance i himp)
      simp only [himp, hk, map_some, reduceCtorEq] at hop

/-- **How an edge fails**, `s` and `t` being what it joins. -/
theorem addEdge_error {e : AddEdgePatchOp} (hids : ∀ id ∈ ids, ∃ m ∈ db₀.nodes, m.id = id)
    (hknown : e.sourceId ∈ tempIds ops ++ ids ∧ e.targetId ∈ tempIds ops ++ ids)
    (hop : applyOp sessionKey env turn goal writeSource run (.addEdge e) = .error err) :
    ∃ s t, resolveTempId run.tempNodeIds e.sourceId = .ok s ∧
      resolveTempId run.tempNodeIds e.targetId = .ok t ∧
      ((err = .selfLoop ∧ s = t) ∨
        (err = .supersedesNotFrozen ∧ e.type = .supersedes ∧
          (getNode sessionKey run.db s).map (·.status) ≠ some .frozen) ∨
        (err = .cycle ∧ wouldCreateCycle run.db s t = true) ∨
        (err = .constraint "dag_edges.id" ∧ ¬ Fresh env db₀)) := by
  obtain ⟨s, hs, hsnode⟩ := h.resolve hids hknown.1
  obtain ⟨t, ht, htnode⟩ := h.resolve hids hknown.2
  refine ⟨s, t, hs, ht, ?_⟩
  have hnodes : ¬ ((getNode sessionKey run.db s).isNone = true ∨
      (getNode sessionKey run.db t).isNone = true) := by
    simpa using ⟨h.getNode_ne_none hsnode, h.getNode_ne_none htnode⟩
  simp only [applyOp, hs, ht, ok_bind] at hop
  rw [bind_eq_error] at hop
  rcases hop with hop | ⟨r, -, hop⟩
  · simp only [insertResolvedEdge, bind_eq_error, throwIf_eq_error, throwIf_eq_ok, hnodes, false_and,
      false_or] at hop
    rcases hop with ⟨hst, rfl⟩ | ⟨-, -, -, -, ⟨hfrozen, rfl⟩ | ⟨-, -, hop⟩⟩
    · exact Or.inl ⟨rfl, hst⟩
    · exact Or.inr (Or.inl ⟨rfl, hfrozen⟩)
    · by_cases hex : edgeExists run.db s t e.type = true
      · rw [if_pos hex] at hop
        cases hop
      rw [if_neg hex] at hop
      simp only [bind_eq_error, throwIf_eq_error, pure_eq, reduceCtorEq, and_false, exists_false,
        or_false] at hop
      rcases hop with ⟨hcycle, rfl⟩ | ⟨-, -, ⟨e', he', hid⟩, rfl⟩
      · exact Or.inr (Or.inr (Or.inl ⟨rfl, hcycle⟩))
      · refine Or.inr (Or.inr (Or.inr ⟨rfl, fun hfresh => ?_⟩))
        obtain ⟨es, hes, hall⟩ := h.edges
        rw [hes] at he'
        rcases mem_append.mp he' with he' | he'
        · exact hfresh.edges _ e' he' hid
        · obtain ⟨⟨j, hj, hid'⟩, -⟩ := hall e' he'
          have := hfresh.distinct j run.drawn (by simpa [edgeIdOf] using hid'.symm.trans hid)
          omega
  · cases r <;> cases hop

end

theorem length_addedTasks_before (hone : (addedTasks patch).length ≤ 1)
    (hsplit : patch = ops ++ .addNode a :: post) (hk : a.kind = .task) : (addedTasks ops).length = 0 := by
  rw [hsplit] at hone
  unfold addedTasks at hone ⊢
  rw [filterMap_append, length_append, filterMap_cons_some
    (by simp [DagPatchOp.addedTask?, hk] : DagPatchOp.addedTask? (.addNode a) = some a),
    length_cons] at hone
  omega

/-- **How an operation of a checked patch fails.** -/
theorem opError_of_applyOp {op : DagPatchOp} (hpatch : PatchOk ids patch) (hone : (addedTasks patch).length ≤ 1)
    (hids : ∀ id ∈ ids, ∃ m ∈ db₀.nodes, m.id = id) (hsplit : patch = ops ++ op :: post)
    (h : Ran sessionKey env turn goal db₀ ops run olds news)
    (hop : applyOp sessionKey env turn goal writeSource run op = .error err) :
    OpError env goal db₀ err := by
  have hmem : op ∈ patch := by rw [hsplit]; simp
  cases op with
  | addNode a =>
    rcases addNode_error h (hpatch.adds a hmem).importance
      (fun hk => length_addedTasks_before hone hsplit hk) hop with ⟨rfl, -, g, hg, htaken⟩ | ⟨rfl, hfresh⟩
    · exact OpError.goalTaken g hg htaken
    · exact OpError.nodeIdTaken hfresh
  | updateNode u => exact absurd hop (updateNode_error h (hpatch.updates u hmem) hids)
  | addEdge e =>
    have hscopes := hpatch.scopes
    rw [hsplit, scoped_append] at hscopes
    obtain ⟨s, t, -, -, ⟨rfl, -⟩ | ⟨rfl, -⟩ | ⟨rfl, -⟩ | ⟨rfl, hfresh⟩⟩ := addEdge_error h hids hscopes.2.1 hop
    · exact OpError.selfLoop
    · exact OpError.supersedesNotFrozen
    · exact OpError.cycle
    · exact OpError.edgeIdTaken hfresh

/-- **How the loop of a checked patch fails.** -/
theorem error_of_foldlM (hpatch : PatchOk ids patch) (hone : (addedTasks patch).length ≤ 1)
    (hids : ∀ id ∈ ids, ∃ m ∈ db₀.nodes, m.id = id) (h₀ : WellFormed sessionKey db₀)
    (hrun : patch.foldlM (applyOp sessionKey env turn goal writeSource) { db := db₀ } = .error err) :
    OpError env goal db₀ err := by
  obtain ⟨pre, op, post, run, hsplit, ⟨olds, news, h⟩, hop⟩ := foldlM_prefix_error
    (I := fun ops run => ∃ olds news, Ran sessionKey env turn goal db₀ ops run olds news)
    (fun _ _ _ _ _ hsplit ⟨_, _, h⟩ hop => h.applyOp hpatch hids hsplit hop)
    ⟨_, _, ran_nil h₀⟩ hrun
  exact opError_of_applyOp hpatch hone hids hsplit h hop

end Error

/-! ### A loop that cannot fail -/

section Fits
variable {ops patch : DagPatch} {run : PatchRun} {olds news : List DagNode} {ids : List String}

theorem Ran.status_getNode (h : Ran sessionKey env turn goal db₀ ops run olds news) {m : DagNode}
    (hm : m ∈ db₀.nodes) :
    (getNode sessionKey run.db m.id).map (·.status) = some (statusAfter ops m.id m.status) := by
  obtain ⟨n, hn, hrow⟩ := h.exists_old hm
  have hmem : n ∈ run.db.nodes := by rw [h.nodes]; exact mem_append_left _ hn
  obtain ⟨row, hget⟩ := ne_none_iff_exists'.mp (h.getNode_ne_none ⟨n, hmem, hrow.id⟩)
  obtain ⟨n', hn', hid, -, rfl⟩ := getNode_eq_some hget
  rw [h.eq_of_id hn' hmem (hid.trans hrow.id.symm)] at hget
  rw [hget, ← hrow.status]
  rfl

/-- **An edge that cannot fail**: it leads to a new node that no edge leads from, and what it supersedes is
frozen. -/
structure EdgeFits (db₀ : Db) (ops : DagPatch) (e : AddEdgePatchOp) : Prop where
  new : e.targetId ∈ tempIds ops
  ne : e.sourceId ≠ e.targetId
  unused : ∀ e', .addEdge e' ∈ ops → e'.sourceId ≠ e.targetId
  frozen : e.type = .supersedes → ∃ m ∈ db₀.nodes, m.id = e.sourceId ∧ statusAfter ops m.id m.status = .frozen

/-- Every edge of the operations fits behind those before it. -/
def Fits (db₀ : Db) : DagPatch → DagPatch → Prop
  | _, [] => True
  | pre, .addEdge e :: ops => EdgeFits db₀ pre e ∧ Fits db₀ (pre ++ [.addEdge e]) ops
  | pre, .addNode a :: ops => Fits db₀ (pre ++ [.addNode a]) ops
  | pre, .updateNode u :: ops => Fits db₀ (pre ++ [.updateNode u]) ops

theorem fits_append : ∀ (pre ops ops' : DagPatch),
    Fits db₀ pre (ops ++ ops') ↔ Fits db₀ pre ops ∧ Fits db₀ (pre ++ ops) ops'
  | pre, [], ops' => by simp [Fits]
  | pre, .addEdge e :: ops, ops' => by
    have ih := fits_append (pre ++ [.addEdge e]) ops ops'
    simp only [cons_append, Fits, ih, append_assoc, nil_append, and_assoc]
  | pre, .addNode a :: ops, ops' => by
    have ih := fits_append (pre ++ [.addNode a]) ops ops'
    simp only [cons_append, Fits, ih, append_assoc, nil_append]
  | pre, .updateNode u :: ops, ops' => by
    have ih := fits_append (pre ++ [.updateNode u]) ops ops'
    simp only [cons_append, Fits, ih, append_assoc, nil_append]

theorem fits_of_no_edge : ∀ (pre ops : DagPatch), (∀ op ∈ ops, op.addEdge? = none) → Fits db₀ pre ops
  | _, [], _ => trivial
  | _, .addEdge e :: _, h => by cases h _ mem_cons_self
  | pre, .addNode a :: ops, h =>
    fits_of_no_edge _ ops fun op hop => h op (mem_cons_of_mem _ hop)
  | pre, .updateNode u :: ops, h =>
    fits_of_no_edge _ ops fun op hop => h op (mem_cons_of_mem _ hop)

theorem fresh_of_edge_error {e : AddEdgePatchOp}
    (h : Ran sessionKey env turn goal db₀ ops run olds news) (h₀ : WellFormed sessionKey db₀)
    (hids : ∀ id ∈ ids, ∃ m ∈ db₀.nodes, m.id = id)
    (hknown : e.sourceId ∈ tempIds ops ++ ids ∧ e.targetId ∈ tempIds ops ++ ids)
    (htemps : ∀ name ∈ tempIds ops, TempName name) (hfits : EdgeFits db₀ ops e)
    (hop : applyOp sessionKey env turn goal writeSource run (.addEdge e) = .error err) :
    ¬ Fresh env db₀ := by
  obtain ⟨s, t, hs, ht, herr⟩ := addEdge_error h hids hknown hop
  have hsn := h.names_of_resolve hids hknown.1 hs
  have htn : (e.targetId, t) ∈ run.tempNodeIds := by
    rcases h.names_of_resolve hids hknown.2 ht with htn | ⟨hid, m, hm, hmid⟩
    · exact htn
    · obtain ⟨x, hx⟩ := h₀.built.named (shape m) (mem_shapes.mpr ⟨m, hm, rfl⟩)
      exact absurd (hid.trans (hmid.symm.trans hx)) ((htemps _ hfits.new).ne_id x)
  rcases herr with ⟨-, rfl⟩ | ⟨-, htype, hstatus⟩ | ⟨-, hcycle⟩ | ⟨-, hfresh⟩
  · exact absurd (h.eq_of_names hsn htn) hfits.ne
  · obtain ⟨m, hm, hid, hfrozen⟩ := hfits.frozen htype
    have hsm : s = m.id := by
      rcases hsn with hsn | ⟨rfl, -⟩
      · obtain ⟨x, hx⟩ := h₀.built.named (shape m) (mem_shapes.mpr ⟨m, hm, rfl⟩)
        exact absurd (hid.symm.trans hx) ((htemps _ (h.mem_tempNodeIds hsn).1).ne_id x)
      · exact hid.symm
    rw [hsm, h.status_getNode hm, hfrozen] at hstatus
    exact absurd rfl hstatus
  · obtain ⟨x, hx, -⟩ := TransGen.head'_iff.mp (wouldCreateCycle_iff.mp hcycle)
    obtain ⟨e', he', hsource, -⟩ := linked_iff.mp hx
    obtain ⟨es, hes, hall⟩ := h.edges
    obtain ⟨-, n, hn, hnid⟩ := h.mem_tempNodeIds htn
    rw [hes] at he'
    rcases mem_append.mp he' with he' | he'
    · obtain ⟨-, ⟨m', hm', hmid⟩, -⟩ := h₀.built.joins e' he'
      obtain ⟨m, hm, rfl⟩ := mem_shapes.mp hm'
      exact absurd (hnid.trans (hsource.symm.trans hmid.symm)) (h.new_ne_old hn hm)
    · obtain ⟨-, -, op, hop', -, hs', -⟩ := hall e' he'
      rw [hsource] at hs'
      exact absurd (h.eq_of_names hs' htn) (hfits.unused op hop')
  · exact hfresh

/-- **A loop that cannot fail**, unless the goal of a new task is taken. -/
theorem foldlM_ok_of_fits (hpatch : PatchOk ids patch) (hone : (addedTasks patch).length ≤ 1)
    (hids : ∀ id ∈ ids, ∃ m ∈ db₀.nodes, m.id = id) (h₀ : WellFormed sessionKey db₀)
    (hfits : Fits db₀ [] patch)
    (hfresh : Fresh env db₀)
    (hgoal : addedTasks patch ≠ [] → ∀ g, goal = some g → ∀ m ∈ db₀.nodes, m.goalId ≠ some g.goalId) :
    ∃ run, patch.foldlM (applyOp sessionKey env turn goal writeSource) { db := db₀ } = .ok run := by
  cases hrun : patch.foldlM (applyOp sessionKey env turn goal writeSource) { db := db₀ } with
  | ok run => exact ⟨run, rfl⟩
  | error err =>
    exfalso
    obtain ⟨pre, op, post, run, hsplit, ⟨olds, news, h⟩, hop⟩ := foldlM_prefix_error
      (I := fun ops run => ∃ olds news, Ran sessionKey env turn goal db₀ ops run olds news)
      (fun _ _ _ _ _ hsplit ⟨_, _, h⟩ hop => h.applyOp hpatch hids hsplit hop)
      ⟨_, _, ran_nil h₀⟩ hrun
    have hmem : op ∈ patch := by rw [hsplit]; simp
    cases op with
    | addNode a =>
      rcases addNode_error h (hpatch.adds a hmem).importance
        (fun hk => length_addedTasks_before hone hsplit hk) hop with ⟨-, hk, g, hg, m, hm, hid⟩ | ⟨-, hnot⟩
      · exact hgoal (ne_nil_of_mem (mem_addedTasks.mpr ⟨hmem, hk⟩)) g hg m hm hid
      · exact hnot hfresh
    | updateNode u => exact updateNode_error h (hpatch.updates u hmem) hids hop
    | addEdge e =>
      have hscopes := hpatch.scopes
      rw [hsplit, scoped_append] at hscopes
      rw [hsplit, fits_append] at hfits
      refine fresh_of_edge_error h h₀ hids hscopes.2.1 ?_ hfits.2.1 hop hfresh
      intro name hname
      obtain ⟨a, ha, rfl⟩ := mem_tempIds.mp hname
      exact (hpatch.adds a (by rw [hsplit]; exact mem_append_left _ ha)).temp

end Fits

end Loop

end Memmy.SessionDag.Progress
