import Memmy.SessionDag.Context
import Memmy.SessionDag.Progress

/-! # When the check of the tasks passes

After the loop of a checked patch at most one task is open, and a new task has the one incoming edge that
the patch gives it. Three lemmas say when `assertTaskTransitionIntegrity` passes: for a patch without a new
task, for the first task, and for a task that follows the root. -/

namespace Memmy.SessionDag.Transition

open Relation Lib.Result Lib.Sort SessionDag.Types SessionDag.PatchSchema SessionDag.Selection
open Bool
open List SessionDag.Store SessionDag.Shape SessionDag.Invariant SessionDag.Validated
  SessionDag.Progress

section Lists

theorem countP_le_of_forall₂ {α β : Type} {R : α → β → Prop} {p : α → Bool} {q : β → Bool} :
    ∀ {l : List α} {u : List β}, List.Forall₂ R l u →
      (∀ a ∈ l, ∀ b, R a b → q b = true → p a = true) → u.countP q ≤ l.countP p
  | _, _, List.Forall₂.nil, _ => le_refl _
  | a :: l, b :: u, List.Forall₂.cons hab h, hpq => by
    have ih := countP_le_of_forall₂ h fun a ha => hpq a (mem_cons_of_mem _ ha)
    rw [countP_cons, countP_cons]
    have := hpq a mem_cons_self b hab
    split_ifs with hq hp hp
    · omega
    · exact absurd (this hq) hp
    · omega
    · omega

/-- A list whose elements agree in `f`, and are told apart by `f`, has one element at most. -/
theorem eq_singleton_of_map {α β : Type} {f : α → β} {l : List α} {x : α} (hnodup : (l.map f).Nodup)
    (hx : x ∈ l) (hall : ∀ y ∈ l, f y = f x) : l = [x] := by
  refine perm_singleton.mp ((perm_ext_iff_of_nodup hnodup.of_map (nodup_singleton x)).mpr fun y => ?_)
  rw [mem_singleton]
  exact ⟨fun hy => inj_on_of_nodup_map hnodup hy hx (hall y hy), fun hy => hy ▸ hx⟩

end Lists

/-! ### What the check finds -/

section Found
variable {nodes : List DagNode} {edges : List DagEdge} {id rootId : String}

/-- **A new task hangs from the root** alone, by an edge that fits the status of the root. -/
theorem transition_of_assert
    (h : assertTaskTransitionIntegrity nodes edges (some rootId) [id] = .ok ()) :
    ∃ root t, byId nodes rootId = some root ∧ edges.filter (fun e => e.targetId = id) = [t] ∧
      t.sourceId = rootId ∧ taskTransitionEdgeType root.status = some t.type := by
  unfold assertTaskTransitionIntegrity at h
  simp only [bind_eq_ok, throwIf_eq_ok, head?_cons] at h
  obtain ⟨-, -, -, -, h⟩ := h
  split at h
  · cases h
  simp only [bind_eq_ok, throwIf_eq_ok] at h
  obtain ⟨-, -, h⟩ := h
  split at h
  · cases h
  next root hroot =>
  split at h
  · cases h
  next type htype =>
  split at h
  · next t hincoming =>
    simp only [bind_eq_ok, throwIf_eq_ok] at h
    obtain ⟨-, hedge, htypes⟩ := h
    push Not at hedge htypes
    have hroot' := (Option.filter_eq_some_iff.mp hroot).1
    refine ⟨root, t, hroot', hincoming, ?_, by rw [htype, htypes]⟩
    exact hedge.1.trans (byId_eq_some hroot').2
  · cases h

/-- **The first task** hangs from no task. -/
theorem no_transition_of_assert (h : assertTaskTransitionIntegrity nodes edges none [id] = .ok ()) :
    ∀ e ∈ edges, e.targetId = id → (byId nodes e.sourceId).map (·.kind) ≠ some .task := by
  unfold assertTaskTransitionIntegrity at h
  simp only [bind_eq_ok, throwIf_eq_ok, head?_cons] at h
  obtain ⟨-, -, -, -, h⟩ := h
  split at h
  · cases h
  simp only [bind_eq_ok, throwIf_eq_ok] at h
  obtain ⟨-, -, h⟩ := h
  intro e he ht hk
  exact h ⟨e, mem_filter.mpr ⟨he, decide_eq_true ht⟩, hk⟩

end Found

/-! ### The tasks of a session -/

section Tasks
variable {sessionKey : String} {db : Db} {root : DagNode}

theorem closed_of_ne_root (h : WellFormed sessionKey db)
    (hroot : selectRootTask (readNodes sessionKey db) = some root) {m : DagNode} (hm : m ∈ db.nodes)
    (hk : m.kind = .task) (hne : m.id ≠ root.id) : m.status.isOpen = false := by
  by_contra hopen
  rw [not_eq_false] at hopen
  have hmem : parseNodeRow m ∈ openTasks (readNodes sessionKey db) :=
    mem_openTasks.mpr ⟨parse_mem_readNodes h.built hm, hk, hopen⟩
  obtain ⟨hr, hrk, ⟨ho, -⟩ | ⟨hnil, -⟩ | ⟨hnil, -⟩⟩ := selectRootTask_cases hroot
  · have hrmem : root ∈ openTasks (readNodes sessionKey db) := mem_openTasks.mpr ⟨hr, hrk, ho⟩
    have hlen := h.oneOpen
    rw [← length_openTasks_readNodes h.built.keys] at hlen
    obtain ⟨x, hx⟩ := length_eq_one_iff.mp (le_antisymm hlen (length_pos_of_mem hmem))
    rw [hx, mem_singleton] at hmem hrmem
    exact hne (congrArg DagNode.id (hmem.trans hrmem.symm) : (parseNodeRow m).id = root.id)
  · rw [hnil] at hmem; cases hmem
  · rw [hnil] at hmem; cases hmem

theorem exists_row_of_root (hroot : selectRootTask (readNodes sessionKey db) = some root) :
    ∃ m ∈ db.nodes, parseNodeRow m = root := by
  obtain ⟨hr, -⟩ := selectRootTask_cases hroot
  obtain ⟨m, hm, -, hp⟩ := mem_readNodes.mp hr
  exact ⟨m, hm, hp⟩

theorem kind_of_root (hroot : selectRootTask (readNodes sessionKey db) = some root) :
    root.kind = .task := (selectRootTask_cases hroot).2.1

end Tasks

/-! ### After the loop -/

section After
variable {sessionKey : String} {env : Env} {turn : DagTurn} {goal : Option DagGoalContext}
  {db₀ : Db} {ids : List String} {patch : DagPatch} {run : PatchRun} {olds news : List DagNode}
  {root : DagNode} {a : AddNodePatchOp} {type : DagEdgeType}

/-- The names that stand for themselves. -/
theorem names_old (h₀ : Built sessionKey (shapes db₀) db₀.edges)
    (h : Ran sessionKey env turn goal db₀ patch run olds news)
    (hpatch : PatchOk ids patch) {m : DagNode} (hm : m ∈ db₀.nodes) {id : String}
    (hn : Names db₀ run.tempNodeIds m.id id) : id = m.id := by
  rcases hn with hn | ⟨rfl, -⟩
  · obtain ⟨a, ha, hid⟩ := mem_tempIds.mp (h.mem_tempNodeIds hn).1
    obtain ⟨s, hs⟩ := h₀.named (shape m) (mem_shapes.mpr ⟨m, hm, rfl⟩)
    exact absurd (hid.trans hs) ((hpatch.adds a ha).temp.ne_id s)
  · rfl

section
variable (h : Ran sessionKey env turn goal db₀ patch run olds news)
include h

theorem length_addedTaskNodeIds : run.addedTaskNodeIds.length = (addedTasks patch).length := by
  rw [h.addedTasks, length_map, addedTasks_eq, ← countP_eq_length_filter, ← countP_eq_length_filter]
  refine le_antisymm (countP_le_of_forall₂ h.newRows ?_) (countP_le_of_forall₂ h.newRows.flip ?_)
  · intro a _ n hrow hk
    rw [decide_eq_true_eq] at hk ⊢
    exact hrow.kind.symm.trans hk
  · intro n _ a hrow hk
    rw [decide_eq_true_eq] at hk ⊢
    exact hrow.kind.trans hk

theorem exists_addedTask (hadd : addedTasks patch = [a]) :
    ∃ n ∈ news, NewRow sessionKey env goal a n ∧ (a.tempId, n.id) ∈ run.tempNodeIds ∧
      n.kind = .task ∧ run.addedTaskNodeIds = [n.id] := by
  have hlen := length_addedTaskNodeIds h
  rw [hadd, h.addedTasks, length_map] at hlen
  obtain ⟨n, hn⟩ := length_eq_one_iff.mp hlen
  have hmem : n ∈ news.filter fun n => n.kind = .task := by rw [hn]; exact mem_cons_self
  obtain ⟨hnew, hk⟩ := mem_filter.mp hmem
  rw [decide_eq_true_eq] at hk
  obtain ⟨op, hop, hrow, htemp⟩ := h.of_new hnew
  have hopa : op ∈ addedTasks patch := by
    rw [addedTasks_eq]
    exact mem_filter.mpr ⟨mem_filterMap.mpr ⟨_, hop, rfl⟩, decide_eq_true (hrow.kind.symm.trans hk)⟩
  rw [hadd, mem_singleton] at hopa
  subst hopa
  exact ⟨n, hnew, hrow, htemp, hk, by rw [h.addedTasks, hn]; rfl⟩

/-- The open tasks after the loop are among those before it and the new ones. -/
theorem length_openTasks_le {k : ℕ} (hk : (db₀.nodes.countP fun m =>
      decide (m.kind = .task) && (statusAfter patch m.id m.status).isOpen) ≤ k) :
    (openTasks (readNodes sessionKey run.db)).length ≤ k + (addedTasks patch).length := by
  rw [length_openTasks_readNodes h.loop.built.keys, length_openTasks, h.nodes, countP_append]
  have hold : (olds.countP fun n => decide (n.kind = .task) && n.status.isOpen) ≤ k := by
    refine (countP_le_of_forall₂ h.oldRows ?_).trans hk
    intro m _ n hrow hn
    rw [hrow.kind, hrow.status] at hn
    exact hn
  have hnew : (news.countP fun n => decide (n.kind = .task) && n.status.isOpen) ≤
      (addedTasks patch).length := by
    rw [← length_addedTaskNodeIds h, h.addedTasks, length_map, ← countP_eq_length_filter]
    refine countP_mono_left fun n _ hn => ?_
    rw [and_eq_true] at hn
    exact hn.1
  omega

end

/-- **The one edge to a new node** whose operation is the only one with that target. -/
theorem incoming_eq_singleton (h₀ : Built sessionKey (shapes db₀) db₀.edges)
    (h : Ran sessionKey env turn goal db₀ patch run olds news) (hpatch : PatchOk ids patch) {name id : String}
    (htemp : (name, id) ∈ run.tempNodeIds) {m : DagNode} (hm : m ∈ db₀.nodes)
    (hedge : .addEdge { sourceId := m.id, targetId := name, type := type } ∈ patch)
    (honly : ∀ e, .addEdge e ∈ patch → e.targetId = name →
      e = { sourceId := m.id, targetId := name, type := type }) :
    ∃ e, (readEdges run.db).filter (fun e => e.targetId = id) = [e] ∧ e.sourceId = m.id ∧ e.type = type := by
  obtain ⟨e, he, htype, hs, ht⟩ := h.linked _ hedge
  have hsource := names_old h₀ h hpatch hm hs
  have htarget : e.targetId = id := by
    rcases ht with ht | ⟨hname, m', hm', hid'⟩
    · exact h.snd_eq_of_temp hpatch.temps ht htemp
    · obtain ⟨a, ha, hid⟩ := mem_tempIds.mp (h.mem_tempNodeIds htemp).1
      obtain ⟨s, hs⟩ := h₀.named (shape m') (mem_shapes.mpr ⟨m', hm', rfl⟩)
      exact absurd (hid.trans (hname.trans (hid'.symm.trans hs))) ((hpatch.adds a ha).temp.ne_id s)
  have hall : ∀ e' ∈ (readEdges run.db).filter (fun e => e.targetId = id), ends e' = ends e := by
    intro e' he'
    obtain ⟨he', hid'⟩ := mem_filter.mp he'
    rw [decide_eq_true_eq] at hid'
    obtain ⟨es, hes, hall⟩ := h.edges
    rw [mem_readEdges, hes] at he'
    rcases mem_append.mp he' with he' | he'
    · obtain ⟨-, -, n, hn, hnid⟩ := h₀.joins e' he'
      obtain ⟨m', hm', rfl⟩ := mem_shapes.mp hn
      obtain ⟨-, n', hn', hnid'⟩ := h.mem_tempNodeIds htemp
      exact absurd (hnid'.trans (hid'.symm.trans hnid.symm)) (h.new_ne_old hn' hm')
    · obtain ⟨-, -, op, hop, htype', hs', ht'⟩ := hall e' he'
      have hopeq := honly op hop (h.eq_of_names (hid' ▸ ht') htemp)
      subst hopeq
      simp only [ends, Prod.mk.injEq]
      exact ⟨(names_old h₀ h hpatch hm hs').trans hsource.symm, hid'.trans htarget.symm,
        htype'.trans htype.symm⟩
  have hnodup : (((readEdges run.db).filter fun e => e.targetId = id).map ends).Nodup := by
    refine List.Nodup.sublist (filter_sublist.map _) ?_
    unfold readEdges
    rw [((sortBy_perm _ _).map _).nodup_iff]
    exact h.loop.built.distinct
  refine ⟨e, eq_singleton_of_map hnodup ?_ hall, hsource, htype⟩
  exact mem_filter.mpr ⟨mem_readEdges.mpr he, decide_eq_true htarget⟩

/-! ### The three cases -/

section
variable (h : Ran sessionKey env turn goal db₀ patch run olds news)
include h

theorem assertTransition_of_no_task (h₀ : WellFormed sessionKey db₀) (hadd : addedTasks patch = [])
    (hopen : ∀ m ∈ db₀.nodes, m.kind = .task → (statusAfter patch m.id m.status).isOpen = true →
      m.status.isOpen = true) (rootId : Option String) :
    assertTaskTransitionIntegrity (readNodes sessionKey run.db) (readEdges run.db) rootId
      run.addedTaskNodeIds = .ok () := by
  have hids : run.addedTaskNodeIds = [] := by
    rw [← length_eq_zero_iff, length_addedTaskNodeIds h, hadd]
    rfl
  have hlen : (openTasks (readNodes sessionKey run.db)).length ≤ 1 := by
    have := length_openTasks_le h (k := 1) (by
      refine le_trans (countP_mono_left fun m hm hp => ?_) (length_openTasks db₀.nodes ▸ h₀.oneOpen)
      rw [and_eq_true, decide_eq_true_eq] at hp ⊢
      exact ⟨hp.1, hopen m hm hp.1 hp.2⟩)
    rw [hadd, length_nil] at this
    omega
  unfold assertTaskTransitionIntegrity
  rw [hids, throwIf_of_not (by simp), throwIf_of_not (by omega)]
  rfl

theorem find_addedTask {n : DagNode} (hn : n ∈ news) (hk : n.kind = .task) :
    (byId (readNodes sessionKey run.db) n.id).filter (fun n => n.kind = .task) =
      some (parseNodeRow n) := by
  have hmem : parseNodeRow n ∈ readNodes sessionKey run.db :=
    parse_mem_readNodes h.loop.built (by rw [h.nodes]; exact mem_append_right _ hn)
  rw [show n.id = (parseNodeRow n).id from rfl, byId_readNodes h.loop.built hmem]
  simp [hk]

theorem assertTransition_of_no_root (hnil : db₀.nodes = []) (hadd : addedTasks patch = [a])
    (hopen : a.status.isOpen = true) :
    assertTaskTransitionIntegrity (readNodes sessionKey run.db) (readEdges run.db) none
      run.addedTaskNodeIds = .ok () := by
  obtain ⟨n, hn, hrow, htemp, hk, hids⟩ := exists_addedTask h hadd
  have hlen : (openTasks (readNodes sessionKey run.db)).length ≤ 1 := by
    have := length_openTasks_le h (k := 0) (by rw [hnil]; simp)
    rw [hadd, length_singleton] at this
    omega
  have hfind := find_addedTask h hn hk
  have hnoTask : ¬ ∃ e ∈ (readEdges run.db).filter fun e => e.targetId = n.id,
      (byId (readNodes sessionKey run.db) e.sourceId).map (·.kind) = some .task := by
    rintro ⟨e, he, hkind⟩
    obtain ⟨he, ht⟩ := mem_filter.mp he
    rw [decide_eq_true_eq] at ht
    obtain ⟨s, hs, hsk⟩ := Option.map_eq_some_iff.mp hkind
    obtain ⟨hsmem, hsid⟩ := byId_eq_some hs
    obtain ⟨row, hrow', -, rfl⟩ := mem_readNodes.mp hsmem
    have hsnew : row ∈ news.filter fun n => n.kind = .task := by
      rw [h.nodes] at hrow'
      rcases mem_append.mp hrow' with hold | hnew
      · obtain ⟨m, hm, -⟩ := h.of_old hold
        rw [hnil] at hm; cases hm
      · exact mem_filter.mpr ⟨hnew, decide_eq_true hsk⟩
    have hone := h.addedTasks
    rw [hids] at hone
    have hid : row.id ∈ (news.filter fun n => n.kind = .task).map (·.id) := mem_map.mpr ⟨row, hsnew, rfl⟩
    rw [← hone, mem_singleton] at hid
    exact (h.loop.built.joins e (mem_readEdges.mp he)).1 (hsid.symm.trans (hid.trans ht.symm))
  unfold assertTaskTransitionIntegrity
  rw [hids, throwIf_of_not (by simp), throwIf_of_not (by omega)]
  dsimp only [head?_cons, ok_bind]
  rw [hfind]
  dsimp only
  rw [throwIf_of_not (by rw [parseNodeRow_status, hrow.status, hopen]; simp), throwIf_of_not hnoTask]
  rfl

theorem assertTransition_of_root (h₀ : WellFormed sessionKey db₀) (hpatch : PatchOk ids patch)
    (hroot : selectRootTask (readNodes sessionKey db₀) = some root)
    (hadd : addedTasks patch = [a]) (hopen : a.status.isOpen = true)
    (hclosed : ∀ m ∈ db₀.nodes, m.kind = .task → (statusAfter patch m.id m.status).isOpen = false)
    (htype : taskTransitionEdgeType (statusAfter patch root.id root.status) = some type)
    (hedge : .addEdge { sourceId := root.id, targetId := a.tempId, type := type } ∈ patch)
    (honly : ∀ e, .addEdge e ∈ patch → e.targetId = a.tempId →
      e = { sourceId := root.id, targetId := a.tempId, type := type }) :
    assertTaskTransitionIntegrity (readNodes sessionKey run.db) (readEdges run.db) (some root.id)
      run.addedTaskNodeIds = .ok () := by
  obtain ⟨n, hn, hrow, htemp, hk, hids⟩ := exists_addedTask h hadd
  obtain ⟨m, hm, rfl⟩ := exists_row_of_root hroot
  obtain ⟨m', hm', hmrow⟩ := h.exists_old hm
  have hlen : (openTasks (readNodes sessionKey run.db)).length ≤ 1 := by
    have := length_openTasks_le h (k := 0) (by
      rw [Nat.le_zero, countP_eq_zero]
      intro m hm hp
      rw [and_eq_true, decide_eq_true_eq] at hp
      rw [hclosed m hm hp.1] at hp
      cases hp.2)
    rw [hadd, length_singleton] at this
    omega
  have hfind := find_addedTask h hn hk
  obtain ⟨e, hincoming, hsource, htype'⟩ := incoming_eq_singleton h₀.built h hpatch htemp hm hedge honly
  have hfindRoot : (byId (readNodes sessionKey run.db) (parseNodeRow m).id).filter
      (fun n => n.kind = .task) = some (parseNodeRow m') := by
    have hmem : parseNodeRow m' ∈ readNodes sessionKey run.db :=
      parse_mem_readNodes h.loop.built (by rw [h.nodes]; exact mem_append_left _ hm')
    rw [show (parseNodeRow m).id = (parseNodeRow m').id from hmrow.id.symm, byId_readNodes h.loop.built hmem]
    have : m'.kind = .task := hmrow.kind.trans (kind_of_root hroot : (parseNodeRow m).kind = .task)
    simp [this]
  have hstatus : taskTransitionEdgeType (parseNodeRow m').status = some type := by
    rw [parseNodeRow_status, hmrow.status]
    exact htype
  have htypes : type = .continues ∨ type = .supersedes := by
    revert htype
    cases statusAfter patch (parseNodeRow m).id (parseNodeRow m).status <;>
      simp [taskTransitionEdgeType] <;> tauto
  unfold assertTaskTransitionIntegrity
  rw [hids, throwIf_of_not (by simp), throwIf_of_not (by omega)]
  dsimp only [head?_cons, ok_bind]
  rw [hfind]
  dsimp only
  rw [throwIf_of_not (by rw [parseNodeRow_status, hrow.status, hopen]; simp), ok_bind, hfindRoot]
  dsimp only
  rw [hstatus, hincoming]
  dsimp only
  rw [throwIf_of_not, ok_bind, throwIf_of_not]
  · rw [htype']; simp
  · push Not
    refine ⟨hsource.trans hmrow.id.symm, fun h => ?_⟩
    rw [htype'] at h ⊢
    exact htypes.resolve_left h

end

end After

end Memmy.SessionDag.Transition
