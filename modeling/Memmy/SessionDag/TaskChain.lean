import Memmy.Lib.Chain
import Memmy.SessionDag.TaskEffect

/-! # The chain of tasks

The tasks of a session, in the order in which they were created, form a tree in every history: each but the
first hangs from one earlier task. They form one chain, whose last task is the root, as long as the steps are
`Steady`: the clock moves on from commit to commit, and no patch without a new task freezes the root beside a
task that is not frozen. A patch that does so hands the root back to an earlier task, from which the next task
then hangs.

* `taskTree_of_inv`: the tree.
* `chain_buildStep`: a steady step keeps the chain.
* `taskChain_of_history`: both, over histories.
* `chain_broken`: a history that is not steady. -/

namespace Memmy.SessionDag.TaskChain

open Lib.Chain Lib.JsonValue Lib.Run SessionDag.Types SessionDag.PatchSchema SessionDag.Selection
open List SessionDag.Store SessionDag.Builder SessionDag.Shape SessionDag.Invariant
  SessionDag.Progress SessionDag.Transition SessionDag.Completion SessionDag.History
  SessionDag.LastResort SessionDag.TaskEffect

/-! ### The shapes -/

/-- **A tree**: the first task hangs from no task, every other from exactly one, an earlier one. -/
structure TaskTree (db : Db) : Prop where
  first : ∀ n, (tasks db).head? = some n → ∀ e ∈ taskEdges db, e.targetId ≠ n.id
  incoming : ∀ n ∈ (tasks db).tail, ∃ e, (taskEdges db).filter (fun e => e.targetId = n.id) = [e]
  earlier : ∀ e ∈ taskEdges db, [e.sourceId, e.targetId].Sublist ((tasks db).map (·.id))

/-- **One chain**: each edge leads from a task to the next, at most one leaves each task, none leaves the root
alone, and each has the type that goes with the status of its source. -/
structure LinearChain (sessionKey : String) (db : Db) : Prop where
  inOrder : (taskEdges db).map (fun e => (e.sourceId, e.targetId)) = links ((tasks db).map (·.id))
  outgoing : ∀ id, ((taskEdges db).filter fun e => e.sourceId = id).length ≤ 1
  sink : ∀ n ∈ tasks db, (∀ e ∈ taskEdges db, e.sourceId ≠ n.id) ↔
    (selectRootTask (readNodes sessionKey db)).map (·.id) = some n.id
  types : ∀ e ∈ taskEdges db, ∀ n ∈ tasks db, n.id = e.sourceId → taskTransitionEdgeType n.status = some e.type

/-- **A steady commit**: its clock is past the times of the tasks, and ticks before it completes the goal of a
new task; and without a new task it does not leave the root frozen beside a task that is not. -/
structure SteadyCommit (env : Env) (db : Db) (turn : DagTurn) (db' : Db) (root : Option DagNode) : Prop where
  later : ∀ n ∈ tasks db, n.updatedAt < env.now
  goalLater : env.now ≤ env.goalNow
  created : ∀ g ∈ turnGoal turn, g.status = .completed → root.bind (·.goalId) ≠ some g.goalId →
    env.now < env.goalNow
  frozen : (tasks db').length = (tasks db).length → ∀ r ∈ tasks db', some r.id = root.map (·.id) →
    r.status = .frozen → ∀ m ∈ tasks db', m.status = .frozen

instance (env : Env) (db : Db) (turn : DagTurn) (db' : Db) (root : Option DagNode) :
    Decidable (SteadyCommit env db turn db' root) :=
  decidable_of_iff
    ((∀ n ∈ tasks db, n.updatedAt < env.now) ∧ env.now ≤ env.goalNow ∧
      (∀ g ∈ turnGoal turn, g.status = .completed → root.bind (·.goalId) ≠ some g.goalId →
        env.now < env.goalNow) ∧
      ((tasks db').length = (tasks db).length → ∀ r ∈ tasks db', some r.id = root.map (·.id) →
        r.status = .frozen → ∀ m ∈ tasks db', m.status = .frozen))
    ⟨fun ⟨h1, h2, h3, h4⟩ => ⟨h1, h2, h3, h4⟩, fun h => ⟨h.later, h.goalLater, h.created, h.frozen⟩⟩

def Steady (sessionKey : String) (db : Db) (s : BuildStep) : Prop :=
  match s with
  | .build _ _ turn env | .fallback turn env =>
    SteadyCommit env db turn (buildStep sessionKey db s) (selectRootTask (readNodes sessionKey db))
  | _ => True

instance (sessionKey : String) (db : Db) (s : BuildStep) : Decidable (Steady sessionKey db s) := by
  unfold Steady
  cases s <;> infer_instance

/-! ### The rows of the tasks -/

section Rows
variable {sessionKey : String} {env : Env} {db : Db} {patch : DagPatch} {root : DagNode} {ts : List DagNode}

theorem nodup_taskIds (h : WellFormed sessionKey db) : ((tasks db).map (·.id)).Nodup :=
  (nodup_ids_nodes h.built.ids rfl).sublist (filter_sublist.map _)

theorem eq_of_taskId (h : WellFormed sessionKey db) {n n' : DagNode} (hn : n ∈ tasks db)
    (hn' : n' ∈ tasks db) (hid : n.id = n'.id) : n = n' :=
  inj_on_of_nodup_map (nodup_taskIds h) hn hn' hid

theorem taskIds_of_rows (hrows : List.Forall₂ (TaskRow env patch root) (tasks db) ts) :
    ts.map (·.id) = (tasks db).map (·.id) := by
  refine (List.forall₂_eq_eq_eq ▸ ?_ : (tasks db).map (·.id) = ts.map (·.id)).symm
  rw [List.forall₂_map_left_iff, List.forall₂_map_right_iff]
  exact hrows.imp fun m n hrow => hrow.id.symm

theorem tasks_congr {db' : Db} (hn : db'.nodes = db.nodes) (he : db'.edges = db.edges) :
    tasks db' = tasks db ∧ taskEdges db' = taskEdges db := by
  unfold TaskEffect.taskEdges isTaskId tasks
  rw [hn, he]
  exact ⟨rfl, rfl⟩

end Rows

/-! ### The tree -/

/-- What the tree comes from. -/
structure TreeInv (db : Db) : Prop where
  targets : (taskEdges db).map (·.targetId) = ((tasks db).map (·.id)).tail
  earlier : ∀ e ∈ taskEdges db, [e.sourceId, e.targetId].Sublist ((tasks db).map (·.id))

section Tree
variable {sessionKey : String} {env : Env} {db db' : Db} {turn : DagTurn} {patch : DagPatch}

theorem treeInv_of_effect (h : TreeInv db) {root : Option DagNode}
    (hroot : ∀ r, root = some r → r.id ∈ (tasks db).map (·.id))
    (heffect : Effect env db turn patch db' root) : TreeInv db' := by
  cases heffect with
  | empty _ htasks hedges =>
    constructor <;> rw [hedges, htasks] <;> simp
  | first n _ _ htasks hedges =>
    constructor <;> rw [hedges, htasks] <;> simp
  | same root hrows hedges =>
    constructor <;> rw [hedges, taskIds_of_rows hrows]
    · exact h.targets
    · exact h.earlier
  | next root ts n r t hrows _ _ htasks hedges hsource htarget =>
    have hids := taskIds_of_rows hrows
    have hmem := hroot root rfl
    constructor
    · rw [hedges, htasks, map_append, map_append, hids, h.targets, tail_append_of_ne_nil]
      · rw [map_singleton, map_singleton, htarget]
      · exact ne_nil_of_mem hmem
    · intro e he
      rw [htasks, map_append, hids]
      rw [hedges] at he
      rcases mem_append.mp he with he | he
      · exact (h.earlier e he).trans (sublist_append_left _ _)
      · rw [mem_singleton.mp he, hsource, htarget]
        exact (singleton_sublist.mpr hmem).append (List.Sublist.refl [n.id])

theorem mem_taskIds_of_root {r : DagNode} (hroot : selectRootTask (readNodes sessionKey db) = some r) :
    r.id ∈ (tasks db).map (·.id) := by
  obtain ⟨m, hm, rfl⟩ := exists_row_of_root hroot
  have hk := kind_of_root hroot
  exact mem_map.mpr ⟨m, mem_tasks.mpr ⟨hm, hk⟩, rfl⟩

theorem treeInv_buildStep (hw : WellFormed sessionKey db) (h : TreeInv db) (s : BuildStep) :
    TreeInv (buildStep sessionKey db s) := by
  rcases step_cases sessionKey db s with ⟨hn, he⟩ | ⟨turn, env, patch, -, hc⟩
  · obtain ⟨htasks, hedges⟩ := tasks_congr hn he
    constructor <;> rw [htasks, hedges]
    · exact h.targets
    · exact h.earlier
  · exact treeInv_of_effect h (fun r hr => mem_taskIds_of_root hr) (effect_of_commits hw hc)

theorem taskTree_of_inv (hw : WellFormed sessionKey db) (h : TreeInv db) : TaskTree db := by
  have hnodup := nodup_taskIds hw
  have htargets : ((taskEdges db).map (·.targetId)).Nodup := by
    rw [h.targets]
    exact hnodup.sublist (tail_sublist _)
  refine ⟨fun n hn e he hid => ?_, fun n hn => ?_, h.earlier⟩
  · obtain ⟨rest, hrest⟩ := head?_eq_some_iff.mp hn
    have hmem : e.targetId ∈ ((tasks db).map (·.id)).tail := by
      rw [← h.targets]
      exact mem_map_of_mem he
    rw [hrest] at hmem hnodup
    rw [hid] at hmem
    exact (nodup_cons.mp hnodup).1 hmem
  · refine exists_filter_eq_singleton htargets ?_
    rw [h.targets, ← map_tail]
    exact mem_map_of_mem hn

end Tree

/-! ### The root -/

/-- **The last written task** of a chain: it is the only one that may be open; if it is closed, it was written
after all others; and it is frozen only when all are. -/
structure Latest (ts : List DagNode) (t : DagNode) : Prop where
  closed : ∀ m ∈ ts, m.id ≠ t.id → m.status.isOpen = false
  later : t.status.isOpen = false → ∀ m ∈ ts, m.id ≠ t.id → m.updatedAt < t.updatedAt
  frozen : t.status = .frozen → ∀ m ∈ ts, m.status = .frozen

section Root
variable {sessionKey : String} {db : Db} {t : DagNode} {n : DagNode} {nodes : List DagNode}

theorem exists_task (hn : n ∈ tasksOf (readNodes sessionKey db)) : ∃ m ∈ tasks db, parseNodeRow m = n := by
  obtain ⟨hmem, hk⟩ := mem_tasksOf.mp hn
  obtain ⟨m, hm, -, rfl⟩ := mem_readNodes.mp hmem
  exact ⟨m, mem_tasks.mpr ⟨hm, hk⟩, rfl⟩

theorem mem_tasksOf_parse (h : WellFormed sessionKey db) (ht : t ∈ tasks db) :
    parseNodeRow t ∈ tasksOf (readNodes sessionKey db) := by
  obtain ⟨hm, hk⟩ := mem_tasks.mp ht
  exact mem_tasksOf.mpr ⟨parse_mem_readNodes h.built hm, hk⟩

theorem rootCandidates_of_open (h : openTasks nodes ≠ []) : rootCandidates nodes = openTasks nodes := by
  unfold rootCandidates
  rw [if_pos h, if_pos h]

theorem mem_tasksOf_of_candidate (h : n ∈ rootCandidates nodes) : n ∈ tasksOf nodes := by
  by_cases hopen : openTasks nodes = []
  · unfold rootCandidates at h
    dsimp only at h
    rw [if_neg (not_not.mpr hopen)] at h
    split_ifs at h
    · exact (mem_filter.mp h).1
    · exact h
  · rw [rootCandidates_of_open hopen] at h
    exact (mem_filter.mp h).1

theorem openTasks_of_latest (h : WellFormed sessionKey db) (ht : t ∈ tasks db) (hl : Latest (tasks db) t)
    (hn : n ∈ openTasks (readNodes sessionKey db)) : n = parseNodeRow t ∧ t.status.isOpen = true := by
  obtain ⟨hn, hk, ho⟩ := mem_openTasks.mp hn
  obtain ⟨m, hm, rfl⟩ := exists_task (mem_tasksOf.mpr ⟨hn, hk⟩)
  rw [parseNodeRow_status] at ho
  by_cases hid : m.id = t.id
  · rw [eq_of_taskId h hm ht hid] at ho ⊢
    exact ⟨rfl, ho⟩
  · rw [hl.closed m hm hid] at ho
    cases ho

theorem mem_rootCandidates (h : WellFormed sessionKey db) (ht : t ∈ tasks db) (hl : Latest (tasks db) t) :
    parseNodeRow t ∈ rootCandidates (readNodes sessionKey db) := by
  have hmem := mem_tasksOf_parse h ht
  by_cases hopen : t.status.isOpen = true
  · have ho : parseNodeRow t ∈ openTasks (readNodes sessionKey db) :=
      mem_openTasks.mpr ⟨(mem_tasksOf.mp hmem).1, (mem_tasksOf.mp hmem).2, hopen⟩
    rw [rootCandidates_of_open (ne_nil_of_mem ho)]
    exact ho
  · have hnone : openTasks (readNodes sessionKey db) = [] :=
      eq_nil_iff_forall_not_mem.mpr fun n hn => hopen (openTasks_of_latest h ht hl hn).2
    unfold rootCandidates
    rw [if_neg (not_not.mpr hnone)]
    by_cases hf : t.status = .frozen
    · have hall : (tasksOf (readNodes sessionKey db)).filter (fun n => n.status ≠ .frozen) = [] := by
        refine filter_eq_nil_iff.mpr fun n hn => ?_
        obtain ⟨m, hm, rfl⟩ := exists_task hn
        rw [decide_eq_true_eq, not_not, parseNodeRow_status]
        exact hl.frozen hf m hm
      rw [if_neg (not_not.mpr hall)]
      exact hmem
    · have hthawed : parseNodeRow t ∈
          (tasksOf (readNodes sessionKey db)).filter (fun n => n.status ≠ .frozen) :=
        mem_filter.mpr ⟨hmem, decide_eq_true hf⟩
      rw [if_pos (ne_nil_of_mem hthawed)]
      exact hthawed

theorem root_of_latest (h : WellFormed sessionKey db) (ht : t ∈ tasks db) (hl : Latest (tasks db) t) :
    selectRootTask (readNodes sessionKey db) = some (parseNodeRow t) := by
  have hcand := mem_rootCandidates h ht hl
  refine selectRootTask_of_lt hcand fun n hn hne => ?_
  obtain ⟨m, hm, rfl⟩ := exists_task (mem_tasksOf_of_candidate hn)
  have hid : m.id ≠ t.id := fun hid => hne (by rw [eq_of_taskId h hm ht hid])
  by_cases hopen : t.status.isOpen = true
  · -- an open task leaves no other candidate
    have ho : parseNodeRow t ∈ openTasks (readNodes sessionKey db) :=
      mem_openTasks.mpr ⟨parse_mem_readNodes h.built (mem_tasks.mp ht).1, (mem_tasks.mp ht).2, hopen⟩
    rw [rootCandidates_of_open (ne_nil_of_mem ho)] at hn
    exact absurd (openTasks_of_latest h ht hl hn).1 hne
  · exact hl.later (by simpa using hopen) m hm hid

end Root

/-! ### The chain -/

/-- What a link of the chain says about its edge. -/
def linkEdge (p : DagNode × DagNode) : String × String × Option DagEdgeType :=
  (p.1.id, p.2.id, taskTransitionEdgeType p.1.status)

/-- What the chain comes from. -/
structure ChainInv (db : Db) : Prop where
  edges : (taskEdges db).map (fun e => (e.sourceId, e.targetId, some e.type)) = (links (tasks db)).map linkEdge
  last : ∀ t, (tasks db).getLast? = some t → Latest (tasks db) t

section Chain
variable {sessionKey : String} {env : Env} {db db' : Db} {turn : DagTurn} {patch : DagPatch}
  {root t t' : DagNode} {ts : List DagNode}

theorem last_of_root (hw : WellFormed sessionKey db) (h : ChainInv db)
    (hroot : selectRootTask (readNodes sessionKey db) = some root) :
    ∃ t, (tasks db).getLast? = some t ∧ t.id = root.id := by
  have hmem := mem_taskIds_of_root hroot
  cases hlast : (tasks db).getLast? with
  | none =>
    rw [getLast?_eq_none_iff] at hlast
    rw [hlast] at hmem
    cases hmem
  | some t =>
    rw [root_of_latest hw (mem_of_getLast? hlast) (h.last t hlast)] at hroot
    cases hroot
    exact ⟨t, rfl, rfl⟩

theorem getLast?_of_rows {R : DagNode → DagNode → Prop} : ∀ {l u : List DagNode}, List.Forall₂ R l u →
    ∀ {a}, l.getLast? = some a → ∃ b, u.getLast? = some b ∧ R a b
  | _, _, List.Forall₂.nil, a, h => by cases h
  | _, _, List.Forall₂.cons hab List.Forall₂.nil, a, h => by
    cases h
    exact ⟨_, rfl, hab⟩
  | _, _, List.Forall₂.cons _ (List.Forall₂.cons hcd h'), a, h => by
    exact getLast?_of_rows (List.Forall₂.cons hcd h') h

/-- **The links stay**: only the last task is written, and no link leads from it. -/
theorem links_of_rows (hw : WellFormed sessionKey db) (hlast : (tasks db).getLast? = some t)
    (hid : t.id = root.id) (hrows : List.Forall₂ (TaskRow env patch root) (tasks db) ts) :
    (links ts).map linkEdge = (links (tasks db)).map linkEdge := by
  have hnodup := nodup_taskIds hw
  have hsources : ∀ p ∈ links (tasks db), p.1.id ≠ root.id := by
    intro p hp he
    have hmem : p.1 ∈ (tasks db).dropLast := by
      rw [← map_fst_links]
      exact mem_map_of_mem hp
    have hp1 := (dropLast_sublist _).subset hmem
    rw [eq_of_taskId hw hp1 (mem_of_getLast? hlast) (he.trans hid.symm)] at hmem
    exact (notMem_dropLast_iff hnodup.of_map (mem_of_getLast? hlast)).mpr hlast hmem
  have hpairs := forall₂_map_right (f := fun p => p) (forall₂_links hrows) fun p hp q hq hpq =>
    show linkEdge p = linkEdge q by
      obtain ⟨h1, h2⟩ := hpq
      unfold linkEdge
      rw [h1.id, h2.id, (h1.other (hsources p hp)).1]
  rw [map_id'] at hpairs
  symm
  rw [← List.forall₂_eq_eq_eq, List.forall₂_map_left_iff, List.forall₂_map_right_iff]
  exact hpairs

/-- **The root stays the latest** in a steady commit without a new task. -/
theorem latest_of_same (hl : Latest (tasks db) t) (hid : t.id = root.id)
    (hrows : List.Forall₂ (TaskRow env patch root) (tasks db) ts)
    (hrow : TaskRow env patch root t t') (hlater : ∀ n ∈ tasks db, n.updatedAt < env.now)
    (hgoal : env.now ≤ env.goalNow) (hfrozen : t'.status = .frozen → ∀ m ∈ ts, m.status = .frozen) :
    Latest ts t' := by
  -- the other tasks are as they were
  have hother : ∀ m ∈ ts, m.id ≠ t'.id → ∃ m₀ ∈ tasks db, m₀.id ≠ t.id ∧ m.status = m₀.status ∧
      m.updatedAt = m₀.updatedAt := by
    intro m hm hne
    obtain ⟨m₀, hm₀, hr⟩ := exists_of_forall₂ hrows hm
    have hne₀ : m₀.id ≠ t.id := by rw [← hr.id, ← hrow.id]; exact hne
    obtain ⟨hs, hu⟩ := hr.other (by rw [← hid]; exact hne₀)
    exact ⟨m₀, hm₀, hne₀, hs, hu⟩
  refine ⟨fun m hm hne => ?_, fun hclosed m hm hne => ?_, hfrozen⟩
  · obtain ⟨m₀, hm₀, hne₀, hs, -⟩ := hother m hm hne
    rw [hs]
    exact hl.closed m₀ hm₀ hne₀
  · obtain ⟨m₀, hm₀, hne₀, -, hu⟩ := hother m hm hne
    have hm₀later := hlater m₀ hm₀
    rw [hu]
    rcases hrow.root hid with ⟨hs, hat⟩ | ⟨-, -, hat⟩
    · rw [hat]
      split_ifs with hnone
      · -- the root is not written: it was closed before
        have hsame : t'.status = t.status := by
          rw [hs]
          unfold statusAfter
          rw [hnone]
          rfl
        exact hl.later (by rw [← hsame]; exact hclosed) m₀ hm₀ hne₀
      · exact hm₀later
    · rw [hat]
      omega

theorem latest_of_next {r : DagNode} (hl : Latest (tasks db) t) (hid : t.id = root.id)
    (hnodup : ((ts ++ [n]).map (·.id)).Nodup)
    (hrows : List.Forall₂ (TaskRow env patch root) (tasks db) ts) (hadd : addedTasks patch ≠ [])
    (hr : r ∈ ts) (hrid : r.id = root.id) (hclosed : r.status.isOpen = false)
    (hnew : NewTask env turn root.goalId n) (hlater : ∀ n ∈ tasks db, n.updatedAt < env.now)
    (hcreated : ∀ g ∈ turnGoal turn, g.status = .completed → root.goalId ≠ some g.goalId →
      env.now < env.goalNow) : Latest (ts ++ [n]) n := by
  have hold : ∀ m ∈ ts ++ [n], m.id ≠ n.id → m ∈ ts := by
    intro m hm hne
    rcases mem_append.mp hm with hm | hm
    · exact hm
    · exact absurd (congrArg DagNode.id (mem_singleton.mp hm)) hne
  refine ⟨fun m hm hne => ?_, fun hn m hm hne => ?_, fun hf => ?_⟩
  · have hmts := hold m hm hne
    by_cases hmr : m.id = root.id
    · have : m = r := inj_on_of_nodup_map hnodup hm (mem_append_left _ hr) (hmr.trans hrid.symm)
      rw [this]
      exact hclosed
    · obtain ⟨m₀, hm₀, hrow⟩ := exists_of_forall₂ hrows hmts
      have hne₀ : m₀.id ≠ root.id := by rw [← hrow.id]; exact hmr
      rw [(hrow.other hne₀).1]
      exact hl.closed m₀ hm₀ (by rw [hid]; exact hne₀)
  · rcases hnew with ⟨ho, -⟩ | ⟨-, hat, g, hg, hc, hne'⟩
    · rw [ho] at hn
      cases hn
    · have htick := hcreated g hg hc hne'
      obtain ⟨m₀, hm₀, hrow⟩ := exists_of_forall₂ hrows (hold m hm hne)
      have hm₀later := hlater m₀ hm₀
      by_cases hid₀ : m₀.id = root.id
      · rcases hrow.root hid₀ with ⟨-, hu⟩ | ⟨hnil, -⟩
        · rw [hu]
          split_ifs <;> omega
        · exact absurd hnil hadd
      · rw [(hrow.other hid₀).2]
        omega
  · rcases hnew with ⟨ho, -⟩ | ⟨hd, -⟩
    · rw [hf] at ho
      cases ho
    · rw [hf] at hd
      cases hd

theorem chainInv_of_effect (hw : WellFormed sessionKey db) (hw' : WellFormed sessionKey db')
    (h : ChainInv db)
    (heffect : Effect env db turn patch db' (selectRootTask (readNodes sessionKey db)))
    (hsteady : SteadyCommit env db turn db' (selectRootTask (readNodes sessionKey db))) :
    ChainInv db' := by
  generalize hroot : selectRootTask (readNodes sessionKey db) = r at heffect hsteady
  cases heffect with
  | empty _ htasks hedges =>
    constructor <;> rw [htasks]
    · rw [hedges]
      rfl
    · intro t ht
      cases ht
  | first n _ _ htasks hedges =>
    constructor <;> rw [htasks]
    · rw [hedges]
      rfl
    · intro t ht
      cases ht
      refine ⟨fun m hm hne => ?_, fun _ m hm hne => ?_, fun hf m hm => ?_⟩
      · exact absurd (congrArg DagNode.id (mem_singleton.mp hm)) hne
      · exact absurd (congrArg DagNode.id (mem_singleton.mp hm)) hne
      · rw [mem_singleton.mp hm]
        exact hf
  | same root hrows hedges =>
    obtain ⟨t, hlast, hid⟩ := last_of_root hw h hroot
    constructor
    · rw [hedges, links_of_rows hw hlast hid hrows]
      exact h.edges
    · intro t' ht'
      obtain ⟨t'', ht'', hrow⟩ := getLast?_of_rows hrows hlast
      rw [ht', Option.some.injEq] at ht''
      subst ht''
      have hlen := (List.Forall₂.length_eq hrows).symm
      exact latest_of_same (h.last t hlast) hid hrows hrow hsteady.later hsteady.goalLater fun hf =>
        hsteady.frozen hlen t' (mem_of_getLast? ht') (congrArg some (hrow.id.trans hid)) hf
  | next root ts n r t hrows hnew hadd htasks hedges hsource htarget hr hrid htype =>
    obtain ⟨t₀, hlast, hid⟩ := last_of_root hw h hroot
    obtain ⟨t₁, hlast₁, hrow⟩ := getLast?_of_rows hrows hlast
    have hnodup := nodup_taskIds hw'
    rw [htasks] at hnodup
    have hr₁ : t₁ = r := inj_on_of_nodup_map hnodup
      (mem_append_left _ (mem_of_getLast? hlast₁)) (mem_append_left _ hr)
      (hrow.id.trans (hid.trans hrid.symm))
    constructor
    · rw [htasks, hedges, links_snoc n hlast₁, map_append, map_append, h.edges,
        links_of_rows hw hlast hid hrows, map_singleton, map_singleton, hsource, htarget,
        ← htype, hr₁, ← hrid]
      rfl
    · intro t' ht'
      rw [htasks, getLast?_concat, Option.some.injEq] at ht'
      subst ht'
      rw [htasks]
      exact latest_of_next (h.last t₀ hlast) hid hnodup hrows hadd hr hrid
        (isOpen_of_taskTransitionEdgeType htype).1 hnew hsteady.later hsteady.created

theorem chain_buildStep (hw : WellFormed sessionKey db) (h : ChainInv db) {s : BuildStep}
    (hsteady : Steady sessionKey db s) : ChainInv (buildStep sessionKey db s) := by
  rcases step_cases sessionKey db s with ⟨hn, he⟩ | ⟨turn, env, patch, hs, hc⟩
  · obtain ⟨htasks, hedges⟩ := tasks_congr hn he
    constructor <;> rw [htasks]
    · rw [hedges]
      exact h.edges
    · exact h.last
  · have hcommit : SteadyCommit env db turn (buildStep sessionKey db s)
        (selectRootTask (readNodes sessionKey db)) := by
      rcases hs with rfl | ⟨parsed, maxNodes, rfl⟩ <;> exact hsteady
    exact chainInv_of_effect hw (wellFormed_buildStep hw s) h (effect_of_commits hw hc) hcommit

/-- **What the invariant says of the chain.** -/
theorem linearChain_of_inv (hw : WellFormed sessionKey db) (h : ChainInv db) :
    LinearChain sessionKey db := by
  have hnodup := nodup_taskIds hw
  have horder : (taskEdges db).map (fun e => (e.sourceId, e.targetId)) =
      links ((tasks db).map (·.id)) := by
    have := congrArg (List.map fun p : String × String × Option DagEdgeType => (p.1, p.2.1)) h.edges
    rw [map_map, map_map] at this
    rw [links_map]
    exact this
  have hsources : (taskEdges db).map (·.sourceId) = ((tasks db).map (·.id)).dropLast := by
    rw [← map_fst_links, ← horder, map_map]
    rfl
  refine ⟨horder, length_filter_le_one ?_, fun n hn => ?_, fun e he n hn hid => ?_⟩
  · rw [hsources]
    exact hnodup.sublist (dropLast_sublist _)
  · have hsink : (∀ e ∈ taskEdges db, e.sourceId ≠ n.id) ↔ n.id ∉ ((tasks db).map (·.id)).dropLast := by
      rw [← hsources, mem_map]
      exact ⟨fun h ⟨e, he, hid⟩ => h e he hid, fun h e he hid => h ⟨e, he, hid⟩⟩
    rw [hsink, notMem_dropLast_iff hnodup (mem_map_of_mem hn), getLast?_map]
    cases hlast : (tasks db).getLast? with
    | none =>
      rw [getLast?_eq_none_iff] at hlast
      rw [hlast] at hn
      cases hn
    | some t =>
      rw [root_of_latest hw (mem_of_getLast? hlast) (h.last t hlast)]
      rfl
  · have hmem : (e.sourceId, e.targetId, some e.type) ∈ (links (tasks db)).map linkEdge := by
      rw [← h.edges]
      exact mem_map_of_mem (f := fun e : DagEdge => (e.sourceId, e.targetId, some e.type)) he
    obtain ⟨p, hp, heq⟩ := mem_map.mp hmem
    rw [linkEdge, Prod.mk.injEq, Prod.mk.injEq] at heq
    have hp1 : p.1 ∈ tasks db := (sublist_of_mem_links hp).subset mem_cons_self
    rw [← eq_of_taskId hw hp1 hn (heq.1.trans hid.symm)]
    exact heq.2.2

end Chain

/-! ### Histories -/

/-- **The tasks in every history** form a tree. They form one chain that ends in the root in every history
whose steps are steady. -/
theorem taskChain_of_history (sessionKey : String) (history : List BuildStep) :
    (∀ db ∈ visited (buildStep sessionKey) {} history, TaskTree db) ∧
      ((∀ step ∈ taken (buildStep sessionKey) {} history, Steady sessionKey step.1 step.2) →
        ∀ db ∈ visited (buildStep sessionKey) {} history, LinearChain sessionKey db) := by
  constructor
  · intro db hdb
    obtain ⟨hw, h⟩ := invariant (I := fun db => WellFormed sessionKey db ∧ TreeInv db)
      (fun _ s h => ⟨wellFormed_buildStep h.1 s, treeInv_buildStep h.1 h.2 s⟩) history {}
      ⟨wellFormed_empty, rfl, by intro e he; cases he⟩ db hdb
    exact taskTree_of_inv hw h
  · intro hsteady db hdb
    obtain ⟨hw, h⟩ := invariant_of_steps (I := fun db => WellFormed sessionKey db ∧ ChainInv db)
      (P := Steady sessionKey)
      (fun _ s h hs => ⟨wellFormed_buildStep h.1 s, chain_buildStep h.1 h.2 hs⟩) history {}
      ⟨wellFormed_empty, rfl, by intro t ht; cases ht⟩ hsteady db hdb
    exact linearChain_of_inv hw h

section Samples

/-- A raw update of the status of a node. -/
def statusPatch (nodeId status : String) : Json :=
  .obj [("ops", .arr [
    .obj [("op", .str "update_node"), ("node_id", .str nodeId), ("status", .str status)]])]

/-- A raw patch that closes the task `nodeId` for a new one. -/
def closingPatch (nodeId : String) : Json :=
  .obj [("ops", .arr [
    .obj [("op", .str "update_node"), ("node_id", .str nodeId), ("status", .str "done")],
    .obj [("op", .str "add_node"), ("temp_id", .str "n0"), ("kind", .str "task"),
      ("status", .str "active"), ("title", .str "T"), ("summary", .str "S"),
      ("importance", .num (.finite 80))]])]

/-- The steps of the turn `n`, whose patch is the model's `parsed`. -/
def turnSteps (n : ℕ) (goal : Option DagGoalContext) (parsed : Json) : List BuildStep :=
  [.enqueue (sampleTurn n goal) n, .build parsed 40 (queuedTurn n goal) (sampleEnv n)]

/-- A first task and a second one, for the goal if there is one. -/
def pairHistory (goal : Option DagGoalContext) : List BuildStep :=
  turnSteps 1 none samplePatch ++ turnSteps 2 goal (closingPatch (nodeIdOf (sampleEnv 1) 0))

/-- The second task is frozen; the next one is added behind the first. -/
def frozenHistory : List BuildStep :=
  pairHistory none ++ turnSteps 3 none (statusPatch (nodeIdOf (sampleEnv 2) 0) "frozen") ++
    turnSteps 4 none (closingPatch (nodeIdOf (sampleEnv 1) 0))

/-- The second task is that of a goal, which is completed at the time at which the first task is closed. -/
def tiedHistory : List BuildStep := pairHistory (some { sampleGoal with status := .completed })

/-- **A frozen task hands the root back**, and then two edges leave the first task. A completed task that was
written at the time of the task before it may lose against that one, though no edge leaves it. -/
theorem chain_broken :
    (∃ db ∈ visited (buildStep "s") {} frozenHistory, ¬ LinearChain "s" db) ∧
      ∃ db ∈ visited (buildStep "s") {} tiedHistory, ¬ LinearChain "s" db := by
  constructor
  · refine ⟨final (buildStep "s") {} frozenHistory, final_mem_visited (buildStep "s") _ _, fun h => ?_⟩
    have hle := h.outgoing (nodeIdOf (sampleEnv 1) 0)
    revert hle
    decide +kernel
  · refine ⟨final (buildStep "s") {} tiedHistory, final_mem_visited (buildStep "s") _ _, fun h => ?_⟩
    have hsink := h.sink
    revert hsink
    decide +kernel

/-- Two tasks, one after the other. -/
theorem taskChain_of_history_pair : ∀ db ∈ visited (buildStep "s") {} (pairHistory none), LinearChain "s" db :=
  (taskChain_of_history "s" (pairHistory none)).2 (by decide +kernel)

end Samples

end Memmy.SessionDag.TaskChain
