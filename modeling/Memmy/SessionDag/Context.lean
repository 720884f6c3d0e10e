import Mathlib.Data.List.Dedup
import Memmy.SessionDag.Builder
import Memmy.SessionDag.Invariant

/-! # What the model is shown

The context of a patch is cut down to a number of nodes, but always holds the root, and no other task.

* `contextOk_of_root`, `context_of_no_root`: the context with and without a root. -/

namespace Memmy.SessionDag.Context

open Relation Lib.Sort SessionDag.Types SessionDag.PatchSchema SessionDag.Selection SessionDag.Store
open List SessionDag.Builder SessionDag.Shape SessionDag.Invariant

/-! ### The selection of the nodes -/

theorem mem_selectRanked {maxNodes : ℕ} : ∀ {ranked : List DagNode} {selected : List String} {id : String},
    id ∈ selectRanked maxNodes ranked selected → id ∈ selected ∨ ∃ n ∈ ranked, n.id = id
  | [], _, _, h => Or.inl h
  | n :: ranked, selected, id, h => by
    unfold selectRanked at h
    by_cases hmax : maxNodes ≤ selected.length
    · rw [if_pos hmax] at h
      exact Or.inl h
    rw [if_neg hmax] at h
    rcases mem_selectRanked h with h | ⟨m, hm, hid⟩
    · split_ifs at h with hmem
      · exact Or.inl h
      · rcases mem_cons.mp h with rfl | h
        · exact Or.inr ⟨n, mem_cons_self, rfl⟩
        · exact Or.inl h
    · exact Or.inr ⟨m, mem_cons_of_mem _ hm, hid⟩

theorem subset_selectRanked {maxNodes : ℕ} : ∀ {ranked : List DagNode} {selected : List String}
    {id : String}, id ∈ selected → id ∈ selectRanked maxNodes ranked selected
  | [], _, _, h => h
  | n :: ranked, selected, id, h => by
    unfold selectRanked
    by_cases hmax : maxNodes ≤ selected.length
    · rw [if_pos hmax]
      exact h
    rw [if_neg hmax]
    refine subset_selectRanked ?_
    split_ifs
    · exact h
    · exact mem_cons_of_mem _ h

/-! ### The context -/

/-- **A context with a root**: the root is in it, and no other task. -/
structure ContextOk (nodes : List DagNode) (root : DagNode) (ctx : DagBuilderContext) : Prop where
  rootTaskId : ctx.rootTaskId = some root.id
  mem : toContextNode root ∈ ctx.nodes
  rows : ∀ c ∈ ctx.nodes, ∃ n ∈ nodes, toContextNode n = c
  tasks : ∀ c ∈ ctx.nodes, c.kind = .task → c = toContextNode root
  ids : ∀ c ∈ ctx.nodes, c.id = root.id → c = toContextNode root

section Context
variable {sessionKey : String} {db : Db} {root : DagNode}

theorem kind_ne_of_isStep (h : Built sessionKey (shapes db) db.edges) {n : DagNode}
    (hn : n ∈ readNodes sessionKey db) (hstep : isStep (readNodes sessionKey db) n.id = true) :
    n.kind ≠ .task := by
  unfold isStep at hstep
  rw [byId_readNodes h hn] at hstep
  simpa using hstep

/-- **The context of a session with tasks.** -/
theorem contextOk_of_root (h : Built sessionKey (shapes db) db.edges)
    (hroot : selectRootTask (readNodes sessionKey db) = some root) (maxNodes : ℕ) :
    ContextOk (readNodes sessionKey db) root (readBuilderContext sessionKey db maxNodes) := by
  obtain ⟨hmem, hkind, -⟩ := selectRootTask_cases hroot
  have hne : readNodes sessionKey db ≠ [] := ne_nil_of_mem hmem
  obtain ⟨rest, hpath, hrest⟩ := deriveActivePathSelection_ok hroot (readEdges db)
  unfold readBuilderContext
  rw [if_neg hne]
  dsimp only
  rw [hpath]
  set descendants := taskSubgraphNodeIds root.id (readNodes sessionKey db) (readEdges db)
    with hdescendants
  set mandatory := ((root.id :: rest) ++ ((readNodes sessionKey db).filter fun n =>
    decide (n.id ∈ descendants ∧ (n.status.isOpen = true ∨ n.status = .failed))).map (·.id)).dedup
    with hmandatory
  set ranked := sortBy (compareLex (descending (·.importance)) (descending (·.updatedAt)))
    ((readNodes sessionKey db).filter fun n => decide (n.id ∈ descendants)) with hranked
  have hdesc : ∀ id ∈ descendants, id = root.id ∨ isStep (readNodes sessionKey db) id = true :=
    fun id hid => mem_taskSubgraphNodeIds hid
  have hselected : ∀ id ∈ selectRanked maxNodes ranked mandatory,
      id = root.id ∨ isStep (readNodes sessionKey db) id = true := by
    intro id hid
    rcases mem_selectRanked hid with hid | ⟨n, hn, rfl⟩
    · rw [hmandatory, mem_dedup, mem_append] at hid
      rcases hid with hid | hid
      · rcases mem_cons.mp hid with rfl | hid
        · exact Or.inl rfl
        · exact Or.inr (hrest id hid)
      · obtain ⟨n, hn, rfl⟩ := mem_map.mp hid
        have := (mem_filter.mp hn).2
        simp only [decide_eq_true_eq] at this
        exact hdesc _ this.1
    · rw [hranked, mem_sortBy] at hn
      have := (mem_filter.mp hn).2
      simp only [decide_eq_true_eq] at this
      exact hdesc _ this
  have hids : ∀ c, c ∈ ((readNodes sessionKey db).filter fun n =>
      decide (n.id ∈ selectRanked maxNodes ranked mandatory)).map toContextNode →
      c.id = root.id → c = toContextNode root := by
    intro c hc hid
    obtain ⟨n, hn, rfl⟩ := mem_map.mp hc
    rw [eq_of_id_readNodes h (mem_of_mem_filter hn) hmem hid]
  refine ⟨rfl, ?_, ?_, ?_, hids⟩
  · refine mem_map.mpr ⟨root, mem_filter.mpr ⟨hmem, decide_eq_true ?_⟩, rfl⟩
    exact subset_selectRanked (by rw [mem_dedup]; simp)
  · intro c hc
    obtain ⟨n, hn, rfl⟩ := mem_map.mp hc
    exact ⟨n, mem_of_mem_filter hn, rfl⟩
  · intro c hc hk
    refine hids c hc ?_
    obtain ⟨n, hn, rfl⟩ := mem_map.mp hc
    obtain ⟨hn, hsel⟩ := mem_filter.mp hn
    rcases hselected n.id (of_decide_eq_true hsel) with hid | hstep
    · exact hid
    · exact absurd hk (kind_ne_of_isStep h hn hstep)

/-- **Without a task there is nothing.** -/
theorem nodes_of_no_root (h : WellFormed sessionKey db)
    (hroot : selectRootTask (readNodes sessionKey db) = none) : db.nodes = [] := by
  rw [selectRootTask_eq_none] at hroot
  have htasks : ∀ n ∈ db.nodes, n.kind ≠ .task := by
    intro n hn hk
    have : parseNodeRow n ∈ tasksOf (readNodes sessionKey db) :=
      mem_tasksOf.mpr ⟨parse_mem_readNodes h.built hn, hk⟩
    rw [hroot] at this
    cases this
  refine eq_nil_iff_forall_not_mem.mpr fun n hn => ?_
  obtain ⟨m, hm, hk, -⟩ := h.rooted (shape n) (mem_shapes.mpr ⟨n, hn, rfl⟩) (htasks n hn)
  obtain ⟨t, ht, rfl⟩ := mem_shapes.mp hm
  exact htasks t ht hk

theorem readNodes_of_nil (h : db.nodes = []) : readNodes sessionKey db = [] := by
  refine eq_nil_iff_forall_not_mem.mpr fun n hn => ?_
  obtain ⟨row, hrow, -⟩ := mem_readNodes.mp hn
  rw [h] at hrow
  cases hrow

/-- **The context of a session without tasks is empty.** -/
theorem context_of_no_root (h : WellFormed sessionKey db)
    (hroot : selectRootTask (readNodes sessionKey db) = none) (maxNodes : ℕ) :
    readBuilderContext sessionKey db maxNodes = {} := by
  exact if_pos (readNodes_of_nil (nodes_of_no_root h hroot))

theorem exists_of_mem_context {maxNodes : ℕ} {id : String}
    (hid : id ∈ (contextNodeKinds (readBuilderContext sessionKey db maxNodes)).map (·.1)) :
    ∃ m ∈ db.nodes, m.id = id := by
  unfold contextNodeKinds at hid
  rw [List.map_map] at hid
  obtain ⟨c, hc, rfl⟩ := mem_map.mp hid
  unfold readBuilderContext at hc
  by_cases hnil : readNodes sessionKey db = []
  · rw [if_pos hnil] at hc
    cases hc
  rw [if_neg hnil] at hc
  obtain ⟨n, hn, rfl⟩ := mem_map.mp hc
  obtain ⟨row, hrow, -, rfl⟩ := mem_readNodes.mp (mem_of_mem_filter hn)
  exact ⟨row, hrow, rfl⟩

end Context

end Memmy.SessionDag.Context
