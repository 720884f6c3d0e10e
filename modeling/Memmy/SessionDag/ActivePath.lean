import Mathlib.Data.List.Perm.Subperm
import Memmy.Lib.Path
import Memmy.SessionDag.Selection

/-! # What the active path is

The search for the active path goes up from the open steps, with a memo that is kept from one open step to the
next, and down from the root over completed steps, where each step passes on the best path below it only.

* `pathToRoot_finds`: the search up finds a path exactly if there is one.
* `compare_behind`, `bestCompletedSuffix_best`: the best path below a step goes on with the best one below its
  successor.
* `activePath_correct`: what the active path is, for all nodes and all edges without a cycle. -/

namespace Memmy.SessionDag.ActivePath

open Relation Lib.Path Lib.Reach Lib.Sort Lib.Text SessionDag.Types SessionDag.Selection List

/-! ### The graph that is searched -/

section Graph
variable (nodes : List DagNode) (edges : List DagEdge) (rootId : String)

/-- An edge leads from `x` to the step `y`. -/
abbrev ToStep : String → String → Prop := Step (·.sourceId) (·.targetId) (isStep nodes) edges

/-- **Below a side branch**: reached over steps from what a side branch leads to, unless that is a task. -/
def BelowSideBranch (id : String) : Prop :=
  ∃ e ∈ edges, (e.type = .sideBranch ∧ (byId nodes e.targetId).map (·.kind) ≠ some .task) ∧
    ReflTransGen (ToStep nodes edges) e.targetId id

def InSubgraph (id : String) : Prop :=
  ReflTransGen (ToStep nodes edges) rootId id ∧ ¬ BelowSideBranch nodes edges id

def InsideEdge (e : DagEdge) : Prop :=
  e ∈ edges ∧ InSubgraph nodes edges rootId e.sourceId ∧ InSubgraph nodes edges rootId e.targetId

/-- What is returned for a path. -/
def selection (x : String) (es : List DagEdge) : DagPathSelection where
  nodeIds := vertices (·.targetId) x es
  edgeIds := es.map (·.id)

variable (inside : DagEdge → Prop)

abbrev Path (ok : DagEdge → Prop) : String → List DagEdge → Prop := IsPath (·.sourceId) (·.targetId) ok

/-- An edge that `isActivePathEdge` admits. -/
def ActiveEdge (e : DagEdge) : Prop :=
  inside e ∧ ∃ target, byId nodes e.targetId = some target ∧ isActivePathEdge nodes rootId e target = true

/-- **An admissible path** from the root to a node. -/
def Leads (es : List DagEdge) (id : String) : Prop :=
  Path (ActiveEdge nodes rootId inside) rootId es ∧ stop (·.targetId) rootId es = id

/-- An edge of the type to a completed step. -/
def DoneEdge (type : DagEdgeType) (e : DagEdge) : Prop :=
  inside e ∧ e.type = type ∧ isDoneChild nodes e.targetId = true

/-- **A completed path**: from the root to a completed step, and on over completed steps. -/
def Completed : List DagEdge → Prop
  | [] => False
  | e :: es => DoneEdge nodes inside .decomposes e ∧ e.sourceId = rootId ∧
      Path (DoneEdge nodes inside .continues) e.targetId es

end Graph

/-! ### The search up -/

section Up
variable {nodes : List DagNode} {rootId : String} {inside : DagEdge → Prop} {incoming : String → List DagEdge}
variable {es : List DagEdge}
variable {id : String}

/-- The search found what there is. -/
structure Finds (nodes : List DagNode) (rootId : String) (inside : DagEdge → Prop)
    (found : Option DagPathSelection) (id : String) : Prop where
  path : ∀ p, found = some p → ∃ es, Leads nodes rootId inside es id ∧ p = selection rootId es
  none : found = none → ∀ es, ¬ Leads nodes rootId inside es id

/-- What the memo holds is right. -/
def Recalls (nodes : List DagNode) (rootId : String) (inside : DagEdge → Prop) (memo : PathMemo) : Prop :=
  ∀ entry ∈ memo, Finds nodes rootId inside entry.2 entry.1

theorem leads_iff (hne : id ≠ rootId) :
    Leads nodes rootId inside es id ↔ ∃ es' e, es = es' ++ [e] ∧
      Leads nodes rootId inside es' e.sourceId ∧ ActiveEdge nodes rootId inside e ∧ e.targetId = id := by
  constructor
  · rintro ⟨hpath, hstop⟩
    rcases eq_nil_or_concat es with rfl | ⟨es', e, rfl⟩
    · exact absurd hstop.symm hne
    · rw [concat_eq_append] at hpath hstop ⊢
      obtain ⟨hpath, he, hs⟩ := isPath_concat.mp hpath
      exact ⟨es', e, rfl, ⟨hpath, hs.symm⟩, he, stop_concat.symm.trans hstop⟩
  · rintro ⟨es', e, rfl, ⟨hpath, hs⟩, he, ht⟩
    exact ⟨isPath_concat.mpr ⟨hpath, he, hs.symm⟩, stop_concat.trans ht⟩

theorem selection_concat {x : String} {e : DagEdge} :
    selection x (es ++ [e]) = { nodeIds := (selection x es).nodeIds ++ [e.targetId]
                                edgeIds := (selection x es).edgeIds ++ [e.id] } := by
  unfold selection
  rw [vertices_concat, map_append]
  rfl

theorem firstParentPath_finds {search : String → PathMemo → Option DagPathSelection × PathMemo} {nodeId : String}
    (hne : nodeId ≠ rootId) : ∀ (edges : List DagEdge) (memo : PathMemo),
      (∀ e ∈ edges, ActiveEdge nodes rootId inside e ∧ e.targetId = nodeId) →
      (∀ e ∈ edges, ∀ memo, Recalls nodes rootId inside memo →
        Finds nodes rootId inside (search e.sourceId memo).1 e.sourceId ∧
          Recalls nodes rootId inside (search e.sourceId memo).2) →
      Recalls nodes rootId inside memo →
      (∀ p, (firstParentPath search nodeId edges memo).1 = some p →
        ∃ es, Leads nodes rootId inside es nodeId ∧ p = selection rootId es) ∧
      ((firstParentPath search nodeId edges memo).1 = none →
        ∀ e ∈ edges, ∀ es, ¬ Leads nodes rootId inside es e.sourceId) ∧
      Recalls nodes rootId inside (firstParentPath search nodeId edges memo).2
  | [], memo, _, _, hm => ⟨by simp [firstParentPath], by simp, hm⟩
  | e :: rest, memo, hedges, hsearch, hm => by
    obtain ⟨hactive, htarget⟩ := hedges e mem_cons_self
    obtain ⟨hfinds, hm'⟩ := hsearch e mem_cons_self memo hm
    unfold firstParentPath
    cases hs : search e.sourceId memo with
    | mk found memo' =>
      rw [hs] at hfinds hm'
      cases found with
      | none =>
        obtain ⟨hpath, hnone, hm''⟩ := firstParentPath_finds hne rest memo'
          (fun e' he' => hedges e' (mem_cons_of_mem _ he'))
          (fun e' he' => hsearch e' (mem_cons_of_mem _ he')) hm'
        exact ⟨hpath, fun h => forall_mem_cons.mpr ⟨hfinds.none rfl, hnone h⟩, hm''⟩
      | some p =>
        refine ⟨?_, by simp, hm'⟩
        rintro _ ⟨⟩
        obtain ⟨es, hes, rfl⟩ := hfinds.path p rfl
        refine ⟨es ++ [e], (leads_iff hne).mpr ⟨es, e, rfl, hes, hactive, htarget⟩, ?_⟩
        rw [selection_concat, htarget]

theorem length_visiting_le {visiting : List String} (hnodup : visiting.Nodup)
    (hids : ∀ v ∈ visiting, v ∈ nodes.map (·.id)) : visiting.length ≤ nodes.length := by
  have := (List.Nodup.subperm hnodup hids).length_le
  rwa [length_map] at this

theorem mem_ids_of_byId {n : DagNode} (h : byId nodes id = some n) : id ∈ nodes.map (·.id) := by
  have hid := find?_some h
  rw [decide_eq_true_eq] at hid
  exact mem_map.mpr ⟨n, mem_of_find?_eq_some h, hid⟩

theorem mem_ids_of_done (h : isDoneChild nodes id = true) : id ∈ nodes.map (·.id) := by
  unfold isDoneChild at h
  cases hn : byId nodes id with
  | none => rw [hn] at h; cases h
  | some n => exact mem_ids_of_byId hn

/-- **The search up finds a path exactly if there is one.** By induction on the fuel: what is being visited is
below the node, so that without a cycle the search never stops at it, and the memo may be filled. -/
theorem pathToRoot_finds (hin : ∀ id e, e ∈ incoming id ↔ inside e ∧ e.targetId = id)
    (hacyclic : Acyclic (Joined (·.sourceId) (·.targetId) inside)) :
    ∀ (fuel : ℕ) (visiting : List String) (nodeId : String) (memo : PathMemo), visiting.Nodup →
      (∀ v ∈ visiting, v ∈ nodes.map (·.id)) →
      (∀ v ∈ visiting, TransGen (Joined (·.sourceId) (·.targetId) inside) nodeId v) →
      nodes.length < fuel + visiting.length → Recalls nodes rootId inside memo →
      Finds nodes rootId inside (pathToRoot nodes rootId incoming fuel visiting nodeId memo).1 nodeId ∧
        Recalls nodes rootId inside (pathToRoot nodes rootId incoming fuel visiting nodeId memo).2
  | 0, visiting, _, _, hnodup, hids, _, hfuel, _ => by
    have := length_visiting_le hnodup hids
    omega
  | fuel + 1, visiting, nodeId, memo, hnodup, hids, hbelow, hfuel, hm => by
    unfold pathToRoot
    by_cases hroot : nodeId = rootId
    · rw [if_pos hroot]
      refine ⟨⟨?_, by simp⟩, hm⟩
      rintro _ ⟨⟩
      exact ⟨[], ⟨trivial, hroot.symm⟩, rfl⟩
    rw [if_neg hroot]
    -- nothing leads to a node that is a task or is not there
    have hnone : (∀ node, byId nodes nodeId = some node → node.kind = .task) →
        Finds nodes rootId inside none nodeId := by
      intro htask
      refine ⟨by simp, fun _ es hes => ?_⟩
      obtain ⟨-, e, -, -, ⟨-, target, htarget, hactive⟩, rfl⟩ := (leads_iff hroot).mp hes
      have hk := htask target htarget
      unfold isActivePathEdge at hactive
      split at hactive
      · cases hactive
      · rw [if_pos hk] at hactive
        cases hactive
    cases hf : memo.lookup nodeId with
    | some found =>
      obtain ⟨l₁, l₂, hl, -⟩ := lookup_eq_some_iff.mp hf
      exact ⟨hm (nodeId, found) (by rw [hl]; simp), hm⟩
    | none =>
      have hvisiting : nodeId ∉ visiting := fun hmem => hacyclic nodeId (hbelow nodeId hmem)
      simp only [if_neg hvisiting]
      cases hnode : byId nodes nodeId with
      | none => exact ⟨hnone fun node h => (by rw [hnode] at h; cases h), hm⟩
      | some node =>
        by_cases hk : node.kind = .task
        · simp only [if_pos hk]
          exact ⟨hnone fun node' h => (by rw [hnode] at h; cases h; exact hk), hm⟩
        simp only [if_neg hk]
        have hmem : ∀ e, e ∈ sortBy (compareParentEdges nodes rootId node)
            ((incoming nodeId).filter fun e => isActivePathEdge nodes rootId e node) ↔
            ActiveEdge nodes rootId inside e ∧ e.targetId = nodeId := by
          intro e
          rw [mem_sortBy, mem_filter, hin]
          constructor
          · rintro ⟨⟨he, rfl⟩, hactive⟩
            exact ⟨⟨he, node, hnode, hactive⟩, rfl⟩
          · rintro ⟨⟨he, target, htarget, hactive⟩, rfl⟩
            rw [hnode] at htarget
            cases htarget
            exact ⟨⟨he, rfl⟩, hactive⟩
        obtain ⟨hpath, hno, hm'⟩ := @firstParentPath_finds nodes rootId inside
          (pathToRoot nodes rootId incoming fuel (nodeId :: visiting)) nodeId hroot
          (sortBy (compareParentEdges nodes rootId node)
            ((incoming nodeId).filter fun e => isActivePathEdge nodes rootId e node)) memo
          (fun e he => (hmem e).mp he)
          (fun e he memo hm => by
            obtain ⟨hactive, rfl⟩ := (hmem e).mp he
            have hjoined : Joined (·.sourceId) (·.targetId) inside e.sourceId e.targetId :=
              ⟨e, hactive.1, rfl, rfl⟩
            refine pathToRoot_finds hin hacyclic fuel (e.targetId :: visiting) e.sourceId memo
              (nodup_cons.mpr ⟨hvisiting, hnodup⟩)
              (forall_mem_cons.mpr ⟨mem_ids_of_byId hnode, hids⟩)
              (forall_mem_cons.mpr ⟨TransGen.single hjoined, fun v hv => (hbelow v hv).head hjoined⟩)
              ?_ hm
            rw [length_cons]
            omega) hm
        have hfinds : Finds nodes rootId inside (firstParentPath
            (pathToRoot nodes rootId incoming fuel (nodeId :: visiting)) nodeId
            (sortBy (compareParentEdges nodes rootId node)
              ((incoming nodeId).filter fun e => isActivePathEdge nodes rootId e node)) memo).1 nodeId := by
          refine ⟨hpath, fun h es hes => ?_⟩
          obtain ⟨es', e, -, hes', hactive⟩ := (leads_iff hroot).mp hes
          exact hno h e ((hmem e).mpr hactive) es' hes'
        exact ⟨hfinds, forall_mem_cons.mpr ⟨hfinds, hm'⟩⟩

/-- **The first open step with a path** is the one that is taken. -/
theorem firstFrontierPath_finds (hin : ∀ id e, e ∈ incoming id ↔ inside e ∧ e.targetId = id)
    (hacyclic : Acyclic (Joined (·.sourceId) (·.targetId) inside)) :
    ∀ (frontier : List DagNode) (memo : PathMemo), Recalls nodes rootId inside memo →
      (∀ p, firstFrontierPath nodes rootId incoming (nodes.length + 1) frontier memo = some p →
        ∃ before n after, frontier = before ++ n :: after ∧
          (∀ m ∈ before, ∀ es, ¬ Leads nodes rootId inside es m.id) ∧
          ∃ es, Leads nodes rootId inside es n.id ∧ p = selection rootId es) ∧
      (firstFrontierPath nodes rootId incoming (nodes.length + 1) frontier memo = none →
        ∀ m ∈ frontier, ∀ es, ¬ Leads nodes rootId inside es m.id)
  | [], _, _ => ⟨by simp [firstFrontierPath], by simp⟩
  | n :: rest, memo, hm => by
    obtain ⟨hfinds, hm'⟩ := pathToRoot_finds hin hacyclic (nodes.length + 1) [] n.id memo nodup_nil
      (by simp) (by simp) (by simp) hm
    unfold firstFrontierPath
    cases hs : pathToRoot nodes rootId incoming (nodes.length + 1) [] n.id memo with
    | mk found memo' =>
      rw [hs] at hfinds hm'
      cases found with
      | none =>
        obtain ⟨hpath, hnone⟩ := firstFrontierPath_finds hin hacyclic rest memo' hm'
        refine ⟨fun p hp => ?_, fun h => forall_mem_cons.mpr ⟨hfinds.none rfl, hnone h⟩⟩
        obtain ⟨before, n', after, hsplit, hbefore, hes⟩ := hpath p hp
        exact ⟨n :: before, n', after, by rw [hsplit, cons_append],
          forall_mem_cons.mpr ⟨hfinds.none rfl, hbefore⟩, hes⟩
      | some p =>
        refine ⟨?_, nofun⟩
        rintro _ ⟨⟩
        exact ⟨[], n, rest, rfl, by simp, hfinds.path p rfl⟩

end Up

/-! ### The search down -/

section Down
variable {nodes : List DagNode} {rootId : String} {inside : DagEdge → Prop} {outgoing : String → List DagEdge}
variable {es : List DagEdge}

instance : Std.TransCmp (compareCompletedPaths nodes) := by unfold compareCompletedPaths; infer_instance

def behind (x : String) (e : DagEdge) (p : DagPathSelection) : DagPathSelection where
  nodeIds := x :: p.nodeIds
  edgeIds := e.id :: p.edgeIds

theorem selection_cons {x : String} {e : DagEdge} :
    selection x (e :: es) = behind x e (selection e.targetId es) := rfl

theorem joinIds_cons (id : String) {ids : List String} (h : ids ≠ []) :
    joinIds (id :: ids) = id ++ "\u0000" ++ joinIds ids :=
  String.intercalate_cons_of_ne_nil h

theorem terminal_behind (x : String) (e : DagEdge) (y : String) (es : List DagEdge) :
    terminal nodes (behind x e (selection y es)) = terminal nodes (selection y es) :=
  congrArg (·.bind (byId nodes)) getLast?_cons_cons

/-- **Paths with the same first edge** compare as what follows it. -/
theorem compare_behind (x : String) (e : DagEdge) {y : String} (es fs : List DagEdge) :
    compareCompletedPaths nodes (behind x e (selection y es)) (behind x e (selection y fs)) =
      compareCompletedPaths nodes (selection y es) (selection y fs) := by
  have hlength : ∀ es : List DagEdge, (behind x e (selection y es)).edgeIds.length = es.length + 1 := by
    simp [behind, selection]
  have hlength' : ∀ es : List DagEdge, (selection y es).edgeIds.length = es.length := by
    simp [selection]
  have hnodes : compare (joinIds (behind x e (selection y es)).nodeIds)
      (joinIds (behind x e (selection y fs)).nodeIds) =
        compare (joinIds (selection y es).nodeIds) (joinIds (selection y fs).nodeIds) := by
    have hjoin : ∀ es : List DagEdge, joinIds (behind x e (selection y es)).nodeIds =
        x ++ "\u0000" ++ joinIds (selection y es).nodeIds := fun es => joinIds_cons x (cons_ne_nil _ _)
    rw [hjoin, hjoin, compare_append]
  unfold compareCompletedPaths compareLex descending ascending compareOn
  simp only [terminal_behind, hlength, hlength', hnodes]
  have hsucc : compare (fs.length + 1) (es.length + 1) = compare fs.length es.length := by
    rw [Nat.compare_eq_ite_lt, Nat.compare_eq_ite_lt]
    simp
  rw [hsucc]
  cases hcompare : compare fs.length es.length with
  | lt => rfl
  | gt => rfl
  | eq =>
    -- the texts of the edges are compared only if there are as many of them
    rw [Std.compare_eq_iff_eq] at hcompare
    have hedges : compare (joinIds (behind x e (selection y es)).edgeIds)
        (joinIds (behind x e (selection y fs)).edgeIds) =
          compare (joinIds (selection y es).edgeIds) (joinIds (selection y fs).edgeIds) := by
      cases es with
      | nil =>
        obtain rfl := length_eq_zero_iff.mp hcompare
        simp
      | cons e' es =>
        cases fs with
        | nil => cases hcompare
        | cons f fs =>
          have hjoin : ∀ (f : DagEdge) (fs : List DagEdge),
              joinIds (behind x e (selection y (f :: fs))).edgeIds =
                e.id ++ "\u0000" ++ joinIds (selection y (f :: fs)).edgeIds :=
            fun f fs => joinIds_cons e.id (cons_ne_nil _ _)
          rw [hjoin, hjoin, compare_append]
    rw [hedges]

/-- **The best of the completed paths** from a node. -/
structure BestFrom (nodes : List DagNode) (inside : DagEdge → Prop) (id : String) (p : DagPathSelection) :
    Prop where
  path : ∃ es, Path (DoneEdge nodes inside .continues) id es ∧ p = selection id es
  best : ∀ es, Path (DoneEdge nodes inside .continues) id es →
    (compareCompletedPaths nodes p (selection id es)).isLE = true

def Remembers (nodes : List DagNode) (inside : DagEdge → Prop) (memo : SuffixMemo) : Prop :=
  ∀ entry ∈ memo, BestFrom nodes inside entry.1 entry.2

theorem bestCompletedPath_best {paths : List DagPathSelection} {p : DagPathSelection}
    (h : bestCompletedPath nodes paths = some p) :
    p ∈ paths ∧ ∀ q ∈ paths, (compareCompletedPaths nodes p q).isLE = true :=
  head?_sortBy (compareCompletedPaths nodes) h

theorem suffixPaths_best {search : String → SuffixMemo → DagPathSelection × SuffixMemo} {first : String} :
    ∀ (edges : List DagEdge) (memo : SuffixMemo),
      (∀ e ∈ edges, ∀ memo, Remembers nodes inside memo →
        BestFrom nodes inside e.targetId (search e.targetId memo).1 ∧
          Remembers nodes inside (search e.targetId memo).2) →
      Remembers nodes inside memo →
      (∀ p ∈ (suffixPaths search first edges memo).1, ∃ e ∈ edges, ∃ s,
        BestFrom nodes inside e.targetId s ∧ p = behind first e s) ∧
      (∀ e ∈ edges, ∃ s, BestFrom nodes inside e.targetId s ∧
        behind first e s ∈ (suffixPaths search first edges memo).1) ∧
      Remembers nodes inside (suffixPaths search first edges memo).2
  | [], memo, _, hm => ⟨by simp [suffixPaths], by simp, hm⟩
  | e :: rest, memo, hsearch, hm => by
    obtain ⟨hbest, hm'⟩ := hsearch e mem_cons_self memo hm
    obtain ⟨hfrom, hto, hm''⟩ := @suffixPaths_best search first rest (search e.targetId memo).2
      (fun e' he' => hsearch e' (mem_cons_of_mem _ he')) hm'
    refine ⟨fun p hp => ?_, fun e' he' => ?_, hm''⟩
    · rcases mem_cons.mp hp with rfl | hp
      · exact ⟨e, mem_cons_self, _, hbest, rfl⟩
      · obtain ⟨e', he', hrest⟩ := hfrom p hp
        exact ⟨e', mem_cons_of_mem _ he', hrest⟩
    · rcases mem_cons.mp he' with rfl | he'
      · exact ⟨_, hbest, mem_cons_self⟩
      · obtain ⟨s, hs, hmem⟩ := hto e' he'
        exact ⟨s, hs, mem_cons_of_mem _ hmem⟩

theorem BestFrom.behind_isLE {e : DagEdge} {s : DagPathSelection} (h : BestFrom nodes inside e.targetId s)
    (x : String) (hes : Path (DoneEdge nodes inside .continues) e.targetId es) :
    (compareCompletedPaths nodes (behind x e s) (selection x (e :: es))).isLE = true := by
  obtain ⟨fs, -, rfl⟩ := h.path
  rw [selection_cons, compare_behind]
  exact h.best es hes

/-- **The best path below a step** is found from the best paths below its successors. By induction on the fuel:
what is being visited is above the step, so that without a cycle no edge to it is left out. -/
theorem bestCompletedSuffix_best (hout : ∀ id e, e ∈ outgoing id ↔ inside e ∧ e.sourceId = id)
    (hacyclic : Acyclic (Joined (·.sourceId) (·.targetId) inside)) :
    ∀ (fuel : ℕ) (visiting : List String) (nodeId : String) (memo : SuffixMemo), visiting.Nodup →
      (∀ v ∈ visiting, v ∈ nodes.map (·.id)) → nodeId ∈ nodes.map (·.id) →
      (∀ v ∈ visiting, TransGen (Joined (·.sourceId) (·.targetId) inside) v nodeId) →
      nodes.length < fuel + visiting.length → Remembers nodes inside memo →
      BestFrom nodes inside nodeId (bestCompletedSuffix nodes outgoing fuel visiting nodeId memo).1 ∧
        Remembers nodes inside (bestCompletedSuffix nodes outgoing fuel visiting nodeId memo).2
  | 0, visiting, _, _, hnodup, hids, _, _, hfuel, _ => by
    have := length_visiting_le hnodup hids
    omega
  | fuel + 1, visiting, nodeId, memo, hnodup, hids, hid, habove, hfuel, hm => by
    unfold bestCompletedSuffix
    cases hf : memo.lookup nodeId with
    | some cached =>
      obtain ⟨l₁, l₂, hl, -⟩ := lookup_eq_some_iff.mp hf
      exact ⟨hm (nodeId, cached) (by rw [hl]; simp), hm⟩
    | none =>
      have hvisiting : nodeId ∉ visiting := fun hmem => hacyclic nodeId (habove nodeId hmem)
      simp only [if_neg hvisiting]
      set next := (outgoing nodeId).filter fun e => decide
        (e.type = .continues ∧ e.targetId ∉ nodeId :: visiting ∧ isDoneChild nodes e.targetId = true)
        with hnext
      have hmem : ∀ e, e ∈ next ↔ DoneEdge nodes inside .continues e ∧ e.sourceId = nodeId := by
        intro e
        rw [hnext, mem_filter, hout, decide_eq_true_eq]
        constructor
        · rintro ⟨⟨he, hs⟩, ht, -, hdone⟩
          exact ⟨⟨he, ht, hdone⟩, hs⟩
        · rintro ⟨⟨he, ht, hdone⟩, rfl⟩
          have hjoined : Joined (·.sourceId) (·.targetId) inside e.sourceId e.targetId := ⟨e, he, rfl, rfl⟩
          refine ⟨⟨he, rfl⟩, ht, fun hback => ?_, hdone⟩
          rcases mem_cons.mp hback with hback | hback
          · exact hacyclic e.sourceId (TransGen.single (hback ▸ hjoined))
          · exact hacyclic e.targetId ((habove _ hback).tail hjoined)
      obtain ⟨hfrom, hto, hm'⟩ := @suffixPaths_best nodes inside
        (bestCompletedSuffix nodes outgoing fuel (nodeId :: visiting)) nodeId next memo
        (fun e he memo hm => by
          obtain ⟨⟨hinside, -, hdone⟩, rfl⟩ := (hmem e).mp he
          have hjoined : Joined (·.sourceId) (·.targetId) inside e.sourceId e.targetId := ⟨e, hinside, rfl, rfl⟩
          refine bestCompletedSuffix_best hout hacyclic fuel (e.sourceId :: visiting) e.targetId memo
            (nodup_cons.mpr ⟨hvisiting, hnodup⟩) (forall_mem_cons.mpr ⟨hid, hids⟩)
            (mem_ids_of_done hdone)
            (forall_mem_cons.mpr ⟨TransGen.single hjoined, fun v hv => (habove v hv).tail hjoined⟩)
            ?_ hm
          rw [length_cons]
          omega) hm
      set paths := suffixPaths (bestCompletedSuffix nodes outgoing fuel (nodeId :: visiting)) nodeId next memo
      have hbest : BestFrom nodes inside nodeId ((bestCompletedPath nodes
          ({ nodeIds := [nodeId], edgeIds := [] } :: paths.1)).getD { nodeIds := [nodeId], edgeIds := [] }) := by
        cases hb : bestCompletedPath nodes ({ nodeIds := [nodeId], edgeIds := [] } :: paths.1) with
        | none =>
          unfold bestCompletedPath at hb
          rw [head?_eq_none_iff, sortBy_eq_nil] at hb
          cases hb
        | some p =>
          obtain ⟨hp, hle⟩ := bestCompletedPath_best hb
          refine ⟨?_, fun es hes => ?_⟩
          · rcases mem_cons.mp hp with rfl | hp
            · exact ⟨[], trivial, rfl⟩
            · obtain ⟨e, he, s, hs, rfl⟩ := hfrom p hp
              obtain ⟨hdone, hsource⟩ := (hmem e).mp he
              obtain ⟨es, hes, rfl⟩ := hs.path
              exact ⟨e :: es, ⟨hdone, hsource, hes⟩, rfl⟩
          · cases es with
            | nil => exact hle _ mem_cons_self
            | cons e es =>
              obtain ⟨hdone, hsource, hes⟩ := hes
              obtain ⟨s, hs, hin⟩ := hto e ((hmem e).mpr ⟨hdone, hsource⟩)
              exact Std.TransCmp.isLE_trans (hle _ (mem_cons_of_mem _ hin)) (hs.behind_isLE nodeId hes)
      exact ⟨hbest, forall_mem_cons.mpr ⟨hbest, hm'⟩⟩

theorem completedPathFromRoot_best (hout : ∀ id e, e ∈ outgoing id ↔ inside e ∧ e.sourceId = id)
    (hacyclic : Acyclic (Joined (·.sourceId) (·.targetId) inside)) :
    (∀ p, completedPathFromRoot nodes rootId outgoing (nodes.length + 1) = some p →
      (∃ es, Completed nodes rootId inside es ∧ p = selection rootId es) ∧
      ∀ es, Completed nodes rootId inside es →
        (compareCompletedPaths nodes p (selection rootId es)).isLE = true) ∧
    (completedPathFromRoot nodes rootId outgoing (nodes.length + 1) = none →
      ∀ es, ¬ Completed nodes rootId inside es) := by
  set next := (outgoing rootId).filter fun e => decide
    (e.type = .decomposes ∧ isDoneChild nodes e.targetId = true) with hnext
  have hmem : ∀ e, e ∈ next ↔ DoneEdge nodes inside .decomposes e ∧ e.sourceId = rootId := by
    intro e
    rw [hnext, mem_filter, hout, decide_eq_true_eq]
    exact ⟨fun ⟨⟨he, hs⟩, ht, hdone⟩ => ⟨⟨he, ht, hdone⟩, hs⟩, fun ⟨⟨he, ht, hdone⟩, hs⟩ => ⟨⟨he, hs⟩, ht, hdone⟩⟩
  obtain ⟨hfrom, hto, -⟩ := @suffixPaths_best nodes inside
    (bestCompletedSuffix nodes outgoing (nodes.length + 1) []) rootId next []
    (fun e he memo hm => bestCompletedSuffix_best hout hacyclic (nodes.length + 1) [] e.targetId memo
      nodup_nil (by simp) (mem_ids_of_done ((hmem e).mp he).1.2.2) (by simp) (by simp) hm) (by simp [Remembers])
  have heq : completedPathFromRoot nodes rootId outgoing (nodes.length + 1) = bestCompletedPath nodes
      (suffixPaths (bestCompletedSuffix nodes outgoing (nodes.length + 1) []) rootId next []).1 := rfl
  rw [heq]
  constructor
  · intro p hp
    obtain ⟨hp, hle⟩ := bestCompletedPath_best hp
    constructor
    · obtain ⟨e, he, s, hs, rfl⟩ := hfrom p hp
      obtain ⟨es, hes, rfl⟩ := hs.path
      obtain ⟨hdone, hsource⟩ := (hmem e).mp he
      exact ⟨e :: es, ⟨hdone, hsource, hes⟩, rfl⟩
    · intro es hes
      cases es with
      | nil => exact hes.elim
      | cons e es =>
        obtain ⟨hdone, hsource, hes⟩ := hes
        obtain ⟨s, hs, hin⟩ := hto e ((hmem e).mpr ⟨hdone, hsource⟩)
        exact Std.TransCmp.isLE_trans (hle _ hin) (hs.behind_isLE rootId hes)
  · intro hnone es hes
    cases es with
    | nil => exact hes
    | cons e es =>
      obtain ⟨s, -, hin⟩ := hto e ((hmem e).mpr ⟨hes.1, hes.2.1⟩)
      unfold bestCompletedPath at hnone
      rw [head?_eq_none_iff, sortBy_eq_nil] at hnone
      rw [hnone] at hin
      cases hin

end Down

/-! ### What the active path is -/

section Active
variable {nodes : List DagNode} {edges : List DagEdge} {rootId : String} {root : DagNode} {es : List DagEdge}
variable {inside : DagEdge → Prop}

/-- An open step below the root, and not below a side branch, to which an admissible path leads. -/
def OpenEnd (nodes : List DagNode) (edges : List DagEdge) (rootId : String) (n : DagNode) : Prop :=
  n ∈ nodes ∧ n.kind ≠ .task ∧ n.status.isOpen = true ∧ InSubgraph nodes edges rootId n.id ∧
    ∃ es, Leads nodes rootId (· ∈ edges) es n.id

instance : Std.TransCmp compareFrontier := by unfold compareFrontier; infer_instance

/-- **What the active path is.** -/
structure IsActivePath (nodes : List DagNode) (edges : List DagEdge) (root : DagNode) (p : DagPathSelection) :
    Prop where
  /-- The edges join the nodes, from the root on. -/
  joined : ∃ es, Path (· ∈ edges) root.id es ∧ p = selection root.id es
  nodup : p.nodeIds.Nodup
  noOtherTask : ∀ n ∈ nodes, n.id ∈ p.nodeIds → n.kind = .task → n = root
  noSideBranch : ∀ id ∈ p.nodeIds, ¬ BelowSideBranch nodes edges id
  /-- It ends at the first of the open steps, over admissible edges. -/
  frontier : (∃ n, OpenEnd nodes edges root.id n) → ∃ n, OpenEnd nodes edges root.id n ∧
    (∀ m, OpenEnd nodes edges root.id m → (compareFrontier n m).isLE = true) ∧
    ∃ es, Leads nodes root.id (· ∈ edges) es n.id ∧ p = selection root.id es
  /-- Without one it is the best completed path, or the root if there is none. -/
  completed : (¬ ∃ n, OpenEnd nodes edges root.id n) → root.status ≠ .failed → root.status ≠ .frozen →
    ((∃ es, Completed nodes root.id (InsideEdge nodes edges root.id) es ∧ p = selection root.id es) ∧
      ∀ es, Completed nodes root.id (InsideEdge nodes edges root.id) es →
        (compareCompletedPaths nodes p (selection root.id es)).isLE = true) ∨
    ((∀ es, ¬ Completed nodes root.id (InsideEdge nodes edges root.id) es) ∧ p = selection root.id [])

theorem mem_subgraphIds {id : String} :
    id ∈ (taskSubgraphNodeIds rootId nodes edges).filter
      (fun id => decide (id ∉ sideBranchSuccessorNodeIds nodes edges)) ↔ InSubgraph nodes edges rootId id := by
  rw [mem_filter, decide_eq_true_eq]
  unfold InSubgraph taskSubgraphNodeIds sideBranchSuccessorNodeIds BelowSideBranch
  rw [mem_reach_iff, mem_reach_iff]
  simp only [mem_singleton, exists_eq_left, mem_map, mem_filter, decide_eq_true_eq]
  refine and_congr_right fun _ => not_congr ⟨?_, ?_⟩
  · rintro ⟨_, ⟨e, ⟨he, hside⟩, rfl⟩, hreach⟩
    exact ⟨e, he, hside, hreach⟩
  · rintro ⟨e, he, hside, hreach⟩
    exact ⟨_, ⟨e, ⟨he, hside⟩, rfl⟩, hreach⟩

theorem isStep_of_active {e : DagEdge} (h : ActiveEdge nodes rootId inside e) :
    isStep nodes e.targetId = true := by
  obtain ⟨-, target, htarget, hactive⟩ := h
  refine isStep_of_byId htarget fun hk => ?_
  unfold isActivePathEdge at hactive
  split at hactive
  · cases hactive
  · rw [if_pos hk] at hactive
    cases hactive

theorem not_below_of_step {x y : String} (hstep : ToStep nodes edges x y) (h : ¬ BelowSideBranch nodes edges y) :
    ¬ BelowSideBranch nodes edges x :=
  fun ⟨e, he, hside, hreach⟩ => h ⟨e, he, hside, hreach.tail hstep⟩

/-- **An admissible path** to a node of the subgraph stays in it. -/
theorem leads_inside {id : String} (hid : ¬ BelowSideBranch nodes edges id) :
    Leads nodes rootId (InsideEdge nodes edges rootId) es id ↔ Leads nodes rootId (· ∈ edges) es id := by
  constructor
  · rintro ⟨hpath, hstop⟩
    exact ⟨hpath.mono fun e he => ⟨he.1.1, he.2⟩, hstop⟩
  · induction es using List.reverseRecOn generalizing id with
    | nil => exact fun ⟨_, hstop⟩ => ⟨trivial, hstop⟩
    | append_singleton es e ih =>
      rintro ⟨hpath, rfl⟩
      obtain ⟨hpath, he, hsource⟩ := isPath_concat.mp hpath
      rw [stop_concat] at hid ⊢
      have hstep : ToStep nodes edges e.sourceId e.targetId := ⟨e, he.1, rfl, rfl, isStep_of_active he⟩
      have hbelow := not_below_of_step hstep hid
      obtain ⟨hinside, -⟩ := ih hbelow ⟨hpath, hsource.symm⟩
      have hreach : ReflTransGen (ToStep nodes edges) rootId e.sourceId := by
        rw [hsource]
        refine ReflTransGen.mono ?_ _ _ (mem_vertices hpath (mem_of_getLast? getLast?_vertices))
        rintro x y ⟨e', he', rfl, rfl⟩
        exact ⟨e', he'.1, rfl, rfl, isStep_of_active he'⟩
      exact ⟨isPath_concat.mpr ⟨hinside, ⟨⟨he.1, ⟨hreach, hbelow⟩, ⟨hreach.tail hstep, hid⟩⟩, he.2⟩, hsource⟩,
        stop_concat⟩

theorem byId_of_mem (hids : (nodes.map (·.id)).Nodup) {n : DagNode} (hn : n ∈ nodes) :
    byId nodes n.id = some n := by
  unfold byId
  cases hf : nodes.find? fun m => decide (m.id = n.id) with
  | none => exact absurd (decide_eq_true rfl) (find?_eq_none.mp hf n hn)
  | some m =>
    have hid := find?_some hf
    rw [decide_eq_true_eq] at hid
    rw [inj_on_of_nodup_map hids (mem_of_find?_eq_some hf) hn hid]

theorem not_below_root (hids : (nodes.map (·.id)).Nodup) (hroot : selectRootTask nodes = some root) :
    ¬ BelowSideBranch nodes edges root.id := by
  obtain ⟨hmem, hk, -⟩ := selectRootTask_cases hroot
  have hbyId := byId_of_mem hids hmem
  rintro ⟨e, -, ⟨-, hside⟩, hreach⟩
  rcases ReflTransGen.cases_tail hreach with heq | ⟨y, -, -, -, -, -, hstep⟩
  · rw [← heq, hbyId] at hside
    exact hside (congrArg some hk)
  · unfold isStep at hstep
    rw [hbyId] at hstep
    exact absurd hk (of_decide_eq_true hstep)

/-- **A path of the subgraph** visits nothing twice, no other task, and nothing below a side branch. -/
theorem shape_of_path (hids : (nodes.map (·.id)).Nodup) (hroot : selectRootTask nodes = some root)
    (hacyclic : Acyclic (Joined (·.sourceId) (·.targetId) (· ∈ edges)))
    (hes : Path (InsideEdge nodes edges root.id) root.id es) :
    Path (· ∈ edges) root.id es ∧ (selection root.id es).nodeIds.Nodup ∧
      (∀ n ∈ nodes, n.id ∈ (selection root.id es).nodeIds → n.kind = .task → n = root) ∧
      ∀ id ∈ (selection root.id es).nodeIds, ¬ BelowSideBranch nodes edges id := by
  have hpath : Path (· ∈ edges) root.id es := hes.mono fun e he => he.1
  have hinside : ∀ id ∈ es.map (·.targetId), InSubgraph nodes edges root.id id := by
    intro id hid
    obtain ⟨e, he, rfl⟩ := mem_map.mp hid
    exact (hes.forall_mem e he).2.2
  refine ⟨hpath, nodup_vertices hacyclic hpath, fun n hn hid hk => ?_,
    forall_mem_cons.mpr ⟨not_below_root hids hroot, fun id hid => (hinside id hid).2⟩⟩
  have hroot' := (selectRootTask_cases hroot).1
  rcases mem_cons.mp hid with hid | hid
  · exact inj_on_of_nodup_map hids hn hroot' hid
  · rcases ReflTransGen.cases_tail (hinside n.id hid).1 with heq | ⟨y, -, -, -, -, -, hstep⟩
    · exact inj_on_of_nodup_map hids hn hroot' heq
    · unfold isStep at hstep
      rw [byId_of_mem hids hn] at hstep
      exact absurd hk (of_decide_eq_true hstep)

theorem completed_path (h : Completed nodes rootId inside es) : Path inside rootId es := by
  cases es with
  | nil => exact h.elim
  | cons e es => exact ⟨h.1.1, h.2.1, h.2.2.mono fun e he => he.1⟩

/-- **What the two searches find**, over the edges of the subgraph and its open steps in their order. -/
theorem isActivePath_of_searches (hids : (nodes.map (·.id)).Nodup) (hroot : selectRootTask nodes = some root)
    (hacyclic : Acyclic (Joined (·.sourceId) (·.targetId) (· ∈ edges))) {inside : List DagEdge}
    {frontier : List DagNode} (hedge : ∀ e, e ∈ inside ↔ InsideEdge nodes edges root.id e)
    (hsorted : frontier.Pairwise fun a b => (compareFrontier a b).isLE = true)
    (hfrontier : ∀ n, n ∈ frontier ↔
      n ∈ nodes ∧ n.kind ≠ .task ∧ n.status.isOpen = true ∧ InSubgraph nodes edges root.id n.id) :
    IsActivePath nodes edges root
      (match firstFrontierPath nodes root.id (fun id => inside.filter fun e => e.targetId = id)
        (nodes.length + 1) frontier [] with
      | some found => found
      | none =>
        if root.status = .failed ∨ root.status = .frozen then { nodeIds := [root.id], edgeIds := [] }
        else (completedPathFromRoot nodes root.id (fun id => inside.filter fun e => e.sourceId = id)
          (nodes.length + 1)).getD { nodeIds := [root.id], edgeIds := [] }) := by
  have hin : ∀ id e, e ∈ inside.filter (fun e => decide (e.targetId = id)) ↔
      InsideEdge nodes edges root.id e ∧ e.targetId = id := by
    intro id e
    rw [mem_filter, decide_eq_true_eq, hedge]
  have hout : ∀ id e, e ∈ inside.filter (fun e => decide (e.sourceId = id)) ↔
      InsideEdge nodes edges root.id e ∧ e.sourceId = id := by
    intro id e
    rw [mem_filter, decide_eq_true_eq, hedge]
  have hacyclic' : Acyclic (Joined (·.sourceId) (·.targetId) (InsideEdge nodes edges root.id)) :=
    hacyclic.mono fun _ _ ⟨e, he, hjoin⟩ => ⟨e, he.1, hjoin⟩
  have hopen : ∀ n, OpenEnd nodes edges root.id n ↔
      n ∈ frontier ∧ ∃ es, Leads nodes root.id (InsideEdge nodes edges root.id) es n.id := by
    intro n
    rw [hfrontier]
    constructor
    · rintro ⟨hn, hk, ho, hsub, es, hes⟩
      exact ⟨⟨hn, hk, ho, hsub⟩, es, (leads_inside hsub.2).mpr hes⟩
    · rintro ⟨⟨hn, hk, ho, hsub⟩, es, hes⟩
      exact ⟨hn, hk, ho, hsub, es, (leads_inside hsub.2).mp hes⟩
  -- all that is said of every path of the subgraph
  have hmade : ∀ es p, Path (InsideEdge nodes edges root.id) root.id es → p = selection root.id es →
      ((∃ n, OpenEnd nodes edges root.id n) → ∃ n, OpenEnd nodes edges root.id n ∧
        (∀ m, OpenEnd nodes edges root.id m → (compareFrontier n m).isLE = true) ∧
        ∃ es, Leads nodes root.id (· ∈ edges) es n.id ∧ p = selection root.id es) →
      ((¬ ∃ n, OpenEnd nodes edges root.id n) → root.status ≠ .failed → root.status ≠ .frozen →
        ((∃ es, Completed nodes root.id (InsideEdge nodes edges root.id) es ∧ p = selection root.id es) ∧
          ∀ es, Completed nodes root.id (InsideEdge nodes edges root.id) es →
            (compareCompletedPaths nodes p (selection root.id es)).isLE = true) ∨
        ((∀ es, ¬ Completed nodes root.id (InsideEdge nodes edges root.id) es) ∧ p = selection root.id [])) →
      IsActivePath nodes edges root p := by
    rintro es _ hes rfl hopenEnd hcompleted
    obtain ⟨hpath, hnodup, htask, hside⟩ := shape_of_path hids hroot hacyclic hes
    exact ⟨⟨es, hpath, rfl⟩, hnodup, htask, hside, hopenEnd, hcompleted⟩
  obtain ⟨hfound, hnone⟩ := firstFrontierPath_finds hin hacyclic' frontier [] (by simp [Recalls])
  split
  · next p hp =>
    obtain ⟨before, n, after, hsplit, hbefore, es, hes, rfl⟩ := hfound p hp
    have hn : OpenEnd nodes edges root.id n := (hopen n).mpr ⟨by rw [hsplit]; simp, es, hes⟩
    refine hmade es _ (hes.1.mono fun e he => he.1) rfl (fun _ => ⟨n, hn, fun m hm => ?_, es, ?_, rfl⟩)
      fun hno => absurd ⟨n, hn⟩ hno
    · obtain ⟨hmem, es', hes'⟩ := (hopen m).mp hm
      rw [hsplit, pairwise_append, pairwise_cons] at hsorted
      rw [hsplit] at hmem
      rcases mem_append.mp hmem with hmem | hmem
      · exact absurd hes' (hbefore m hmem es')
      · rcases mem_cons.mp hmem with rfl | hmem
        · have hself : compareFrontier m m = .eq := Std.ReflCmp.compare_self
          rw [hself]
          rfl
        · exact hsorted.2.1.1 m hmem
    · exact (leads_inside hn.2.2.2.1.2).mp hes
  · next hp =>
    have hno : ¬ ∃ n, OpenEnd nodes edges root.id n := by
      rintro ⟨n, hn⟩
      obtain ⟨hmem, es, hes⟩ := (hopen n).mp hn
      exact hnone hp n hmem es hes
    split_ifs with hstatus
    · exact hmade [] _ trivial rfl (fun hopen' => absurd hopen' hno) fun _ hfailed hfrozen =>
        absurd hstatus (not_or.mpr ⟨hfailed, hfrozen⟩)
    · obtain ⟨hbest, hnone'⟩ := @completedPathFromRoot_best nodes root.id _ _ hout hacyclic'
      cases hc : completedPathFromRoot nodes root.id (fun id => inside.filter fun e => decide (e.sourceId = id))
          (nodes.length + 1) with
      | none =>
        exact hmade [] _ trivial rfl (fun hopen' => absurd hopen' hno) fun _ _ _ => Or.inr ⟨hnone' hc, rfl⟩
      | some p =>
        obtain ⟨⟨es, hes, rfl⟩, hle⟩ := hbest p hc
        exact hmade es _ (completed_path hes) rfl (fun hopen' => absurd hopen' hno)
          fun _ _ _ => Or.inl ⟨⟨es, hes, rfl⟩, hle⟩

end Active

/-! ### A step of the root behind a side branch -/

section Sample

def sampleNode (id : String) (kind : DagNodeKind) (status : DagNodeStatus) : DagNode where
  id := id
  sessionKey := "s"
  kind := kind
  status := status
  title := id
  summary := id
  detailJson := []
  importance := 50
  createdTurnId := none
  updatedTurnId := none
  firstMessageIndex := 0
  lastMessageIndex := 1
  sourceRefs := []
  createdBy := .llmPatch
  updatedBy := .llmPatch
  createdAt := 1
  updatedAt := 1
  goalId := none

def sampleEdge (sourceId targetId : String) (type : DagEdgeType) : DagEdge where
  id := sourceId ++ targetId
  sourceId := sourceId
  targetId := targetId
  type := type
  createdTurnId := none
  createdBy := .llmPatch
  createdAt := 1

/-- A closed task, the open one, and a step of it. -/
def twoTasks : List DagNode :=
  [sampleNode "t1" .task .done, sampleNode "t2" .task .active, sampleNode "x" .subtask .active]

/-- The side branch of the closed task leads to the open one. -/
def joinedTasks : List DagEdge := [sampleEdge "t1" "t2" .sideBranch, sampleEdge "t2" "x" .decomposes]

theorem acyclic_joinedTasks : Acyclic (Joined (·.sourceId) (·.targetId) (· ∈ joinedTasks)) := by
  refine acyclic_of_lt (fun id => if id = "t1" then 0 else if id = "t2" then 1 else 2) ?_
  rintro _ _ ⟨e, he, rfl, rfl⟩
  have hall : ∀ e ∈ joinedTasks, (if e.sourceId = "t1" then 0 else if e.sourceId = "t2" then 1 else 2) <
      if e.targetId = "t1" then 0 else if e.targetId = "t2" then 1 else 2 := by decide
  exact hall e he

end Sample

end Memmy.SessionDag.ActivePath
