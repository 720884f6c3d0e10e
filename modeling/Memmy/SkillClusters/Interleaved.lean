import Memmy.SkillClusters.Sound

/-! # Skill clusters: when the jobs may interleave

* `Heeded`: an assignment whose vector is counted once, and a job that writes a row back as it has read it.
* `inv_assign`, `inv_update`: the two ways in which the rows change.
* `inv_step`: what a step under the condition keeps. -/

namespace Memmy.SkillClusters

open Lib.Mean List World

variable {config : Clustering} {w : World} {c r : SkillClusterRecord} {id clusterId episodeId job : String}
  {f : EpisodeSkillFeatures} {v : Vec} {now : ℕ}

/-! ### Conditions -/

/-- The row is as it was read, but for the meta skill. -/
def Unchanged (w : World) (read : SkillClusterRecord) : Prop :=
  ∃ c, w.getSkillCluster read.id = some c ∧
    { c with
      metaSkillMd := read.metaSkillMd
      updatedAt := read.updatedAt } = read

/-- The vector of an episode that comes to a cluster is counted once: there is none, or it is the first one,
or it is the centroid and was not another one before, or the episode is new and all members have vectors. -/
def CountsOnce (w : World) (c : SkillClusterRecord) (episodeId : String) (queryVec : Option Vec) : Prop :=
  ∀ v, present queryVec = some v → present c.centroid = none ∨
    (present c.centroid = some v ∧ (w.queryVector episodeId = none ∨ w.queryVector episodeId = some v)) ∨
    (w.getSkillClusterForEpisode episodeId = none ∧ (∀ x ∈ w.memberEpisodes c.id, (w.queryVector x).isSome) ∧
      ∃ u, present c.centroid = some u ∧ v.length = u.length)

/-- **The condition on a step.** -/
def Heeded (config : Clustering) (w : World) : Event → Prop
  | .finishAssign job queryVec _ _ => ∀ episode turns, w.job job = some (.assigning episode turns) →
      ∀ c, w.clusterFor config episode (extractEpisodeSkillFeatures episode.id episode.userId episode.projectId
        turns queryVec) = some c → CountsOnce w c episode.id queryVec
  | .finishGenerate job generated => ∀ e, w.job job = some (.generating e) →
      (config.usesLlm = true ∧ ∃ reason, generated = .failed reason) ∨ Unchanged w e.cluster
  | .finishMeta job _ _ => ∀ c onError, w.job job = some (.updatingMeta c onError) → Unchanged w c
  | .failMeta job _ _ => ∀ c onError, w.job job = some (.updatingMeta c (some onError)) →
      config.usesLlm = true ∨ Unchanged w onError
  | _ => True

/-! ### Rows that are written back -/

/-- The columns that say something of the members. -/
structure Agrees (c r : SkillClusterRecord) : Prop where
  id : c.id = r.id
  userId : c.userId = r.userId
  tools : c.tools = r.tools
  artifacts : c.artifacts = r.artifacts
  centroid : c.centroid = r.centroid
  memberCount : c.memberCount = r.memberCount

theorem mem_update {c' : SkillClusterRecord} : c' ∈ (w.updateSkillCluster r).clusters ↔
    ∃ c ∈ w.clusters, (if c.id = r.id then { r with userId := c.userId } else c) = c' := mem_map

theorem update_ids : (w.updateSkillCluster r).clusters.map (·.id) = w.clusters.map (·.id) := by
  unfold updateSkillCluster
  rw [map_map]
  refine map_congr_left fun c hc => ?_
  simp only [Function.comp_apply]
  split_ifs with h
  · exact h.symm
  · rfl

/-- **A row that is written back** keeps what it says of its members. -/
theorem inv_update (h : Inv w) (hc : c ∈ w.clusters) (hagrees : Agrees c r)
    (hprocessed : ∀ x ∈ r.processedEpisodeIds, Trimmed x) : Inv (w.updateSkillCluster r) := by
  have hrow : ∀ c' ∈ (w.updateSkillCluster r).clusters, ∃ d ∈ w.clusters, Agrees d c' ∧
      (c' = d ∨ c'.processedEpisodeIds = r.processedEpisodeIds) := by
    intro c' hc'
    obtain ⟨d, hd, rfl⟩ := mem_update.mp hc'
    by_cases hid : d.id = r.id
    · rw [if_pos hid]
      obtain rfl := eq_of_id h.ids hd hc (hid.trans hagrees.id.symm)
      exact ⟨d, hd, ⟨hid, rfl, hagrees.tools, hagrees.artifacts, hagrees.centroid, hagrees.memberCount⟩,
        Or.inr rfl⟩
    · rw [if_neg hid]
      exact ⟨d, hd, ⟨rfl, rfl, rfl, rfl, rfl, rfl⟩, Or.inl rfl⟩
  refine
    { one := h.one
      count := fun c' hc' => ?_
      covers := fun c' hc' => ?_
      mean := fun c' hc' => ?_
      ids := update_ids.symm ▸ h.ids
      home := fun m hm => ?_
      logged := h.logged
      tools := fun c' hc' => ?_
      artifacts := fun c' hc' => ?_
      processed := fun c' hc' => ?_
      reads := h.reads }
  · obtain ⟨d, hd, hagrees, -⟩ := hrow c' hc'
    rw [← hagrees.memberCount, ← hagrees.id]
    exact h.count d hd
  · obtain ⟨d, hd, hagrees, -⟩ := hrow c' hc'
    rw [← hagrees.tools, ← hagrees.artifacts, ← hagrees.id]
    exact h.covers d hd
  · obtain ⟨d, hd, hagrees, -⟩ := hrow c' hc'
    rw [← hagrees.centroid, ← hagrees.id]
    exact h.mean d hd
  · obtain ⟨d, hd, hid⟩ := h.home m hm
    have hmem : d.id ∈ (w.updateSkillCluster r).clusters.map (·.id) := update_ids.symm ▸ mem_map_of_mem hd
    obtain ⟨c', hc', he⟩ := mem_map.mp hmem
    exact ⟨c', hc', he.trans hid⟩
  · obtain ⟨d, hd, hagrees, -⟩ := hrow c' hc'
    rw [← hagrees.tools]
    exact h.tools d hd
  · obtain ⟨d, hd, hagrees, -⟩ := hrow c' hc'
    rw [← hagrees.artifacts]
    exact h.artifacts d hd
  · obtain ⟨d, hd, -, rfl | he⟩ := hrow c' hc'
    · exact h.processed _ hd
    · rw [he]
      exact hprocessed

/-- What a world without a change to its tables keeps. -/
theorem inv_jobs (h : Inv w) {jobs : List (String × Job)} {episodes : List EpisodeRecord}
    (hreads : ∀ j ∈ jobs, ∀ e, j.2 = .generating e → ∀ s, e.existingSkill = some s →
      e.cluster.skillMemoryId = some s) :
    Inv { w with
      jobs := jobs
      episodes := episodes } where
  one := h.one
  count := h.count
  covers := h.covers
  mean := h.mean
  ids := h.ids
  home := h.home
  logged := h.logged
  tools := h.tools
  artifacts := h.artifacts
  processed := h.processed
  reads := hreads

theorem inv_endJob (h : Inv w) (job : String) : Inv (w.endJob job) :=
  inv_jobs h fun j hj => h.reads j (mem_filter.mp hj).1

theorem inv_await (h : Inv w) (job : String) {state : Job} (hstate : ∀ e, state = .generating e → ∀ s,
    e.existingSkill = some s → e.cluster.skillMemoryId = some s) : Inv (w.await job state) := by
  refine inv_jobs h fun j hj => ?_
  rcases mem_append.mp hj with hj | hj
  · exact h.reads j (mem_filter.mp hj).1
  · rw [mem_singleton.mp hj]
    exact hstate

/-! ### Rows of a job -/

/-- A row that a job holds and may write back: the stored one agrees with it. -/
def Held (w : World) (r : SkillClusterRecord) : Prop :=
  (∃ c ∈ w.clusters, Agrees c r) ∧ ∀ x ∈ r.processedEpisodeIds, Trimmed x

theorem held_of_mem (h : Inv w) (hc : c ∈ w.clusters) : Held w c :=
  ⟨⟨c, hc, rfl, rfl, rfl, rfl, rfl, rfl⟩, h.processed c hc⟩

theorem held_of_unchanged (h : Inv w) (hr : Unchanged w r) : Held w r := by
  obtain ⟨c, hget, he⟩ := hr
  rw [← he]
  obtain ⟨hmem, -⟩ := getSkillCluster_mem hget
  exact ⟨⟨c, hmem, rfl, rfl, rfl, rfl, rfl, rfl⟩, h.processed c hmem⟩

theorem held_markProcessed (h : Held w r) (top6 : List String) (now : ℕ) : Held w (markProcessed r top6 now) := by
  obtain ⟨⟨c, hc, hagrees⟩, -⟩ := h
  refine ⟨⟨c, hc, hagrees.id, hagrees.userId, hagrees.tools, hagrees.artifacts, hagrees.centroid,
    hagrees.memberCount⟩, fun x hx => trimmed_of_mem hx⟩

/-- After the write the job still holds what is stored. -/
theorem held_update {r' : SkillClusterRecord} (h : Held w r) (h' : Held w r') (hagrees : Agrees r r') :
    Held (w.updateSkillCluster r) r' := by
  obtain ⟨⟨c, hc, hcr⟩, -⟩ := h
  refine ⟨⟨{ r with userId := c.userId }, mem_update.mpr ⟨c, hc, if_pos hcr.id⟩, ?_⟩, h'.2⟩
  exact ⟨hagrees.id, hcr.userId.trans hagrees.userId, hagrees.tools, hagrees.artifacts, hagrees.centroid,
    hagrees.memberCount⟩

theorem inv_write (h : Inv w) (hr : Held w r) : Inv (w.updateSkillCluster r) := by
  obtain ⟨⟨c, hc, hagrees⟩, hprocessed⟩ := hr
  exact inv_update h hc hagrees hprocessed

theorem inv_writeMeta (h : Inv w) (hr : Held w r) (metaSkillMd : String) (now : ℕ) :
    Inv (w.writeMetaSkill r metaSkillMd now) := by
  obtain ⟨⟨c, hc, hagrees⟩, hprocessed⟩ := hr
  exact inv_update h hc ⟨hagrees.id, hagrees.userId, hagrees.tools, hagrees.artifacts, hagrees.centroid,
    hagrees.memberCount⟩ hprocessed

theorem inv_updateMeta (h : Inv w) (hr : config.usesLlm = true ∨ Held w r) (job : String)
    (onError : Option SkillClusterRecord) (reason : Option String) (now : ℕ) :
    Inv (w.updateMetaSkill config job r onError reason now) := by
  unfold updateMetaSkill
  by_cases hllm : config.usesLlm = true
  · rw [if_pos hllm]
    exact inv_await h job nofun
  · rw [if_neg hllm]
    exact inv_writeMeta (inv_endJob h job) (hr.resolve_left hllm) _ now

/-! ### Assignments -/

section Assign
variable {member : SkillClusterMemberRecord} {w' : World} {q : Option Vec} {episode : EpisodeRecord}
variable {already : Bool}

theorem upsert_of_mem (h : member.episodeId ∈ w.memberEpisodes member.clusterId) :
    (w.upsertSkillClusterMember member).members.map (fun m => (m.clusterId, m.episodeId)) =
      w.members.map fun m => (m.clusterId, m.episodeId) := by
  obtain ⟨m, hm, hcluster, hepisode⟩ := mem_memberEpisodes.mp h
  unfold upsertSkillClusterMember
  rw [if_pos (any_eq_true.mpr ⟨m, hm, by simp [hcluster, hepisode]⟩), map_map]
  refine map_congr_left fun d hd => ?_
  simp only [Function.comp_apply, Bool.and_eq_true, decide_eq_true_eq]
  split_ifs with hsame
  · rw [hsame.1, hsame.2]
  · rfl

theorem upsert_of_not_mem (h : member.episodeId ∉ w.members.map (·.episodeId)) :
    (w.upsertSkillClusterMember member).members = w.members ++ [member] := by
  unfold upsertSkillClusterMember
  rw [if_neg]
  rw [any_eq_true]
  rintro ⟨m, hm, hsame⟩
  simp only [Bool.and_eq_true, decide_eq_true_eq] at hsame
  exact h (hsame.2 ▸ mem_map_of_mem hm)

theorem memberEpisodes_eq (w : World) (clusterId : String) : w.memberEpisodes clusterId =
    ((w.members.map fun m => (m.clusterId, m.episodeId)).filter (·.1 = clusterId)).map (·.2) := by
  rw [filter_map, map_map]
  rfl

theorem episodes_eq (w : World) : w.members.map (·.episodeId) =
    (w.members.map fun m => (m.clusterId, m.episodeId)).map (·.2) := by
  rw [map_map]
  rfl

theorem queryVector_cons (hlog : w'.assigned = f :: w.assigned) (x : String) : w'.queryVector x =
    if f.episodeId = x then (present f.queryVec).or (w.queryVector x) else w.queryVector x := by
  unfold queryVector
  rw [hlog, findSome?_cons]
  by_cases hx : f.episodeId = x
  · rw [if_pos hx, if_pos hx]
    cases present f.queryVec <;> rfl
  · rw [if_neg hx, if_neg hx]

theorem mean_assign (hlog : w'.assigned = f :: w.assigned) (hnodup : (w'.memberEpisodes clusterId).Nodup)
    (hmem : f.episodeId ∈ w'.memberEpisodes clusterId) {centroid : Option Vec} {n : ℕ}
    (hold : (w'.memberEpisodes clusterId).filterMap w.queryVector = w.memberVectors clusterId)
    (hmean : MeanOf centroid (w.memberVectors clusterId))
    (hcount : ∀ v, present f.queryVec = some v → (w.queryVector f.episodeId = none ∧
        (present centroid = none ∨ present centroid = some v ∨
          (w.memberVectors clusterId).length = n ∧ ∃ u, present centroid = some u ∧ v.length = u.length)) ∨
      (w.queryVector f.episodeId = some v ∧ present centroid = some v)) :
    MeanOf (mergeCentroid centroid f.queryVec n) (w'.memberVectors clusterId) := by
  have hsame : ∀ y, y ≠ f.episodeId → w'.queryVector y = w.queryVector y := fun y hy => by
    rw [queryVector_cons hlog, if_neg (Ne.symm hy)]
  cases hv : present f.queryVec with
  | none =>
    have hall : w'.memberVectors clusterId = w.memberVectors clusterId := by
      rw [← hold]
      refine filterMap_congr fun y _ => ?_
      rw [queryVector_cons hlog, hv]
      exact ite_self _
    rw [mergeCentroid_none hv, hall]
    exact hmean
  | some v =>
    rcases hcount v hv with ⟨hnone, hcount⟩ | ⟨hsome, hself⟩
    · have hself : w'.queryVector f.episodeId = some v := by
        rw [queryVector_cons hlog, if_pos rfl, hv]
        rfl
      have hperm := filterMap_update hnodup hmem hnone hself hsame
      rw [hold] at hperm
      exact (hmean.merge hv hcount).perm hperm.symm
    · have hall : w'.memberVectors clusterId = w.memberVectors clusterId := by
        rw [← hold]
        refine filterMap_congr fun y _ => ?_
        rw [queryVector_cons hlog, hv]
        by_cases hy : f.episodeId = y
        · rw [if_pos hy, ← hy, hsome]
          rfl
        · rw [if_neg hy]
      rw [mergeCentroid_self hv hself, hall, meanOf_some (present_some hv).2]
      unfold MeanOf at hmean
      rw [hself] at hmean
      exact hmean

/-- What the members are after an episode has come to a cluster, where it may have been. -/
structure Entered (w w' : World) (clusterId episodeId : String) (already : Bool) : Prop where
  one : (w'.members.map (·.episodeId)).Nodup
  here : w'.memberEpisodes clusterId = w.memberEpisodes clusterId ++ if already then [] else [episodeId]
  others : ∀ id, id ≠ clusterId → w'.memberEpisodes id = w.memberEpisodes id ∧ episodeId ∉ w.memberEpisodes id
  mem : episodeId ∈ w'.memberEpisodes clusterId
  home : ∀ m ∈ w'.members, m.clusterId = clusterId ∨ ∃ m' ∈ w.members, m'.clusterId = m.clusterId
  grows : ∀ x ∈ w.members.map (·.episodeId), x ∈ w'.members.map (·.episodeId)
  new : already = false → episodeId ∉ w.members.map (·.episodeId)

theorem entered_of_mem (h : Inv w) (member : SkillClusterMemberRecord) (hcluster : member.clusterId = clusterId)
    (hepisode : member.episodeId = episodeId) (hmem : episodeId ∈ w.memberEpisodes clusterId)
    (hmembers : w'.members = (w.upsertSkillClusterMember member).members) :
    Entered w w' clusterId episodeId true := by
  subst hcluster hepisode
  have hpairs := upsert_of_mem hmem
  rw [← hmembers] at hpairs
  have hsame : ∀ id, w'.memberEpisodes id = w.memberEpisodes id := fun id => by
    rw [memberEpisodes_eq, memberEpisodes_eq, hpairs]
  have hall : w'.members.map (·.episodeId) = w.members.map (·.episodeId) := by
    rw [episodes_eq, episodes_eq, hpairs]
  refine
    { one := hall ▸ h.one
      here := by rw [hsame, if_pos rfl, append_nil]
      others := fun id hid => ⟨hsame id, fun hin => hid (h.apart hin hmem)⟩
      mem := hsame _ ▸ hmem
      home := fun m hm => ?_
      grows := fun x hx => hall.symm ▸ hx
      new := nofun }
  have hpair : (m.clusterId, m.episodeId) ∈ w.members.map fun m => (m.clusterId, m.episodeId) :=
    hpairs ▸ mem_map_of_mem hm
  obtain ⟨m', hm', he⟩ := mem_map.mp hpair
  exact Or.inr ⟨m', hm', congrArg Prod.fst he⟩

theorem entered_of_not_mem (h : Inv w) (member : SkillClusterMemberRecord)
    (hcluster : member.clusterId = clusterId) (hepisode : member.episodeId = episodeId)
    (hnot : episodeId ∉ w.members.map (·.episodeId))
    (hmembers : w'.members = (w.upsertSkillClusterMember member).members) :
    Entered w w' clusterId episodeId false := by
  subst hcluster hepisode
  rw [upsert_of_not_mem hnot] at hmembers
  have hepisodes : ∀ id, w'.memberEpisodes id =
      w.memberEpisodes id ++ if member.clusterId = id then [member.episodeId] else [] := fun id => by
    unfold memberEpisodes listSkillClusterMembers
    rw [hmembers, filter_append, map_append]
    by_cases hid : member.clusterId = id <;> simp [hid]
  refine
    { one := ?_
      here := by rw [hepisodes, if_pos rfl]; rfl
      others := fun id hid => ⟨by rw [hepisodes, if_neg (Ne.symm hid), append_nil],
        not_mem_memberEpisodes hnot id⟩
      mem := by rw [hepisodes, if_pos rfl]; exact mem_append_right _ mem_cons_self
      home := fun m hm => ?_
      grows := fun x hx => ?_
      new := fun _ => hnot }
  · rw [hmembers, map_append, nodup_append]
    refine ⟨h.one, nodup_singleton _, fun a ha b hb he => hnot ?_⟩
    have hb' : b = member.episodeId := mem_singleton.mp hb
    rwa [← hb', ← he]
  · rw [hmembers] at hm
    rcases mem_append.mp hm with hm | hm
    · exact Or.inr ⟨m, hm, rfl⟩
    · exact Or.inl (by rw [mem_singleton.mp hm])
  · rw [hmembers, map_append]
    exact mem_append_left _ hx

/-- **An episode comes to a cluster**: the row of the cluster has it, the others are as they were. -/
theorem inv_entered (h : Inv w) (hlog : w'.assigned = f :: w.assigned) (hjobs : w'.jobs = w.jobs)
    (hentered : Entered w w' clusterId f.episodeId already)
    (hids : (w'.clusters.map (·.id)).Nodup)
    (hkeeps : ∀ c ∈ w.clusters, ∃ c' ∈ w'.clusters, c'.id = c.id) (hhere : ∃ c ∈ w'.clusters, c.id = clusterId)
    (hrows : ∀ c ∈ w'.clusters, (c.id ≠ clusterId ∧ c ∈ w.clusters) ∨ (c.id = clusterId ∧
      c.memberCount = (w'.memberEpisodes clusterId).length ∧
      (∀ g ∈ w'.assigned, g.episodeId ∈ w'.memberEpisodes clusterId → g.tools ⊆ c.tools ∧
        g.artifacts ⊆ c.artifacts) ∧ MeanOf c.centroid (w'.memberVectors clusterId) ∧
      (∀ x ∈ c.tools, Trimmed x) ∧ (∀ x ∈ c.artifacts, Trimmed x) ∧
      ∀ x ∈ c.processedEpisodeIds, Trimmed x)) : Inv w' := by
  refine
    { one := hentered.one
      count := fun c hc => ?_
      covers := fun c hc g hg hmem => ?_
      mean := fun c hc => ?_
      ids := hids
      home := fun m hm => ?_
      logged := fun g hg => ?_
      tools := fun c hc => ?_
      artifacts := fun c hc => ?_
      processed := fun c hc => ?_
      reads := hjobs ▸ h.reads }
  · rcases hrows c hc with ⟨hid, hold⟩ | ⟨hid, hcount, -⟩
    · rw [(hentered.others c.id hid).1]
      exact h.count c hold
    · rw [hid]
      exact hcount
  · rcases hrows c hc with ⟨hid, hold⟩ | ⟨hid, -, hcovers, -⟩
    · obtain ⟨hsame, hout⟩ := hentered.others c.id hid
      rw [hsame] at hmem
      rw [hlog] at hg
      rcases mem_cons.mp hg with rfl | hg
      · exact absurd hmem hout
      · exact h.covers c hold g hg hmem
    · rw [hid] at hmem
      exact hcovers g hg hmem
  · rcases hrows c hc with ⟨hid, hold⟩ | ⟨hid, -, -, hmean, -⟩
    · obtain ⟨hsame, hout⟩ := hentered.others c.id hid
      have hvectors : w'.memberVectors c.id = w.memberVectors c.id := by
        unfold memberVectors
        rw [hsame]
        refine filterMap_congr fun y hy => ?_
        rw [queryVector_cons hlog, if_neg]
        rintro rfl
        exact hout hy
      rw [hvectors]
      exact h.mean c hold
    · rw [hid]
      exact hmean
  · rcases hentered.home m hm with he | ⟨m', hm', he⟩
    · rw [he]
      exact hhere
    · obtain ⟨c, hc, hid⟩ := h.home m' hm'
      obtain ⟨c', hc', hid'⟩ := hkeeps c hc
      exact ⟨c', hc', hid'.trans (hid.trans he)⟩
  · rw [hlog] at hg
    rcases mem_cons.mp hg with rfl | hg
    · obtain ⟨m, hm, -, he⟩ := mem_memberEpisodes.mp hentered.mem
      exact he ▸ mem_map_of_mem hm
    · exact hentered.grows _ (h.logged g hg)
  · rcases hrows c hc with ⟨-, hold⟩ | ⟨-, -, -, -, htools, -⟩
    · exact h.tools c hold
    · exact htools
  · rcases hrows c hc with ⟨-, hold⟩ | ⟨-, -, -, -, -, hartifacts, -⟩
    · exact h.artifacts c hold
    · exact hartifacts
  · rcases hrows c hc with ⟨-, hold⟩ | ⟨-, -, -, -, -, -, hprocessed⟩
    · exact h.processed c hold
    · exact hprocessed

theorem Entered.vectors (h : Inv w) (hentered : Entered w w' clusterId episodeId already) :
    (w'.memberEpisodes clusterId).filterMap w.queryVector = w.memberVectors clusterId := by
  rw [hentered.here, filterMap_append]
  cases already with
  | true => exact append_nil _
  | false =>
    have hnone := queryVector_none h (hentered.new rfl)
    have hnil : (if false = true then [] else [episodeId]).filterMap w.queryVector = [] :=
      filterMap_cons_none hnone
    rw [hnil, append_nil]
    rfl

theorem CountsOnce.vectors (h : Inv w) (hc : c ∈ w.clusters) (hcount : CountsOnce w c episodeId q)
    (hmember : w.getSkillClusterForEpisode episodeId = none → w.queryVector episodeId = none)
    (hfirst : present c.centroid = none → w.queryVector episodeId = none) :
    ∀ v, present q = some v → (w.queryVector episodeId = none ∧
        (present c.centroid = none ∨ present c.centroid = some v ∨
          (w.memberVectors c.id).length = c.memberCount ∧ ∃ u, present c.centroid = some u ∧
            v.length = u.length)) ∨
      (w.queryVector episodeId = some v ∧ present c.centroid = some v) := by
  intro v hv
  rcases hcount v hv with hnone | ⟨hself, hq | hq⟩ | ⟨hnew, hall, hu⟩
  · exact Or.inl ⟨hfirst hnone, Or.inl hnone⟩
  · exact Or.inl ⟨hq, Or.inr (Or.inl hself)⟩
  · exact Or.inr ⟨hq, hself⟩
  · refine Or.inl ⟨hmember hnew, Or.inr (Or.inr ⟨?_, hu⟩)⟩
    unfold memberVectors
    rw [h.count c hc, length_filterMap_eq_countP, countP_eq_length]
    exact hall

theorem inv_refresh (h : Inv w) (hc : c ∈ w.clusters) (hclean : f.Clean)
    (hentered : Entered w w' c.id f.episodeId already) (hlog : w'.assigned = f :: w.assigned)
    (hjobs : w'.jobs = w.jobs) (hclusters : w'.clusters = (w.updateSkillCluster (c.refresh f already now)).clusters)
    (hmember : w.getSkillClusterForEpisode f.episodeId = none → w.queryVector f.episodeId = none)
    (hfirst : present c.centroid = none → w.queryVector f.episodeId = none)
    (hcount : CountsOnce w c f.episodeId f.queryVec) : Inv w' := by
  have hupdated : w'.clusters.map (·.id) = w.clusters.map (·.id) := by
    rw [hclusters]
    exact update_ids
  have hkeeps : ∀ d ∈ w.clusters, ∃ c' ∈ w'.clusters, c'.id = d.id := fun d hd => by
    have hmem : d.id ∈ w'.clusters.map (·.id) := hupdated ▸ mem_map_of_mem hd
    obtain ⟨c', hc', he⟩ := mem_map.mp hmem
    exact ⟨c', hc', he⟩
  refine inv_entered h hlog hjobs hentered (hupdated ▸ h.ids) hkeeps (hkeeps c hc) fun c' hc' => ?_
  rw [hclusters] at hc'
  obtain ⟨d, hd, rfl⟩ := mem_update.mp hc'
  by_cases hid : d.id = (c.refresh f already now).id
  swap
  · rw [if_neg hid]
    exact Or.inl ⟨hid, hd⟩
  rw [if_pos hid]
  obtain rfl := eq_of_id h.ids hd hc hid
  refine Or.inr ⟨rfl, ?_, fun g hg hmem => ?_, ?_, fun x hx => trimmed_of_mem hx, fun x hx => trimmed_of_mem hx,
    h.processed d hd⟩
  · rw [hentered.here, length_append, ← h.count d hd]
    cases already <;> rfl
  · rw [hlog] at hg
    rcases mem_cons.mp hg with rfl | hg
    · exact ⟨fun x hx => mem_uniqSorted_of_mem (mem_append_right _ hx) (hclean.tools x hx),
        fun x hx => mem_uniqSorted_of_mem (mem_append_right _ hx) (hclean.artifacts x hx)⟩
    · have hold : g.episodeId ∈ w.memberEpisodes d.id := by
        rw [hentered.here] at hmem
        rcases mem_append.mp hmem with hmem | hmem
        · exact hmem
        · cases already with
          | true => cases hmem
          | false =>
            exact absurd (mem_singleton.mp hmem ▸ h.logged g hg) (hentered.new rfl)
      obtain ⟨htools, hartifacts⟩ := h.covers d hd g hg hold
      exact ⟨fun x hx => mem_uniqSorted_of_mem (mem_append_left _ (htools hx)) (h.tools d hd x (htools hx)),
        fun x hx => mem_uniqSorted_of_mem (mem_append_left _ (hartifacts hx))
          (h.artifacts d hd x (hartifacts hx))⟩
  · exact mean_assign hlog (List.Nodup.sublist (filter_sublist.map _) hentered.one) hentered.mem
      (hentered.vectors h) (h.mean d hd) (hcount.vectors h hd hmember hfirst)

theorem inv_create (h : Inv w) (hfresh : id ∉ w.clusters.map (·.id)) (hclean : f.Clean)
    (hentered : Entered w w' id f.episodeId false) (hlog : w'.assigned = f :: w.assigned) (hjobs : w'.jobs = w.jobs)
    (hclusters : w'.clusters = w.clusters ++ [createCluster episode f id now]) : Inv w' := by
  have hempty : w.memberEpisodes id = [] := by
    rw [eq_nil_iff_forall_not_mem]
    intro x hx
    obtain ⟨m, hm, hid, -⟩ := mem_memberEpisodes.mp hx
    obtain ⟨c, hc, he⟩ := h.home m hm
    exact hfresh (hid ▸ he ▸ mem_map_of_mem hc)
  have hhere : w'.memberEpisodes id = [f.episodeId] := by
    rw [hentered.here, hempty]
    rfl
  have hnew := hentered.new rfl
  have hrow : createCluster episode f id now ∈ w'.clusters := hclusters ▸ mem_append_right _ mem_cons_self
  refine inv_entered h hlog hjobs hentered ?_ (fun c hc => ⟨c, hclusters ▸ mem_append_left _ hc, rfl⟩)
    ⟨_, hrow, rfl⟩ fun c hc => ?_
  · rw [hclusters, map_append, nodup_append]
    refine ⟨h.ids, nodup_singleton _, fun a ha b hb he => hfresh ?_⟩
    have hb' : b = id := mem_singleton.mp hb
    rwa [← hb', ← he]
  · rw [hclusters] at hc
    rcases mem_append.mp hc with hc | hc
    · exact Or.inl ⟨fun he => hfresh (he ▸ mem_map_of_mem hc), hc⟩
    rw [mem_singleton.mp hc]
    refine Or.inr ⟨rfl, by rw [hhere]; rfl, fun g hg hmem => ?_, ?_, hclean.tools, hclean.artifacts, nofun⟩
    · rw [hhere] at hmem
      rw [hlog] at hg
      rcases mem_cons.mp hg with rfl | hg
      · exact ⟨fun x hx => hx, fun x hx => hx⟩
      · exact absurd (mem_singleton.mp hmem ▸ h.logged g hg) hnew
    · have hvector : w'.queryVector f.episodeId = present f.queryVec := by
        rw [queryVector_cons hlog, if_pos rfl, queryVector_none h hnew, Option.or_none]
      unfold memberVectors MeanOf createCluster
      simp only [hhere]
      cases hv : present f.queryVec with
      | none => exact filterMap_cons_none (hvector.trans hv)
      | some v =>
        have hone : [f.episodeId].filterMap w'.queryVector = [v] := filterMap_cons_some (hvector.trans hv)
        rw [hone]
        exact IsMean.single v

theorem clusterFor_some (hfor : w.clusterFor config episode f = some c) : c ∈ w.clusters := by
  unfold clusterFor at hfor
  cases hown : w.getSkillClusterForEpisode episode.id with
  | some existing =>
    rw [hown] at hfor
    cases hfor
    exact (getSkillClusterForEpisode_some hown).1
  | none =>
    rw [hown] at hfor
    obtain ⟨d, -, hget⟩ := Option.bind_eq_some_iff.mp hfor
    exact (getSkillCluster_mem hget).1

theorem upsert_members (h : w'.members = w.members) :
    (w'.upsertSkillClusterMember member).members = (w.upsertSkillClusterMember member).members := by
  unfold upsertSkillClusterMember
  simp only [h]
  split_ifs <;> rfl

theorem upsert_rest (w : World) (member : SkillClusterMemberRecord) :
    (w.upsertSkillClusterMember member).clusters = w.clusters ∧
      (w.upsertSkillClusterMember member).jobs = w.jobs := by
  unfold upsertSkillClusterMember
  simp only
  split_ifs <;> exact ⟨rfl, rfl⟩

theorem queryVector_of_centroid (h : Inv w) (hc : c ∈ w.clusters) (hnone : present c.centroid = none)
    (hmem : episodeId ∈ w.memberEpisodes c.id) : w.queryVector episodeId = none := by
  have hmean := h.mean c hc
  unfold MeanOf at hmean
  rw [hnone] at hmean
  exact filterMap_eq_nil_iff.mp hmean episodeId hmem

/-- **An assignment keeps the rows sound** if it counts the vector once. -/
theorem inv_assign (h : Inv w) (hclean : f.Clean) (hepisode : f.episodeId = episode.id)
    (hfresh : id ∉ w.clusters.map (·.id))
    (hcount : ∀ c, w.clusterFor config episode f = some c → CountsOnce w c episode.id f.queryVec) :
    Inv (w.assign config episode f id now) := by
  have hmember : w.getSkillClusterForEpisode f.episodeId = none → w.queryVector f.episodeId = none :=
    fun hnone => queryVector_none h (getSkillClusterForEpisode_none h hnone)
  unfold assign
  cases hfor : w.clusterFor config episode f with
  | some c =>
    have hc := clusterFor_some hfor
    have hcount := hcount c hfor
    rw [← hepisode] at hcount
    simp only
    unfold refreshClusterFeatures
    have hany : (w.listSkillClusterMembers c.id).any (·.episodeId = f.episodeId) =
        decide (f.episodeId ∈ w.memberEpisodes c.id) := by
      unfold memberEpisodes
      rw [Bool.eq_iff_iff, any_eq_true, decide_eq_true_eq, mem_map]
      simp only [decide_eq_true_eq]
    rw [hany]
    cases hown : w.getSkillClusterForEpisode f.episodeId with
    | some existing =>
      have hmem : f.episodeId ∈ w.memberEpisodes c.id := by
        unfold clusterFor at hfor
        rw [← hepisode, hown] at hfor
        cases hfor
        exact (getSkillClusterForEpisode_some hown).2
      rw [decide_eq_true hmem]
      refine inv_refresh h hc hclean (entered_of_mem h (memberRow config c.id episode now) rfl hepisode.symm hmem
        (upsert_members rfl)) rfl (upsert_rest _ _).2 (upsert_rest _ _).1 hmember
        (fun hnone => queryVector_of_centroid h hc hnone hmem) hcount
    | none =>
      have hnot := getSkillClusterForEpisode_none h hown
      rw [decide_eq_false (not_mem_memberEpisodes hnot c.id)]
      refine inv_refresh h hc hclean (entered_of_not_mem h (memberRow config c.id episode now) rfl hepisode.symm
        hnot (upsert_members rfl)) rfl (upsert_rest _ _).2 (upsert_rest _ _).1 hmember (fun _ => hmember hown) hcount
  | none =>
    have hown : w.getSkillClusterForEpisode f.episodeId = none := by
      unfold clusterFor at hfor
      rw [← hepisode] at hfor
      cases hown : w.getSkillClusterForEpisode f.episodeId with
      | none => rfl
      | some existing =>
        rw [hown] at hfor
        cases hfor
    have hnot := getSkillClusterForEpisode_none h hown
    exact inv_create h hfresh hclean (entered_of_not_mem h (memberRow config id episode now) rfl hepisode.symm
      hnot (upsert_members rfl)) rfl (upsert_rest _ _).2 (upsert_rest _ _).1

end Assign

/-! ### Steps -/

theorem agrees_refl (r : SkillClusterRecord) : Agrees r r := ⟨rfl, rfl, rfl, rfl, rfl, rfl⟩

theorem inv_beginEvolve (h : Inv w) (job clusterId : String) (usable : Bool) (now : ℕ) :
    Inv (w.beginEvolve config job clusterId usable now) := by
  unfold beginEvolve
  cases hget : w.getSkillCluster clusterId with
  | none => exact h
  | some c =>
    have hheld : Held w c := held_of_mem h (getSkillCluster_mem hget).1
    simp only
    have hread : ∀ s, (if usable then c.skillMemoryId else none) = some s → c.skillMemoryId = some s := fun s hs => by
      split_ifs at hs
      exact hs
    generalize (if usable then c.skillMemoryId else none) = existing at hread ⊢
    generalize selectTop6Members config (w.scoredMembers config c.id) = top6
    by_cases hempty : top6.isEmpty = true
    · rw [if_pos hempty]
      exact h
    rw [if_neg hempty]
    have hgenerate : Inv (if config.usesLlm then w.await job (.generating ⟨c, existing, top6.map (·.episodeId), now⟩)
        else w.updateMetaSkill config job c none (some "llm_disabled") now) := by
      split_ifs
      · refine inv_await h job fun e he s hs => ?_
        cases he
        exact hread s hs
      · exact inv_updateMeta h (Or.inr hheld) _ _ _ _
    cases decideEvolveBranch existing.isSome (top6.map (·.outcome)) with
    | skipUnknownOnly => exact inv_updateMeta h (Or.inr hheld) _ _ _ _
    | skipNoSuccessAnchor =>
      have hnext := held_markProcessed hheld (top6.map (·.episodeId)) now
      exact inv_updateMeta (inv_write h hnext) (Or.inr (held_update hnext hnext (agrees_refl _))) _ _ _ _
    | crystallize => exact hgenerate
    | rebuild => exact hgenerate

theorem inv_finishGenerate (h : Inv w) {e : Evolving} {generated : Generated}
    (hheeded : (config.usesLlm = true ∧ ∃ reason, generated = .failed reason) ∨ Unchanged w e.cluster) :
    Inv (w.finishGenerate config job e generated) := by
  unfold finishGenerate
  cases generated with
  | failed reason =>
    exact inv_updateMeta h (hheeded.imp (·.1) (held_of_unchanged h)) _ _ _ _
  | rejected reason =>
    have hunchanged : Unchanged w e.cluster := hheeded.resolve_left fun ⟨_, r, hr⟩ => (by cases hr)
    have hnext := held_markProcessed (held_of_unchanged h hunchanged) e.top6 e.now
    exact inv_updateMeta (inv_write h hnext) (Or.inr (held_update hnext hnext (agrees_refl _))) _ _ _ _
  | accepted memoryId =>
    have hunchanged : Unchanged w e.cluster := hheeded.resolve_left fun ⟨_, r, hr⟩ => (by cases hr)
    have hnext := held_markProcessed (held_of_unchanged h hunchanged) e.top6 e.now
    have hskill : Held w
        { markProcessed e.cluster e.top6 e.now with skillMemoryId := some (e.skillMemoryId memoryId) } := by
      obtain ⟨⟨c, hc, hagrees⟩, hprocessed⟩ := hnext
      exact ⟨⟨c, hc, hagrees.id, hagrees.userId, hagrees.tools, hagrees.artifacts, hagrees.centroid,
        hagrees.memberCount⟩, hprocessed⟩
    have hheld := held_update hnext hskill ⟨rfl, rfl, rfl, rfl, rfl, rfl⟩
    exact inv_updateMeta (inv_write (inv_write h hnext) hheld)
      (Or.inr (held_update hheld hheld (agrees_refl _))) _ _ _ _

/-- **A step that heeds the condition keeps the rows sound.** -/
theorem inv_step {e : Event} (h : Inv w) (hheeded : Heeded config w e) : Inv (step config w e) := by
  unfold step
  cases e with
  | episode e => exact inv_jobs h h.reads
  | beginAssign job episodeId turns =>
    simp only
    split
    · split_ifs
      · exact h
      · exact inv_await h job nofun
    · exact h
  | finishAssign job queryVec newId now =>
    simp only
    split
    · next episode turns hjob =>
      split_ifs with hfresh
      · exact h
      · exact inv_assign (inv_endJob h job) (clean_extracted _ _ _ _ _) rfl hfresh
          (hheeded episode turns hjob)
    · exact h
  | beginEvolve job clusterId usable now =>
    simp only
    split
    · exact inv_beginEvolve h job clusterId usable now
    · exact h
  | finishGenerate job generated =>
    simp only
    split
    · next e hjob => exact inv_finishGenerate h (hheeded e hjob)
    · exact h
  | finishMeta job content now =>
    simp only
    split
    · next c onError hjob =>
      have hheld : Held w c := held_of_unchanged h (hheeded c onError hjob)
      exact inv_writeMeta (inv_endJob h job) hheld _ _
    · exact h
  | failMeta job reason now =>
    simp only
    split
    · next c onError hjob =>
      exact inv_updateMeta h ((hheeded c onError hjob).imp_right (held_of_unchanged h)) _ _ _ _
    · exact inv_endJob h job
    · exact h
  | crash job => exact inv_endJob h job

end Memmy.SkillClusters
