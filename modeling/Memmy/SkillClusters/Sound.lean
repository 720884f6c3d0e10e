import Memmy.SkillClusters.Pipeline

/-! # Skill clusters: what a row says of its members

* `Sound`: each episode is in one cluster, and a row counts its members, has their tools and artifacts, and
  the mean of their vectors.
* `Inv`: with the facts on ids that every step uses.
* `Inv.assign`: an assignment keeps this if the vector is counted once.
* `Inv.update`: a row that is written back keeps it if nothing has changed since it was read. -/

namespace Memmy.SkillClusters

open Lib.Mean Lib.Sort List

/-! ### Members -/

section Members
variable (w : World)

def World.memberEpisodes (clusterId : String) : List String :=
  (w.listSkillClusterMembers clusterId).map (·.episodeId)

/-- The last vector that was computed for an episode. -/
def World.queryVector (episodeId : String) : Option Vec :=
  w.assigned.findSome? fun f => if f.episodeId = episodeId then present f.queryVec else none

def World.memberVectors (clusterId : String) : List Vec := (w.memberEpisodes clusterId).filterMap w.queryVector

/-- The centroid is the mean; there is none without vectors. -/
def MeanOf (centroid : Option Vec) (vs : List Vec) : Prop :=
  match present centroid with
  | none => vs = []
  | some c => IsMean c vs

/-- **A sound state.** -/
structure Sound : Prop where
  /-- Each episode is a member of at most one cluster. -/
  one : (w.members.map (·.episodeId)).Nodup
  count : ∀ c ∈ w.clusters, c.memberCount = (w.memberEpisodes c.id).length
  covers : ∀ c ∈ w.clusters, ∀ f ∈ w.assigned, f.episodeId ∈ w.memberEpisodes c.id →
    f.tools ⊆ c.tools ∧ f.artifacts ⊆ c.artifacts
  mean : ∀ c ∈ w.clusters, MeanOf c.centroid (w.memberVectors c.id)

/-- What every step keeps. -/
structure Inv : Prop extends Sound w where
  ids : (w.clusters.map (·.id)).Nodup
  home : ∀ m ∈ w.members, ∃ c ∈ w.clusters, c.id = m.clusterId
  logged : ∀ f ∈ w.assigned, f.episodeId ∈ w.members.map (·.episodeId)
  tools : ∀ c ∈ w.clusters, ∀ x ∈ c.tools, Trimmed x
  artifacts : ∀ c ∈ w.clusters, ∀ x ∈ c.artifacts, Trimmed x
  processed : ∀ c ∈ w.clusters, ∀ x ∈ c.processedEpisodeIds, Trimmed x
  /-- A job has found the Skill of the row that it has read. -/
  reads : ∀ j ∈ w.jobs, ∀ e, j.2 = .generating e → ∀ s, e.existingSkill = some s → e.cluster.skillMemoryId = some s

end Members

section Lookups
variable {w : World} {c : SkillClusterRecord} {m : SkillClusterMemberRecord} {id clusterId episodeId : String}
  {f : EpisodeSkillFeatures}

theorem mem_memberEpisodes : episodeId ∈ w.memberEpisodes clusterId ↔
    ∃ m ∈ w.members, m.clusterId = clusterId ∧ m.episodeId = episodeId := by
  unfold World.memberEpisodes World.listSkillClusterMembers
  simp [mem_filter, and_assoc]

theorem getSkillCluster_mem (h : w.getSkillCluster id = some c) : c ∈ w.clusters ∧ c.id = id :=
  ⟨mem_of_find?_eq_some h, by simpa using find?_some h⟩

theorem eq_of_id (hids : (w.clusters.map (·.id)).Nodup) {c' : SkillClusterRecord} (hc : c ∈ w.clusters)
    (hc' : c' ∈ w.clusters) (h : c.id = c'.id) : c = c' := inj_on_of_nodup_map hids hc hc' h

theorem getSkillCluster_eq (hids : (w.clusters.map (·.id)).Nodup) (hc : c ∈ w.clusters) :
    w.getSkillCluster c.id = some c := by
  cases hget : w.getSkillCluster c.id with
  | none =>
    have hne := find?_eq_none.mp hget c hc
    simp at hne
  | some c' =>
    obtain ⟨hmem, hid⟩ := getSkillCluster_mem hget
    rw [eq_of_id hids hmem hc hid]

theorem Sound.apart (h : Sound w) (hmem : episodeId ∈ w.memberEpisodes id)
    (hmem' : episodeId ∈ w.memberEpisodes clusterId) : id = clusterId := by
  obtain ⟨m, hm, rfl, rfl⟩ := mem_memberEpisodes.mp hmem
  obtain ⟨m', hm', rfl, he⟩ := mem_memberEpisodes.mp hmem'
  rw [inj_on_of_nodup_map h.one hm hm' he.symm]

theorem getSkillClusterForEpisode_some (h : w.getSkillClusterForEpisode episodeId = some c) :
    c ∈ w.clusters ∧ episodeId ∈ w.memberEpisodes c.id := by
  obtain ⟨m, hm, hget⟩ := mem_filterMap.mp (mem_of_head? h)
  obtain ⟨hm, hepisode⟩ := mem_filter.mp ((mem_sortBy _).mp hm)
  obtain ⟨hmem, hid⟩ := getSkillCluster_mem hget
  exact ⟨hmem, mem_memberEpisodes.mpr ⟨m, hm, hid.symm, by simpa using hepisode⟩⟩

theorem getSkillClusterForEpisode_none (h : Inv w) (hnone : w.getSkillClusterForEpisode episodeId = none) :
    episodeId ∉ w.members.map (·.episodeId) := by
  intro hmem
  obtain ⟨m, hm, rfl⟩ := mem_map.mp hmem
  obtain ⟨c, hc, hid⟩ := h.home m hm
  unfold World.getSkillClusterForEpisode at hnone
  rw [head?_eq_none_iff, filterMap_eq_nil_iff] at hnone
  have hsome := hnone m ((mem_sortBy _).mpr (mem_filter.mpr ⟨hm, by simp⟩))
  rw [← hid, getSkillCluster_eq h.ids hc] at hsome
  cases hsome

theorem not_mem_memberEpisodes (h : episodeId ∉ w.members.map (·.episodeId)) (clusterId : String) :
    episodeId ∉ w.memberEpisodes clusterId := fun hmem => by
  obtain ⟨m, hm, -, rfl⟩ := mem_memberEpisodes.mp hmem
  exact h (mem_map_of_mem hm)

theorem queryVector_none (h : Inv w) (hnew : episodeId ∉ w.members.map (·.episodeId)) :
    w.queryVector episodeId = none := by
  unfold World.queryVector
  rw [findSome?_eq_none_iff]
  intro f hf
  rw [if_neg]
  rintro rfl
  exact hnew (h.logged f hf)

end Lookups

/-! ### Means -/

section Means
variable {centroid q : Option Vec} {vs vs' : List Vec} {v : Vec} {n : ℕ} {l : List String} {x : String}
  {g g' : String → Option Vec}

theorem present_some (h : present q = some v) : q = some v ∧ v ≠ [] := by
  obtain ⟨hq, hne⟩ := Option.filter_eq_some_iff.mp h
  exact ⟨hq, by simpa using hne⟩

theorem present_of_ne (h : v ≠ []) : present (some v) = some v := by
  unfold present
  simp [h]

theorem mergeCentroid_none (h : present q = none) : mergeCentroid centroid q n = centroid := by
  unfold mergeCentroid
  rw [h]

/-- A vector that is the centroid leaves it. -/
theorem mergeCentroid_self (hq : present q = some v) (hc : present centroid = some v) :
    mergeCentroid centroid q n = some v := by
  unfold mergeCentroid
  rw [hq, hc]
  simp only [running_self, ite_self]

theorem MeanOf.perm (h : MeanOf centroid vs) (hperm : vs.Perm vs') : MeanOf centroid vs' := by
  unfold MeanOf at h ⊢
  cases hc : present centroid with
  | none =>
    rw [hc] at h
    exact perm_nil.mp (h ▸ hperm.symm)
  | some c =>
    rw [hc] at h
    exact IsMean.perm h hperm

theorem meanOf_some (hv : v ≠ []) : MeanOf (some v) vs ↔ IsMean v vs := by
  unfold MeanOf
  rw [present_of_ne hv]

/-- **A new vector** gives the mean with it, if the others were all counted. -/
theorem MeanOf.merge (h : MeanOf centroid vs) (hq : present q = some v)
    (hcount : present centroid = none ∨ present centroid = some v ∨
      vs.length = n ∧ ∃ c, present centroid = some c ∧ v.length = c.length) :
    MeanOf (mergeCentroid centroid q n) (v :: vs) := by
  have hv := (present_some hq).2
  rcases hcount with hnone | hself | ⟨rfl, c, hc, hlength⟩
  · unfold MeanOf at h
    rw [hnone] at h
    have hmerge : mergeCentroid centroid q n = some v := by
      unfold mergeCentroid
      rw [hq, hnone]
    rw [hmerge, meanOf_some hv, h]
    exact IsMean.single v
  · rw [mergeCentroid_self hq hself, meanOf_some hv]
    unfold MeanOf at h
    rw [hself] at h
    exact IsMean.cons_self h
  · unfold MeanOf at h
    rw [hc] at h
    have hne : vs.length ≠ 0 := fun hz => h.nonempty (length_eq_zero_iff.mp hz)
    have hmerge : mergeCentroid centroid q vs.length = some (running c v vs.length) := by
      unfold mergeCentroid
      rw [hq, hc]
      exact if_neg fun hor => hor.elim hne fun hl => hl hlength.symm
    have hnil : running c v vs.length ≠ [] := fun hnil => by
      have hzero := congrArg List.length hnil
      rw [length_running, ← hlength] at hzero
      exact hv (length_eq_zero_iff.mp hzero)
    rw [hmerge, meanOf_some hnil]
    exact IsMean.running h hlength

/-- The vectors of a list of episodes when one of them gets its first vector. -/
theorem filterMap_update : ∀ {l : List String}, l.Nodup → x ∈ l → g x = none → g' x = some v →
    (∀ y, y ≠ x → g' y = g y) → (l.filterMap g').Perm (v :: l.filterMap g)
  | y :: l, hnodup, hx, hg, hg', hsame => by
    obtain ⟨hy, hnodup⟩ := nodup_cons.mp hnodup
    by_cases he : y = x
    · subst he
      have hrest : l.filterMap g' = l.filterMap g := filterMap_congr fun z hz => hsame z fun h => hy (h ▸ hz)
      rw [filterMap_cons_some hg', filterMap_cons_none hg, hrest]
    · have ih := filterMap_update hnodup ((mem_cons.mp hx).resolve_left (Ne.symm he)) hg hg' hsame
      rw [filterMap_cons, filterMap_cons, hsame y he]
      cases g y with
      | none => exact ih
      | some u => exact (ih.cons u).trans (.swap v u _)

end Means

end Memmy.SkillClusters
