import Memmy.SkillClusters.Interleaved

/-! # Skill clusters: what is not lost

* `Kept`: a step keeps the processed episodes and the Skill of every cluster.
* `sound_of_heeded`: in a run under the condition the rows are sound all along, and nothing is lost.
* `disturbed_not_sound`: the row of a job that was overtaken. -/

namespace Memmy.SkillClusters

open Lib.Mean Lib.Run List

variable {config : Clustering} {w : World} {e : Event} {c r : SkillClusterRecord} {job : String}

/-- **What a step does not lose**: processed episodes, and the Skill of a cluster, unless a job that found it
not usable has written another one. -/
def Kept (config : Clustering) (w : World) (e : Event) : Prop :=
  ∀ c ∈ w.clusters, ∃ c' ∈ (step config w e).clusters, c'.id = c.id ∧
    c.processedEpisodeIds ⊆ c'.processedEpisodeIds ∧
      (c.skillMemoryId.isSome = true → c'.skillMemoryId = c.skillMemoryId ∨
        ∃ job memoryId read, e = .finishGenerate job (.accepted memoryId) ∧
          w.job job = some (.generating read) ∧ read.cluster.id = c.id ∧ read.existingSkill = none ∧
            c'.skillMemoryId = some memoryId)

/-! ### Writes -/

theorem kept_of_same (h : (step config w e).clusters = w.clusters) : Kept config w e :=
  fun c hc => ⟨c, h ▸ hc, rfl, fun _ hx => hx, fun _ => Or.inl rfl⟩

/-- A row that is written over the one that is stored. -/
theorem kept_of_update (h : (step config w e).clusters = (w.updateSkillCluster r).clusters)
    (hrow : ∀ c ∈ w.clusters, c.id = r.id → c.processedEpisodeIds ⊆ r.processedEpisodeIds ∧
      (c.skillMemoryId.isSome = true → r.skillMemoryId = c.skillMemoryId ∨
        ∃ job memoryId read, e = .finishGenerate job (.accepted memoryId) ∧
          w.job job = some (.generating read) ∧ read.cluster.id = c.id ∧ read.existingSkill = none ∧
            r.skillMemoryId = some memoryId)) : Kept config w e := by
  intro c hc
  rw [h]
  by_cases hid : c.id = r.id
  · obtain ⟨hprocessed, hskill⟩ := hrow c hc hid
    exact ⟨{ r with userId := c.userId }, mem_update.mpr ⟨c, hc, if_pos hid⟩, hid.symm, hprocessed, hskill⟩
  · exact ⟨c, mem_update.mpr ⟨c, hc, if_neg hid⟩, rfl, fun _ hx => hx, fun _ => Or.inl rfl⟩

variable {r' : SkillClusterRecord}

/-- Of two writes to a row the second one counts. -/
theorem update_update (h : r.id = r'.id) :
    ((w.updateSkillCluster r).updateSkillCluster r').clusters = (w.updateSkillCluster r').clusters := by
  unfold World.updateSkillCluster
  rw [map_map]
  refine map_congr_left fun c _ => ?_
  simp only [Function.comp_apply]
  by_cases hid : c.id = r.id
  · rw [if_pos hid, if_pos h, if_pos (hid.trans h)]
  · rw [if_neg hid]

/-- The columns that must not be lost. -/
structure SameLog (r r' : SkillClusterRecord) : Prop where
  id : r'.id = r.id
  processed : r'.processedEpisodeIds = r.processedEpisodeIds
  skill : r'.skillMemoryId = r.skillMemoryId

theorem updateMeta_clusters (config : Clustering) (w : World) (job : String) (r : SkillClusterRecord)
    (onError : Option SkillClusterRecord) (reason : Option String) (now : ℕ) :
    (w.updateMetaSkill config job r onError reason now).clusters = w.clusters ∨
      ∃ r', SameLog r r' ∧
        (w.updateMetaSkill config job r onError reason now).clusters = (w.updateSkillCluster r').clusters := by
  unfold World.updateMetaSkill
  split_ifs
  · exact Or.inl rfl
  · refine Or.inr ⟨{ r with
      metaSkillMd := _
      updatedAt := now }, ⟨rfl, rfl, rfl⟩, rfl⟩

theorem update_updateMeta (config : Clustering) (w : World) (job : String) (r : SkillClusterRecord)
    (onError : Option SkillClusterRecord) (reason : Option String) (now : ℕ) : ∃ r', SameLog r r' ∧
      ((w.updateSkillCluster r).updateMetaSkill config job r onError reason now).clusters =
        (w.updateSkillCluster r').clusters := by
  rcases updateMeta_clusters config (w.updateSkillCluster r) job r onError reason now with
    hsame | ⟨r', hlog, hupdate⟩
  · exact ⟨r, ⟨rfl, rfl, rfl⟩, hsame⟩
  · exact ⟨r', hlog, hupdate.trans (update_update hlog.id.symm)⟩

/-- The stored row of a job that may write. -/
theorem stored_of_unchanged (h : Inv w) (hr : Unchanged w r) : ∀ c ∈ w.clusters, c.id = r.id →
    c.processedEpisodeIds = r.processedEpisodeIds ∧ c.skillMemoryId = r.skillMemoryId := by
  obtain ⟨d, hget, he⟩ := hr
  intro c hc hid
  obtain ⟨hd, hid'⟩ := getSkillCluster_mem hget
  obtain rfl := eq_of_id h.ids hc hd (hid.trans hid'.symm)
  rw [← he]
  exact ⟨rfl, rfl⟩

/-- A job that writes back what it has read loses nothing. -/
theorem kept_of_log (h : Inv w) (hr : Unchanged w r) (hlog : SameLog r r')
    (hstep : (step config w e).clusters = (w.updateSkillCluster r').clusters) : Kept config w e := by
  refine kept_of_update hstep fun c hc hid => ?_
  obtain ⟨hprocessed, hskill⟩ := stored_of_unchanged h hr c hc (hid.trans hlog.id)
  rw [hprocessed, hskill, hlog.processed, hlog.skill]
  exact ⟨fun _ hx => hx, fun _ => Or.inl rfl⟩

theorem processed_subset (h : Inv w) (hc : c ∈ w.clusters) (he : c.processedEpisodeIds = r.processedEpisodeIds)
    (top6 : List String) (now : ℕ) : c.processedEpisodeIds ⊆ (markProcessed r top6 now).processedEpisodeIds :=
  fun x hx => mem_uniqSorted_of_mem (mem_append_left _ (he ▸ hx)) (h.processed c hc x hx)

/-! ### Steps -/

variable {read : Evolving}

theorem existing_of_job (h : Inv w) (hjob : w.job job = some (.generating read)) :
    ∀ s, read.existingSkill = some s → read.cluster.skillMemoryId = some s := by
  obtain ⟨x, hx, he⟩ := Option.map_eq_some_iff.mp hjob
  exact h.reads x (mem_of_find?_eq_some hx) read he

theorem assign_clusters (config : Clustering) (w : World) (episode : EpisodeRecord) (f : EpisodeSkillFeatures)
    (id : String) (now : ℕ) :
    (∃ c ∈ w.clusters, (w.assign config episode f id now).clusters =
      (w.updateSkillCluster (w.refreshClusterFeatures c f now)).clusters) ∨
      (w.assign config episode f id now).clusters = w.clusters ++ [createCluster episode f id now] := by
  unfold World.assign
  cases hfor : w.clusterFor config episode f with
  | some c => exact Or.inl ⟨c, clusterFor_some hfor, (upsert_rest _ _).1⟩
  | none => exact Or.inr (upsert_rest _ _).1

theorem kept_assign (h : Inv w) (job : String) {episode : EpisodeRecord} {f : EpisodeSkillFeatures} {id : String} {now : ℕ}
    (hstep : (step config w e).clusters = ((w.endJob job).assign config episode f id now).clusters) :
    Kept config w e := by
  rcases assign_clusters config (w.endJob job) episode f id now with ⟨c, hc, hupdate⟩ | hcreate
  · refine kept_of_update (hstep.trans hupdate) fun d hd hid => ?_
    obtain rfl := eq_of_id h.ids hd hc hid
    exact ⟨fun _ hx => hx, fun _ => Or.inl rfl⟩
  · intro c hc
    rw [hstep, hcreate]
    exact ⟨c, mem_append_left _ hc, rfl, fun _ hx => hx, fun _ => Or.inl rfl⟩

theorem kept_beginEvolve (h : Inv w) (job clusterId : String) (usable : Bool) (now : ℕ)
    (hstep : (step config w e).clusters = (w.beginEvolve config job clusterId usable now).clusters) :
    Kept config w e := by
  unfold World.beginEvolve at hstep
  cases hget : w.getSkillCluster clusterId with
  | none =>
    rw [hget] at hstep
    exact kept_of_same hstep
  | some c =>
    rw [hget] at hstep
    obtain ⟨hc, -⟩ := getSkillCluster_mem hget
    simp only at hstep
    generalize (if usable then c.skillMemoryId else none) = existing at hstep
    generalize selectTop6Members config (w.scoredMembers config c.id) = top6 at hstep
    have hown : ∀ r, SameLog c r → ∀ d ∈ w.clusters, d.id = r.id →
        d.processedEpisodeIds ⊆ r.processedEpisodeIds ∧ d.skillMemoryId = r.skillMemoryId := fun r hlog d hd hid => by
      obtain rfl := eq_of_id h.ids hd hc (hid.trans hlog.id)
      exact ⟨fun x hx => hlog.processed.symm ▸ hx, hlog.skill.symm⟩
    have hmeta : ∀ onError reason, (step config w e).clusters =
        (w.updateMetaSkill config job c onError reason now).clusters → Kept config w e := by
      intro onError reason hstep
      rcases updateMeta_clusters config w job c onError reason now with hsame | ⟨r, hlog, hupdate⟩
      · exact kept_of_same (hstep.trans hsame)
      · refine kept_of_update (hstep.trans hupdate) fun d hd hid => ?_
        obtain ⟨hprocessed, hskill⟩ := hown r hlog d hd hid
        exact ⟨hprocessed, fun _ => Or.inl hskill.symm⟩
    by_cases hempty : top6.isEmpty = true
    · rw [if_pos hempty] at hstep
      exact kept_of_same hstep
    rw [if_neg hempty] at hstep
    have hgenerate : (step config w e).clusters =
        (if config.usesLlm then w.await job (.generating ⟨c, existing, top6.map (·.episodeId), now⟩)
          else w.updateMetaSkill config job c none (some "llm_disabled") now).clusters → Kept config w e := by
      intro hstep
      split_ifs at hstep
      · exact kept_of_same hstep
      · exact hmeta _ _ hstep
    cases hbranch : decideEvolveBranch existing.isSome (top6.map (·.outcome)) with
    | skipUnknownOnly =>
      rw [hbranch] at hstep
      exact hmeta _ _ hstep
    | skipNoSuccessAnchor =>
      rw [hbranch] at hstep
      obtain ⟨r, hlog, hupdate⟩ := update_updateMeta config w job
        (markProcessed c (top6.map (·.episodeId)) now) none (some "failure_only_no_skill") now
      refine kept_of_update (hstep.trans hupdate) fun d hd hid => ?_
      obtain rfl := eq_of_id h.ids hd hc (hid.trans hlog.id)
      refine ⟨?_, fun _ => Or.inl hlog.skill⟩
      rw [hlog.processed]
      exact processed_subset h hd rfl _ _
    | crystallize =>
      rw [hbranch] at hstep
      exact hgenerate hstep
    | rebuild =>
      rw [hbranch] at hstep
      exact hgenerate hstep

/-- The failed answer of a model that is there writes nothing. -/
theorem finishGenerate_failed {reason : String} (hllm : config.usesLlm = true) :
    (w.finishGenerate config job read (.failed reason)).clusters = w.clusters := by
  unfold World.finishGenerate World.updateMetaSkill
  simp only
  rw [if_pos hllm]
  rfl

theorem kept_finishGenerate (h : Inv w) {generated : Generated}
    (hjob : w.job job = some (.generating read)) (he : e = .finishGenerate job generated)
    (hheeded : (config.usesLlm = true ∧ ∃ reason, generated = .failed reason) ∨ Unchanged w read.cluster)
    (hstep : (step config w e).clusters = (w.finishGenerate config job read generated).clusters) :
    Kept config w e := by
  rcases hheeded with ⟨hllm, reason, rfl⟩ | hunchanged
  · exact kept_of_same (hstep.trans (finishGenerate_failed hllm))
  have hstored := stored_of_unchanged h hunchanged
  unfold World.finishGenerate at hstep
  cases generated with
  | failed reason =>
    rcases updateMeta_clusters config w job read.cluster none (some reason) read.now with hsame | ⟨r, hlog, hupdate⟩
    · exact kept_of_same (hstep.trans hsame)
    · exact kept_of_log h hunchanged hlog (hstep.trans hupdate)
  | rejected reason =>
    obtain ⟨r, hlog, hupdate⟩ := update_updateMeta config w job (markProcessed read.cluster read.top6 read.now)
      (some read.cluster) (some reason) read.now
    refine kept_of_update (hstep.trans hupdate) fun c hc hid => ?_
    obtain ⟨hprocessed, hskill⟩ := hstored c hc (hid.trans hlog.id)
    rw [hlog.processed, hlog.skill]
    exact ⟨processed_subset h hc hprocessed _ _, fun _ => Or.inl hskill.symm⟩
  | accepted memoryId =>
    generalize hnext : markProcessed read.cluster read.top6 read.now = next at hstep
    obtain ⟨r, hlog, hupdate⟩ := update_updateMeta config (w.updateSkillCluster next) job
      { next with skillMemoryId := some (read.skillMemoryId memoryId) } (some read.cluster) none read.now
    have hid₁ : next.id = r.id := hlog.id.symm
    refine kept_of_update (hstep.trans (hupdate.trans (update_update hid₁))) fun c hc hid => ?_
    have hid' : c.id = read.cluster.id := by
      rw [hid, hlog.id, ← hnext]
      rfl
    obtain ⟨hprocessed, hskill⟩ := hstored c hc hid'
    rw [hlog.processed, hlog.skill]
    refine ⟨?_, fun _ => ?_⟩
    · have hsubset := processed_subset h hc hprocessed read.top6 read.now
      rwa [hnext] at hsubset
    · simp only [Evolving.skillMemoryId]
      cases hexisting : read.existingSkill with
      | none => exact Or.inr ⟨job, memoryId, read, he, hjob, hid'.symm, hexisting, rfl⟩
      | some s => exact Or.inl ((existing_of_job h hjob s hexisting).symm.trans hskill.symm)

/-- **A step under the condition loses nothing.** -/
theorem kept_step (h : Inv w) (hheeded : Heeded config w e) : Kept config w e := by
  cases he : e with
  | episode episode => exact kept_of_same rfl
  | beginAssign job episodeId turns =>
    refine kept_of_same ?_
    simp only [step]
    split
    · split_ifs <;> rfl
    · rfl
  | finishAssign job queryVec newId now =>
    cases hjob : w.job job with
    | none => exact kept_of_same (by simp only [step, hjob])
    | some j =>
      cases j with
      | assigning episode turns =>
        by_cases hfresh : newId ∈ w.clusters.map (·.id)
        · exact kept_of_same (by simp only [step, hjob]; rw [if_pos hfresh])
        · exact kept_assign h job (by simp only [step, hjob]; rw [if_neg hfresh])
      | generating read => exact kept_of_same (by simp only [step, hjob])
      | updatingMeta c onError => exact kept_of_same (by simp only [step, hjob])
  | beginEvolve job clusterId usable now =>
    cases hjob : w.job job with
    | none => exact kept_beginEvolve h job clusterId usable now (by simp only [step, hjob])
    | some j => exact kept_of_same (by simp only [step, hjob])
  | finishGenerate job generated =>
    subst he
    cases hjob : w.job job with
    | none => exact kept_of_same (by simp only [step, hjob])
    | some j =>
      cases j with
      | assigning episode turns => exact kept_of_same (by simp only [step, hjob])
      | generating read =>
        exact kept_finishGenerate h hjob rfl (hheeded read hjob) (by simp only [step, hjob])
      | updatingMeta c onError => exact kept_of_same (by simp only [step, hjob])
  | finishMeta job content now =>
    subst he
    cases hjob : w.job job with
    | none => exact kept_of_same (by simp only [step, hjob])
    | some j =>
      cases j with
      | assigning episode turns => exact kept_of_same (by simp only [step, hjob])
      | generating read => exact kept_of_same (by simp only [step, hjob])
      | updatingMeta c onError =>
        obtain ⟨r, hlog, hupdate⟩ : ∃ r, SameLog c r ∧ (step config w (.finishMeta job content now)).clusters =
            (w.updateSkillCluster r).clusters := by
          simp only [step, hjob]
          exact ⟨{ c with
            metaSkillMd := _
            updatedAt := now }, ⟨rfl, rfl, rfl⟩, rfl⟩
        exact kept_of_log h (hheeded c onError hjob) hlog hupdate
  | failMeta job reason now =>
    subst he
    cases hjob : w.job job with
    | none => exact kept_of_same (by simp only [step, hjob])
    | some j =>
      cases j with
      | assigning episode turns => exact kept_of_same (by simp only [step, hjob])
      | generating read => exact kept_of_same (by simp only [step, hjob])
      | updatingMeta c onError =>
        cases onError with
        | none =>
          refine kept_of_same ?_
          simp only [step, hjob]
          rfl
        | some read =>
          have hstep : (step config w (.failMeta job reason now)).clusters =
              (w.updateMetaSkill config job read none (some reason) now).clusters := by
            simp only [step, hjob]
          rcases hheeded c read hjob with hllm | hunchanged
          · refine kept_of_same (hstep.trans ?_)
            unfold World.updateMetaSkill
            rw [if_pos hllm]
            rfl
          · rcases updateMeta_clusters config w job read none (some reason) now with hsame | ⟨r, hlog, hupdate⟩
            · exact kept_of_same (hstep.trans hsame)
            · exact kept_of_log h hunchanged hlog (hstep.trans hupdate)
  | crash job => exact kept_of_same rfl

theorem inv_empty : Inv {} where
  one := nodup_nil
  count := nofun
  covers := nofun
  mean := nofun
  ids := nodup_nil
  home := nofun
  logged := nofun
  tools := nofun
  artifacts := nofun
  processed := nofun
  reads := nofun

/-- **The rows are sound all along, and nothing is lost**, in every run whose assignments count a vector once
and whose jobs write rows back as they were read. -/
theorem sound_of_heeded (config : Clustering) (es : List Event)
    (hheeded : ∀ t ∈ taken (step config) {} es, Heeded config t.1 t.2) :
    (∀ w ∈ visited (step config) {} es, Sound w) ∧ ∀ t ∈ taken (step config) {} es, Kept config t.1 t.2 := by
  have hinv : ∀ w ∈ visited (step config) {} es, Inv w :=
    invariant_of_steps (fun _ _ h hp => inv_step h hp) es {} inv_empty hheeded
  refine ⟨fun w hw => (hinv w hw).toSound, fun t ht => ?_⟩
  exact kept_step (hinv t.1 (mem_visited_of_mem_taken _ ht)) (hheeded t ht)

/-! ### Stale rows -/

/-- Every episode fits every cluster. -/
def anyCluster : Clustering where
  scoreClusterJoin _ _ := some (1, 1 / 2)
  outcomeSuccess := 1 / 2
  outcomeFailure := -1 / 2
  batchSuccessLimit := 3
  batchFailureLimit := 3
  maxBatchSize := 6
  usesLlm := true

def succeeded (id : String) : EpisodeRecord := ⟨id, "user", none, some 1, 0, false⟩

/-- A turn that calls one tool. -/
def callsShell : Turn := ⟨["shell"], [], fun _ h => absurd h not_mem_nil⟩

/-- An episode that is assigned at once. -/
def assigned (episodeId : String) (vector : Vec) (newId : String) (now : ℕ) : List Event :=
  [.episode (succeeded episodeId), .beginAssign "assign" episodeId [callsShell],
    .finishAssign "assign" (some vector) newId now]

/-- The cluster learns, and nothing comes between. -/
def undisturbed : List Event :=
  assigned "first" [1] "cluster" 1 ++
    [.beginEvolve "evolve" "cluster" false 2, .finishGenerate "evolve" (.failed "timeout"),
      .finishMeta "evolve" (some "principles") 3]

/-- The row of the cluster is the one that was read. -/
def readAgain (w : World) : Bool :=
  match w.job "evolve" with
  | some (.updatingMeta r _) => (w.getSkillCluster r.id).any fun c =>
      { c with
        metaSkillMd := r.metaSkillMd
        updatedAt := r.updatedAt } = r
  | _ => true

theorem undisturbed_sound : (∀ w ∈ visited (step anyCluster) {} undisturbed, Sound w) ∧
    ∀ t ∈ taken (step anyCluster) {} undisturbed, Kept anyCluster t.1 t.2 := by
  have hread : readAgain (final (step anyCluster) {} (undisturbed.take 5)) = true := by decide +kernel
  refine sound_of_heeded anyCluster undisturbed ?_
  simp only [undisturbed, assigned, cons_append, nil_append, taken_cons, taken_nil, forall_mem_cons]
  refine ⟨trivial, trivial, fun episode turns _ c hc => ?_, trivial, fun read _ => Or.inl ⟨rfl, _, rfl⟩,
    fun r onError hjob => ?_, by simp⟩
  · have hmem : c ∈ (final (step anyCluster) {} (undisturbed.take 2)).clusters := clusterFor_some hc
    cases hmem
  · have hjob' : (final (step anyCluster) {} (undisturbed.take 5)).job "evolve" =
        some (.updatingMeta r onError) := hjob
    rw [readAgain, hjob'] at hread
    obtain ⟨c, hget, he⟩ := (Option.any_eq_true _ _).mp hread
    exact ⟨c, hget, of_decide_eq_true he⟩

/-- A second episode comes while the first model call of the cluster runs, and fails. -/
def disturbed : List Event :=
  assigned "first" [1] "cluster" 1 ++ [.beginEvolve "evolve" "cluster" false 2] ++
    assigned "second" [3] "other" 3 ++
    [.finishGenerate "evolve" (.failed "timeout"), .finishMeta "evolve" none 4]

/-- **The stale row** loses the second member. -/
theorem disturbed_not_sound : ¬ Sound (final (step anyCluster) {} disturbed) := by
  intro h
  have hcount : (final (step anyCluster) {} disturbed).clusters.any (fun c =>
      c.memberCount ≠ ((final (step anyCluster) {} disturbed).memberEpisodes c.id).length) = true := by
    decide +kernel
  obtain ⟨c, hc, hne⟩ := any_eq_true.mp hcount
  exact (of_decide_eq_true hne) (h.count c hc)

/-- An episode that is assigned again is counted twice: the mean of `1` and `3` is not `5 / 3`. -/
example : (final (step anyCluster) {} (assigned "first" [1] "cluster" 1 ++ assigned "second" [3] "other" 2 ++
    assigned "first" [1] "other" 3)).clusters.map (·.centroid) = [some [5 / 3]] := by
  decide +kernel

end Memmy.SkillClusters
