import Memmy.Skills.Pipeline

/-! # Skills: support is sound

`Supported` says what holds between the steps: a policy that was invalidated supports no Skill that can be
written and retrieved, until it is eligible again, and a Skill that an invalidation has suspended is not
retrieved.

* `Fine`: what the invariant says of a row.
* `Heeded`: the steps for which the code keeps it. A Skill that is suspended is read as a candidate, so it
  must not be read by a drift, a trial or a merge; an invalidation must reach all Skills of the policy; a
  draft must not bring back what was invalidated while the model answered.
* `Remaining`, `MergeKept`: what an invalidation leaves, and what a merge keeps.
* `support_sound`: all of it in every run of such steps. -/

namespace Memmy.Skills

open Lib.Newest Lib.Sort Lib.Run List Option

/-- **Support is sound** between two steps. -/
structure Supported (w : World) : Prop where
  clean : ∀ s ∈ w.skills, s.isLive = true → s.isReadOnly = false → ∀ p ∈ w.invalidated,
    p ∉ s.sourcePolicyIds ∧ ∀ st ∈ s.steps, p ∉ st.supportingPolicyIds
  held : ∀ s ∈ w.skills, s.id ∈ w.suspended → s.isLive = false

/-- The policy is eligible now. -/
def Eligible (w : World) (p : String) : Prop := (w.policies p).any (·.isEligible) = true

/-- What an invalidation leaves of a Skill that named the policy, if it can still be retrieved: sources
that are eligible, and steps that each have one of them. -/
def Remaining (t : TextRules) (config : SkillConfig) (w : World) (e : Event × ℕ) : Prop :=
  ∀ policyId, e.1 = .invalidate policyId → ∀ s ∈ w.skills, s.isLive = true → s.isReadOnly = false →
    policyId ∈ s.sourcePolicyIds → ∀ s' ∈ (step t config w e).skills, s'.id = s.id → s'.isLive = true →
      (∀ p ∈ s'.sourcePolicyIds, Eligible w p) ∧
        ∀ st ∈ s'.steps, ∃ p ∈ st.supportingPolicyIds, p ∈ s'.sourcePolicyIds ∧ Eligible w p

/-- The Skills that the beginning of a crystallization merges. -/
def merged (w : World) (policy : Policy) (skillId : Option String) (isFanout : Bool) (c : Compatibility) :
    List Skill :=
  let target := findTarget policy (targetSkillId policy skillId w.skills) w.skills
  if !policy.isEligible || fansOut policy skillId w.skills || target.isSome && isFanout then []
  else mergeCandidates c target (mutableSkillsForPolicy policy w.skills)

/-- A merge keeps the source policies of all merged Skills and no others, and each of their steps with the
policies that supported it. -/
def MergeKept (t : TextRules) (config : SkillConfig) (w : World) (e : Event × ℕ) : Prop :=
  ∀ policy userId skillId isFanout c inCooldown,
    e.1 = .beginCrystallization policy userId skillId isFanout c inCooldown →
    ∀ canonical other others, merged w policy skillId isFanout c = canonical :: other :: others →
      ∃ saved ∈ (step t config w e).skills, saved.id = canonical.id ∧
        (∀ p, p ∈ saved.sourcePolicyIds ↔ ∃ s ∈ canonical :: other :: others, p ∈ s.sourcePolicyIds) ∧
        ∀ s ∈ canonical :: other :: others, ∀ st ∈ s.steps, ∃ kept ∈ saved.steps,
          Covers t (st.withPolicySources s.sourcePolicyIds) kept

/-- The supports of the steps are among the source policies. -/
def Within (s : Skill) : Prop := ∀ st ∈ s.steps, ∀ p ∈ st.supportingPolicyIds, p ∈ s.sourcePolicyIds

/-- A Skill that may be written, in what the pipeline keeps of it: only a suspended one is stored as not
archived and yet not retrieved. -/
structure Written (s : Skill) : Prop where
  within : Within s
  agrees : s.stored ≠ .suspended → s.isDeleted = false → s.status ≠ .archived → s.isLive = true

/-- The rows that a run may start from. -/
structure Sound (skills : List Skill) : Prop where
  ids : (skills.map (·.id)).Nodup
  written : ∀ s ∈ skills, s.isReadOnly = false → Written s

/-- The steps for which support is kept. -/
def Heeded (w : World) (e : Event × ℕ) : Prop :=
  match e.1 with
  | .setPolicy _ _ => True
  | .invalidate policyId => ¬ Eligible w policyId ∧
      ∀ s ∈ w.skills, s.isLive = true → s.isReadOnly = false → policyId ∈ s.sourcePolicyIds →
        s ∈ listLiveSkills w.skills
  | .beginCrystallization policy _ skillId _ c _ =>
      ∀ s ∈ mutableSkillsForPolicy policy w.skills, s.stored = .suspended →
        c.skillPolicy s = false ∧ targetSkillId policy skillId w.skills ≠ some s.id
  | .finishCrystallization i _ => ∀ x, w.pending[i]? = some x →
      x.policy.id ∉ w.invalidated ∧ ∀ s, x.existing = some s → ∀ p ∈ s.sourcePolicyIds, p ∉ w.invalidated
  | .drift policyId _ => ∀ s ∈ skillsToDrift policyId w.skills, s.stored ≠ .suspended
  | .trial skillId _ _ => ∀ s, getSkill skillId w.skills = some s → s.stored ≠ .suspended

/-! ### Rows -/

section Rows
variable {f : Skill → Skill} {s s' : Skill} {skills written : List Skill} {policy : Policy}
variable {c : Compatibility} {target : Option Skill}

theorem mem_update (h : s' ∈ update s skills) : s' = s ∨ s' ∈ skills ∧ s'.id ≠ s.id := by
  obtain ⟨x, hx, rfl⟩ := mem_map.mp h
  by_cases hid : x.id = s.id
  · exact Or.inl (if_pos hid)
  · rw [if_neg hid]
    exact Or.inr ⟨hx, hid⟩

theorem mem_update_of_ne (h : s' ∈ skills) (hid : s'.id ≠ s.id) : s' ∈ update s skills :=
  mem_map.mpr ⟨s', h, if_neg hid⟩

theorem mem_update_self (h : s' ∈ skills) (hid : s'.id = s.id) : s ∈ update s skills :=
  mem_map.mpr ⟨s', h, if_pos hid⟩

theorem ids_update (s : Skill) (skills : List Skill) : (update s skills).map (·.id) = skills.map (·.id) := by
  unfold update
  rw [List.map_map]
  refine map_congr_left fun x _ => ?_
  simp only [Function.comp_apply]
  by_cases hid : x.id = s.id
  · rw [if_pos hid, hid]
  · rw [if_neg hid]

theorem ids_updateAll (f : Skill → Skill) : ∀ (written skills : List Skill),
    (updateAll f written skills).map (·.id) = skills.map (·.id)
  | [], _ => rfl
  | s :: written, skills => (ids_updateAll f written (update (f s) skills)).trans (ids_update (f s) skills)

theorem mem_updateAll (hf : ∀ s, (f s).id = s.id) : ∀ (written skills : List Skill),
    s' ∈ updateAll f written skills → (∃ s ∈ written, s' = f s) ∨ s' ∈ skills ∧ ∀ s ∈ written, s'.id ≠ s.id
  | [], _, h => Or.inr ⟨h, nofun⟩
  | s :: written, skills, h => by
    rcases mem_updateAll hf written (update (f s) skills) h with
      ⟨x, hx, he⟩ | ⟨hmem, hout⟩
    · exact Or.inl ⟨x, mem_cons_of_mem _ hx, he⟩
    · rcases mem_update hmem with he | ⟨hmem, hne⟩
      · exact Or.inl ⟨s, mem_cons_self, he⟩
      · refine Or.inr ⟨hmem, forall_mem_cons.mpr ⟨?_, hout⟩⟩
        rw [hf s] at hne
        exact hne

theorem mem_updateAll_of_ne (hf : ∀ s, (f s).id = s.id) : ∀ (written skills : List Skill), s' ∈ skills →
    (∀ s ∈ written, s'.id ≠ s.id) → s' ∈ updateAll f written skills
  | [], _, h, _ => h
  | s :: written, skills, h, hout => by
    obtain ⟨hne, hout⟩ := forall_mem_cons.mp hout
    refine mem_updateAll_of_ne hf written (update (f s) skills) (mem_update_of_ne h ?_) hout
    rw [hf s]
    exact hne

theorem eq_of_id (hids : (skills.map (·.id)).Nodup) (hs : s ∈ skills) (hs' : s' ∈ skills)
    (h : s.id = s'.id) : s = s' := inj_on_of_nodup_map hids hs hs' h

theorem mem_listSkills (h : s ∈ listSkills skills) : s ∈ skills ∧ s.isDeleted = false := by
  obtain ⟨hs, hd⟩ := mem_filter.mp (mem_of_mem_newest h)
  exact ⟨hs, by simpa using hd⟩

theorem mem_affectedSkills {p : String} (h : s ∈ affectedSkills p skills) :
    s ∈ skills ∧ s.isLive = true ∧ p ∈ s.sourcePolicyIds ∧ s.isReadOnly = false := by
  obtain ⟨hs, hp⟩ := mem_filter.mp h
  obtain ⟨hs, hlive⟩ := mem_filter.mp (mem_of_mem_newest hs)
  simp only [Bool.and_eq_true, decide_eq_true_eq, Bool.not_eq_true'] at hp
  exact ⟨hs, hlive, hp⟩

/-- What a merge may read. -/
structure Mutable (skills : List Skill) (s : Skill) : Prop where
  mem : s ∈ skills
  notDeleted : s.isDeleted = false
  notArchived : s.status ≠ .archived
  notReadOnly : s.isReadOnly = false

theorem mem_mutableSkillsForPolicy (h : s ∈ mutableSkillsForPolicy policy skills) : Mutable skills s := by
  obtain ⟨hs, hp⟩ := mem_filter.mp h
  simp only [Bool.and_eq_true, decide_eq_true_eq, Bool.not_eq_true'] at hp
  exact ⟨(mem_listSkills hs).1, (mem_listSkills hs).2, hp.1.2, hp.2⟩

theorem findTarget_some {id : Option String} (h : findTarget policy id skills = some s) :
    s ∈ mutableSkillsForPolicy policy skills ∧ id = some s.id := by
  obtain ⟨i, rfl, hfind⟩ := bind_eq_some_iff.mp h
  have hid := find?_some hfind
  exact ⟨mem_of_find?_eq_some hfind, by rw [of_decide_eq_true hid]⟩

theorem mem_mergeCandidates
    (htarget : ∀ x, target = some x → x ∈ skills) (h : s ∈ mergeCandidates c target skills) :
    s ∈ skills ∧ (c.skillPolicy s = true ∨ target = some s) := by
  unfold mergeCandidates at h
  simp only at h
  generalize hseed : target.or (sortBy compareSkillMergeTargets (skills.filter c.skillPolicy)).head? = seed at h
  cases seed with
  | none => cases h
  | some seed =>
    rcases mem_cons.mp ((mem_sortBy _).mp h) with rfl | hs
    · rcases or_eq_some_iff.mp hseed with ht | ⟨-, hhead⟩
      · exact ⟨htarget s ht, Or.inr ht⟩
      · obtain ⟨hmem, hc⟩ := mem_filter.mp ((mem_sortBy _).mp (mem_of_head? hhead))
        exact ⟨hmem, Or.inl hc⟩
    · obtain ⟨hmem, hc⟩ := mem_filter.mp hs
      simp only [Bool.and_eq_true] at hc
      exact ⟨hmem, Or.inl hc.1.2⟩

theorem nodup_mergeCandidates
    (hids : (skills.map (·.id)).Nodup) : ((mergeCandidates c target skills).map (·.id)).Nodup := by
  unfold mergeCandidates
  simp only
  cases target.or (sortBy compareSkillMergeTargets (skills.filter c.skillPolicy)).head? with
  | none => exact nodup_nil
  | some seed =>
    refine ((sortBy_perm compareSkillMergeTargets _).map _).nodup_iff.mpr ?_
    rw [map_cons, nodup_cons]
    refine ⟨fun hmem => ?_, hids.sublist (filter_sublist.map _)⟩
    obtain ⟨s, hs, hid⟩ := mem_map.mp hmem
    have hc := (mem_filter.mp hs).2
    simp only [Bool.and_eq_true, decide_eq_true_eq] at hc
    exact hc.1.1 hid

theorem nodup_mutableSkillsForPolicy (hids : (skills.map (·.id)).Nodup) :
    ((mutableSkillsForPolicy policy skills).map (·.id)).Nodup := by
  have hlisted : ((listSkills skills).map (·.id)).Nodup := by
    refine (((sortBy_perm (descending listOrder) _).map _).nodup_iff.mpr ?_).sublist
      ((take_sublist _ _).map _)
    exact hids.sublist (filter_sublist.map _)
  exact hlisted.sublist (filter_sublist.map _)

theorem mem_updateAll_written (hf : ∀ s, (f s).id = s.id) (hids : (skills.map (·.id)).Nodup)
    (hwritten : ∀ s ∈ written, s ∈ skills) (hs : s ∈ written) : f s ∈ updateAll f written skills := by
  have hid : s.id ∈ (updateAll f written skills).map (·.id) := by
    rw [ids_updateAll]
    exact mem_map_of_mem (hwritten s hs)
  obtain ⟨s', hs', he⟩ := mem_map.mp hid
  rcases mem_updateAll hf _ _ hs' with ⟨x, hx, rfl⟩ | ⟨-, hout⟩
  · have hx' := eq_of_id hids (hwritten x hx) (hwritten s hs) ((hf x).symm.trans he)
    rw [hx'] at hs'
    exact hs'
  · exact absurd he (hout s hs)

end Rows

/-! ### The invariant -/

/-- A row of a run: as the pipeline writes it, and without the policies that were invalidated if it can be
retrieved. -/
structure Fine (invalidated : List String) (s : Skill) : Prop where
  written : s.isReadOnly = false → Written s
  clean : s.isLive = true → s.isReadOnly = false → ∀ p ∈ invalidated, p ∉ s.sourcePolicyIds

structure FineRows (invalidated suspended : List String) (skills : List Skill) : Prop where
  ids : (skills.map (·.id)).Nodup
  fine : ∀ s ∈ skills, Fine invalidated s
  held : ∀ id ∈ suspended, ∃ s ∈ skills, s.id = id ∧ s.stored = .suspended ∧ s.isLive = false

structure Inv (w : World) : Prop where
  rows : FineRows w.invalidated w.suspended w.skills
  pending : ∀ x ∈ w.pending, ∀ s, x.existing = some s → Within s

section Writes
variable {invalidated suspended : List String} {f : Skill → Skill} {s s' : Skill} {skills written : List Skill}
variable {c : Compatibility} {current status : LifecycleStatus} {id : Option String} {policy : Policy}
variable {p : String} {policies : String → Option Policy}

theorem Fine.live (h : Fine invalidated s) (hnot : s.stored ≠ .suspended) (hdeleted : s.isDeleted = false)
    (harchived : s.status ≠ .archived) (hwritable : s.isReadOnly = false) : s.isLive = true :=
  (h.written hwritable).agrees hnot hdeleted harchived

section
variable (h : FineRows invalidated suspended skills)
include h

theorem FineRows.not_suspended (hs : s ∈ skills)
    (hnot : s.stored ≠ .suspended ∨ s.isLive = true) : s.id ∉ suspended := fun hid => by
  obtain ⟨x, hx, he, hstored, hlive⟩ := h.held s.id hid
  cases eq_of_id h.ids hx hs he
  rcases hnot with hnot | hnot
  · exact hnot hstored
  · rw [hlive] at hnot
    cases hnot

theorem FineRows.updateAll (hf : ∀ s, (f s).id = s.id)
    (hfine : ∀ s ∈ written, Fine invalidated (f s)) (hnot : ∀ s ∈ written, s.id ∉ suspended) :
    FineRows invalidated suspended (updateAll f written skills) where
  ids := by rw [ids_updateAll]; exact h.ids
  fine := fun s' hs' => by
    rcases mem_updateAll hf _ _ hs' with ⟨s, hs, rfl⟩ | ⟨hs', -⟩
    · exact hfine s hs
    · exact h.fine s' hs'
  held := fun id hid => by
    obtain ⟨s, hs, rfl, hstored⟩ := h.held id hid
    exact ⟨s, mem_updateAll_of_ne hf _ _ hs fun x hx he => hnot x hx (he ▸ hid), rfl, hstored⟩

theorem FineRows.update (hfine : Fine invalidated s)
    (hnot : s.id ∉ suspended) : FineRows invalidated suspended (update s skills) where
  ids := by rw [ids_update]; exact h.ids
  fine := fun s' hs' => by
    rcases mem_update hs' with rfl | ⟨hs', -⟩
    · exact hfine
    · exact h.fine s' hs'
  held := fun id hid => by
    obtain ⟨x, hx, rfl, hstored⟩ := h.held id hid
    exact ⟨x, mem_update_of_ne hx fun he => hnot (he ▸ hid), rfl, hstored⟩

theorem FineRows.insert (hfine : Fine invalidated s) : FineRows invalidated suspended (insert s skills) := by
  unfold Skills.insert
  by_cases htaken : skills.any (·.id = s.id) = true
  · rw [if_pos htaken]
    exact h
  rw [if_neg htaken]
  have hfresh : ∀ x ∈ skills, x.id ≠ s.id := fun x hx he =>
    htaken (any_eq_true.mpr ⟨x, hx, decide_eq_true he⟩)
  refine ⟨?_, fun s' hs' => ?_, fun id hid => ?_⟩
  · rw [map_append, nodup_append]
    refine ⟨h.ids, nodup_singleton _, fun a ha b hb he => ?_⟩
    obtain ⟨x, hx, rfl⟩ := mem_map.mp ha
    exact hfresh x hx (he.trans (mem_singleton.mp hb))
  · rcases mem_append.mp hs' with hs' | hs'
    · exact h.fine s' hs'
    · rw [mem_singleton.mp hs']
      exact hfine
  · obtain ⟨x, hx, hrest⟩ := h.held id hid
    exact ⟨x, mem_append_left _ hx, hrest⟩

end

/-! ### Drift and trials -/

theorem isLive_memoryStatus (h : s.memoryStatus = memoryStatusForSkillStatus status)
    (hne : status ≠ .archived) : s.isLive = true := by
  unfold Skill.isLive
  rw [h]
  cases status with
  | candidate => rfl
  | active => rfl
  | archived => exact absurd rfl hne

/-- New numbers do not bring a Skill back. -/
theorem Fine.withStats (h : Fine invalidated s) (hnot : s.stored ≠ .suspended) (hdeleted : s.isDeleted = false)
    (hstatus : status ≠ .archived → s.status ≠ .archived) (attempted passed now : ℕ) (eta : ℚ) :
    Fine invalidated (s.withStats attempted passed eta status now) where
  written := fun hw => ⟨(h.written hw).within, fun _ _ harchived => isLive_memoryStatus rfl harchived⟩
  clean := fun hlive hw => by
    refine h.clean (h.live hnot hdeleted (hstatus fun he => ?_) hw) hw
    subst he
    cases hlive

theorem skillStatusAfterRewardDrift_archived {eta archiveEta : ℚ}
    (h : skillStatusAfterRewardDrift current eta archiveEta ≠ .archived) : current ≠ .archived := by
  rintro rfl
  unfold skillStatusAfterRewardDrift at h
  simp at h

theorem skillStatusAfterTrial_archived {config : SkillConfig} {eta : ℚ} {attempted : ℕ} {repairOrigin : Bool}
    (h : skillStatusAfterTrial config current eta attempted repairOrigin ≠ .archived) :
    current ≠ .archived := by
  rintro rfl
  unfold skillStatusAfterTrial at h
  simp at h

theorem drifted_id (config : SkillConfig) (gain : ℚ) (now : ℕ) (s : Skill) :
    (s.drifted config gain now).id = s.id := by
  unfold Skill.drifted
  simp only
  split_ifs <;> rfl

theorem FineRows.drift (h : FineRows invalidated suspended skills) (config : SkillConfig)
    (hnot : ∀ s ∈ skillsToDrift p skills, s.stored ≠ .suspended) (gain : ℚ) (now : ℕ) :
    FineRows invalidated suspended (applySkillRewardDriftForPolicy config p gain now skills) := by
  have hread : ∀ s ∈ skillsToDrift p skills, s ∈ skills ∧ s.isDeleted = false := fun s hs =>
    mem_listSkills (mem_filter.mp hs).1
  refine h.updateAll (drifted_id config gain now) (fun s hs => ?_) fun s hs =>
    h.not_suspended (hread s hs).1 (Or.inl (hnot s hs))
  unfold Skill.drifted
  simp only
  split_ifs
  · exact h.fine s (hread s hs).1
  · exact (h.fine s (hread s hs).1).withStats (hnot s hs) (hread s hs).2
      skillStatusAfterRewardDrift_archived _ _ _ _

theorem FineRows.trial (h : FineRows invalidated suspended skills) (config : SkillConfig) {skillId : String}
    (hnot : ∀ s, getSkill skillId skills = some s → s.stored ≠ .suspended) (attempted passed now : ℕ) :
    FineRows invalidated suspended (updateSkillTrialStats config skillId attempted passed now skills) := by
  unfold updateSkillTrialStats
  cases hget : getSkill skillId skills with
  | none => exact h
  | some s =>
    have hs := mem_of_find?_eq_some hget
    have hdeleted := find?_some hget
    simp only [Bool.and_eq_true, Bool.not_eq_true'] at hdeleted
    have hid : s.id ∉ suspended := h.not_suspended hs (Or.inl (hnot s hget))
    exact h.update ((h.fine s hs).withStats (hnot s hget) hdeleted.2 skillStatusAfterTrial_archived _ _ _ _) hid

/-! ### Invalidation -/

theorem mem_activeIds :
    p ∈ s.activeIds policies ↔ p ∈ s.sourcePolicyIds ∧ (policies p).any (·.isEligible) = true := mem_filter

theorem invalidated_cases (policies : String → Option Policy) (now : ℕ) (s : Skill) :
    (∀ st ∈ (s.invalidated policies now).steps, st.supportingPolicyIds ≠ [] ∧
      ∀ p ∈ st.supportingPolicyIds, p ∈ s.activeIds policies) ∧
    ((s.invalidated policies now).stored = .suspended ∧ (s.invalidated policies now).isLive = false ∨
      (s.invalidated policies now).stored = .lifecycle s.status ∧
        (s.invalidated policies now).memoryStatus = memoryStatusForSkillStatus s.status) := by
  refine ⟨fun st hst => ?_, ?_⟩
  · obtain ⟨st₀, -, hkept⟩ := mem_filterMap.mp hst
    exact keptStep_supports hkept
  · unfold Skill.invalidated Skill.isLive
    simp only
    split_ifs
    · exact Or.inl ⟨rfl, rfl⟩
    · exact Or.inr ⟨rfl, rfl⟩

theorem Fine.invalidate (h : Fine invalidated s)
    (hp : ¬ (policies p).any (·.isEligible) = true) (hlive : s.isLive = true) (hw : s.isReadOnly = false)
    (now : ℕ) : Fine (p :: invalidated) (s.invalidated policies now) where
  written := fun _ => by
    obtain ⟨hsteps, hstored⟩ := invalidated_cases policies now s
    refine ⟨fun st hst q hq => (hsteps st hst).2 q hq, fun hnot _ harchived => ?_⟩
    rcases hstored with hsuspended | ⟨hstored, hstatus⟩
    · exact absurd hsuspended.1 hnot
    · refine isLive_memoryStatus hstatus fun he => harchived ?_
      unfold Skill.status at he ⊢
      rw [hstored, ← he]
      rfl
  clean := fun _ _ q hq hmem => by
    obtain ⟨hmem, heligible⟩ := mem_activeIds.mp hmem
    rcases mem_cons.mp hq with rfl | hq
    · exact hp heligible
    · exact h.clean hlive hw q hq hmem

theorem invalidated_id (policies : String → Option Policy) (now : ℕ) (s : Skill) :
    (s.invalidated policies now).id = s.id := rfl

/-- **An invalidation that reaches all Skills of the policy** leaves the policy in none of them. -/
theorem FineRows.invalidate (h : FineRows invalidated suspended skills)
    (hp : ¬ (policies p).any (·.isEligible) = true)
    (hreached : ∀ s ∈ skills, s.isLive = true → s.isReadOnly = false → p ∈ s.sourcePolicyIds →
      s ∈ listLiveSkills skills) (now : ℕ) :
    FineRows (p :: invalidated) (suspended ++ ((affectedSkills p skills).filter fun s =>
      (s.invalidated policies now).stored = .suspended).map (·.id))
      (invalidatePolicySource policies p now skills) where
  ids := by
    unfold invalidatePolicySource
    rw [ids_updateAll]
    exact h.ids
  fine := fun s' hs' => by
    rcases mem_updateAll (invalidated_id policies now) _ _ hs' with ⟨s, hs, rfl⟩ | ⟨hs, hout⟩
    · obtain ⟨hmem, hlive, -, hw⟩ := mem_affectedSkills hs
      exact (h.fine s hmem).invalidate hp hlive hw now
    · refine ⟨(h.fine s' hs).written, fun hlive hw q hq hmem => ?_⟩
      rcases mem_cons.mp hq with rfl | hq
      · refine hout s' (mem_filter.mpr ⟨hreached s' hs hlive hw hmem, ?_⟩) rfl
        simp [hmem, hw]
      · exact (h.fine s' hs).clean hlive hw q hq hmem
  held := fun id hid => by
    rcases mem_append.mp hid with hid | hid
    · obtain ⟨s, hs, rfl, hstored, hlive⟩ := h.held id hid
      refine ⟨s, mem_updateAll_of_ne (invalidated_id policies now) _ _ hs fun x hx he => ?_, rfl, hstored, hlive⟩
      obtain ⟨hx, hxlive, -, -⟩ := mem_affectedSkills hx
      rw [eq_of_id h.ids hs hx he, hxlive] at hlive
      cases hlive
    · obtain ⟨s, hs, rfl⟩ := mem_map.mp hid
      obtain ⟨hs, hstored⟩ := mem_filter.mp hs
      have hstored := of_decide_eq_true hstored
      refine ⟨s.invalidated policies now, mem_updateAll_written (invalidated_id policies now) h.ids
        (fun x hx => (mem_affectedSkills hx).1) hs, rfl, hstored, ?_⟩
      rcases (invalidated_cases policies now s).2 with hc | hc
      · exact hc.2
      · rw [hc.1] at hstored
        cases hstored

/-! ### Merges -/

variable {t : TextRules} {canonical : Skill} {candidates others : List Skill}

theorem mem_mergedFrom_sources {now : ℕ} :
    p ∈ (canonical.mergedFrom t candidates now).sourcePolicyIds ↔ ∃ s ∈ candidates, p ∈ s.sourcePolicyIds :=
  mem_uniq.trans mem_flatMap

/-- A Skill that is merged from fine ones that can be retrieved is fine, and can be retrieved. -/
theorem fine_mergedFrom (hcandidates : ∀ s ∈ candidates,
      Fine invalidated s ∧ s.isLive = true ∧ s.isReadOnly = false) (now : ℕ) :
    Fine invalidated (canonical.mergedFrom t candidates now) where
  written := fun _ => by
    refine ⟨fun st hst p hp => mem_mergedFrom_sources.mpr ?_, fun _ _ harchived => ?_⟩
    · obtain ⟨c, hc, hpc⟩ := merged_supports hst hp
      obtain ⟨s, hs, rfl⟩ := mem_map.mp hc
      refine ⟨s, hs, ?_⟩
      rcases hpc with hpc | ⟨st₀, hst₀, hps⟩
      · exact hpc
      · exact ((hcandidates s hs).1.written (hcandidates s hs).2.2).within st₀ hst₀ p hps
    · exact isLive_memoryStatus rfl harchived
  clean := fun _ _ p hp hmem => by
    obtain ⟨s, hs, hps⟩ := mem_mergedFrom_sources.mp hmem
    exact (hcandidates s hs).1.clean (hcandidates s hs).2.1 (hcandidates s hs).2.2 p hp hps

theorem Fine.alias (h : Fine invalidated s) (now : ℕ) : Fine invalidated (s.alias now) where
  written := fun hw => ⟨(h.written hw).within, fun _ _ harchived => absurd rfl harchived⟩
  clean := fun hlive => by
    cases hlive

theorem FineRows.merge (h : FineRows invalidated suspended skills)
    (hcandidates : ∀ s ∈ canonical :: others, s ∈ skills ∧ s.isLive = true ∧ s.isReadOnly = false) (now : ℕ) :
    FineRows invalidated suspended (Skills.updateAll (Skill.alias now) others
      (Skills.update (canonical.mergedFrom t (canonical :: others) now) skills)) := by
  have hid : ∀ s ∈ canonical :: others, s.id ∉ suspended := fun s hs =>
    h.not_suspended (hcandidates s hs).1 (Or.inr (hcandidates s hs).2.1)
  have hsaved : Fine invalidated (canonical.mergedFrom t (canonical :: others) now) :=
    fine_mergedFrom (fun s hs => ⟨h.fine s (hcandidates s hs).1, (hcandidates s hs).2⟩) now
  have hcanonical : (canonical.mergedFrom t (canonical :: others) now).id ∉ suspended :=
    hid canonical mem_cons_self
  exact (h.update hsaved hcanonical).updateAll (fun _ => rfl)
    (fun s hs => (h.fine s (hcandidates s (mem_cons_of_mem _ hs)).1).alias now)
    fun s hs => hid s (mem_cons_of_mem _ hs)

/-- What a consolidation does: it merges the candidates, if they are several. -/
theorem consolidate_cases (t : TextRules) (skills : List Skill) (c : Compatibility)
    (policy : Policy) (now : ℕ) (id : Option String) (allow : Bool) :
    let found := consolidateCompatibleSkillsForPolicy t c policy now id allow skills
    (found.1 = skills ∧ ∀ s, found.2 = some s → s ∈ mutableSkillsForPolicy policy skills) ∨
    ∃ canonical others, mergeCandidates c (findTarget policy id skills) (mutableSkillsForPolicy policy skills) =
        canonical :: others ∧
      found = (Skills.updateAll (Skill.alias now) others
        (Skills.update (canonical.mergedFrom t (canonical :: others) now) skills),
        some (canonical.mergedFrom t (canonical :: others) now)) := by
  have htarget : ∀ x, findTarget policy id skills = some x → x ∈ mutableSkillsForPolicy policy skills :=
    fun x hx => (findTarget_some hx).1
  unfold consolidateCompatibleSkillsForPolicy
  by_cases hkeep : (findTarget policy id skills).isSome ∧ (!allow) = true
  · rw [if_pos hkeep]
    exact Or.inl ⟨rfl, htarget⟩
  rw [if_neg hkeep]
  cases hcandidates : mergeCandidates c (findTarget policy id skills) (mutableSkillsForPolicy policy skills) with
  | nil => exact Or.inl ⟨rfl, nofun⟩
  | cons canonical others =>
    cases others with
    | nil =>
      refine Or.inl ⟨rfl, fun s hs => ?_⟩
      cases hs
      exact (mem_mergeCandidates htarget (hcandidates ▸ mem_cons_self)).1
    | cons other others => exact Or.inr ⟨canonical, other :: others, rfl, rfl⟩

theorem FineRows.read (h : FineRows invalidated suspended skills)
    (hnot : ∀ s ∈ mutableSkillsForPolicy policy skills, s.stored = .suspended →
      c.skillPolicy s = false ∧ id ≠ some s.id)
    (hs : s ∈ mergeCandidates c (findTarget policy id skills) (mutableSkillsForPolicy policy skills)) :
    s ∈ skills ∧ s.isLive = true ∧ s.isReadOnly = false := by
  obtain ⟨hmem, hwhy⟩ := mem_mergeCandidates (fun _ hx => (findTarget_some hx).1) hs
  have hm := mem_mutableSkillsForPolicy hmem
  refine ⟨hm.mem, (h.fine s hm.mem).live (fun hstored => ?_) hm.notDeleted hm.notArchived hm.notReadOnly,
    hm.notReadOnly⟩
  obtain ⟨hc, hid⟩ := hnot s hmem hstored
  rcases hwhy with hwhy | hwhy
  · rw [hc] at hwhy
    cases hwhy
  · exact hid (findTarget_some hwhy).2

theorem FineRows.consolidate (h : FineRows invalidated suspended skills)
    (hnot : ∀ s ∈ mutableSkillsForPolicy policy skills, s.stored = .suspended →
      c.skillPolicy s = false ∧ id ≠ some s.id) (now : ℕ) (allow : Bool) :
    let found := consolidateCompatibleSkillsForPolicy t c policy now id allow skills
    FineRows invalidated suspended found.1 ∧ ∀ s, found.2 = some s → Within s := by
  rcases consolidate_cases t skills c policy now id allow with
    ⟨hsame, hfound⟩ | ⟨canonical, others, hcandidates, hfound⟩
  · refine ⟨?_, fun s hs => ?_⟩
    · rw [hsame]
      exact h
    · have hm := mem_mutableSkillsForPolicy (hfound s hs)
      exact ((h.fine s hm.mem).written hm.notReadOnly).within
  · have hread : ∀ s ∈ canonical :: others, s ∈ skills ∧ s.isLive = true ∧ s.isReadOnly = false :=
      fun s hs => h.read hnot (hcandidates ▸ hs)
    simp only [hfound]
    refine ⟨h.merge hread now, fun s hs => ?_⟩
    cases hs
    have hsaved : Fine invalidated (canonical.mergedFrom t (canonical :: others) now) :=
      fine_mergedFrom (fun s hs => ⟨h.fine s (hread s hs).1, (hread s hs).2⟩) now
    exact (hsaved.written (hread canonical mem_cons_self).2.2).within

/-! ### Crystallization -/

theorem fine_crystallized {x : Pending} (hexisting : ∀ s, x.existing = some s → Within s)
    (hpolicy : x.policy.id ∉ invalidated)
    (hsources : ∀ s, x.existing = some s → ∀ p ∈ s.sourcePolicyIds, p ∉ invalidated) (d : Draft) (now : ℕ) :
    Fine invalidated (x.crystallized t d now) where
  written := fun _ => by
    refine ⟨fun st hst p hp => mem_uniq.mpr ?_, fun _ _ harchived => isLive_memoryStatus rfl harchived⟩
    obtain ⟨st₀, -, rfl⟩ := mem_map.mp hst
    rcases attachStep_supports hp with rfl | ⟨current, hc, hpc⟩
    · exact mem_cons_self
    · cases hex : x.existing with
      | none =>
        rw [hex] at hc
        cases hc
      | some s =>
        rw [hex] at hc
        exact mem_cons_of_mem _ (hexisting s hex current hc p hpc)
  clean := fun _ _ p hp hmem => by
    rcases mem_cons.mp (mem_uniq.mp hmem) with rfl | hmem
    · exact hpolicy hp
    · cases hex : x.existing with
      | none =>
        rw [hex] at hmem
        cases hmem
      | some s =>
        rw [hex] at hmem
        exact hsources s hex p hmem hp

theorem FineRows.upsert (h : FineRows invalidated suspended skills) (hfine : Fine invalidated s) :
    FineRows invalidated suspended (upsertEvolutionMemory s skills) := by
  unfold upsertEvolutionMemory
  cases hget : s.memoryKey.bind fun key => getByKey key skills with
  | none => exact h.insert hfine
  | some previous =>
    simp only
    by_cases harchived : previous.isArchived = true
    · rw [if_pos harchived]
      exact h.insert hfine
    rw [if_neg harchived]
    obtain ⟨key, -, hkey⟩ := bind_eq_some_iff.mp hget
    obtain ⟨hmem, hp⟩ := mem_filter.mp (mem_of_mem_newest (mem_of_head? hkey))
    simp only [Bool.and_eq_true, Bool.not_eq_true'] at hp
    -- the row is neither archived nor deleted
    have hlive : previous.isLive = true := by
      have hdeleted := hp.2
      unfold Skill.isArchived at harchived
      unfold Skill.isDeleted at hdeleted
      unfold Skill.isLive
      cases hstatus : previous.memoryStatus <;> simp_all
    have hid : previous.id ∉ suspended := h.not_suspended hmem (Or.inr hlive)
    exact h.update ⟨fun hw => ⟨(hfine.written hw).within, (hfine.written hw).agrees⟩, hfine.clean⟩ hid

end Writes

/-! ### Steps -/

section Steps
variable {t : TextRules} {config : SkillConfig} {w : World} {e : Event × ℕ} {skills : List Skill}

theorem inv_start (h : Sound skills) :
    Inv { skills := skills, policies := policies } where
  rows := ⟨h.ids, fun s hs => ⟨h.written s hs, fun _ _ _ hp => absurd hp not_mem_nil⟩,
    fun _ hid => absurd hid not_mem_nil⟩
  pending := fun _ hx => absurd hx not_mem_nil

theorem FineRows.fewer {invalidated' : List String}
    (h : FineRows invalidated suspended skills) (hsub : ∀ p ∈ invalidated', p ∈ invalidated) :
    FineRows invalidated' suspended skills where
  ids := h.ids
  fine := fun s hs => ⟨(h.fine s hs).written, fun hlive hw p hp => (h.fine s hs).clean hlive hw p (hsub p hp)⟩
  held := h.held

/-- **A step keeps support.** -/
theorem inv_step (h : Inv w) (hheeded : Heeded w e) : Inv (step t config w e) := by
  obtain ⟨e, now⟩ := e
  unfold step
  cases e with
  | setPolicy id policy =>
    refine ⟨h.rows.fewer fun p hp => ?_, h.pending⟩
    simp only at hp
    split_ifs at hp
    · exact (mem_filter.mp hp).1
    · exact hp
  | invalidate policyId => exact ⟨h.rows.invalidate hheeded.1 hheeded.2 now, h.pending⟩
  | beginCrystallization policy userId skillId isFanout c inCooldown =>
    simp only
    by_cases hskip : (!policy.isEligible || fansOut policy skillId w.skills) = true
    · rw [if_pos hskip]
      exact h
    rw [if_neg hskip]
    obtain ⟨hrows, hwithin⟩ := h.rows.consolidate (t := t) hheeded now (!isFanout)
    refine ⟨hrows, fun x hx s hs => ?_⟩
    split_ifs at hx
    · exact h.pending x hx s hs
    · rcases mem_append.mp hx with hx | hx
      · exact h.pending x hx s hs
      · rw [mem_singleton.mp hx] at hs
        exact hwithin s hs
  | finishCrystallization i draft =>
    have hrest : ∀ x ∈ w.pending.eraseIdx i, ∀ s, x.existing = some s → Within s :=
      fun x hx => h.pending x (mem_of_mem_eraseIdx hx)
    simp only
    cases hx : w.pending[i]? with
    | none => exact ⟨h.rows, hrest⟩
    | some x =>
      cases draft with
      | none => exact ⟨h.rows, hrest⟩
      | some d =>
        obtain ⟨hpolicy, hsources⟩ := hheeded x hx
        exact ⟨h.rows.upsert (fine_crystallized (h.pending x (mem_of_getElem? hx)) hpolicy hsources d now),
          hrest⟩
  | drift policyId gain => exact ⟨h.rows.drift config hheeded gain now, h.pending⟩
  | trial skillId attempted passed =>
    exact ⟨h.rows.trial config hheeded attempted passed now, h.pending⟩

theorem supported_of_inv (h : Inv w) : Supported w where
  clean := fun s hs hlive hw p hp => by
    have hfine := h.rows.fine s hs
    have hsource := hfine.clean hlive hw p hp
    exact ⟨hsource, fun st hst hmem => hsource ((hfine.written hw).within st hst p hmem)⟩
  held := fun s hs hid => by
    obtain ⟨x, hx, he, -, hlive⟩ := h.rows.held s.id hid
    rw [← eq_of_id h.rows.ids hx hs he]
    exact hlive

/-- **An invalidation leaves what is eligible.** -/
theorem remaining_step (h : Inv w) (hheeded : Heeded w e) : Remaining t config w e := by
  obtain ⟨e, now⟩ := e
  rintro policyId rfl s hs hlive hw hp s' hs' hid hlive'
  have haffected : s ∈ affectedSkills policyId w.skills :=
    mem_filter.mpr ⟨hheeded.2 s hs hlive hw hp, by simp [hp, hw]⟩
  have hs'' : s' = s.invalidated w.policies now := by
    rcases mem_updateAll (invalidated_id w.policies now) _ _ hs' with ⟨x, hx, rfl⟩ | ⟨-, hout⟩
    · rw [eq_of_id h.rows.ids (mem_affectedSkills hx).1 hs hid]
    · exact absurd hid (hout s haffected)
  subst hs''
  refine ⟨fun p hp => (mem_activeIds.mp hp).2, fun st hst => ?_⟩
  obtain ⟨hne, hactive⟩ := (invalidated_cases w.policies now s).1 st hst
  obtain ⟨p, hp⟩ := exists_mem_of_ne_nil _ hne
  exact ⟨p, hp, hactive p hp, (mem_activeIds.mp (hactive p hp)).2⟩

theorem mergeKept_step (hids : (w.skills.map (·.id)).Nodup) : MergeKept t config w e := by
  obtain ⟨e, now⟩ := e
  rintro policy userId skillId isFanout c inCooldown rfl canonical other others hmerged
  unfold merged at hmerged
  by_cases hskip : (!policy.isEligible || fansOut policy skillId w.skills ||
      (findTarget policy (targetSkillId policy skillId w.skills) w.skills).isSome && isFanout) = true
  · rw [if_pos hskip] at hmerged
    cases hmerged
  rw [if_neg hskip] at hmerged
  rw [Bool.or_eq_true, not_or] at hskip
  unfold step
  simp only
  rw [if_neg hskip.1]
  unfold consolidateCompatibleSkillsForPolicy
  rw [if_neg (by simpa using hskip.2), hmerged]
  have hnodup : ((mergeCandidates c (findTarget policy (targetSkillId policy skillId w.skills) w.skills)
      (mutableSkillsForPolicy policy w.skills)).map (·.id)).Nodup :=
    nodup_mergeCandidates (nodup_mutableSkillsForPolicy hids)
  rw [hmerged, map_cons, nodup_cons] at hnodup
  have hcanonical := mem_mergeCandidates (fun _ hx => (findTarget_some hx).1)
    (hmerged ▸ mem_cons_self : canonical ∈ _)
  have hsaved : canonical.mergedFrom t (canonical :: other :: others) now ∈
      update (canonical.mergedFrom t (canonical :: other :: others) now) w.skills :=
    mem_update_self (mem_mutableSkillsForPolicy hcanonical.1).mem rfl
  refine ⟨canonical.mergedFrom t (canonical :: other :: others) now,
    mem_updateAll_of_ne (f := Skill.alias now) (fun _ => rfl) _ _ hsaved fun s hs he => ?_, rfl,
    fun p => mem_mergedFrom_sources, fun s hs st hst => ?_⟩
  · exact hnodup.1 (mem_map.mpr ⟨s, hs, he.symm⟩)
  · exact merged_covers (mem_map_of_mem (f := fun s : Skill => (s.sourcePolicyIds, s.steps)) hs) hst

/-- **Support is sound** in every run of steps that heed it, from any sound rows. -/
theorem support_sound (t : TextRules) (config : SkillConfig) (skills : List Skill)
    (policies : String → Option Policy) (h : Sound skills) (es : List (Event × ℕ))
    (hheeded : ∀ r ∈ taken (step t config) { skills := skills, policies := policies } es, Heeded r.1 r.2) :
    (∀ w ∈ visited (step t config) { skills := skills, policies := policies } es, Supported w) ∧
      ∀ r ∈ taken (step t config) { skills := skills, policies := policies } es,
        Remaining t config r.1 r.2 ∧ MergeKept t config r.1 r.2 := by
  have hinv : ∀ w ∈ visited (step t config) { skills := skills, policies := policies } es, Inv w :=
    invariant_of_steps (I := Inv) (P := Heeded) (fun _ _ h he => inv_step h he) es _ (inv_start h) hheeded
  refine ⟨fun w hw => supported_of_inv (hinv w hw), fun r hr => ?_⟩
  have hr' := hinv r.1 (mem_visited_of_mem_taken (step t config) hr)
  exact ⟨remaining_step hr' (hheeded r hr), mergeKept_step hr'.rows.ids⟩

end Steps

/-! ### Examples -/

/-- Texts that need no cleaning. -/
def plainText : TextRules where
  skillText := id
  skillMarkdown := id
  normalizeSkillStepTitle := id
  stepHash := fun title body => title ++ body

/-- The defaults. -/
def usualConfig : SkillConfig where
  candidateTrials := 1
  minEtaForRetrieval := 1 / 10
  repairCandidateMinEta := 1 / 2
  archiveEta := 1 / 10

def examplePolicy (id : String) (status : PolicyStatus) : Policy where
  id := id
  userId := "user"
  status := status
  requiresRevalidation := false
  gain := 1 / 2

/-- Everything is compatible. -/
def allCompatible : Compatibility := ⟨fun _ => true, fun _ _ => true⟩

def exampleDraft (title : String) : Draft where
  steps := [(title, "as before")]
  stepsAllowed := true
  eta := 1 / 2
  id := "skill"
  memoryKey := "skill:key"

/-- A Skill of two policies loses one of them. -/
def losesOne : List (Event × ℕ) :=
  [ (.setPolicy "p" (some (examplePolicy "p" .active)), 1),
    (.beginCrystallization (examplePolicy "p" .active) "user" none false allCompatible false, 2),
    (.finishCrystallization 0 (some (exampleDraft "test")), 3),
    (.setPolicy "q" (some (examplePolicy "q" .active)), 4),
    (.beginCrystallization (examplePolicy "q" .active) "user" none false allCompatible false, 5),
    (.finishCrystallization 0 (some (exampleDraft "deploy")), 6),
    (.setPolicy "p" (some (examplePolicy "p" .quarantined)), 7),
    (.invalidate "p", 8),
    (.drift "q" (1 / 4), 9) ]

/-- A decidable form of the condition on the answer of the model. -/
theorem heeded_finish {i : ℕ} {d : Option Draft} {now : ℕ}
    (h : (w.pending[i]?).all (fun x => decide (x.policy.id ∉ w.invalidated) &&
      x.existing.all fun s => s.sourcePolicyIds.all (· ∉ w.invalidated)) = true) :
    Heeded w (.finishCrystallization i d, now) := fun x hx => by
  rw [hx] at h
  simp only [all_some, Bool.and_eq_true, decide_eq_true_eq] at h
  refine ⟨h.1, fun s hs p hp => ?_⟩
  have hsources := h.2
  rw [hs] at hsources
  exact of_decide_eq_true (all_eq_true.mp hsources p hp)

theorem losesOne_sound :
    (∀ w ∈ visited (step plainText usualConfig) {} losesOne, Supported w) ∧
      ∀ r ∈ taken (step plainText usualConfig) {} losesOne,
        Remaining plainText usualConfig r.1 r.2 ∧ MergeKept plainText usualConfig r.1 r.2 :=
  support_sound plainText usualConfig [] (fun _ => none)
    ⟨nodup_nil, nofun⟩ losesOne (by
      simp only [losesOne, taken_cons, taken_nil, forall_mem_cons]
      refine ⟨trivial, ?_, heeded_finish (by decide +kernel), trivial, ?_, heeded_finish (by decide +kernel),
        trivial, ?_, ?_, nofun⟩
      · unfold Heeded
        decide +kernel
      · unfold Heeded
        decide +kernel
      · unfold Heeded Eligible
        decide +kernel
      · unfold Heeded
        decide +kernel)

/-- A Skill loses its only policy, and then a trial of it is resolved. -/
def triedAfterSuspension : List (Event × ℕ) :=
  [ (.setPolicy "p" (some (examplePolicy "p" .active)), 1),
    (.beginCrystallization (examplePolicy "p" .active) "user" none false allCompatible false, 2),
    (.finishCrystallization 0 (some (exampleDraft "test")), 3),
    (.setPolicy "p" (some (examplePolicy "p" .quarantined)), 4),
    (.invalidate "p", 5),
    (.trial "skill" 1 1, 6) ]

/-- **The suspended Skill is retrieved again**: the trial reads it as a candidate. -/
theorem triedAfterSuspension_revived :
    ¬ ∀ es : List (Event × ℕ), ∀ w ∈ visited (step plainText usualConfig) {} es, Supported w := fun h => by
  have hlast : final (step plainText usualConfig) {} triedAfterSuspension ∈
      visited (step plainText usualConfig) {} triedAfterSuspension := final_mem_visited _ _ _
  have hheld := (h triedAfterSuspension _ hlast).held
  exact absurd hheld (by decide +kernel)

end Memmy.Skills
