import Mathlib.Algebra.Order.Field.Basic
import Mathlib.Tactic.Linarith
import Mathlib.Tactic.Ring
import Memmy.Skills.Pipeline

/-! # Trials of a Skill

A use of a Skill is a pending trial. A job, or a reward of the episode, resolves it once; after each outcome that
is known, the trials of the Skill are counted anew and its eta is recomputed from the stored eta and counts. The
drift moves eta without a trial.

* `Inv`, `inv_step`: the counts of the Skill are those of the table.
* `eta_pass`, `eta_fail`, `eta_posterior`: what **a counted outcome** does to eta.
* `Heeded`: a step counts no trial beyond the newest 1000, the drift has not carried eta too far from what the
  trials allow, and an archived Skill is stored as such.
* `kept_of_heeded`: in runs whose steps heed this the statistics are right. -/

namespace Memmy.Skills.Trials

open Lib.Run Lib.Newest List

inductive TrialStatus
  | pending
  | pass
  | fail
  | unknown
deriving DecidableEq

inductive Outcome
  | unknown
  | success
  | failure
  | cancelled
deriving DecidableEq

structure Trial where
  id : String
  skillMemoryId : String
  episodeId : String
  createdAt : ℕ
  status : TrialStatus
  outcome : Outcome
deriving DecidableEq

def skillTrialStatusFromOutcome : Outcome → TrialStatus
  | .success => .pass
  | .failure => .fail
  | .cancelled => .fail
  | .unknown => .unknown

/-- `ORDER BY created_at DESC LIMIT ?` -/
def listSkillTrials (p : Trial → Bool) (limit : ℕ) (trials : List Trial) : List Trial :=
  newest (·.createdAt) limit (trials.filter p)

/-- `updateSkillTrial`, of the trial with the outcome. -/
def updateSkillTrial (trial : Trial) (outcome : Outcome) (trials : List Trial) : List Trial :=
  trials.map fun r =>
    if r.id = trial.id then
      { r with
        status := skillTrialStatusFromOutcome outcome
        outcome := outcome }
    else r

structure State where
  skill : Skill
  trials : List Trial := []

inductive Event
  | use (id skillMemoryId episodeId : String) (createdAt : ℕ)
  | drift (gain : ℚ) (now : ℕ)
  /-- `resolveSkillTrial`, with the outcome if there is one; a reward is one step for each of its pending trials. -/
  | resolve (trialId : String) (outcome : Option Outcome) (now : ℕ)
deriving DecidableEq

/-- The trial that a step resolves. -/
def resolution (s : State) : Event → Option (Trial × Outcome)
  | .resolve trialId outcome _ =>
    ((s.trials.find? fun r => r.id = trialId).filter fun r => r.status = .pending).bind fun r => outcome.map (r, ·)
  | _ => none

variable (config : SkillConfig)

def State.updateSkillTrialStats (s : State) (now : ℕ) : State :=
  if s.skill.isDeleted then s
  else
    let trials := (listSkillTrials (·.skillMemoryId = s.skill.id) 1000 s.trials).filter (·.outcome ≠ .unknown)
    { s with skill := s.skill.tried config trials.length (trials.filter (·.outcome = .success)).length now }

def State.resolved (s : State) (trial : Trial) (outcome : Outcome) (now : ℕ) : State :=
  let s := { s with trials := updateSkillTrial trial outcome s.trials }
  if outcome ≠ .unknown ∧ trial.skillMemoryId = s.skill.id then s.updateSkillTrialStats config now else s

def step (s : State) (e : Event) : State :=
  match e with
  | .use id skillMemoryId episodeId createdAt =>
    if (skillMemoryId = s.skill.id → s.skill.isLive = true) ∧ (∀ r ∈ s.trials, r.id ≠ id) ∧
        ∀ r ∈ s.trials, ¬ (r.skillMemoryId = skillMemoryId ∧ r.episodeId = episodeId ∧ r.status = .pending) then
      { s with trials := s.trials ++ [{
          id := id
          skillMemoryId := skillMemoryId
          episodeId := episodeId
          createdAt := createdAt
          status := .pending
          outcome := .unknown }] }
    else s
  | .drift gain now =>
    if s.skill.isDeleted = false then { s with skill := s.skill.drifted config gain now } else s
  | .resolve _ _ now =>
    match resolution s e with
    | some (trial, outcome) => s.resolved config trial outcome now
    | none => s

/-! ### The property -/

/-- The resolved trials of the Skill whose outcome is known. -/
def State.attempted (s : State) : ℕ := s.trials.countP fun r => r.skillMemoryId = s.skill.id ∧ r.outcome ≠ .unknown

def State.passed (s : State) : ℕ := s.trials.countP fun r => r.skillMemoryId = s.skill.id ∧ r.outcome = .success

/-- The step resolves a trial of the Skill, with an outcome that is known. -/
def Counts (s : State) (e : Event) (trial : Trial) (outcome : Outcome) : Prop :=
  resolution s e = some (trial, outcome) ∧ trial.skillMemoryId = s.skill.id ∧ outcome ≠ .unknown

def Event.IsDrift : Event → Prop
  | .drift _ _ => True
  | _ => False

/-- A Skill that has not been tried. -/
structure Fresh (s : State) : Prop where
  ids : (s.trials.map Trial.id).Nodup
  pending : ∀ r ∈ s.trials, r.status = .pending → r.outcome = .unknown
  untried : ∀ r ∈ s.trials, r.skillMemoryId = s.skill.id → r.outcome = .unknown
  present : s.skill.isDeleted = false
  attempted : s.skill.trialsAttempted = 0
  passed : s.skill.trialsPassed = 0
  prior : 0 ≤ s.skill.eta ∧ s.skill.eta ≤ 1

/-- **A step is right**: a passed trial does not lower eta and a failed one does not raise it, what is resolved
stays as it is, and so does a Skill that is archived. -/
structure StepKept (s : State) (e : Event) : Prop where
  pass : ∀ r, Counts s e r .success → s.skill.eta ≤ (step config s e).skill.eta
  fail : ∀ r o, Counts s e r o → o ≠ .success → (step config s e).skill.eta ≤ s.skill.eta
  once : ∀ r ∈ s.trials, r.status ≠ .pending → r ∈ (step config s e).trials
  archived : s.skill.memoryStatus = .archived → (step config s e).skill.memoryStatus = .archived

/-- **The property** of a run. -/
structure Kept (s₀ : State) (es : List Event) : Prop where
  counted : ∀ s ∈ visited (step config) s₀ es,
    s.skill.trialsAttempted = s.attempted ∧ s.skill.trialsPassed = s.passed
  posterior : (∀ e ∈ es, ¬ e.IsDrift) → ∀ s ∈ visited (step config) s₀ es,
    s.skill.eta = (s₀.skill.eta + s.passed) / (1 + s.attempted)
  steps : ∀ t ∈ taken (step config) s₀ es, StepKept config t.1 t.2

/-! ### The condition -/

/-- The counted trials of the Skill are among its newest 1000 trials. -/
def Recent (skillId : String) (trials : List Trial) : Prop :=
  ∀ r ∈ trials, r.skillMemoryId = skillId → r.outcome ≠ .unknown →
    r ∈ listSkillTrials (·.skillMemoryId = skillId) 1000 trials

/-- **What a step is taken in**: with all counted trials in reach, eta not above (below) what it is after a pass
(failure) from the greatest (least) prior, and no archived Skill whose own status is another one. -/
structure Heeded (s : State) (e : Event) : Prop where
  recent : ∀ r o, Counts s e r o → Recent s.skill.id (updateSkillTrial r o s.trials)
  pass : ∀ r, Counts s e r .success → s.skill.eta * (s.attempted + 2) ≤ s.passed + 2
  fail : ∀ r o, Counts s e r o → o ≠ .success → s.passed ≤ s.skill.eta * (s.attempted + 2)
  archived : (e.IsDrift ∨ ∃ r o, Counts s e r o) → s.skill.memoryStatus = .archived →
    s.skill.stored = .lifecycle .archived

/-! ### Eta -/

section Eta
variable {eta prior : ℚ} {n p : ℕ}

theorem clamp01_bounds (x : ℚ) : 0 ≤ clamp01 x ∧ clamp01 x ≤ 1 :=
  ⟨le_max_left _ _, max_le zero_le_one (min_le_left _ _)⟩

theorem clamp01_eq {x : ℚ} (h : 0 ≤ x ∧ x ≤ 1) : clamp01 x = x := by
  unfold clamp01
  rw [min_eq_right h.2, max_eq_right h.1]

/-- **One more trial**, with `d` more passes. -/
theorem skillEtaAfterTrial_succ (eta : ℚ) {d : ℕ} (hp : p ≤ n) (hd : d ≤ 1) :
    skillEtaAfterTrial eta n p (n + 1) (p + d) = (clamp01 (eta * (1 + n) - p) + p + d) / (n + 2) := by
  have hd' : (d : ℚ) ≤ 1 := by exact_mod_cast hd
  have hp' : (p : ℚ) ≤ n := by exact_mod_cast hp
  have hn : (0 : ℚ) < n + 2 := by positivity
  obtain ⟨hlow, hhigh⟩ := clamp01_bounds (eta * (1 + n) - p)
  unfold skillEtaAfterTrial
  dsimp only
  rw [min_eq_left hp, max_eq_right (Nat.le_succ n), min_eq_left (Nat.add_le_add hp hd)]
  push_cast
  rw [show (1 : ℚ) + (n + 1) = n + 2 by ring, show clamp01 (eta * (1 + n) - p) + ((p : ℚ) + d) =
    clamp01 (eta * (1 + n) - p) + p + d by ring]
  refine clamp01_eq ⟨div_nonneg ?_ hn.le, (div_le_one hn).mpr ?_⟩
  · positivity
  · linarith

/-- **A pass does not lower eta** that is not above what a pass can lead to. -/
theorem eta_pass (hp : p ≤ n) (h : eta * (n + 2) ≤ p + 2) : eta ≤ skillEtaAfterTrial eta n p (n + 1) (p + 1) := by
  have hn : (0 : ℚ) < n + 2 := by positivity
  have hp' : (p : ℚ) ≤ n := by exact_mod_cast hp
  have hone : eta ≤ 1 := by
    by_contra hgt
    have hmul := mul_lt_mul_of_pos_right (not_le.mp hgt) hn
    linarith
  rw [skillEtaAfterTrial_succ eta hp le_rfl, le_div_iff₀ hn]
  push_cast
  unfold clamp01
  rcases le_total (eta * (1 + n) - p) 1 with hle | hge
  · rw [min_eq_right hle]
    have hmax := le_max_right 0 (eta * (1 + n) - p)
    linarith
  · rw [min_eq_left hge, max_eq_right zero_le_one]
    linarith

/-- **A failure does not raise eta** that is not below what a failure can lead to. -/
theorem eta_fail (hp : p ≤ n) (h : p ≤ eta * (n + 2)) : skillEtaAfterTrial eta n p (n + 1) p ≤ eta := by
  have hn : (0 : ℚ) < n + 2 := by positivity
  have hzero : 0 ≤ eta := by
    by_contra hlt
    have hmul := mul_neg_of_neg_of_pos (not_le.mp hlt) hn
    have hp' : (0 : ℚ) ≤ p := by positivity
    linarith
  have hsucc := skillEtaAfterTrial_succ eta (d := 0) hp zero_le_one
  rw [Nat.add_zero, Nat.cast_zero, add_zero] at hsucc
  rw [hsucc, div_le_iff₀ hn]
  unfold clamp01
  rcases le_total (eta * (1 + n) - p) 0 with hle | hge
  · rw [max_eq_left (le_trans (min_le_right _ _) hle)]
    linarith
  · rw [max_eq_right (le_min zero_le_one hge)]
    have hmin := min_le_right 1 (eta * (1 + n) - p)
    linarith

/-- **Without drift** eta is that of the first prior with all trials. -/
theorem eta_posterior {d : ℕ} (hp : p ≤ n) (hd : d ≤ 1) (hprior : 0 ≤ prior ∧ prior ≤ 1)
    (h : eta = (prior + p) / (1 + n)) :
    skillEtaAfterTrial eta n p (n + 1) (p + d) = (prior + (p + d : ℕ)) / (1 + (n + 1 : ℕ)) := by
  have hn : (1 + n : ℚ) ≠ 0 := by positivity
  rw [skillEtaAfterTrial_succ eta hp hd, h, div_mul_cancel₀ _ hn, add_sub_cancel_right, clamp01_eq hprior]
  push_cast
  ring

end Eta

/-! ### The table -/

section Table
variable {trials : List Trial} {r : Trial} {o : Outcome} {p : Trial → Bool}

theorem ids_updateSkillTrial (r : Trial) (o : Outcome) (trials : List Trial) :
    (updateSkillTrial r o trials).map Trial.id = trials.map Trial.id := by
  unfold updateSkillTrial
  rw [map_map]
  refine map_congr_left fun x _ => ?_
  rw [Function.comp_apply]
  split_ifs <;> rfl

/-- **One row changes**, which was not counted. -/
theorem countP_updateSkillTrial (hp : p r = false) : ∀ {trials : List Trial},
    (trials.map Trial.id).Nodup → r ∈ trials → (updateSkillTrial r o trials).countP p =
      trials.countP p + if p { r with status := skillTrialStatusFromOutcome o, outcome := o } then 1 else 0
  | [], _, hr => absurd hr not_mem_nil
  | x :: trials, hids, hr => by
    obtain ⟨hx, hids⟩ := nodup_cons.mp hids
    unfold updateSkillTrial
    rw [map_cons, countP_cons, countP_cons]
    rcases mem_cons.mp hr with rfl | hr
    · have hrest : updateSkillTrial r o trials = trials := by
        conv_rhs => rw [← map_id trials]
        exact map_congr_left fun y hy => if_neg fun he => hx (mem_map.mpr ⟨y, hy, he⟩)
      unfold updateSkillTrial at hrest
      rw [hrest, if_pos rfl, hp]
      rfl
    · have hne : x.id ≠ r.id := fun he => hx (he ▸ mem_map_of_mem hr)
      have ih := countP_updateSkillTrial hp hids hr
      unfold updateSkillTrial at ih
      rw [if_neg hne, ih]
      omega

theorem length_listed {skillId : String} (hids : (trials.map Trial.id).Nodup)
    (hrecent : Recent skillId trials) (hp : ∀ x, p x = true → x.outcome ≠ .unknown) :
    (listSkillTrials (·.skillMemoryId = skillId) 1000 trials).countP p =
      trials.countP fun x => x.skillMemoryId = skillId ∧ p x = true := by
  unfold listSkillTrials
  rw [countP_newest ((List.Nodup.of_map _ hids).filter _), countP_filter]
  · refine countP_congr fun x _ => ?_
    simp [and_comm]
  · intro x hx hpx
    obtain ⟨hx, hid⟩ := mem_filter.mp hx
    exact hrecent x hx (of_decide_eq_true hid) (hp x hpx)

end Table

/-! ### Steps -/

/-- **The invariant.** -/
structure Inv (s : State) : Prop where
  ids : (s.trials.map Trial.id).Nodup
  pending : ∀ r ∈ s.trials, r.status = .pending → r.outcome = .unknown
  present : s.skill.isDeleted = false
  attempted : s.skill.trialsAttempted = s.attempted
  passed : s.skill.trialsPassed = s.passed

section Steps
variable {s : State} {e : Event} {r : Trial} {o : Outcome} {now : ℕ}

theorem passed_le_attempted (s : State) : s.passed ≤ s.attempted :=
  countP_mono_left fun r _ h => by
    obtain ⟨hid, ho⟩ := of_decide_eq_true h
    exact decide_eq_true ⟨hid, fun he => by rw [ho] at he; cases he⟩

theorem inv_fresh (h : Fresh s) : Inv s where
  ids := h.ids
  pending := h.pending
  present := h.present
  attempted := by
    refine h.attempted.trans (countP_eq_zero.mpr fun r hr hp => ?_).symm
    exact (of_decide_eq_true hp).2 (h.untried r hr (of_decide_eq_true hp).1)
  passed := by
    refine h.passed.trans (countP_eq_zero.mpr fun r hr hp => ?_).symm
    obtain ⟨hid, ho⟩ := of_decide_eq_true hp
    rw [h.untried r hr hid] at ho
    cases ho

theorem isDeleted_memoryStatus {skill : Skill} {status : LifecycleStatus}
    (h : skill.memoryStatus = memoryStatusForSkillStatus status) : skill.isDeleted = false := by
  unfold Skill.isDeleted
  rw [h]
  cases status <;> rfl

theorem resolution_some (hr : resolution s e = some (r, o)) : r ∈ s.trials ∧ r.status = .pending ∧
    ∃ now, step config s e = s.resolved config r o now := by
  have hstep := hr
  cases e with
  | resolve trialId outcome now =>
    obtain ⟨x, hx, ho⟩ := Option.bind_eq_some_iff.mp hr
    obtain ⟨hfound, hpending⟩ := Option.filter_eq_some_iff.mp hx
    obtain ⟨o', -, he⟩ := Option.map_eq_some_iff.mp ho
    obtain ⟨rfl, rfl⟩ := Prod.ext_iff.mp he
    refine ⟨mem_of_find?_eq_some hfound, of_decide_eq_true hpending, now, ?_⟩
    unfold step
    rw [hstep]
  | use id skillMemoryId episodeId createdAt => cases hr
  | drift gain now => cases hr

/-- The statistics after a trial that does not count. -/
theorem skill_resolved_of_not (h : ¬ (o ≠ .unknown ∧ r.skillMemoryId = s.skill.id)) :
    s.resolved config r o now = { s with trials := updateSkillTrial r o s.trials } := by
  exact if_neg h

theorem attempted_updateSkillTrial (h : Inv s) (hr : r ∈ s.trials) (hpending : r.status = .pending) :
    (({ s with trials := updateSkillTrial r o s.trials } : State).attempted =
      s.attempted + if r.skillMemoryId = s.skill.id ∧ o ≠ .unknown then 1 else 0) ∧
    (({ s with trials := updateSkillTrial r o s.trials } : State).passed =
      s.passed + if r.skillMemoryId = s.skill.id ∧ o = .success then 1 else 0) := by
  have hunknown := h.pending r hr hpending
  constructor
  · refine (countP_updateSkillTrial (by simp [hunknown]) h.ids hr).trans ?_
    simp [State.attempted]
  · refine (countP_updateSkillTrial (by simp [hunknown]) h.ids hr).trans ?_
    simp [State.passed]

theorem skill_resolved (h : Inv s) (hr : r ∈ s.trials) (hpending : r.status = .pending)
    (hid : r.skillMemoryId = s.skill.id)
    (ho : o ≠ .unknown) (hrecent : Recent s.skill.id (updateSkillTrial r o s.trials)) :
    s.resolved config r o now =
      { s with
        trials := updateSkillTrial r o s.trials
        skill := s.skill.tried config (s.attempted + 1) (s.passed + if o = .success then 1 else 0) now } := by
  have hids : ((updateSkillTrial r o s.trials).map Trial.id).Nodup := by
    rw [ids_updateSkillTrial]
    exact h.ids
  obtain ⟨hattempted, hpassed⟩ := @attempted_updateSkillTrial s r o h hr hpending
  unfold State.resolved
  rw [if_pos ⟨ho, hid⟩]
  unfold State.updateSkillTrialStats
  dsimp only
  rw [if_neg (by rw [h.present]; exact Bool.false_ne_true), filter_filter, ← countP_eq_length_filter,
    ← countP_eq_length_filter, length_listed hids hrecent fun x hx => of_decide_eq_true hx,
    length_listed hids hrecent fun x hx => by simpa using (Bool.and_eq_true_iff.mp hx).2]
  have hboth : ∀ x : Trial, (x.outcome = .success ∧ x.outcome ≠ .unknown) ↔ x.outcome = .success :=
    fun x => and_iff_left_of_imp fun he hu => by rw [he] at hu; cases hu
  simp only [decide_eq_true_eq, Bool.and_eq_true, hboth]
  rw [show List.countP _ _ = s.attempted + 1 from hattempted.trans (by rw [if_pos ⟨hid, ho⟩]),
    show List.countP _ _ = _ from hpassed]
  simp only [hid, true_and]

theorem tried_eta (skill : Skill) {attempted : ℕ} (h : 0 < attempted) (passed now : ℕ) :
    (skill.tried config attempted passed now).eta =
      skillEtaAfterTrial skill.eta skill.trialsAttempted skill.trialsPassed attempted passed := if_pos h

theorem eta_resolved (h : Inv s) (hr : r ∈ s.trials) (hpending : r.status = .pending) (hid : r.skillMemoryId = s.skill.id)
    (ho : o ≠ .unknown) (hrecent : Recent s.skill.id (updateSkillTrial r o s.trials)) :
    (s.resolved config r o now).skill.eta = skillEtaAfterTrial s.skill.eta s.attempted s.passed (s.attempted + 1)
      (s.passed + if o = .success then 1 else 0) := by
  rw [skill_resolved config h hr hpending hid ho hrecent, ← h.attempted, ← h.passed]
  exact tried_eta config s.skill (Nat.succ_pos _) _ now

theorem archived_resolved (hstored : r.skillMemoryId = s.skill.id → o ≠ .unknown → s.skill.stored = .lifecycle .archived)
    (ha : s.skill.memoryStatus = .archived) : (s.resolved config r o now).skill.memoryStatus = .archived := by
  unfold State.resolved State.updateSkillTrialStats
  dsimp only
  split_ifs with hcounts
  · exact ha
  · have hstatus : s.skill.status = .archived := by
      unfold Skill.status
      rw [hstored hcounts.2 hcounts.1]
      rfl
    unfold Skill.tried Skill.withStats skillStatusAfterTrial
    simp [hstatus, memoryStatusForSkillStatus]
  · exact ha

theorem mem_resolved (h : Inv s) (hr : r ∈ s.trials) (hpending : r.status = .pending) {x : Trial} (hx : x ∈ s.trials)
    (hnot : x.status ≠ .pending) : x ∈ updateSkillTrial r o s.trials :=
  mem_map.mpr ⟨x, hx, if_neg fun he => hnot (by rwa [inj_on_of_nodup_map h.ids hx hr he])⟩

theorem trials_resolved : (s.resolved config r o now).trials = updateSkillTrial r o s.trials := by
  unfold State.resolved State.updateSkillTrialStats
  dsimp only
  split_ifs <;> rfl

theorem inv_resolved (h : Inv s) (hr : r ∈ s.trials) (hpending : r.status = .pending)
    (hrecent : r.skillMemoryId = s.skill.id → o ≠ .unknown → Recent s.skill.id (updateSkillTrial r o s.trials)) :
    Inv (s.resolved config r o now) := by
  obtain ⟨hattempted, hpassed⟩ := @attempted_updateSkillTrial s r o h hr hpending
  have hids : ((updateSkillTrial r o s.trials).map Trial.id).Nodup := by
    rw [ids_updateSkillTrial]
    exact h.ids
  have hunknown : ∀ x ∈ updateSkillTrial r o s.trials, x.status = .pending → x.outcome = .unknown := by
    intro x hx hpx
    obtain ⟨y, hy, rfl⟩ := mem_map.mp hx
    split_ifs at hpx ⊢
    · cases o <;> cases hpx
    · exact h.pending y hy hpx
  by_cases hcounts : o ≠ .unknown ∧ r.skillMemoryId = s.skill.id
  · rw [if_pos hcounts.symm] at hattempted
    rw [skill_resolved config h hr hpending hcounts.2 hcounts.1 (hrecent hcounts.2 hcounts.1)]
    exact {
      ids := hids
      pending := hunknown
      present := isDeleted_memoryStatus rfl
      attempted := hattempted.symm
      passed := (hpassed.trans (by simp only [hcounts.2, true_and]; rfl)).symm }
  · rw [if_neg fun hc => hcounts hc.symm] at hattempted
    rw [if_neg fun hc => hcounts ⟨by rw [hc.2]; exact Outcome.noConfusion, hc.1⟩] at hpassed
    rw [skill_resolved_of_not config hcounts]
    exact {
      ids := hids
      pending := hunknown
      present := h.present
      attempted := h.attempted.trans hattempted.symm
      passed := h.passed.trans hpassed.symm }

theorem drifted_kept (config : SkillConfig) (gain : ℚ) (now : ℕ) (skill : Skill) :
    (skill.drifted config gain now).id = skill.id ∧
      (skill.drifted config gain now).trialsAttempted = skill.trialsAttempted ∧
      (skill.drifted config gain now).trialsPassed = skill.trialsPassed ∧
      (skill.isDeleted = false → (skill.drifted config gain now).isDeleted = false) ∧
      (skill.stored = .lifecycle .archived → skill.memoryStatus = .archived →
        (skill.drifted config gain now).memoryStatus = .archived) := by
  unfold Skill.drifted
  dsimp only
  split_ifs
  · exact ⟨rfl, rfl, rfl, id, fun _ => id⟩
  · refine ⟨rfl, rfl, rfl, fun _ => isDeleted_memoryStatus rfl, fun hstored _ => ?_⟩
    have hstatus : skill.status = .archived := by
      unfold Skill.status
      rw [hstored]
      rfl
    unfold Skill.withStats skillStatusAfterRewardDrift
    rw [hstatus, if_neg fun hc => hc.1 rfl]
    rfl

theorem step_cases (h : Inv s) : (resolution s e = none ∧ ¬ e.IsDrift ∧ Inv (step config s e) ∧
      (step config s e).skill = s.skill ∧ s.trials ⊆ (step config s e).trials) ∨
    (e.IsDrift ∧ resolution s e = none ∧ (step config s e).trials = s.trials ∧ Inv (step config s e) ∧
      (s.skill.stored = .lifecycle .archived → s.skill.memoryStatus = .archived →
        (step config s e).skill.memoryStatus = .archived)) ∨
    ∃ r o, resolution s e = some (r, o) := by
  cases hres : resolution s e with
  | some x => exact Or.inr (Or.inr ⟨x.1, x.2, rfl⟩)
  | none =>
    cases e with
    | use id skillMemoryId episodeId createdAt =>
      refine Or.inl ⟨rfl, not_false, ?_⟩
      unfold step
      dsimp only
      split_ifs with hnew
      · refine ⟨{
          ids := ?_
          pending := ?_
          present := h.present
          attempted := ?_
          passed := ?_ }, rfl, subset_append_left _ _⟩
        · dsimp only
          rw [map_append, nodup_append_comm]
          refine nodup_cons.mpr ⟨fun hmem => ?_, h.ids⟩
          obtain ⟨x, hx, he⟩ := mem_map.mp hmem
          exact hnew.2.1 x hx he
        · intro x hx hp
          rcases mem_append.mp hx with hx | hx
          · exact h.pending x hx hp
          · rw [mem_singleton.mp hx]
        · refine h.attempted.trans ?_
          simp [State.attempted]
        · refine h.passed.trans ?_
          simp [State.passed]
      · exact ⟨h, rfl, List.Subset.refl _⟩
    | drift gain now =>
      refine Or.inr (Or.inl ⟨trivial, rfl, ?_⟩)
      obtain ⟨hid, hattempted, hpassed, hdeleted, harchived⟩ := drifted_kept config gain now s.skill
      unfold step
      split_ifs
      · refine ⟨rfl, { h with
          present := hdeleted h.present
          attempted := ?_
          passed := ?_ }, harchived⟩
        · refine hattempted.trans (h.attempted.trans ?_)
          unfold State.attempted
          rw [hid]
        · refine hpassed.trans (h.passed.trans ?_)
          unfold State.passed
          rw [hid]
      · exact ⟨rfl, h, fun _ => id⟩
    | resolve trialId outcome now =>
      have hstep : step config s (.resolve trialId outcome now) = s := by
        unfold step
        rw [hres]
      rw [hstep]
      exact Or.inl ⟨rfl, not_false, h, rfl, List.Subset.refl _⟩

/-- **Every step that heeds the condition keeps the invariant**, and is right. -/
theorem inv_step (h : Inv s) (hp : Heeded s e) : Inv (step config s e) ∧ StepKept config s e := by
  rcases step_cases config h with ⟨hres, -, hinv, hskill, hsub⟩ | ⟨hdrift, hres, htrials, hinv, harchived⟩ | ⟨r, o, hres⟩
  · refine ⟨hinv, fun r hr => ?_, fun r o hr => ?_, fun r hr _ => hsub hr, fun ha => ?_⟩
    · rw [hskill]
    · rw [hskill]
      exact fun _ => le_rfl
    · rw [hskill]
      exact ha
  · refine ⟨hinv, fun r hr => ?_, fun r o hr => ?_, fun r hr _ => htrials ▸ hr, fun ha => ?_⟩
    · cases hres.symm.trans hr.1
    · cases hres.symm.trans hr.1
    · exact harchived (hp.archived (Or.inl hdrift) ha) ha
  · obtain ⟨hmem, hpending, now, hstep⟩ := resolution_some config hres
    have hcounts : ∀ r' o', Counts s e r' o' → r' = r ∧ o' = o := fun r' o' hc =>
      Prod.ext_iff.mp (Option.some.inj (hc.1.symm.trans hres))
    have heta : Counts s e r o → (step config s e).skill.eta = skillEtaAfterTrial s.skill.eta s.attempted s.passed
        (s.attempted + 1) (s.passed + if o = .success then 1 else 0) := fun hc => by
      rw [hstep]
      exact eta_resolved config h hmem hpending hc.2.1 hc.2.2 (hp.recent r o hc)
    refine ⟨?_, fun r' hc => ?_, fun r' o' hc ho => ?_, fun x hx hnot => ?_, fun ha => ?_⟩
    · rw [hstep]
      exact inv_resolved config h hmem hpending fun hid ho => hp.recent r o ⟨hres, hid, ho⟩
    · obtain ⟨rfl, rfl⟩ := hcounts r' _ hc
      rw [heta hc, if_pos rfl]
      exact eta_pass (passed_le_attempted s) (hp.pass r' hc)
    · obtain ⟨rfl, rfl⟩ := hcounts r' o' hc
      rw [heta hc, if_neg ho]
      exact eta_fail (passed_le_attempted s) (hp.fail r' o' hc ho)
    · rw [hstep, trials_resolved]
      exact mem_resolved h hmem hpending hx hnot
    · rw [hstep]
      exact archived_resolved config (fun hid ho => hp.archived (Or.inr ⟨r, o, hres, hid, ho⟩) ha) ha

theorem posterior_step (hprior : 0 ≤ prior ∧ prior ≤ 1) (h : Inv s) (hp : Heeded s e) (hd : ¬ e.IsDrift)
    (heta : s.skill.eta = (prior + s.passed) / (1 + s.attempted)) :
    (step config s e).skill.eta = (prior + (step config s e).passed) / (1 + (step config s e).attempted) := by
  have hinv := (inv_step config h hp).1
  rcases step_cases config h with ⟨-, -, -, hskill, -⟩ | ⟨hdrift, -⟩ | ⟨r, o, hres⟩
  · rw [← hinv.attempted, ← hinv.passed, hskill, h.attempted, h.passed]
    exact heta
  · exact absurd hdrift hd
  · obtain ⟨hmem, hpending, now, hstep⟩ := resolution_some config hres
    by_cases hcounts : o ≠ .unknown ∧ r.skillMemoryId = s.skill.id
    · have hrecent := hp.recent r o ⟨hres, hcounts.2, hcounts.1⟩
      have hd' : (if o = .success then 1 else 0) ≤ 1 := by split_ifs <;> decide
      rw [← hinv.attempted, ← hinv.passed, hstep, eta_resolved config h hmem hpending hcounts.2 hcounts.1 hrecent,
        skill_resolved config h hmem hpending hcounts.2 hcounts.1 hrecent]
      exact eta_posterior (passed_le_attempted s) hd' hprior heta
    · rw [← hinv.attempted, ← hinv.passed, hstep, skill_resolved_of_not config hcounts]
      refine Eq.trans heta ?_
      rw [← h.attempted, ← h.passed]

end Steps

/-! ### Runs -/

/-- **The statistics are right** in every run whose steps heed the condition. -/
theorem kept_of_heeded {s₀ : State} (h₀ : Fresh s₀) (es : List Event)
    (h : ∀ t ∈ taken (step config) s₀ es, Heeded t.1 t.2) : Kept config s₀ es := by
  have hinv := invariant_of_steps (P := Heeded) (fun s e hs hp => (inv_step config hs hp).1) es s₀ (inv_fresh h₀) h
  refine ⟨fun s hs => ⟨(hinv s hs).attempted, (hinv s hs).passed⟩, fun hd s hs => ?_, fun t ht => ?_⟩
  · have hstart : s₀.skill.eta = (s₀.skill.eta + s₀.passed) / (1 + s₀.attempted) := by
      rw [← (inv_fresh h₀).attempted, ← (inv_fresh h₀).passed, h₀.attempted, h₀.passed]
      simp
    have hboth : ∀ s e, Inv s ∧ s.skill.eta = (s₀.skill.eta + s.passed) / (1 + s.attempted) →
        Heeded s e ∧ ¬ e.IsDrift → Inv (step config s e) ∧
          (step config s e).skill.eta = (s₀.skill.eta + (step config s e).passed) / (1 + (step config s e).attempted) :=
      fun s e hs hp => ⟨(inv_step config hs.1 hp.1).1, posterior_step config h₀.prior hs.1 hp.1 hp.2 hs.2⟩
    exact (invariant_of_steps hboth es s₀ ⟨inv_fresh h₀, hstart⟩
      (fun t ht => ⟨h t ht, hd t.2 (event_mem_of_mem_taken ht)⟩) s hs).2
  · exact (inv_step config (hinv t.1 (mem_visited_of_mem_taken _ ht)) (h t ht)).2

/-! ### A Skill that is tried again after a drift -/

def newSkill : Skill where
  id := "sk"
  memoryKey := none
  userId := "u"
  createdAt := 1
  updatedAt := 1
  memoryStatus := .resolving
  isReadOnly := false
  stored := .lifecycle .candidate
  eta := 0
  trialsAttempted := 0
  trialsPassed := 0
  repairOrigin := false
  sourcePolicyIds := ["p"]
  steps := []

def usualConfig : SkillConfig where
  candidateTrials := 1
  minEtaForRetrieval := 1 / 10
  repairCandidateMinEta := 1 / 10
  archiveEta := 1 / 10

theorem fresh_newSkill : Fresh { skill := newSkill } where
  ids := nodup_nil
  pending := nofun
  untried := nofun
  present := by decide
  attempted := rfl
  passed := rfl
  prior := ⟨le_rfl, zero_le_one⟩

/-- A trial has failed, and the policy's gain has drifted eta up while another one is pending. -/
def driftedUp : List Event :=
  [ .use "t1" "sk" "e1" 1, .use "t2" "sk" "e2" 2, .resolve "t1" (some .failure) 3,
    .drift 1 4, .drift 1 5, .drift 1 6, .drift 1 7 ]

/-- **The statistics are not always right**: the second trial passes, and eta falls from 0.76 to 0.67. -/
theorem not_kept : ¬ ∀ (config : SkillConfig) (s₀ : State) (es : List Event), Fresh s₀ → Kept config s₀ es := by
  intro h
  have hlast := last_mem_taken (step usualConfig) driftedUp { skill := newSkill } (.resolve "t2" (some .success) 8)
  have hle := ((h usualConfig _ _ fresh_newSkill).steps _ hlast).pass ⟨"t2", "sk", "e2", 2, .pending, .unknown⟩
    ⟨by decide +kernel, by decide +kernel, by decide⟩
  revert hle
  decide +kernel

theorem kept_of_heeded_once :
    Kept usualConfig { skill := newSkill } [.use "t1" "sk" "e1" 1, .resolve "t1" (some .success) 2] := by
  refine kept_of_heeded usualConfig fresh_newSkill _ ?_
  intro t ht
  simp only [taken_cons, taken_nil, mem_cons, not_mem_nil, or_false] at ht
  rcases ht with rfl | rfl
  · have hno : ∀ r o, ¬ Counts { skill := newSkill } (.use "t1" "sk" "e1" 1) r o := fun r o hc => by cases hc.1
    exact ⟨fun r o hc => absurd hc (hno r o), fun r hc => absurd hc (hno r _), fun r o hc => absurd hc (hno r o),
      fun _ h => by cases h⟩
  · set s := step usualConfig { skill := newSkill } (.use "t1" "sk" "e1" 1)
    have hres : resolution s (.resolve "t1" (some .success) 2) =
        some (⟨"t1", "sk", "e1", 1, .pending, .unknown⟩, .success) := by decide +kernel
    have hcounts : ∀ r o, Counts s (.resolve "t1" (some .success) 2) r o →
        r = ⟨"t1", "sk", "e1", 1, .pending, .unknown⟩ ∧ o = .success := fun r o hc =>
      Prod.ext_iff.mp (Option.some.inj (hc.1.symm.trans hres))
    refine ⟨fun r o hc => ?_, fun r _ => by decide +kernel, fun r o hc ho => ?_, fun _ h => by cases h⟩
    · obtain ⟨rfl, rfl⟩ := hcounts r o hc
      unfold Recent
      decide +kernel
    · exact absurd (hcounts r o hc).2 ho

end Memmy.Skills.Trials
