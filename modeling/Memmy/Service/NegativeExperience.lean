import Mathlib.Data.Finset.Card
import Memmy.Lib.Blocks
import Memmy.Lib.Groups
import Memmy.Lib.Newest
import Memmy.Lib.Rows
import Memmy.Lib.Run
import Memmy.Lib.Text

/-! # Negative experiences

A failure leaves a job that has the model write down what is to be avoided, and merges this into the policy of its
key. What is behind the call of the model happens at once, so that jobs which are retried or overlap there are a list
of such merges. The events that were merged are recorded in a list of bounded length, which tells an event that comes
again.

* `materialize`: one execution behind the call.
* `Heeded`: an event that is not recorded finds room in the list.
* `recorded_merge`: the lists of a policy record what was merged into it.
* `countsOnce_of_heeded`: in runs whose steps heed this **every failure counts once**. -/

namespace Memmy.Service.NegativeExperience

open Lib.Blocks Lib.Groups Lib.Newest Lib.Rows Lib.Run Lib.Text List

inductive NegativeExperienceSource
  | episodeReward
  | negativeFeedback
  | toolFailureBurst
  | valueDistribution
deriving DecidableEq

/-- An id has no white space around it, whether `text` returns it or it is generated. -/
abbrev IsId (id : String) : Prop := trim id = id ∧ id ≠ ""

structure NegativeExperienceDraft where
  source : NegativeExperienceSource
  sourceEventId : String
  episodeId : String
  isId : IsId sourceEventId ∧ IsId episodeId
  feedbackId : Option String := none
  repairId : Option String := none
  sourceTraceIds : List String := []
  trigger : String
  antiPattern : String
  preference : String
  confidence : ℚ
  scopeIdentity : String

structure Config where
  enabled : Bool := true
  valueDistributionRepairEnabled : Bool := true
  maxAntiPatterns : ℚ := 3
  maxPreferences : ℚ := 3
  maxSourceIds : ℚ := 20

inductive Status
  | candidate
  | active
  | archived
deriving DecidableEq

structure Policy where
  id : String
  memoryKey : String
  updatedAt : ℕ
  status : Status := .candidate
  support : ℕ := 0
  /-- `evidence_polarity` is `negative`. -/
  negative : Bool := false
  skillEligible : Bool := true
  sourceEventIds : List String := []
  sourceEpisodeIds : List String := []
  sourceTraceIds : List String := []
  sourceFeedbackIds : List String := []
  sourceRepairIds : List String := []
  preferences : List String := []
  antiPatterns : List String := []
  /-- Not in the row: the events that were merged, each with its episode. -/
  merged : List (String × String) := []

/-- `Math.max(0, Math.floor(limit))` -/
def bound (limit : ℚ) : ℕ := ⌊limit⌋.toNat

def cappedDistinct (values : List String) (limit : ℚ) : List String :=
  ((values.map trim).filter (· ≠ "")).eraseDups.take (bound limit)

def getByKey (key : String) (policies : List Policy) : Option Policy :=
  (newest (·.updatedAt) 1 (policies.filter (·.memoryKey = key))).head?

/-- An id that is taken fails the insertion. -/
def insert (p : Policy) (policies : List Policy) : List Policy :=
  if p.id ∈ policies.map (·.id) then policies else policies ++ [p]

/-- The row that `upsertEvolutionMemory` is given, over what there is. -/
def merge (config : Config) (draft : NegativeExperienceDraft) (createdAt : ℕ) (existing : Policy) : Policy :=
  let mergedEpisodeIds := cappedDistinct (existing.sourceEpisodeIds ++ [draft.episodeId]) config.maxSourceIds
  { existing with
    updatedAt := createdAt
    status := .candidate
    support := max 1 mergedEpisodeIds.length
    negative := true
    skillEligible := false
    sourceEventIds := cappedDistinct (existing.sourceEventIds ++ [draft.sourceEventId]) config.maxSourceIds
    sourceEpisodeIds := mergedEpisodeIds
    sourceTraceIds := cappedDistinct (existing.sourceTraceIds ++ draft.sourceTraceIds.take (bound config.maxSourceIds))
      config.maxSourceIds
    sourceFeedbackIds := cappedDistinct (existing.sourceFeedbackIds ++ draft.feedbackId.toList) config.maxSourceIds
    sourceRepairIds := cappedDistinct (existing.sourceRepairIds ++ draft.repairId.toList) config.maxSourceIds
    preferences := cappedDistinct (existing.preferences ++ [draft.preference]) config.maxPreferences
    antiPatterns := cappedDistinct (existing.antiPatterns ++ [draft.antiPattern]) config.maxAntiPatterns
    merged := existing.merged ++ [(draft.sourceEventId, draft.episodeId)] }

inductive Event
  /-- What an execution with a draft does behind the call of the model. -/
  | materialize (draft : NegativeExperienceDraft) (newId : String) (createdAt : ℕ)
  | archive (id : String) (now : ℕ)

-- What the model's text decides: whether a draft is actionable, and the key, a hash over the normalised text.
variable (isActionable : NegativeExperienceDraft → Bool) (keyOf : NegativeExperienceDraft → String) (config : Config)

def isTaken (draft : NegativeExperienceDraft) : Bool :=
  config.enabled && (draft.source ≠ .valueDistribution || config.valueDistributionRepairEnabled) && isActionable draft

def findExisting (draft : NegativeExperienceDraft) (newId : String) (createdAt : ℕ) (policies : List Policy) : Policy :=
  (getByKey (keyOf draft) policies).getD { id := newId, memoryKey := keyOf draft, updatedAt := createdAt }

def upsertEvolutionMemory (memory : Policy) (newId : String) (policies : List Policy) : List Policy :=
  match getByKey memory.memoryKey policies with
  | some previous =>
    if previous.status = .archived then insert { memory with id := newId } policies
    else update (·.id = previous.id) (fun _ => memory) policies
  | none => insert memory policies

def materialize (draft : NegativeExperienceDraft) (newId : String) (createdAt : ℕ) (policies : List Policy) :
    List Policy :=
  let existing := findExisting keyOf draft newId createdAt policies
  if isTaken isActionable config draft && draft.sourceEventId ∉ existing.sourceEventIds then
    upsertEvolutionMemory (merge config draft createdAt existing) newId policies
  else policies

def step (policies : List Policy) : Event → List Policy
  | .materialize draft newId createdAt => materialize isActionable keyOf config draft newId createdAt policies
  | .archive id now =>
    update (·.id = id) (fun p => { p with
      status := .archived
      updatedAt := now }) policies

/-! ### The property -/

/-- **Each failure counts once** in a policy. -/
structure Counted (p : Policy) : Prop where
  once : (p.merged.map Prod.fst).Nodup
  support : p.support = (p.merged.map Prod.snd).toFinset.card

/-- What every merge keeps. -/
structure Kept (p : Policy) : Prop where
  negative : p.negative = true
  notEligible : p.skillEligible = false
  candidate : p.status ≠ .archived → p.status = .candidate
  preferences : p.preferences.Nodup ∧ p.preferences.length ≤ bound config.maxPreferences
  antiPatterns : p.antiPatterns.Nodup ∧ p.antiPatterns.length ≤ bound config.maxAntiPatterns

/-- **What a step is taken in**: an event that the policy does not record finds room in its list. -/
def Heeded (policies : List Policy) : Event → Prop
  | .materialize draft newId createdAt =>
    let recorded := (findExisting keyOf draft newId createdAt policies).sourceEventIds
    isTaken isActionable config draft = true → draft.sourceEventId ∉ recorded →
      recorded.length < bound config.maxSourceIds
  | .archive _ _ => True

/-! ### One merge -/

section Merge
variable {isActionable keyOf config} {draft : NegativeExperienceDraft} {createdAt : ℕ} {p : Policy}
  {values : List String} {limit : ℚ}

theorem cappedDistinct_limited : (cappedDistinct values limit).Nodup ∧
    (cappedDistinct values limit).length ≤ bound limit :=
  ⟨(nodup_eraseDups _).sublist (take_sublist _ _), length_take_le _ _⟩

theorem cappedDistinct_ids (hids : ∀ x ∈ values, IsId x) (hlen : values.eraseDups.length ≤ bound limit) :
    cappedDistinct values limit = values.eraseDups := by
  unfold cappedDistinct
  have htrim : values.map trim = values := (map_congr_left fun x hx => (hids x hx).1).trans (map_id' values)
  have hfilter : values.filter (· ≠ "") = values := filter_eq_self.mpr fun x hx => decide_eq_true (hids x hx).2
  rw [htrim, hfilter, take_of_length_le hlen]

/-- The lists record what was merged. -/
structure Recorded (p : Policy) : Prop where
  ids : ∀ m ∈ p.merged, IsId m.1 ∧ IsId m.2
  once : (p.merged.map Prod.fst).Nodup
  events : p.sourceEventIds = p.merged.map Prod.fst
  episodes : p.sourceEpisodeIds = (p.merged.map Prod.snd).eraseDups
  support : p.support = p.sourceEpisodeIds.length

theorem Recorded.counted (h : Recorded p) : Counted p where
  once := h.once
  support := by
    rw [h.support, h.episodes, ← toFinset_card_of_nodup (nodup_eraseDups _)]
    congr 1
    ext id
    rw [List.mem_toFinset, List.mem_toFinset, mem_eraseDups]

/-- **An event that is not recorded** is merged into a policy with room for it. -/
theorem recorded_merge (h : Recorded p) (hnew : draft.sourceEventId ∉ p.sourceEventIds)
    (hroom : p.sourceEventIds.length < bound config.maxSourceIds) : Recorded (merge config draft createdAt p) := by
  set merged := p.merged ++ [(draft.sourceEventId, draft.episodeId)] with hmerged
  have hids : ∀ m ∈ merged, IsId m.1 ∧ IsId m.2 := by
    intro m hm
    rcases mem_append.mp hm with hm | hm
    · exact h.ids m hm
    · rw [mem_singleton.mp hm]
      exact draft.isId
  have hlen : merged.length ≤ bound config.maxSourceIds := by
    rw [hmerged, length_append, ← length_map Prod.fst, ← h.events]
    exact hroom
  have hevents : p.sourceEventIds ++ [draft.sourceEventId] = merged.map Prod.fst := by
    rw [h.events, hmerged, map_append]
    rfl
  have honce : (merged.map Prod.fst).Nodup := by
    rw [← hevents, nodup_append_comm]
    exact nodup_cons.mpr ⟨hnew, h.events ▸ h.once⟩
  have hepisodes : (p.sourceEpisodeIds ++ [draft.episodeId]).eraseDups = (merged.map Prod.snd).eraseDups := by
    rw [h.episodes, hmerged, map_append, map_singleton, eraseDups_concat, eraseDups_concat]
    simp only [mem_eraseDups, eraseDups_of_nodup (nodup_eraseDups _)]
  have hmem : ∀ x ∈ p.sourceEpisodeIds ++ [draft.episodeId], x ∈ merged.map Prod.snd := fun x hx => by
    rw [← mem_eraseDups, ← hepisodes]
    exact mem_eraseDups.mpr hx
  have hcapped : cappedDistinct (p.sourceEpisodeIds ++ [draft.episodeId]) config.maxSourceIds =
      (merged.map Prod.snd).eraseDups := by
    refine (cappedDistinct_ids (fun x hx => ?_) ?_).trans hepisodes
    · obtain ⟨m, hm, rfl⟩ := mem_map.mp (hmem x hx)
      exact (hids m hm).2
    · rw [hepisodes]
      have hle := ((nodup_eraseDups (merged.map Prod.snd)).subperm fun _ => mem_eraseDups.mp).length_le
      exact (length_map Prod.snd ▸ hle).trans hlen
  exact {
    ids := hids
    once := honce
    events := by
      refine Eq.trans (congrArg (cappedDistinct · _) hevents) ?_
      refine (cappedDistinct_ids (forall_mem_map.mpr fun m hm => (hids m hm).1) ?_).trans (eraseDups_of_nodup honce)
      rw [eraseDups_of_nodup honce, length_map]
      exact hlen
    episodes := hcapped
    support := by
      refine max_eq_right (length_pos_iff.mpr fun hnil => ?_)
      have hthere : draft.episodeId ∈ (merged.map Prod.snd).eraseDups :=
        mem_eraseDups.mpr (hmem _ (mem_append_right _ (mem_singleton_self _)))
      rw [← hcapped, hnil] at hthere
      cases hthere }

end Merge

/-! ### Runs -/

section Steps
variable {isActionable keyOf config} {policies : List Policy} {p : Policy} {e : Event}

theorem mem_of_getByKey {key : String} (h : getByKey key policies = some p) : p ∈ policies :=
  (mem_filter.mp (mem_of_mem_newest (mem_of_head? h))).1

theorem recorded_findExisting (h : ∀ p ∈ policies, Recorded p) {newId : String}
    : Recorded (findExisting keyOf draft newId createdAt policies) := by
  unfold findExisting
  cases hfound : getByKey (keyOf draft) policies with
  | some existing => exact h existing (mem_of_getByKey hfound)
  | none => exact ⟨nofun, nodup_nil, rfl, rfl, rfl⟩

theorem mem_insert {q : Policy} (h : q ∈ insert p policies) : q ∈ policies ∨ q = p := by
  unfold insert at h
  split_ifs at h
  · exact Or.inl h
  · exact (mem_append.mp h).imp_right mem_singleton.mp

/-- What an upsert leaves is what was there, or the row under an id. -/
theorem mem_upsert {memory q : Policy} {newId : String} (h : q ∈ upsertEvolutionMemory memory newId policies) :
    q ∈ policies ∨ ∃ id, q = { memory with id := id } := by
  unfold upsertEvolutionMemory at h
  split at h
  · split_ifs at h
    · exact (mem_insert h).imp_right fun hq => ⟨newId, hq⟩
    · obtain ⟨old, hold, rfl⟩ := mem_map.mp h
      split_ifs
      · exact Or.inr ⟨memory.id, rfl⟩
      · exact Or.inl hold
  · exact (mem_insert h).imp_right fun hq => ⟨memory.id, hq⟩

theorem sound_step (h : ∀ p ∈ policies, Recorded p ∧ Kept config p)
    (hp : Heeded isActionable keyOf config policies e) :
    ∀ p ∈ step isActionable keyOf config policies e, Recorded p ∧ Kept config p := by
  cases e with
  | materialize draft newId createdAt =>
    unfold step materialize
    dsimp only
    split_ifs with hgo
    · obtain ⟨htaken, hnew⟩ := (Bool.and_eq_true _ _).mp hgo
      intro q hq
      rcases mem_upsert hq with hq | ⟨id, rfl⟩
      · exact h q hq
      · have hold : Recorded (findExisting keyOf draft newId createdAt policies) :=
          recorded_findExisting fun p hp => (h p hp).1
        have hnew := of_decide_eq_true hnew
        obtain ⟨hids, honce, hevents, hepisodes, hsupport⟩ : Recorded (merge config draft createdAt _) :=
          recorded_merge hold hnew (hp htaken hnew)
        exact ⟨⟨hids, honce, hevents, hepisodes, hsupport⟩,
          ⟨rfl, rfl, fun _ => rfl, cappedDistinct_limited, cappedDistinct_limited⟩⟩
    · exact h
  | archive id now =>
    intro q hq
    obtain ⟨old, hold, rfl⟩ := mem_map.mp hq
    split_ifs
    · obtain ⟨⟨hids, honce, hevents, hepisodes, hsupport⟩, hkept⟩ := h old hold
      exact ⟨⟨hids, honce, hevents, hepisodes, hsupport⟩,
        ⟨hkept.negative, hkept.notEligible, fun hno => absurd rfl hno, hkept.preferences, hkept.antiPatterns⟩⟩
    · exact h old hold

end Steps

/-- **Each failure counts once**, and every merge keeps its promises, in every state of a run that heeds the
condition. -/
theorem countsOnce_of_heeded (es : List Event)
    (h : ∀ t ∈ taken (step isActionable keyOf config) [] es, Heeded isActionable keyOf config t.1 t.2) :
    ∀ policies ∈ visited (step isActionable keyOf config) [] es, ∀ p ∈ policies, Counted p ∧ Kept config p := by
  intro policies hpolicies p hp
  obtain ⟨hrecorded, hkept⟩ := invariant_of_steps (I := fun policies => ∀ p ∈ policies, Recorded p ∧ Kept config p)
    (fun _ _ => sound_step) es [] (fun _ => nofun) h policies hpolicies p hp
  exact ⟨hrecorded.counted, hkept⟩

/-! ### An event behind the limit -/

/-- A failure of the episode `e1`, with guidance that is always the same. -/
def failure (sourceEventId : String) (h : IsId sourceEventId) : Event :=
  .materialize ⟨.episodeReward, sourceEventId, "e1", ⟨h, by decide⟩, none, none, [], "t", "a", "p", 1, ":"⟩ "p1" 1

/-- **Not every failure counts once**: the second event has no place in the list, and is merged when it comes again. -/
theorem not_countsOnce : ¬ ∀ (isActionable : NegativeExperienceDraft → Bool) (keyOf : NegativeExperienceDraft → String)
    (config : Config) (es : List Event), ∀ policies ∈ visited (step isActionable keyOf config) [] es,
    ∀ p ∈ policies, Counted p ∧ Kept config p := by
  intro h
  let es := [failure "f1" (by decide), failure "f2" (by decide), failure "f2" (by decide)]
  have hrun := h (fun _ => true) (·.trigger) { maxSourceIds := 1 } es _ (final_mem_visited _ _ _)
  have hcounted := fun p hp => (hrun p hp).1.once
  revert hcounted
  decide +kernel

/-- An event that comes again. -/
def retried : List Event := [failure "f1" (by decide), failure "f1" (by decide)]

theorem countsOnce_of_heeded_retried : (final (step (fun _ => true) (·.trigger) {}) [] retried).length = 1 ∧
    ∀ p ∈ final (step (fun _ => true) (·.trigger) {}) [] retried, Counted p ∧ Kept {} p := by
  refine ⟨by decide +kernel, countsOnce_of_heeded _ _ _ _ ?_ _ (final_mem_visited _ _ _)⟩
  intro t ht
  simp only [retried, taken_cons, taken_nil, mem_cons, not_mem_nil, or_false] at ht
  rcases ht with rfl | rfl
  · exact fun _ _ => by decide +kernel
  · exact fun _ hno => absurd (by decide +kernel) hno

end Memmy.Service.NegativeExperience
