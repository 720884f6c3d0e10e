import Mathlib.Data.Finset.Card
import Memmy.Lib.Run
import Memmy.Storage.JobSteps

/-! # Experiences from feedback

A feedback that is not negative is recorded in a policy: at once, or, where its processing is deferred, by a job.
The jobs of one context and polarity share a key, under which a later feedback takes the place of the one that
waits; and a job that fails after the policy was written is run again.

* `save`: a feedback is merged into a similar policy, or recorded in a new one.
* `Heeded`: no job with the key is active when a feedback is deferred, and what is written was not recorded.
* `inv_step`: the invariant, with what each deferred feedback is at.
* `counted_of_heeded`: in runs whose steps heed this **every feedback counts once**. -/

namespace Memmy.Service.FeedbackExperience

open Lib.Run Lib.Rows List Option
open Storage.Jobs Storage.JobSteps JobStatus

inductive Polarity
  | positive
  | negative
  | neutral
deriving DecidableEq

def Polarity.text : Polarity → String
  | .positive => "positive"
  | .negative => "negative"
  | .neutral => "neutral"

structure Feedback where
  id : String
  userId : String
  sessionId : Option String := none
  episodeId : Option String := none
  contextHash : Option String := none
  polarity : Polarity

/-! ### Policies -/

structure Policy where
  id : String
  memoryKey : Option String
  archived : Bool
  /-- `induced_by` is `feedback.experience.v1`. -/
  fromFeedback : Bool
  support : ℕ
  active : Bool
  sourceEpisodeIds : List String
  sourceFeedbackIds : List String

/-- What an execution finds: the key of the draft, and a similar policy if there is one. -/
structure Draft where
  key : String
  similar : Option String
  newId : String

def uniq (values : List String) : List String := values.eraseDups

def findSimilarFeedbackExperience (draft : Draft) (policies : List Policy) : Option Policy :=
  draft.similar.bind fun id => policies.find? fun p => p.id = id && !p.archived

def mergeFeedbackExperiencePolicy (minEpisodesForActivation : ℕ) (f : Feedback) (p : Policy) : Policy :=
  let sourceEpisodeIds := uniq (p.sourceEpisodeIds ++ f.episodeId.toList)
  { p with
    support := max 1 p.support + 1
    active := !p.archived && decide (minEpisodesForActivation ≤ sourceEpisodeIds.length)
    sourceEpisodeIds := sourceEpisodeIds
    sourceFeedbackIds := uniq (p.sourceFeedbackIds ++ [f.id]) }

/-- The fields that an insertion writes, over a policy with its key if there is one. -/
def insertedPolicy (f : Feedback) (p : Policy) : Policy :=
  { p with
    archived := false
    fromFeedback := true
    support := 1
    active := false
    sourceEpisodeIds := f.episodeId.toList
    sourceFeedbackIds := [f.id] }

def insertFeedbackExperiencePolicy (f : Feedback) (draft : Draft) (policies : List Policy) : List Policy :=
  match policies.find? fun p => p.memoryKey = some draft.key with
  | some previous => update (fun p => p.id = previous.id) (insertedPolicy f) policies
  | none => policies ++ [insertedPolicy f ⟨draft.newId, some draft.key, false, true, 1, false, [], []⟩]

/-- The policies after `maybeCreateFeedbackExperience`. -/
def save (minEpisodesForActivation : ℕ) (f : Feedback) (draft : Draft) (policies : List Policy) : List Policy :=
  match findSimilarFeedbackExperience draft policies with
  | some existing =>
    update (fun p => p.id = existing.id) (mergeFeedbackExperiencePolicy minEpisodesForActivation f) policies
  | none => insertFeedbackExperiencePolicy f draft policies

/-! ### Feedback and its jobs -/

/-- A leased job whose worker is at it; it is done when it has come past the policy. -/
structure Execution where
  job : Job
  done : Bool := false

def feedbackOf (job : Job) : Option String := job.payload.text? "feedbackId"

structure State where
  policies : List Policy := []
  feedbacks : List Feedback := []
  jobs : List Job := []
  running : List Execution := []
  /-- The feedback that was left to a job. -/
  deferred : List String := []
  /-- The feedback that is not actionable or not significant. -/
  dismissed : List String := []

inductive Event
  | direct (f : Feedback) (draft : Option Draft)
  | defer (f : Feedback) (w : Surroundings) (id : String) (now : ℕ)
  /-- Jobs are leased or given back. -/
  | queue (op : JobOp)
  /-- An execution reads the feedback of its job and writes a policy. -/
  | process (i : ℕ) (draft : Option Draft)
  | complete (i now : ℕ)
  /-- An execution ends by an error or with its process. -/
  | stop (i : ℕ)

def moves : JobOp → Bool
  | .lease _ _ _ | .fail _ _ _ _ | .defer _ _ _ | .requeueFailed _ _ _ _ | .requeueAfterRestart _
  | .requeueUnstarted _ _ | .requeueExpired _ _ => true
  | _ => false

def leased (jobs : List Job) : JobOp → List Execution
  | .lease w o now => (leaseQueuedJobs w o now jobs).2.map (⟨·, false⟩)
  | _ => []

def dedupeKey (f : Feedback) : String :=
  "feedback_experience:" ++ f.contextHash.getD f.id ++ ":" ++ f.polarity.text

def experienceJob (f : Feedback) (id : String) (now : ℕ) : Job where
  id := id
  jobType := "feedback_experience"
  status := .queued
  dedupeKey := some (dedupeKey f)
  userId := f.userId
  sessionId := f.sessionId
  episodeId := f.episodeId
  payload := { fields := [("feedbackId", .str f.id)] }
  attempts := 0
  maxAttempts := 3
  createdAt := now
  updatedAt := now

variable (minEpisodesForActivation : ℕ)

def State.maybeCreateFeedbackExperience (s : State) (f : Feedback) : Option Draft → State
  | none => { s with dismissed := s.dismissed ++ [f.id] }
  | some draft => { s with policies := save minEpisodesForActivation f draft s.policies }

/-- The feedback that `processFeedbackExperienceJob` goes on with. -/
def State.feedbackFor (s : State) (job : Job) : Option Feedback :=
  (feedbackOf job).bind fun id => (s.feedbacks.find? fun f => f.id = id).filter fun f => f.polarity ≠ .negative

def State.processFeedbackExperienceJob (s : State) (i : ℕ) (draft : Option Draft) : State :=
  match s.running[i]? with
  | some run =>
    let s := { s with running := s.running.set i { run with done := true } }
    match s.feedbackFor run.job with
    | some f => s.maybeCreateFeedbackExperience minEpisodesForActivation f draft
    | none => s
  | none => s

def step (s : State) : Event → State
  | .direct f draft =>
    if ∃ g ∈ s.feedbacks, g.id = f.id then s
    else
      let s := { s with feedbacks := s.feedbacks ++ [f] }
      if f.polarity = .negative then s else s.maybeCreateFeedbackExperience minEpisodesForActivation f draft
  | .defer f w id now =>
    if (∃ g ∈ s.feedbacks, g.id = f.id) ∨ f.polarity = .negative then s
    else
      let s := { s with feedbacks := s.feedbacks ++ [f] }
      match enqueueJob w (experienceJob f id now) s.jobs with
      | .ok jobs =>
        { s with
          jobs := jobs
          deferred := s.deferred ++ [f.id] }
      | .error _ => s
  | .queue op =>
    if moves op then
      { s with
        jobs := applyOp s.jobs op
        running := s.running ++ leased s.jobs op }
    else s
  | .process i draft => s.processFeedbackExperienceJob minEpisodesForActivation i draft
  | .complete i now =>
    match s.running[i]? with
    | some run =>
      if run.done then
        { s with
          jobs := completeJob run.job.id now s.jobs
          running := s.running.eraseIdx i }
      else s
    | none => s
  | .stop i => { s with running := s.running.eraseIdx i }

/-! ### The property -/

/-- The feedback is recorded in a policy, or is none that a policy records. -/
def State.Settled (s : State) (id : String) : Prop := id ∈ s.dismissed ∨ ∃ p ∈ s.policies, id ∈ p.sourceFeedbackIds

def State.Supported (s : State) : Prop :=
  ∀ p ∈ s.policies, p.fromFeedback = true → p.support = p.sourceFeedbackIds.toFinset.card

/-- **Every feedback counts once**: when all jobs have succeeded, the feedback that was left to them is settled; and
the support of a policy from feedback is the number of the ids that it records. -/
structure Counted (s : State) : Prop where
  settled : (∀ job ∈ s.jobs, job.status = .succeeded) → ∀ id ∈ s.deferred, s.Settled id
  supported : s.Supported

/-- Nothing has been made of feedback. -/
structure Fresh (s : State) : Prop where
  policies : ∀ p ∈ s.policies, p.fromFeedback = false
  jobs : s.jobs = []
  running : s.running = []
  deferred : s.deferred = []

/-! ### The condition -/

/-- The feedback is not recorded in the policy that it is merged into, and a new policy takes no other's place. -/
def Unrecorded (f : Feedback) (policies : List Policy) (draft : Draft) : Prop :=
  match findSimilarFeedbackExperience draft policies with
  | some existing => ∀ p ∈ policies, p.id = existing.id → f.id ∉ p.sourceFeedbackIds
  | none => ∀ p ∈ policies, p.memoryKey ≠ some draft.key

/-- **What a step is taken in.** -/
def Heeded (s : State) : Event → Prop
  | .direct f draft => ∀ d ∈ draft, Unrecorded f s.policies d
  | .defer f _ _ _ => ∀ job ∈ s.jobs, job.dedupeKey = some (dedupeKey f) → job.status.isActive = false
  | .process i draft => ∀ run ∈ s.running[i]?, ∀ f ∈ s.feedbackFor run.job, ∀ d ∈ draft, Unrecorded f s.policies d
  | _ => True

/-! ### Policies that are written -/

/-- What holds of a policy. -/
def Sound (p : Policy) : Prop :=
  p.fromFeedback = true → 0 < p.support ∧ p.support = p.sourceFeedbackIds.toFinset.card

section Policies
variable {minEpisodes : ℕ} {policies : List Policy} {f : Feedback} {draft : Draft} {p : Policy}

theorem mem_uniq_concat {ids : List String} {id : String} : id ∈ uniq (ids ++ [f.id]) ↔ id ∈ ids ∨ id = f.id := by
  unfold uniq
  simp

/-- A feedback that was not recorded adds to the support. -/
theorem sound_merge (h : Sound p) (hnew : f.id ∉ p.sourceFeedbackIds) :
    Sound (mergeFeedbackExperiencePolicy minEpisodes f p) := by
  intro hfrom
  obtain ⟨hpos, hcard⟩ := h hfrom
  have hinsert : (uniq (p.sourceFeedbackIds ++ [f.id])).toFinset = insert f.id p.sourceFeedbackIds.toFinset := by
    ext id
    rw [List.mem_toFinset, mem_uniq_concat, Finset.mem_insert, List.mem_toFinset, or_comm]
  have hsupport : (mergeFeedbackExperiencePolicy minEpisodes f p).support = p.support + 1 :=
    congrArg (· + 1) (max_eq_right hpos)
  refine ⟨by rw [hsupport]; exact Nat.succ_pos _, hsupport.trans ?_⟩
  rw [hcard]
  refine Eq.trans ?_ (congrArg Finset.card hinsert).symm
  rw [Finset.card_insert_of_notMem (by rwa [List.mem_toFinset])]

/-- **What a feedback does to the policies**: they stay sound, record it, and forget nothing. -/
theorem save_spec (h : ∀ p ∈ policies, Sound p) (hnew : Unrecorded f policies draft) :
    (∀ p ∈ save minEpisodes f draft policies, Sound p) ∧
      (∃ p ∈ save minEpisodes f draft policies, f.id ∈ p.sourceFeedbackIds) ∧
      ∀ p ∈ policies, ∃ p' ∈ save minEpisodes f draft policies, p.sourceFeedbackIds ⊆ p'.sourceFeedbackIds := by
  unfold Unrecorded at hnew
  unfold save
  cases hsimilar : findSimilarFeedbackExperience draft policies with
  | some existing =>
    rw [hsimilar] at hnew
    have hmem : ∀ p ∈ policies, (if p.id = existing.id then mergeFeedbackExperiencePolicy minEpisodes f p else p) ∈
        update (fun p => p.id = existing.id) (mergeFeedbackExperiencePolicy minEpisodes f) policies :=
      fun p hp => mem_map.mpr ⟨p, hp, by simp only [decide_eq_true_eq]⟩
    refine ⟨fun p hp => ?_, ?_, fun p hp => ⟨_, hmem p hp, ?_⟩⟩
    · obtain ⟨old, hold, rfl⟩ := mem_map.mp hp
      split_ifs with hid
      · exact sound_merge (h old hold) (hnew old hold (of_decide_eq_true hid))
      · exact h old hold
    · obtain ⟨id, -, hfind⟩ := bind_eq_some_iff.mp hsimilar
      refine ⟨_, hmem existing (mem_of_find?_eq_some hfind), ?_⟩
      rw [if_pos rfl]
      exact mem_uniq_concat.mpr (Or.inr rfl)
    · split_ifs
      · exact fun id hid => mem_uniq_concat.mpr (Or.inl hid)
      · exact List.Subset.refl _
  | none =>
    rw [hsimilar] at hnew
    have hnone : (policies.find? fun p => p.memoryKey = some draft.key) = none :=
      find?_eq_none.mpr fun p hp hkey => hnew p hp (of_decide_eq_true hkey)
    unfold insertFeedbackExperiencePolicy
    rw [hnone]
    refine ⟨fun p hp => ?_, ⟨_, mem_append_right _ (mem_singleton_self _), mem_singleton_self _⟩,
      fun p hp => ⟨p, mem_append_left _ hp, List.Subset.refl _⟩⟩
    rcases mem_append.mp hp with hp | hp
    · exact h p hp
    · rw [mem_singleton.mp hp]
      exact fun _ => ⟨Nat.one_pos, rfl⟩

end Policies

/-! ### The invariant -/

structure Inv (s : State) : Prop where
  ids : (s.jobs.map (·.id)).Nodup
  stored : ∀ id ∈ s.deferred, ∃ f, (s.feedbacks.find? fun f => f.id = id) = some f ∧ f.polarity ≠ .negative
  targets : ∀ job ∈ s.jobs, ∃ id ∈ s.deferred, feedbackOf job = some id
  /-- Deferred feedback is settled, or a job for it has not succeeded. -/
  waiting : ∀ id ∈ s.deferred, s.Settled id ∨ ∃ job ∈ s.jobs, job.status ≠ .succeeded ∧ feedbackOf job = some id
  running : ∀ run ∈ s.running, ∃ job ∈ s.jobs, job.id = run.job.id ∧ feedbackOf job = feedbackOf run.job
  done : ∀ run ∈ s.running, run.done = true → ∀ id, feedbackOf run.job = some id → s.Settled id
  sound : ∀ p ∈ s.policies, Sound p

section Steps
variable {minEpisodes : ℕ} {s : State} {f : Feedback} {run : Execution} {jobs : List Job}

theorem inv_fresh (h : Fresh s) : Inv s where
  ids := by
    rw [h.jobs]
    exact nodup_nil
  stored := by
    rw [h.deferred]
    exact fun _ hid => absurd hid not_mem_nil
  targets := by
    rw [h.jobs]
    exact fun _ hjob => absurd hjob not_mem_nil
  waiting := by
    rw [h.deferred]
    exact fun _ hid => absurd hid not_mem_nil
  running := by
    rw [h.running]
    exact fun _ hrun => absurd hrun not_mem_nil
  done := by
    rw [h.running]
    exact fun _ hrun => absurd hrun not_mem_nil
  sound := fun p hp hfrom => by
    rw [h.policies p hp] at hfrom
    cases hfrom

theorem moved {op : JobOp} {r r' : Job} (h : RowStep jobs op r r') (hop : moves op = true) :
    r'.id = r.id ∧ feedbackOf r' = feedbackOf r ∧ (r.status ≠ .succeeded → r'.status ≠ .succeeded) := by
  cases h with
  | kept => exact ⟨rfl, rfl, id⟩
  | failed h =>
    unfold failedRow
    split_ifs
    · exact ⟨rfl, rfl, id⟩
    · exact ⟨rfl, rfl, fun _ => noConfusion⟩
    · exact ⟨rfl, rfl, fun _ => noConfusion⟩
  | leased h => exact ⟨rfl, rfl, fun _ => noConfusion⟩
  | deferred h hs => exact ⟨rfl, rfl, fun _ => noConfusion⟩
  | requeuedFailed hs => exact ⟨rfl, rfl, fun _ => noConfusion⟩
  | restarted hs => exact ⟨rfl, rfl, fun _ => noConfusion⟩
  | unstarted hs h => exact ⟨rfl, rfl, fun _ => noConfusion⟩
  | expired hs h => exact ⟨rfl, rfl, fun _ => noConfusion⟩
  | completed h => cases hop
  | closed hs error => cases hop
  | merged h => cases hop
  | armed h => cases hop

/-- **What changes no job**: feedback is stored or settled, and executions come past their policies or end. -/
theorem Inv.of_settled (h : Inv s) {s' : State} (hjobs : s'.jobs = s.jobs) (hdeferred : s'.deferred = s.deferred)
    (hfeedbacks : ∃ new, s'.feedbacks = s.feedbacks ++ new)
    (hrunning : ∀ run ∈ s'.running, ∃ old ∈ s.running, old.job = run.job ∧
      (run.done = true → old.done = true ∨ ∀ id, feedbackOf run.job = some id → s'.Settled id))
    (hsettled : ∀ id, s.Settled id → s'.Settled id) (hsound : ∀ p ∈ s'.policies, Sound p) : Inv s' where
  ids := by
    rw [hjobs]
    exact h.ids
  stored := fun id hid => by
    obtain ⟨new, hnew⟩ := hfeedbacks
    obtain ⟨f, hf, hpolarity⟩ := h.stored id (hdeferred ▸ hid)
    refine ⟨f, ?_, hpolarity⟩
    rw [hnew, find?_append, hf]
    rfl
  targets := by
    rw [hjobs, hdeferred]
    exact h.targets
  waiting := fun id hid => by
    rw [hjobs]
    exact (h.waiting id (hdeferred ▸ hid)).imp_left (hsettled id)
  running := fun run hrun => by
    obtain ⟨old, hold, hjob, -⟩ := hrunning run hrun
    rw [hjobs, ← hjob]
    exact h.running old hold
  done := fun run hrun hdone id hid => by
    obtain ⟨old, hold, hjob, hcase⟩ := hrunning run hrun
    rcases hcase hdone with hdone | hnew
    · exact hsettled id (h.done old hold hdone id (hjob ▸ hid))
    · exact hnew id hid
  sound := hsound

/-- **A feedback is settled**, and no other is forgotten. -/
theorem settles (h : ∀ p ∈ s.policies, Sound p) {draft : Option Draft}
    (hnew : ∀ d ∈ draft, Unrecorded f s.policies d) :
    (∀ p ∈ (s.maybeCreateFeedbackExperience minEpisodes f draft).policies, Sound p) ∧
      (s.maybeCreateFeedbackExperience minEpisodes f draft).Settled f.id ∧
      ∀ id, s.Settled id → (s.maybeCreateFeedbackExperience minEpisodes f draft).Settled id := by
  cases draft with
  | none =>
    refine ⟨h, Or.inl (mem_append_right _ (mem_singleton_self _)), fun id hid => ?_⟩
    exact hid.imp_left (mem_append_left _)
  | some d =>
    obtain ⟨hsound, hthere, hkept⟩ := save_spec h (hnew d rfl)
    refine ⟨hsound, Or.inr hthere, fun id hid => hid.imp_right ?_⟩
    rintro ⟨p, hp, hid⟩
    obtain ⟨p', hp', hsub⟩ := hkept p hp
    exact ⟨p', hp', hsub hid⟩

theorem inv_direct (h : Inv s) {draft : Option Draft} (hp : Heeded s (.direct f draft)) :
    Inv (step minEpisodes s (.direct f draft)) := by
  unfold step
  dsimp only
  split_ifs
  · exact h
  · refine h.of_settled rfl rfl ⟨[f], rfl⟩ (fun run hrun => ?_) (fun _ hid => hid) h.sound
    exact ⟨run, hrun, rfl, Or.inl⟩
  · obtain ⟨hsound, -, hkept⟩ := @settles minEpisodes { s with feedbacks := s.feedbacks ++ [f] } f h.sound draft hp
    cases draft with
    | none => exact h.of_settled rfl rfl ⟨[f], rfl⟩ (fun run hrun => ⟨run, hrun, rfl, Or.inl⟩) hkept hsound
    | some d => exact h.of_settled rfl rfl ⟨[f], rfl⟩ (fun run hrun => ⟨run, hrun, rfl, Or.inl⟩) hkept hsound

theorem Inv.feedbackFor (h : Inv s) (hrun : run ∈ s.running) :
    ∃ f, s.feedbackFor run.job = some f ∧ feedbackOf run.job = some f.id := by
  obtain ⟨job, hjob, -, hfeedback⟩ := h.running run hrun
  obtain ⟨id, hid, htarget⟩ := h.targets job hjob
  obtain ⟨f, hf, hpolarity⟩ := h.stored id hid
  have hfid := find?_some hf
  obtain rfl : f.id = id := of_decide_eq_true hfid
  rw [hfeedback] at htarget
  refine ⟨f, ?_, htarget⟩
  unfold State.feedbackFor
  rw [htarget, bind_some, hf]
  exact filter_some_pos (decide_eq_true hpolarity)

theorem inv_process (h : Inv s) {i : ℕ} {draft : Option Draft} (hp : Heeded s (.process i draft)) :
    Inv (step minEpisodes s (.process i draft)) := by
  change Inv (s.processFeedbackExperienceJob minEpisodes i draft)
  unfold State.processFeedbackExperienceJob
  split
  · next run hi =>
    have hrun : run ∈ s.running := mem_of_getElem? hi
    obtain ⟨f, hf, hid⟩ := h.feedbackFor hrun
    set s' : State := { s with running := s.running.set i { run with done := true } }
    have hf' : s'.feedbackFor run.job = some f := hf
    obtain ⟨hsound, hsettled, hkept⟩ := @settles minEpisodes s' f h.sound draft (hp run hi f hf)
    have hrunning : ∀ run' ∈ s'.running, ∃ old ∈ s.running, old.job = run'.job ∧ (run'.done = true →
        old.done = true ∨ ∀ id, feedbackOf run'.job = some id →
          (s'.maybeCreateFeedbackExperience minEpisodes f draft).Settled id) := by
      intro run' hrun'
      rcases mem_or_eq_of_mem_set hrun' with hrun' | rfl
      · exact ⟨run', hrun', rfl, Or.inl⟩
      · refine ⟨run, hrun, rfl, fun _ => Or.inr fun id hid' => ?_⟩
        obtain rfl := some.inj (hid.symm.trans hid')
        exact hsettled
    dsimp only
    rw [hf']
    cases draft with
    | none => exact h.of_settled rfl rfl ⟨[], (append_nil _).symm⟩ hrunning hkept hsound
    | some d => exact h.of_settled rfl rfl ⟨[], (append_nil _).symm⟩ hrunning hkept hsound
  · exact h

theorem inv_queue (h : Inv s) {op : JobOp} (hop : moves op = true) :
    Inv { s with
      jobs := applyOp s.jobs op
      running := s.running ++ leased s.jobs op } where
  ids := nodup_ids h.ids op
  stored := h.stored
  targets := fun job hjob => by
    have hnew : newJob? op = none := by
      cases op <;> first | rfl | cases hop
    obtain ⟨old, hold, hstep⟩ := row_before h.ids hnew hjob
    rw [(moved hstep hop).2.1]
    exact h.targets old hold
  waiting := fun id hid => (h.waiting id hid).imp_right fun ⟨job, hjob, hstatus, hfeedback⟩ => by
    obtain ⟨job', hjob', hstep⟩ := row_after h.ids op hjob
    obtain ⟨-, hsame, hactive⟩ := moved hstep hop
    exact ⟨job', hjob', hactive hstatus, hsame.trans hfeedback⟩
  running := fun run hrun => by
    rcases mem_append.mp hrun with hrun | hrun
    · obtain ⟨job, hjob, hid, hfeedback⟩ := h.running run hrun
      obtain ⟨job', hjob', hstep⟩ := row_after h.ids op hjob
      obtain ⟨hid', hsame, -⟩ := moved hstep hop
      exact ⟨job', hjob', hid'.trans hid, hsame.trans hfeedback⟩
    · cases op with
      | lease w o now =>
        obtain ⟨job, hjob, rfl⟩ := mem_map.mp hrun
        obtain ⟨row, hrow, rfl⟩ := mem_map.mp hjob
        exact ⟨_, leasedRow_mem hrow, rfl, rfl⟩
      | _ => cases hrun
  done := fun run hrun hdone => by
    rcases mem_append.mp hrun with hrun | hrun
    · exact h.done run hrun hdone
    · cases op with
      | lease w o now =>
        obtain ⟨job, -, rfl⟩ := mem_map.mp hrun
        cases hdone
      | _ => cases hrun
  sound := h.sound

/-- **A job succeeds** whose feedback is settled. -/
theorem inv_complete (h : Inv s) {i now : ℕ} (hrun : run ∈ s.running) (hdone : run.done = true) :
    Inv { s with
      jobs := completeJob run.job.id now s.jobs
      running := s.running.eraseIdx i } where
  ids := by
    change ((update (hasId run.job.id) (completedRow now) s.jobs).map Job.id).Nodup
    rw [map_update (f := completedRow now) fun _ => rfl]
    exact h.ids
  stored := h.stored
  targets := fun job hjob => by
    obtain ⟨old, hold, rfl⟩ := mem_map.mp hjob
    split_ifs <;> exact h.targets old hold
  waiting := fun id hid => by
    rcases h.waiting id hid with hsettled | ⟨job, hjob, hstatus, hfeedback⟩
    · exact Or.inl hsettled
    · by_cases heq : job.id = run.job.id
      · obtain ⟨job', hjob', hid', hsame⟩ := h.running run hrun
        obtain rfl := eq_of_key_eq h.ids hjob hjob' (heq.trans hid'.symm)
        exact Or.inl (h.done run hrun hdone id (hsame ▸ hfeedback))
      · exact Or.inr ⟨job, mem_map.mpr ⟨job, hjob, if_neg (by simpa [hasId] using heq)⟩, hstatus, hfeedback⟩
  running := fun run' hrun' => by
    obtain ⟨job, hjob, hid, hfeedback⟩ := h.running run' ((eraseIdx_sublist _ _).mem hrun')
    refine ⟨_, mem_map_of_mem hjob, ?_⟩
    split_ifs <;> exact ⟨hid, hfeedback⟩
  done := fun run' hrun' => h.done run' ((eraseIdx_sublist _ _).mem hrun')
  sound := h.sound

/-- **A feedback is left to a job** of its own. -/
theorem inv_defer (h : Inv s) {w : Surroundings} {id : String} {now : ℕ}
    (hfresh : ¬ ∃ g ∈ s.feedbacks, g.id = f.id) (hpolarity : f.polarity ≠ .negative)
    (hp : Heeded s (.defer f w id now)) (hjobs : enqueueJob w (experienceJob f id now) s.jobs = .ok jobs) :
    Inv { s with
      feedbacks := s.feedbacks ++ [f]
      jobs := jobs
      deferred := s.deferred ++ [f.id] } := by
  have hnone : existingJob w (experienceJob f id now) s.jobs = none := by
    unfold existingJob
    dsimp only [experienceJob]
    split_ifs
    · rfl
    · refine eq_none_iff_forall_not_mem.mpr fun job hjob => ?_
      obtain ⟨hmem, hkey, hactive⟩ := getActiveJob_active hjob
      rw [hp job hmem hkey] at hactive
      cases hactive
  unfold enqueueJob at hjobs
  rw [hnone] at hjobs
  obtain ⟨rfl, hfits⟩ := insertRow_ok hjobs
  exact {
    ids := by
      rw [map_append, nodup_append_comm]
      refine nodup_cons.mpr ⟨fun hmem => ?_, h.ids⟩
      obtain ⟨job, hjob, hid⟩ := mem_map.mp hmem
      exact hfits.id_new job hjob hid
    stored := fun id' hid => by
      rw [find?_append]
      rcases mem_append.mp hid with hid | hid
      · obtain ⟨g, hg, hgood⟩ := h.stored id' hid
        exact ⟨g, by rw [hg]; rfl, hgood⟩
      · rw [mem_singleton.mp hid, find?_eq_none.mpr fun g hg he => hfresh ⟨g, hg, of_decide_eq_true he⟩]
        exact ⟨f, by simp, hpolarity⟩
    targets := fun job hjob => by
      rcases mem_append.mp hjob with hjob | hjob
      · obtain ⟨id', hid, hfeedback⟩ := h.targets job hjob
        exact ⟨id', mem_append_left _ hid, hfeedback⟩
      · rw [mem_singleton.mp hjob]
        exact ⟨f.id, mem_append_right _ (mem_singleton_self _), rfl⟩
    waiting := fun id' hid => by
      rcases mem_append.mp hid with hid | hid
      · refine (h.waiting id' hid).imp_right ?_
        rintro ⟨job, hjob, hwaits⟩
        exact ⟨job, mem_append_left _ hjob, hwaits⟩
      · rw [mem_singleton.mp hid]
        exact Or.inr ⟨_, mem_append_right _ (mem_singleton_self _), noConfusion, rfl⟩
    running := fun run hrun => by
      obtain ⟨job, hjob, hsame⟩ := h.running run hrun
      exact ⟨job, mem_append_left _ hjob, hsame⟩
    done := h.done
    sound := h.sound }

theorem inv_step (h : Inv s) {e : Event} (hp : Heeded s e) : Inv (step minEpisodes s e) := by
  have hstored : ∀ f, Inv { s with feedbacks := s.feedbacks ++ [f] } := fun f =>
    h.of_settled rfl rfl ⟨[f], rfl⟩ (fun run hrun => ⟨run, hrun, rfl, Or.inl⟩) (fun _ hid => hid) h.sound
  cases e with
  | direct f draft => exact inv_direct h hp
  | defer f w id now =>
    unfold step
    dsimp only
    split_ifs with hno
    · exact h
    · rw [not_or] at hno
      split
      · next jobs hjobs => exact inv_defer h hno.1 hno.2 hp hjobs
      · exact hstored f
  | queue op =>
    unfold step
    dsimp only
    split_ifs with hop
    · exact inv_queue h hop
    · exact h
  | process i draft => exact inv_process h hp
  | complete i now =>
    unfold step
    dsimp only
    split
    · next run hi =>
      split_ifs with hdone
      · exact inv_complete h (mem_of_getElem? hi) hdone
      · exact h
    · exact h
  | stop i =>
    refine h.of_settled rfl rfl ⟨[], (append_nil _).symm⟩ (fun run hrun => ?_) (fun _ hid => hid) h.sound
    exact ⟨run, (eraseIdx_sublist _ _).mem hrun, rfl, Or.inl⟩

end Steps

/-! ### Runs -/

/-- **Every feedback counts once** in every state of a run whose steps heed the condition. -/
theorem counted_of_heeded (minEpisodes : ℕ) {s₀ : State} (h₀ : Fresh s₀) (es : List Event)
    (h : ∀ t ∈ taken (step minEpisodes) s₀ es, Heeded t.1 t.2) :
    ∀ s ∈ visited (step minEpisodes) s₀ es, Counted s := by
  intro s hs
  have hinv := invariant_of_steps (P := Heeded) (fun s e hs hp => inv_step hs hp) es s₀ (inv_fresh h₀) h s hs
  refine ⟨fun hall id hid => (hinv.waiting id hid).resolve_right ?_, fun p hp hfrom => (hinv.sound p hp hfrom).2⟩
  rintro ⟨job, hjob, hstatus, -⟩
  exact hstatus (hall job hjob)

/-! ### Two feedbacks on one answer -/

def firstFeedback : Feedback where
  id := "f1"
  userId := "u"
  contextHash := some "c"
  polarity := .positive

def secondFeedback : Feedback := { firstFeedback with id := "f2" }

def usualWorld : Surroundings := {}

theorem fresh_empty : Fresh {} := ⟨nofun, rfl, rfl, rfl⟩

/-- Both are left to jobs before a worker comes; the job that there is runs and succeeds. -/
def overwritten : List Event :=
  [ .defer firstFeedback usualWorld "j1" 1, .defer secondFeedback usualWorld "j2" 2, .queue (.lease usualWorld {} 3),
    .process 0 (some ⟨"k", none, "p"⟩), .complete 0 4 ]

/-- **Not every feedback counts**: the second takes the place of the first in the job. -/
theorem not_counted : ¬ ∀ (minEpisodes : ℕ) (s₀ : State) (es : List Event), Fresh s₀ →
    ∀ s ∈ visited (step minEpisodes) s₀ es, Counted s := by
  intro h
  have hcounted := h 2 {} overwritten fresh_empty _ (final_mem_visited _ _ _)
  have hjobs : ∀ job ∈ (final (step 2) {} overwritten).jobs, job.status = .succeeded := by decide +kernel
  have hsettled := hcounted.settled hjobs "f1" (by decide +kernel)
  revert hsettled
  unfold State.Settled
  decide +kernel

theorem counted_of_heeded_once : Counted (final (step 2) {}
    [ .defer firstFeedback usualWorld "j1" 1, .queue (.lease usualWorld {} 3),
      .process 0 (some ⟨"k", none, "p"⟩), .complete 0 4 ]) := by
  refine counted_of_heeded 2 fresh_empty _ ?_ _ (final_mem_visited _ _ _)
  intro t ht
  simp only [taken_cons, taken_nil, mem_cons, not_mem_nil, or_false] at ht
  rcases ht with rfl | rfl | rfl | rfl
  · exact fun job hjob => absurd hjob not_mem_nil
  · trivial
  · rintro run - f - d hd
    cases hd
    exact fun p hp => absurd hp not_mem_nil
  · trivial

end Memmy.Service.FeedbackExperience
