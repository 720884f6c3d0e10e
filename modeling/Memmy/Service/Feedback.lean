import Memmy.Service.Idempotency

/-! # The feedback of a user

The operation behind `feedback.add`: it inserts the feedback before its first await, asks a model for a
repair and for an experience when these are not deferred to a job, and logs the change in its last
segment. `FeedbackPlan` is what the request, the store and the configuration decide.

* `overlap_writes_twice`: a second request that arrives while the first awaits the model. -/

namespace Memmy.Service.Feedback

open Lib.JsonValue Lib.Run List
open Service.Idempotency

inductive FeedbackWrite where
  | insertFeedback
  | appendEpisodeFeedback
  | decisionRepair
  | recallEventOutcome
  | experience
  | job (jobType : String)
  | appendChange
deriving DecidableEq

structure FeedbackPlan where
  feedbackId : String
  /-- The recall event that the request names and the store does not have. -/
  missingRecallEvent : Option String := none
  inEpisode : Bool := false
  deferDecisionRepair : Bool := false
  repairs : Bool := false
  recallOutcome : Bool := false
  repairJob : Bool := false
  negative : Bool := false
  experienceJob : Bool := false
  rewardJob : Bool := false
  pendingTrials : ℕ := 0

inductive FeedbackCont where
  | repair (plan : FeedbackPlan)
  | experience (plan : FeedbackPlan) (jobs : ℕ)

def writeIf (c : Bool) (w : FeedbackWrite) : List FeedbackWrite := if c then [w] else []

/-- The body of the answer. -/
def feedbackResponse (plan : FeedbackPlan) (jobs : ℕ) : Json :=
  .obj [("id", .str plan.feedbackId), ("scheduledEvolution", .bool (0 < jobs)),
    ("feedbackId", .str plan.feedbackId)]

/-- The last segment: reward and trial jobs, and the change log. -/
def finishFeedback (plan : FeedbackPlan) (writes : List FeedbackWrite) (jobs : ℕ) :
    Segment FeedbackWrite FeedbackCont where
  writes := writes ++ writeIf plan.rewardJob (.job "reward") ++
    List.replicate plan.pendingTrials (.job "skill_trial_resolve") ++ [.appendChange]
  next := .returns (feedbackResponse plan (jobs + (if plan.rewardJob then 1 else 0) +
    plan.pendingTrials))

def afterRepair (plan : FeedbackPlan) (writes : List FeedbackWrite) :
    Segment FeedbackWrite FeedbackCont :=
  let writes := writes ++ writeIf plan.repairs .decisionRepair ++
    writeIf plan.recallOutcome .recallEventOutcome ++ writeIf plan.repairJob (.job "decision_repair")
  let jobs := if plan.repairJob then 1 else 0
  if plan.negative then finishFeedback plan writes jobs
  else if plan.deferDecisionRepair && plan.experienceJob then
    finishFeedback plan (writes ++ [.job "feedback_experience"]) (jobs + 1)
  else { writes := writes, next := .awaits (.experience plan jobs) }

def runFeedback (plan : FeedbackPlan) : Segment FeedbackWrite FeedbackCont :=
  match plan.missingRecallEvent with
  | some id => { next := .throws ("recall event not found: " ++ id) }
  | none =>
    let writes := .insertFeedback :: writeIf plan.inEpisode .appendEpisodeFeedback
    if plan.deferDecisionRepair then afterRepair plan writes
    else { writes := writes, next := .awaits (.repair plan) }

/-- `experienceJobs` are the jobs of `maybeCreateFeedbackExperience`, none when it creates nothing. -/
def resumeFeedback (experienceJobs : FeedbackPlan → List FeedbackWrite → Option ℕ) :
    FeedbackCont → List FeedbackWrite → Segment FeedbackWrite FeedbackCont
  | .repair plan, _ => afterRepair plan []
  | .experience plan jobs, store =>
    match experienceJobs plan store with
    | some n => finishFeedback plan (.experience :: List.replicate n (.job "embedding")) (jobs + n)
    | none => finishFeedback plan [] jobs

/-- `FeedbackExperienceService.feedback` between the two calls on the row of the key. -/
def feedbackOperation {Body : Type*} (plan : Body → List FeedbackWrite → FeedbackPlan)
    (experienceJobs : FeedbackPlan → List FeedbackWrite → Option ℕ) (fingerprint : Body → Json) :
    Operation Body FeedbackWrite FeedbackCont where
  run := fun body store => runFeedback (plan body store)
  resume := resumeFeedback experienceJobs
  disabled := fun body store => { next := .returns (feedbackResponse (plan body store) 0) }
  fingerprint := fingerprint

/-! ### One feedback, sent again -/

/-- The body is the rationale; ids are numbered by the size of the store. -/
def thumbsUp : Operation String FeedbackWrite FeedbackCont :=
  feedbackOperation (fun _ store => { feedbackId := "feedback_" ++ toString store.length })
    (fun _ _ => none) .str

def bodyHashes : Hashes where
  stableHash
    | .obj [(_, .str text)] => text
    | _ => ""
  exactHash := fun _ => ""

def emptyStore : State String FeedbackWrite FeedbackCont := ⟨[], none, []⟩

def sent : Event String FeedbackWrite := .arrive .feedback "good" true

/-- **Overlapping requests**: the same feedback arrives again while the first awaits the model. Both
insert it, and they are answered with two ids. -/
theorem overlap_writes_twice :
    let s := final (step bodyHashes "feedback.add" thumbsUp) emptyStore
      [sent, sent, .resume 0, .resume 0, .resume 1, .resume 1]
    s.store = [.insertFeedback, .insertFeedback, .appendChange, .appendChange] ∧ ¬ Idempotent s := by
  refine ⟨by decide, fun h => ?_⟩
  have := h.once 0 1 _ _ rfl rfl rfl rfl
  cases this

/-- A feedback that was answered, and the same request again. -/
theorem repeat_is_idempotent :
    Idempotent (final (step bodyHashes "feedback.add" thumbsUp) emptyStore
      [sent, .resume 0, .resume 0, sent]) :=
  run_idempotent bodyHashes "feedback.add" thumbsUp [] none _
    (by
      simp only [taken_cons, taken_nil, forall_mem_cons]
      refine ⟨⟨rfl, fun _ _ hx => absurd hx not_mem_nil⟩, trivial, trivial, ⟨rfl, fun hnone => ?_⟩, nofun⟩
      exact absurd (congrArg Option.isSome hnone) Bool.noConfusion)
    _ (final_mem_visited _ _ _)

end Memmy.Service.Feedback
