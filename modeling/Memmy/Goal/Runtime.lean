import Memmy.Goal.State
import Memmy.Lib.Result
import Memmy.Lib.Run

/-! # The goal runtime of one session

`GoalRuntime` as a machine over the atomic parts of its asynchronous methods. A lifecycle method
(`create`, `updateFromModel`, `pauseAndCancel`, `resume`, `edit`, `setBudget`, `clear`) enters by
taking the session's lifecycle control (`Event.call`), then its `mutate` runs under the session's
mutex (`Event.mutate`), then its callbacks run and the control is given back (`Event.finish`).
`settleTurn` takes no control: it enters (`Event.settleTurn`) and its `mutate` runs at any later
moment (`Event.settle`), so it interleaves with every lifecycle method. A `mutate` whose operation
throws or whose save fails leaves the metadata as it was. -/

namespace Memmy.Goal.Runtime

open Lib.Text Lib.Result Goal.State

inductive GoalRuntimeError where
  | invalidObjective
  | invalidTokenBudget
  | goalRouteUnavailable
  | goalTurnSettling
  | goalUnfinished
  | goalNotFound
  | goalIdMismatch
  | invalidTransition
  | budgetExhausted
  | clearCancelFailed
  | goalControlBusy
  deriving DecidableEq, Repr

/-- The `code` of the error, which is also its message. -/
def GoalRuntimeError.code : GoalRuntimeError → String
  | .invalidObjective => "invalid_objective"
  | .invalidTokenBudget => "invalid_token_budget"
  | .goalRouteUnavailable => "goal_route_unavailable"
  | .goalTurnSettling => "goal_turn_settling"
  | .goalUnfinished => "goal_unfinished"
  | .goalNotFound => "goal_not_found"
  | .goalIdMismatch => "goal_id_mismatch"
  | .invalidTransition => "invalid_transition"
  | .budgetExhausted => "budget_exhausted"
  | .clearCancelFailed => "clear_cancel_failed"
  | .goalControlBusy => "goal_control_busy"

/-! ### Inputs -/

def normalizeObjective (value : String) : Except GoalRuntimeError String :=
  let objective := trim value
  if objective = "" ∨ maxGoalObjectiveLength < utf16Length objective then .error .invalidObjective
  else .ok objective

/-- A budget that has passed `normalizeTokenBudget`. -/
abbrev TokenBudget : Type := { n : ℕ // 0 < n }

/-- `none` is `null`. -/
def normalizeTokenBudget : Option JsNumber → Except GoalRuntimeError (Option TokenBudget)
  | none => .ok none
  | some value =>
    match value.safeInteger? with
    | some n => if h : 0 < n then .ok (some ⟨n.toNat, by omega⟩) else .error .invalidTokenBudget
    | none => .error .invalidTokenBudget

def normalizeUsageValue : Option JsNumber → ℕ
  | none => 0
  | some value => value.floorPositive

structure Usage where
  promptTokens : Option JsNumber
  completionTokens : Option JsNumber
  totalTokens : Option JsNumber
  deriving DecidableEq

def goalTurnTokens (usage : Usage) : ℕ :=
  if 0 < normalizeUsageValue usage.totalTokens then normalizeUsageValue usage.totalTokens
  else normalizeUsageValue usage.promptTokens + normalizeUsageValue usage.completionTokens

inductive ProviderErrorCategory where
  | quotaExhausted
  | imageInputUnsupported
  | imageAnalysisFailed
  deriving DecidableEq, Repr

structure SettleInput where
  turnId : String
  goalId : Option String
  usage : Usage
  latencyMs : ℚ
  stopReason : String
  errorCategory : Option ProviderErrorCategory
  deriving DecidableEq

/-- The statuses the model may set: `completed` or `blocked`. -/
def ModelStatus : Type := { status : GoalStatus // status = .completed ∨ status = .blocked }

/-! ### State -/

structure GoalTurnLease where
  goalId : String
  turnId : String
  settling : Bool
  deriving DecidableEq, Repr

inductive WorkKind where
  | inbox
  | continuation
  deriving DecidableEq, Repr

structure GoalWorkReservation where
  turnId : String
  kind : WorkKind
  deriving DecidableEq, Repr

structure GoalSettlement where
  goal : Option GoalState
  publicState : AgentGoalState
  shouldContinue : Bool
  deriving DecidableEq, Repr

structure GoalTurnSettlementRecord where
  goalId : String
  result : GoalSettlement
  deriving DecidableEq, Repr

/-- A lifecycle method past its synchronous start, holding the session's control. -/
inductive Control where
  | create (objective : String) (tokenBudget : Option TokenBudget) (route : GoalRoute) (turnId : String)
  | updateFromModel (goalId : String) (status : ModelStatus)
  | pauseAndCancel (goalId : String)
  | resume (goalId : String)
  | edit (goalId objective : String)
  | setBudget (goalId : String) (tokenBudget : Option TokenBudget) (willCancel : Bool)
  | clearPause (goalId : String)
  | clear (goalId : String) (pausedSnapshot : Option GoalState)
  /-- `clear` waiting for the running turn to be cancelled. -/
  | clearCancelling (goalId : String) (pausedSnapshot : GoalState)
  /-- The `mutate` is done; `settlement` tells which of the two `finally` parts is to come. -/
  | ending (settlement : Bool)

structure RuntimeState where
  goalState : Option GoalState := none
  goalRoute : Option GoalRoute := none
  claims : List (String × String) := []
  lease : Option GoalTurnLease := none
  workReservation : Option GoalWorkReservation := none
  /-- `lifecycleControls.has(sessionKey)`, with the method that holds it. -/
  control : Option Control := none
  settling : List SettleInput := []
  turnSettlements : List (String × GoalTurnSettlementRecord) := []

namespace RuntimeState

def setSettling (s : RuntimeState) (b : Bool) : RuntimeState :=
  { s with lease := s.lease.map fun l => { l with settling := b } }

/-- `assertLifecycleAvailable` passes. -/
def lifecycleAvailable (s : RuntimeState) : Bool := s.control.isNone && !(s.lease.any fun l => l.settling)

def endLifecycleControl (s : RuntimeState) : RuntimeState := { s with control := none }

def endLifecycleSettlement (s : RuntimeState) : RuntimeState := s.endLifecycleControl.setSettling false

def invalidateContinuationReservation (s : RuntimeState) : RuntimeState :=
  if s.workReservation.any fun r => r.kind = .continuation then { s with workReservation := none }
  else s

def clearGoalRuntimeWork (s : RuntimeState) : RuntimeState :=
  { s.invalidateContinuationReservation with claims := [], lease := none, turnSettlements := [] }

section
variable (s : RuntimeState)
include s

@[simp] theorem setSettling_goalState (b : Bool) : (s.setSettling b).goalState = s.goalState := rfl

@[simp] theorem endLifecycleControl_goalState : s.endLifecycleControl.goalState = s.goalState := rfl

@[simp] theorem endLifecycleSettlement_goalState : s.endLifecycleSettlement.goalState = s.goalState := rfl

@[simp] theorem invalidateContinuationReservation_goalState :
    s.invalidateContinuationReservation.goalState = s.goalState := by
  unfold invalidateContinuationReservation; split_ifs <;> rfl

@[simp] theorem clearGoalRuntimeWork_goalState : s.clearGoalRuntimeWork.goalState = s.goalState := by
  simp [clearGoalRuntimeWork]

end

end RuntimeState

/-! ### The operations under the mutex -/

/-- The goal a method is about: stored, readable and of the given id. -/
def currentGoal (stored : Option GoalState) (goalId : String) :
    Except GoalRuntimeError GoalState :=
  match readGoalState stored with
  | none => .error .goalNotFound
  | some goal => if goal.goalId ≠ goalId then .error .goalIdMismatch else .ok goal

def createOp (stored : Option GoalState) (uuid : String) (now : ℕ) (objective : String)
    (tokenBudget : Option TokenBudget) : Except GoalRuntimeError GoalState :=
  if (readGoalState stored).any fun g => g.status ≠ .completed then .error .goalUnfinished
  else .ok
    { goalId := uuid
      objective := objective
      status := .active
      tokenBudget := tokenBudget.map (·.1)
      tokensUsed := 0
      timeUsedSeconds := 0
      createdAt := now
      updatedAt := now }

def updateFromModelOp (stored : Option GoalState) (now : ℕ) (goalId : String)
    (status : ModelStatus) : Except GoalRuntimeError GoalState := do
  let goal ← currentGoal stored goalId
  throwIf (goal.status ≠ .active) .invalidTransition
  return { goal with status := status.1, updatedAt := nextGoalUpdatedAt goal.updatedAt now }

def pauseOp (stored : Option GoalState) (now : ℕ) (goalId : String) :
    Except GoalRuntimeError GoalState := do
  let current ← currentGoal stored goalId
  throwIf (current.status ≠ .active) .invalidTransition
  return { current with status := .paused, updatedAt := nextGoalUpdatedAt current.updatedAt now }

def resumeOp (stored : Option GoalState) (now : ℕ) (goalId : String) :
    Except GoalRuntimeError GoalState := do
  let current ← currentGoal stored goalId
  throwIf (current.status = .budgetLimited) .budgetExhausted
  throwIf (current.status ∉ [.paused, .blocked, .usageLimited]) .invalidTransition
  return { current with status := .active, updatedAt := nextGoalUpdatedAt current.updatedAt now }

def editOp (stored : Option GoalState) (now : ℕ) (goalId objective : String) :
    Except GoalRuntimeError GoalState := do
  let current ← currentGoal stored goalId
  throwIf (current.status = .active ∨ current.status = .completed) .invalidTransition
  return { current with
    objective := objective, updatedAt := nextGoalUpdatedAt current.updatedAt now }

/-- The status `setBudget` leaves. -/
def budgetStatus (status : GoalStatus) (tokenBudget : Option ℕ) (tokensUsed : ℕ) : GoalStatus :=
  if status = .budgetLimited ∧ (∀ b ∈ tokenBudget, tokensUsed < b) then .paused
  else if status = .active ∧ (∃ b ∈ tokenBudget, b ≤ tokensUsed) then .budgetLimited
  else status

def setBudgetOp (stored : Option GoalState) (now : ℕ) (goalId : String)
    (tokenBudget : Option TokenBudget) : Except GoalRuntimeError GoalState := do
  let current ← currentGoal stored goalId
  throwIf (current.status = .completed) .invalidTransition
  return { current with
    status := budgetStatus current.status (tokenBudget.map (·.1)) current.tokensUsed
    tokenBudget := tokenBudget.map (·.1)
    updatedAt := nextGoalUpdatedAt current.updatedAt now }

/-- The first `mutate` of `clear`, for a running goal. -/
def clearPauseOp (stored : Option GoalState) (now : ℕ) (goalId : String) :
    Except GoalRuntimeError GoalState := do
  let goal ← currentGoal stored goalId
  throwIf (goal.status ≠ .active) .goalTurnSettling
  return { goal with status := .paused, updatedAt := nextGoalUpdatedAt goal.updatedAt now }

def isClearablePausedGoal (current snapshot : GoalState) : Bool :=
  current.goalId = snapshot.goalId ∧ current.objective = snapshot.objective ∧
    current.status = .paused ∧ current.tokenBudget = snapshot.tokenBudget ∧
    current.createdAt = snapshot.createdAt ∧ snapshot.tokensUsed ≤ current.tokensUsed ∧
    snapshot.timeUsedSeconds ≤ current.timeUsedSeconds ∧ snapshot.updatedAt ≤ current.updatedAt

/-- The last `mutate` of `clear`: whether the goal may be deleted. -/
def clearOp (stored : Option GoalState) (goalId : String) (pausedSnapshot : Option GoalState) :
    Except GoalRuntimeError Unit := do
  let goal ← currentGoal stored goalId
  throwIf (pausedSnapshot.any fun snapshot => !isClearablePausedGoal goal snapshot) .goalTurnSettling

/-- The status a settled turn leaves, with the new token count. -/
def settledStatus (current : GoalState) (tokensUsed : ℕ) (input : SettleInput) : GoalStatus :=
  let status :=
    if current.status = .active ∧ input.stopReason ∈ ["error", "toolError"] then
      if input.errorCategory = some .quotaExhausted then .usageLimited else .blocked
    else current.status
  if status = .active ∧ (∃ b ∈ current.tokenBudget, b ≤ tokensUsed) then .budgetLimited
  else status

def settledGoal (current : GoalState) (now : ℕ) (input : SettleInput) : GoalState :=
  let tokensUsed := current.tokensUsed + goalTurnTokens input.usage
  { current with
    status := settledStatus current tokensUsed input
    tokensUsed := tokensUsed
    timeUsedSeconds := current.timeUsedSeconds + (⌈max 0 input.latencyMs / 1000⌉).toNat
    updatedAt := nextGoalUpdatedAt current.updatedAt now }

/-- `GOAL_TURN_SETTLEMENT_LIMIT`. -/
def goalTurnSettlementLimit : ℕ := 64

/-- `records.set(turnId, record)`, then the oldest records beyond the limit are dropped. A key
that is set again keeps its place. -/
def recordSettlement (records : List (String × GoalTurnSettlementRecord)) (turnId : String)
    (record : GoalTurnSettlementRecord) : List (String × GoalTurnSettlementRecord) :=
  let set :=
    if records.any fun r => r.1 = turnId then
      records.map fun r => if r.1 = turnId then (turnId, record) else r
    else records ++ [(turnId, record)]
  set.drop (set.length - goalTurnSettlementLimit)

/-! ### Events -/

inductive Event where
  | create (objective : String) (tokenBudget : Option JsNumber) (route : GoalRoute) (turnId : String)
  | updateFromModel (goalId : String) (status : ModelStatus)
  | pauseAndCancel (goalId : String)
  | resume (goalId : String)
  | edit (goalId objective : String)
  | setBudget (goalId : String) (value : Option JsNumber)
  | clear (goalId : String)
  /-- The `mutate` of the method that holds the control; `saved` tells whether the save succeeds. -/
  | mutate (saved : Bool) (now : ℕ) (uuid : String)
  /-- The callbacks of that method return, `cancelled` without an error. -/
  | finish (cancelled : Bool)
  | settleTurn (input : SettleInput)
  | settle (k : ℕ) (saved : Bool) (now : ℕ)
  | registerLease (goalId turnId : String)
  | releaseTurn (turnId : String)
  | reserveWork (reservation : GoalWorkReservation)
  | releaseWork (turnId : String)

/-- `current.goalId === goalId && status === "active" && tokenBudget <= tokensUsed`. -/
def willCancel (stored : Option GoalState) (goalId : String) (tokenBudget : Option TokenBudget) :
    Bool :=
  (readGoalState stored).any fun before =>
    before.goalId = goalId ∧ before.status = .active ∧ ∃ b ∈ tokenBudget, b.1 ≤ before.tokensUsed

/-- `beginLifecycleControl`, for the method `c`; an error leaves the state as it is. -/
def beginLifecycleControl (s : RuntimeState) (c : Control) : RuntimeState :=
  if s.lifecycleAvailable then { s with control := some c } else s

/-- `beginLifecycleSettlement`, for the method `c`. -/
def beginLifecycleSettlement (s : RuntimeState) (c : Control) : RuntimeState :=
  if s.lifecycleAvailable then { s.setSettling true with control := some c } else s

/-- The start of `clear`: it reads the goal before its first `mutate`. -/
def beginClear (s : RuntimeState) (goalId : String) : RuntimeState :=
  if s.lifecycleAvailable then
    match currentGoal s.goalState goalId with
    | .error _ => s.endLifecycleSettlement
    | .ok current =>
      let running := s.lease.any fun l => l.goalId = goalId
      if running ∧ current.status = .active then beginLifecycleSettlement s (.clearPause goalId)
      else beginLifecycleSettlement s (.clear goalId none)
  else s

/-- The `mutate` of a method that writes `goal` when its operation succeeds. -/
def commitGoal (s : RuntimeState) (saved : Bool) (op : Except GoalRuntimeError GoalState)
    (settlement : Bool) (commit : GoalState → RuntimeState → RuntimeState) : RuntimeState :=
  match op with
  | .ok goal =>
    if saved then { commit goal { s with goalState := some goal } with
      control := some (.ending settlement) }
    else if settlement then s.endLifecycleSettlement else s.endLifecycleControl
  | .error _ => if settlement then s.endLifecycleSettlement else s.endLifecycleControl

def runMutate (s : RuntimeState) (saved : Bool) (now : ℕ) (uuid : String) : Control → RuntimeState
  | .create objective tokenBudget route turnId =>
    commitGoal s saved (createOp s.goalState uuid now objective tokenBudget) false
      fun goal s => { s with
        goalRoute := some route
        claims := (turnId, goal.goalId) :: s.claims.filter fun c => c.1 ≠ turnId
        lease := some { goalId := goal.goalId, turnId := turnId, settling := false } }
  | .updateFromModel goalId status =>
    commitGoal s saved (updateFromModelOp s.goalState now goalId status) false
      fun _ s => if s.lease.any fun l => l.goalId = goalId then s.setSettling true else s
  | .pauseAndCancel goalId =>
    commitGoal s saved (pauseOp s.goalState now goalId) true
      fun _ s => s.invalidateContinuationReservation
  | .resume goalId => commitGoal s saved (resumeOp s.goalState now goalId) false fun _ s => s
  | .edit goalId objective =>
    commitGoal s saved (editOp s.goalState now goalId objective) false fun _ s => s
  | .setBudget goalId tokenBudget cancel =>
    commitGoal s saved (setBudgetOp s.goalState now goalId tokenBudget) cancel
      fun goal s =>
        if (goal.status = .budgetLimited ∧ cancel = true) ∨ goal.status = .active then
          s.invalidateContinuationReservation
        else s
  | .clearPause goalId =>
    match clearPauseOp s.goalState now goalId with
    | .ok goal =>
      if saved then
        { s with goalState := some goal, control := some (.clearCancelling goalId goal) }
      else s.endLifecycleSettlement
    | .error _ => s.endLifecycleSettlement
  | .clear goalId pausedSnapshot =>
    match clearOp s.goalState goalId pausedSnapshot with
    | .ok _ =>
      if saved then
        { { s with goalState := none, goalRoute := none }.clearGoalRuntimeWork with
          control := some (.ending true) }
      else s.endLifecycleSettlement
    | .error _ => s.endLifecycleSettlement
  | .clearCancelling goalId snapshot =>
    { s with control := some (.clearCancelling goalId snapshot) }
  | .ending settlement => { s with control := some (.ending settlement) }

def runFinish (s : RuntimeState) (cancelled : Bool) : Control → RuntimeState
  | .ending true => s.endLifecycleSettlement
  | .ending false => s.endLifecycleControl
  | .clearCancelling goalId snapshot =>
    if cancelled then { s with control := some (.clear goalId (some snapshot)) }
    else s.endLifecycleSettlement
  | c => { s with control := some c }

/-- The `mutate` of `settleTurn`. A turn settled before gets its recorded result again. -/
def runSettle (s : RuntimeState) (saved : Bool) (now : ℕ) (input : SettleInput) (goalId : String) :
    RuntimeState :=
  if s.turnSettlements.any fun r => r.1 = input.turnId then s
  else
    match readGoalState s.goalState with
    | none => s
    | some current =>
      if current.goalId ≠ goalId then s
      else if saved then
        let updated := settledGoal current now input
        let result : GoalSettlement :=
          { goal := some updated
            publicState := publicGoalState (some updated)
            shouldContinue := updated.status = .active }
        { s with
          goalState := some updated
          turnSettlements := recordSettlement s.turnSettlements input.turnId ⟨goalId, result⟩ }
      else s

def step (s : RuntimeState) : Event → RuntimeState
  | .create objective tokenBudget route turnId =>
    match normalizeObjective objective, normalizeTokenBudget tokenBudget with
    | .ok objective, .ok tokenBudget =>
      if trim route.channel = "" ∨ trim route.chatId = "" then s
      else beginLifecycleControl s (.create objective tokenBudget route turnId)
    | _, _ => s
  | .updateFromModel goalId status => beginLifecycleControl s (.updateFromModel goalId status)
  | .pauseAndCancel goalId => beginLifecycleSettlement s (.pauseAndCancel goalId)
  | .resume goalId => beginLifecycleControl s (.resume goalId)
  | .edit goalId objective =>
    match normalizeObjective objective with
    | .ok objective => beginLifecycleControl s (.edit goalId objective)
    | .error _ => s
  | .setBudget goalId value =>
    match normalizeTokenBudget value with
    | .ok tokenBudget =>
      if willCancel s.goalState goalId tokenBudget then
        beginLifecycleSettlement s (.setBudget goalId tokenBudget true)
      else beginLifecycleControl s (.setBudget goalId tokenBudget false)
    | .error _ => s
  | .clear goalId => beginClear s goalId
  | .mutate saved now uuid =>
    match s.control with
    | some c => runMutate s saved now uuid c
    | none => s
  | .finish cancelled =>
    match s.control with
    | some c => runFinish s cancelled c
    | none => s
  | .settleTurn input =>
    match input.goalId with
    | none => s
    | some goalId =>
      let s := { s with settling := s.settling ++ [input] }
      if s.lease.any fun l => l.turnId = input.turnId ∧ l.goalId = goalId then s.setSettling true
      else s
  | .settle k saved now =>
    match s.settling[k]? with
    | none => s
    | some input =>
      runSettle { s with settling := s.settling.eraseIdx k } saved now input (input.goalId.getD "")
  | .registerLease goalId turnId =>
    if s.lifecycleAvailable ∧ ¬ (s.lease.any fun l => l.turnId ≠ turnId) then
      { s with lease := some { goalId := goalId, turnId := turnId, settling := false } }
    else s
  | .releaseTurn turnId =>
    { s with
      claims := s.claims.filter fun c => c.1 ≠ turnId
      lease := s.lease.filter fun l => l.turnId ≠ turnId }
  | .reserveWork reservation =>
    if s.workReservation.isNone then { s with workReservation := some reservation } else s
  | .releaseWork turnId =>
    { s with workReservation := s.workReservation.filter fun r => r.turnId ≠ turnId }

end Memmy.Goal.Runtime
