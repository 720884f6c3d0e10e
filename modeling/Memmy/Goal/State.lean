import Memmy.Lib.Text

/-! # Goals of a session

The record of a session's goal (`GoalState`), as `goal-state.ts` stores it under `goalState` in the
session's metadata. What is read back passes `parseGoalState`, so a record that has left the range
of safe integers is no longer seen as a goal. Times are milliseconds. -/

namespace Memmy.Goal.State

open Lib.Text

inductive GoalStatus where
  | active
  | paused
  | blocked
  | usageLimited
  | budgetLimited
  | completed
  deriving DecidableEq, Repr

/-- `MAX_GOAL_OBJECTIVE_LENGTH`. -/
def maxGoalObjectiveLength : ℕ := 12000

structure GoalState where
  goalId : String
  objective : String
  status : GoalStatus
  tokenBudget : Option ℕ
  tokensUsed : ℕ
  timeUsedSeconds : ℕ
  createdAt : ℕ
  updatedAt : ℕ
  deriving DecidableEq, Repr

inductive TurnSourceKind where
  | gui
  | tui
  | im
  deriving DecidableEq, Repr

structure TurnSource where
  kind : TurnSourceKind
  channel : String
  deriving DecidableEq, Repr

structure GoalRoute where
  channel : String
  chatId : String
  source : Option TurnSource := none
  deriving DecidableEq, Repr

/-- What the goal looks like outside: `AgentGoalState`. -/
structure AgentGoalState where
  goalId : Option String
  status : Option GoalStatus
  objective : String
  tokenBudget : Option ℕ
  tokensUsed : ℕ
  timeUsedSeconds : ℕ
  createdAt : Option ℕ
  updatedAt : Option ℕ
  deriving DecidableEq, Repr

def isHex (c : Char) : Bool := c.isDigit || ('a' ≤ c.toLower && c.toLower ≤ 'f')

/-- `UUID_PATTERN`. -/
def isUuid (s : String) : Bool :=
  match s.toList.splitOn '-' with
  | [a, b, c, d, e] =>
    a.length == 8 && b.length == 4 && c.length == 4 && d.length == 4 && e.length == 12 &&
      (a ++ b ++ c ++ d ++ e).all isHex &&
      c.headD '0' ∈ ['1', '2', '3', '4', '5'] && (d.headD '0').toLower ∈ ['8', '9', 'a', 'b']
  | _ => false

def isNonNegativeInteger (n : ℕ) : Prop := n ≤ JsNumber.maxSafeInteger

instance (n : ℕ) : Decidable (isNonNegativeInteger n) := by
  unfold isNonNegativeInteger; infer_instance

/-- The checks of `parseGoalState` that a record of the right shape can still fail. -/
def parseGoalState (value : GoalState) : Option GoalState :=
  if isUuid value.goalId = false then none
  else if trim value.objective = "" ∨ maxGoalObjectiveLength < utf16Length value.objective then none
  else if ∃ b ∈ value.tokenBudget, ¬ isNonNegativeInteger b ∨ b = 0 then none
  else if ¬ isNonNegativeInteger value.tokensUsed then none
  else if ¬ isNonNegativeInteger value.timeUsedSeconds then none
  else some value

/-- `readGoalState`: the stored record, if it still parses. -/
def readGoalState (stored : Option GoalState) : Option GoalState := stored.bind parseGoalState

def emptyAgentGoalState : AgentGoalState where
  goalId := none
  status := none
  objective := ""
  tokenBudget := none
  tokensUsed := 0
  timeUsedSeconds := 0
  createdAt := none
  updatedAt := none

def publicGoalState : Option GoalState → AgentGoalState
  | none => emptyAgentGoalState
  | some goal =>
    { goalId := some goal.goalId
      status := some goal.status
      objective := goal.objective
      tokenBudget := goal.tokenBudget
      tokensUsed := goal.tokensUsed
      timeUsedSeconds := goal.timeUsedSeconds
      createdAt := some goal.createdAt
      updatedAt := some goal.updatedAt }

def nextGoalUpdatedAt (previous now : ℕ) : ℕ := max now (previous + 1)

end Memmy.Goal.State
