import Memmy.Goal.Inbox
import Memmy.Goal.Runtime

/-! # Dispatching the goal work of a session

The parts of `AgentLoop` that carry a message of the goal inbox to its turn, for one session (every
map of the loop is keyed by the session), as a machine over what runs between two awaits:

* the inbound loop takes the next message of the bus and runs it inline, drops it, steers it, keeps it
  in the inbox or makes a turn of it (`Event.take`, `routing`);
* `dispatchNextGoalWork` reserves the session's work (`Event.dispatch`), then an entry of the inbox
  (`Event.reserve`), then publishes the message (`Event.publish`);
* a turn takes the session's lock (`Event.start`), stores its user message (`Event.build`), and ends
  in the `finally` of `runTurnWithinLock` (`Event.finish`); then its task ends (`Event.settle`);
* the goal runtime's own methods are `Event.control`, with the machine of `Memmy.Goal.Runtime`.

Ids that the source draws at random are arguments of the events; an event that would repeat the id of
a turn is not a step. The session is not deleted. -/

namespace Memmy.Goal.Dispatch

open Lib.Text Goal.State Goal.Runtime Goal.Inbox

/-- What the loop asks of the command table, of the channels and of the template. -/
structure Host where
  isPriority : String → Bool
  isDispatchableCommand : String → Bool
  /-- `resolveChannelCapabilities(channel) !== null`. -/
  hasCapabilities : String → Bool
  renderGoalContinuation : GoalState → String

/-! ### State -/

inductive TurnStage where
  | queued
  | running
  | built
  /-- `runTurnWithinLock` has returned. -/
  | ended
  deriving DecidableEq, Repr

/-- A turn slot with its task. -/
structure Turn where
  turnId : String
  message : InboundMessage
  stage : TurnStage := .queued
  cancelled : Bool := false
  active : Bool := true
  deriving DecidableEq, Repr

inductive DispatchStage where
  /-- The work is reserved, the entry is not. -/
  | reserving
  | publishing (message : InboundMessage)
  deriving DecidableEq, Repr

/-- A call of `dispatchNextGoalWork` that has reserved the work. -/
structure Call where
  turnId : String
  kind : WorkKind
  stage : DispatchStage
  deriving DecidableEq, Repr

/-- A call `persist(session, entry)`, by the turn that made it. -/
structure Persisted where
  entry : Entry
  turnId : String
  deriving DecidableEq, Repr

structure State where
  runtime : RuntimeState := {}
  inbox : List Entry := []
  scheduled : Option GoalContinuation := none
  /-- The messages of the session on `bus.inbound`. -/
  bus : List InboundMessage := []
  dispatching : List Call := []
  turns : List Turn := []
  persisted : List Persisted := []
  removed : List Entry := []
  receipts : ℕ := 0
  usedIds : List String := []

namespace State

def goal (s : State) : Option GoalState := readGoalState s.runtime.goalState

def activeTasks (s : State) : List Turn := s.turns.filter fun turn => turn.active

/-- `turnSlots.get(sessionKey)`. -/
def turnSlots (s : State) : List Turn := s.turns.filter fun turn => turn.stage ≠ .ended

def hasGoalLease (s : State) : Bool := s.runtime.lease.isSome

def hasWorkReservation (s : State) : Bool := s.runtime.workReservation.isSome

def ownsWorkReservation (s : State) (turnId : String) : Bool :=
  s.runtime.workReservation.any fun r => r.turnId = turnId

/-- `goalRuntime.releaseWork(sessionKey, turnId)`. -/
def releaseWork (s : State) (turnId : String) : State :=
  { s with runtime := Runtime.step s.runtime (.releaseWork turnId) }

end State

/-! ### The inbound loop -/

def isImmediateGoalControlCommand (raw : String) : Bool :=
  let command := (trim raw).toLower
  command = "/goal" ||
    (command.startsWith "/goal " &&
      ["status", "help", "pause", "resume", "edit", "budget", "clear"].any fun subcommand =>
        String.ofList ((trim (String.ofList (command.toList.drop 6))).toList.takeWhile
          fun c => !isJsSpace c) = subcommand)

def isSessionOrderedCommand (raw : String) : Bool :=
  let command := (trim raw).toLower
  command = "/model" || command.startsWith "/model " ||
    ((command = "/goal" || command.startsWith "/goal ") && !isImmediateGoalControlCommand command)

/-- What else decides about a message the loop takes. -/
structure Circumstances where
  uuid : String
  turnId : String
  /-- A slot with the message's route accepts steering. -/
  steerAdmitted : Bool := false
  directPending : Bool := false
  /-- The `mutate` of `enqueueUserMessage` is saved. -/
  saved : Bool := true
  /-- `publishWebuiMessageQueued` of a message behind other work succeeds. -/
  announced : Bool := true
  deriving DecidableEq, Repr

inductive Routing where
  | inline
  | dropped
  | steered
  | inbox
  | slot
  deriving DecidableEq, Repr

def shouldPersistGoalInbox (s : State) (message : InboundMessage) (owns : Bool) : Bool :=
  message.internal.isNone && !owns &&
    (s.hasGoalLease || s.hasWorkReservation || s.scheduled.isSome ||
      (s.goal.any (fun goal => goal.status = .active) && !s.activeTasks.isEmpty))

/-- The branches of `runMessageLoop`, in their order. -/
def routing (host : Host) (s : State) (message : InboundMessage) (c : Circumstances) : Routing :=
  let raw := trim message.content
  let owns := message.turnId.any s.ownsWorkReservation
  let dispatchableCommand := host.isDispatchableCommand raw
  let steered := message.steer && c.steerAdmitted
  if host.isPriority raw then .inline
  else if message.internal.isSome && !owns then .dropped
  else if message.internal.isNone && !owns && dispatchableCommand && isImmediateGoalControlCommand raw
  then .inline
  else if steered && message.turnSource.any (fun source => source.kind = .tui) &&
    !(raw.startsWith "/") then .steered
  else if shouldPersistGoalInbox s message owns then .inbox
  else if dispatchableCommand && !isSessionOrderedCommand raw &&
    (c.directPending || s.turnSlots.getLast?.any fun slot =>
      slot.message.channel = message.channel && slot.message.chatId = message.chatId) then .inline
  else if steered then .steered
  else .slot

/-- `isSessionBusy(sessionKey)`. -/
def isSessionBusy (s : State) (directPending : Bool) : Bool :=
  !s.activeTasks.isEmpty || directPending || !s.turnSlots.isEmpty

/-- The message enters the inbox, if it may and the save succeeds. -/
def keepInInbox (s : State) (message : InboundMessage) (c : Circumstances) : State :=
  match enqueueUserMessage message c.uuid s.receipts s.inbox with
  | .error _ => s
  | .ok inbox =>
    if c.saved then
      { s with
        inbox := inbox
        receipts := s.receipts + (inbox.length - s.inbox.length) }
    else s

/-- The turn of a message, under the id the message has or a new one. -/
def openSlot (s : State) (message : InboundMessage) (c : Circumstances) : State :=
  let turnId := message.turnId.getD c.turnId
  if isSessionBusy s c.directPending && !c.announced then s
  else
    { s with
      turns := s.turns ++ [{ turnId := turnId, message := message }]
      usedIds := turnId :: s.usedIds }

def takeMessage (host : Host) (s : State) (c : Circumstances) : State :=
  match s.bus with
  | [] => s
  | message :: bus =>
    if c.turnId ∈ s.usedIds then s
    else
      let s := { s with bus := bus }
      match routing host s message c with
      | .inbox => keepInInbox s message c
      | .slot => openSlot s message c
      | _ => s

/-- A message from outside, or one that a turn did not use and gives back. None has the id of a turn
that holds the work. -/
def receive (s : State) (message : InboundMessage) : State :=
  if message.turnId.any s.ownsWorkReservation ∨ message.internal.isSome ∨
    ∃ d ∈ s.dispatching, message.turnId = some d.turnId then s
  else
    { s with
      bus := s.bus ++ [message]
      usedIds := message.turnId.toList ++ s.usedIds }

/-! ### `dispatchNextGoalWork` -/

def scheduleGoalWork (s : State) (goal : GoalState) : State :=
  if goal.status ≠ .active then { s with scheduled := none }
  else { s with scheduled := some { goalId := goal.goalId, goalUpdatedAt := goal.updatedAt } }

def reserveWork (s : State) (turnId : String) (kind : WorkKind) (stage : DispatchStage) : State :=
  { s with
    runtime := Runtime.step s.runtime (.reserveWork { turnId := turnId, kind := kind })
    dispatching := s.dispatching ++ [{ turnId := turnId, kind := kind, stage := stage }]
    usedIds := turnId :: s.usedIds }

/-- The goal has no route, or a channel that is gone. -/
def blockGoal (s : State) (goal : GoalState) : State :=
  { s with
    scheduled := none
    runtime := Runtime.step s.runtime (.updateFromModel goal.goalId ⟨.blocked, Or.inr rfl⟩) }

def continuationMessage (host : Host) (goal : GoalState) (route : GoalRoute) (turnId : String) :
    InboundMessage where
  channel := route.channel
  chatId := route.chatId
  senderId := "goal-runtime"
  content := host.renderGoalContinuation goal
  turnSource := route.source
  turnId := some turnId
  internal := some { goalId := goal.goalId, goalUpdatedAt := goal.updatedAt }

def dispatchContinuation (host : Host) (s : State) (turnId : String) (scheduled : GoalContinuation) :
    State :=
  match s.goal, s.runtime.goalRoute with
  | none, _ => { s with scheduled := none }
  | some goal, route? =>
    if goal.status ≠ .active then { s with scheduled := none }
    else match route? with
      | none => blockGoal s goal
      | some route =>
        if goal.goalId ≠ scheduled.goalId ∨ goal.updatedAt ≠ scheduled.goalUpdatedAt then
          { s with scheduled := none }
        else if host.hasCapabilities route.channel = false then blockGoal s goal
        else
          { reserveWork s turnId .continuation
              (.publishing (continuationMessage host goal route turnId)) with scheduled := none }

/-- `dispatchNextGoalWork` up to its first await. -/
def dispatchNextGoalWork (host : Host) (s : State) (turnId : String) : State :=
  if !s.activeTasks.isEmpty || s.hasGoalLease || s.hasWorkReservation then s
  else if turnId ∈ s.usedIds then s
  else if s.inbox ≠ [] then reserveWork s turnId .inbox .reserving
  else match s.scheduled with
    | none => s
    | some scheduled => dispatchContinuation host s turnId scheduled

/-- The call of `dispatchNextGoalWork` for the turn, waiting to reserve its entry. -/
def isReserving (turnId : String) (d : Call) : Bool := d.turnId = turnId && d.stage = .reserving

/-- `reserveInboxEntry` returns: with an entry, with none, or with an error. -/
def reserveEntry (s : State) (turnId : String) (saved : Bool) : State :=
  match s.dispatching.find? (isReserving turnId) with
  | none => s
  | some d =>
    let rest := s.dispatching.eraseP (isReserving turnId)
    match reserveInboxEntry turnId s.inbox, saved with
    | some (entry, inbox), true =>
      { s with
        inbox := inbox
        dispatching := rest ++ [{ d with stage := .publishing (inboxMessage entry turnId) }] }
    | _, _ => { s with dispatching := rest }.releaseWork turnId

/-- The call for the turn, waiting to publish its message. -/
def isPublishing (turnId : String) (d : Call) : Bool := d.turnId = turnId && d.stage ≠ .reserving

/-- `publishInbound` returns, or throws. -/
def publish (s : State) (turnId : String) (ok : Bool) : State :=
  match s.dispatching.find? (isPublishing turnId) with
  | none => s
  | some d =>
    match d.stage with
    | .reserving => s
    | .publishing message =>
      let s := { s with dispatching := s.dispatching.eraseP (isPublishing turnId) }
      if ok then { s with bus := s.bus ++ [message] }
      else
        match message.internal with
        | some goal => { s.releaseWork turnId with scheduled := some goal }
        | none => s.releaseWork turnId

/-! ### Turns -/

/-- The session's lock is free. -/
def isLockFree (s : State) : Bool := s.turns.all fun turn => turn.stage ≠ .running && turn.stage ≠ .built

def setTurn (s : State) (k : ℕ) (turn : Turn) : State := { s with turns := s.turns.set k turn }

/-- The task gets the lock; a cancelled one leaves without a turn. -/
def startTurn (s : State) (k : ℕ) : State :=
  match s.turns[k]? with
  | none => s
  | some turn =>
    if turn.stage ≠ .queued then s
    else if turn.cancelled then setTurn s k { turn with stage := .ended }
    else if isLockFree s then setTurn s k { turn with stage := .running }
    else s

/-- `registerLease` does not throw. -/
def canRegisterLease (s : State) (turnId : String) : Bool :=
  s.runtime.lifecycleAvailable && !(s.runtime.lease.any fun l => l.turnId ≠ turnId)

/-- The turn takes the lease of a goal that is active. -/
def registerActiveLease (s : State) (turnId : String) : State :=
  match s.goal.filter fun goal => goal.status = .active with
  | some goal => { s with runtime := Runtime.step s.runtime (.registerLease goal.goalId turnId) }
  | none => s

/-- `persistGoalUserTurn`: the turn's entry is stored as a user message and leaves the inbox. -/
def persistGoalUserTurn (s : State) (turn : Turn) : State :=
  let route : GoalRoute :=
    { channel := turn.message.channel
      chatId := turn.message.chatId
      source := turn.message.turnSource }
  { s with
    inbox := dropReserved turn.turnId s.inbox
    persisted := s.persisted ++
      (reservedEntry turn.turnId s.inbox).toList.map fun entry => ⟨entry, turn.turnId⟩
    runtime := if s.goal.any fun goal => goal.status ≠ .completed then
      { s.runtime with goalRoute := some route } else s.runtime }

/-- The user message is stored: `stateBuild` up to its compaction. Where it throws, the turn goes on
to its `finally` as it is. -/
def stateBuild (s : State) (k : ℕ) (saved : Bool) : State :=
  match s.turns[k]? with
  | none => s
  | some turn =>
    if turn.stage ≠ .running then s
    else match turn.message.internal with
      | some internalGoal =>
        if s.goal.any (fun goal => goal.status = .active ∧ goal.goalId = internalGoal.goalId ∧
            goal.updatedAt = internalGoal.goalUpdatedAt) ∧ canRegisterLease s turn.turnId then
          { setTurn s k { turn with stage := .built } with
            runtime := Runtime.step s.runtime (.registerLease internalGoal.goalId turn.turnId) }
        else s
      | none =>
        if s.goal.any (fun goal => goal.status = .active) ∧ ¬canRegisterLease s turn.turnId then s
        else
          let s := registerActiveLease s turn.turnId
          if saved = false then s
          else if s.goal.isSome ∨ (reservedEntry turn.turnId s.inbox).isSome then
            setTurn (persistGoalUserTurn s turn) k { turn with stage := .built }
          else setTurn s k { turn with stage := .built }

/-- How `processMessageInternal` came back. -/
inductive Outcome where
  | done
  /-- `stateCommand` answered the message. -/
  | shortcut
  | cancelled
  | failed
  deriving DecidableEq, Repr

/-- A turn is done only after `stateBuild`; a command is answered before it. -/
def Outcome.possible (host : Host) (turn : Turn) : Outcome → Bool
  | .done => turn.stage = .built
  | .shortcut => turn.stage = .running && host.isDispatchableCommand (trim turn.message.content)
  | _ => turn.stage = .running || turn.stage = .built

/-- A continuation that failed is scheduled again, for the goal it was made for. -/
def reschedule (s : State) (turn : Turn) (outcome : Outcome) : State :=
  match turn.message.internal, s.goal with
  | some internalGoal, some goal =>
    if outcome = .failed ∧ goal.status = .active ∧ goal.goalId = internalGoal.goalId then
      scheduleGoalWork s goal
    else s
  | _, _ => s

/-- `runTurnWithinLock` returns: its `finally` releases what the turn holds. -/
def finishTurn (host : Host) (s : State) (k : ℕ) (outcome : Outcome) : State :=
  match s.turns[k]? with
  | none => s
  | some turn =>
    if outcome.possible host turn = false then s
    else
      let s := reschedule (setTurn s k { turn with stage := .ended }) turn outcome
      { s with runtime := Runtime.step s.runtime (.releaseTurn turn.turnId) }.releaseWork turn.turnId

/-- The task is over. -/
def settleTask (s : State) (k : ℕ) : State :=
  match s.turns[k]? with
  | none => s
  | some turn => if turn.stage ≠ .ended then s else { s with turns := s.turns.eraseIdx k }

/-- A task is cancelled: by `cancelActiveTasks`, which forgets it at once, or by `stopExpectedTurn`. -/
def cancelTask (s : State) (k : ℕ) (forget : Bool) : State :=
  match s.turns[k]? with
  | none => s
  | some turn => setTurn s k { turn with cancelled := true, active := turn.active && !forget }

/-! ### Events -/

/-- The methods of the goal runtime that are not part of the loop's own work. -/
def isControl : Runtime.Event → Bool
  | .registerLease _ _ | .releaseTurn _ | .reserveWork _ | .releaseWork _ => false
  | _ => true

inductive Event where
  | receive (message : InboundMessage)
  | take (c : Circumstances)
  | removeQueued (entryId : String)
  | dispatch (turnId : String)
  | reserve (turnId : String) (saved : Bool)
  | publish (turnId : String) (ok : Bool)
  | start (k : ℕ)
  | build (k : ℕ) (saved : Bool)
  | finish (k : ℕ) (outcome : Outcome)
  | settle (k : ℕ)
  | cancel (k : ℕ) (forget : Bool)
  /-- `scheduleGoalWork`, from a settled turn or as the callback of a control. -/
  | schedule (goal : GoalState)
  | invalidate
  | control (e : Runtime.Event)
  /-- The process stops; the next one runs `recoverGoalWork` before its loop. -/
  | restart

def removeQueued (s : State) (entryId : String) : State :=
  match removeUnreservedInboxEntry entryId s.inbox with
  | (.removed entry, inbox) => { s with inbox := inbox, removed := s.removed ++ [entry] }
  | _ => s

/-- Only the session file is left. -/
def restart (s : State) : State where
  runtime := { goalState := s.runtime.goalState, goalRoute := s.runtime.goalRoute }
  inbox := resetDispatchingInbox s.inbox
  persisted := s.persisted
  removed := s.removed
  receipts := s.receipts
  usedIds := s.usedIds

def step (host : Host) (s : State) : Event → State
  | .receive message => receive s message
  | .take c => takeMessage host s c
  | .removeQueued entryId => removeQueued s entryId
  | .dispatch turnId => dispatchNextGoalWork host s turnId
  | .reserve turnId saved => reserveEntry s turnId saved
  | .publish turnId ok => publish s turnId ok
  | .start k => startTurn s k
  | .build k saved => stateBuild s k saved
  | .finish k outcome => finishTurn host s k outcome
  | .settle k => settleTask s k
  | .cancel k forget => cancelTask s k forget
  | .schedule goal => scheduleGoalWork s goal
  | .invalidate => { s with scheduled := none }
  | .control e => if isControl e then { s with runtime := Runtime.step s.runtime e } else s
  | .restart => restart s

/-- A session with a goal, before any message. -/
def start (goalState : Option GoalState) (goalRoute : Option GoalRoute) : State :=
  { runtime := { goalState := goalState, goalRoute := goalRoute } }

end Memmy.Goal.Dispatch
