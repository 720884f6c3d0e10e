import Memmy.AgentRuntime.SessionLock
import Memmy.Lib.KeyMap

/-! # The queue of a session

A message that arrives while a session is busy becomes a turn slot. It is announced to the clients, and
when the announcement is out its gate opens and it waits for the session lock, with the time it was
queued at as priority. `getQueueSnapshot` lists the announced slots by that time. A client may reorder
the list, remove a message, or steer it into the running turn; a steered message that the turn did not
consume is queued again at its old time.

* `step`: the slots, the lock and the steered messages under every one of these.
* `InOrder`: when a turn ends, the slot that starts next is the first open item of the snapshot. -/

namespace Memmy.AgentRuntime.TurnQueue

open Lib.KeyMap Lib.Refill Lib.Sort
open AgentRuntime.SessionLock

/-! ### Slots and the snapshot -/

inductive TurnSlotState where
  | queued
  | running
deriving DecidableEq

structure TurnSlot where
  clientRequestId : Option String
  /-- `metadata.queued_at`, or the timestamp of a message that has none. -/
  queuedAt : ℕ
  state : TurnSlotState := .queued
  announcedToWebui : Bool := false
  rootPending : Bool := true
  dequeued : Bool := false
  /-- Its call of the session lock, once its gate is open. -/
  call : Option ℕ := none
deriving DecidableEq

/-- What a snapshot says of a message. -/
structure QueueItem where
  clientRequestId : String
  queuedAt : ℕ
deriving DecidableEq

/-- A message in the inbox of a goal. -/
structure InboxEntry where
  clientRequestId : String
  queuedAt : ℕ
  reserved : Bool
deriving DecidableEq

def InboxEntry.item (entry : InboxEntry) : QueueItem := ⟨entry.clientRequestId, entry.queuedAt⟩

/-- `queueDescriptorFromMessage(slot.root)` -/
def TurnSlot.item? (x : TurnSlot) : Option QueueItem := x.clientRequestId.map fun id => ⟨id, x.queuedAt⟩

structure State where
  lock : AsyncMutex := {}
  turnSlots : List TurnSlot := []
  inbox : List InboxEntry := []
  /-- The steered messages that the running turn may still consume. -/
  admissions : List QueueItem := []
  /-- The same for messages of the goal's inbox. -/
  goalAdmissions : List QueueItem := []
  queueRevision : ℕ := 0
  lastQueuedAt : Option ℕ := none

/-- A map by `clientRequestId`. -/
def itemMap (items : List QueueItem) : List QueueItem := ofList QueueItem.clientRequestId items

def shownQueued (x : TurnSlot) : Bool := x.announcedToWebui ∧ x.state = .queued

def shownStarted (x : TurnSlot) : Bool := x.announcedToWebui ∧ x.state = .running ∧ x.rootPending

def queuedItems (s : State) : List QueueItem :=
  (s.turnSlots.filter shownQueued).filterMap TurnSlot.item? ++
    (s.inbox.filter (!·.reserved)).map InboxEntry.item

def startedItems (s : State) : List QueueItem :=
  (s.turnSlots.filter shownStarted).filterMap TurnSlot.item? ++
    (s.inbox.filter (·.reserved)).map InboxEntry.item ++ s.admissions ++ s.goalAdmissions

def itemOrder : QueueItem → QueueItem → Ordering :=
  compareLex (ascending QueueItem.queuedAt) (ascending QueueItem.clientRequestId)

structure QueueSnapshot where
  revision : ℕ
  items : List QueueItem
  startedItems : List QueueItem

def getQueueSnapshot (s : State) : QueueSnapshot where
  revision := s.queueRevision
  items := sortBy itemOrder ((itemMap (queuedItems s)).filter fun item =>
    item.clientRequestId ∉ (startedItems s).map (·.clientRequestId))
  startedItems := sortBy itemOrder (itemMap (startedItems s))

/-! ### Arrivals -/

def nextQueuedAt (s : State) (now : ℕ) : ℕ :=
  max now (s.lastQueuedAt.getD (s.inbox.foldl (fun latest e => max latest e.queuedAt) 0) + 1)

/-- A message that is made a turn slot. -/
structure Arrival where
  clientRequestId : Option String
  timestamp : ℕ
  now : ℕ
  /-- The time of the goal's inbox entry that the message is the turn of. -/
  reservation : Option ℕ := none
  /-- `isSessionBusy` for work that is not a turn slot. -/
  busy : Bool := false

/-- The key that a slot waits under. -/
def TurnSlot.key (x : TurnSlot) : String := x.clientRequestId.getD ""

def visible (s : State) (a : Arrival) : Bool :=
  (a.busy ∨ s.turnSlots ≠ []) ∧ a.reservation = none ∧ a.clientRequestId.isSome

/-- The slot of a message that is announced first. -/
def queuedSlot (s : State) (a : Arrival) : TurnSlot where
  clientRequestId := a.clientRequestId
  queuedAt := nextQueuedAt s a.now
  announcedToWebui := true

/-- The slot of a message that is dispatched at once. -/
def directSlot (a : Arrival) : TurnSlot where
  clientRequestId := a.clientRequestId
  queuedAt := a.reservation.getD a.timestamp
  announcedToWebui := a.reservation.isSome ∧ a.clientRequestId.isSome
  dequeued := a.reservation.isSome

/-- `dispatchSlot` up to the lock. -/
def dispatchSlot (lock : AsyncMutex) (x : TurnSlot) : AsyncMutex × TurnSlot :=
  (lock.enter x.queuedAt x.key, { x with call := some lock.calls })

def arrive (s : State) (a : Arrival) : State :=
  if visible s a then
    { s with
      turnSlots := s.turnSlots ++ [queuedSlot s a]
      queueRevision := s.queueRevision + 1
      lastQueuedAt := some (nextQueuedAt s a.now) }
  else
    { s with
      lock := (dispatchSlot s.lock (directSlot a)).1
      turnSlots := s.turnSlots ++ [(dispatchSlot s.lock (directSlot a)).2] }

/-- The announcement of the slot at `i` is published. -/
def openGate (s : State) (i : ℕ) : State :=
  match s.turnSlots[i]? with
  | some x =>
    if x.call = none then
      { s with
        lock := (dispatchSlot s.lock x).1
        turnSlots := s.turnSlots.set i (dispatchSlot s.lock x).2 }
    else s
  | none => s

/-- The announcement fails, and the slot is given up. -/
def announceFails (s : State) (i : ℕ) : State :=
  match s.turnSlots[i]? with
  | some x =>
    if x.call = none then
      { s with
        turnSlots := s.turnSlots.eraseIdx i
        queueRevision := s.queueRevision + 1 }
    else s
  | none => s

/-! ### Turns -/

/-- `runTurnWithinLock` takes the slot of a call. -/
def start (s : State) (call : ℕ) : State :=
  if call ∈ s.lock.inside then
    { s with
      turnSlots := s.turnSlots.map fun x =>
        if x.call = some call then { x with state := .running } else x
      queueRevision := s.queueRevision + (s.turnSlots.filter fun x =>
        x.call = some call ∧ x.announcedToWebui ∧ !x.dequeued).length }
  else s

/-- The message of the running turn is accepted or rejected. -/
def deliver (s : State) (call : ℕ) : State :=
  { s with turnSlots := s.turnSlots.map fun x =>
      if x.call = some call then { x with rootPending := false } else x }

/-- The turn of a call is over: it has run, or its slot was removed before. -/
def Over (s : State) (call : ℕ) : Prop :=
  call ∈ s.lock.inside ∧ ∀ x ∈ s.turnSlots, x.call = some call → x.state = .running

instance (s : State) (call : ℕ) : Decidable (Over s call) :=
  inferInstanceAs (Decidable (_ ∧ ∀ x ∈ s.turnSlots, x.call = some call → x.state = .running))

/-- The slot of a call is closed and removed. -/
def closed (s : State) (call : ℕ) : State :=
  { s with turnSlots := s.turnSlots.filter fun x => x.call ≠ some call }

/-- The slot is closed and the lock is given to the first waiter. -/
def finish (s : State) (call : ℕ) : State :=
  if Over s call then { closed s call with lock := s.lock.leave call } else s

/-- A turn that stopped at its iteration limit with messages left: a slot for these runs next, under the
same call of the lock. -/
def succeed (s : State) (call : ℕ) (clientRequestId : Option String) (timestamp : ℕ) : State :=
  if Over s call then
    { s with turnSlots := s.turnSlots.map fun x =>
        if x.call = some call then
          { clientRequestId := clientRequestId, queuedAt := timestamp, call := some call }
        else x }
  else s

/-! ### What the clients do -/

/-- The slots that a client may reorder. -/
def reorderable (x : TurnSlot) : Bool := shownQueued x ∧ x.clientRequestId.isSome

inductive ReorderOutcome where
  | stale
  | unsupported
  | reordered
deriving DecidableEq

def queueIds (s : State) : List String :=
  (s.turnSlots.filter reorderable).map (·.key) ++
    (s.inbox.filter (!·.reserved)).map (·.clientRequestId)

def reorderOutcome (s : State) (orderedIds : List String) (expectedRevision : ℕ) : ReorderOutcome :=
  if s.queueRevision ≠ expectedRevision ∨ orderedIds.length < 2 ∨
      orderedIds.length ≠ (queueIds s).length ∨ ¬ orderedIds.Nodup ∨
      ∃ id ∈ orderedIds, id ∉ queueIds s then .stale
  else if s.turnSlots.any reorderable ∧ s.inbox.any (!·.reserved) then .unsupported
  else .reordered

/-- The earliest time in the queue. -/
def firstTime (s : State) : ℕ :=
  (((s.turnSlots.filter reorderable).map (·.queuedAt) ++
    (s.inbox.filter (!·.reserved)).map (·.queuedAt)).min?).getD 0

/-- The new time of a message. -/
def queuedAtById (s : State) (orderedIds : List String) (id : String) : ℕ := firstTime s + orderedIds.idxOf id

/-- `goalRuntime.reorderInboxEntries` -/
def reorderInboxEntries (s : State) (orderedIds : List String) : List InboxEntry :=
  refill (fun entry => !entry.reserved && orderedIds.contains entry.clientRequestId) s.inbox
    (orderedIds.filterMap fun id =>
      (s.inbox.find? fun entry => !entry.reserved ∧ entry.clientRequestId = id).map fun entry =>
        { entry with queuedAt := queuedAtById s orderedIds id })

def reorderQueuedWebuiMessages (s : State) (orderedIds : List String) (expectedRevision : ℕ) : State :=
  match reorderOutcome s orderedIds expectedRevision with
  | .stale => s
  | .unsupported => s
  | .reordered =>
    if s.turnSlots.any reorderable then
      { s with
        turnSlots := s.turnSlots.map fun x =>
          if reorderable x then { x with queuedAt := queuedAtById s orderedIds x.key } else x
        lock := s.lock.reorderWaiters orderedIds
        queueRevision := s.queueRevision + 1 }
    else
      { s with
        inbox := reorderInboxEntries s orderedIds
        queueRevision := s.queueRevision + 1 }

def isSteered (s : State) (id : String) : Bool :=
  (s.admissions ++ s.goalAdmissions).any (·.clientRequestId = id)

/-- The slot that a client names, when it is still queued. -/
def queuedSlotOf (s : State) (id : String) : Option TurnSlot :=
  if isSteered s id then none
  else (s.turnSlots.find? (·.clientRequestId = some id)).filter shownQueued

/-- `removeQueuedMessage` of a slot; the call that waits for it finds it cancelled. -/
def removeQueuedMessage (s : State) (id : String) : State :=
  match queuedSlotOf s id with
  | some _ =>
    { s with
      turnSlots := s.turnSlots.eraseP (·.clientRequestId = some id)
      queueRevision := s.queueRevision + 1 }
  | none => s

/-- `steerQueuedWebuiMessage` of a slot into the running turn. -/
def steerQueuedWebuiMessage (s : State) (id : String) : State :=
  match queuedSlotOf s id with
  | some x =>
    if s.turnSlots.any (·.state = .running) then
      { s with
        turnSlots := s.turnSlots.eraseP (·.clientRequestId = some id)
        admissions := s.admissions ++ [⟨id, x.queuedAt⟩]
        queueRevision := s.queueRevision + 1 }
    else s
  | none => s

/-- The turn has stored a steered message. -/
def consume (s : State) (id : String) : State :=
  { s with admissions := s.admissions.filter (·.clientRequestId ≠ id) }

/-- The slot of a steered message that was not consumed. -/
def recoveredSlot (item : QueueItem) : TurnSlot where
  clientRequestId := some item.clientRequestId
  queuedAt := item.queuedAt
  announcedToWebui := true

/-- `scheduleRecoveredQueueSlot`: before the first slot that is queued at a later time. -/
def scheduleRecoveredQueueSlot (s : State) (item : QueueItem) : State :=
  let later (x : TurnSlot) : Bool := x.state = .queued ∧ item.queuedAt < x.queuedAt
  { s with
    turnSlots := s.turnSlots.takeWhile (!later ·) ++
      recoveredSlot item :: s.turnSlots.dropWhile (!later ·)
    admissions := s.admissions.filter (·.clientRequestId ≠ item.clientRequestId)
    queueRevision := s.queueRevision + 1 }

/-! ### The machine -/

inductive Event where
  | arrive (a : Arrival)
  | openGate (i : ℕ)
  | announceFails (i : ℕ)
  | proceed (call : ℕ)
  | start (call : ℕ)
  | deliver (call : ℕ)
  | finish (call : ℕ)
  | succeed (call : ℕ) (clientRequestId : Option String) (timestamp : ℕ)
  | reorder (orderedIds : List String) (expectedRevision : ℕ)
  | remove (id : String)
  | steer (id : String)
  | consume (id : String)
  | requeue (item : QueueItem)
  | enter (priority : ℕ)
  /-- What the goal runtime does to its inbox and its steered entries. -/
  | goal (inbox : List InboxEntry) (goalAdmissions : List QueueItem)

def step (s : State) : Event → State
  | .arrive a => arrive s a
  | .openGate i => openGate s i
  | .announceFails i => announceFails s i
  | .proceed call => { s with lock := s.lock.proceed call }
  | .start call => start s call
  | .deliver call => deliver s call
  | .finish call => finish s call
  | .succeed call id timestamp => succeed s call id timestamp
  | .reorder orderedIds revision => reorderQueuedWebuiMessages s orderedIds revision
  | .remove id => removeQueuedMessage s id
  | .steer id => steerQueuedWebuiMessage s id
  | .consume id => consume s id
  | .requeue item => scheduleRecoveredQueueSlot s item
  | .enter priority => { s with lock := s.lock.enter priority "" }
  | .goal inbox goalAdmissions => { s with inbox := inbox, goalAdmissions := goalAdmissions }

/-! ### Shown order and run order -/

/-- The slot that waits with a call of the lock; none when it was removed. -/
def slotOf (s : State) (w : Waiter) : Option TurnSlot := s.turnSlots.find? (·.call = some w.call)

/-- The slots that wait, in the order in which the lock is given to them. -/
def waitingSlots (s : State) : List TurnSlot := s.lock.waiters.filterMap (slotOf s)

/-- The announcement gate of a queued slot with this id is open. -/
def isOpen (s : State) (item : QueueItem) : Bool :=
  s.turnSlots.any fun x =>
    shownQueued x && decide (x.clientRequestId = some item.clientRequestId) && x.call.isSome

/-- The items of the snapshot whose announcement gate is open. -/
def openItems (s : State) : List QueueItem := (getQueueSnapshot s).items.filter (isOpen s)

/-- **Shown first, run first.** When a turn ends, the slot that starts next is the first open item of
the snapshot, and there is none if nothing waits. A slot that goes on under the same call of the lock
has no open item before it. -/
def InOrder (s : State) : Event → Prop
  | .finish call => Over s call →
    ((waitingSlots (closed s call)).head?.map (·.clientRequestId)) =
      (openItems (closed s call)).head?.map fun item => some item.clientRequestId
  | .succeed call _ _ => Over s call → openItems (closed s call) = []
  | _ => True

instance (s : State) (e : Event) : Decidable (InOrder s e) := by
  cases e <;> unfold InOrder <;> infer_instance

end Memmy.AgentRuntime.TurnQueue
