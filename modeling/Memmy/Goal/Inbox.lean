import Mathlib.Data.List.Nodup
import Memmy.Goal.State
import Memmy.Lib.Pick
import Memmy.Lib.Result

/-! # The goal inbox

User messages that arrive while the session works for its goal wait in `metadata.goalTurnInbox`. An
entry whose `turnId` is `null` waits; a dispatch writes its turn's id into the first such entry
(`reserveInboxEntry`), and that turn takes the entry out when it stores the message
(`persistGoalUserTurn`). Entries carry the number of the receipt they were made for, which the
source has no need of; everything else is `GoalTurnInboxEntry`.

* `enqueueUserMessage`, `reserveInboxEntry`, `persistGoalUserTurn`, `removeUnreservedInboxEntry`,
  `resetDispatchingInbox`: the operations under the session's mutex;
* `Entry.receipt` is never touched, so lists of receipts follow an entry. -/

namespace Memmy.Goal.Inbox

open Lib.Text Lib.Pick Lib.Result Goal.State

/-- The goal a continuation message was made for. -/
structure GoalContinuation where
  goalId : String
  goalUpdatedAt : ℕ
  deriving DecidableEq, Repr

structure InboundMessage where
  channel : String
  chatId : String
  senderId : String
  content : String
  media : List String := []
  clientRequestId : Option String := none
  requestDigest : Option String := none
  turnSource : Option TurnSource := none
  turnId : Option String := none
  internal : Option GoalContinuation := none
  steer : Bool := false
  timestamp : ℕ := 0
  deriving DecidableEq, Repr

/-- `GoalTurnInboxEntry`. -/
structure Entry where
  id : String
  turnId : Option String
  channel : String
  chatId : String
  senderId : String
  content : String
  media : List String
  clientRequestId : Option String
  requestDigest : Option String
  turnSource : Option TurnSource
  receivedAt : ℕ
  receipt : ℕ
  deriving DecidableEq, Repr

inductive InboxError where
  | goalInboxMetadataInvalid
  | goalInboxFull
  deriving DecidableEq, Repr

/-- The `code` of the error, which is also its message. -/
def InboxError.code : InboxError → String
  | .goalInboxMetadataInvalid => "goal_inbox_metadata_invalid"
  | .goalInboxFull => "goal_inbox_full"

/-- `GOAL_INBOX_LIMIT`. -/
def goalInboxLimit : ℕ := 20

/-- `typeof value === "string" && value.trim()`. -/
def isNonblank (value : Option String) : Bool := value.any fun text => trim text != ""

/-- The check of `sanitizeGoalInboxMetadata`. -/
def sanitizeGoalInboxMetadata (message : InboundMessage) : Except InboxError Unit :=
  throwIf (message.channel = "websocket" ∧
    ¬(isNonblank message.clientRequestId = true ∧ isNonblank message.requestDigest = true))
    .goalInboxMetadataInvalid

def newEntry (message : InboundMessage) (id : String) (receipt : ℕ) : Entry where
  id := id
  turnId := none
  channel := message.channel
  chatId := message.chatId
  senderId := message.senderId
  content := message.content
  media := message.media
  clientRequestId := message.clientRequestId
  requestDigest := message.requestDigest
  turnSource := message.turnSource
  receivedAt := message.timestamp
  receipt := receipt

/-- `uuid` names a message without a request id. -/
def enqueueUserMessage (message : InboundMessage) (uuid : String) (receipt : ℕ) (inbox : List Entry) :
    Except InboxError (List Entry) := do
  sanitizeGoalInboxMetadata message
  let id := message.clientRequestId.getD uuid
  if inbox.any fun entry => entry.id = id then return inbox
  throwIf (goalInboxLimit ≤ inbox.length) .goalInboxFull
  return inbox ++ [newEntry message id receipt]

/-- The first entry that waits gets the turn's id. -/
def reserveInboxEntry (turnId : String) : List Entry → Option (Entry × List Entry)
  | [] => none
  | entry :: inbox =>
    if entry.turnId = none then
      some ({ entry with turnId := some turnId }, { entry with turnId := some turnId } :: inbox)
    else (reserveInboxEntry turnId inbox).map fun r => (r.1, entry :: r.2)

/-- `inbox.find((item) => item.turnId === turnId)`. -/
def reservedEntry (turnId : String) (inbox : List Entry) : Option Entry :=
  inbox.find? fun entry => entry.turnId = some turnId

def dropReserved (turnId : String) (inbox : List Entry) : List Entry :=
  inbox.eraseP fun entry => entry.turnId = some turnId

inductive RemoveResult where
  | removed (entry : Entry)
  | reserved
  | missing
  deriving DecidableEq, Repr

def isRemovable (entryId : String) (entry : Entry) : Bool :=
  entry.id = entryId && entry.clientRequestId.isSome && entry.turnSource.isSome

def removeUnreservedInboxEntry (entryId : String) (inbox : List Entry) : RemoveResult × List Entry :=
  match inbox.find? (isRemovable entryId) with
  | none => (.missing, inbox)
  | some entry =>
    if entry.turnId ≠ none then (.reserved, inbox)
    else (.removed entry, inbox.eraseP (isRemovable entryId))

def resetDispatchingInbox (inbox : List Entry) : List Entry :=
  inbox.map fun entry => { entry with turnId := none }

/-- The message a dispatch makes of an entry it has reserved. -/
def inboxMessage (entry : Entry) (turnId : String) : InboundMessage where
  channel := entry.channel
  chatId := entry.chatId
  senderId := entry.senderId
  content := entry.content
  media := entry.media
  clientRequestId := entry.clientRequestId
  requestDigest := entry.requestDigest
  turnSource := entry.turnSource
  turnId := some turnId
  timestamp := entry.receivedAt

/-! ### What the operations keep -/

variable {message : InboundMessage} {uuid turnId : String} {receipt : ℕ} {inbox inbox' : List Entry}
  {entry e : Entry}

theorem enqueueUserMessage_ok (h : enqueueUserMessage message uuid receipt inbox = .ok inbox') :
    inbox' = inbox ∨ ∃ id, (∀ e ∈ inbox, e.id ≠ id) ∧ inbox' = inbox ++ [newEntry message id receipt] := by
  unfold enqueueUserMessage at h
  simp only [bind_eq_ok] at h
  obtain ⟨-, -, h⟩ := h
  by_cases hany : (inbox.any fun entry => entry.id = message.clientRequestId.getD uuid) = true
  · rw [if_pos hany] at h
    exact Or.inl (Except.ok.inj h).symm
  · rw [if_neg hany] at h
    obtain ⟨-, -, h⟩ := bind_eq_ok.mp h
    refine Or.inr ⟨_, fun e he hid => hany ?_, (Except.ok.inj h).symm⟩
    exact List.any_eq_true.mpr ⟨e, he, decide_eq_true hid⟩

/-- A dispatch gives up exactly when every entry is reserved. -/
theorem reserveInboxEntry_eq_none : reserveInboxEntry turnId inbox = none ↔ ∀ e ∈ inbox, e.turnId ≠ none := by
  induction inbox with
  | nil => simp [reserveInboxEntry]
  | cons entry inbox ih =>
    unfold reserveInboxEntry
    by_cases h : entry.turnId = none
    · simp [h]
    · rw [if_neg h, Option.map_eq_none_iff, ih, List.forall_mem_cons]
      exact ⟨fun hall => ⟨h, hall⟩, fun hall => hall.2⟩

theorem reserveInboxEntry_eq_some (h : reserveInboxEntry turnId inbox = some (e, inbox')) :
    ∃ front entry back, inbox = front ++ entry :: back ∧ entry.turnId = none ∧
      e = { entry with turnId := some turnId } ∧ inbox' = front ++ e :: back := by
  induction inbox generalizing e inbox' with
  | nil => cases h
  | cons entry inbox ih =>
    unfold reserveInboxEntry at h
    by_cases hnone : entry.turnId = none
    · rw [if_pos hnone] at h
      obtain ⟨rfl, rfl⟩ := Prod.mk.inj (Option.some.inj h)
      exact ⟨[], entry, inbox, rfl, hnone, rfl, rfl⟩
    · rw [if_neg hnone] at h
      obtain ⟨⟨e₁, inbox₁⟩, hsub, heq⟩ := Option.map_eq_some_iff.mp h
      obtain ⟨rfl, rfl⟩ := Prod.mk.inj heq
      obtain ⟨front, entry', back, rfl, hn, rfl, rfl⟩ := ih hsub
      exact ⟨entry :: front, entry', back, rfl, hn, rfl, rfl⟩

theorem reservedEntry_eq_some (h : reservedEntry turnId inbox = some e) :
    ∃ front back, inbox = front ++ e :: back ∧ e.turnId = some turnId ∧
      dropReserved turnId inbox = front ++ back := by
  obtain ⟨he, front, back, hinbox, -, hdrop⟩ := split_find? h
  exact ⟨front, back, hinbox, of_decide_eq_true he, hdrop⟩

theorem reservedEntry_eq_none : reservedEntry turnId inbox = none ↔ ∀ e ∈ inbox, e.turnId ≠ some turnId := by
  simp [reservedEntry]

theorem dropReserved_of_none (h : reservedEntry turnId inbox = none) : dropReserved turnId inbox = inbox :=
  List.eraseP_of_forall_not fun e he => by simpa using reservedEntry_eq_none.mp h e he

theorem removeUnreservedInboxEntry_removed
    (h : removeUnreservedInboxEntry uuid inbox = (.removed entry, inbox')) :
    entry.turnId = none ∧ ∃ front back, inbox = front ++ entry :: back ∧ inbox' = front ++ back := by
  unfold removeUnreservedInboxEntry at h
  cases hfind : inbox.find? (isRemovable uuid) with
  | none => simp [hfind] at h
  | some e =>
    simp only [hfind] at h
    by_cases hn : e.turnId ≠ none
    · rw [if_pos hn] at h
      cases h
    · rw [if_neg hn] at h
      obtain ⟨hres, rfl⟩ := Prod.mk.inj h
      obtain rfl := RemoveResult.removed.inj hres
      obtain ⟨-, front, back, hinbox, -, hdrop⟩ := split_find? hfind
      exact ⟨not_not.mp hn, front, back, hinbox, hdrop⟩

end Memmy.Goal.Inbox
