import Memmy.Conversation.Consolidator
import Memmy.Conversation.Trim
import Memmy.SessionDag.Builder
import Memmy.SessionDag.Snapshot

/-! # The queue of a session and the compactions that wait for it

The worker of a session claims a turn, lets the model write a patch for it and commits it; a failure puts the
turn off, and the last one goes to the fallback. A compaction plans a boundary, waits until the queue has
processed the turn that covers it (`hasProcessedThrough`), and moves the consolidated part of the session
there, behind a snapshot of the graph.

The worker and the compaction give way to others while they wait for the model, and for the queue: between
these points each is one event here. An exception of an event leaves the state as it was, except for what it
has stored before. What the tokenizer, the model and the clock return comes with the event. -/

namespace Memmy.SessionDag.Queue

open Lib.JsonValue Lib.Sort Conversation.Transcript Conversation.Consolidator Conversation.Trim
  SessionDag.Types SessionDag.Store SessionDag.Builder SessionDag.Snapshot

/-! ### What is configured -/

structure Config (M : Type) where
  sessionKey : String
  maxUpdateAttempts : ℕ
  retryBackoffMs : List ℕ
  maxBuilderContextNodes : ℕ
  contextWindowTokens : ℤ
  maxCompletionTokens : ℤ
  safetyBuffer : ℤ
  /-- `Math.floor(budget * this.consolidationRatio)`. -/
  targetPromptTokens : ℤ → ℤ
  view : M → Message
  messageTokens : M → ℕ

section Settings
variable {M : Type} (c : Config M)

def Config.inputTokenBudget : ℤ := c.contextWindowTokens - c.maxCompletionTokens - c.safetyBuffer

def Config.retryDelayMs (attemptCount : ℕ) : ℕ :=
  c.retryBackoffMs.getD (min attemptCount (c.retryBackoffMs.length - 1)) 90000

end Settings

/-! ### What the queue shows -/

section Shown
variable (db : Db)

/-- The turn of `last_processed_turn_id`. -/
def lastProcessedTurn : Option DagTurn := (truthy (getMeta db "last_processed_turn_id")).bind (getTurn db)

def hasProcessedThrough (turnId : String) : Bool :=
  match getTurn db turnId with
  | none => false
  | some target => (lastProcessedTurn db).any fun processed => target.messageEnd ≤ processed.messageEnd

def hasBlockedBeforeOrAt (turnId : String) : Bool :=
  match getTurn db turnId with
  | none => false
  | some target =>
    db.turns.any fun t => t.dagStatus = .blocked ∧ t.messageStart ≤ target.messageStart

def firstDagTurnCoveringBoundary (plannedMessageEnd hardMessageEnd : ℕ) : Option DagTurn :=
  (sortBy (ascending (·.messageEnd)) ((listTurns db).filter fun t =>
    (plannedMessageEnd : ℤ) ≤ t.messageEnd ∧ t.messageEnd ≤ (hardMessageEnd : ℤ))).head?

end Shown

/-! ### States and events -/

/-- A compaction between its plan and its commit. -/
structure Compaction where
  plannedMessageEnd : ℕ
  hardMessageEnd : ℕ
  maxMessageEndExclusive : Option ℕ
  inputTokenBudget : ℤ
  targetPromptTokens : ℤ
  targetTurnId : String
  caughtUp : Bool := false

structure State (M : Type) where
  db : Db := {}
  claimed : Option DagTurn := none
  session : Session M ℕ
  compaction : Option Compaction := none

structure TokenCompactionOptions where
  replayMaxMessages : Option ℕ := none
  inputTokenBudget : Option ℤ := none
  maxMessageEndExclusive : Option ℕ := none

/-- What a prompt is estimated for. -/
structure Projection where
  visibleMessageStart : ℤ
  summaryOverride : Option String

/-- `estimateProjectionTokens`: `none` is an exception, after which the caller goes on with 0. -/
abbrev Estimate : Type := Projection → Option ℤ

inductive Event (M : Type) where
  | enqueue (turn : DagTurnInput) (now : ℕ)
  /-- The worker looks for the next turn, on a wake, a timer, or after the last one. -/
  | claim (now : ℕ)
  /-- The model has replied for the claimed turn (`none`: the call or the parser failed). -/
  | finish (reply : Option Json) (error : String) (env fallbackEnv : Env) (now : ℕ)
  /-- Others have changed the messages of the session. -/
  | messages (messages : List M)
  | enforceFileCap (limit : ℕ) (now : String)
  | plan (opts : TokenCompactionOptions) (estimate : Estimate) (env : Env)
  /-- The compaction looks whether the queue has caught up; `expired`: for the last time. -/
  | poll (expired : Bool)
  /-- The compaction goes on; `saved`: the session file was written. -/
  | commit (estimate : Estimate) (env : Env) (saved : Bool)
  | restart

section Steps
variable {M : Type} (c : Config M) (s : State M)

/-! ### The worker -/

def claim (now : ℕ) : State M :=
  match s.claimed with
  | some _ => s
  | none => { s with db := (claimNextTurn s.db now).1, claimed := (claimNextTurn s.db now).2 }

/-- The tables after a failed build of the turn. -/
def failTurn (db : Db) (turn : DagTurn) (error : String) (fallbackEnv : Env) (now : ℕ) : Db :=
  if turn.attemptCount + 1 < c.maxUpdateAttempts then
    markTurnRetry db turn.turnId error (now + c.retryDelayMs turn.attemptCount) now
  else match applyDeterministicFallback c.sessionKey fallbackEnv db turn with
    | .ok (db', _) => db'
    | .error e => markTurnBlocked db turn.turnId e.message (some (now + c.retryDelayMs 0)) now

/-- The tables after the build of the turn. -/
def buildTurn (db : Db) (turn : DagTurn) (reply : Option Json) (error : String) (env fallbackEnv : Env)
    (now : ℕ) : Db :=
  match reply.bind fun parsed =>
      buildAndApply c.sessionKey env c.maxBuilderContextNodes parsed db turn with
  | some (.ok (db', _)) => db'
  | _ => failTurn c db turn error fallbackEnv now

def finish (reply : Option Json) (error : String) (env fallbackEnv : Env) (now : ℕ) : State M :=
  match s.claimed with
  | none => s
  | some turn => { s with db := buildTurn c s.db turn reply error env fallbackEnv now, claimed := none }

/-! ### The compaction -/

def currentSummaryText (session : Session M ℕ) : Option String :=
  match session.metadata.get? "lastSummary" with
  | some (.str text) => some text
  | some (.obj fields) => (JsonObject.get? fields "text").bind Json.str?
  | _ => none

/-- `maybeConsolidateByDag` up to the wait for the queue. -/
def plan (opts : TokenCompactionOptions) (estimate : Estimate) (env : Env) : State M :=
  if s.compaction.isSome ∨ c.contextWindowTokens ≤ 0 ∨ s.session.messages.isEmpty ∨
      opts.inputTokenBudget.any (· ≤ 0) then s
  else
    let last := s.session.lastConsolidated
    let length := s.session.messages.length
    let budget := opts.inputTokenBudget.getD c.inputTokenBudget
    let hardMessageEnd := max last (min (opts.maxMessageEndExclusive.getD length) length)
    let target := c.targetPromptTokens budget
    let estimated := (estimate
      { visibleMessageStart := last, summaryOverride := currentSummaryText s.session }).getD 0
    let tokenPressureActive : Bool := budget ≤ estimated
    if replayOverflowBoundary c.view s.session opts.replayMaxMessages = none ∧
        (tokenPressureActive = false ∨ estimated ≤ 0) then s
    else match planTokenCompactionBoundary c.view c.messageTokens s.session
        { replayMaxMessages := opts.replayMaxMessages
          estimatedTokens := estimated
          targetPromptTokens := target
          hardMessageEnd := hardMessageEnd
          tokenPressureActive := tokenPressureActive
          allowHardBoundary := opts.maxMessageEndExclusive.isSome } with
      | none => s
      | some plannedMessageEnd =>
        -- `new SessionDagStore(…)`
        match repairTaskTransitionsOnce c.sessionKey env s.db with
        | .error _ => s
        | .ok db =>
          { s with
            db := db
            compaction := (firstDagTurnCoveringBoundary db plannedMessageEnd hardMessageEnd).map
              fun target' =>
                { plannedMessageEnd := plannedMessageEnd
                  hardMessageEnd := hardMessageEnd
                  maxMessageEndExclusive := opts.maxMessageEndExclusive
                  inputTokenBudget := budget
                  targetPromptTokens := target
                  targetTurnId := target'.turnId } }

/-- One round of `waitUntilProcessed`. -/
def poll (expired : Bool) : State M :=
  match s.compaction with
  | none => s
  | some k =>
    if k.caughtUp then s
    else if hasProcessedThrough s.db k.targetTurnId then
      { s with compaction := some { k with caughtUp := true } }
    else if expired || hasBlockedBeforeOrAt s.db k.targetTurnId then { s with compaction := none }
    else s

/-- The snapshot for a boundary, if it fits. -/
def fittingSnapshot (k : Compaction) (estimate : Estimate) (graph : DagGraph) (useAvailableBudget : Bool)
    (messageEnd : ℤ) : Option SnapshotText :=
  let basePromptTokens := (estimate { visibleMessageStart := messageEnd, summaryOverride := none }).getD 0
  if basePromptTokens ≤ 0 then none
  else
    let targetSnapshotBudget := k.targetPromptTokens - basePromptTokens
    let availableSnapshotBudget := k.inputTokenBudget - basePromptTokens - 1
    let snapshotTokenBudget :=
      if useAvailableBudget then availableSnapshotBudget
      else min targetSnapshotBudget availableSnapshotBudget
    if snapshotTokenBudget ≤ 0 then none
    else if useAvailableBudget ∧ snapshotTokenBudget ≤ targetSnapshotBudget then none
    else
      let candidate := buildDagSnapshotText graph (some snapshotTokenBudget)
      if snapshotTokenBudget < candidate.tokenEstimate then none
      else
        let finalPromptTokens := (estimate
          { visibleMessageStart := messageEnd, summaryOverride := some candidate.text }).getD 0
        if finalPromptTokens ≤ 0 ∨ k.inputTokenBudget ≤ finalPromptTokens then none else some candidate

/-- The boundaries that are tried, the first one first. -/
def boundaries (db : Db) (k : Compaction) (lastProcessed : DagTurn) : List ℤ :=
  sortBy (ascending fun e => e) (List.eraseDups ((k.plannedMessageEnd : ℤ) ::
    ((listTurns db).filter fun t =>
      t.dagStatus = .done ∧ (k.plannedMessageEnd : ℤ) < t.messageEnd ∧
        t.messageEnd ≤ lastProcessed.messageEnd ∧
        (k.maxMessageEndExclusive.isSome ∨ t.messageEnd < (k.hardMessageEnd : ℤ))).map (·.messageEnd)))

def selectSnapshot (db : Db) (k : Compaction) (estimate : Estimate) (lastProcessed : DagTurn) :
    Option (ℤ × SnapshotText) :=
  let graph := readGraphForHistoryDag c.sessionKey db
  [false, true].findSome? fun useAvailableBudget =>
    (boundaries db k lastProcessed).findSome? fun messageEnd =>
      (fittingSnapshot k estimate graph useAvailableBudget messageEnd).map (messageEnd, ·)

def commitSessionSummary (session : Session M ℕ) (snapshot : DagSnapshotRecord) (lastConsolidated : ℕ) :
    Session M ℕ :=
  { session with
    metadata := session.metadata.set "lastSummary" (.obj
      [("text", .str snapshot.snapshotText), ("mode", .str "dag"), ("dagSnapshotId", .str snapshot.id),
        ("lastActive", .str session.updatedAt)])
    lastConsolidated := lastConsolidated }

/-- `maybeConsolidateByDag` from the wait for the queue on. -/
def commit (estimate : Estimate) (env : Env) (saved : Bool) : State M :=
  match s.compaction with
  | none => s
  | some k =>
    if k.caughtUp = false then s
    else
      match lastProcessedTurn s.db with
      | none => { s with compaction := none }
      | some lastProcessed =>
        if lastProcessed.dagStatus ≠ .done ∨ lastProcessed.messageEnd < k.plannedMessageEnd then
          { s with compaction := none }
        else match selectSnapshot c s.db k estimate lastProcessed with
          | none => { s with compaction := none }
          | some (messageEnd, candidate) =>
            let stored := createSnapshot s.db (some lastProcessed.turnId) candidate.text candidate.json
              candidate.tokenEstimate env
            { s with
              db := stored.1
              session :=
                if saved then commitSessionSummary s.session stored.2 messageEnd.toNat else s.session
              compaction := none }

/-! ### The step -/

def step : Event M → State M
  | .enqueue turn now => { s with db := (upsertTurn s.db turn now).toOption.elim s.db (·.1) }
  | .claim now => claim s now
  | .finish reply error env fallbackEnv now => finish c s reply error env fallbackEnv now
  | .messages messages => { s with session := { s.session with messages := messages } }
  | .enforceFileCap limit now =>
    { s with session := (Memmy.Conversation.Trim.enforceFileCap c.view now s.session limit).1 }
  | .plan opts estimate env => plan c s opts estimate env
  | .poll expired => poll s expired
  | .commit estimate env saved => commit c s estimate env saved
  | .restart => { s with claimed := none, compaction := none }

end Steps

end Memmy.SessionDag.Queue
