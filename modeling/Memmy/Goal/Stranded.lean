import Memmy.Goal.HandoverSteps

/-! # No entry of the inbox is stranded

A turn that has an entry of the inbox to store releases the session's work in its `finally`, whether
it has stored it or not; so does a dispatch whose publication fails after the entry is reserved. The
entry then stays reserved: `reserveInboxEntry` passes it by, and while it is alone in the inbox no
other work of the session is dispatched. `Settled` says that a step releases no such work.

* `run_inbox`: in every run the ids of the inbox are distinct and each entry is stored by at most one
  turn; if every step is settled, a session at rest has no reserved entry; a step that is not settled
  strands one;
* `cancelledRun_strands`: a turn cancelled before it stores its message. -/

namespace Memmy.Goal.Dispatch

open Lib.Pick Lib.Run List
open Goal.State Goal.Runtime Goal.Inbox

/-! ### A session at rest -/

/-- No active task, no lease, no work reserved, and no reserved message on the bus. -/
def Quiescent (s : State) : Prop :=
  s.activeTasks = [] ∧ s.hasGoalLease = false ∧ s.hasWorkReservation = false ∧
    ∀ message ∈ s.bus, message.turnId = none

def NoneReserved (s : State) : Prop := ∀ entry ∈ s.inbox, entry.turnId = none

/-- Entries are there, and a dispatch finds none to reserve: it then leaves the continuation of the
goal alone as well. -/
def Blocked (s : State) : Prop := s.inbox ≠ [] ∧ ∀ t, reserveInboxEntry t s.inbox = none

/-- **The step releases no work whose entry has still to be stored**: a publication succeeds after an
entry was reserved for it, and the turn of an entry ends after it has stored the message. -/
def Settled (host : Host) (s : State) : Event → Prop
  | .publish t ok => ok = true ∨ ∀ d ∈ s.dispatching.find? (isPublishing t), ¬Reserved s d.turnId
  | .finish k outcome => ∀ turn ∈ s.turns[k]?, outcome.possible host turn = true →
      turn.stage = .running → ¬Reserved s turn.turnId
  | _ => True

instance (s : State) (t : String) : Decidable (Reserved s t) := by
  unfold Reserved; infer_instance

instance (host : Host) (s : State) (e : Event) : Decidable (Settled host s e) := by
  cases e <;> unfold Settled <;> infer_instance

/-- An entry is reserved for a turn and the session's work for none. -/
def Stranded (s : State) : Prop := entryIds s ≠ [] ∧ s.runtime.workReservation = none

/-! ### Settled steps -/

/-- Every reserved entry has the work reserved with it. -/
def Covered (s : State) : Prop := ∀ t ∈ entryIds s, Reserved s t

variable {host : Host} {s s' : State} {k : ℕ} {t : String} {turn : Turn}

theorem Covered.frame (h : Covered s) (hentries : ∀ t ∈ entryIds s', t ∈ entryIds s)
    (hres : KeepsInbox s.runtime s'.runtime) : Covered s' :=
  fun t ht => (hres t).mpr (h t (hentries t ht))

theorem Covered.releaseWork (h : Covered s) (hnot : t ∉ entryIds s)
    (hentries : entryIds s' = entryIds s)
    (hres : s'.runtime.workReservation = (s.releaseWork t).runtime.workReservation) : Covered s' := by
  intro t' ht'
  rw [hentries] at ht'
  have hrel : Reserved (s.releaseWork t) t' := reserved_releaseWork.mpr ⟨h t' ht', fun heq => hnot (heq ▸ ht')⟩
  rw [Reserved, hres]
  exact hrel

theorem covered_takeMessage (h : Covered s) (c : Circumstances) : Covered (takeMessage host s c) := by
  unfold takeMessage
  split
  · exact h
  · next message bus hbus =>
    split_ifs
    · exact h
    · dsimp only
      split
      · unfold keepInInbox
        cases hok : enqueueUserMessage message c.uuid s.receipts s.inbox with
        | error e => exact h
        | ok inbox =>
          split_ifs
          · refine h.frame (fun t ht => ?_) (.of_eq rfl)
            rcases enqueueUserMessage_ok hok with rfl | ⟨id, -, rfl⟩
            · exact ht
            · change t ∈ (s.inbox ++ [newEntry message id s.receipts]).filterMap (·.turnId) at ht
              rwa [entryIds_newEntry] at ht
          · exact h
      · unfold openSlot
        split_ifs
        · exact h
        · exact h
      · exact h

theorem covered_dispatch (h : Covered s) (t : String) : Covered (dispatchNextGoalWork host s t) := by
  unfold dispatchNextGoalWork
  split_ifs with hbusy hused hinbox
  · exact h
  · exact h
  all_goals
    simp only [State.hasWorkReservation, Bool.or_eq_true, not_or, Bool.not_eq_true,
      Option.isSome_eq_false_iff, Option.isNone_iff_eq_none] at hbusy
    have hnone : ∀ t', t' ∉ entryIds s := fun t' ht' => by
      have hr := h t' ht'
      rw [Reserved, hbusy.2] at hr
      cases hr
  · exact fun t' ht' => absurd ht' (hnone t')
  · split
    · exact h
    · unfold dispatchContinuation
      split
      · exact h
      · split
        · exact h
        · split
          · exact fun t' ht' => absurd ht' (hnone t')
          · split_ifs
            · exact h
            · exact fun t' ht' => absurd ht' (hnone t')
            · exact fun t' ht' => absurd ht' (hnone t')

theorem covered_reserveEntry (hand : Handover s) (h : Covered s) (t : String) (saved : Bool) :
    Covered (reserveEntry s t saved) := by
  unfold reserveEntry
  cases hfind : s.dispatching.find? (isReserving t) with
  | none => exact h
  | some d =>
    dsimp only
    obtain ⟨hd, front, back, hsplit, -, -⟩ := split_find? hfind
    simp only [isReserving, Bool.and_eq_true, decide_eq_true_eq] at hd
    obtain ⟨rfl, hstage⟩ := hd
    have hmem : d ∈ s.dispatching := by rw [hsplit]; simp
    split
    · next entry inbox hok =>
      intro t' ht'
      rcases mem_cons.mp ((entryIds_reserved hok).1.mem_iff.mp ht') with rfl | ht'
      · exact hand.calls d hmem (hand.reservingKind d hmem hstage)
      · exact h t' ht'
    · exact h.releaseWork (hand.reserving d hmem hstage) rfl rfl

theorem covered_publish (h : Covered s) {ok : Bool} (hsettled : Settled host s (.publish t ok)) :
    Covered (publish s t ok) := by
  unfold publish
  cases hfind : s.dispatching.find? (isPublishing t) with
  | none => exact h
  | some d =>
    have hd := (split_find? hfind).1
    simp only [isPublishing, Bool.and_eq_true, decide_eq_true_eq] at hd
    obtain ⟨rfl, -⟩ := hd
    dsimp only
    split
    · exact h
    · split_ifs with hok
      · exact h
      · have hnot : d.turnId ∉ entryIds s := fun hmem =>
          (hsettled.resolve_left hok) d hfind (h d.turnId hmem)
        split
        · exact h.releaseWork hnot rfl rfl
        · exact h.releaseWork hnot rfl rfl

theorem covered_stateBuild (h : Covered s) (k : ℕ) (saved : Bool) : Covered (stateBuild s k saved) := by
  unfold stateBuild
  split
  · exact h
  · next turn _ =>
    split
    · exact h
    · split
      · split_ifs
        · exact h.frame (fun _ ht => ht) (keepsInbox_registerLease s.runtime _ _)
        · exact h
      · dsimp only
        split
        · exact h
        · rw [registerActiveLease_eq]
          split_ifs
          · exact h.frame (fun _ ht => ht) (keepsInbox_registerActiveLease s _)
          · refine h.frame (fun _ ht => (entryIds_dropReserved s turn.turnId).1.subset ht) ?_
            unfold persistGoalUserTurn
            split_ifs
            · exact keepsInbox_registerActiveLease s turn.turnId
            · exact keepsInbox_registerActiveLease s turn.turnId
          · exact h.frame (fun _ ht => ht) (keepsInbox_registerActiveLease s _)

theorem covered_finishTurn (hand : Handover s) (h : Covered s) {outcome : Outcome}
    (hsettled : Settled host s (.finish k outcome)) : Covered (finishTurn host s k outcome) := by
  unfold finishTurn
  cases hturn : s.turns[k]? with
  | none => exact h
  | some turn =>
    dsimp only
    by_cases hpossible : outcome.possible host turn = false
    · rw [if_pos hpossible]
      exact h
    rw [if_neg hpossible, reschedule_eq]
    have hpossible : outcome.possible host turn = true := by simpa using hpossible
    refine h.releaseWork (t := turn.turnId) (fun hmem => ?_) rfl rfl
    rcases possible_stage hpossible with hstage | hstage
    · exact hsettled turn hturn hpossible hstage (h _ hmem)
    · refine hand.built _ (h _ hmem) ?_ hmem
      exact mem_builtIds.mpr ⟨turn, mem_of_getElem? hturn, hstage, rfl⟩

/-- **A settled step leaves no entry without its work.** -/
theorem covered_step (hand : Handover s) (h : Covered s) {e : Event} (hsettled : Settled host s e) :
    Covered (step host s e) := by
  cases e with
  | receive message =>
    unfold step receive
    dsimp only
    split_ifs
    · exact h
    · exact h
  | take c => exact covered_takeMessage h c
  | removeQueued entryId =>
    unfold step removeQueued
    dsimp only
    split
    · next entry inbox hremoved =>
      obtain ⟨hnone, front, back, hinbox, rfl⟩ := removeUnreservedInboxEntry_removed hremoved
      refine h.frame (fun t ht => ?_) (.of_eq rfl)
      simpa [entryIds, hinbox, hnone] using ht
    · exact h
  | dispatch t => exact covered_dispatch h t
  | reserve t saved => exact covered_reserveEntry hand h t saved
  | publish t ok => exact covered_publish h hsettled
  | start k =>
    unfold step startTurn
    dsimp only
    split
    · exact h
    · split_ifs
      · exact h
      · exact h
      · exact h
      · exact h
  | build k saved => exact covered_stateBuild h k saved
  | finish k outcome => exact covered_finishTurn hand h hsettled
  | settle k =>
    unfold step settleTask
    dsimp only
    split
    · exact h
    · split_ifs
      · exact h
      · exact h
  | cancel k forget =>
    unfold step cancelTask
    dsimp only
    split
    · exact h
    · exact h
  | schedule goal =>
    unfold step scheduleGoalWork
    dsimp only
    split_ifs
    · exact h
    · exact h
  | invalidate => exact h
  | control e =>
    unfold step
    dsimp only
    split_ifs with hcontrol
    · exact h.frame (fun _ ht => ht) (keepsInbox_control s.runtime hcontrol)
    · exact h
  | restart =>
    intro t ht
    simp [step, restart, entryIds, resetDispatchingInbox] at ht

theorem noneReserved_of_covered (h : Covered s) (hfree : s.hasWorkReservation = false) :
    NoneReserved s := by
  intro entry hentry
  cases hid : entry.turnId with
  | none => rfl
  | some t =>
    have hr : Reserved s t := h t (mem_filterMap.mpr ⟨entry, hentry, hid⟩)
    rw [State.hasWorkReservation, hr] at hfree
    cases hfree

theorem not_blocked_of_noneReserved (h : NoneReserved s) : ¬Blocked s := by
  rintro ⟨hne, hnone⟩
  obtain ⟨entry, hentry⟩ := exists_mem_of_ne_nil _ hne
  exact reserveInboxEntry_eq_none.mp (hnone "") entry hentry (h entry hentry)

/-! ### Steps that are not settled -/

theorem stranded_of_release (hres : Reserved s t) (hmem : t ∈ entryIds s)
    (hentries : entryIds s' = entryIds s)
    (hwork : s'.runtime.workReservation = (s.releaseWork t).runtime.workReservation) :
    Stranded s' := by
  refine ⟨?_, ?_⟩
  · rw [hentries]
    exact ne_nil_of_mem hmem
  · rw [hwork, workReservation_releaseWork, hres]
    simp

theorem stranded_step (hand : Handover s) {e : Event} (hsettled : ¬Settled host s e) :
    Stranded (step host s e) := by
  cases e with
  | publish t ok =>
    unfold Settled at hsettled
    push Not at hsettled
    obtain ⟨hok, d, hfind, hres⟩ := hsettled
    obtain ⟨hd, front, back, hsplit, -, herase⟩ := split_find? hfind
    simp only [isPublishing, Bool.and_eq_true, decide_eq_true_eq] at hd
    obtain ⟨rfl, hstage⟩ := hd
    have hmem : d ∈ s.dispatching := by rw [hsplit]; simp
    have hkind : d.kind = .inbox := by
      cases hk : d.kind with
      | inbox => rfl
      | continuation =>
        refine absurd hres (hand.continuation (callCarrier d) ?_ (by simp [callCarrier, hk]))
        exact mem_append_left _ (mem_append_left _ (mem_map_of_mem hmem))
    obtain ⟨hothers, hbuilt⟩ := hand.alone hsplit hkind
    have hentry : d.turnId ∈ entryIds s := by
      rcases hand.held _ hres with ⟨d', hd', hstage', heq⟩ | hb | he
      · rw [hsplit] at hd'
        rcases mem_append.mp hd' with hd' | hd'
        · exact absurd heq (hothers d' (mem_append_left _ hd'))
        · rcases mem_cons.mp hd' with rfl | hd'
          · exact absurd hstage' hstage
          · exact absurd heq (hothers d' (mem_append_right _ hd'))
      · exact absurd hb hbuilt
      · exact he
    unfold step publish
    dsimp only
    rw [hfind]
    dsimp only
    split
    · next hreserving => exact absurd hreserving hstage
    · rw [if_neg hok]
      split
      · exact stranded_of_release hres hentry rfl rfl
      · exact stranded_of_release hres hentry rfl rfl
  | finish k outcome =>
    unfold Settled at hsettled
    push Not at hsettled
    obtain ⟨turn, hturn, hpossible, hstage, hres⟩ := hsettled
    obtain ⟨hcalls, hturns⟩ := hand.alone_turn hturn (by rw [hstage]; decide) hres
    have hentry : turn.turnId ∈ entryIds s := by
      rcases hand.held _ hres with ⟨d, hd, -, heq⟩ | hb | he
      · exact absurd heq (hcalls d hd)
      · obtain ⟨turn', hmem, hbuilt, heq⟩ := mem_builtIds.mp hb
        obtain ⟨front, back, hsplit, -⟩ := split_getElem? hturn
        rw [hsplit] at hmem
        rcases mem_append.mp hmem with hmem | hmem
        · exact absurd heq (hturns front back hsplit turn' (mem_append_left _ hmem)
            hbuilt)
        · rcases mem_cons.mp hmem with rfl | hmem
          · rw [hstage] at hbuilt
            cases hbuilt
          · exact absurd heq (hturns front back hsplit turn' (mem_append_right _ hmem) hbuilt)
      · exact he
    unfold step finishTurn
    dsimp only
    rw [Option.mem_def.mp hturn]
    dsimp only
    rw [if_neg (by simp [hpossible]), reschedule_eq]
    exact stranded_of_release hres hentry rfl rfl
  | _ => exact absurd trivial hsettled

/-! ### Runs -/

/-- **The inbox over a run.** -/
theorem run_inbox (host : Host) (goalState : Option GoalState) (goalRoute : Option GoalRoute)
    (es : List Event) :
    (∀ s ∈ visited (step host) (start goalState goalRoute) es, IdsDistinct s ∧ StoredOnce s) ∧
    ((∀ t ∈ taken (step host) (start goalState goalRoute) es, Settled host t.1 t.2) →
      ∀ s ∈ visited (step host) (start goalState goalRoute) es,
        Quiescent s → NoneReserved s ∧ ¬Blocked s) ∧
    ∀ t ∈ taken (step host) (start goalState goalRoute) es, ¬Settled host t.1 t.2 →
      Stranded (step host t.1 t.2) := by
  refine ⟨books_run goalState goalRoute es, fun hsettled s hs hquiet => ?_, fun t ht hnot => ?_⟩
  · have hinv : Handover s ∧ Covered s := by
      refine invariant_of_steps (I := fun s => Handover s ∧ Covered s) ?_ es _
        ⟨handover_start goalState goalRoute, ?_⟩ hsettled s hs
      · exact fun s e h hstep => ⟨handover_step h.1 e, covered_step h.1 h.2 hstep⟩
      · intro t ht
        cases ht
    have hnone := noneReserved_of_covered hinv.2 hquiet.2.2.1
    exact ⟨hnone, not_blocked_of_noneReserved hnone⟩
  · have hand : Handover t.1 := invariant (I := Handover) (fun s e h => handover_step h e) es _
      (handover_start goalState goalRoute) t.1 (mem_visited_of_mem_taken _ ht)
    exact stranded_step hand hnot

/-! ### A cancelled turn -/

/-- A session without commands. -/
def plainHost : Host where
  isPriority := fun _ => false
  isDispatchableCommand := fun _ => false
  hasCapabilities := fun _ => true
  renderGoalContinuation := fun goal => goal.objective

def sampleGoal : GoalState where
  goalId := "3f2a5c10-7b64-4f0e-9d2c-51a8e0b7c934"
  objective := "Write the report"
  status := .active
  tokenBudget := none
  tokensUsed := 0
  timeUsedSeconds := 0
  createdAt := 1000
  updatedAt := 1000

def sampleMessage : InboundMessage where
  channel := "telegram"
  chatId := "7"
  senderId := "user"
  content := "Use the newer figures"
  clientRequestId := some "request_1"

/-- A message arrives while the goal's continuation is scheduled; its turn is stopped as soon as it
has started. -/
def cancelledRun : List Event :=
  [.schedule sampleGoal, .receive sampleMessage, .take { uuid := "u1", turnId := "r1" },
    .dispatch "turn_1", .reserve "turn_1" true, .publish "turn_1" true,
    .take { uuid := "u2", turnId := "r2" }, .start 0, .cancel 0 false, .finish 0 .cancelled,
    .settle 0]

theorem cancelledRun_strands : ¬ ∀ (host : Host) (goalState : Option GoalState)
    (goalRoute : Option GoalRoute) (es : List Event),
    ∀ s ∈ visited (step host) (start goalState goalRoute) es, Quiescent s → NoneReserved s ∧ ¬Blocked s := by
  intro h
  have hlast := h plainHost (some sampleGoal) none cancelledRun _
    (final_mem_visited (step plainHost) cancelledRun _)
  have hrest : Quiescent (final (step plainHost) (start (some sampleGoal) none) cancelledRun) := by
    refine ⟨?_, ?_, ?_, ?_⟩ <;> decide +kernel
  have hreserved : ∃ entry ∈ (final (step plainHost) (start (some sampleGoal) none)
      cancelledRun).inbox, entry.turnId ≠ none := by decide +kernel
  obtain ⟨entry, hentry, hne⟩ := hreserved
  exact hne ((hlast hrest).1 entry hentry)

end Memmy.Goal.Dispatch
