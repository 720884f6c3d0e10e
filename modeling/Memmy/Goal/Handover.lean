import Memmy.Goal.Accounts

/-! # The hand-over of an entry to its turn

While the work of the session is reserved for a turn that is to store an entry (`Reserved`), at most
one call, message or turn carries the turn's id (`carriers`), and the entry is in one of three phases:
the call has still to reserve it, it is reserved, or the turn has stored it. `Handover` says so, and
every step keeps it (`handover_step`). -/

namespace Memmy.Goal.Dispatch

open Goal.State Goal.Runtime Goal.Inbox List

/-! ### The reservation in the goal runtime -/

/-- The reservation for an entry is the same. -/
def KeepsInbox (r r' : RuntimeState) : Prop :=
  ∀ t, r'.workReservation = some ⟨t, .inbox⟩ ↔ r.workReservation = some ⟨t, .inbox⟩

theorem KeepsInbox.of_eq {r r' : RuntimeState} (h : r'.workReservation = r.workReservation) :
    KeepsInbox r r' := fun t => by rw [h]

theorem keepsInbox_invalidate (r : RuntimeState) : KeepsInbox r r.invalidateContinuationReservation := by
  intro t
  unfold RuntimeState.invalidateContinuationReservation
  split_ifs with h
  · constructor
    · intro hnone
      cases hnone
    · intro hsome
      rw [hsome] at h
      cases h
  · rfl

theorem keepsInbox_endLifecycle (r : RuntimeState) (settlement : Bool) :
    KeepsInbox r (if settlement then r.endLifecycleSettlement else r.endLifecycleControl) := by
  split_ifs
  · exact .of_eq rfl
  · exact .of_eq rfl

theorem keepsInbox_commitGoal {r : RuntimeState} {saved : Bool}
    {op : Except GoalRuntimeError GoalState} {settlement : Bool}
    {commit : GoalState → RuntimeState → RuntimeState}
    (hcommit : ∀ goal r, KeepsInbox r (commit goal r)) :
    KeepsInbox r (commitGoal r saved op settlement commit) := by
  unfold commitGoal
  split
  · next goal =>
    split
    · exact hcommit goal { r with goalState := some goal }
    · exact keepsInbox_endLifecycle r settlement
  · exact keepsInbox_endLifecycle r settlement

section
variable (r : RuntimeState)
include r

theorem keepsInbox_runMutate (saved : Bool) (now : ℕ) (uuid : String) (c : Control) :
    KeepsInbox r (runMutate r saved now uuid c) := by
  cases c <;> simp only [runMutate]
  case create objective tokenBudget route turnId =>
    exact keepsInbox_commitGoal fun _ _ => .of_eq rfl
  case updateFromModel goalId status =>
    refine keepsInbox_commitGoal fun _ r => ?_
    split_ifs
    · exact .of_eq rfl
    · exact .of_eq rfl
  case pauseAndCancel goalId => exact keepsInbox_commitGoal fun _ r => keepsInbox_invalidate r
  case resume goalId => exact keepsInbox_commitGoal fun _ _ => .of_eq rfl
  case edit goalId objective => exact keepsInbox_commitGoal fun _ _ => .of_eq rfl
  case setBudget goalId tokenBudget cancel =>
    refine keepsInbox_commitGoal fun _ r => ?_
    split_ifs
    · exact keepsInbox_invalidate r
    · exact .of_eq rfl
  case clearPause goalId =>
    split
    · split_ifs
      · exact .of_eq rfl
      · exact .of_eq rfl
    · exact .of_eq rfl
  case clear goalId pausedSnapshot =>
    split
    · split_ifs
      · exact keepsInbox_invalidate { r with goalState := none, goalRoute := none }
      · exact .of_eq rfl
    · exact .of_eq rfl
  case clearCancelling goalId snapshot => exact .of_eq rfl
  case ending settlement => exact .of_eq rfl

theorem keepsInbox_runFinish (cancelled : Bool) (c : Control) : KeepsInbox r (runFinish r cancelled c) := by
  unfold runFinish
  split
  · exact .of_eq rfl
  · exact .of_eq rfl
  · split_ifs
    · exact .of_eq rfl
    · exact .of_eq rfl
  · exact .of_eq rfl

theorem keepsInbox_begin (c : Control) :
    KeepsInbox r (beginLifecycleControl r c) ∧ KeepsInbox r (beginLifecycleSettlement r c) := by
  unfold beginLifecycleControl beginLifecycleSettlement
  split_ifs
  · exact ⟨.of_eq rfl, .of_eq rfl⟩
  · exact ⟨.of_eq rfl, .of_eq rfl⟩

theorem keepsInbox_beginClear (goalId : String) : KeepsInbox r (beginClear r goalId) := by
  unfold beginClear
  split
  · split
    · exact .of_eq rfl
    · dsimp only
      split_ifs
      · exact (keepsInbox_begin r _).2
      · exact (keepsInbox_begin r _).2
  · exact .of_eq rfl

theorem keepsInbox_runSettle (saved : Bool) (now : ℕ) (input : SettleInput)
    (goalId : String) : KeepsInbox r (runSettle r saved now input goalId) := by
  unfold runSettle
  split
  · exact .of_eq rfl
  · split
    · exact .of_eq rfl
    · dsimp only
      split_ifs
      · exact .of_eq rfl
      · exact .of_eq rfl
      · exact .of_eq rfl

/-- **A control of the goal takes no entry's reservation away**, and makes none. -/
theorem keepsInbox_control {e : Runtime.Event} (h : isControl e = true) : KeepsInbox r (Runtime.step r e) := by
  cases e with
  | create objective tokenBudget route turnId =>
    unfold Runtime.step
    dsimp only
    split
    · split_ifs
      · exact .of_eq rfl
      · exact (keepsInbox_begin r _).1
    · exact .of_eq rfl
  | updateFromModel goalId status => exact (keepsInbox_begin r _).1
  | pauseAndCancel goalId => exact (keepsInbox_begin r _).2
  | resume goalId => exact (keepsInbox_begin r _).1
  | edit goalId objective =>
    unfold Runtime.step
    dsimp only
    split
    · exact (keepsInbox_begin r _).1
    · exact .of_eq rfl
  | setBudget goalId value =>
    unfold Runtime.step
    dsimp only
    split
    · split_ifs
      · exact (keepsInbox_begin r _).2
      · exact (keepsInbox_begin r _).1
    · exact .of_eq rfl
  | clear goalId => exact keepsInbox_beginClear r goalId
  | mutate saved now uuid =>
    unfold Runtime.step
    dsimp only
    split
    · exact keepsInbox_runMutate r saved now uuid _
    · exact .of_eq rfl
  | finish cancelled =>
    unfold Runtime.step
    dsimp only
    split
    · exact keepsInbox_runFinish r cancelled _
    · exact .of_eq rfl
  | settleTurn input =>
    unfold Runtime.step
    dsimp only
    split
    · exact .of_eq rfl
    · split_ifs
      · exact .of_eq rfl
      · exact .of_eq rfl
  | settle k saved now =>
    unfold Runtime.step
    dsimp only
    split
    · exact .of_eq rfl
    · next input _ =>
      exact keepsInbox_runSettle { r with settling := r.settling.eraseIdx k } saved now input _
  | registerLease goalId turnId => cases h
  | releaseTurn turnId => cases h
  | reserveWork reservation => cases h
  | releaseWork turnId => cases h

theorem keepsInbox_registerLease (goalId turnId : String) :
    KeepsInbox r (Runtime.step r (.registerLease goalId turnId)) := by
  unfold Runtime.step
  dsimp only
  split_ifs
  · exact .of_eq rfl
  · exact .of_eq rfl

end

/-! ### Who carries a turn's id -/

/-- The work is reserved for the turn, to store an entry. -/
def Reserved (s : State) (t : String) : Prop := s.runtime.workReservation = some ⟨t, .inbox⟩

/-- A turn's id, and whether it is carried for a continuation. -/
def callCarrier (d : Call) : String × Bool := (d.turnId, d.kind = .continuation)

def busCarrier (message : InboundMessage) : Option (String × Bool) :=
  message.turnId.map fun t => (t, message.internal.isSome)

def turnCarrier (turn : Turn) : String × Bool := (turn.turnId, turn.message.internal.isSome)

/-- **The carriers**: calls, messages on the bus, and turns that have not ended. -/
def carriers (s : State) : List (String × Bool) :=
  s.dispatching.map callCarrier ++ s.bus.filterMap busCarrier ++ s.turnSlots.map turnCarrier

/-- How many carry the id. -/
def carried (s : State) (t : String) : ℕ := ((carriers s).map Prod.fst).count t

/-- The ids of the turns that have stored their message and not ended. -/
def builtIds (s : State) : List String := (s.turns.filter fun turn => turn.stage = .built).map (·.turnId)

/-- The ids that the entries of the inbox are reserved for. -/
def entryIds (s : State) : List String := s.inbox.filterMap (·.turnId)

/-- The phases of an entry's hand-over. -/
structure Handover (s : State) : Prop where
  used : ∀ t, t ∈ (carriers s).map Prod.fst ∨ t ∈ entryIds s → t ∈ s.usedIds
  calls : ∀ d ∈ s.dispatching, d.kind = .inbox → Reserved s d.turnId
  reservingKind : ∀ d ∈ s.dispatching, d.stage = .reserving → d.kind = .inbox
  messages : ∀ d ∈ s.dispatching, ∀ message, d.stage = .publishing message →
    busCarrier message = some (callCarrier d)
  continuation : ∀ c ∈ carriers s, c.2 = true → ¬Reserved s c.1
  single : ∀ t, Reserved s t → carried s t ≤ 1
  unique : (entryIds s).Nodup
  reserving : ∀ d ∈ s.dispatching, d.stage = .reserving → d.turnId ∉ entryIds s
  built : ∀ t, Reserved s t → t ∈ builtIds s → t ∉ entryIds s
  held : ∀ t, Reserved s t → (∃ d ∈ s.dispatching, d.stage = .reserving ∧ d.turnId = t) ∨
    t ∈ builtIds s ∨ t ∈ entryIds s

variable {s s' : State} {t : String} {turn : Turn}

theorem Reserved.eq {t' : String} (h : Reserved s t) (h' : Reserved s t') : t = t' := by
  have := h.symm.trans h'
  exact (GoalWorkReservation.mk.inj (Option.some.inj this)).1

theorem mem_carriers_ids : t ∈ (carriers s).map Prod.fst ↔
    (∃ d ∈ s.dispatching, d.turnId = t) ∨ (∃ m ∈ s.bus, m.turnId = some t) ∨
      ∃ turn ∈ s.turns, turn.stage ≠ .ended ∧ turn.turnId = t := by
  simp only [carriers, map_append, mem_append, map_map, mem_map,
    mem_filterMap, State.turnSlots, mem_filter, Function.comp_apply, or_assoc]
  refine Iff.or Iff.rfl (Iff.or ?_ ?_)
  · constructor
    · rintro ⟨c, ⟨m, hm, hc⟩, rfl⟩
      obtain ⟨t', ht', rfl⟩ := Option.map_eq_some_iff.mp hc
      exact ⟨m, hm, ht'⟩
    · rintro ⟨m, hm, ht⟩
      exact ⟨_, ⟨m, hm, Option.map_eq_some_iff.mpr ⟨t, ht, rfl⟩⟩, rfl⟩
  · constructor
    · rintro ⟨turn, ⟨hturn, hstage⟩, rfl⟩
      exact ⟨turn, hturn, by simpa using hstage, rfl⟩
    · rintro ⟨turn, hturn, hstage, rfl⟩
      exact ⟨turn, ⟨hturn, by simpa using hstage⟩, rfl⟩

theorem carried_pos : 0 < carried s t ↔ t ∈ (carriers s).map Prod.fst := count_pos_iff

def Turn.carries (t : String) (turn : Turn) : Bool := turn.stage ≠ .ended && turn.turnId = t

theorem carried_eq (s : State) (t : String) : carried s t =
    s.dispatching.countP (fun d => d.turnId = t) + s.bus.countP (fun m => m.turnId = some t) +
      s.turns.countP (Turn.carries t) := by
  unfold carried carriers State.turnSlots
  rw [map_append, map_append, count_append, count_append]
  congr 1
  · congr 1
    · rw [map_map, List.count, countP_map]
      exact countP_congr fun d _ => by simp [callCarrier]
    · rw [map_filterMap, List.count, countP_filterMap]
      refine countP_congr fun m _ => ?_
      cases h : m.turnId <;> simp [busCarrier, h]
  · rw [map_map, List.count, countP_map, countP_filter]
    exact countP_congr fun turn _ => by simp [turnCarrier, Turn.carries, and_comm]

/-- **Frame rule.** A step that leaves the calls and the entries' reservations, and gives no reserved
id a second carrier. -/
theorem Handover.frame (h : Handover s) (hcalls : s'.dispatching = s.dispatching)
    (hentries : entryIds s' = entryIds s) (hres : KeepsInbox s.runtime s'.runtime)
    (hused : ∀ t ∈ s.usedIds, t ∈ s'.usedIds)
    (hcarriers : ∀ c ∈ carriers s', c ∈ carriers s ∨ (c.1 ∈ s'.usedIds ∧ c.2 = false))
    (hsingle : ∀ t, Reserved s t → carried s' t ≤ 1)
    (hbuilt : ∀ t, Reserved s t → (t ∈ builtIds s' ↔ t ∈ builtIds s)) : Handover s' where
  used := by
    rintro t (ht | ht)
    · obtain ⟨c, hc, rfl⟩ := mem_map.mp ht
      rcases hcarriers c hc with hc | ⟨hc, -⟩
      · exact hused _ (h.used _ (Or.inl (mem_map_of_mem hc)))
      · exact hc
    · exact hused t (h.used t (Or.inr (hentries ▸ ht)))
  calls d hd hkind := (hres _).mpr (h.calls d (hcalls ▸ hd) hkind)
  reservingKind d hd hstage := h.reservingKind d (hcalls ▸ hd) hstage
  messages d hd := h.messages d (hcalls ▸ hd)
  continuation c hc hcont hreserved := by
    rcases hcarriers c hc with hc | ⟨-, hc⟩
    · exact h.continuation c hc hcont ((hres _).mp hreserved)
    · rw [hc] at hcont
      cases hcont
  single t ht := hsingle t ((hres t).mp ht)
  unique := hentries ▸ h.unique
  reserving d hd hstage := hentries ▸ h.reserving d (hcalls ▸ hd) hstage
  built t ht hmem := by
    have ht' := (hres t).mp ht
    rw [hentries]
    exact h.built t ht' ((hbuilt t ht').mp hmem)
  held t ht := by
    have ht' := (hres t).mp ht
    rw [hentries, hcalls, hbuilt t ht']
    exact h.held t ht'

/-- The frame rule where nothing that carries an id moves. -/
theorem Handover.congr (h : Handover s) (hcalls : s'.dispatching = s.dispatching)
    (hentries : entryIds s' = entryIds s) (hres : KeepsInbox s.runtime s'.runtime)
    (hused : s'.usedIds = s.usedIds) (hbus : s'.bus = s.bus) (hturns : s'.turns = s.turns) :
    Handover s' := by
  have hcarriers : carriers s' = carriers s := by
    rw [carriers, carriers, hcalls, hbus, State.turnSlots, State.turnSlots, hturns]
  refine h.frame hcalls hentries hres (fun t ht => hused ▸ ht) ?_ ?_ ?_
  · intro c hc
    exact Or.inl (hcarriers ▸ hc)
  · intro t ht
    rw [carried, hcarriers]
    exact h.single t ht
  · intro t _
    rw [builtIds, builtIds, hturns]

end Memmy.Goal.Dispatch
