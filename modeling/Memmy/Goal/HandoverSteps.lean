import Memmy.Goal.Handover

/-! # Every step keeps the hand-over

One lemma for each function of the loop, assembled in `handover_step`. Most of them move the carrier
of an id from one place to the next, so that its count stays (`carried_eq`); only the reservation of
an entry and the storing of a message change the phase. -/

namespace Memmy.Goal.Dispatch

open Lib.Pick Lib.Run List Option
open Goal.State Goal.Runtime Goal.Inbox Turn State

variable {host : Host} {s s' : State} {k : ℕ} {t : String} {turn : Turn}

theorem Handover.carried_eq_zero (h : Handover s) (ht : t ∉ s.usedIds) : carried s t = 0 := by
  by_contra hne
  exact ht (h.used t (Or.inl (carried_pos.mp (Nat.pos_of_ne_zero hne))))

/-- **A step that only gives up** calls, carriers and reservations. -/
theorem Handover.shrink (h : Handover s) (hsub : ∀ d ∈ s'.dispatching, d ∈ s.dispatching)
    (hentries : entryIds s' = entryIds s) (hused : s'.usedIds = s.usedIds)
    (hres : ∀ t, Reserved s' t → Reserved s t) (hcarriers : ∀ c ∈ carriers s', c ∈ carriers s)
    (hcalls : ∀ d ∈ s'.dispatching, d.kind = .inbox → Reserved s d.turnId → Reserved s' d.turnId)
    (hcount : ∀ t, carried s' t ≤ carried s t)
    (hbuilt : ∀ t, Reserved s' t → (t ∈ builtIds s' ↔ t ∈ builtIds s))
    (hheld : ∀ d ∈ s.dispatching, d.stage = .reserving → Reserved s' d.turnId → d ∈ s'.dispatching) :
    Handover s' where
  used := by
    rintro t (ht | ht)
    · obtain ⟨c, hc, rfl⟩ := mem_map.mp ht
      exact hused ▸ h.used _ (Or.inl (mem_map_of_mem (hcarriers c hc)))
    · exact hused ▸ h.used t (Or.inr (hentries ▸ ht))
  calls d hd hkind := hcalls d hd hkind (h.calls d (hsub d hd) hkind)
  reservingKind d hd := h.reservingKind d (hsub d hd)
  messages d hd := h.messages d (hsub d hd)
  continuation c hc hcont hr := h.continuation c (hcarriers c hc) hcont (hres _ hr)
  single t ht := (hcount t).trans (h.single t (hres t ht))
  unique := hentries ▸ h.unique
  reserving d hd := hentries ▸ h.reserving d (hsub d hd)
  built t ht hmem := hentries ▸ h.built t (hres t ht) ((hbuilt t ht).mp hmem)
  held t ht := by
    rw [hentries, hbuilt t ht]
    rcases h.held t (hres t ht) with ⟨d, hd, hstage, rfl⟩ | hother
    · exact Or.inl ⟨d, hheld d hd hstage ht, hstage, rfl⟩
    · exact Or.inr hother

/-! ### The inbound loop -/

theorem handover_receive (h : Handover s) (message : InboundMessage) : Handover (receive s message) := by
  unfold receive
  split_ifs with hguard
  · exact h
  push Not at hguard
  obtain ⟨hown, hinternal, -⟩ := hguard
  refine h.frame rfl rfl (.of_eq rfl) (fun t ht => mem_append_right _ ht) ?_ ?_ (fun _ _ => Iff.rfl)
  · intro c hc
    simp only [carriers, filterMap_append, mem_append] at hc ⊢
    rcases hc with (hc | hc | hc) | hc
    · exact Or.inl (Or.inl (Or.inl hc))
    · exact Or.inl (Or.inl (Or.inr hc))
    · right
      obtain ⟨m, hm, hcarrier⟩ := mem_filterMap.mp hc
      obtain rfl := mem_singleton.mp hm
      obtain ⟨t, ht, rfl⟩ := map_eq_some_iff.mp hcarrier
      exact ⟨by simp [ht], by simpa using hinternal⟩
    · exact Or.inl (Or.inr hc)
  · intro t ht
    have hne : message.turnId ≠ some t := by
      intro heq
      apply hown
      rw [heq, any_some, ownsWorkReservation, Reserved.eq_1] at *
      rw [ht]
      simp
    have hold := h.single t ht
    rw [carried_eq] at hold ⊢
    rw [countP_append, countP_singleton, if_neg (by simpa using hne)]
    simpa using hold

variable {d : Call} {message : InboundMessage} {front : List Call} {inbox : List Entry}

variable {c : Circumstances} {back : List Call} {bus : List InboundMessage}

/-- The loop takes the next message off the bus. -/
theorem handover_pop (h : Handover s) (hbus : s.bus = message :: bus) : Handover { s with bus := bus } := by
  refine h.frame rfl rfl (.of_eq rfl) (fun t ht => ht) ?_ ?_ (fun _ _ => Iff.rfl)
  · intro c hc
    left
    simp only [carriers, hbus, mem_append, filterMap_cons] at hc ⊢
    rcases hc with (hc | hc) | hc
    · exact Or.inl (Or.inl hc)
    · left; right
      split
      · exact hc
      · exact mem_cons_of_mem _ hc
    · exact Or.inr hc
  · intro t ht
    have hold := h.single t ht
    rw [carried_eq, hbus, countP_cons] at hold
    rw [carried_eq]
    dsimp only
    omega

theorem entryIds_newEntry (inbox : List Entry) (message : InboundMessage) (id : String) (n : ℕ) :
    (inbox ++ [newEntry message id n]).filterMap (·.turnId) = inbox.filterMap (·.turnId) := by
  simp [newEntry]

theorem handover_keepInInbox (h : Handover s) (message : InboundMessage) (c : Circumstances) :
    Handover (keepInInbox s message c) := by
  unfold keepInInbox
  cases hok : enqueueUserMessage message c.uuid s.receipts s.inbox with
  | error e => exact h
  | ok inbox =>
    dsimp only
    by_cases hsaved : c.saved = true
    · rw [if_pos hsaved]
      refine h.congr rfl ?_ (.of_eq rfl) rfl rfl rfl
      rcases enqueueUserMessage_ok hok with rfl | ⟨id, -, rfl⟩
      · rfl
      · exact entryIds_newEntry s.inbox message id s.receipts
    · rw [if_neg hsaved]
      exact h

theorem handover_openSlot (h : Handover s) (hbus : s.bus = message :: bus) (hnew : c.turnId ∉ s.usedIds)
    (howns : message.internal.isSome = true → message.turnId.isSome = true) :
    Handover (openSlot { s with bus := bus } message c) := by
  unfold openSlot
  by_cases hbusy : (isSessionBusy { s with bus := bus } c.directPending && !c.announced) = true
  · rw [if_pos hbusy]
    exact handover_pop h hbus
  rw [if_neg hbusy]
  refine h.frame rfl rfl (.of_eq rfl) (fun t ht => mem_cons_of_mem _ ht) ?_ ?_ ?_
  · intro c' hc
    simp only [carriers, turnSlots, filter_append, map_append, mem_append] at hc
    rcases hc with (hc | hc) | hc | hc
    · exact Or.inl (mem_append_left _ (mem_append_left _ hc))
    · refine Or.inl (mem_append_left _ (mem_append_right _ ?_))
      rw [hbus, filterMap_cons]
      split
      · exact hc
      · exact mem_cons_of_mem _ hc
    · exact Or.inl (mem_append_right _ hc)
    · simp only [filter_cons, filter_nil, reduceCtorEq, ne_eq, not_false_eq_true,
        decide_true, if_true, map_cons, map_nil, mem_singleton] at hc
      subst hc
      cases hid : message.turnId with
      | none =>
        right
        rw [hid] at howns
        simpa [turnCarrier] using howns
      | some t =>
        left
        refine mem_append_left _ (mem_append_right _ ?_)
        rw [hbus]
        simp [busCarrier, turnCarrier, hid]
  · intro t ht
    have hold := h.single t ht
    rw [carried_eq, hbus, countP_cons] at hold
    rw [carried_eq]
    dsimp only
    rw [countP_append, countP_singleton]
    cases hid : message.turnId with
    | none =>
      by_cases heq : c.turnId = t
      · have hzero := h.carried_eq_zero (heq ▸ hnew)
        rw [carried_eq, hbus, countP_cons] at hzero
        rw [if_pos (by simp [carries, heq])]
        omega
      · rw [if_neg (by simp [carries, heq])]
        omega
    | some t' =>
      rw [hid] at hold
      by_cases heq : t' = t
      · rw [if_pos (by simp [heq])] at hold
        rw [if_pos (by simp [carries, heq])]
        omega
      · rw [if_neg (by simp [carries, heq])]
        omega
  · intro t _
    simp [builtIds, filter_append]

theorem routing_slot (h : routing host s message c = .slot) (hinternal : message.internal.isSome = true) :
    message.turnId.isSome = true := by
  unfold routing at h
  dsimp only at h
  split_ifs at h with _ hdrop
  all_goals
    rw [hinternal, Bool.true_and, Bool.not_eq_true', Bool.not_eq_false] at hdrop
    obtain ⟨t, ht, -⟩ := (any_eq_true _ _).mp hdrop
    rw [ht]
    rfl

theorem handover_takeMessage (h : Handover s) (c : Circumstances) : Handover (takeMessage host s c) := by
  unfold takeMessage
  split
  · exact h
  · next message bus hbus =>
    split_ifs with hnew
    · exact h
    · dsimp only
      split
      · exact handover_keepInInbox (handover_pop h hbus) message c
      · next hslot => exact handover_openSlot h hbus hnew (routing_slot hslot)
      · exact handover_pop h hbus

theorem handover_removeQueued (h : Handover s) (entryId : String) : Handover (removeQueued s entryId) := by
  unfold removeQueued
  split
  · next entry inbox hremoved =>
    obtain ⟨hnone, front, back, hinbox, rfl⟩ := removeUnreservedInboxEntry_removed hremoved
    refine h.congr rfl ?_ (.of_eq rfl) rfl rfl rfl
    simp [entryIds, hinbox, hnone]
  · exact h

theorem handover_scheduleGoalWork (h : Handover s) (goal : GoalState) : Handover (scheduleGoalWork s goal) := by
  unfold scheduleGoalWork
  split_ifs
  · exact h.congr rfl rfl (.of_eq rfl) rfl rfl rfl
  · exact h.congr rfl rfl (.of_eq rfl) rfl rfl rfl

/-! ### The dispatch -/

theorem Handover.no_inbox_call (h : Handover s) (hfree : s.runtime.workReservation = none)
    (hd : d ∈ s.dispatching) : d.kind = .continuation := by
  cases hkind : d.kind with
  | inbox =>
    have hres := h.calls d hd hkind
    rw [Reserved, hfree] at hres
    cases hres
  | continuation => rfl

theorem handover_reserveWork (h : Handover s) (hfree : s.runtime.workReservation = none)
    (hnew : t ∉ s.usedIds) {kind : WorkKind} {stage : DispatchStage}
    (hstage : stage = .reserving ∧ kind = .inbox ∨ kind = .continuation ∧
      ∃ message, stage = .publishing message ∧ busCarrier message = some (t, true)) :
    Handover (reserveWork s t kind stage) := by
  have hres : (reserveWork s t kind stage).runtime.workReservation = some ⟨t, kind⟩ := by
    simp [reserveWork, Runtime.step, hfree]
  have hentry : t ∉ entryIds s := fun hmem => hnew (h.used t (Or.inr hmem))
  have hcarriers : ∀ c, c ∈ carriers (reserveWork s t kind stage) →
      c ∈ carriers s ∨ c = (t, decide (kind = .continuation)) := by
    intro c hc
    simp only [carriers, reserveWork, map_append, mem_append, turnSlots] at hc ⊢
    rcases hc with ((hc | hc) | hc) | hc
    · exact Or.inl (Or.inl (Or.inl hc))
    · exact Or.inr (mem_singleton.mp hc)
    · exact Or.inl (Or.inl (Or.inr hc))
    · exact Or.inl (Or.inr hc)
  have hreserved : ∀ t', Reserved (reserveWork s t kind stage) t' → t' = t ∧ kind = .inbox := by
    intro t' ht'
    have := GoalWorkReservation.mk.inj (some.inj (ht'.symm.trans hres))
    exact ⟨this.1, this.2.symm⟩
  have hmem : ∀ d, d ∈ (reserveWork s t kind stage).dispatching → d ∈ s.dispatching ∨ d = ⟨t, kind, stage⟩ := by
    intro d hd
    rcases mem_append.mp hd with hd | hd
    · exact Or.inl hd
    · exact Or.inr (mem_singleton.mp hd)
  refine
    { used := ?_
      calls := ?_
      reservingKind := ?_
      messages := ?_
      continuation := ?_
      single := ?_
      unique := h.unique
      reserving := ?_
      built := ?_
      held := ?_ }
  · rintro t' (ht' | ht')
    · obtain ⟨c, hc, rfl⟩ := mem_map.mp ht'
      rcases hcarriers c hc with hc | rfl
      · exact mem_cons_of_mem _ (h.used _ (Or.inl (mem_map_of_mem hc)))
      · exact mem_cons_self
    · exact mem_cons_of_mem _ (h.used _ (Or.inr ht'))
  · intro d hd hkind
    rcases hmem d hd with hd | rfl
    · rw [h.no_inbox_call hfree hd] at hkind
      cases hkind
    · rw [Reserved, hres]
      exact congrArg some (congrArg _ hkind)
  · intro d hd hd'
    rcases hmem d hd with hd | rfl
    · exact h.reservingKind d hd hd'
    · rcases hstage with ⟨-, hkind⟩ | ⟨-, message, hpub, -⟩
      · exact hkind
      · exact absurd (hpub.symm.trans hd') (by simp)
  · intro d hd message hd'
    rcases hmem d hd with hd | rfl
    · exact h.messages d hd message hd'
    · rcases hstage with ⟨hreserving, -⟩ | ⟨hkind, message', hpub, hcarrier⟩
      · exact absurd (hreserving.symm.trans hd') (by simp)
      · obtain rfl := DispatchStage.publishing.inj (hpub.symm.trans hd')
        rw [hcarrier, callCarrier, hkind]
        rfl
  · intro c hc hcont hr
    obtain ⟨ht, rfl⟩ := hreserved _ hr
    rcases hcarriers c hc with hc | rfl
    · exact hnew (ht ▸ h.used _ (Or.inl (mem_map_of_mem hc)))
    · cases hcont
  · intro t' hr
    obtain ⟨rfl, -⟩ := hreserved _ hr
    have hzero := h.carried_eq_zero hnew
    rw [carried_eq] at hzero ⊢
    simp only [reserveWork, countP_append, countP_singleton, decide_true, if_true]
    omega
  · intro d hd hd'
    rcases hmem d hd with hd | rfl
    · exact h.reserving d hd hd'
    · exact hentry
  · intro t' hr _
    obtain ⟨rfl, -⟩ := hreserved _ hr
    exact hentry
  · intro t' hr
    obtain ⟨rfl, hkind⟩ := hreserved _ hr
    left
    rcases hstage with ⟨rfl, -⟩ | ⟨hcont, -⟩
    · exact ⟨_, mem_append_right _ (mem_singleton_self _), rfl, rfl⟩
    · rw [hcont] at hkind
      cases hkind

theorem handover_blockGoal (h : Handover s) (goal : GoalState) : Handover (blockGoal s goal) :=
  h.congr rfl rfl (keepsInbox_control _ rfl) rfl rfl rfl

theorem handover_dispatch (h : Handover s) (t : String) : Handover (dispatchNextGoalWork host s t) := by
  unfold dispatchNextGoalWork
  split_ifs with hbusy hused hinbox
  · exact h
  · exact h
  all_goals
    simp only [hasWorkReservation, Bool.or_eq_true, not_or, Bool.not_eq_true,
      isSome_eq_false_iff, isNone_iff_eq_none] at hbusy
  · exact handover_reserveWork h hbusy.2 hused (Or.inl ⟨rfl, rfl⟩)
  · split
    · exact h
    · next scheduled _ =>
      unfold dispatchContinuation
      split
      · exact h.congr rfl rfl (.of_eq rfl) rfl rfl rfl
      · split
        · exact h.congr rfl rfl (.of_eq rfl) rfl rfl rfl
        · split
          · exact handover_blockGoal h _
          · split_ifs
            · exact h.congr rfl rfl (.of_eq rfl) rfl rfl rfl
            · exact handover_blockGoal h _
            · refine Handover.congr (handover_reserveWork h hbusy.2 hused
                (Or.inr ⟨rfl, _, rfl, ?_⟩)) rfl rfl (.of_eq rfl) rfl rfl rfl
              rfl

/-! ### The entry is reserved -/

/-- The calls beside one of them. -/
theorem mem_dispatching {d' : Call} (hsplit : s.dispatching = front ++ d :: back) :
    d' ∈ s.dispatching ↔ d' = d ∨ d' ∈ front ++ back := by
  rw [hsplit, mem_append, mem_cons, mem_append]
  tauto

/-- A call that waits holds the only carrier of its id. -/
theorem Handover.alone (h : Handover s)
    (hsplit : s.dispatching = front ++ d :: back) (hkind : d.kind = .inbox) :
    (∀ d' ∈ front ++ back, d'.turnId ≠ d.turnId) ∧ d.turnId ∉ builtIds s := by
  have hd : d ∈ s.dispatching := by rw [hsplit]; simp
  have hone := h.single _ (h.calls d hd hkind)
  rw [carried_eq, hsplit, countP_append, countP_cons, if_pos (by simp)] at hone
  constructor
  · intro d' hd' heq
    have hpos : 0 < (front ++ back).countP fun d' => d'.turnId = d.turnId :=
      countP_pos_iff.mpr ⟨d', hd', by simpa using heq⟩
    rw [countP_append] at hpos
    omega
  · intro hbuilt
    obtain ⟨turn, hturn, heq⟩ := mem_map.mp hbuilt
    obtain ⟨hmem, hstage⟩ := mem_filter.mp hturn
    have hstage : turn.stage = .built := of_decide_eq_true hstage
    have hpos : 0 < s.turns.countP (carries d.turnId) :=
      countP_pos_iff.mpr ⟨turn, hmem, by simp [carries, hstage, heq]⟩
    omega

theorem workReservation_releaseWork (s : State) (t : String) :
    (s.releaseWork t).runtime.workReservation =
      s.runtime.workReservation.filter fun r => r.turnId ≠ t := rfl

theorem reserved_releaseWork {t' : String} : Reserved (s.releaseWork t) t' ↔ Reserved s t' ∧ t' ≠ t := by
  unfold Reserved
  rw [workReservation_releaseWork]
  cases hres : s.runtime.workReservation with
  | none => simp
  | some r =>
    rw [filter_some]
    by_cases hr : r.turnId = t
    · rw [if_neg (by simpa using hr)]
      constructor
      · intro hnone
        cases hnone
      · rintro ⟨heq, hne⟩
        rw [some.inj heq] at hr
        exact absurd hr hne
    · rw [if_pos (by simpa using hr)]
      constructor
      · intro heq
        refine ⟨heq, ?_⟩
        rw [some.inj heq] at hr
        exact hr
      · exact And.left

/-- **A call gives up**: it leaves the calls and releases the work, and no other call is waiting under
its id. -/
theorem handover_giveUp (h : Handover s) (hsplit : s.dispatching = front ++ d :: back) :
    Handover ({ s with dispatching := front ++ back }.releaseWork d.turnId) := by
  have hsub : ∀ d' ∈ front ++ back, d' ∈ s.dispatching := fun d' hd' => (mem_dispatching hsplit).mpr (Or.inr hd')
  have hd : d ∈ s.dispatching := (mem_dispatching hsplit).mpr (Or.inl rfl)
  refine h.shrink hsub rfl rfl (fun _ hr => (reserved_releaseWork.mp hr).1) ?_ ?_ ?_ (fun _ _ => Iff.rfl) ?_
  · intro c hc
    simp only [carriers, releaseWork, turnSlots, mem_append, List.mem_map] at hc ⊢
    rcases hc with (⟨d', hd', rfl⟩ | hc) | hc
    · exact Or.inl (Or.inl ⟨d', hsub d' (mem_append.mpr hd'), rfl⟩)
    · exact Or.inl (Or.inr hc)
    · exact Or.inr hc
  · intro d' hd' _ hr
    refine reserved_releaseWork.mpr ⟨hr, fun heq => ?_⟩
    cases hk : d.kind with
    | inbox => exact (h.alone hsplit hk).1 d' hd' heq
    | continuation =>
      have hc : callCarrier d ∈ carriers s := mem_append_left _ (mem_append_left _ (mem_map_of_mem hd))
      refine absurd ?_ (h.continuation _ hc (by simp [callCarrier, hk]))
      exact (show d'.turnId = (callCarrier d).1 from heq) ▸ hr
  · intro t'
    rw [carried_eq, carried_eq, hsplit, countP_append, countP_cons]
    change (front ++ back).countP _ + s.bus.countP _ + s.turns.countP _ ≤ _
    rw [countP_append]
    omega
  · intro d' hd' _ hr
    exact ((mem_dispatching hsplit).mp hd').resolve_left fun he =>
      (reserved_releaseWork.mp hr).2 (congrArg Call.turnId he)

theorem entryIds_reserved {entry : Entry} (hok : reserveInboxEntry t s.inbox = some (entry, inbox)) :
    (inbox.filterMap (·.turnId)).Perm (t :: entryIds s) ∧ entry.turnId = some t := by
  obtain ⟨front, e, back, hinbox, hnone, rfl, rfl⟩ := reserveInboxEntry_eq_some hok
  refine ⟨?_, rfl⟩
  unfold entryIds
  rw [hinbox]
  simp only [filterMap_append, filterMap_cons, hnone]
  exact perm_middle

/-- **The call reserves its entry**, and goes on to publish it. -/
theorem handover_reserved (h : Handover s)
    (hsplit : s.dispatching = front ++ d :: back) (hkind : d.kind = .inbox)
    (hstage : d.stage = .reserving) {entry : Entry}
    (hok : reserveInboxEntry d.turnId s.inbox = some (entry, inbox)) :
    Handover { s with
      inbox := inbox
      dispatching := front ++ back ++
        [{ d with stage := .publishing (inboxMessage entry d.turnId) }] } := by
  have hd : d ∈ s.dispatching := by rw [hsplit]; simp
  have hres := h.calls d hd hkind
  obtain ⟨hothers, hbuilt⟩ := h.alone hsplit hkind
  obtain ⟨hperm, -⟩ := entryIds_reserved hok
  have hnew : d.turnId ∉ entryIds s := h.reserving d hd hstage
  have hmem : ∀ d', d' ∈ front ++ back ++
      [{ d with stage := .publishing (inboxMessage entry d.turnId) }] →
      (d' ∈ s.dispatching ∧ d'.turnId ≠ d.turnId) ∨
        d' = { d with stage := .publishing (inboxMessage entry d.turnId) } := by
    intro d' hd'
    rcases mem_append.mp hd' with hd' | hd'
    · exact Or.inl ⟨(mem_dispatching hsplit).mpr (Or.inr hd'), hothers d' hd'⟩
    · exact Or.inr (mem_singleton.mp hd')
  have hcarriers : ∀ c, c ∈ carriers { s with
      inbox := inbox
      dispatching := front ++ back ++
        [{ d with stage := .publishing (inboxMessage entry d.turnId) }] } → c ∈ carriers s := by
    intro c hc
    rcases mem_append.mp hc with hc | hc
    · rcases mem_append.mp hc with hc | hc
      · obtain ⟨d', hd', rfl⟩ := mem_map.mp hc
        refine mem_append_left _ (mem_append_left _ ?_)
        rcases hmem d' hd' with ⟨hd', -⟩ | rfl
        · exact mem_map_of_mem hd'
        · change callCarrier d ∈ _
          exact mem_map_of_mem hd
      · exact mem_append_left _ (mem_append_right _ hc)
    · exact mem_append_right _ hc
  refine
    { used := ?_
      calls := ?_
      reservingKind := ?_
      messages := ?_
      continuation := fun c hc => h.continuation c (hcarriers c hc)
      single := ?_
      unique := hperm.nodup_iff.mpr (nodup_cons.mpr ⟨hnew, h.unique⟩)
      reserving := ?_
      built := ?_
      held := ?_ }
  · rintro t' (ht' | ht')
    · obtain ⟨c, hc, rfl⟩ := mem_map.mp ht'
      exact h.used _ (Or.inl (mem_map_of_mem (hcarriers c hc)))
    · rcases mem_cons.mp (hperm.mem_iff.mp ht') with rfl | ht'
      · refine h.used _ (Or.inl (mem_carriers_ids.mpr (Or.inl ⟨d, hd, rfl⟩)))
      · exact h.used t' (Or.inr ht')
  · intro d' hd' hkind'
    rcases hmem d' hd' with ⟨hd', -⟩ | rfl
    · exact h.calls d' hd' hkind'
    · exact hres
  · intro d' hd' hstage'
    rcases hmem d' hd' with ⟨hd', -⟩ | rfl
    · exact h.reservingKind d' hd' hstage'
    · cases hstage'
  · intro d' hd' message hstage'
    rcases hmem d' hd' with ⟨hd', -⟩ | rfl
    · exact h.messages d' hd' message hstage'
    · obtain rfl := DispatchStage.publishing.inj hstage'
      simp [busCarrier, inboxMessage, callCarrier, hkind]
  · intro t' hr
    have hold := h.single t' hr
    rw [carried_eq, hsplit, countP_append, countP_cons] at hold
    rw [carried_eq]
    simp only [countP_append, countP_singleton] at hold ⊢
    omega
  · intro d' hd' hstage'
    rcases hmem d' hd' with ⟨hd', hne⟩ | rfl
    · exact absurd (Reserved.eq (h.calls d' hd' (h.reservingKind d' hd' hstage')) hres) hne
    · cases hstage'
  · intro t' hr hmem'
    exact absurd (Reserved.eq hr hres ▸ hmem') hbuilt
  · intro t' hr
    obtain rfl := Reserved.eq hr hres
    exact Or.inr (Or.inr (hperm.mem_iff.mpr mem_cons_self))

theorem handover_reserveEntry (h : Handover s) (t : String) (saved : Bool) :
    Handover (reserveEntry s t saved) := by
  unfold reserveEntry
  cases hfind : s.dispatching.find? (isReserving t) with
  | none => exact h
  | some d =>
    dsimp only
    obtain ⟨hd, front, back, hsplit, -, herase⟩ := split_find? hfind
    rw [herase]
    simp only [isReserving, Bool.and_eq_true, decide_eq_true_eq] at hd
    obtain ⟨rfl, hstage⟩ := hd
    have hmem : d ∈ s.dispatching := by rw [hsplit]; simp
    have hkind := h.reservingKind d hmem hstage
    split
    · next entry inbox hok => exact handover_reserved h hsplit hkind hstage hok
    · exact handover_giveUp h hsplit

/-- The message of a call goes to the bus. -/
theorem handover_published (h : Handover s) (hsplit : s.dispatching = front ++ d :: back)
    (hstage : d.stage = .publishing message) :
    Handover { s with dispatching := front ++ back, bus := s.bus ++ [message] } := by
  have hsub : ∀ d' ∈ front ++ back, d' ∈ s.dispatching := fun d' hd' => (mem_dispatching hsplit).mpr (Or.inr hd')
  have hd : d ∈ s.dispatching := (mem_dispatching hsplit).mpr (Or.inl rfl)
  have hcarrier := h.messages d hd message hstage
  have hid : message.turnId = some d.turnId := by
    obtain ⟨t, ht, heq⟩ := map_eq_some_iff.mp hcarrier
    rw [ht, (Prod.mk.inj heq).1]
  refine h.shrink hsub rfl rfl (fun _ => id) ?_ (fun _ _ _ => id) ?_ (fun _ _ => Iff.rfl) ?_
  · intro c hc
    simp only [carriers, filterMap_append, mem_append, List.mem_map] at hc ⊢
    rcases hc with (⟨d', hd', rfl⟩ | hc | hc) | hc
    · exact Or.inl (Or.inl ⟨d', hsub d' (mem_append.mpr hd'), rfl⟩)
    · exact Or.inl (Or.inr hc)
    · rw [filterMap_cons_some hcarrier, filterMap_nil, mem_singleton] at hc
      exact Or.inl (Or.inl ⟨d, hd, hc.symm⟩)
    · exact Or.inr hc
  · intro t'
    rw [carried_eq, carried_eq, hsplit]
    simp only [countP_append, countP_cons, countP_nil, hid, some.injEq, decide_eq_true_eq]
    omega
  · intro d' hd' hstage' _
    refine ((mem_dispatching hsplit).mp hd').resolve_left fun he => ?_
    rw [he, hstage] at hstage'
    cases hstage'

theorem handover_publish (h : Handover s) (t : String) (ok : Bool) : Handover (publish s t ok) := by
  unfold publish
  cases hfind : s.dispatching.find? (isPublishing t) with
  | none => exact h
  | some d =>
    obtain ⟨hd, front, back, hsplit, -, herase⟩ := split_find? hfind
    simp only [isPublishing, Bool.and_eq_true, decide_eq_true_eq] at hd
    obtain ⟨rfl, -⟩ := hd
    dsimp only
    split
    · exact h
    · next message hstage =>
      rw [herase]
      split_ifs
      · exact handover_published h hsplit hstage
      · split
        · exact (handover_giveUp h hsplit).congr rfl rfl (.of_eq rfl) rfl rfl rfl
        · exact handover_giveUp h hsplit

/-! ### Turns -/

theorem handover_setTurn (h : Handover s) (hturn : s.turns[k]? = some turn) {turn' : Turn}
    (hid : turn'.turnId = turn.turnId) (hmessage : turn'.message = turn.message)
    (hended : turn'.stage ≠ .ended → turn.stage ≠ .ended)
    (hbuilt : turn'.stage = .built ↔ turn.stage = .built) : Handover (setTurn s k turn') := by
  obtain ⟨front, back, hturns, hset, -⟩ := split_getElem? hturn
  have hset : (setTurn s k turn').turns = front ++ turn' :: back := hset turn'
  have hcarrier : turnCarrier turn' = turnCarrier turn := by
    rw [turnCarrier, turnCarrier, hid, hmessage]
  refine h.frame rfl rfl (.of_eq rfl) (fun t ht => ht) ?_ ?_ ?_
  · intro c hc
    left
    rcases mem_append.mp hc with hc | hc
    · exact mem_append_left _ hc
    · refine mem_append_right _ ?_
      obtain ⟨turn₁, hturn₁, rfl⟩ := mem_map.mp hc
      rw [turnSlots, hset] at hturn₁
      obtain ⟨hmem, hstage⟩ := mem_filter.mp hturn₁
      rw [turnSlots, hturns]
      rcases mem_append.mp hmem with hmem | hmem
      · exact mem_map_of_mem (mem_filter.mpr ⟨mem_append_left _ hmem, hstage⟩)
      · rcases mem_cons.mp hmem with rfl | hmem
        · rw [hcarrier]
          refine mem_map_of_mem (mem_filter.mpr ⟨by simp, ?_⟩)
          simpa using hended (by simpa using hstage)
        · exact mem_map_of_mem (mem_filter.mpr
            ⟨mem_append_right _ (mem_cons_of_mem _ hmem), hstage⟩)
  · intro t ht
    have hold := h.single t ht
    have hle : carries t turn' = true → carries t turn = true := by
      simp only [carries, Bool.and_eq_true, decide_eq_true_eq, hid]
      exact fun hc => ⟨hended hc.1, hc.2⟩
    rw [carried_eq, hturns, countP_append, countP_cons] at hold
    rw [carried_eq, hset, countP_append, countP_cons]
    have hif : (if carries t turn' = true then 1 else 0) ≤
        if carries t turn = true then 1 else 0 := by
      by_cases hc : carries t turn' = true
      · rw [if_pos hc, if_pos (hle hc)]
      · rw [if_neg hc]
        exact Nat.zero_le _
    change s.dispatching.countP _ + s.bus.countP _ + _ ≤ 1
    omega
  · intro t _
    unfold builtIds
    rw [hset, hturns]
    by_cases hb : turn.stage = .built
    · simp [hb, hbuilt.mpr hb, hid]
    · have hb' : turn'.stage ≠ .built := fun hb' => hb (hbuilt.mp hb')
      simp [hb, hb']

theorem handover_startTurn (h : Handover s) (k : ℕ) : Handover (startTurn s k) := by
  unfold startTurn
  cases hturn : s.turns[k]? with
  | none => exact h
  | some turn =>
    dsimp only
    by_cases hstage : turn.stage ≠ .queued
    · rw [if_pos hstage]
      exact h
    rw [if_neg hstage]
    have hqueued : turn.stage = .queued := not_not.mp hstage
    by_cases hcancelled : turn.cancelled = true
    · rw [if_pos hcancelled]
      exact handover_setTurn h hturn rfl rfl (by simp) (by simp [hqueued])
    · rw [if_neg hcancelled]
      by_cases hlock : isLockFree s = true
      · rw [if_pos hlock]
        exact handover_setTurn h hturn rfl rfl (by simp [hqueued]) (by simp [hqueued])
      · rw [if_neg hlock]
        exact h

theorem handover_cancelTask (h : Handover s) (k : ℕ) (forget : Bool) : Handover (cancelTask s k forget) := by
  unfold cancelTask
  cases hturn : s.turns[k]? with
  | none => exact h
  | some turn => exact handover_setTurn h hturn rfl rfl id Iff.rfl

theorem handover_settleTask (h : Handover s) (k : ℕ) : Handover (settleTask s k) := by
  unfold settleTask
  cases hturn : s.turns[k]? with
  | none => exact h
  | some turn =>
    dsimp only
    by_cases hstage : turn.stage ≠ .ended
    · rw [if_pos hstage]
      exact h
    rw [if_neg hstage]
    have hended : turn.stage = .ended := not_not.mp hstage
    obtain ⟨front, back, hturns, -, herase⟩ := split_getElem? hturn
    have hslots : { s with turns := s.turns.eraseIdx k }.turnSlots = s.turnSlots := by
      unfold turnSlots
      rw [herase, hturns]
      simp [hended]
    have hcarriers : carriers { s with turns := s.turns.eraseIdx k } = carriers s := by
      rw [carriers, carriers, hslots]
    refine h.frame rfl rfl (.of_eq rfl) (fun t ht => ht) ?_ ?_ ?_
    · intro c hc
      exact Or.inl (hcarriers ▸ hc)
    · intro t ht
      rw [carried, hcarriers]
      exact h.single t ht
    · intro t _
      unfold builtIds
      rw [herase, hturns]
      simp [hended]

/-! ### The message is stored -/

theorem Handover.alone_turn (h : Handover s) (hturn : s.turns[k]? = some turn)
    (hstage : turn.stage ≠ .ended) (hres : Reserved s turn.turnId) :
    (∀ d ∈ s.dispatching, d.turnId ≠ turn.turnId) ∧
      ∀ front back, s.turns = front ++ turn :: back → ∀ turn' ∈ front ++ back,
        turn'.stage = .built → turn'.turnId ≠ turn.turnId := by
  have hone := h.single _ hres
  have hmem := mem_of_getElem? hturn
  rw [carried_eq] at hone
  constructor
  · intro d hd heq
    have hcall : 0 < s.dispatching.countP fun d => d.turnId = turn.turnId :=
      countP_pos_iff.mpr ⟨d, hd, by simpa using heq⟩
    have hpos : 0 < s.turns.countP (carries turn.turnId) :=
      countP_pos_iff.mpr ⟨turn, hmem, by simp [carries, hstage]⟩
    omega
  · intro front back hturns turn' hturn' hbuilt heq
    rw [hturns, countP_append, countP_cons, if_pos (by simp [carries, hstage])] at hone
    have hpos : 0 < (front ++ back).countP (carries turn.turnId) :=
      countP_pos_iff.mpr ⟨turn', hturn', by simp [carries, hbuilt, heq]⟩
    rw [countP_append] at hpos
    omega

theorem mem_builtIds : t ∈ builtIds s ↔ ∃ turn ∈ s.turns, turn.stage = .built ∧ turn.turnId = t := by
  simp [builtIds, and_assoc]

/-- **The turn has stored its message**: its entry, if there is one for it, has left the inbox. -/
theorem handover_built (h : Handover s) (hturn : s.turns[k]? = some turn)
    (hstage : turn.stage = .running) {runtime : RuntimeState}
    {persisted : List Persisted} (hruntime : KeepsInbox s.runtime runtime)
    (hsub : (inbox.filterMap (·.turnId)).Sublist (entryIds s))
    (hkept : ∀ t, t ≠ turn.turnId → t ∈ entryIds s → t ∈ inbox.filterMap (·.turnId))
    (hgone : Reserved s turn.turnId → turn.turnId ∉ inbox.filterMap (·.turnId)) :
    Handover (setTurn { s with inbox := inbox, runtime := runtime, persisted := persisted } k
      { turn with stage := .built }) := by
  obtain ⟨front, back, hturns, hset, -⟩ := split_getElem? hturn
  have hcarriers : carriers (setTurn
      { s with inbox := inbox, runtime := runtime, persisted := persisted } k
      { turn with stage := .built }) = carriers s := by
    unfold carriers turnSlots setTurn
    rw [hset, hturns]
    simp [hstage, turnCarrier]
  have hbuilt : ∀ t, t ∈ builtIds (setTurn
      { s with inbox := inbox, runtime := runtime, persisted := persisted } k
      { turn with stage := .built }) ↔ t ∈ builtIds s ∨ t = turn.turnId := by
    unfold builtIds setTurn
    rw [hset, hturns]
    simp only [filter_append, filter_cons, decide_true, if_true, hstage, reduceCtorEq,
      decide_false, Bool.false_eq_true, if_false, map_append, map_cons, mem_append,
      mem_cons]
    tauto
  have hentry : ∀ t, t ∈ inbox.filterMap (·.turnId) → t ∈ entryIds s := fun t ht => hsub.subset ht
  refine
    { used := ?_
      calls := fun d hd hkind => (hruntime _).mpr (h.calls d hd hkind)
      reservingKind := h.reservingKind
      messages := h.messages
      continuation := ?_
      single := ?_
      unique := h.unique.sublist hsub
      reserving := fun d hd hd' hmem => h.reserving d hd hd' (hentry _ hmem)
      built := ?_
      held := ?_ }
  · rintro t (ht | ht)
    · exact h.used t (Or.inl (hcarriers ▸ ht))
    · exact h.used t (Or.inr (hentry t ht))
  · intro c hc hcont hr
    exact h.continuation c (hcarriers ▸ hc) hcont ((hruntime _).mp hr)
  · intro t hr
    rw [carried, hcarriers]
    exact h.single t ((hruntime t).mp hr)
  · intro t hr hmem
    have hr := (hruntime t).mp hr
    rcases (hbuilt t).mp hmem with hmem | rfl
    · exact fun ht => h.built t hr hmem (hentry t ht)
    · exact hgone hr
  · intro t hr
    have hr := (hruntime t).mp hr
    rw [hbuilt]
    by_cases hne : t = turn.turnId
    · exact Or.inr (Or.inl (Or.inr hne))
    · rcases h.held t hr with hcall | hb | he
      · exact Or.inl hcall
      · exact Or.inr (Or.inl (Or.inl hb))
      · exact Or.inr (Or.inr (hkept t hne he))

theorem keepsInbox_registerActiveLease (s : State) (t : String) :
    KeepsInbox s.runtime (registerActiveLease s t).runtime := by
  unfold registerActiveLease
  split
  · exact keepsInbox_registerLease s.runtime _ t
  · exact .of_eq rfl

theorem registerActiveLease_eq (s : State) (t : String) :
    registerActiveLease s t = { s with runtime := (registerActiveLease s t).runtime } := by
  unfold registerActiveLease
  split <;> rfl

theorem entryIds_dropReserved (s : State) (t : String) :
    ((dropReserved t s.inbox).filterMap (·.turnId)).Sublist (entryIds s) ∧
      ∀ t', t' ≠ t → t' ∈ entryIds s → t' ∈ (dropReserved t s.inbox).filterMap (·.turnId) := by
  cases hfind : reservedEntry t s.inbox with
  | none =>
    rw [dropReserved_of_none hfind]
    exact ⟨List.Sublist.refl _, fun _ _ h => h⟩
  | some entry =>
    obtain ⟨front, back, hinbox, hturn, hdrop⟩ := reservedEntry_eq_some hfind
    rw [hdrop, entryIds, hinbox]
    refine ⟨((sublist_cons_self entry back).append_left front).filterMap _, ?_⟩
    intro t' hne hmem
    rw [filterMap_append, filterMap_cons_some hturn] at hmem
    rw [filterMap_append]
    rcases mem_append.mp hmem with hmem | hmem
    · exact mem_append_left _ hmem
    · exact mem_append_right _ ((mem_cons.mp hmem).resolve_left hne)

theorem not_mem_dropReserved (h : (entryIds s).Nodup) (t : String) :
    t ∉ (dropReserved t s.inbox).filterMap (·.turnId) := by
  cases hfind : reservedEntry t s.inbox with
  | none =>
    rw [dropReserved_of_none hfind]
    intro hmem
    obtain ⟨e, he, ht⟩ := mem_filterMap.mp hmem
    exact reservedEntry_eq_none.mp hfind e he ht
  | some entry =>
    obtain ⟨front, back, hinbox, hturn, hdrop⟩ := reservedEntry_eq_some hfind
    rw [entryIds, hinbox, filterMap_append, filterMap_cons_some hturn, nodup_middle, nodup_cons] at h
    rw [hdrop, filterMap_append]
    exact h.1

theorem handover_stateBuild (h : Handover s) (k : ℕ) (saved : Bool) : Handover (stateBuild s k saved) := by
  unfold stateBuild
  cases hturn : s.turns[k]? with
  | none => exact h
  | some turn =>
    dsimp only
    by_cases hstage : turn.stage ≠ .running
    · rw [if_pos hstage]
      exact h
    rw [if_neg hstage]
    have hrunning : turn.stage = .running := not_not.mp hstage
    have hmem := mem_of_getElem? hturn
    split
    · next internalGoal hinternal =>
      split_ifs
      · refine handover_built h hturn hrunning (keepsInbox_registerLease s.runtime _ turn.turnId)
          (List.Sublist.refl _) (fun _ _ ht => ht) fun hres => ?_
        refine absurd hres (h.continuation (turnCarrier turn) ?_ ?_)
        · refine mem_append_right _ (mem_map_of_mem (mem_filter.mpr ⟨hmem, ?_⟩))
          simp [hrunning]
        · rw [turnCarrier, hinternal]
          rfl
      · exact h
    · split_ifs with hlease hsaved hgoal
      · exact h
      · rw [registerActiveLease_eq]
        exact h.congr rfl rfl (keepsInbox_registerActiveLease s _) rfl rfl rfl
      · rw [registerActiveLease_eq]
        refine handover_built h hturn hrunning ?_ (entryIds_dropReserved s turn.turnId).1
          (entryIds_dropReserved s turn.turnId).2 fun _ => not_mem_dropReserved h.unique turn.turnId
        split_ifs
        · exact keepsInbox_registerActiveLease s turn.turnId
        · exact keepsInbox_registerActiveLease s turn.turnId
      · rw [registerActiveLease_eq]
        refine handover_built h hturn hrunning (keepsInbox_registerActiveLease s turn.turnId)
          (List.Sublist.refl _) (fun _ _ ht => ht) fun _ ht => ?_
        rw [not_or, registerActiveLease_eq] at hgoal
        have hnone := reservedEntry_eq_none.mp (not_isSome_iff_eq_none.mp hgoal.2)
        obtain ⟨e, he, heq⟩ := mem_filterMap.mp ht
        exact hnone e he heq

/-! ### The end of a turn -/

theorem reschedule_eq (s : State) (turn : Turn) (outcome : Outcome) :
    reschedule s turn outcome = { s with scheduled := (reschedule s turn outcome).scheduled } := by
  unfold reschedule
  split
  · split_ifs
    · unfold scheduleGoalWork
      split_ifs <;> rfl
    · rfl
  · rfl

theorem possible_stage {outcome : Outcome} (h : outcome.possible host turn = true) :
    turn.stage = .running ∨ turn.stage = .built := by
  cases outcome <;> simp [Outcome.possible] at h <;> tauto

/-- **The turn ends** and releases the work. -/
theorem handover_finishTurn (h : Handover s) (k : ℕ) (outcome : Outcome) :
    Handover (finishTurn host s k outcome) := by
  unfold finishTurn
  cases hturn : s.turns[k]? with
  | none => exact h
  | some turn =>
    dsimp only
    by_cases hpossible : outcome.possible host turn = false
    · rw [if_pos hpossible]
      exact h
    rw [if_neg hpossible]
    have hstage := possible_stage (by simpa using hpossible)
    have hlive : turn.stage ≠ .ended := by
      rcases hstage with hstage | hstage <;> rw [hstage] <;> decide
    obtain ⟨front, back, hturns, hset, -⟩ := split_getElem? hturn
    rw [reschedule_eq]
    generalize hgen : releaseWork _ turn.turnId = s'
    have hreserved : ∀ {t}, Reserved s' t ↔ Reserved s t ∧ t ≠ turn.turnId := by
      intro t
      rw [← hgen, reserved_releaseWork]
      exact Iff.rfl
    have hcalls : s'.dispatching = s.dispatching := by rw [← hgen]; rfl
    have hentries : entryIds s' = entryIds s := by rw [← hgen]; rfl
    have hused : s'.usedIds = s.usedIds := by rw [← hgen]; rfl
    have hbus : s'.bus = s.bus := by rw [← hgen]; rfl
    have hturns' : s'.turns = front ++ { turn with stage := .ended } :: back := by
      rw [← hgen, ← hset]
      rfl
    have hslots : s'.turnSlots.Sublist s.turnSlots := by
      unfold turnSlots
      rw [hturns', hturns, filter_append, filter_append, filter_cons_of_neg (by simp),
        filter_cons_of_pos (by simpa using hlive)]
      exact (sublist_cons_self turn _).append_left _
    have hcarriers : ∀ c, c ∈ carriers s' → c ∈ carriers s := by
      intro c hc
      unfold carriers at hc ⊢
      rw [hcalls, hbus] at hc
      rcases mem_append.mp hc with hc | hc
      · exact mem_append_left _ hc
      · exact mem_append_right _ ((hslots.map _).subset hc)
    have hbuiltIds : ∀ t, t ≠ turn.turnId → (t ∈ builtIds s' ↔ t ∈ builtIds s) := by
      intro t hne
      rw [mem_builtIds, mem_builtIds, hturns', hturns]
      simp only [mem_append, mem_cons]
      constructor
      · rintro ⟨turn₁, hmem | rfl | hmem, hb, rfl⟩
        · exact ⟨turn₁, Or.inl hmem, hb, rfl⟩
        · cases hb
        · exact ⟨turn₁, Or.inr (Or.inr hmem), hb, rfl⟩
      · rintro ⟨turn₁, hmem | rfl | hmem, hb, rfl⟩
        · exact ⟨turn₁, Or.inl hmem, hb, rfl⟩
        · exact absurd rfl hne
        · exact ⟨turn₁, Or.inr (Or.inr hmem), hb, rfl⟩
    refine h.shrink (fun d hd => hcalls ▸ hd) hentries hused (fun _ hr => (hreserved.mp hr).1) hcarriers ?_ ?_
      (fun t hr => hbuiltIds t (hreserved.mp hr).2) fun d hd _ _ => hcalls ▸ hd
    · intro d hd _ hr
      refine hreserved.mpr ⟨hr, fun heq => ?_⟩
      exact (h.alone_turn hturn hlive (heq ▸ hr)).1 d (hcalls ▸ hd) heq
    · intro t
      rw [carried_eq, carried_eq, hturns, hcalls, hbus, hturns', countP_append, countP_append,
        countP_cons, countP_cons, if_neg (by simp [carries])]
      omega

theorem handover_empty (h₁ : s.dispatching = []) (h₂ : s.bus = []) (h₃ : s.turns = [])
    (hentries : entryIds s = []) (hfree : s.runtime.workReservation = none) : Handover s := by
  have hcarriers : carriers s = [] := by
    simp [carriers, turnSlots, h₁, h₂, h₃]
  have hres : ∀ t, ¬Reserved s t := by
    intro t hr
    rw [Reserved, hfree] at hr
    cases hr
  refine
    { used := ?_
      calls := by simp [h₁]
      reservingKind := by simp [h₁]
      messages := by simp [h₁]
      continuation := by simp [hcarriers]
      single := fun t hr => absurd hr (hres t)
      unique := by rw [hentries]; exact nodup_nil
      reserving := by simp [h₁]
      built := fun t hr => absurd hr (hres t)
      held := fun t hr => absurd hr (hres t) }
  simp [hcarriers, hentries]

/-- **Every step keeps the hand-over.** -/
theorem handover_step (h : Handover s) (e : Event) : Handover (step host s e) := by
  cases e with
  | receive message => exact handover_receive h message
  | take c => exact handover_takeMessage h c
  | removeQueued entryId => exact handover_removeQueued h entryId
  | dispatch t => exact handover_dispatch h t
  | reserve t saved => exact handover_reserveEntry h t saved
  | publish t ok => exact handover_publish h t ok
  | start k => exact handover_startTurn h k
  | build k saved => exact handover_stateBuild h k saved
  | finish k outcome => exact handover_finishTurn h k outcome
  | settle k => exact handover_settleTask h k
  | cancel k forget => exact handover_cancelTask h k forget
  | schedule goal => exact handover_scheduleGoalWork h goal
  | invalidate => exact h.congr rfl rfl (.of_eq rfl) rfl rfl rfl
  | control e =>
    unfold step
    dsimp only
    split_ifs with hcontrol
    · exact h.congr rfl rfl (keepsInbox_control s.runtime hcontrol) rfl rfl rfl
    · exact h
  | restart =>
    refine handover_empty rfl rfl rfl ?_ rfl
    simp [step, restart, entryIds, resetDispatchingInbox]

theorem handover_start (goalState : Option GoalState) (goalRoute : Option GoalRoute) :
    Handover (start goalState goalRoute) :=
  handover_empty rfl rfl rfl rfl rfl

/-- **A reserved entry is in one hand**, in every run. -/
theorem handover_run (goalState : Option GoalState) (goalRoute : Option GoalRoute) (es : List Event) :
    Handover (final (step host) (start goalState goalRoute) es) :=
  invariant_final (I := Handover) (fun _ e h => handover_step h e) es _ (handover_start ..)

end Memmy.Goal.Dispatch
