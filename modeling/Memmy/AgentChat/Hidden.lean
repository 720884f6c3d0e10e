import Memmy.AgentChat.Slice

/-! # What a reducer does, whether the chat is open or not

`State.Synced`: the copy of the open chat is what is kept for it. `State.hide` closes the open chat, and forgets the
copy.

A reducer of the events of a chat is `Plain` in a state if it changes nothing of another chat, keeps the copy in
step, and does the same where the open chat is closed. A reducer of the content of the open chat is `Scoped` if it
moreover does not depend on what the button shows; through `withScopedChatMessages` it is then plain
(`Scoped.plain`). -/

namespace Memmy.AgentChat

open Option Function

/-! ### Writing to a chat -/

namespace State

variable {s : State} {chatId : String} {f : Chat → Chat}

@[simp] theorem modify_currentChatId : (s.modify chatId f).currentChatId = s.currentChatId := rfl

@[simp] theorem modify_chats_self : (s.modify chatId f).chats chatId = f (s.chats chatId) := update_self _ _ _

theorem modify_chats_of_ne {other : String} (h : other ≠ chatId) : (s.modify chatId f).chats other = s.chats other :=
  update_of_ne h _ _

theorem modify_eq_self (h : f (s.chats chatId) = s.chats chatId) : s.modify chatId f = s := by
  unfold modify
  rw [h, update_eq_self]

@[simp] theorem writeMessages_chats_self (s : State) (chatId : String) (messages : List Message) :
    (s.writeMessages chatId messages).chats chatId = { s.chats chatId with messages := messages } :=
  update_self _ _ _

theorem writeMessages_chats_of_ne (messages : List Message) {other : String} (h : other ≠ chatId) :
    (s.writeMessages chatId messages).chats other = s.chats other :=
  update_of_ne h _ _

@[simp] theorem showBusy_chats (s : State) (chatId : String) (busy : Bool) :
    (s.showBusy chatId busy).chats = s.chats := rfl

/-- **No chat is open.** -/
def hide (s : State) : State :=
  { s with
    currentChatId := none
    blankDraftActive := true
    messages := []
    isSending := false
    goalState := none
    taskPlanState := none }

theorem hide_modify (s : State) (chatId : String) (f : Chat → Chat) :
    (s.modify chatId f).hide = s.hide.modify chatId f := rfl

/-! ### The copy of the open chat -/

/-- **The copy of the open chat** is what is kept for it. -/
structure Synced (s : State) : Prop where
  messages : s.messages = (s.currentChatId.map fun current => (s.chats current).messages).getD []
  goalState : s.goalState = s.currentChatId.bind fun current => (s.chats current).goalState
  taskPlanState : s.taskPlanState = s.currentChatId.bind fun current => (s.chats current).taskPlanState
  drafted : s.blankDraftActive = true → s.currentChatId = none
  idle : s.currentChatId = none → s.isSending = false

theorem synced_hide (s : State) : s.hide.Synced := ⟨rfl, rfl, rfl, fun _ => rfl, fun _ => rfl⟩

theorem synced_init : init.Synced := ⟨rfl, rfl, rfl, fun _ => rfl, fun _ => rfl⟩

theorem Synced.messages_open (hs : s.Synced) (h : s.currentChatId = some chatId) :
    s.messages = (s.chats chatId).messages := by
  rw [hs.messages, h]
  rfl

theorem Synced.goalState_open (hs : s.Synced) (h : s.currentChatId = some chatId) :
    s.goalState = (s.chats chatId).goalState := by
  rw [hs.goalState, h]
  rfl

theorem Synced.taskPlanState_open (hs : s.Synced) (h : s.currentChatId = some chatId) :
    s.taskPlanState = (s.chats chatId).taskPlanState := by
  rw [hs.taskPlanState, h]
  rfl

theorem Synced.not_drafted (hs : s.Synced) (h : s.currentChatId = some chatId) : s.blankDraftActive = false := by
  cases hactive : s.blankDraftActive with
  | false => rfl
  | true =>
    rw [hs.drafted hactive] at h
    cases h

theorem Synced.chatMessagesForId (hs : s.Synced) (chatId : String) :
    s.chatMessagesForId chatId = (s.chats chatId).messages := by
  unfold State.chatMessagesForId
  split_ifs with h
  · exact hs.messages_open h
  · rfl

theorem chatMessagesForId_hide (s : State) (chatId : String) :
    s.hide.chatMessagesForId chatId = (s.chats chatId).messages := rfl

theorem Synced.goalStateForChat (hs : s.Synced) (chatId : String) :
    s.goalStateForChat chatId = (s.chats chatId).goalState := by
  unfold State.goalStateForChat
  split_ifs with h
  · rw [hs.goalState_open h]
    cases (s.chats chatId).goalState <;> rfl
  · cases (s.chats chatId).goalState <;> rfl

/-- **There is nothing to synchronize.** -/
theorem Synced.syncCurrentMessages (hs : s.Synced) : s.syncCurrentMessages = s := by
  unfold State.syncCurrentMessages
  cases h : s.currentChatId with
  | none => rfl
  | some current =>
    refine modify_eq_self ?_
    rw [hs.messages_open h]

end State

/-! ### What concerns one chat -/

/-- Nothing but what is kept for the chat, and the copy of the open chat, is another. -/
structure Local (chatId : String) (s s' : State) : Prop where
  generation : s'.connectionGeneration = s.connectionGeneration
  recoveringGeneration : s'.recoveringGeneration = s.recoveringGeneration
  recoveringChatId : s'.recoveringChatId = s.recoveringChatId
  sessions : s'.sessionRunStartedAt = s.sessionRunStartedAt
  current : s'.currentChatId = s.currentChatId
  drafted : s'.blankDraftActive = s.blankDraftActive
  others : ∀ other ≠ chatId, s'.chats other = s.chats other

theorem Local.refl (chatId : String) (s : State) : Local chatId s s :=
  ⟨rfl, rfl, rfl, rfl, rfl, rfl, fun _ _ => rfl⟩

variable {chatId : String}

theorem Local.trans {s' s'' : State} (h : Local chatId s s') (h' : Local chatId s' s'') :
    Local chatId s s'' where
  generation := h'.generation.trans h.generation
  recoveringGeneration := h'.recoveringGeneration.trans h.recoveringGeneration
  recoveringChatId := h'.recoveringChatId.trans h.recoveringChatId
  sessions := h'.sessions.trans h.sessions
  current := h'.current.trans h.current
  drafted := h'.drafted.trans h.drafted
  others other hne := (h'.others other hne).trans (h.others other hne)

theorem local_modify (s : State) (chatId : String) (f : Chat → Chat) : Local chatId s (s.modify chatId f) :=
  ⟨rfl, rfl, rfl, rfl, rfl, rfl, fun _ h => State.modify_chats_of_ne h⟩

def Quiet (f : Chat → Chat) : Prop :=
  ∀ chat, (f chat).messages = chat.messages ∧ (f chat).goalState = chat.goalState ∧
    (f chat).taskPlanState = chat.taskPlanState

/-- **One chat is written**: its part of the copy follows it where it is open, and the copy stays where it is not. -/
theorem State.Synced.update {s s' : State} (hs : s.Synced) {chat : Chat}
    (hchats : s'.chats = Function.update s.chats chatId chat) (hcurrent : s'.currentChatId = s.currentChatId)
    (hdrafted : s'.blankDraftActive = s.blankDraftActive) (hsending : s'.isSending = s.isSending)
    (hopen : s.currentChatId = some chatId → s'.messages = chat.messages ∧ s'.goalState = chat.goalState ∧
      s'.taskPlanState = chat.taskPlanState)
    (hclosed : s.currentChatId ≠ some chatId → s'.messages = s.messages ∧ s'.goalState = s.goalState ∧
      s'.taskPlanState = s.taskPlanState) : s'.Synced := by
  by_cases h : s.currentChatId = some chatId
  · obtain ⟨hm, hg, hp⟩ := hopen h
    refine ⟨?_, ?_, ?_, hdrafted ▸ hcurrent ▸ hs.drafted, hsending ▸ hcurrent ▸ hs.idle⟩
    · simp [hm, hcurrent, h, hchats]
    · simp [hg, hcurrent, h, hchats]
    · simp [hp, hcurrent, h, hchats]
  · obtain ⟨hm, hg, hp⟩ := hclosed h
    have hsame : ∀ current, s.currentChatId = some current → s'.chats current = s.chats current := fun current hc => by
      rw [hchats]
      exact update_of_ne (fun he => h (hc.trans (congrArg some he))) _ _
    refine ⟨?_, ?_, ?_, hdrafted ▸ hcurrent ▸ hs.drafted, hsending ▸ hcurrent ▸ hs.idle⟩
    · rw [hm, hcurrent, hs.messages, map_congr fun current hc => congrArg Chat.messages (hsame current hc).symm]
    · rw [hg, hcurrent, hs.goalState, bind_congr fun current hc => congrArg Chat.goalState (hsame current hc).symm]
    · rw [hp, hcurrent, hs.taskPlanState,
        bind_congr fun current hc => congrArg Chat.taskPlanState (hsame current hc).symm]

theorem State.Synced.modify {s : State} (hs : s.Synced) {f : Chat → Chat} (hf : Quiet f) :
    (s.modify chatId f).Synced :=
  hs.update rfl rfl rfl rfl (fun h => ⟨(hs.messages_open h).trans (hf _).1.symm,
    (hs.goalState_open h).trans (hf _).2.1.symm, (hs.taskPlanState_open h).trans (hf _).2.2.symm⟩)
    fun _ => ⟨rfl, rfl, rfl⟩

theorem State.Synced.writeMessages {s : State} (hs : s.Synced) (chatId : String) (messages : List Message) :
    (s.writeMessages chatId messages).Synced :=
  hs.update rfl rfl rfl rfl (fun h => ⟨if_pos h, hs.goalState_open h, hs.taskPlanState_open h⟩)
    fun h => ⟨if_neg h, rfl, rfl⟩

/-! ### Plain reducers -/

/-- **A plain reducer** of the events of a chat, and, where `p` holds, one that does the same if no chat is open. -/
structure Plain (p : Prop) (chatId : String) (h : State → State) (s : State) : Prop where
  scope : Local chatId s (h s)
  synced : (h s).Synced
  sending : p → s.currentChatId ≠ some chatId → (h s).isSending = s.isSending
  hide : p → (h s).hide = h s.hide

variable {p : Prop} {chatId : String} {s : State} {f g h : State → State}

namespace Plain

theorem same (hs : s.Synced) : Plain p chatId (fun s => s) s :=
  ⟨Local.refl _ _, hs, fun _ _ => rfl, fun _ => rfl⟩

/-- One after the other. -/
theorem comp (hf : Plain p chatId f s) (hg : Plain p chatId g (f s)) : Plain p chatId (fun s => g (f s)) s where
  scope := hf.scope.trans hg.scope
  synced := hg.synced
  sending hp hne := (hg.sending hp (by rwa [hf.scope.current])).trans (hf.sending hp hne)
  hide hp := by rw [hg.hide hp, hf.hide hp]

/-- A reducer that is the other one in the state, open or closed. -/
theorem congr (hs : h s = f s) (hhide : p → h s.hide = f s.hide) (hf : Plain p chatId f s) : Plain p chatId h s where
  scope := hs ▸ hf.scope
  synced := hs ▸ hf.synced
  sending hp hne := by rw [hs, hf.sending hp hne]
  hide hp := by rw [hs, hhide hp, hf.hide hp]

/-- A case on what does not depend on the open chat. -/
theorem ite {q : State → Prop} [DecidablePred q] (hq : q s ↔ q s.hide) (hf : q s → Plain p chatId f s)
    (hg : ¬ q s → Plain p chatId g s) : Plain p chatId (fun s => if q s then f s else g s) s := by
  by_cases hqs : q s
  · exact congr (if_pos hqs) (fun _ => if_pos (hq.mp hqs)) (hf hqs)
  · exact congr (if_neg hqs) (fun _ => if_neg fun hhide => hqs (hq.mpr hhide)) (hg hqs)

/-- A match on what does not depend on the open chat. -/
theorem option {β : Type*} {o : State → Option β} {k : β → State → State} (ho : o s.hide = o s)
    (hnone : o s = none → Plain p chatId g s) (hsome : ∀ b, o s = some b → Plain p chatId (k b) s)
    (hg : ∀ s, o s = none → h s = g s) (hk : ∀ s b, o s = some b → h s = k b s) : Plain p chatId h s := by
  cases hb : o s with
  | none => exact congr (hg s hb) (fun _ => hg _ (ho.trans hb)) (hnone hb)
  | some b => exact congr (hk s b hb) (fun _ => hk _ b (ho.trans hb)) (hsome b hb)

theorem modify (hs : s.Synced) (change : State → Chat → Chat) (hsame : change s.hide = change s)
    (hquiet : Quiet (change s)) : Plain p chatId (fun s => s.modify chatId (change s)) s where
  scope := local_modify _ _ _
  synced := hs.modify hquiet
  sending _ _ := rfl
  hide _ := by
    rw [State.hide_modify]
    rw [hsame]

theorem syncIfOpen (hs : s.Synced) : Plain p chatId (·.syncIfOpen chatId) s := by
  refine congr ?_ (fun _ => ?_) (same hs)
  · unfold State.syncIfOpen
    rw [hs.syncCurrentMessages, ite_self]
  · unfold State.syncIfOpen
    rw [(State.synced_hide s).syncCurrentMessages, ite_self]

theorem showBusy (hs : s.Synced) (busy : State → Bool) :
    Plain p chatId (fun s => s.showBusy chatId (busy s)) s where
  scope := ⟨rfl, rfl, rfl, rfl, rfl, rfl, fun _ _ => rfl⟩
  synced := by
    refine ⟨hs.messages, hs.goalState, hs.taskPlanState, hs.drafted, fun hnone => ?_⟩
    show (if s.currentChatId = some chatId then busy s else s.isSending) = false
    rw [if_neg (by rw [show s.currentChatId = none from hnone]; simp)]
    exact hs.idle hnone
  sending _ hne := if_neg hne
  hide _ := rfl

theorem writeMessages (hs : s.Synced) (messages : State → List Message) (hsame : messages s.hide = messages s) :
    Plain p chatId (fun s => s.writeMessages chatId (messages s)) s where
  scope := ⟨rfl, rfl, rfl, rfl, rfl, rfl, fun _ hne => State.writeMessages_chats_of_ne _ hne⟩
  synced := hs.writeMessages _ _
  sending _ _ := rfl
  hide _ := by
    rw [hsame]
    rfl

theorem foldl {α : Type*} {step : State → α → State} : ∀ {l : List α} {s : State}, s.Synced →
    (∀ x ∈ l, ∀ s : State, s.Synced → Plain p chatId (fun s => step s x) s) →
    Plain p chatId (fun s => l.foldl step s) s
  | [], _, hs, _ => same hs
  | x :: _, s, hs, hstep =>
    have hx := hstep x List.mem_cons_self s hs
    comp hx (foldl hx.synced fun y hy => hstep y (List.mem_cons_of_mem _ hy))

end Plain

/-! ### Reducers of the content of the open chat -/

/-- **A reducer of the content of the open chat**: what the button shows does not matter to it. -/
structure Scoped (chatId : String) (h : State → State) (s : State) : Prop where
  scope : Local chatId s (h s)
  synced : (h s).Synced
  indifferent : ∀ busy, ∃ busy', h { s with isSending := busy } = { h s with isSending := busy' }

namespace Scoped

theorem same (hs : s.Synced) : Scoped chatId (fun s => s) s := ⟨Local.refl _ _, hs, fun busy => ⟨busy, rfl⟩⟩

theorem comp (hf : Scoped chatId f s) (hg : Scoped chatId g (f s)) : Scoped chatId (fun s => g (f s)) s where
  scope := hf.scope.trans hg.scope
  synced := hg.synced
  indifferent busy := by
    obtain ⟨busy', hbusy'⟩ := hf.indifferent busy
    obtain ⟨busy'', hbusy''⟩ := hg.indifferent busy'
    exact ⟨busy'', by rw [hbusy', hbusy'']⟩

/-- A reducer that is the other one in the state, whatever the button shows. -/
theorem congr (hsame : ∀ busy, h { s with isSending := busy } = f { s with isSending := busy })
    (hf : Scoped chatId f s) : Scoped chatId h s := by
  have hs : h s = f s := hsame s.isSending
  refine ⟨hs ▸ hf.scope, hs ▸ hf.synced, fun busy => ?_⟩
  rw [hsame, hs]
  exact hf.indifferent busy

theorem ite {q : State → Prop} [DecidablePred q] (hq : ∀ busy, q { s with isSending := busy } ↔ q s)
    (hf : q s → Scoped chatId f s) (hg : ¬ q s → Scoped chatId g s) :
    Scoped chatId (fun s => if q s then f s else g s) s := by
  by_cases hqs : q s
  · exact congr (fun busy => if_pos ((hq busy).mpr hqs)) (hf hqs)
  · exact congr (fun busy => if_neg fun hbusy => hqs ((hq busy).mp hbusy)) (hg hqs)

theorem modify (hs : s.Synced) (change : State → Chat → Chat)
    (hsame : ∀ busy, change { s with isSending := busy } = change s) (hquiet : Quiet (change s)) :
    Scoped chatId (fun s => s.modify chatId (change s)) s where
  scope := local_modify _ _ _
  synced := hs.modify hquiet
  indifferent busy := ⟨busy, by rw [hsame]; rfl⟩

/-- **Showing messages** that do not depend on the button. -/
theorem showMessages (hs : s.Synced) (hopen : s.currentChatId = some chatId) (messages : State → List Message)
    (sending : State → Bool) (hsame : ∀ busy, messages { s with isSending := busy } = messages s) :
    Scoped chatId (fun s => s.showMessages (messages s) (sending s)) s := by
  have heq : ∀ s' : State, s'.currentChatId = some chatId → ∀ (list : List Message) (sending : Bool),
      s'.showMessages list sending = { s'.writeMessages chatId list with isSending := sending } := by
    intro s' hopen' list sending
    cases s'
    subst hopen'
    simp [State.showMessages, State.syncCurrentMessages, State.writeMessages, State.modify]
  refine ⟨?_, ?_, fun busy => ⟨sending { s with isSending := busy }, ?_⟩⟩
  · rw [heq s hopen]
    exact ⟨rfl, rfl, rfl, rfl, rfl, rfl, fun _ hne => State.writeMessages_chats_of_ne _ hne⟩
  · rw [heq s hopen]
    have hsynced := hs.writeMessages chatId (messages s)
    exact ⟨hsynced.messages, hsynced.goalState, hsynced.taskPlanState, hsynced.drafted, fun hnone => by
      rw [show s.currentChatId = none from hnone] at hopen
      cases hopen⟩
  · show State.showMessages _ (messages { s with isSending := busy }) _ = _
    rw [hsame, heq s hopen, heq { s with isSending := busy } hopen]
    rfl

end Scoped

/-! ### Reducing the content of any chat -/

namespace State

theorem synced_asOpen (s : State) (chatId : String) : (s.asOpen chatId).Synced := ⟨rfl, rfl, rfl, nofun, nofun⟩

theorem hide_restored (s reduced : State) (chatId : String) (hsynced : reduced.Synced)
    (hopen : reduced.currentChatId = some chatId) : (s.restored reduced chatId).hide = reduced.hide := by
  have hsame : (reduced.modify chatId fun chat => { chat with messages := reduced.messages }) = reduced := by
    refine modify_eq_self ?_
    rw [hsynced.messages_open hopen]
  unfold restored
  rw [hsame]
  rfl

theorem local_restored (s reduced : State) (chatId : String) (h : Local chatId (s.asOpen chatId) reduced) :
    Local chatId s (s.restored reduced chatId) :=
  ⟨h.generation, h.recoveringGeneration, h.recoveringChatId, h.sessions, rfl, rfl, fun other hne => by
    show (reduced.modify chatId fun chat => { chat with messages := reduced.messages }).chats other = _
    rw [State.modify_chats_of_ne hne, h.others other hne]
    rfl⟩

theorem synced_restored (hs : s.Synced) (reduced : State) (chatId : String)
    (h : Local chatId (s.asOpen chatId) reduced) (hclosed : s.currentChatId ≠ some chatId) :
    (s.restored reduced chatId).Synced := by
  refine ⟨?_, rfl, rfl, hs.drafted, fun hnone => ?_⟩
  · have hothers := (local_restored s reduced chatId h).others
    show s.messages = (s.currentChatId.map fun current => ((s.restored reduced chatId).chats current).messages).getD []
    rw [hs.messages]
    cases hcurrent : s.currentChatId with
    | none => rfl
    | some current =>
      rw [map_some, map_some, hothers current fun heq => hclosed (by rw [hcurrent, heq])]
  · show (s.currentChatId.any _) = false
    rw [show s.currentChatId = none from hnone]
    rfl

end State

variable {r : State → State}

theorem Scoped.hide_eq (hr : Scoped chatId r s) (hs : s.Synced) (hopen : s.currentChatId = some chatId) :
    (r (s.asOpen chatId)).hide = (r s).hide := by
  have hsame : s.asOpen chatId = { s with isSending := s.isChatBusy chatId } := by
    unfold State.asOpen
    rw [← hs.messages_open hopen, ← hs.goalState_open hopen, ← hs.taskPlanState_open hopen, ← hopen]
    rw [← hs.not_drafted hopen]
  obtain ⟨busy, hbusy⟩ := hr.indifferent (s.isChatBusy chatId)
  rw [hsame, hbusy]
  rfl

/-- **Reducing the content of any chat** is plain, if what the button shows of another chat is what it is. -/
theorem Scoped.plain (hs : s.Synced) (hopen : s.currentChatId = some chatId → Scoped chatId r s)
    (hother : Scoped chatId r (s.asOpen chatId))
    (hsettled : p → ∀ current ∈ s.currentChatId, current ≠ chatId →
      s.isSending = (s.isChatBusy current || hasLiveStreamingMessage s.messages)) :
    Plain p chatId (fun s => s.withScopedChatMessages chatId r) s := by
  have hhide : (s.hide.withScopedChatMessages chatId r).hide = (r (s.asOpen chatId)).hide := by
    exact State.hide_restored _ _ _ hother.synced (hother.scope.current.trans rfl)
  have hhidden : s.hide.withScopedChatMessages chatId r = (s.hide.withScopedChatMessages chatId r).hide := by
    rfl
  by_cases h : s.currentChatId = some chatId
  · have heq : s.withScopedChatMessages chatId r = r s := if_pos h
    refine ⟨?_, ?_, fun _ hne => absurd h hne, fun _ => ?_⟩
    · rw [heq]
      exact (hopen h).scope
    · rw [heq]
      exact (hopen h).synced
    · rw [heq, hhidden, hhide, (hopen h).hide_eq hs h]
  · have heq : s.withScopedChatMessages chatId r = s.restored (r (s.asOpen chatId)) chatId := if_neg h
    have hlocal := State.local_restored s _ chatId hother.scope
    refine ⟨?_, ?_, fun hp _ => ?_, fun _ => ?_⟩
    · rw [heq]
      exact hlocal
    · rw [heq]
      exact State.synced_restored hs _ chatId hother.scope h
    · rw [heq]
      show (s.currentChatId.any fun current => _) = s.isSending
      cases hcurrent : s.currentChatId with
      | none => rw [hs.idle hcurrent]; rfl
      | some current =>
        have hne : current ≠ chatId := fun heq' => h (by rw [hcurrent, heq'])
        have hbusy : (s.restored (r (s.asOpen chatId)) chatId).isChatBusy current = s.isChatBusy current := by
          unfold State.isChatBusy State.effectiveRunStartedAtForChat
          rw [hlocal.others current hne, hlocal.sessions]
        rw [hsettled hp current hcurrent hne, ← hbusy]
        rfl
    · rw [heq, hhidden, hhide]
      exact State.hide_restored _ _ _ hother.synced (hother.scope.current.trans rfl)

end Memmy.AgentChat
