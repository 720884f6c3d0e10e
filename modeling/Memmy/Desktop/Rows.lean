import Memmy.Desktop.Queue

/-! # What the events do to the rows

Every function of the desktop's queue is read once, as what it does to the confirmed rows, to the revisions and to
what is shown.

* `Chat.confirmed`, `ShownOnce`: the rows other than `sending` ones, and that nothing is shown twice.
* `applyQueueIncrement_cases`, `applyQueueSnapshot_cases`, `queueRemoveResult_cases`: what the functions that read a
  revision can do.
* `mem_confirmed_withQueued`, `mem_confirmed_promote`, `mem_confirmed_snapshot`: the confirmed rows after them. -/

namespace Memmy.Desktop

open Lib.Sort List

/-- The rows other than `sending` ones. -/
def Chat.confirmed (chat : Chat) : List Item := (chat.rows.filter fun row => row.status ≠ .sending).map Row.item

/-- **No client request id is shown twice**, as two rows, two messages, or a row and a message. -/
structure ShownOnce (chat : Chat) : Prop where
  rows : (chat.rows.map Row.clientRequestId).Nodup
  messages : (chat.messages.filterMap Message.clientRequestId).Nodup
  apart : ∀ row ∈ chat.rows, some row.clientRequestId ∉ chat.messages.map Message.clientRequestId

/-! ### Rows -/

section Rows
variable {chat : Chat} {item : Item} {id : String} {turnId : Option String}

theorem mem_confirmed : item ∈ chat.confirmed ↔ ∃ row ∈ chat.rows, row.status ≠ .sending ∧ row.item = item := by
  unfold Chat.confirmed
  simp only [mem_map, mem_filter, decide_eq_true_eq, and_assoc]

theorem hasMessage_iff : chat.hasMessage id = true ↔ some id ∈ chat.messages.map Message.clientRequestId := by
  unfold Chat.hasMessage
  simp [any_eq_true]

theorem hasRow_iff : chat.hasRow id = true ↔ id ∈ chat.rows.map Row.clientRequestId := by
  unfold Chat.hasRow
  simp [any_eq_true]

theorem hasSending_iff : chat.hasSending id = true ↔
    ∃ row ∈ chat.rows, row.clientRequestId = id ∧ row.status = .sending := by
  unfold Chat.hasSending
  simp [any_eq_true]

/-- A row whose controls are enabled is not being sent. -/
theorem hasSending_eq_false (h : ∀ row ∈ chat.rows, row.clientRequestId = id → row.status = .queued) :
    chat.hasSending id = false := by
  rw [Bool.eq_false_iff]
  intro hsending
  obtain ⟨row, hrow, hid, hstatus⟩ := hasSending_iff.mp hsending
  rw [h row hrow hid] at hstatus
  cases hstatus

theorem ShownOnce.row_eq (h : ShownOnce chat) {row row' : Row} (hrow : row ∈ chat.rows) (hrow' : row' ∈ chat.rows)
    (hid : row.clientRequestId = row'.clientRequestId) : row = row' :=
  inj_on_of_nodup_map h.rows hrow hrow' hid

theorem mem_confirmed_remove : item ∈ (chat.removeQueuedMessageFromChat id).confirmed ↔
    item ∈ chat.confirmed ∧ item.clientRequestId ≠ id := by
  unfold Chat.removeQueuedMessageFromChat
  simp only [mem_confirmed, mem_filter, decide_eq_true_eq]
  constructor
  · rintro ⟨row, ⟨hrow, hid⟩, hstatus, rfl⟩
    exact ⟨⟨row, hrow, hstatus, rfl⟩, hid⟩
  · rintro ⟨⟨row, hrow, hstatus, rfl⟩, hid⟩
    exact ⟨row, ⟨hrow, hid⟩, hstatus, rfl⟩

theorem confirmed_congr {other : Chat} (h : chat.rows = other.rows) : chat.confirmed = other.confirmed := by
  unfold Chat.confirmed
  rw [h]

theorem rows_optimistic : (chat.queueOptimisticUserMessage item false false).rows = chat.rows := by
  unfold Chat.queueOptimisticUserMessage
  rw [if_neg fun h => Bool.noConfusion h.1]
  split_ifs <;> rfl

theorem rows_promote {pending : Bool} :
    (chat.promoteQueuedMessage item turnId pending).rows =
      (chat.removeQueuedMessageFromChat item.clientRequestId).rows := by
  unfold Chat.promoteQueuedMessage
  dsimp only
  split_ifs
  · rfl
  · exact rows_optimistic
  · exact rows_optimistic

theorem mem_confirmed_promote {promoted : Item} {pending : Bool} :
    item ∈ (chat.promoteQueuedMessage promoted turnId pending).confirmed ↔
      item ∈ chat.confirmed ∧ item.clientRequestId ≠ promoted.clientRequestId := by
  rw [confirmed_congr rows_promote, mem_confirmed_remove]

/-- A row that is being sent is not a confirmed one. -/
theorem ShownOnce.not_confirmed (h : ShownOnce chat) (hsending : chat.hasSending id = true) :
    ∀ item ∈ chat.confirmed, item.clientRequestId ≠ id := by
  rintro item hitem rfl
  obtain ⟨row, hrow, hstatus, rfl⟩ := mem_confirmed.mp hitem
  obtain ⟨row', hrow', hid, hstatus'⟩ := hasSending_iff.mp hsending
  rw [h.row_eq hrow' hrow hid] at hstatus'
  exact hstatus hstatus'

theorem mem_confirmed_clear (h : ShownOnce chat) :
    item ∈ (chat.clearOptimisticSend id).confirmed ↔ item ∈ chat.confirmed := by
  unfold Chat.clearOptimisticSend
  split_ifs with hsending
  · refine (show _ ↔ _ from mem_confirmed_remove).trans (and_iff_left_of_imp ?_)
    exact h.not_confirmed hsending item
  · exact Iff.rfl

theorem mem_confirmed_status {status : Status} (hno : chat.hasSending id = false) (hstatus : status ≠ .sending) :
    item ∈ (chat.updateQueuedMessageStatus id status).confirmed ↔ item ∈ chat.confirmed := by
  unfold Chat.updateQueuedMessageStatus
  simp only [mem_confirmed, mem_map]
  constructor
  · rintro ⟨_, ⟨row, hrow, rfl⟩, hs, rfl⟩
    refine ⟨row, hrow, ?_, by split_ifs <;> rfl⟩
    split_ifs at hs with hid
    · intro hsending
      rw [hasSending_iff.mpr ⟨row, hrow, hid, hsending⟩] at hno
      cases hno
    · exact hs
  · rintro ⟨row, hrow, hs, rfl⟩
    refine ⟨_, ⟨row, hrow, rfl⟩, ?_, by split_ifs <;> rfl⟩
    split_ifs
    · exact hstatus
    · exact hs

end Rows

/-! ### Revisions -/

section Revisions
variable {chat : Chat} {item : Item} {id : String} {turnId : Option String}

/-- **What an increment does**: it finds a gap, it is old or the chat is desynced, or it is the next. -/
theorem applyQueueIncrement_cases (chat : Chat) (revision : ℕ) (apply : Chat → Chat) :
    ((∀ current ∈ chat.queueRevision, current + 1 < revision) ∧
      chat.applyQueueIncrement revision apply = chat.markQueueDesynced revision) ∨
    (∃ current, chat.queueRevision = some current ∧ (revision ≤ current ∨ ∃ o, chat.queueDesynced = some o) ∧
      revision ≤ current + 1 ∧ chat.applyQueueIncrement revision apply = chat) ∨
    ∃ current, chat.queueRevision = some current ∧ revision = current + 1 ∧ chat.queueDesynced = none ∧
      chat.applyQueueIncrement revision apply = { apply chat with queueRevision := some revision } := by
  unfold Chat.applyQueueIncrement
  cases hrevision : chat.queueRevision with
  | none => exact Or.inl ⟨nofun, rfl⟩
  | some current =>
    dsimp only
    by_cases hgap : current + 1 < revision
    · refine Or.inl ⟨?_, if_pos hgap⟩
      rintro c hc
      cases hc
      exact hgap
    · rw [if_neg hgap]
      by_cases hold : revision ≤ current ∨ chat.queueDesynced.isSome = true
      · rw [if_pos hold]
        exact Or.inr (Or.inl ⟨current, rfl, hold.imp_right Option.isSome_iff_exists.mp, Nat.le_of_not_lt hgap, rfl⟩)
      · rw [if_neg hold]
        rw [not_or] at hold
        refine Or.inr (Or.inr ⟨current, rfl, by omega, ?_, rfl⟩)
        exact Option.not_isSome_iff_eq_none.mp hold.2

theorem markQueueDesynced_observed (chat : Chat) (revision : ℕ) :
    ∃ o, (chat.markQueueDesynced revision).queueDesynced = some o ∧ revision ≤ o ∧
      ∀ observed ∈ chat.queueDesynced, observed ≤ o := by
  unfold Chat.markQueueDesynced
  split_ifs with h
  · obtain ⟨current, hcurrent, hle⟩ := h
    refine ⟨current, hcurrent, hle, fun observed ho => ?_⟩
    rw [hcurrent] at ho
    exact (Option.some.inj ho).ge
  · refine ⟨revision, rfl, le_rfl, fun observed ho => ?_⟩
    by_contra hlt
    exact h ⟨observed, ho, by omega⟩

@[simp] theorem markQueueDesynced_queueRevision (revision : ℕ) :
    (chat.markQueueDesynced revision).queueRevision = chat.queueRevision := by
  unfold Chat.markQueueDesynced
  split_ifs <;> rfl

@[simp] theorem markQueueDesynced_rows (revision : ℕ) : (chat.markQueueDesynced revision).rows = chat.rows := by
  unfold Chat.markQueueDesynced
  split_ifs <;> rfl

@[simp] theorem markQueueDesynced_messages (revision : ℕ) :
    (chat.markQueueDesynced revision).messages = chat.messages := by
  unfold Chat.markQueueDesynced
  split_ifs <;> rfl

/-- An operation that changes rows and messages only. -/
def SameRevision (chat other : Chat) : Prop :=
  other.queueRevision = chat.queueRevision ∧ other.queueDesynced = chat.queueDesynced

theorem SameRevision.trans {a b c : Chat} (h : SameRevision a b) (h' : SameRevision b c) : SameRevision a c :=
  ⟨h'.1.trans h.1, h'.2.trans h.2⟩

theorem sameRevision_remove : SameRevision chat (chat.removeQueuedMessageFromChat id) := ⟨rfl, rfl⟩

theorem sameRevision_status {status : Status} : SameRevision chat (chat.updateQueuedMessageStatus id status) :=
  ⟨rfl, rfl⟩

theorem sameRevision_optimistic {queueIfBusy busy : Bool} :
    SameRevision chat (chat.queueOptimisticUserMessage item queueIfBusy busy) := by
  unfold Chat.queueOptimisticUserMessage
  split_ifs <;> exact ⟨rfl, rfl⟩

theorem sameRevision_promote {pending : Bool} :
    SameRevision chat (chat.promoteQueuedMessage item turnId pending) := by
  unfold Chat.promoteQueuedMessage
  dsimp only
  split_ifs
  · exact sameRevision_remove
  · exact sameRevision_remove.trans sameRevision_optimistic
  · exact sameRevision_remove.trans sameRevision_optimistic

theorem sameRevision_clear : SameRevision chat (chat.clearOptimisticSend id) := by
  unfold Chat.clearOptimisticSend
  split_ifs <;> exact ⟨rfl, rfl⟩

theorem sameRevision_steered : SameRevision chat (chat.messageSteered id turnId) := by
  unfold Chat.messageSteered
  split
  · exact sameRevision_promote
  · exact ⟨rfl, rfl⟩

theorem sameRevision_accepted : SameRevision chat (chat.messageAccepted id) := by
  unfold Chat.messageAccepted
  split
  · split_ifs
    · exact sameRevision_promote
    · exact ⟨rfl, rfl⟩
  · exact ⟨rfl, rfl⟩

theorem sameRevision_user {id : Option String} {content : String} {media : List String} :
    SameRevision chat (chat.appendExternalUserMessage id turnId content media) := by
  unfold Chat.appendExternalUserMessage
  cases id <;> dsimp only [Option.elim] <;> split <;> (try split_ifs) <;> exact ⟨rfl, rfl⟩

/-- **A snapshot** that is too old changes nothing; another is recorded, and the chat is no longer desynced. -/
theorem applyQueueSnapshot_cases (chat : Chat) (revision : ℕ) (items started : List Item) :
    (((∃ current ∈ chat.queueRevision, revision < current) ∨ ∃ observed ∈ chat.queueDesynced, revision < observed) ∧
      chat.applyQueueSnapshot revision items started = chat) ∨
    (∀ current ∈ chat.queueRevision, current ≤ revision) ∧ (∀ observed ∈ chat.queueDesynced, observed ≤ revision) ∧
      (chat.applyQueueSnapshot revision items started).queueRevision = some revision ∧
      (chat.applyQueueSnapshot revision items started).queueDesynced = none := by
  unfold Chat.applyQueueSnapshot
  by_cases hold : ∃ current ∈ chat.queueRevision, revision < current
  · rw [if_pos hold]
    exact Or.inl ⟨Or.inl hold, rfl⟩
  · rw [if_neg hold]
    by_cases hobserved : ∃ observed ∈ chat.queueDesynced, revision < observed
    · rw [if_pos hobserved]
      exact Or.inl ⟨Or.inr hobserved, rfl⟩
    · rw [if_neg hobserved]
      push Not at hold hobserved
      exact Or.inr ⟨hold, hobserved, rfl, rfl⟩

end Revisions

/-! ### What is shown -/

section Shown
variable {chat : Chat} {item : Item} {id : String}

section
variable (h : ShownOnce chat)
include h

theorem ShownOnce.remove : ShownOnce (chat.removeQueuedMessageFromChat id) where
  rows := h.rows.sublist (filter_sublist.map _)
  messages := h.messages
  apart := fun row hrow => h.apart row (mem_of_mem_filter hrow)

theorem ShownOnce.message {message : Message}
    (hid : ∀ id ∈ message.clientRequestId, chat.hasMessage id = false ∧ chat.hasRow id = false) :
    ShownOnce { chat with messages := chat.messages ++ [message] } where
  rows := h.rows
  messages := by
    rw [filterMap_append, nodup_append]
    refine ⟨h.messages, ?_, ?_⟩
    · cases hmessage : message.clientRequestId <;> simp [hmessage]
    · rintro a ha b hb rfl
      obtain ⟨message', hmessage', hnew⟩ := mem_filterMap.mp hb
      rw [mem_singleton.mp hmessage'] at hnew
      obtain ⟨old, hold, ha⟩ := mem_filterMap.mp ha
      have hno := (hid a hnew).1
      rw [hasMessage_iff.mpr (mem_map.mpr ⟨old, hold, ha⟩)] at hno
      cases hno
  apart := by
    intro row hrow hmem
    rw [map_append, mem_append] at hmem
    rcases hmem with hmem | hmem
    · exact h.apart row hrow hmem
    · have hid := (hid row.clientRequestId (mem_singleton.mp hmem).symm).2
      rw [(@hasRow_iff chat _).mpr (mem_map.mpr ⟨row, hrow, rfl⟩)] at hid
      cases hid

theorem ShownOnce.row {row : Row} (hrow : chat.hasRow row.clientRequestId = false)
    (hmessage : chat.hasMessage row.clientRequestId = false) : ShownOnce { chat with rows := chat.rows ++ [row] } where
  rows := by
    rw [map_append, nodup_append]
    refine ⟨h.rows, nodup_singleton _, ?_⟩
    rintro a ha b hb rfl
    rw [mem_singleton.mp hb, ← @hasRow_iff chat, hrow] at ha
    cases ha
  messages := h.messages
  apart := by
    intro other hother hmem
    rcases mem_append.mp hother with hother | hother
    · exact h.apart other hother hmem
    · rw [mem_singleton.mp hother, ← @hasMessage_iff chat, hmessage] at hmem
      cases hmem

theorem ShownOnce.congr {other : Chat}
    (hrows : other.rows.map Row.clientRequestId = chat.rows.map Row.clientRequestId)
    (hmessages : other.messages.map Message.clientRequestId = chat.messages.map Message.clientRequestId) :
    ShownOnce other where
  rows := hrows ▸ h.rows
  messages := by
    have hids : ∀ messages : List Message, messages.filterMap Message.clientRequestId =
        (messages.map Message.clientRequestId).filterMap id := fun messages => by
      rw [filterMap_map]
      rfl
    rw [hids, hmessages, ← hids]
    exact h.messages
  apart := by
    intro row hrow hmem
    obtain ⟨old, hold, hid⟩ := mem_map.mp (hrows ▸ mem_map.mpr ⟨row, hrow, rfl⟩)
    rw [← hid, hmessages] at hmem
    exact h.apart old hold hmem

theorem ShownOnce.optimistic {queueIfBusy busy : Bool} (hrow : chat.hasRow item.clientRequestId = false) :
    ShownOnce (chat.queueOptimisticUserMessage item queueIfBusy busy) := by
  unfold Chat.queueOptimisticUserMessage
  split_ifs with hbusy hthere hmessage
  · exact h
  · rw [not_or, Bool.not_eq_true, Bool.not_eq_true] at hthere
    exact @ShownOnce.row chat h ⟨item, .sending⟩ hthere.1 hthere.2
  · exact h
  · refine h.message fun id hid => ?_
    cases hid
    exact ⟨Bool.not_eq_true _ ▸ hmessage, hrow⟩

end

theorem hasRow_remove : (chat.removeQueuedMessageFromChat id).hasRow id = false := by
  rw [Bool.eq_false_iff]
  intro h
  obtain ⟨row, hrow, rfl⟩ := mem_map.mp (hasRow_iff.mp h)
  exact of_decide_eq_true (mem_filter.mp hrow).2 rfl

theorem ShownOnce.promote (h : ShownOnce chat) {pending : Bool} :
    ShownOnce (chat.promoteQueuedMessage item turnId pending) := by
  unfold Chat.promoteQueuedMessage
  dsimp only
  have hpromoted : ShownOnce
      ((chat.removeQueuedMessageFromChat item.clientRequestId).queueOptimisticUserMessage item false false) :=
    h.remove.optimistic hasRow_remove
  split_ifs
  · exact h.remove
  · refine hpromoted.congr rfl ?_
    rw [map_map]
    refine map_congr_left fun message _ => ?_
    rw [Function.comp_apply]
    split_ifs <;> rfl
  · exact hpromoted

theorem ShownOnce.clear (h : ShownOnce chat) : ShownOnce (chat.clearOptimisticSend id) := by
  unfold Chat.clearOptimisticSend
  have hfilter : ∀ other : Chat, ShownOnce other → ShownOnce { other with
      messages := other.messages.filter fun message => message.clientRequestId ≠ some id } := by
    intro other h
    exact {
      rows := h.rows
      messages := h.messages.sublist (filter_sublist.filterMap _)
      apart := fun row hrow hmem => h.apart row hrow ((filter_sublist.map _).mem hmem) }
  split_ifs
  · exact hfilter _ h.remove
  · exact hfilter _ h

theorem hasMessage_clear : (chat.clearOptimisticSend id).hasMessage id = false := by
  rw [Bool.eq_false_iff]
  intro h
  obtain ⟨message, hmessage, hid⟩ := mem_map.mp (hasMessage_iff.mp h)
  exact of_decide_eq_true (mem_filter.mp hmessage).2 hid

theorem ShownOnce.status (h : ShownOnce chat) {status : Status} :
    ShownOnce (chat.updateQueuedMessageStatus id status) := by
  refine h.congr ?_ rfl
  unfold Chat.updateQueuedMessageStatus
  rw [map_map]
  refine map_congr_left fun row _ => ?_
  rw [Function.comp_apply]
  split_ifs <;> rfl

theorem ShownOnce.user (h : ShownOnce chat) {id : Option String} {content : String} {media : List String} :
    ShownOnce (chat.appendExternalUserMessage id turnId content media) := by
  unfold Chat.appendExternalUserMessage
  have hremoved : ShownOnce (id.elim chat chat.removeQueuedMessageFromChat) := by
    cases id
    · exact h
    · exact h.remove
  dsimp only
  split
  · next index _ =>
    refine hremoved.congr rfl ?_
    refine ext_getElem? fun i => ?_
    rw [getElem?_map, getElem?_modify, getElem?_map]
    cases (id.elim chat chat.removeQueuedMessageFromChat).messages[i]? with
    | none => rfl
    | some message => by_cases hi : index = i <;> simp [hi]
  · next hnone =>
    split_ifs
    · exact hremoved
    · refine hremoved.message fun id' hid => ?_
      obtain rfl : id = some id' := hid
      refine ⟨?_, hasRow_remove⟩
      rw [Option.bind_some, findIdx?_eq_none_iff] at hnone
      rw [Bool.eq_false_iff]
      intro hmessage
      obtain ⟨message, hmem, hid⟩ := mem_map.mp (hasMessage_iff.mp hmessage)
      exact absurd hid (of_decide_eq_false (hnone message hmem))

/-- Snapshots: the rows are replaced, and the messages that wait again are taken back. -/
theorem ShownOnce.clearAll (items : List Item) : ∀ {chat : Chat}, ShownOnce chat →
    ShownOnce (items.foldl (fun chat item => chat.clearOptimisticSend item.clientRequestId) chat) := by
  induction items with
  | nil => exact id
  | cons item items ih => exact fun h => ih h.clear

theorem messages_clear_subset : (chat.clearOptimisticSend id).messages.Sublist chat.messages := by
  unfold Chat.clearOptimisticSend
  split_ifs <;> exact filter_sublist

theorem messages_clearAll (items : List Item) : ∀ chat : Chat,
    (items.foldl (fun chat item => chat.clearOptimisticSend item.clientRequestId) chat).messages.Sublist
      chat.messages := by
  induction items with
  | nil => exact fun chat => List.Sublist.refl _
  | cons item items ih => exact fun chat => (ih _).trans messages_clear_subset

theorem hasMessage_clearAll {items : List Item} : ∀ {chat : Chat}, item ∈ items →
    some item.clientRequestId ∉ (items.foldl (fun chat item =>
      chat.clearOptimisticSend item.clientRequestId) chat).messages.map Message.clientRequestId := by
  induction items with
  | nil => exact nofun
  | cons first items ih =>
    intro chat hitem
    rcases mem_cons.mp hitem with rfl | hitem
    · intro hmem
      have hmem := ((messages_clearAll items (chat.clearOptimisticSend item.clientRequestId)).map _).mem hmem
      rw [← hasMessage_iff, hasMessage_clear] at hmem
      cases hmem
    · exact ih hitem

theorem ShownOnce.promoteAll (rows : List Row) : ∀ {chat : Chat}, ShownOnce chat →
    ShownOnce (rows.foldl (fun chat row =>
      chat.promoteQueuedMessage row.item row.item.turnId (row.item.chatComposer && row.item.steer)) chat) := by
  induction rows with
  | nil => exact id
  | cons row rows ih => exact fun h => ih h.promote

theorem mem_confirmed_promoteAll {rows : List Row} : ∀ {chat : Chat},
    item ∈ (rows.foldl (fun chat row =>
      chat.promoteQueuedMessage row.item row.item.turnId (row.item.chatComposer && row.item.steer)) chat).confirmed ↔
      item ∈ chat.confirmed ∧ item.clientRequestId ∉ rows.map Row.clientRequestId := by
  induction rows with
  | nil => simp
  | cons row rows ih =>
    intro chat
    rw [foldl_cons, ih, mem_confirmed_promote, map_cons, mem_cons, not_or, and_assoc]
    rfl

theorem sortedQueuedMessages_perm (rows : List Row) : (Chat.sortedQueuedMessages rows).Perm rows :=
  sortBy_perm _ _

theorem ShownOnce.snapshot (h : ShownOnce chat) {revision : ℕ} {items started : List Item}
    (hitems : (items.map Item.clientRequestId).Nodup) :
    ShownOnce (chat.applyQueueSnapshot revision items started) := by
  unfold Chat.applyQueueSnapshot
  split_ifs
  · exact h
  · exact h
  · dsimp only
    set waiting := items.filter fun item => item.clientRequestId ∉ started.map Item.clientRequestId
    set pending := chat.rows.filter fun row => row.status = .sending ∧
      row.clientRequestId ∉ started.map Item.clientRequestId ++ waiting.map Item.clientRequestId
    set cleared := waiting.foldl (fun chat item => chat.clearOptimisticSend item.clientRequestId) chat
    have hcleared : ShownOnce cleared := h.clearAll waiting
    have hpending : pending.Sublist chat.rows := filter_sublist
    have hperm := sortedQueuedMessages_perm (waiting.map (Row.mk · .queued) ++ pending)
    have hbase : ShownOnce { cleared with
        rows := Chat.sortedQueuedMessages (waiting.map (Row.mk · .queued) ++ pending) } := by
      refine ⟨?_, hcleared.messages, fun row hrow => ?_⟩
      · rw [(hperm.map Row.clientRequestId).nodup_iff, map_append, map_map, nodup_append]
        refine ⟨hitems.sublist (filter_sublist.map _), h.rows.sublist (hpending.map _), ?_⟩
        rintro a ha b hb rfl
        obtain ⟨row, hrow, rfl⟩ := mem_map.mp hb
        have hno := (of_decide_eq_true (mem_filter.mp hrow).2).2
        exact hno (mem_append_right _ ha)
      · rcases mem_append.mp (hperm.mem_iff.mp hrow) with hrow | hrow
        · obtain ⟨item, hitem, rfl⟩ := mem_map.mp hrow
          exact hasMessage_clearAll hitem
        · intro hmem
          exact h.apart row (hpending.mem hrow) (((messages_clearAll waiting chat).map _).mem hmem)
    have hall := hbase.promoteAll (Chat.sortedQueuedMessages (started.map (Row.mk · .queued)))
    exact ⟨hall.rows, hall.messages, hall.apart⟩

/-- **A snapshot that is applied** leaves the messages that wait as the confirmed rows. -/
theorem mem_confirmed_snapshot {revision : ℕ} {items started : List Item}
    (hrevision : ∀ current ∈ chat.queueRevision, current ≤ revision)
    (hobserved : ∀ observed ∈ chat.queueDesynced, observed ≤ revision)
    (hstarted : ∀ i ∈ started, ∀ item ∈ items, item.clientRequestId ≠ i.clientRequestId) :
    item ∈ (chat.applyQueueSnapshot revision items started).confirmed ↔ item ∈ items := by
  have hno : ¬ ∃ current ∈ chat.queueRevision, revision < current := by
    push Not
    exact hrevision
  have hno' : ¬ ∃ observed ∈ chat.queueDesynced, revision < observed := by
    push Not
    exact hobserved
  have hwaiting : (items.filter fun item => item.clientRequestId ∉ started.map Item.clientRequestId) = items := by
    refine filter_eq_self.mpr fun item hitem => decide_eq_true fun hmem => ?_
    obtain ⟨i, hi, heq⟩ := mem_map.mp hmem
    exact hstarted i hi item hitem heq.symm
  unfold Chat.applyQueueSnapshot
  rw [if_neg hno, if_neg hno']
  dsimp only
  rw [hwaiting]
  refine (show _ ↔ _ from mem_confirmed_promoteAll).trans ?_
  have hpromoted : ∀ id, id ∈ (Chat.sortedQueuedMessages (started.map (Row.mk · .queued))).map Row.clientRequestId ↔
      id ∈ started.map Item.clientRequestId := by
    intro id
    rw [((sortedQueuedMessages_perm _).map _).mem_iff, map_map]
    rfl
  rw [hpromoted, mem_confirmed]
  constructor
  · rintro ⟨⟨row, hrow, hstatus, rfl⟩, -⟩
    rcases mem_append.mp ((sortedQueuedMessages_perm _).mem_iff.mp hrow) with hrow | hrow
    · obtain ⟨item, hitem, rfl⟩ := mem_map.mp hrow
      exact hitem
    · exact absurd (of_decide_eq_true (mem_filter.mp hrow).2).1 hstatus
  · intro hitem
    refine ⟨⟨⟨item, .queued⟩, ?_, Status.noConfusion, rfl⟩, fun hmem => ?_⟩
    · exact (sortedQueuedMessages_perm _).mem_iff.mpr (mem_append_left _ (mem_map.mpr ⟨item, hitem, rfl⟩))
    · obtain ⟨i, hi, heq⟩ := mem_map.mp hmem
      exact hstarted i hi item hitem heq.symm

end Shown

/-! ### Announcements -/

section Announced
variable {chat : Chat} {item : Item} {id : String} {removed : Bool} {turnId : Option String}
variable {dequeued : Option Item}

/-- The chat after the acknowledgement of its own request. -/
def Chat.acknowledged (chat : Chat) (id : String) : Chat :=
  if chat.hasSending id then chat.updateQueuedMessageStatus id .queued else chat

/-- What the next `message_queued` does. -/
def Chat.withQueued (chat : Chat) (item : Item) : Chat :=
  let current := chat.clearOptimisticSend item.clientRequestId
  if current.hasRow item.clientRequestId then
    { current with
      rows := current.rows.map fun row =>
        if row.clientRequestId = item.clientRequestId then { row with item := item } else row }
  else { current with rows := current.rows ++ [⟨item, .queued⟩] }

theorem sameRevision_acknowledged : SameRevision chat (chat.acknowledged id) := by
  unfold Chat.acknowledged
  split_ifs <;> exact ⟨rfl, rfl⟩

theorem ShownOnce.acknowledged (h : ShownOnce chat) : ShownOnce (chat.acknowledged id) := by
  unfold Chat.acknowledged
  split_ifs
  · exact h.status
  · exact h

theorem hasSending_acknowledged : (chat.acknowledged id).hasSending id = false := by
  unfold Chat.acknowledged
  split_ifs with h
  · rw [Bool.eq_false_iff]
    intro hsending
    obtain ⟨row, hrow, hid, hstatus⟩ := hasSending_iff.mp hsending
    obtain ⟨old, -, rfl⟩ := mem_map.mp hrow
    by_cases hold : old.clientRequestId = id
    · rw [if_pos hold] at hstatus
      cases hstatus
    · rw [if_neg hold] at hid
      exact hold hid
  · exact Bool.not_eq_true _ ▸ h

theorem mem_confirmed_acknowledged (hid : item.clientRequestId ≠ id) :
    item ∈ (chat.acknowledged id).confirmed ↔ item ∈ chat.confirmed := by
  unfold Chat.acknowledged
  split_ifs
  · unfold Chat.updateQueuedMessageStatus
    simp only [mem_confirmed, mem_map]
    constructor
    · rintro ⟨_, ⟨row, hrow, rfl⟩, hstatus, rfl⟩
      split_ifs at hstatus hid with hrowId
      · exact absurd hrowId hid
      · exact ⟨row, hrow, hstatus, by rw [if_neg hrowId]⟩
    · rintro ⟨row, hrow, hstatus, rfl⟩
      exact ⟨row, ⟨row, hrow, if_neg hid⟩, hstatus, rfl⟩
  · exact Iff.rfl

theorem ShownOnce.withQueued (h : ShownOnce chat) : ShownOnce (chat.withQueued item) := by
  unfold Chat.withQueued
  dsimp only
  have hcleared : ShownOnce (chat.clearOptimisticSend item.clientRequestId) := h.clear
  split_ifs with hrow
  · refine hcleared.congr ?_ rfl
    rw [map_map]
    refine map_congr_left fun row _ => ?_
    rw [Function.comp_apply]
    split_ifs with hid
    · exact hid.symm
    · rfl
  · exact @ShownOnce.row _ hcleared ⟨item, .queued⟩ (Bool.not_eq_true _ ▸ hrow) hasMessage_clear

/-- **A queued message** has a confirmed row, and no other row changes. -/
theorem mem_confirmed_withQueued {queued : Item}
    (hsending : chat.hasSending queued.clientRequestId = false) : item ∈ (chat.withQueued queued).confirmed ↔
      item = queued ∨ item ∈ chat.confirmed ∧ item.clientRequestId ≠ queued.clientRequestId := by
  have hrows : (chat.clearOptimisticSend queued.clientRequestId).rows = chat.rows := by
    unfold Chat.clearOptimisticSend
    rw [if_neg (by rw [hsending]; exact Bool.false_ne_true)]
  unfold Chat.withQueued
  dsimp only
  split_ifs with hrow
  · obtain ⟨row, hrowMem, hrowId⟩ := mem_map.mp (hasRow_iff.mp hrow)
    rw [hrows] at hrowMem
    have hstatus : row.status ≠ .sending := fun hstatus => by
      rw [hasSending_iff.mpr ⟨row, hrowMem, hrowId, hstatus⟩] at hsending
      cases hsending
    rw [mem_confirmed, mem_confirmed]
    rw [hrows]
    constructor
    · rintro ⟨_, hmem, hs, rfl⟩
      obtain ⟨old, hold, rfl⟩ := mem_map.mp hmem
      split_ifs at hs ⊢ with hid
      · exact Or.inl rfl
      · exact Or.inr ⟨⟨old, hold, hs, rfl⟩, hid⟩
    · rintro (rfl | ⟨⟨old, hold, hs, rfl⟩, hid⟩)
      · refine ⟨_, mem_map.mpr ⟨row, hrowMem, rfl⟩, ?_, ?_⟩
        · rw [if_pos hrowId]
          exact hstatus
        · rw [if_pos hrowId]
      · have hne : old.clientRequestId ≠ queued.clientRequestId := hid
        refine ⟨_, mem_map.mpr ⟨old, hold, rfl⟩, ?_, ?_⟩
        · rw [if_neg hne]
          exact hs
        · rw [if_neg hne]
  · have hne : ∀ row ∈ chat.rows, row.clientRequestId ≠ queued.clientRequestId := fun row hmem hid =>
      hrow (hasRow_iff.mpr (mem_map.mpr ⟨row, hrows ▸ hmem, hid⟩))
    rw [mem_confirmed, mem_confirmed]
    rw [hrows]
    constructor
    · rintro ⟨row, hmem, hs, rfl⟩
      rcases mem_append.mp hmem with hmem | hmem
      · exact Or.inr ⟨⟨row, hmem, hs, rfl⟩, hne row hmem⟩
      · rw [mem_singleton.mp hmem]
        exact Or.inl rfl
    · rintro (rfl | ⟨⟨row, hmem, hs, rfl⟩, -⟩)
      · exact ⟨_, mem_append_right _ (mem_singleton_self _), Status.noConfusion, rfl⟩
      · exact ⟨row, mem_append_left _ hmem, hs, rfl⟩

/-- What the next `message_dequeued` does. -/
def Chat.withDequeued (chat : Chat) (id : String) (item : Option Item) (turnId : Option String) (steer : Bool) :
    Chat :=
  match item <|> (chat.findRow id).map Row.item with
  | some item => chat.promoteQueuedMessage item turnId (steer && turnId.isSome)
  | none => chat

theorem findRow_eq_none (h : chat.findRow id = none) : chat.hasRow id = false := by
  unfold Chat.findRow at h
  unfold Chat.hasRow
  rw [find?_eq_none] at h
  rw [any_eq_false]
  exact h

theorem findRow_eq_some {row : Row} (h : chat.findRow id = some row) :
    row ∈ chat.rows ∧ row.clientRequestId = id := by
  have hid := find?_some h
  exact ⟨mem_of_find?_eq_some h, of_decide_eq_true hid⟩

theorem not_confirmed_of_hasRow (h : chat.hasRow id = false) (hitem : item ∈ chat.confirmed) :
    item.clientRequestId ≠ id := by
  rintro rfl
  obtain ⟨row, hrow, -, rfl⟩ := mem_confirmed.mp hitem
  have hthere : chat.hasRow row.item.clientRequestId = true := hasRow_iff.mpr (mem_map.mpr ⟨row, hrow, rfl⟩)
  rw [hthere] at h
  cases h

theorem ShownOnce.withDequeued (h : ShownOnce chat) {steer : Bool} :
    ShownOnce (chat.withDequeued id dequeued turnId steer) := by
  unfold Chat.withDequeued
  split
  · exact h.promote
  · exact h

theorem mem_confirmed_withDequeued {steer : Bool} (hid : ∀ i ∈ dequeued, i.clientRequestId = id) :
    item ∈ (chat.withDequeued id dequeued turnId steer).confirmed ↔
      item ∈ chat.confirmed ∧ item.clientRequestId ≠ id := by
  unfold Chat.withDequeued
  cases dequeued with
  | some i =>
    refine mem_confirmed_promote.trans ?_
    rw [hid i rfl]
  | none =>
    cases hrow : chat.findRow id with
    | some row =>
      refine mem_confirmed_promote.trans ?_
      rw [show row.item.clientRequestId = id from (findRow_eq_some hrow).2]
    | none => exact (and_iff_left_of_imp (not_confirmed_of_hasRow (findRow_eq_none hrow))).symm

theorem ShownOnce.steered (h : ShownOnce chat) : ShownOnce (chat.messageSteered id turnId) := by
  unfold Chat.messageSteered
  split
  · exact h.promote
  · exact h

theorem mem_confirmed_steered :
    item ∈ (chat.messageSteered id turnId).confirmed ↔ item ∈ chat.confirmed ∧ item.clientRequestId ≠ id := by
  unfold Chat.messageSteered
  cases hrow : chat.findRow id with
  | some row =>
    refine mem_confirmed_promote.trans ?_
    rw [show row.item.clientRequestId = id from (findRow_eq_some hrow).2]
  | none => exact (and_iff_left_of_imp (not_confirmed_of_hasRow (findRow_eq_none hrow))).symm

/-- What `queue_remove_result` does to the rows. -/
def Chat.withoutRemoved (chat : Chat) (id : String) (removed : Bool) : Chat :=
  match removed, chat.findRow id with
  | false, some row => chat.promoteQueuedMessage row.item none false
  | _, _ => chat.removeQueuedMessageFromChat id

theorem ShownOnce.withoutRemoved (h : ShownOnce chat) : ShownOnce (chat.withoutRemoved id removed) := by
  unfold Chat.withoutRemoved
  split
  · exact h.promote
  · exact h.remove

theorem sameRevision_withoutRemoved : SameRevision chat (chat.withoutRemoved id removed) := by
  unfold Chat.withoutRemoved
  split
  · exact sameRevision_promote
  · exact sameRevision_remove

theorem mem_confirmed_withoutRemoved :
    item ∈ (chat.withoutRemoved id removed).confirmed ↔ item ∈ chat.confirmed ∧ item.clientRequestId ≠ id := by
  unfold Chat.withoutRemoved
  split
  · next row hrow =>
    refine mem_confirmed_promote.trans ?_
    rw [show row.item.clientRequestId = id from (findRow_eq_some hrow).2]
  · exact mem_confirmed_remove

/-- **A result that is newer than the recorded revision** leaves the chat desynced. -/
theorem queueRemoveResult_cases (chat : Chat) (revision : ℕ) (id : String) (removed : Bool) :
    ((∀ current ∈ chat.queueRevision, current < revision) ∧
      chat.queueRemoveResult revision id removed = (chat.withoutRemoved id removed).markQueueDesynced revision) ∨
    ∃ current, chat.queueRevision = some current ∧ revision ≤ current ∧
      chat.queueRemoveResult revision id removed = chat.withoutRemoved id removed := by
  by_cases h : ∀ current ∈ chat.queueRevision, current < revision
  · exact Or.inl ⟨h, if_pos h⟩
  · have hresult : chat.queueRemoveResult revision id removed = chat.withoutRemoved id removed := if_neg h
    push Not at h
    obtain ⟨current, hcurrent, hle⟩ := h
    exact Or.inr ⟨current, hcurrent, hle, hresult⟩

theorem ShownOnce.accepted (h : ShownOnce chat) : ShownOnce (chat.messageAccepted id) := by
  unfold Chat.messageAccepted
  split
  · split_ifs
    · exact h.promote
    · exact h
  · exact h

/-- An acceptance promotes only a row that is being sent. -/
theorem mem_confirmed_accepted (h : ShownOnce chat) :
    item ∈ (chat.messageAccepted id).confirmed ↔ item ∈ chat.confirmed := by
  unfold Chat.messageAccepted
  split
  · next row hrow =>
    split_ifs with hstatus
    · refine mem_confirmed_promote.trans (and_iff_left_of_imp ?_)
      obtain ⟨hmem, hid⟩ := findRow_eq_some hrow
      exact h.not_confirmed (hasSending_iff.mpr ⟨row, hmem, rfl, hstatus⟩) item
    · exact Iff.rfl
  · exact Iff.rfl

theorem mem_confirmed_user {clientRequestId : Option String} {content : String} {media : List String} :
    item ∈ (chat.appendExternalUserMessage clientRequestId turnId content media).confirmed ↔
      item ∈ chat.confirmed ∧ ∀ id ∈ clientRequestId, item.clientRequestId ≠ id := by
  have hrows : (chat.appendExternalUserMessage clientRequestId turnId content media).rows =
      (clientRequestId.elim chat chat.removeQueuedMessageFromChat).rows := by
    unfold Chat.appendExternalUserMessage
    dsimp only
    split
    · rfl
    · split_ifs <;> rfl
  rw [confirmed_congr hrows]
  cases clientRequestId with
  | none => exact (and_iff_left nofun).symm
  | some id =>
    refine mem_confirmed_remove.trans (and_congr_right fun _ => ?_)
    exact ⟨fun h id' hid => by cases hid; exact h, fun h => h id rfl⟩

theorem mem_confirmed_optimistic {sent : Item} {queueIfBusy busy : Bool} :
    item ∈ (chat.queueOptimisticUserMessage sent queueIfBusy busy).confirmed ↔ item ∈ chat.confirmed := by
  unfold Chat.queueOptimisticUserMessage
  split_ifs
  · exact Iff.rfl
  · rw [mem_confirmed, mem_confirmed]
    constructor
    · rintro ⟨row, hmem, hs, rfl⟩
      rcases mem_append.mp hmem with hmem | hmem
      · exact ⟨row, hmem, hs, rfl⟩
      · rw [mem_singleton.mp hmem] at hs
        exact absurd rfl hs
    · rintro ⟨row, hmem, hs, rfl⟩
      exact ⟨row, mem_append_left _ hmem, hs, rfl⟩
  · exact Iff.rfl
  · exact Iff.rfl

end Announced

end Memmy.Desktop
