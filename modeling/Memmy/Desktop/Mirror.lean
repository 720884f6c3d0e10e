import Memmy.Desktop.Rows
import Memmy.Lib.Run

/-! # The rows and the agent's queue

A revision tells an increment or a snapshot that is too old from one that is not; a steer and a user message carry
none, so that what they report is forgotten when an older snapshot is applied.

* `Mirrors`: the rows are the announced queue.
* `Heeded`: what an event may not come upon.
* `inv_increment`, `inv_step`: what an announcement, and any step, does to the rows.
* `queue_mirrored`: the rows in every run whose steps heed this, and the revisions in every run. -/

namespace Memmy.Desktop

open Lib.Run List Option State SameRevision

/-! ### The property -/

/-- A steer, start or removal of the message was reported, later than the revision. -/
def State.Reported (s : State) (clientRequestId : String) (revision : ℕ) : Prop :=
  ∃ later, (clientRequestId, later) ∈ s.reported ∧ revision < later

/-- **The rows are the announced queue** after the recorded revision, less what was reported. -/
def Mirrors (s : State) : Prop :=
  ∀ revision, s.chat.queueRevision = some revision → s.chat.queueDesynced = none → ∀ item,
    item ∈ s.chat.confirmed ↔ item ∈ s.queueAt revision ∧ ¬ s.Reported item.clientRequestId revision

/-- The recorded revision does not decrease. -/
def RevisionKept (s : State) (event : Event) : Prop :=
  ∀ revision, s.chat.queueRevision = some revision →
    ∃ next, (step s event).chat.queueRevision = some next ∧ revision ≤ next

/-- The announcement of a mutation after the next one that is expected. -/
def Gap (s : State) : Event → ℕ → Prop
  | .announced index, observed => observed = index + 1 ∧ (∀ current ∈ s.chat.queueRevision, current + 1 < observed) ∧
      ∃ mutation, s.mutations[index]? = some mutation ∧ ∀ queuedAt, mutation ≠ .reordered queuedAt
  | _, _ => False

/-- **A gap leaves the chat desynced**, and it stays so until a snapshot as new is applied. -/
structure GapKept (s : State) (event : Event) : Prop where
  gap : ∀ observed, Gap s event observed → ∃ o ∈ (step s event).chat.queueDesynced, observed ≤ o
  kept : ∀ observed ∈ s.chat.queueDesynced, (∃ o ∈ (step s event).chat.queueDesynced, observed ≤ o) ∨
    ∃ revision started, event = .snapshot revision started ∧ observed ≤ revision ∧
      (step s event).chat.queueRevision = some revision

/-! ### The condition -/

/-- The chat has recorded the revision and is not desynced. -/
def Synced (s : State) (revision : ℕ) : Prop :=
  s.chat.queueRevision = some revision ∧ s.chat.queueDesynced = none

def NotShown (s : State) (clientRequestId : String) : Prop :=
  ∀ item ∈ s.chat.confirmed, item.clientRequestId ≠ clientRequestId

/-- **What an event may not come upon**: what is put into the rows was not reported to have left the queue, a row
that is still being sent is not confirmed by an old announcement, a late report is not about a message that is
queued again, and a user message that does not pass has no row. -/
def Heeded (s : State) : Event → Prop
  | .announced index => ∀ item, s.mutations[index]? = some (.queued item) → ∀ revision, Synced s revision →
      (index = revision → ¬ s.Reported item.clientRequestId (index + 1)) ∧
        (index < revision → s.chat.hasSending item.clientRequestId = false)
  | .snapshot revision _ => (∀ current ∈ s.chat.queueRevision, current ≤ revision) →
      (∀ observed ∈ s.chat.queueDesynced, observed ≤ revision) →
      ∀ item ∈ s.queueAt revision, ¬ s.Reported item.clientRequestId revision
  | .steered revision clientRequestId _ => ∀ current, Synced s current → revision ≤ current →
      NotShown s clientRequestId
  | .removeResult revision clientRequestId _ => ∀ current, Synced s current → revision ≤ current →
      NotShown s clientRequestId
  | .user revision clientRequestId _ _ _ passes => ∀ current, Synced s current →
      (passes = true ↔ revision ≤ current) → ∀ id ∈ clientRequestId, NotShown s id
  | _ => True

/-! ### The agent's queue -/

variable {queue : List Item} {clientRequestId : String}

theorem isQueued_iff :
    isQueued queue clientRequestId = true ↔ clientRequestId ∈ queue.map Item.clientRequestId := by
  unfold isQueued
  simp [List.any_eq_true]

theorem isQueued_eq_false :
    isQueued queue clientRequestId = false ↔ ∀ item ∈ queue, item.clientRequestId ≠ clientRequestId := by
  unfold isQueued
  simp

section Agent
variable {s : State} {mutation : Mutation}

theorem queueAt_append {chat : Chat} {reported : List (String × ℕ)} {more : List Mutation} {revision : ℕ}
    (h : revision ≤ s.mutations.length) :
    queueAt ⟨s.mutations ++ more, chat, reported⟩ revision = s.queueAt revision := by
  unfold queueAt
  rw [take_append_of_le_length h]

theorem queueAt_succ {index : ℕ} (h : s.mutations[index]? = some mutation) :
    s.queueAt (index + 1) = mutate (s.queueAt index) mutation := by
  unfold queueAt
  rw [take_add_one, h, toList_some, foldl_append]
  rfl

/-- **The mutations are those of an agent**: each is valid for the queue that it finds. -/
def Consistent (s : State) : Prop :=
  ∀ index (mutation : Mutation), s.mutations[index]? = some mutation → mutation.valid (s.queueAt index) = true

theorem nodup_mutate (hvalid : mutation.valid queue = true)
    (h : (queue.map Item.clientRequestId).Nodup) : ((mutate queue mutation).map Item.clientRequestId).Nodup := by
  cases mutation with
  | queued item =>
    unfold mutate
    rw [map_append, nodup_append]
    refine ⟨h, nodup_singleton _, ?_⟩
    rintro a ha b hb rfl
    rw [map_singleton, mem_singleton] at hb
    rw [hb, ← isQueued_iff] at ha
    change (!isQueued queue item.clientRequestId) = true at hvalid
    rw [ha] at hvalid
    cases hvalid
  | dequeued id item turnId steer => exact h.sublist (filter_sublist.map _)
  | removed id => exact h.sublist (filter_sublist.map _)
  | reordered queuedAt =>
    unfold mutate
    rw [List.map_map]
    exact h

theorem Consistent.nodup (h : Consistent s) : ∀ revision, ((s.queueAt revision).map Item.clientRequestId).Nodup
  | 0 => nodup_nil
  | revision + 1 => by
    cases hget : s.mutations[revision]? with
    | none =>
      have hle := getElem?_eq_none_iff.mp hget
      have hsame : s.queueAt (revision + 1) = s.queueAt revision := by
        unfold queueAt
        rw [take_of_length_le hle, take_of_length_le (Nat.le_succ_of_le hle)]
      rw [hsame]
      exact h.nodup revision
    | some mutation =>
      rw [queueAt_succ hget]
      exact nodup_mutate (h revision mutation hget) (h.nodup revision)

end Agent

/-! ### The invariant -/

structure Inv (s : State) : Prop where
  consistent : Consistent s
  recorded : ∀ revision, s.chat.queueRevision = some revision → revision ≤ s.mutations.length
  /-- What was reported is so. -/
  truthful : ∀ id revision, (id, revision) ∈ s.reported → revision ≤ s.mutations.length ∧
    isQueued (s.queueAt revision) id = false
  shown : ShownOnce s.chat
  mirrors : Mirrors s

section Steps
variable {s : State} {id : String} {revision : ℕ} {messages : List Message} {n : ℕ}

theorem reported_report {chat : Chat} {ids : List String} :
    ({ s with chat := chat }.report n ids).Reported id revision ↔
      (id ∈ ids ∧ revision < n) ∨ s.Reported id revision := by
  unfold State.Reported report
  simp only [mem_append, List.mem_map]
  constructor
  · rintro ⟨later, ⟨id', hid', heq⟩ | hold, hlt⟩
    · obtain ⟨rfl, rfl⟩ := Prod.mk.inj heq
      exact Or.inl ⟨hid', hlt⟩
    · exact Or.inr ⟨later, hold, hlt⟩
  · rintro (⟨hid, hlt⟩ | ⟨later, hold, hlt⟩)
    · exact ⟨n, Or.inl ⟨id, hid, rfl⟩, hlt⟩
    · exact ⟨later, Or.inr hold, hlt⟩

/-- **What a step leaves to show**, if the mutations stay and what is reported is so. -/
theorem Inv.report (h : Inv s) {chat : Chat} {ids : List String} (hn : n ≤ s.mutations.length)
    (htrue : ∀ id ∈ ids, isQueued (s.queueAt n) id = false)
    (hrecorded : ∀ revision, chat.queueRevision = some revision → revision ≤ s.mutations.length)
    (hshown : ShownOnce chat) (hmirrors : Mirrors ({ s with chat := chat }.report n ids)) :
    Inv ({ s with chat := chat }.report n ids) where
  consistent := h.consistent
  recorded := hrecorded
  truthful := by
    intro id revision hmem
    rcases mem_append.mp hmem with hmem | hmem
    · obtain ⟨id', hid', heq⟩ := mem_map.mp hmem
      obtain ⟨rfl, rfl⟩ := Prod.mk.inj heq
      exact ⟨hn, htrue id' hid'⟩
    · exact h.truthful id revision hmem
  shown := hshown
  mirrors := hmirrors

/-- A step that keeps the revision, and takes out what is reported to have left since. -/
theorem Inv.mirrors_report (h : Inv s) {chat : Chat} {ids : List String} (hsame : SameRevision s.chat chat)
    (hgone : ∀ revision, Synced s revision → ∀ item, item ∈ chat.confirmed ↔
      item ∈ s.chat.confirmed ∧ ¬ (item.clientRequestId ∈ ids ∧ revision < n)) :
    Mirrors ({ s with chat := chat }.report n ids) := by
  intro revision hrevision hdesynced item
  have hrevision : s.chat.queueRevision = some revision := hsame.1.symm.trans hrevision
  have hdesynced : s.chat.queueDesynced = none := hsame.2.symm.trans hdesynced
  refine (hgone revision ⟨hrevision, hdesynced⟩ item).trans ?_
  rw [reported_report, not_or, h.mirrors revision hrevision hdesynced item, and_assoc, @and_comm (¬ s.Reported _ _)]
  rfl

theorem mirrors_desynced {o : ℕ} (h : s.chat.queueDesynced = some o) : Mirrors s := by
  intro revision _ hdesynced
  rw [h] at hdesynced
  cases hdesynced

/-- A step that changes only the chat. -/
theorem Inv.chat (h : Inv s) {chat : Chat} (hsame : SameRevision s.chat chat) (hshown : ShownOnce chat)
    (hconfirmed : ∀ item, item ∈ chat.confirmed ↔ item ∈ s.chat.confirmed) : Inv { s with chat := chat } := by
  have hreport : Inv ({ s with chat := chat }.report 0 []) := by
    refine h.report (Nat.zero_le _) (nofun)
      (fun revision hrevision => h.recorded revision (hsame.1.symm.trans hrevision)) hshown ?_
    refine h.mirrors_report hsame fun revision _ item => (hconfirmed item).trans ?_
    exact (and_iff_left fun hid => absurd hid.1 not_mem_nil).symm
  exact hreport

theorem Inv.reported_succ (h : Inv s) {item : Item} (hitem : item ∈ s.queueAt (revision + 1)) :
    s.Reported item.clientRequestId revision ↔ s.Reported item.clientRequestId (revision + 1) := by
  constructor
  · rintro ⟨later, hmem, hlt⟩
    rcases Nat.lt_or_eq_of_le hlt with hlt | rfl
    · exact ⟨later, hmem, hlt⟩
    · exact absurd rfl (isQueued_eq_false.mp (h.truthful _ _ hmem).2 item hitem)
  · rintro ⟨later, hmem, hlt⟩
    exact ⟨later, hmem, Nat.lt_of_succ_lt hlt⟩

theorem inv_mutated (h : Inv s)
    (hvalid : mutation.valid (s.queueAt s.mutations.length) = true) :
    Inv { s with mutations := s.mutations ++ [mutation] } := by
  have hqueue : ∀ revision ≤ s.mutations.length,
      queueAt { s with mutations := s.mutations ++ [mutation] } revision = s.queueAt revision :=
    fun revision hle => queueAt_append hle
  refine ⟨fun index other hget => ?_, fun revision hr => ?_, fun id revision hmem => ?_, h.shown, ?_⟩
  · have hlt : index < (s.mutations ++ [mutation]).length := (List.getElem?_eq_some_iff.mp hget).1
    rw [length_append, length_singleton] at hlt
    rw [hqueue index (Nat.le_of_lt_succ hlt)]
    rcases Nat.lt_succ_iff_lt_or_eq.mp hlt with hlt | rfl
    · rw [getElem?_append_left hlt] at hget
      exact h.consistent index other hget
    · rw [getElem?_concat_length] at hget
      rw [← some.inj hget]
      exact hvalid
  · rw [length_append]
    exact Nat.le_add_right_of_le (h.recorded revision hr)
  · obtain ⟨hle, hqueued⟩ := h.truthful id revision hmem
    rw [hqueue revision hle, length_append]
    exact ⟨Nat.le_add_right_of_le hle, hqueued⟩
  · intro revision hr hdesynced item
    rw [hqueue revision (h.recorded revision hr)]
    exact h.mirrors revision hr hdesynced item

/-- **An announcement is the next**: the rows go from one revision to the next as the queue does. -/
theorem Inv.mirrors_next (h : Inv s) {chat : Chat} {ids : List String}
    (hget : s.mutations[revision]? = some mutation)
    (hnew : chat.queueRevision = some (revision + 1))
    (hrows : ∀ item, item ∈ chat.confirmed ↔ item ∈ mutate (s.queueAt revision) mutation ∧
      (item ∈ s.queueAt revision → ¬ s.Reported item.clientRequestId revision))
    (hfresh : ∀ item ∈ mutate (s.queueAt revision) mutation, item ∉ s.queueAt revision →
      ¬ s.Reported item.clientRequestId (revision + 1)) :
    Mirrors ({ s with chat := chat }.report (revision + 1) ids) := by
  intro next hnext _ item
  obtain rfl : next = revision + 1 := some.inj (hnext.symm.trans hnew)
  refine (hrows item).trans ?_
  rw [reported_report]
  have hqueue : ({ s with chat := chat }.report (revision + 1) ids).queueAt (revision + 1) =
      mutate (s.queueAt revision) mutation := queueAt_succ hget
  rw [hqueue]
  refine and_congr_right fun hitem => ?_
  have hsucc := h.reported_succ (queueAt_succ hget ▸ hitem)
  constructor
  · rintro hold (⟨-, hlt⟩ | hreported)
    · exact lt_irrefl _ hlt
    · by_cases hmem : item ∈ s.queueAt revision
      · exact hold hmem (hsucc.mpr hreported)
      · exact hfresh item hitem hmem hreported
  · intro hno _ hreported
    exact hno (Or.inr (hsucc.mp hreported))

theorem SameRevision.recorded {chat : Chat} (hsame : SameRevision s.chat chat) (h : Inv s)
    (hr : chat.queueRevision = some revision) : revision ≤ s.mutations.length :=
  h.recorded revision (hsame.1.symm.trans hr)

theorem SameRevision.desync {a b : Chat} (hsame : SameRevision a b) (revision : ℕ) :
    (b.markQueueDesynced revision).queueRevision = a.queueRevision ∧
      ∃ o, (b.markQueueDesynced revision).queueDesynced = some o ∧ revision ≤ o ∧
        ∀ observed ∈ a.queueDesynced, observed ≤ o := by
  obtain ⟨o, ho, hle, hkept⟩ := markQueueDesynced_observed b revision
  refine ⟨(markQueueDesynced_queueRevision revision).trans hsame.1, o, ho, hle, fun observed hmem => ?_⟩
  rw [← hsame.2] at hmem
  exact hkept observed hmem

theorem ShownOnce.desync {chat : Chat} (h : ShownOnce chat) (revision : ℕ) :
    ShownOnce (chat.markQueueDesynced revision) :=
  h.congr (by rw [markQueueDesynced_rows]) (by rw [markQueueDesynced_messages])

/-- **An increment is announced**: what it does to the rows if it is the next, and what it may not do otherwise. -/
theorem inv_increment (h : Inv s) {index : ℕ} {mutation : Mutation} {base : Chat} {apply : Chat → Chat}
    {ids : List String} (hget : s.mutations[index]? = some mutation) (hsame : SameRevision s.chat base)
    (hbase : ShownOnce base) (happly : ShownOnce (apply base))
    (htrue : ∀ id ∈ ids, isQueued (s.queueAt (index + 1)) id = false)
    (hstale : ∀ revision, Synced s revision → index < revision → ∀ item,
      item ∈ base.confirmed ↔ item ∈ s.chat.confirmed)
    (hrows : Synced s index → ∀ item, item ∈ (apply base).confirmed ↔
      item ∈ mutate (s.queueAt index) mutation ∧
        (item ∈ s.queueAt index → ¬ s.Reported item.clientRequestId index))
    (hfresh : Synced s index → ∀ item ∈ mutate (s.queueAt index) mutation, item ∉ s.queueAt index →
      ¬ s.Reported item.clientRequestId (index + 1)) :
    Inv ({ s with chat := base.applyQueueIncrement (index + 1) apply }.report (index + 1) ids) := by
  have hlt : index < s.mutations.length := (List.getElem?_eq_some_iff.mp hget).1
  rcases applyQueueIncrement_cases base (index + 1) apply with ⟨-, heq⟩ | ⟨current, hcurrent, hold, hle, heq⟩ |
    ⟨current, hcurrent, hnext, hdesynced, heq⟩
  · obtain ⟨hrevision, o, ho, -, -⟩ := hsame.desync (index + 1)
    rw [heq]
    refine h.report hlt htrue (fun revision hr => h.recorded revision (hrevision ▸ hr)) (hbase.desync _) ?_
    exact mirrors_desynced (o := o) ho
  · rw [heq]
    refine h.report hlt htrue (fun revision hr => hsame.recorded h hr) hbase ?_
    refine h.mirrors_report hsame fun revision hsynced item => ?_
    obtain rfl : current = revision := some.inj (hcurrent.symm.trans (hsame.1.trans hsynced.1))
    have hlt : index < current := by
      rcases hold with hold | ⟨o, ho⟩
      · exact hold
      · rw [hsame.2, hsynced.2] at ho
        cases ho
    refine (hstale current hsynced hlt item).trans (and_iff_left ?_).symm
    rintro ⟨-, hafter⟩
    omega
  · obtain rfl : index = current := Nat.succ.inj hnext
    have hsynced : Synced s index := ⟨hsame.1.symm.trans hcurrent, hsame.2.symm.trans hdesynced⟩
    rw [heq]
    refine h.report hlt htrue (fun revision hr => ?_) ⟨happly.rows, happly.messages, happly.apart⟩ ?_
    · rw [← some.inj hr]
      exact hlt
    · exact h.mirrors_next hget rfl (hrows hsynced) (hfresh hsynced)

theorem not_queued_filter :
    isQueued (queue.filter fun item => item.clientRequestId ≠ id) id = false :=
  isQueued_eq_false.mpr fun _ hitem => of_decide_eq_true (mem_filter.mp hitem).2

section
variable (h : Inv s)
include h

theorem Inv.rows_left {index : ℕ} {chat : Chat} (hsynced : Synced s index)
    (hchat : ∀ item, item ∈ chat.confirmed ↔ item ∈ s.chat.confirmed ∧ item.clientRequestId ≠ id) (item : Item) :
    item ∈ chat.confirmed ↔ item ∈ (s.queueAt index).filter (fun item => item.clientRequestId ≠ id) ∧
      (item ∈ s.queueAt index → ¬ s.Reported item.clientRequestId index) := by
  rw [hchat item, h.mirrors index hsynced.1 hsynced.2 item, mem_filter, decide_eq_true_eq]
  constructor
  · rintro ⟨⟨hitem, hno⟩, hid⟩
    exact ⟨⟨hitem, hid⟩, fun _ => hno⟩
  · rintro ⟨⟨hitem, hid⟩, hno⟩
    exact ⟨⟨hitem, hno hitem⟩, hid⟩

theorem inv_announced {index : ℕ} (hget : s.mutations[index]? = some mutation)
    (hp : Heeded s (.announced index)) :
    Inv ({ s with chat := s.chat.announced (index + 1) mutation }.report (index + 1) mutation.reports) := by
  have hvalid := h.consistent index mutation hget
  have hqueue := queueAt_succ hget
  cases mutation with
  | queued item =>
    have hp := hp item hget
    have hnot : ∀ other ∈ s.queueAt index, other.clientRequestId ≠ item.clientRequestId := by
      refine isQueued_eq_false.mp ?_
      change (!isQueued (s.queueAt index) item.clientRequestId) = true at hvalid
      rwa [Bool.not_eq_true'] at hvalid
    refine @inv_increment s h index _ (s.chat.acknowledged item.clientRequestId) (Chat.withQueued · item) [] hget
      sameRevision_acknowledged h.shown.acknowledged h.shown.acknowledged.withQueued
      (nofun) ?_ ?_ ?_
    · intro revision hsynced hlt other
      unfold Chat.acknowledged
      rw [if_neg (by rw [(hp revision hsynced).2 hlt]; exact Bool.false_ne_true)]
    · intro hsynced other
      refine (mem_confirmed_withQueued hasSending_acknowledged).trans ?_
      change _ ↔ other ∈ s.queueAt index ++ [item] ∧ _
      rw [mem_append, mem_singleton]
      have hmirrors := h.mirrors index hsynced.1 hsynced.2 other
      constructor
      · rintro (rfl | ⟨hother, hid⟩)
        · exact ⟨Or.inr rfl, fun hmem => absurd rfl (hnot other hmem)⟩
        · obtain ⟨hmem, hno⟩ := hmirrors.mp ((mem_confirmed_acknowledged hid).mp hother)
          exact ⟨Or.inl hmem, fun _ => hno⟩
      · rintro ⟨hmem | rfl, hno⟩
        · have hid := hnot other hmem
          exact Or.inr ⟨(mem_confirmed_acknowledged hid).mpr (hmirrors.mpr ⟨hmem, hno hmem⟩), hid⟩
        · exact Or.inl rfl
    · intro hsynced other hmem hno
      obtain rfl : other = item := by
        rcases mem_append.mp hmem with hmem | hmem
        · exact absurd hmem hno
        · exact mem_singleton.mp hmem
      exact (hp index hsynced).1 rfl
  | dequeued id item turnId steer =>
    have hid : ∀ i ∈ item, i.clientRequestId = id := by
      intro i hi
      obtain rfl : item = some i := hi
      exact of_decide_eq_true (Bool.and_eq_true_iff.mp hvalid).2
    refine @inv_increment s h index _ s.chat (fun current => current.withDequeued id item turnId steer) [id] hget
      ⟨rfl, rfl⟩ h.shown h.shown.withDequeued ?_ (fun _ _ _ _ => Iff.rfl) ?_ ?_
    · intro id' hid'
      rw [mem_singleton.mp hid', hqueue]
      exact not_queued_filter
    · exact fun hsynced => h.rows_left hsynced fun item => mem_confirmed_withDequeued hid
    · exact fun _ other hmem hno => absurd (mem_of_mem_filter hmem) hno
  | removed id =>
    refine @inv_increment s h index _ s.chat (fun current => current.removeQueuedMessageFromChat id) [id] hget
      ⟨rfl, rfl⟩ h.shown h.shown.remove ?_ (fun _ _ _ _ => Iff.rfl) ?_ ?_
    · intro id' hid'
      rw [mem_singleton.mp hid', hqueue]
      exact not_queued_filter
    · exact fun hsynced => h.rows_left hsynced fun item => mem_confirmed_remove
    · exact fun _ other hmem hno => absurd (mem_of_mem_filter hmem) hno
  | reordered queuedAt =>
    have hlt : index < s.mutations.length := (List.getElem?_eq_some_iff.mp hget).1
    refine h.report hlt (nofun) h.recorded h.shown ?_
    refine h.mirrors_report ⟨rfl, rfl⟩ fun _ _ item => (and_iff_left fun hid => ?_).symm
    exact absurd hid.1 not_mem_nil

theorem inv_snapshot {started : List Item} (hpossible : Possible s (.snapshot revision started))
    (hp : Heeded s (.snapshot revision started)) : Inv (s.perform (.snapshot revision started)) := by
  obtain ⟨hle, hstarted⟩ := hpossible
  have htrue : ∀ id ∈ started.map Item.clientRequestId, isQueued (s.queueAt revision) id = false := by
    intro id hid
    obtain ⟨item, hitem, rfl⟩ := mem_map.mp hid
    exact hstarted item hitem
  have hshown : ShownOnce (s.chat.applyQueueSnapshot revision (s.queueAt revision) started) :=
    h.shown.snapshot (h.consistent.nodup revision)
  rcases applyQueueSnapshot_cases s.chat revision (s.queueAt revision) started with ⟨hold, heq⟩ |
    ⟨hrevision, hobserved, hnew, hsynced⟩
  · refine h.report hle htrue ?_ hshown ?_
    · rw [heq]
      exact h.recorded
    · rw [heq]
      refine h.mirrors_report ⟨rfl, rfl⟩ fun current hcurrent item => (and_iff_left ?_).symm
      rintro ⟨-, hlt⟩
      rcases hold with ⟨c, hc, hlt'⟩ | ⟨o, ho, -⟩
      · rw [hcurrent.1] at hc
        cases hc
        omega
      · rw [hcurrent.2] at ho
        cases ho
  · refine h.report hle htrue (fun current hc => ?_) hshown ?_
    · rw [hnew] at hc
      cases hc
      exact hle
    · intro current hcurrent _ item
      obtain rfl : revision = current := some.inj (hnew.symm.trans hcurrent)
      refine (mem_confirmed_snapshot hrevision hobserved fun i hi other hother =>
        isQueued_eq_false.mp (hstarted i hi) other hother).trans ?_
      rw [reported_report]
      refine (and_iff_left_of_imp ?_).symm
      rintro hitem (⟨-, hlt⟩ | hreported)
      · exact lt_irrefl _ hlt
      · exact hp hrevision hobserved item hitem hreported

/-- A report that takes out the rows of its message. -/
theorem Inv.mirrors_gone {chat : Chat} {ids : List String} (hsame : SameRevision s.chat chat)
    (hchat : ∀ item, item ∈ chat.confirmed ↔ item ∈ s.chat.confirmed ∧ item.clientRequestId ∉ ids)
    (hp : ∀ current, Synced s current → n ≤ current → ∀ id ∈ ids, NotShown s id) :
    Mirrors ({ s with chat := chat }.report n ids) := by
  refine h.mirrors_report hsame fun current hsynced item => (hchat item).trans ?_
  refine and_congr_right fun hitem => ?_
  by_cases hlt : current < n
  · rw [and_iff_left hlt]
  · refine iff_of_true (fun hid => ?_) fun hid => hlt hid.2
    exact hp current hsynced (Nat.le_of_not_lt hlt) _ hid item hitem rfl

theorem inv_steered {turnId : Option String}
    (hpossible : Possible s (.steered revision id turnId)) (hp : Heeded s (.steered revision id turnId)) :
    Inv (s.perform (.steered revision id turnId)) := by
  refine h.report hpossible.1 ?_ (fun _ hr => sameRevision_steered.recorded h hr) h.shown.steered ?_
  · intro id' hid
    rw [mem_singleton.mp hid]
    exact hpossible.2
  · refine h.mirrors_gone sameRevision_steered (fun item => ?_) fun current hsynced hle id' hid => ?_
    · rw [mem_singleton]
      exact mem_confirmed_steered
    · rw [mem_singleton.mp hid]
      exact hp current hsynced hle

theorem inv_removeResult {removed : Bool}
    (hpossible : Possible s (.removeResult revision id removed)) (hp : Heeded s (.removeResult revision id removed)) :
    Inv (s.perform (.removeResult revision id removed)) := by
  have htrue : ∀ id' ∈ [id], isQueued (s.queueAt revision) id' = false := by
    intro id' hid
    rw [mem_singleton.mp hid]
    exact hpossible.2
  unfold perform
  dsimp only
  rcases queueRemoveResult_cases s.chat revision id removed with ⟨-, heq⟩ | ⟨_, -, -, heq⟩
  · rw [heq]
    obtain ⟨hr, o, ho, -, -⟩ := (@sameRevision_withoutRemoved s.chat id removed).desync revision
    refine h.report hpossible.1 htrue (fun r hr' => h.recorded r (hr ▸ hr')) (h.shown.withoutRemoved.desync _) ?_
    exact mirrors_desynced (o := o) ho
  · rw [heq]
    refine h.report hpossible.1 htrue (fun _ hr => sameRevision_withoutRemoved.recorded h hr)
      h.shown.withoutRemoved ?_
    refine h.mirrors_gone sameRevision_withoutRemoved (fun item => ?_) fun current hsynced hle id' hid => ?_
    · rw [mem_singleton]
      exact mem_confirmed_withoutRemoved
    · rw [mem_singleton.mp hid]
      exact hp current hsynced hle

theorem inv_user {id turnId : Option String} {content : String} {media : List String}
    {passes : Bool} (hpossible : Possible s (.user revision id turnId content media passes))
    (hp : Heeded s (.user revision id turnId content media passes)) :
    Inv (s.perform (.user revision id turnId content media passes)) := by
  have htrue : ∀ id' ∈ id.toList, isQueued (s.queueAt revision) id' = false :=
    fun id' hid => hpossible.2 id' (mem_toList.mp hid)
  cases passes with
  | true =>
    refine h.report hpossible.1 htrue (fun _ hr => sameRevision_user.recorded h hr) h.shown.user ?_
    refine h.mirrors_gone sameRevision_user (fun item => ?_) fun current hsynced hle id' hid => ?_
    · refine mem_confirmed_user.trans (and_congr_right fun _ => ?_)
      rw [mem_toList]
      exact ⟨fun hall hid => hall _ hid rfl, fun hno id' hid heq => hno (heq ▸ hid)⟩
    · exact hp current hsynced (iff_of_true rfl hle) id' (mem_toList.mp hid)
  | false =>
    refine h.report hpossible.1 htrue h.recorded h.shown ?_
    refine h.mirrors_report ⟨rfl, rfl⟩ fun current hsynced item => (and_iff_left_of_imp ?_).symm
    rintro hitem ⟨hid, hlt⟩
    have hnot := hp current hsynced (iff_of_false Bool.false_ne_true (Nat.not_le_of_lt hlt)) _
      (mem_toList.mp hid)
    exact hnot item hitem rfl

/-- **Every step that heeds the condition keeps the invariant.** -/
theorem inv_step {event : Event} (hp : Heeded s event) : Inv (step s event) := by
  unfold step
  split_ifs with hpossible
  · cases event with
    | mutated mutation => exact inv_mutated h hpossible
    | announced index =>
      unfold perform
      dsimp only
      cases hget : s.mutations[index]? with
      | none => exact h
      | some mutation => exact inv_announced h hget hp
    | snapshot revision started => exact inv_snapshot h hpossible hp
    | steered revision id turnId => exact inv_steered h hpossible hp
    | removeResult revision id removed => exact inv_removeResult h hpossible hp
    | accepted id => exact h.chat sameRevision_accepted h.shown.accepted fun _ => mem_confirmed_accepted h.shown
    | user revision id turnId content media passes => exact inv_user h hpossible hp
    | send item queueIfBusy busy =>
      exact h.chat sameRevision_optimistic (h.shown.optimistic hpossible.1) fun _ => mem_confirmed_optimistic
    | sendRejected id => exact h.chat sameRevision_clear h.shown.clear fun _ => mem_confirmed_clear h.shown
    | removeStarted id =>
      refine h.chat sameRevision_status h.shown.status fun _ => mem_confirmed_status ?_ Status.noConfusion
      exact hasSending_eq_false hpossible
    | steerStarted id =>
      refine h.chat sameRevision_status h.shown.status fun _ => mem_confirmed_status ?_ Status.noConfusion
      exact hasSending_eq_false hpossible
    | controlFailed id =>
      exact h.chat sameRevision_status h.shown.status fun _ =>
        mem_confirmed_status hpossible Status.noConfusion
  · exact h

end

/-! ### Revisions and what is shown, in every step -/

theorem ShownOnce.announced {chat : Chat} (h : ShownOnce chat) (revision : ℕ) (mutation : Mutation) :
    ShownOnce (chat.announced revision mutation) := by
  have hincrement : ∀ (base : Chat) (apply : Chat → Chat), ShownOnce base → ShownOnce (apply base) →
      ShownOnce (base.applyQueueIncrement revision apply) := by
    intro base apply hbase happly
    rcases applyQueueIncrement_cases base revision apply with ⟨-, heq⟩ | ⟨-, -, -, -, heq⟩ | ⟨-, -, -, -, heq⟩
    · rw [heq]
      exact hbase.desync revision
    · rw [heq]
      exact hbase
    · rw [heq]
      exact ⟨happly.rows, happly.messages, happly.apart⟩
  cases mutation with
  | queued item => exact hincrement _ (Chat.withQueued · item) h.acknowledged h.acknowledged.withQueued
  | dequeued id item turnId steer => exact hincrement _ (Chat.withDequeued · id item turnId steer) h h.withDequeued
  | removed id => exact hincrement _ (Chat.removeQueuedMessageFromChat · id) h h.remove
  | reordered queuedAt => exact h

/-- What is kept of the agent and of what is shown, whatever comes. -/
structure Kept (s : State) : Prop where
  consistent : Consistent s
  shown : ShownOnce s.chat

theorem kept_step (h : Kept s) (event : Event) : Kept (step s event) := by
  unfold step
  split_ifs with hpossible
  · cases event with
    | mutated mutation =>
      refine ⟨fun index other hget => ?_, h.shown⟩
      have hlt : index < (s.mutations ++ [mutation]).length := (List.getElem?_eq_some_iff.mp hget).1
      rw [length_append, length_singleton] at hlt
      refine (congrArg other.valid (queueAt_append (Nat.le_of_lt_succ hlt))).trans ?_
      rcases Nat.lt_succ_iff_lt_or_eq.mp hlt with hlt | rfl
      · exact h.consistent index other (getElem?_append_left hlt ▸ hget)
      · rw [perform, getElem?_concat_length] at hget
        rw [← some.inj hget]
        exact hpossible
    | announced index =>
      unfold perform
      dsimp only
      cases s.mutations[index]? with
      | none => exact h
      | some mutation => exact ⟨h.consistent, h.shown.announced _ _⟩
    | snapshot revision started => exact ⟨h.consistent, h.shown.snapshot (h.consistent.nodup revision)⟩
    | steered revision id turnId => exact ⟨h.consistent, h.shown.steered⟩
    | removeResult revision id removed =>
      refine ⟨h.consistent, ?_⟩
      change ShownOnce (s.chat.queueRemoveResult revision id removed)
      rcases queueRemoveResult_cases s.chat revision id removed with ⟨-, heq⟩ | ⟨-, -, -, heq⟩
      · rw [heq]
        exact h.shown.withoutRemoved.desync revision
      · rw [heq]
        exact h.shown.withoutRemoved
    | accepted id => exact ⟨h.consistent, h.shown.accepted⟩
    | user revision id turnId content media passes =>
      cases passes with
      | true => exact ⟨h.consistent, h.shown.user⟩
      | false => exact ⟨h.consistent, h.shown⟩
    | send item queueIfBusy busy => exact ⟨h.consistent, h.shown.optimistic hpossible.1⟩
    | sendRejected id => exact ⟨h.consistent, h.shown.clear⟩
    | removeStarted id => exact ⟨h.consistent, h.shown.status⟩
    | steerStarted id => exact ⟨h.consistent, h.shown.status⟩
    | controlFailed id => exact ⟨h.consistent, h.shown.status⟩
  · exact h

/-- What an event other than a snapshot does to the revisions. -/
structure Moved (chat next : Chat) : Prop where
  revision : ∀ current, chat.queueRevision = some current → ∃ r, next.queueRevision = some r ∧ current ≤ r
  observed : ∀ observed ∈ chat.queueDesynced, ∃ o ∈ next.queueDesynced, observed ≤ o

theorem SameRevision.moved {chat next : Chat} (h : SameRevision chat next) : Moved chat next where
  revision := fun current hcurrent => ⟨current, h.1.trans hcurrent, le_rfl⟩
  observed := fun observed hobserved => ⟨observed, h.2.trans hobserved, le_rfl⟩

theorem SameRevision.moved_desync {chat base : Chat} (h : SameRevision chat base) (revision : ℕ) :
    Moved chat (base.markQueueDesynced revision) := by
  obtain ⟨hr, o, ho, -, hkept⟩ := h.desync revision
  exact ⟨fun current hcurrent => ⟨current, hr.trans hcurrent, le_rfl⟩, fun observed hmem => ⟨o, ho, hkept observed hmem⟩⟩

theorem moved_increment {chat base : Chat} (h : SameRevision chat base) (revision : ℕ) (apply : Chat → Chat) :
    Moved chat (base.applyQueueIncrement revision apply) := by
  rcases applyQueueIncrement_cases base revision apply with ⟨-, heq⟩ | ⟨-, -, -, -, heq⟩ |
    ⟨current, hcurrent, rfl, hdesynced, heq⟩
  · rw [heq]
    exact h.moved_desync revision
  · rw [heq]
    exact h.moved
  · rw [heq]
    refine ⟨fun r hr => ⟨current + 1, rfl, ?_⟩, fun observed hobserved => ?_⟩
    · obtain rfl : current = r := some.inj (hcurrent.symm.trans (h.1.trans hr))
      exact Nat.le_succ current
    · rw [← h.2, hdesynced] at hobserved
      cases hobserved

theorem moved_announced (chat : Chat) (revision : ℕ) (mutation : Mutation) :
    Moved chat (chat.announced revision mutation) := by
  cases mutation with
  | queued item => exact @moved_increment chat _ sameRevision_acknowledged revision (Chat.withQueued · item)
  | dequeued id item turnId steer =>
    exact @moved_increment chat chat ⟨rfl, rfl⟩ revision (Chat.withDequeued · id item turnId steer)
  | removed id => exact @moved_increment chat chat ⟨rfl, rfl⟩ revision (Chat.removeQueuedMessageFromChat · id)
  | reordered queuedAt => exact moved ⟨rfl, rfl⟩

theorem moved_step (s : State) (event : Event) : Moved s.chat (step s event).chat ∨
    ∃ revision started, event = .snapshot revision started ∧ (∀ current ∈ s.chat.queueRevision, current ≤ revision) ∧
      (∀ observed ∈ s.chat.queueDesynced, observed ≤ revision) ∧
      (step s event).chat.queueRevision = some revision := by
  unfold step
  split_ifs with hpossible
  · cases event with
    | mutated mutation => exact Or.inl (moved ⟨rfl, rfl⟩)
    | announced index =>
      unfold perform
      dsimp only
      cases s.mutations[index]? with
      | none => exact Or.inl (moved ⟨rfl, rfl⟩)
      | some mutation => exact Or.inl (moved_announced s.chat (index + 1) mutation)
    | snapshot revision started =>
      rcases applyQueueSnapshot_cases s.chat revision (s.queueAt revision) started with ⟨-, heq⟩ |
        ⟨hrevision, hobserved, hnew, -⟩
      · refine Or.inl ?_
        change Moved s.chat (s.chat.applyQueueSnapshot revision (s.queueAt revision) started)
        rw [heq]
        exact moved ⟨rfl, rfl⟩
      · exact Or.inr ⟨revision, started, rfl, hrevision, hobserved, hnew⟩
    | steered revision id turnId => exact Or.inl sameRevision_steered.moved
    | removeResult revision id removed =>
      refine Or.inl ?_
      change Moved s.chat (s.chat.queueRemoveResult revision id removed)
      rcases queueRemoveResult_cases s.chat revision id removed with ⟨-, heq⟩ | ⟨-, -, -, heq⟩
      · rw [heq]
        exact sameRevision_withoutRemoved.moved_desync revision
      · rw [heq]
        exact sameRevision_withoutRemoved.moved
    | accepted id => exact Or.inl sameRevision_accepted.moved
    | user revision id turnId content media passes =>
      cases passes with
      | true => exact Or.inl sameRevision_user.moved
      | false => exact Or.inl (moved ⟨rfl, rfl⟩)
    | send item queueIfBusy busy => exact Or.inl sameRevision_optimistic.moved
    | sendRejected id => exact Or.inl sameRevision_clear.moved
    | removeStarted id => exact Or.inl sameRevision_status.moved
    | steerStarted id => exact Or.inl sameRevision_status.moved
    | controlFailed id => exact Or.inl sameRevision_status.moved
  · exact Or.inl (moved ⟨rfl, rfl⟩)

/-- **The recorded revision never decreases.** -/
theorem revisionKept (s : State) (event : Event) : RevisionKept s event := by
  intro current hcurrent
  rcases moved_step s event with h | ⟨revision, -, -, hle, -, hnew⟩
  · exact h.revision current hcurrent
  · exact ⟨revision, hnew, hle current hcurrent⟩

theorem announced_gap (chat : Chat)
    (hgap : ∀ current ∈ chat.queueRevision, current + 1 < revision)
    (hmutation : ∀ queuedAt, mutation ≠ .reordered queuedAt) :
    ∃ o ∈ (chat.announced revision mutation).queueDesynced, revision ≤ o := by
  have hincrement : ∀ {base : Chat} {apply : Chat → Chat}, SameRevision chat base →
      ∃ o ∈ (base.applyQueueIncrement revision apply).queueDesynced, revision ≤ o := by
    intro base apply hsame
    rcases applyQueueIncrement_cases base revision apply with ⟨-, heq⟩ | ⟨current, hcurrent, -, hle, -⟩ |
      ⟨current, hcurrent, hnext, -, -⟩
    · obtain ⟨-, o, ho, hle, -⟩ := hsame.desync revision
      rw [heq]
      exact ⟨o, ho, hle⟩
    · have hlt := hgap current (hsame.1.symm.trans hcurrent)
      omega
    · have hlt := hgap current (hsame.1.symm.trans hcurrent)
      omega
  cases mutation with
  | queued item => exact hincrement sameRevision_acknowledged
  | dequeued id item turnId steer => exact hincrement ⟨rfl, rfl⟩
  | removed id => exact hincrement ⟨rfl, rfl⟩
  | reordered queuedAt => exact absurd rfl (hmutation queuedAt)

/-- **A gap is not forgotten.** -/
theorem gapKept (s : State) (event : Event) : GapKept s event where
  gap := by
    intro observed hgap
    cases event with
    | announced index =>
      obtain ⟨rfl, hcurrent, mutation, hget, hmutation⟩ := hgap
      have hstep : (step s (.announced index)).chat = s.chat.announced (index + 1) mutation := by
        unfold step
        rw [if_pos (show Possible s (.announced index) from (List.getElem?_eq_some_iff.mp hget).1)]
        unfold perform
        dsimp only
        rw [hget]
        rfl
      rw [hstep]
      exact announced_gap s.chat hcurrent hmutation
    | _ => exact hgap.elim
  kept := by
    intro observed hobserved
    rcases moved_step s event with h | ⟨revision, started, heq, -, hle, hnew⟩
    · exact Or.inl (h.observed observed hobserved)
    · exact Or.inr ⟨revision, started, heq, hle observed hobserved, hnew⟩

/-! ### Runs -/

theorem shownOnce_start (h : (messages.filterMap Message.clientRequestId).Nodup) :
    ShownOnce (start messages).chat :=
  ⟨nodup_nil, h, nofun⟩

theorem consistent_start (messages : List Message) : Consistent (start messages) := nofun

theorem inv_start (h : (messages.filterMap Message.clientRequestId).Nodup) : Inv (start messages) where
  consistent := consistent_start messages
  recorded := nofun
  truthful := nofun
  shown := shownOnce_start h
  mirrors := nofun

/-- **The rows mirror the agent's queue** in every run whose events heed the condition. In every run, nothing is
shown twice, the recorded revision does not decrease, and a gap is not forgotten. -/
theorem queue_mirrored {messages : List Message} (hmessages : (messages.filterMap Message.clientRequestId).Nodup)
    (events : List Event) :
    ((∀ t ∈ taken step (start messages) events, Heeded t.1 t.2) →
      ∀ s ∈ visited step (start messages) events, Mirrors s) ∧
    (∀ s ∈ visited step (start messages) events, ShownOnce s.chat) ∧
    ∀ t ∈ taken step (start messages) events, RevisionKept t.1 t.2 ∧ GapKept t.1 t.2 := by
  refine ⟨fun h s hs => ?_, fun s hs => ?_, fun t _ => ⟨revisionKept _ _, gapKept _ _⟩⟩
  · exact (invariant_of_steps (I := Inv) (P := Heeded) (fun _ _ hinv hp => inv_step hinv hp) events (start messages)
      (inv_start hmessages) h s hs).mirrors
  · exact (invariant (I := Kept) (fun _ event hkept => kept_step hkept event) events (start messages)
      ⟨consistent_start messages, shownOnce_start hmessages⟩ s hs).shown

end Steps

/-! ### A message that is queued, and steered -/

def request : Item where
  clientRequestId := "x"
  content := "hello"
  media := []
  queuedAt := 0
  chatComposer := true
  steer := false
  turnId := none

def queueing : List Event := [.snapshot 0 [], .mutated (.queued request), .announced 0]

theorem queue_mirrored_queueing : Mirrors (final step (start []) queueing) := by
  refine (@queue_mirrored [] nodup_nil queueing).1 ?_ _ (final_mem_visited _ _ _)
  unfold queueing
  simp only [taken_cons, taken_nil, forall_mem_cons]
  refine ⟨fun _ _ item hitem => ?_, trivial, fun item hitem revision hsynced => ?_, nofun⟩
  · cases hitem
  · obtain rfl : revision = 0 := by
      have hrevision := hsynced.1
      exact (some.inj hrevision).symm
    refine ⟨?_, fun hlt => absurd hlt (Nat.not_lt_zero _)⟩
    rintro - ⟨later, hmem, -⟩
    exact absurd hmem not_mem_nil

/-- The steer is reported, its announcement is lost, and a snapshot from before it comes. -/
def staleSnapshot : List Event :=
  queueing ++ [.mutated (.dequeued "x" (some request) (some "turn") true), .steered 2 "x" (some "turn"), .snapshot 1 []]

/-- **The message is back in the rows**: the chat is not desynced, and its steer was reported. -/
theorem queue_not_mirrored : ¬ Mirrors (final step (start []) staleSnapshot) := by
  intro h
  have hrow : request ∈ (final step (start []) staleSnapshot).chat.confirmed := by decide +kernel
  have hno := ((h 1 (by decide +kernel) (by decide +kernel) request).mp hrow).2
  exact hno ⟨2, by decide +kernel, by decide⟩

end Memmy.Desktop
