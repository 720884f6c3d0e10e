import Memmy.Lib.Run
import Memmy.Storage.ChangeFeed

/-! # Paging through the change feed

`panelChanges` answers with the newest changes behind the cursor and moves the cursor to the greatest
number among them. A client calls it with the cursor of the answer before until `hasMore` is false,
while writers append changes and the log is pruned.

* `Fits`: at a call, no row behind the cursor was pruned and they all fit on the page.
* `feed_exactlyOnce_iff`: the client receives every change exactly once if and only if `Fits` holds at
  each of its calls; what does not fit is older than the page, and the cursor steps over it.
* `cursorSeq_le_step`: the cursor never moves backward. -/

namespace Memmy.Storage.PanelChanges

open Lib.Newest Lib.Run List
open Storage.ChangeFeed ChangeLog

/-! ### One call -/

structure PanelChangesInput where
  limit : Option ℕ := none
  cursor : Option Cursor := none
deriving DecidableEq

structure Snapshot where
  cursor : Cursor
  hasMore : Bool
  items : List ChangeLogRecord
deriving DecidableEq

/-- The greatest number on the page, and at least the cursor. -/
def lastSeq (items : List ChangeLogRecord) (cursorSeq : ℕ) : ℕ :=
  items.foldl (fun m item => max m item.seq) cursorSeq

def panelChanges (capabilities : StorageBackendCapabilities) (log : ChangeLog)
    (input : PanelChangesInput) : Except MemoryServiceError Snapshot := do
  let limit := input.limit.getD 50
  let cursorSeq ← decodeChangeCursor capabilities input.cursor
  let items := log.listChanges limit cursorSeq
  return {
    cursor := encodeChangeCursor capabilities (lastSeq items cursorSeq)
    hasMore := items.length = limit
    items := items }

theorem lastSeq_le {n : ℕ} : ∀ {items : List ChangeLogRecord} {cursorSeq : ℕ},
    lastSeq items cursorSeq ≤ n ↔ cursorSeq ≤ n ∧ ∀ r ∈ items, r.seq ≤ n
  | [], _ => by simp [lastSeq]
  | r :: items, cursorSeq => by
    have ih : lastSeq items (max cursorSeq r.seq) ≤ n ↔
        max cursorSeq r.seq ≤ n ∧ ∀ r' ∈ items, r'.seq ≤ n := lastSeq_le
    unfold lastSeq at ih ⊢
    rw [foldl_cons, ih, forall_mem_cons, max_le_iff, and_assoc]

theorem le_lastSeq (items : List ChangeLogRecord) (cursorSeq : ℕ) :
    cursorSeq ≤ lastSeq items cursorSeq := (lastSeq_le.mp le_rfl).1

variable {r : ChangeLogRecord}

theorem seq_le_lastSeq {items : List ChangeLogRecord} (hr : r ∈ items)
    (cursorSeq : ℕ) : r.seq ≤ lastSeq items cursorSeq := (lastSeq_le.mp le_rfl).2 r hr

/-! ### The client and the writers -/

structure State where
  log : ChangeLog
  cursor : Option Cursor
  received : List ChangeLogRecord := []
  /-- `hasMore` was false. -/
  ended : Bool := false
  /-- Every row that has existed since the client began. -/
  existed : List ChangeLogRecord
  before : List ChangeLogRecord := []

inductive Event where
  | append (change : Change)
  | prune
  | call
deriving DecidableEq

section
variable (capabilities : StorageBackendCapabilities) (limit : ℕ) {log : ChangeLog} {cursor : Option Cursor}

def start (log : ChangeLog) (cursor : Option Cursor) : State where
  log := log
  cursor := cursor
  existed := log.rows

/-- What the client does with an answer. -/
def receive (s : State) (snapshot : Snapshot) : State :=
  { s with
    cursor := some snapshot.cursor
    received := s.received ++ snapshot.items
    ended := !snapshot.hasMore
    before := s.existed }

/-- A call of the client. -/
def call (s : State) : State :=
  match panelChanges capabilities s.log ⟨some limit, s.cursor⟩ with
  | .ok snapshot => receive s snapshot
  | .error _ => s

def step (s : State) : Event → State
  | .append change =>
    { s with
      log := s.log.appendChange change
      existed := s.existed ++ [s.log.appended change] }
  | .prune => { s with log := s.log.pruneLogTable }
  | .call => if s.ended then s else call capabilities limit s

/-- The number the cursor stands for. -/
def cursorSeq (s : State) : ℕ :=
  match decodeChangeCursor capabilities s.cursor with
  | .ok n => n
  | .error _ => 0

/-- **The page of a call holds all that is new**: no row behind the cursor was pruned, and there are
at most `limit` of them. -/
def Fits (s : State) (e : Event) : Prop :=
  e = .call → s.ended = false →
    (∀ r ∈ s.existed, cursorSeq capabilities s < r.seq → r ∈ s.log.rows) ∧
    (s.log.rows.filter (cursorSeq capabilities s < ·.seq)).length ≤ limit

instance (s : State) (e : Event) : Decidable (Fits capabilities limit s e) :=
  inferInstanceAs (Decidable (_ → _ → _))

/-- Every row above `from` that existed before the last call was received exactly once. -/
def ExactlyOnce (first : ℕ) (s : State) : Prop := ∀ r ∈ s.before, first < r.seq → s.received.count r = 1

instance (first : ℕ) (s : State) : Decidable (ExactlyOnce first s) :=
  inferInstanceAs (Decidable (∀ r ∈ s.before, first < r.seq → s.received.count r = 1))

/-! ### What always holds -/

/-- The client's cursor is readable and above all that it has received. -/
structure Inv (first : ℕ) (s : State) : Prop where
  decodes : decodeChangeCursor capabilities s.cursor = .ok (cursorSeq capabilities s)
  first_le : first ≤ cursorSeq capabilities s
  /-- Only the start cursor may be above the log. -/
  cursor_le : cursorSeq capabilities s = first ∨ cursorSeq capabilities s ≤ s.log.lastInsertRowid
  rows_existed : ∀ r ∈ s.log.rows, r ∈ s.existed
  existed_le : ∀ r ∈ s.existed, r.seq ≤ s.log.lastInsertRowid
  before_existed : ∀ r ∈ s.before, r ∈ s.existed
  received_le : ∀ r ∈ s.received, r.seq ≤ cursorSeq capabilities s
  received_nodup : s.received.Nodup

variable {capabilities limit} {first : ℕ} {s : State} {e : Event}

theorem cursorSeq_start (h : decodeChangeCursor capabilities cursor = .ok first) :
    cursorSeq capabilities (start log cursor) = first := by
  simp only [cursorSeq, start, h]

theorem inv_start (h : decodeChangeCursor capabilities cursor = .ok first) :
    Inv capabilities first (start log cursor) := by
  have hseq : cursorSeq capabilities (start log cursor) = first := cursorSeq_start h
  exact {
    decodes := by rw [hseq]; exact h
    first_le := hseq.ge
    cursor_le := Or.inl hseq
    rows_existed := fun _ hr => hr
    existed_le := fun r hr => (log.bounds r hr).2
    before_existed := nofun
    received_le := nofun
    received_nodup := nodup_nil }

end

variable {capabilities : StorageBackendCapabilities} {limit first : ℕ} {s : State} {e : Event}

/-! ### One step -/

variable (capabilities limit) in
/-- The page of the next call. -/
def page (s : State) : List ChangeLogRecord := s.log.listChanges limit (cursorSeq capabilities s)

variable (capabilities limit) in
/-- The answer to the next call. -/
def answer (s : State) : Snapshot where
  cursor := encodeChangeCursor capabilities (lastSeq (page capabilities limit s) (cursorSeq capabilities s))
  hasMore := (page capabilities limit s).length = limit
  items := page capabilities limit s

theorem call_eq (h : Inv capabilities first s) :
    call capabilities limit s = receive s (answer capabilities limit s) := by
  simp only [call, panelChanges, h.decodes, Option.getD_some]
  rfl

@[simp] theorem cursorSeq_receive :
    cursorSeq capabilities (receive s (answer capabilities limit s)) =
      lastSeq (page capabilities limit s) (cursorSeq capabilities s) := by
  simp [cursorSeq, receive, answer]

theorem mem_page (h : r ∈ page capabilities limit s) : r ∈ s.log.rows ∧ cursorSeq capabilities s < r.seq :=
  mem_listChanges h

theorem inv_receive (h : Inv capabilities first s) :
    Inv capabilities first (receive s (answer capabilities limit s)) where
  decodes := by
    rw [cursorSeq_receive]
    exact decode_encode _ _
  first_le := by
    rw [cursorSeq_receive]
    exact h.first_le.trans (le_lastSeq _ _)
  cursor_le := by
    rw [cursorSeq_receive]
    by_cases hnil : page capabilities limit s = []
    · rw [hnil]
      exact h.cursor_le
    -- the cursor is at the number of a row, and below all that are still to come
    · right
      obtain ⟨r, hr⟩ := exists_mem_of_ne_nil _ hnil
      have hlog : ∀ r ∈ page capabilities limit s, r.seq ≤ s.log.lastInsertRowid :=
        fun r hr => (s.log.bounds r (mem_page hr).1).2
      exact lastSeq_le.mpr ⟨(mem_page hr).2.le.trans (hlog r hr), hlog⟩
  rows_existed := h.rows_existed
  existed_le := h.existed_le
  before_existed := fun _ hr => hr
  received_le := fun r hr => by
    rw [cursorSeq_receive]
    rcases mem_append.mp hr with hr | hr
    · exact (h.received_le r hr).trans (le_lastSeq _ _)
    · exact seq_le_lastSeq hr _
  received_nodup := nodup_append.mpr ⟨h.received_nodup, listChanges_nodup,
    fun r hr r' hr' heq => absurd (mem_page (heq ▸ hr')).2 (not_lt.mpr (h.received_le r hr))⟩

theorem inv_step (h : Inv capabilities first s) (e : Event) :
    Inv capabilities first (step capabilities limit s e) := by
  cases e with
  | append change =>
    have hle : ∀ n, n ≤ s.log.lastInsertRowid → n ≤ (s.log.appendChange change).lastInsertRowid :=
      fun n hn => hn.trans (Nat.le_succ _)
    exact {
      h with
      cursor_le := h.cursor_le.imp id (hle _)
      rows_existed := fun r hr => by
        rcases mem_appendChange.mp hr with hr | rfl
        · exact mem_append_left _ (h.rows_existed r hr)
        · exact mem_append_right _ (mem_singleton_self _)
      existed_le := fun r hr => by
        rcases mem_append.mp hr with hr | hr
        · exact hle _ (h.existed_le r hr)
        · rw [mem_singleton.mp hr]
          exact le_rfl
      before_existed := fun r hr => mem_append_left _ (h.before_existed r hr) }
  | prune =>
    exact {
      h with
      rows_existed := fun r hr => h.rows_existed r (mem_of_mem_pruneLogTable hr) }
  | call =>
    by_cases hended : s.ended = true
    · simpa only [step, if_pos hended] using h
    · simp only [step, if_neg hended, call_eq h]
      exact inv_receive h

/-- **The cursor never moves backward.** -/
theorem cursorSeq_le_step (h : Inv capabilities first s) (e : Event) :
    cursorSeq capabilities s ≤ cursorSeq capabilities (step capabilities limit s e) := by
  cases e with
  | append change => exact le_rfl
  | prune => exact le_rfl
  | call =>
    by_cases hended : s.ended = true
    · simp only [step, if_pos hended, le_refl]
    · simp only [step, if_neg hended, call_eq h, cursorSeq_receive]
      exact le_lastSeq _ _

/-! ### Runs whose pages hold all that is new -/

/-- Nothing up to the cursor is missing, and nothing of what the last call could see. -/
structure Covered (capabilities : StorageBackendCapabilities) (first : ℕ) (s : State) : Prop where
  inv : Inv capabilities first s
  seen : ∀ r ∈ s.before, first < r.seq → r ∈ s.received
  below : ∀ r ∈ s.existed, first < r.seq → r.seq ≤ cursorSeq capabilities s → r ∈ s.received

theorem covered_start
    (h : decodeChangeCursor capabilities cursor = .ok first) :
    Covered capabilities first (start log cursor) := by
  refine ⟨inv_start h, nofun, fun r _ hlt hle => ?_⟩
  rw [cursorSeq_start h] at hle
  omega

theorem mem_received_of_fits (h : Covered capabilities first s) (hended : ¬ s.ended = true)
    (hfits : Fits capabilities limit s .call) (hr : r ∈ s.existed)
    (hfirst : first < r.seq) : r ∈ (receive s (answer capabilities limit s)).received := by
  obtain ⟨hkept, hlen⟩ := hfits rfl (Bool.eq_false_iff.mpr hended)
  refine mem_append.mpr ((le_or_gt r.seq (cursorSeq capabilities s)).imp
    (h.below r hr hfirst) fun hgt => ?_)
  refine mem_newest_of_length_le ?_ (mem_behind.mpr ⟨hkept r hr hgt, hgt⟩)
  rw [behind_eq]
  exact hlen

theorem covered_step (h : Covered capabilities first s) (hfits : Fits capabilities limit s e) :
    Covered capabilities first (step capabilities limit s e) := by
  have hinv : Inv capabilities first (step capabilities limit s e) := inv_step h.inv e
  cases e with
  | append change =>
    refine ⟨hinv, h.seen, fun r hr hfirst hle => ?_⟩
    rcases mem_append.mp hr with hr | hr
    · exact h.below r hr hfirst hle
    -- a cursor above a row that is only now appended is the start cursor
    · have hseq : r.seq = s.log.lastInsertRowid + 1 := by rw [mem_singleton.mp hr]; rfl
      have hle : r.seq ≤ cursorSeq capabilities s := hle
      have := h.inv.cursor_le
      omega
  | prune => exact ⟨hinv, h.seen, h.below⟩
  | call =>
    by_cases hended : s.ended = true
    · simpa only [step, if_pos hended] using h
    · simp only [step, if_neg hended, call_eq h.inv] at hinv ⊢
      exact ⟨hinv, fun r hr hfirst => mem_received_of_fits h hended hfits hr hfirst,
        fun r hr hfirst _ => mem_received_of_fits h hended hfits hr hfirst⟩

/-! ### A row that does not fit -/

/-- A row that the last call could have seen will not come any more: the cursor is past it, or it is
not in the log. -/
def Lost (capabilities : StorageBackendCapabilities) (first : ℕ) (s : State) : Prop :=
  ∃ r ∈ s.before, first < r.seq ∧ r ∉ s.received ∧ (r.seq ≤ cursorSeq capabilities s ∨ r ∉ s.log.rows)

theorem lost_step (h : Inv capabilities first s) (hlost : Lost capabilities first s) (e : Event) :
    Lost capabilities first (step capabilities limit s e) := by
  obtain ⟨r, hr, hfirst, hnew, hgone⟩ := hlost
  have hle := h.existed_le r (h.before_existed r hr)
  cases e with
  | append change =>
    refine ⟨r, hr, hfirst, hnew, hgone.imp id fun hout hin => ?_⟩
    rcases mem_appendChange.mp hin with hin | rfl
    · exact hout hin
    · rw [appended_seq] at hle
      omega
  | prune =>
    exact ⟨r, hr, hfirst, hnew, hgone.imp id fun hout hin =>
      hout (mem_of_mem_pruneLogTable hin)⟩
  | call =>
    by_cases hended : s.ended = true
    · simpa only [step, if_pos hended] using ⟨r, hr, hfirst, hnew, hgone⟩
    simp only [step, if_neg hended, call_eq h]
    refine ⟨r, h.before_existed r hr, hfirst, fun hin => ?_, hgone.imp (fun hle => ?_) id⟩
    · rcases mem_append.mp hin with hin | hin
      · exact hnew hin
      · have hpage := mem_page hin
        rcases hgone with hle | hout
        · omega
        · exact hout hpage.1
    · rw [cursorSeq_receive]
      exact hle.trans (le_lastSeq _ _)

/-- **The cursor steps over what does not fit.** -/
theorem lost_of_not_fits (hlimit : 1 ≤ limit) (h : Inv capabilities first s)
    (hfits : ¬ Fits capabilities limit s e) :
    Lost capabilities first (step capabilities limit s e) := by
  unfold Fits at hfits
  push Not at hfits
  obtain ⟨rfl, hended, hfits⟩ := hfits
  simp only [step, hended, Bool.false_eq_true, if_false, call_eq h]
  have hlost : ∀ r ∈ s.existed, cursorSeq capabilities s < r.seq → r ∉ page capabilities limit s →
      (r ∈ s.log.rows → r.seq ≤ lastSeq (page capabilities limit s) (cursorSeq capabilities s)) →
      Lost capabilities first (receive s (answer capabilities limit s)) := by
    refine fun r hr hgt hpage hle => ⟨r, hr, h.first_le.trans_lt hgt, fun hin => ?_, ?_⟩
    · rcases mem_append.mp hin with hin | hin
      · exact absurd (h.received_le r hin) (not_le.mpr hgt)
      · exact hpage hin
    · rw [cursorSeq_receive]
      by_cases hin : r ∈ s.log.rows
      · exact Or.inl (hle hin)
      · exact Or.inr hin
  by_cases hkept : ∀ r ∈ s.existed, cursorSeq capabilities s < r.seq → r ∈ s.log.rows
  -- too many rows: one is left out, and is not above those on the page
  · have hlen := hfits hkept
    rw [← behind_eq] at hlen
    obtain ⟨r, hr, hout⟩ := exists_left_out (f := (·.seq)) behind_nodup hlen
    obtain ⟨hrow, hgt⟩ := mem_behind.mp hr
    refine hlost r (h.rows_existed r hrow) hgt hout fun _ => ?_
    obtain ⟨x, hx⟩ := exists_mem_of_ne_nil _
      (newest_ne_nil (f := (·.seq)) hlimit (ne_nil_of_mem hr))
    exact (le_of_mem_newest hx hr hout).trans (seq_le_lastSeq hx _)
  · push Not at hkept
    obtain ⟨r, hr, hgt, hout⟩ := hkept
    exact hlost r hr hgt (fun hin => hout (mem_page hin).1) fun hin => absurd hin hout

/-! ### Runs -/

theorem lost_final (h : Inv capabilities first s) (hlost : Lost capabilities first s)
    (es : List Event) : Lost capabilities first (final (step capabilities limit) s es) :=
  (invariant_final (I := fun s => Inv capabilities first s ∧ Lost capabilities first s)
    (fun _ e hs => ⟨inv_step hs.1 e, lost_step hs.1 hs.2 e⟩) es s ⟨h, hlost⟩).2

/-- A run that loses nothing has fitting pages. -/
theorem fits_of_not_lost (hlimit : 1 ≤ limit) : ∀ (es : List Event) (s : State),
    Inv capabilities first s → ¬ Lost capabilities first (final (step capabilities limit) s es) →
      ∀ t ∈ taken (step capabilities limit) s es, Fits capabilities limit t.1 t.2
  | [], _, _, _ => by simp
  | e :: es, s, h, hlost => by
    rw [taken_cons, forall_mem_cons]
    refine ⟨?_, fits_of_not_lost hlimit es _ (inv_step h e) hlost⟩
    by_contra hfits
    exact hlost (lost_final (inv_step h e) (lost_of_not_fits hlimit h hfits) es)

/-- **The feed is complete** exactly if no call finds more than a page behind its cursor, or a row
behind it that was pruned; and in every run the cursor never moves backward. -/
theorem feed_exactlyOnce_iff (hlimit : 1 ≤ limit) (log : ChangeLog) (cursor : Option Cursor)
    (hcursor : decodeChangeCursor capabilities cursor = .ok first) (es : List Event) :
    (ExactlyOnce first (final (step capabilities limit) (start log cursor) es) ↔
      ∀ t ∈ taken (step capabilities limit) (start log cursor) es, Fits capabilities limit t.1 t.2) ∧
    ∀ t ∈ taken (step capabilities limit) (start log cursor) es,
      cursorSeq capabilities t.1 ≤ cursorSeq capabilities (step capabilities limit t.1 t.2) := by
  have hstart : Inv capabilities first (start log cursor) := inv_start hcursor
  have hinv : ∀ t ∈ visited (step capabilities limit) (start log cursor) es,
      Inv capabilities first t := invariant (fun _ e hs => inv_step hs e) es _ hstart
  refine ⟨⟨fun honce => fits_of_not_lost hlimit es _ hstart ?_, fun hfits r hr hfirst => ?_⟩,
    fun t ht => cursorSeq_le_step (hinv _ (mem_visited_of_mem_taken _ ht)) t.2⟩
  · rintro ⟨r, hr, hfirst, hnew, -⟩
    have hcount := honce r hr hfirst
    rw [count_eq_zero.mpr hnew] at hcount
    cases hcount
  · have hcovered : Covered capabilities first (final (step capabilities limit) (start log cursor) es) :=
      invariant_of_steps (fun _ _ => covered_step) es _
        (covered_start hcursor) hfits _ (final_mem_visited _ _ _)
    exact count_eq_one_of_mem hcovered.inv.received_nodup (hcovered.seen r hr hfirst)

/-! ### Two changes and a page of one -/

def sqlite : StorageBackendCapabilities := ⟨"sqlite-local", "12"⟩

def edited (memoryId : String) : Change where
  memoryId := memoryId
  userId := "user"
  changeType := "update"
  source := "panel"
  createdAt := "2026-01-01T00:00:00.000Z"

def emptyLog : ChangeLog where
  rows := []
  lastInsertRowid := 0
  nodup := nodup_nil
  bounds := fun _ hr => absurd hr not_mem_nil

def twoChanges : ChangeLog := (emptyLog.appendChange (edited "m1")).appendChange (edited "m2")

/-- **A backlog of two** read with a page of one: the client is done after two calls, and the older
change was on neither page. -/
theorem smallPage_skips :
    (final (step sqlite 1) (start twoChanges none) [.call, .call]).ended = true ∧
    (final (step sqlite 1) (start twoChanges none) [.call, .call]).received.map (·.seq) = [2] ∧
    ¬ ExactlyOnce 0 (final (step sqlite 1) (start twoChanges none) [.call, .call]) := by
  decide +kernel

/-- A page of two holds the backlog, and a change that comes later is on the page after. -/
theorem fullPages_deliver :
    ExactlyOnce 0 (final (step sqlite 2) (start twoChanges none) [.call, .append (edited "m3"), .call]) :=
  (feed_exactlyOnce_iff (by decide) twoChanges none rfl _).1.mpr (by decide +kernel)

end Memmy.Storage.PanelChanges
