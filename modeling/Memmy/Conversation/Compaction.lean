import Mathlib.Data.Rat.Floor
import Memmy.Conversation.Consolidator
import Memmy.Lib.Run

/-! # Compaction by tokens

`maybeConsolidateByTokens` hides the oldest messages of a session behind a summary, in rounds: a round plans
a boundary, writes the messages up to it to the history file (`archive`), and saves the summary and the
boundary with the session (`commitSessionSummary`).  The summariser, the two files and the hooks may fail at
any point, and messages may arrive while a round waits.

* `rounds_kept`, `call_kept`: what a round and a call preserve of the history file (`Kept`).
* `archived_once_committed`: over every run, the committed entries hold the messages below
  `lastConsolidated` once, in order and without a gap; a message is written again only behind entries
  that were not committed; `lastConsolidated` and `lastSummary` are those of the last commit.
* `not_archived_once`: a summariser that fails twice writes the same messages twice. -/

namespace Memmy.Conversation.Compaction

open Conversation.Transcript Conversation.Consolidator List
open Lib.JsonValue Lib.JsonValue.JsonObject Lib.Run

/-! ### The history file -/

/-- How `appendHistory` ends. The entry is appended before the cursor file is written. -/
inductive Written where
  | done
  | failedBefore
  | failedAfter
  deriving DecidableEq, Repr

namespace Written

def lands : Written → Bool
  | failedBefore => false
  | _ => true

def throws : Written → Bool
  | done => false
  | _ => true

end Written

/-- An entry of the history file, with the messages it stands for: those from `first` to before `stop`. -/
structure Row (M : Type) where
  first : ℕ
  stop : ℕ
  messages : List M
  /-- `none` for a raw dump. -/
  summary : Option String
  /-- The `lastSummary` that was saved for it, with the boundary `stop`. -/
  committed : Option Json := none

/-- How the work of `archive` goes: the model's answer, if there is one, and the two writes. -/
structure Archiving where
  answer : Option String
  append : Written := .done
  rawAppend : Written := .done

inductive Archived where
  | threw
  /-- `null`: there is a raw dump. -/
  | degraded
  | summarized (summary : String)

section Archive
variable {M : Type}

def appendHistory (w : Written) (r : Row M) : List (Row M) := if w.lands then [r] else []

/-- `rawArchive`, and `archive` behind it. -/
def rawArchive (w : Written) (r : Row M) : List (Row M) × Archived :=
  (appendHistory w { r with summary := none }, if w.throws then .threw else .degraded)

/-- `archive`, with the entries it appends. -/
def archive (a : Archiving) (first stop : ℕ) (messages : List M) : List (Row M) × Archived :=
  let row (summary : Option String) : Row M :=
    { first := first
      stop := stop
      messages := messages
      summary := summary }
  if messages.isEmpty then ([], .degraded)
  else
    match a.answer with
    | none => rawArchive a.rawAppend (row none)
    | some content =>
      let summary := if content = "" then "[no summary]" else content
      let rows := appendHistory a.append (row (some summary))
      if a.append.throws then
        (rows ++ (rawArchive a.rawAppend (row none)).1, (rawArchive a.rawAppend (row none)).2)
      else (rows, .summarized summary)

/-! ### The call -/

def lastSummary (s : Session M ℕ) : Option Json := get? s.metadata "lastSummary"

/-- `commitSessionSummary`: if the session is not saved, it is as before, and the call throws. -/
def commitSessionSummary (saved : Bool) (summary : Json) (lastConsolidated : ℕ) (s : Session M ℕ) :
    Session M ℕ :=
  let previousSummary := lastSummary s
  let metadata := set s.metadata "lastSummary" summary
  if saved then
    { s with
      metadata := metadata
      lastConsolidated := lastConsolidated }
  else
    { s with
      metadata := match previousSummary with
        | some previous => set metadata "lastSummary" previous
        | none => metadata.filter fun f => f.1 ≠ "lastSummary"
      lastConsolidated := s.lastConsolidated }

structure Config where
  contextWindowTokens : ℤ
  maxCompletionTokens : ℤ
  safetyBuffer : ℤ := 4096
  consolidationRatio : ℚ
  maxConsolidationRounds : ℕ := 5

def Config.inputTokenBudget (c : Config) : ℤ := c.contextWindowTokens - c.maxCompletionTokens - c.safetyBuffer

structure Options where
  replayMaxMessages : Option ℕ := none
  maxMessageEndExclusive : Option ℕ := none
  inputTokenBudget : Option ℤ := none
  notifyOnLockWait : Bool := false

/-- What happens around a call. -/
structure Circumstances (M : Type) where
  beforeCompaction : Bool := true
  locked : Bool := false
  /-- The session store finds the session. -/
  getSession : Bool := true
  /-- The estimate at the start, and after each round; `none` if it throws. -/
  estimates : ℕ → Option ℤ
  archiving : ℕ → Archiving
  /-- The messages that arrive while a round archives. -/
  arrivals : ℕ → List M := fun _ => []
  saves : ℕ → Bool := fun _ => true
  afterCompaction : Bool := true

/-- What a call has come to: the session, the history file, and the variables of the call. -/
structure Progress (M : Type) where
  session : Session M ℕ
  rows : List (Row M)
  changed : Bool := false
  summary : Option String := none
  error : Option String := none
  started : Bool := false
  threw : Bool := false

def summaryJson (text lastActive : String) : Json :=
  .obj [("text", .str text), ("mode", .str "text"), ("lastActive", .str lastActive)]

end Archive

section Call
variable {M : Type} (view : M → Message) (messageTokens : M → ℕ)

/-- What the rounds of a call share. -/
structure Limits where
  replayMaxMessages : Option ℕ
  targetPromptTokens : ℤ
  hardMessageEnd : ℕ
  tokenPressureActive : Bool
  allowHardBoundary : Bool

def Limits.plan (l : Limits) (estimated : ℤ) : TokenPlanOptions where
  replayMaxMessages := l.replayMaxMessages
  estimatedTokens := estimated
  targetPromptTokens := l.targetPromptTokens
  hardMessageEnd := l.hardMessageEnd
  tokenPressureActive := l.tokenPressureActive
  allowHardBoundary := l.allowHardBoundary

/-- The work of a round whose boundary is planned. It is the last round if it threw or left an error. -/
def archiveRound (c : Circumstances M) (round plannedMessageEnd : ℕ) (p : Progress M) : Progress M :=
  let last := p.session.lastConsolidated
  let chunk := (p.session.messages.take plannedMessageEnd).drop last
  let (rows, archived) := archive (c.archiving round) last plannedMessageEnd chunk
  let session := { p.session with messages := p.session.messages ++ c.arrivals round }
  match archived with
  | .threw =>
    { p with
      session := session
      rows := p.rows ++ rows
      started := true
      threw := true }
  | .degraded =>
    { p with
      session := session
      rows := p.rows ++ rows
      started := true
      error := some "Text compaction did not produce a summary" }
  | .summarized text =>
    let lastSummary := summaryJson text session.updatedAt
    let saved := c.saves round
    { p with
      session := commitSessionSummary saved lastSummary plannedMessageEnd session
      rows := p.rows ++ if saved then rows.map fun r => { r with committed := some lastSummary } else rows
      started := true
      summary := if saved then some text else p.summary
      changed := saved || p.changed
      threw := !saved }

/-- The loop over the rounds. -/
def rounds (l : Limits) (c : Circumstances M) : ℕ → ℕ → ℤ → Progress M → Progress M
  | 0, _, _, p => p
  | remaining + 1, round, estimated, p =>
    match planTokenCompactionBoundary view messageTokens p.session (l.plan estimated) with
    | none => p
    | some plannedMessageEnd =>
      if ((p.session.messages.take plannedMessageEnd).drop p.session.lastConsolidated).isEmpty then p
      else
        let p := archiveRound c round plannedMessageEnd p
        if p.threw ∨ p.error.isSome then p
        else
          let estimated := (c.estimates (round + 1)).getD 0
          if estimated ≤ 0 then p else rounds l c remaining (round + 1) estimated p

/-- The part of the call that runs under the session's lock. -/
def underLock (config : Config) (opts : Options) (c : Circumstances M) (p : Progress M) : Progress M :=
  let session := p.session
  if c.getSession = false then { p with threw := true }
  else if session.messages.isEmpty then p
  else
    let effectiveInputTokenBudget := opts.inputTokenBudget.getD config.inputTokenBudget
    if opts.inputTokenBudget.isSome ∧ effectiveInputTokenBudget ≤ 0 then p
    else
      let estimated := (c.estimates 0).getD 0
      let tokenPressureActive : Bool := effectiveInputTokenBudget ≤ estimated
      if (replayOverflowBoundary view session opts.replayMaxMessages).isNone ∧
          (tokenPressureActive = false ∨ estimated ≤ 0) then p
      else
        rounds view messageTokens
          { replayMaxMessages := opts.replayMaxMessages
            targetPromptTokens := ⌊(effectiveInputTokenBudget : ℚ) * config.consolidationRatio⌋
            hardMessageEnd := max session.lastConsolidated
              (min (opts.maxMessageEndExclusive.getD session.messages.length) session.messages.length)
            tokenPressureActive := tokenPressureActive
            allowHardBoundary := opts.maxMessageEndExclusive.isSome }
          c config.maxConsolidationRounds 0 estimated p

/-- `maybeConsolidateByTokens`, with text summaries. -/
def maybeConsolidateByTokens (config : Config) (opts : Options) (c : Circumstances M)
    (session : Session M ℕ) (rows : List (Row M)) : Progress M :=
  let p : Progress M :=
    { session := session
      rows := rows }
  if config.contextWindowTokens ≤ 0 then p
  else if c.beforeCompaction = false then { p with threw := true }
  else
    let p := underLock view messageTokens config opts c
      { p with started := opts.notifyOnLockWait && c.locked }
    { p with threw := p.threw || !c.afterCompaction }

/-! ### Runs -/

structure State (M : Type) where
  session : Session M ℕ
  rows : List (Row M) := []

inductive Event (M : Type) where
  | compact (config : Config) (opts : Options) (c : Circumstances M)
  | messages (ms : List M)

def step (s : State M) : Event M → State M
  | .compact config opts c =>
    let p := maybeConsolidateByTokens view messageTokens config opts c s.session s.rows
    { session := p.session
      rows := p.rows }
  | .messages ms => { s with session := { s.session with messages := s.session.messages ++ ms } }

end Call

/-! ### What the history file holds -/

section Kept
variable {M : Type} {view : M → Message} {messageTokens : M → ℕ} {messages : List M}

/-- The committed entries. -/
def commits (rows : List (Row M)) : List (Row M) := rows.filter fun r => r.committed.isSome

/-- **The history file of a session that was `s₀`.** -/
structure Kept (s₀ s : Session M ℕ) (rows : List (Row M)) : Prop where
  /-- An entry is a stretch of messages of the session. -/
  stretch : ∀ r ∈ rows, r.first < r.stop ∧ r.stop ≤ s.messages.length ∧
    r.messages = (s.messages.take r.stop).drop r.first
  /-- The committed entries hold the messages below `lastConsolidated`, once and in order. -/
  covered : (commits rows).flatMap (·.messages) =
    (s.messages.take s.lastConsolidated).drop s₀.lastConsolidated
  /-- The entries are in order, and nothing that is committed is written again. -/
  ordered : rows.Pairwise fun r r' => r.first ≤ r'.first ∧ (r.committed.isSome = true → r.stop ≤ r'.first)
  below : ∀ r ∈ rows, r.first ≤ s.lastConsolidated ∧ (r.committed.isSome = true → r.stop ≤ s.lastConsolidated)
  /-- `lastConsolidated` and `lastSummary` are those of the last commit. -/
  current : (s.lastConsolidated, lastSummary s) =
    (((commits rows).getLast?.map fun r => (r.stop, r.committed)).getD
      (s₀.lastConsolidated, lastSummary s₀))
  grown : s₀.lastConsolidated ≤ s.lastConsolidated

variable {s₀ s s' : Session M ℕ} {rows new : List (Row M)}

/-- The session has committed nothing, or its boundary is within its messages. -/
theorem Kept.bounded (h : Kept s₀ s rows) :
    s.lastConsolidated = s₀.lastConsolidated ∨ s.lastConsolidated ≤ s.messages.length := by
  have hcurrent := h.current
  cases hlast : (commits rows).getLast? with
  | none =>
    rw [hlast] at hcurrent
    exact Or.inl (congrArg Prod.fst hcurrent)
  | some r =>
    rw [hlast] at hcurrent
    have hstop : s.lastConsolidated = r.stop := congrArg Prod.fst hcurrent
    have hmem := (mem_filter.mp (mem_of_getLast? hlast)).1
    exact Or.inr (hstop ▸ (h.stretch r hmem).2.1)

theorem Kept.congr (h : Kept s₀ s rows) (hmessages : s'.messages = s.messages)
    (hlast : s'.lastConsolidated = s.lastConsolidated) (hsummary : lastSummary s' = lastSummary s) :
    Kept s₀ s' rows where
  stretch := by rw [hmessages]; exact h.stretch
  covered := by rw [hmessages, hlast]; exact h.covered
  ordered := h.ordered
  below := by rw [hlast]; exact h.below
  current := by rw [hlast, hsummary]; exact h.current
  grown := by rw [hlast]; exact h.grown

/-- **Messages that arrive** are behind everything. -/
theorem Kept.arrive (h : Kept s₀ s rows) (ms : List M) :
    Kept s₀ { s with messages := s.messages ++ ms } rows where
  stretch := by
    intro r hr
    obtain ⟨hfirst, hstop, hmessages⟩ := h.stretch r hr
    refine ⟨hfirst, ?_, ?_⟩
    · rw [length_append]
      omega
    · rw [hmessages, take_append_of_le_length hstop]
  covered := by
    rw [h.covered]
    rcases h.bounded with hlast | hlast
    · have hnone : ∀ l : List M, (l.take s.lastConsolidated).drop s₀.lastConsolidated = [] := by
        intro l
        rw [drop_eq_nil_iff, length_take]
        omega
      rw [hnone, hnone]
    · rw [take_append_of_le_length hlast]
  ordered := h.ordered
  below := h.below
  current := h.current
  grown := h.grown

/-- The entries a round writes, up to the boundary `planned`. -/
def OfRound (s : Session M ℕ) (planned : ℕ) (r : Row M) : Prop :=
  r.first = s.lastConsolidated ∧ r.stop = planned ∧
    r.messages = (s.messages.take planned).drop s.lastConsolidated

theorem commits_write {planned : ℕ} (hnew : ∀ r ∈ new, OfRound s planned r ∧ r.committed = none) :
    commits (rows ++ new) = commits rows := by
  unfold commits
  have hnone : new.filter (fun r => r.committed.isSome) = [] := by
    rw [filter_eq_nil_iff]
    intro r hr
    rw [(hnew r hr).2]
    exact Bool.false_ne_true
  rw [filter_append, hnone, append_nil]

/-- **Entries that are not committed** leave the session where it is. -/
theorem Kept.write (h : Kept s₀ s rows) {planned : ℕ} (hplanned : s.lastConsolidated < planned)
    (hlength : planned ≤ s.messages.length)
    (hnew : ∀ r ∈ new, OfRound s planned r ∧ r.committed = none) : Kept s₀ s (rows ++ new) where
  stretch := by
    intro r hr
    rcases mem_append.mp hr with hr | hr
    · exact h.stretch r hr
    · obtain ⟨⟨hfirst, hstop, hmessages⟩, -⟩ := hnew r hr
      rw [hfirst, hstop]
      exact ⟨hplanned, hlength, hmessages⟩
  covered := by
    rw [commits_write hnew]
    exact h.covered
  ordered := by
    refine pairwise_append.mpr ⟨h.ordered, ?_, ?_⟩
    · refine pairwise_of_forall_mem_list fun r hr r' hr' => ?_
      obtain ⟨⟨hfirst, -⟩, hnone⟩ := hnew r hr
      obtain ⟨⟨hfirst', -⟩, -⟩ := hnew r' hr'
      exact ⟨by omega, fun hsome => by rw [hnone] at hsome; cases hsome⟩
    · intro r hr r' hr'
      obtain ⟨⟨hfirst', -⟩, -⟩ := hnew r' hr'
      rw [hfirst']
      exact h.below r hr
  below := by
    intro r hr
    rcases mem_append.mp hr with hr | hr
    · exact h.below r hr
    · obtain ⟨⟨hfirst, -⟩, hnone⟩ := hnew r hr
      exact ⟨hfirst.le, fun hsome => by rw [hnone] at hsome; cases hsome⟩
  current := by
    rw [commits_write hnew]
    exact h.current
  grown := h.grown

/-- Two stretches in a row are one. -/
theorem drop_take_append (l : List M) {a b c : ℕ} (hab : a ≤ b) (hbc : b ≤ c) :
    (l.take b).drop a ++ (l.take c).drop b = (l.take c).drop a := by
  have htake : l.take b = (l.take c).take b := by rw [take_take, Nat.min_eq_left hbc]
  have hdrop : (l.take c).drop b = ((l.take c).drop a).drop (b - a) := by
    rw [drop_drop, Nat.add_sub_cancel' hab]
  rw [htake, hdrop, drop_take, take_append_drop]

/-- **A commit** moves the boundary behind the entry. -/
theorem Kept.commit (h : Kept s₀ s rows) {planned : ℕ} (hplanned : s.lastConsolidated < planned)
    (hlength : planned ≤ s.messages.length) {r : Row M} (hr : OfRound s planned r) {summary : Json}
    (hcommitted : r.committed = some summary) (hmessages : s'.messages = s.messages)
    (hlast : s'.lastConsolidated = planned) (hsummary : lastSummary s' = some summary) :
    Kept s₀ s' (rows ++ [r]) := by
  obtain ⟨hfirst, hstop, hslice⟩ := hr
  have hcommits : commits (rows ++ [r]) = commits rows ++ [r] := by
    unfold commits
    rw [filter_append, filter_singleton, hcommitted]
    rfl
  exact {
    stretch := by
      rw [hmessages]
      intro r' hr'
      rcases mem_append.mp hr' with hr' | hr'
      · exact h.stretch r' hr'
      · rw [mem_singleton.mp hr', hfirst, hstop]
        exact ⟨hplanned, hlength, hslice⟩
    covered := by
      rw [hcommits, flatMap_append, h.covered, flatMap_singleton, hslice, hmessages, hlast]
      exact drop_take_append s.messages h.grown hplanned.le
    ordered := by
      refine pairwise_append.mpr ⟨h.ordered, pairwise_singleton _ _, ?_⟩
      intro r' hr' r'' hr''
      rw [mem_singleton.mp hr'', hfirst]
      exact h.below r' hr'
    below := by
      rw [hlast]
      intro r' hr'
      rcases mem_append.mp hr' with hr' | hr'
      · obtain ⟨hle, hcommit⟩ := h.below r' hr'
        exact ⟨hle.trans hplanned.le, fun hsome => (hcommit hsome).trans hplanned.le⟩
      · rw [mem_singleton.mp hr', hfirst, hstop]
        exact ⟨hplanned.le, fun _ => le_refl _⟩
    current := by
      rw [hcommits, getLast?_append, getLast?_singleton, hlast, hsummary]
      simp [hstop, hcommitted]
    grown := by
      rw [hlast]
      exact h.grown.trans hplanned.le }

/-! ### The parts of a call -/

theorem mem_appendHistory {w : Written} {r r' : Row M} (h : r' ∈ appendHistory w r) : r' = r := by
  unfold appendHistory at h
  split_ifs at h
  · exact mem_singleton.mp h
  · cases h

/-- The entries of a round are of one stretch, and not committed. -/
theorem archive_rows {a : Archiving} {first stop : ℕ} :
    ∀ r ∈ (archive a first stop messages).1,
      r.first = first ∧ r.stop = stop ∧ r.messages = messages ∧ r.committed = none := by
  intro r hr
  unfold archive rawArchive at hr
  by_cases hempty : messages.isEmpty = true
  · rw [if_pos hempty] at hr
    cases hr
  · rw [if_neg hempty] at hr
    cases hanswer : a.answer with
    | none =>
      rw [hanswer] at hr
      rw [mem_appendHistory hr]
      exact ⟨rfl, rfl, rfl, rfl⟩
    | some content =>
      rw [hanswer] at hr
      dsimp only at hr
      by_cases hthrows : a.append.throws = true
      · rw [if_pos hthrows] at hr
        rcases mem_append.mp hr with hr | hr
        · rw [mem_appendHistory hr]
          exact ⟨rfl, rfl, rfl, rfl⟩
        · rw [mem_appendHistory hr]
          exact ⟨rfl, rfl, rfl, rfl⟩
      · rw [if_neg hthrows] at hr
        rw [mem_appendHistory hr]
        exact ⟨rfl, rfl, rfl, rfl⟩

theorem Written.lands_of_not_throws {w : Written} (h : ¬ w.throws = true) : w.lands = true := by
  cases w
  · rfl
  · exact absurd rfl h
  · rfl

theorem archive_summarized {a : Archiving} {first stop : ℕ} {text : String}
    (h : (archive a first stop messages).2 = .summarized text) :
    ∃ r, (archive a first stop messages).1 = [r] := by
  have hraw : (if a.rawAppend.throws then Archived.threw else .degraded) ≠ .summarized text := by
    split_ifs <;> simp
  unfold archive at h ⊢
  by_cases hempty : messages.isEmpty = true
  · rw [if_pos hempty] at h
    cases h
  rw [if_neg hempty] at h ⊢
  cases hanswer : a.answer with
  | none =>
    rw [hanswer] at h
    exact absurd h hraw
  | some content =>
    rw [hanswer] at h
    dsimp only at h ⊢
    by_cases hthrows : a.append.throws = true
    · rw [if_pos hthrows] at h
      exact absurd h hraw
    · rw [if_neg hthrows]
      unfold appendHistory
      rw [if_pos (Written.lands_of_not_throws hthrows)]
      exact ⟨_, rfl⟩

/-- **A session that is not saved** is as before. -/
theorem lastSummary_unsaved (s : Session M ℕ) (summary : Json) (n : ℕ) :
    lastSummary (commitSessionSummary false summary n s) = lastSummary s := by
  unfold commitSessionSummary
  cases hprevious : lastSummary s with
  | some previous => exact get?_set_self _ _ _
  | none =>
    unfold lastSummary get?
    rw [Option.map_eq_none_iff, find?_eq_none]
    intro f hf he
    have hne := (mem_filter.mp hf).2
    simp only [decide_eq_true_eq, ne_eq] at hne he
    exact hne he

theorem lastSummary_saved (s : Session M ℕ) (summary : Json) (n : ℕ) :
    lastSummary (commitSessionSummary true summary n s) = some summary := get?_set_self _ _ _

/-- What a call preserves: the history file's contents, a boundary that does not go back, and the messages. -/
structure Keeps (s₀ : Session M ℕ) (p p' : Progress M) : Prop where
  kept : Kept s₀ p'.session p'.rows
  forward : p.session.lastConsolidated ≤ p'.session.lastConsolidated
  longer : p.session.messages.length ≤ p'.session.messages.length

theorem Keeps.of_kept {p p' : Progress M} (h : Kept s₀ p.session p.rows) (hsession : p'.session = p.session)
    (hrows : p'.rows = p.rows) : Keeps s₀ p p' where
  kept := by rw [hsession, hrows]; exact h
  forward := by rw [hsession]
  longer := by rw [hsession]

theorem Keeps.trans {p p' p'' : Progress M} (h : Keeps s₀ p p') (h' : Keeps s₀ p' p'') : Keeps s₀ p p'' where
  kept := h'.kept
  forward := h.forward.trans h'.forward
  longer := h.longer.trans h'.longer

theorem archiveRound_kept {p : Progress M} (h : Kept s₀ p.session p.rows) {planned : ℕ}
    (hplanned : p.session.lastConsolidated < planned) (hlength : planned ≤ p.session.messages.length)
    (c : Circumstances M) (round : ℕ) : Keeps s₀ p (archiveRound c round planned p) := by
  have harrived := h.arrive (c.arrivals round)
  have hlonger : p.session.messages.length ≤ (p.session.messages ++ c.arrivals round).length := by
    rw [length_append]
    omega
  have hlength' := hlength.trans hlonger
  have hrows : ∀ r ∈ (archive (c.archiving round) p.session.lastConsolidated planned
      ((p.session.messages.take planned).drop p.session.lastConsolidated)).1,
      OfRound { p.session with messages := p.session.messages ++ c.arrivals round } planned r ∧
        r.committed = none := by
    intro r hr
    obtain ⟨hfirst, hstop, hmessages, hnone⟩ := archive_rows r hr
    refine ⟨⟨hfirst, hstop, ?_⟩, hnone⟩
    rw [hmessages, take_append_of_le_length hlength]
  have hwritten := harrived.write hplanned hlength' hrows
  unfold archiveRound
  dsimp only
  cases harchived : (archive (c.archiving round) p.session.lastConsolidated planned
      ((p.session.messages.take planned).drop p.session.lastConsolidated)).2 with
  | threw => exact ⟨hwritten, le_refl _, hlonger⟩
  | degraded => exact ⟨hwritten, le_refl _, hlonger⟩
  | summarized text =>
    cases hsaved : c.saves round with
    | false =>
      exact ⟨hwritten.congr rfl rfl (lastSummary_unsaved _ _ planned), le_refl _, hlonger⟩
    | true =>
      obtain ⟨r, hone⟩ := archive_summarized harchived
      rw [hone] at hrows ⊢
      obtain ⟨⟨hfirst, hstop, hmessages⟩, -⟩ := hrows r mem_cons_self
      refine ⟨?_, hplanned.le, hlonger⟩
      exact @Kept.commit M s₀ _ _ _ harrived planned hplanned hlength'
        { r with committed := some _ } ⟨hfirst, hstop, hmessages⟩ _ rfl rfl rfl (lastSummary_saved _ _ planned)

/-- **The rounds.** A boundary is within the hard end, and that within the session. -/
theorem rounds_kept {l : Limits} {c : Circumstances M} : ∀ {remaining round : ℕ} {estimated : ℤ}
    {p : Progress M}, Kept s₀ p.session p.rows →
    l.hardMessageEnd ≤ max p.session.lastConsolidated p.session.messages.length →
    Keeps s₀ p (rounds view messageTokens l c remaining round estimated p)
  | 0, _, _, p, h, _ => Keeps.of_kept h rfl rfl
  | remaining + 1, round, estimated, p, h, hhard => by
    unfold rounds
    cases hplan : planTokenCompactionBoundary view messageTokens p.session (l.plan estimated) with
    | none => exact Keeps.of_kept h rfl rfl
    | some planned =>
      dsimp only
      obtain ⟨hlast, hend⟩ := planTokenCompactionBoundary_ok hplan
      have hend' : planned ≤ l.hardMessageEnd := hend
      have hround := archiveRound_kept h hlast (by omega) c round
      split_ifs with hempty hover hestimated
      · exact Keeps.of_kept h rfl rfl
      · exact hround
      · exact hround
      · have hforward := hround.forward
        have hlonger := hround.longer
        exact hround.trans (rounds_kept hround.kept (by omega))

theorem underLock_kept {p : Progress M} (h : Kept s₀ p.session p.rows) (config : Config) (opts : Options)
    (c : Circumstances M) : Keeps s₀ p (underLock view messageTokens config opts c p) := by
  unfold underLock
  dsimp only
  split_ifs
  · exact Keeps.of_kept h rfl rfl
  · exact Keeps.of_kept h rfl rfl
  · exact Keeps.of_kept h rfl rfl
  · exact Keeps.of_kept h rfl rfl
  · exact rounds_kept h (max_le_max (le_refl _) (min_le_right _ _))

/-- **A call.** -/
theorem call_kept {session : Session M ℕ} (h : Kept s₀ session rows) (config : Config) (opts : Options)
    (c : Circumstances M) :
    Kept s₀ (maybeConsolidateByTokens view messageTokens config opts c session rows).session
        (maybeConsolidateByTokens view messageTokens config opts c session rows).rows ∧
      session.lastConsolidated ≤
        (maybeConsolidateByTokens view messageTokens config opts c session rows).session.lastConsolidated := by
  unfold maybeConsolidateByTokens
  split_ifs
  · exact ⟨h, le_refl _⟩
  · exact ⟨h, le_refl _⟩
  · have hlock := @underLock_kept M view messageTokens s₀
      { session := session
        rows := rows
        started := opts.notifyOnLockWait && c.locked } h config opts c
    exact ⟨hlock.kept, hlock.forward⟩

theorem step_kept {t : State M} (h : Kept s₀ t.session t.rows) (e : Event M) :
    Kept s₀ (step view messageTokens t e).session (step view messageTokens t e).rows ∧
      t.session.lastConsolidated ≤ (step view messageTokens t e).session.lastConsolidated := by
  cases e with
  | compact config opts c => exact call_kept h config opts c
  | messages ms => exact ⟨h.arrive ms, le_refl _⟩

theorem kept_initial (s₀ : Session M ℕ) : Kept s₀ s₀ [] where
  stretch := by simp
  covered := by
    have hnone : (s₀.messages.take s₀.lastConsolidated).drop s₀.lastConsolidated = [] := by
      rw [drop_eq_nil_iff, length_take]
      omega
    rw [hnone]
    rfl
  ordered := List.Pairwise.nil
  below := by simp
  current := rfl
  grown := le_refl _

end Kept

/-! ### Every run -/

section Runs
variable {M : Type} (view : M → Message) (messageTokens : M → ℕ)

/-- **What is committed is archived once.** In every run of calls and new messages, with whatever failures,
the history file keeps `Kept`, and no step moves `lastConsolidated` back. -/
theorem archived_once_committed (s₀ : Session M ℕ) (es : List (Event M)) :
    (∀ t ∈ visited (step view messageTokens) { session := s₀ } es, Kept s₀ t.session t.rows) ∧
    ∀ t ∈ taken (step view messageTokens) { session := s₀ } es,
      t.1.session.lastConsolidated ≤ (step view messageTokens t.1 t.2).session.lastConsolidated := by
  have hkept : ∀ t ∈ visited (step view messageTokens) { session := s₀ } es, Kept s₀ t.session t.rows :=
    invariant (I := fun t : State M => Kept s₀ t.session t.rows) (fun _ e h => (step_kept h e).1) es _
      (kept_initial s₀)
  exact ⟨hkept, fun t ht => (step_kept (hkept t.1 (mem_visited_of_mem_taken _ ht)) t.2).2⟩

/-- Each message is written to the history file at most once. -/
def ArchivedOnce (t : State M) : Prop := t.rows.Pairwise fun r r' => r.stop ≤ r'.first ∨ r'.stop ≤ r.first

end Runs

section Degraded

/-- A question, its answer, and the next question. -/
def asked : Session Message ℕ where
  key := "cli:direct"
  messages := [{ role := "user" }, { role := "assistant" }, { role := "user" }]
  lastConsolidated := 0
  createdAt := "2025-01-01T00:00:00.000Z"
  updatedAt := "2025-01-01T00:00:00.000Z"

/-- A call under token pressure whose summariser fails. -/
def failing : Event Message :=
  .compact
    { contextWindowTokens := 8192
      maxCompletionTokens := 1024
      consolidationRatio := 1 / 2 }
    { inputTokenBudget := some 100 }
    { estimates := fun _ => some 100
      archiving := fun _ => { answer := none } }

/-- **A message may be written twice**: both calls dump the question and the answer, since a raw dump does
not move `lastConsolidated`. -/
theorem not_archived_once :
    ¬ ∀ t ∈ visited (step id fun _ => 60) { session := asked } [failing, failing], ArchivedOnce t := by
  intro h
  have hfinal := h _ (final_mem_visited (step id fun _ => 60) [failing, failing] { session := asked })
  have hrows : (final (step id fun _ => 60) { session := asked } [failing, failing]).rows.map
      (fun r => (r.first, r.stop)) = [(0, 2), (0, 2)] := by decide +kernel
  have hpairs : ((final (step id fun _ => 60) { session := asked } [failing, failing]).rows.map
      (fun r => (r.first, r.stop))).Pairwise fun a b => a.2 ≤ b.1 ∨ b.2 ≤ a.1 := pairwise_map.mpr hfinal
  rw [hrows] at hpairs
  simp at hpairs

end Degraded

end Memmy.Conversation.Compaction
