import Mathlib.Data.List.Infix
import Memmy.Conversation.Transcript

/-! # Trimming a session

`retainRecentLegalSuffix` keeps the last messages of a session: the window of the last `n`, from its
first user message on. A window without a user message is replaced by the `n` messages from the last
user message of the session on. `enforceFileCap` archives what this drops and `compactIdleSession`
does the same with the tail that is not consolidated. Both infer what was dropped from the lengths.

* `retained_eq`: what is kept, in one formula. It is a suffix, except in the replaced window.
* `Overshoots`: the replaced window is cut before the end of the session and something of it is
  kept. Then the newest messages are in neither part.
* `lossless_iff`: nothing is lost exactly if the window does not overshoot.

The messages are told apart by their positions: the functions run on `numbered` messages, and
`enforceFileCap_numbered`, `compactIdleSession_numbered` say that the numbers change nothing. -/

namespace Memmy.Conversation.Trim

open Lib.JsonValue Conversation.Transcript List

variable {M N : Type} (view : M → Message)

/-! ### The functions -/

/-- The window before its legal start is looked for. -/
def alignedWindow (ms : List M) (n : ℕ) : List M :=
  let window := ms.drop (ms.length - n)
  if window.any (fun m => isUser (view m)) then window.dropWhile fun m => !isUser (view m)
  else match lastUserIndex view ms with
    | some i => (ms.drop i).take n
    | none => window

/-- The messages that `retainRecentLegalSuffix(n)` keeps, for `n > 0`. -/
def retained (ms : List M) (n : ℕ) : List M :=
  let window := alignedWindow view ms n
  let legal := window.drop (findLegalMessageStart view window)
  let capped := legal.drop (legal.length - n)
  capped.drop (findLegalMessageStart view capped)

def retainRecentLegalSuffix (now : String) (s : Session M ℕ) (maxMessages : ℕ) : Session M ℕ :=
  if maxMessages = 0 then { s with messages := [], lastConsolidated := 0 }
  else
    let kept := retained view s.messages maxMessages
    { s with
      messages := kept
      lastConsolidated := s.lastConsolidated - (s.messages.length - kept.length)
      updatedAt := now }

/-- `enforceFileCap(onArchive, limit)`: the session, and the chunk that `onArchive` gets (empty if it
is not called). -/
def enforceFileCap (now : String) (s : Session M ℕ) (limit : ℕ) : Session M ℕ × List M :=
  if limit = 0 ∨ s.messages.length ≤ limit then (s, [])
  else
    let s' := retainRecentLegalSuffix view now s limit
    let droppedCount := s.messages.length - s'.messages.length
    if droppedCount = 0 then (s', [])
    else (s', (s.messages.take droppedCount).drop (min s.lastConsolidated droppedCount))

inductive SummaryMode where
  | text
  | dag
  deriving DecidableEq, Repr

structure IdleResult (M : Type) where
  session : Session M ℕ
  archived : List M := []
  summary : Option String

/-- `lastSummary` is written for a summary that says something. -/
def noteSummary (metadata : JsonObject) (summary : Option String) (lastActive : String) :
    JsonObject :=
  match summary with
  | some text =>
    if text ≠ "" ∧ text ≠ "(nothing)" then
      metadata.set "lastSummary"
        (.obj [("text", .str text), ("mode", .str "text"), ("lastActive", .str lastActive)])
    else metadata
  | none => metadata

/-- `compactIdleSession`; `archive` is the summary of the archived messages, `none` if they were
archived raw. -/
def compactIdleSession (mode : SummaryMode) (archive : List M → Option String) (now : String)
    (s : Session M ℕ) (maxSuffix : ℕ) : IdleResult M :=
  if mode = .dag then { session := s, summary := none }
  else
    let tail := s.messages.drop s.lastConsolidated
    if tail = [] then { session := { s with updatedAt := now }, summary := some "" }
    else
      let probe : Session M ℕ := { s with messages := tail, metadata := [], lastConsolidated := 0 }
      let kept := (retainRecentLegalSuffix view now probe maxSuffix).messages
      let archiveMessages := tail.take (tail.length - kept.length)
      let summary := if archiveMessages = [] then none else archive archiveMessages
      { session :=
          { s with
            messages := kept
            metadata := noteSummary s.metadata summary s.updatedAt
            lastConsolidated := 0
            updatedAt := now }
        archived := archiveMessages
        summary := summary }

/-! ### What is kept -/

/-- The window without a user message is replaced by the messages from the last user message on, and
it ends before the session does. -/
def Overshoots (ms : List M) (n : ℕ) : Prop :=
  0 < n ∧ ∃ i, lastUserIndex view ms = some i ∧ i + n < ms.length ∧
    findLegalMessageStart view ((ms.drop i).take n) < n

instance (ms : List M) (n : ℕ) : Decidable (Overshoots view ms n) :=
  decidable_of_iff (0 < n ∧ ∃ i ∈ List.range ms.length, lastUserIndex view ms = some i ∧
    i + n < ms.length ∧ findLegalMessageStart view ((ms.drop i).take n) < n) <| by
  refine and_congr_right fun _ => exists_congr fun i => ?_
  constructor
  · exact fun h => h.2
  · exact fun h => ⟨mem_range.mpr (by omega), h⟩

theorem dropWhile_suffix_drop (p : M → Bool) (ms : List M) (k : ℕ) : (ms.drop k).dropWhile p <:+ ms :=
  (dropWhile_suffix p).trans (drop_suffix k ms)

variable {ms : List M} {s : Session M ℕ} {now : String} {limit : ℕ}

variable {n : ℕ}

theorem any_window_iff :
    ((ms.drop (ms.length - n)).any fun m => isUser (view m)) = true ↔
      ∃ i, lastUserIndex view ms = some i ∧ ms.length ≤ i + n := by
  rw [any_eq_true]
  constructor
  · rintro ⟨m, hm, hu⟩
    obtain ⟨k, hk, rfl⟩ := getElem_of_mem hm
    rw [length_drop] at hk
    rw [getElem_drop] at hu
    cases hi : lastUserIndex view ms with
    | none =>
      have hin : ms.length - n + k < ms.length := by omega
      rw [(lastUserIndex_eq_none view).mp hi _ (getElem_mem hin)] at hu
      cases hu
    | some i =>
      refine ⟨i, rfl, ?_⟩
      by_contra hlt
      obtain ⟨-, hnone, -⟩ := lastUserIndex_eq_some view hi
      have hmem : ms[ms.length - n + k] ∈ ms.drop (i + 1) := by
        rw [mem_iff_getElem]
        refine ⟨ms.length - n + k - (i + 1), by rw [length_drop]; omega, ?_⟩
        rw [getElem_drop]
        congr 1; omega
      rw [hnone _ hmem] at hu
      cases hu
  · rintro ⟨i, hi, hle⟩
    obtain ⟨hlt, -, hu⟩ := lastUserIndex_eq_some view hi
    refine ⟨ms[i], ?_, hu hlt⟩
    rw [mem_iff_getElem]
    refine ⟨i - (ms.length - n), by rw [length_drop]; omega, ?_⟩
    rw [getElem_drop]
    congr 1; omega

theorem alignedWindow_cases (ms : List M) (n : ℕ) :
    (∃ i, lastUserIndex view ms = some i ∧ i + n < ms.length ∧
      alignedWindow view ms n = (ms.drop i).take n) ∨
    ((∀ i, lastUserIndex view ms = some i → ms.length ≤ i + n) ∧
      alignedWindow view ms n <:+ ms ∧ (alignedWindow view ms n).length ≤ n) := by
  have hwin : (ms.drop (ms.length - n)).length ≤ n := by rw [length_drop]; omega
  unfold alignedWindow
  by_cases hany : ((ms.drop (ms.length - n)).any fun m => isUser (view m)) = true
  · right
    simp only [hany, if_true]
    obtain ⟨i, hi, hle⟩ := (any_window_iff view).mp hany
    refine ⟨fun j hj => ?_, dropWhile_suffix_drop _ _ _, ?_⟩
    · rw [hi] at hj; cases hj; exact hle
    · exact (dropWhile_suffix _).length_le.trans hwin
  · simp only [hany]
    cases hi : lastUserIndex view ms with
    | some i =>
      left
      refine ⟨i, rfl, ?_, rfl⟩
      by_contra hlt
      exact hany ((any_window_iff view).mpr ⟨i, hi, by omega⟩)
    | none => exact Or.inr ⟨by simp, drop_suffix _ _, hwin⟩

theorem alignedWindow_length_le (ms : List M) (n : ℕ) : (alignedWindow view ms n).length ≤ n := by
  rcases alignedWindow_cases view ms n with ⟨i, -, -, h⟩ | ⟨-, -, h⟩
  · rw [h]; exact length_take_le _ _
  · exact h

/-- The cap and the second legal start change nothing. -/
theorem retained_eq (ms : List M) (n : ℕ) :
    retained view ms n =
      (alignedWindow view ms n).drop (findLegalMessageStart view (alignedWindow view ms n)) := by
  have hle := alignedWindow_length_le view ms n
  have hcap : ((alignedWindow view ms n).drop
      (findLegalMessageStart view (alignedWindow view ms n))).length - n = 0 := by
    rw [length_drop]; omega
  simp only [retained, hcap, drop_zero, findLegalMessageStart_drop]

theorem retained_length_le (ms : List M) (n : ℕ) : (retained view ms n).length ≤ n := by
  rw [retained_eq, length_drop]
  exact (Nat.sub_le _ _).trans (alignedWindow_length_le view ms n)

theorem retained_suffix (hn : 0 < n) (h : ¬ Overshoots view ms n) : retained view ms n <:+ ms := by
  rw [retained_eq]
  rcases alignedWindow_cases view ms n with ⟨i, hi, hlt, he⟩ | ⟨-, hs, -⟩
  · have hlen : (alignedWindow view ms n).length ≤ findLegalMessageStart view ((ms.drop i).take n) := by
      rw [he, length_take, length_drop]
      by_contra hc
      exact h ⟨hn, i, hi, hlt, by omega⟩
    rw [he] at hlen ⊢
    rw [drop_eq_nil_of_le hlen]
    exact nil_suffix
  · exact (drop_suffix _ _).trans hs

theorem enforceFileCap_eq (hlimit : 0 < limit) (hlen : limit < s.messages.length) :
    let kept := retained view s.messages limit
    let dropped := s.messages.length - kept.length
    enforceFileCap view now s limit =
      ({ s with
          messages := kept
          lastConsolidated := s.lastConsolidated - dropped
          updatedAt := now },
        (s.messages.take dropped).drop (min s.lastConsolidated dropped)) := by
  have hbound := retained_length_le view s.messages limit
  have hkeep : retainRecentLegalSuffix view now s limit =
      { s with
        messages := retained view s.messages limit
        lastConsolidated := s.lastConsolidated - (s.messages.length - (retained view s.messages limit).length)
        updatedAt := now } := by
    unfold retainRecentLegalSuffix
    rw [if_neg (by omega)]
  simp only [enforceFileCap, hkeep]
  rw [if_neg (by omega), if_neg (by omega)]

/-- When the window overshoots, its last message is kept although later messages follow it. -/
theorem retained_of_overshoots (h : Overshoots view ms n) :
    ∃ j, j + 1 < ms.length ∧ ∃ front, ∀ hj : j < ms.length, retained view ms n = front ++ [ms[j]] := by
  obtain ⟨hn, i, hi, hlt, hk⟩ := h
  rw [retained_eq]
  have he : alignedWindow view ms n = (ms.drop i).take n := by
    rcases alignedWindow_cases view ms n with ⟨j, hj, -, he⟩ | ⟨hno, -, -⟩
    · rw [hi] at hj; cases hj; exact he
    · have := hno i hi; omega
  have hlen : ((ms.drop i).take n).length = n := by
    rw [length_take, length_drop]; omega
  rw [he]
  set k := findLegalMessageStart view ((ms.drop i).take n) with hkdef
  have hne : ((ms.drop i).take n).drop k ≠ [] := by
    intro hnil
    rw [drop_eq_nil_iff, hlen] at hnil
    omega
  refine ⟨i + n - 1, by omega, (((ms.drop i).take n).drop k).dropLast, fun hj => ?_⟩
  rw [← dropLast_append_getLast hne]
  congr 2
  · rw [dropLast_append_getLast hne]
  · rw [getLast_drop, getLast_eq_getElem]
    simp only [getElem_take, getElem_drop, hlen]
    congr 1; omega

/-! ### The functions on numbered messages -/

theorem retained_map (f : N → M) (ms : List N) (n : ℕ) :
    retained view (ms.map f) n = (retained (fun m => view (f m)) ms n).map f := by
  have hal : alignedWindow view (ms.map f) n =
      (alignedWindow (fun m => view (f m)) ms n).map f := by
    unfold alignedWindow
    simp only [length_map, ← map_drop, any_map, dropWhile_map, lastUserIndex_map, Function.comp_def]
    split_ifs
    · rfl
    · split <;> simp only [← map_take]
  rw [retained_eq, retained_eq, hal, findLegalMessageStart_map, map_drop]

theorem retainRecentLegalSuffix_map (f : N → M) (now : String) (s : Session N ℕ) (n : ℕ) :
    retainRecentLegalSuffix view now (s.map f) n =
      (retainRecentLegalSuffix (fun m => view (f m)) now s n).map f := by
  unfold retainRecentLegalSuffix Session.map
  split_ifs
  · rfl
  · simp only [retained_map, length_map]

theorem enforceFileCap_map (f : N → M) (now : String) (s : Session N ℕ) (limit : ℕ) :
    enforceFileCap view now (s.map f) limit =
      ((enforceFileCap (fun m => view (f m)) now s limit).1.map f,
        (enforceFileCap (fun m => view (f m)) now s limit).2.map f) := by
  unfold enforceFileCap
  simp only [retainRecentLegalSuffix_map, Session.map_messages, Session.map_lastConsolidated, length_map]
  split_ifs
  · rfl
  · rfl
  · simp only [map_drop, map_take]

theorem compactIdleSession_map (f : N → M) (mode : SummaryMode) (archive : List M → Option String)
    (now : String) (s : Session N ℕ) (maxSuffix : ℕ) :
    let r := compactIdleSession (fun m => view (f m)) mode (fun ms => archive (ms.map f)) now s
      maxSuffix
    compactIdleSession view mode archive now (s.map f) maxSuffix =
      { session := r.session.map f, archived := r.archived.map f, summary := r.summary } := by
  have hprobe : ∀ tail : List N,
      ({ (s.map f) with messages := tail.map f, metadata := [], lastConsolidated := 0 } : Session M ℕ)
        = Session.map f { s with messages := tail, metadata := [], lastConsolidated := 0 } :=
    fun _ => rfl
  simp only [compactIdleSession, Session.map_messages, Session.map_lastConsolidated, ← map_drop, map_eq_nil_iff,
    hprobe, retainRecentLegalSuffix_map, length_map, ← map_take]
  split_ifs <;> rfl

theorem enforceFileCap_numbered (now : String) (s : Session M ℕ) (limit : ℕ) :
    let r := enforceFileCap (fun p => view p.1) now s.numbered limit
    enforceFileCap view now s limit = (r.1.map Prod.fst, r.2.map Prod.fst) := by
  have h := enforceFileCap_map view Prod.fst now s.numbered limit
  rwa [Session.map_numbered] at h

theorem compactIdleSession_numbered (mode : SummaryMode) (archive : List M → Option String)
    (now : String) (s : Session M ℕ) (maxSuffix : ℕ) :
    let r := compactIdleSession (fun p => view p.1) mode (fun ms => archive (ms.map Prod.fst)) now
      s.numbered maxSuffix
    compactIdleSession view mode archive now s maxSuffix =
      { session := r.session.map Prod.fst, archived := r.archived.map Prod.fst,
        summary := r.summary } := by
  have h := compactIdleSession_map view Prod.fst mode archive now s.numbered maxSuffix
  rwa [Session.map_numbered] at h

theorem overshoots_map (f : N → M) (ms : List N) (n : ℕ) :
    Overshoots view (ms.map f) n ↔ Overshoots (fun m => view (f m)) ms n := by
  unfold Overshoots
  simp only [lastUserIndex_map, length_map, ← map_drop, ← map_take, findLegalMessageStart_map]

/-- The positions of consecutive messages. -/
theorem mem_drop_take_zipIdx {d e : ℕ} {p : M × ℕ} :
    p ∈ (ms.zipIdx.take d).drop e ↔ p ∈ ms.zipIdx ∧ e ≤ p.2 ∧ p.2 < d := by
  constructor
  · intro h
    obtain ⟨k, hk, rfl⟩ := getElem_of_mem h
    have hlt : k < d - e ∧ e + k < ms.length := by
      simp only [length_drop, length_take, length_zipIdx] at hk; omega
    refine ⟨mem_of_mem_take (mem_of_mem_drop h), ?_⟩
    simp only [getElem_drop, getElem_take, getElem_zipIdx]
    omega
  · rintro ⟨h, he, hd⟩
    obtain ⟨k, hk, rfl⟩ := getElem_of_mem h
    rw [length_zipIdx] at hk
    simp only [getElem_zipIdx, Nat.zero_add] at he hd
    rw [mem_iff_getElem]
    refine ⟨k - e, by simp only [length_drop, length_take, length_zipIdx]; omega, ?_⟩
    simp only [getElem_drop, getElem_take]
    congr 1; omega

/-! ### Nothing is lost -/

/-- **What trimming a session to `limit` messages promises**: a message that was not consolidated is
in one of the two parts, the newest messages are retained, and `lastConsolidated` still separates
the consolidated messages from the others. -/
structure CapLossless (now : String) (s : Session M ℕ) (limit : ℕ) : Prop where
  partition : ∀ p ∈ s.numbered.messages, s.lastConsolidated ≤ p.2 →
    Xor (p ∈ (enforceFileCap (fun p => view p.1) now s.numbered limit).2)
      (p ∈ (enforceFileCap (fun p => view p.1) now s.numbered limit).1.messages)
  suffix : (enforceFileCap (fun p => view p.1) now s.numbered limit).1.messages <:+
    s.numbered.messages
  bounded : (enforceFileCap (fun p => view p.1) now s.numbered limit).1.messages.length ≤ limit
  cursor : ∀ i (hi : i < (enforceFileCap (fun p => view p.1) now s.numbered limit).1.messages.length),
    (enforceFileCap (fun p => view p.1) now s.numbered limit).1.lastConsolidated ≤ i ↔
      s.lastConsolidated ≤ (enforceFileCap (fun p => view p.1) now s.numbered limit).1.messages[i].2

/-- **What compacting an idle session promises**: the archived messages and then the messages that
are left to consolidate are the messages there were to consolidate. -/
def IdleLossless (mode : SummaryMode) (archive : List (M × ℕ) → Option String) (now : String)
    (s : Session M ℕ) (maxSuffix : ℕ) : Prop :=
  let r := compactIdleSession (fun p => view p.1) mode archive now s.numbered maxSuffix
  r.archived ++ r.session.messages.drop r.session.lastConsolidated =
    s.numbered.messages.drop s.lastConsolidated

theorem overshoots_numbered (s : Session M ℕ) (n : ℕ) :
    Overshoots (fun p => view p.1) s.numbered.messages n ↔ Overshoots view s.messages n := by
  rw [← overshoots_map view Prod.fst, Session.numbered_messages, zipIdx_map_fst]

theorem not_suffix_of_overshoots {k : ℕ} (h : Overshoots (fun p : M × ℕ => view p.1) (ms.zipIdx.drop k) n) :
    ¬ retained (fun p => view p.1) (ms.zipIdx.drop k) n <:+ ms.zipIdx.drop k := by
  obtain ⟨j, hj, front, hr⟩ := retained_of_overshoots _ h
  rw [hr (by omega)]
  rintro ⟨t, ht⟩
  rw [← append_assoc] at ht
  have hlen := congrArg List.length ht
  rw [length_append, length_singleton] at hlen
  have hlast : (t ++ front ++ [(ms.zipIdx.drop k)[j]])[(t ++ front).length]? =
      some ((ms.zipIdx.drop k)[j]) := getElem?_concat_length
  rw [ht, getElem?_eq_getElem (by omega)] at hlast
  simp only [getElem_drop, getElem_zipIdx, Option.some.injEq, Prod.mk.injEq] at hlast
  omega

theorem capLossless_of_suffix (hlimit : 0 < limit) (h : limit < s.messages.length →
      retained (fun p => view p.1) s.messages.zipIdx limit <:+ s.messages.zipIdx) :
    CapLossless view now s limit := by
  by_cases hle : s.messages.length ≤ limit
  · have he : enforceFileCap (fun p => view p.1) now s.numbered limit = (s.numbered, []) := by
      unfold enforceFileCap
      rw [if_pos (Or.inr (by simpa using hle))]
    refine ⟨?_, ?_, ?_, ?_⟩ <;> rw [he]
    · exact fun p hp _ => Or.inr ⟨hp, not_mem_nil⟩
    · simpa using hle
    · intro i hi
      simp [Session.numbered]
  · have he : enforceFileCap (fun p => view p.1) now s.numbered limit = _ :=
      enforceFileCap_eq _ hlimit (by simpa using hle)
    obtain ⟨t, ht⟩ := h (by omega)
    simp only [Session.numbered_messages, Session.numbered_lastConsolidated] at he
    set kept := retained (fun p => view p.1) s.messages.zipIdx limit with hkept
    have hlen : t.length + kept.length = s.messages.length := by
      rw [← length_zipIdx (l := s.messages) (i := 0), ← ht, length_append]
    have hdrop : kept = (s.messages.zipIdx.take s.messages.length).drop t.length := by
      rw [← length_zipIdx (l := s.messages) (i := 0), take_length, ← ht, drop_left]
    have hd : s.messages.zipIdx.length - kept.length = t.length := by
      rw [length_zipIdx]; omega
    rw [hd] at he
    refine ⟨?_, ?_, ?_, ?_⟩ <;> rw [he]
    · intro p hp hlc
      have hlt := snd_lt_of_mem_zipIdx hp
      have hkeep : p ∈ kept ↔ t.length ≤ p.2 := by
        rw [hdrop, mem_drop_take_zipIdx]; exact ⟨fun h => h.2.1, fun h => ⟨hp, h, hlt⟩⟩
      have harch : p ∈ (s.messages.zipIdx.take t.length).drop (min s.lastConsolidated t.length) ↔
          p.2 < t.length := by
        rw [mem_drop_take_zipIdx]
        exact ⟨fun h => h.2.2, fun h => ⟨hp, (Nat.min_le_left _ _).trans hlc, h⟩⟩
      rw [harch, hkeep, xor_def]
      omega
    · exact ⟨t, ht⟩
    · exact retained_length_le _ _ _
    · intro i hi
      simp only [hdrop, getElem_drop, getElem_take, getElem_zipIdx]
      omega

/-- **The cap loses nothing exactly if its window does not overshoot.** -/
theorem capLossless_iff (hlimit : 0 < limit) :
    CapLossless view now s limit ↔ ¬ Overshoots view s.messages limit := by
  constructor
  · rintro ⟨-, hsuffix, -, -⟩ hover
    have hlen : limit < s.messages.length := by
      obtain ⟨-, i, -, hlt, -⟩ := hover; omega
    have he : enforceFileCap (fun p => view p.1) now s.numbered limit = _ :=
      enforceFileCap_eq _ hlimit (by simpa using hlen)
    rw [he] at hsuffix
    rw [← overshoots_numbered, Session.numbered_messages, ← drop_zero (l := s.messages.zipIdx)]
      at hover
    exact not_suffix_of_overshoots view hover (by simpa using hsuffix)
  · intro hover
    refine capLossless_of_suffix view hlimit fun _ => ?_
    rw [← overshoots_numbered] at hover
    exact retained_suffix _ hlimit hover

theorem overshoots_drop_numbered (s : Session M ℕ) (k n : ℕ) :
    Overshoots (fun p => view p.1) (s.messages.zipIdx.drop k) n ↔ Overshoots view (s.messages.drop k) n := by
  rw [← overshoots_map view Prod.fst, map_drop, zipIdx_map_fst]

theorem compactIdleSession_parts (archive : List M → Option String) (now : String) (s : Session M ℕ)
    (maxSuffix : ℕ) (htail : s.messages.drop s.lastConsolidated ≠ []) :
    let tail := s.messages.drop s.lastConsolidated
    let kept := if maxSuffix = 0 then [] else retained view tail maxSuffix
    let r := compactIdleSession view .text archive now s maxSuffix
    r.archived = tail.take (tail.length - kept.length) ∧ r.session.messages = kept ∧
      r.session.lastConsolidated = 0 := by
  simp only [compactIdleSession, retainRecentLegalSuffix, reduceCtorEq, if_false, if_neg htail]
  split_ifs <;> exact ⟨rfl, rfl, trivial⟩

/-- **Compacting an idle session loses nothing exactly if the window of its tail does not
overshoot.** -/
theorem idleLossless_iff {mode : SummaryMode} {archive : List (M × ℕ) → Option String}
    {maxSuffix : ℕ} :
    IdleLossless view mode archive now s maxSuffix ↔
      mode = .dag ∨ ¬ Overshoots view (s.messages.drop s.lastConsolidated) maxSuffix := by
  cases mode with
  | dag => simp [IdleLossless, compactIdleSession]
  | text =>
    unfold IdleLossless
    simp only [reduceCtorEq, false_or, ← overshoots_drop_numbered]
    by_cases htail : s.messages.zipIdx.drop s.lastConsolidated = []
    · have hno : ¬ Overshoots (fun p : M × ℕ => view p.1)
          (s.messages.zipIdx.drop s.lastConsolidated) maxSuffix := by
        rintro ⟨-, i, hi, -⟩
        rw [htail] at hi
        cases hi
      simp only [hno, not_false_iff, iff_true]
      simp [compactIdleSession, htail]
    · obtain ⟨h1, h2, h3⟩ := compactIdleSession_parts (fun p : M × ℕ => view p.1) archive now
        s.numbered maxSuffix htail
      simp only [h1, h2, h3, drop_zero, Session.numbered_messages,
        Session.numbered_lastConsolidated, ← suffix_iff_eq_append]
      by_cases h0 : maxSuffix = 0
      · simp [h0, Overshoots]
      · rw [if_neg h0]
        exact ⟨fun hs hover => not_suffix_of_overshoots view hover hs,
          retained_suffix _ (Nat.pos_of_ne_zero h0)⟩

/-- **Trimming loses nothing exactly if no window overshoots**, the cap's nor the idle session's. -/
theorem lossless_iff (s : Session M ℕ) (now : String) (limit : ℕ) (hlimit : 0 < limit)
    (mode : SummaryMode) (archive : List (M × ℕ) → Option String) (maxSuffix : ℕ) :
    (CapLossless view now s limit ↔ ¬ Overshoots view s.messages limit) ∧
      (IdleLossless view mode archive now s maxSuffix ↔
        mode = .dag ∨ ¬ Overshoots view (s.messages.drop s.lastConsolidated) maxSuffix) :=
  ⟨capLossless_iff view hlimit, idleLossless_iff view⟩

/-- A user message and a turn of four messages without another one. -/
def longTurn : Session Message ℕ where
  key := "cli:direct"
  messages :=
    { role := "user", content := .text "go" } ::
      ["a", "b", "c", "d"].map fun t => { role := "assistant", content := .text t }
  lastConsolidated := 0
  createdAt := "2026-01-01T00:00:00.000Z"
  updatedAt := "2026-01-01T00:00:00.000Z"

theorem lossless_iff_longTurn :
    CapLossless id "2026-01-02T00:00:00.000Z" longTurn 4 ↔ ¬ Overshoots id longTurn.messages 4 :=
  (lossless_iff id longTurn "2026-01-02T00:00:00.000Z" 4 (by decide) .text (fun _ => none) 8).1

/-- **The newest messages are lost**: the turn capped to two messages archives and retains the same
two oldest ones. -/
theorem longTurn_loses :
    ¬ CapLossless id "2026-01-02T00:00:00.000Z" longTurn 2 ∧
      (enforceFileCap id "2026-01-02T00:00:00.000Z" longTurn 2).1.messages =
        longTurn.messages.take 2 ∧
      longTurn.messages.take 2 <+: (enforceFileCap id "2026-01-02T00:00:00.000Z" longTurn 2).2 := by
  rw [capLossless_iff id (by decide)]
  decide

end Memmy.Conversation.Trim
