import Mathlib.Data.List.Forall2
import Memmy.Conversation.Replay

/-! # What a replayed history is

Each pass of `getHistory` drops a front of the messages, or messages that are commands or say nothing; so an end
of the session is left, without these. The cut to the token limit can take an assistant message from its tool
results, and the search for a legal start that comes last cuts behind them.

* `forall₂_filterMap`, `exists_drop_filterMap`: the entries and the messages that they are of.
* `mem_declaredIds_of_noOrphans`: a tool result that is no orphan answers a message before it.
* `replayed_getHistory`: the property, for every session and all options. -/

namespace Memmy.Conversation.Window

open Conversation.Transcript Conversation.Replay List

/-! ### The property -/

/-- An assistant message that **says nothing** as it is replayed: no text, no tool calls and no reasoning. -/
def emptyAssistant (t : ReplayTexts) (o : HistoryOptions) (m : Entry) : Bool :=
  let m := sanitizeCrossProviderReplay o.targetProvider m
  m.role = "assistant" && isBlankText (replayContent t m o.includeTimestamps) && !hasAssistantReplayState m

/-- How many messages are replayed at most: a number that is not positive stands for the default. -/
def messageLimit (o : HistoryOptions) : ℕ := if 0 < o.maxMessages then o.maxMessages else 120

/-- **A replayed history.** -/
structure Replayed (t : ReplayTexts) (o : HistoryOptions) (s : Session Entry ℕ) (out : List Entry) : Prop where
  /-- The entries are, in order, those of an end of the unconsolidated messages, without commands and empty
  assistant messages. -/
  window : ∃ k, s.lastConsolidated ≤ k ∧
    List.Forall₂ (fun m entry => replayMessage t o m = some entry)
      ((s.messages.drop k).filter fun m => !m.commandMessage && !emptyAssistant t o m) out
  /-- Every tool result comes behind the message that declares its id. -/
  legal : ∀ front m back, out = front ++ m :: back → m.role = "tool" →
    ∀ id, m.toolCallId = some id → id ≠ "" →
      ∃ a ∈ front, a.role = "assistant" ∧ ∃ c ∈ a.toolCalls.getD [], c.id = some id
  bounded : out.length ≤ messageLimit o

/-! ### The entries and their messages -/

section Lists
variable {α β : Type} {f : α → Option β}

theorem forall₂_filterMap : ∀ l : List α,
    List.Forall₂ (fun a b => f a = some b) (l.filter fun a => (f a).isSome) (l.filterMap f)
  | [] => List.Forall₂.nil
  | a :: l => by
    cases h : f a with
    | none =>
      rw [filter_cons_of_neg (by simp [h]), filterMap_cons_none h]
      exact forall₂_filterMap l
    | some b =>
      rw [filter_cons_of_pos (by simp [h]), filterMap_cons_some h]
      exact List.Forall₂.cons h (forall₂_filterMap l)

/-- An end of the entries is the entries of an end. -/
theorem exists_drop_filterMap {l : List α} {out : List β} (h : out <:+ l.filterMap f) :
    ∃ k, out = (l.drop k).filterMap f := by
  obtain ⟨front, hfront⟩ := h
  obtain ⟨l₁, l₂, rfl, -, hout⟩ := filterMap_eq_append_iff.mp hfront.symm
  exact ⟨l₁.length, by rw [drop_left, hout]⟩

end Lists

/-! ### The passes -/

section Passes
variable (t : ReplayTexts) (o : HistoryOptions)

theorem replayMessage_eq_none_iff (m : Entry) : replayMessage t o m = none ↔ emptyAssistant t o m = true := by
  unfold replayMessage synthesizeContent emptyAssistant
  dsimp only
  split_ifs with h
  · simpa [and_assoc] using h
  · simpa [and_assoc] using h

/-- **A tool result that is no orphan** answers a message before it. -/
theorem mem_declaredIds_of_noOrphans {m : Entry} {back : List Entry} {id : String}
    (hid : resultId (view m) = some id) : ∀ {front : List Entry} {declared : List String},
    NoOrphans view declared (front ++ m :: back) → id ∈ declared ∨ ∃ a ∈ front, id ∈ declaredIds (view a)
  | [], _, h => Or.inl (h.1 id hid)
  | a :: front, declared, h => by
    rcases mem_declaredIds_of_noOrphans hid h.2 with hmem | ⟨a', ha', hmem⟩
    · rcases mem_append.mp hmem with hmem | hmem
      · exact Or.inr ⟨a, mem_cons_self, hmem⟩
      · exact Or.inl hmem
    · exact Or.inr ⟨a', mem_cons_of_mem _ ha', hmem⟩

theorem noOrphans_fromLegalStart (messages : List Entry) : NoOrphans view [] (fromLegalStart messages) := by
  unfold fromLegalStart findLegalMessageStart
  rcases legalStartFrom_spec view messages 0 0 [] with ⟨h, hn⟩ | ⟨k, -, h, hn⟩
  · rw [h, drop_zero]
    exact hn
  · rw [h, Nat.zero_add]
    exact hn

theorem alignWindowToUserTurn_suffix (messages : List Entry) : alignWindowToUserTurn messages <:+ messages := by
  unfold alignWindowToUserTurn
  split
  · split_ifs <;> exact drop_suffix _ _
  · exact suffix_rfl

theorem withinTokens_suffix (maxTokens : ℕ) (out : List Entry) : withinTokens t maxTokens out <:+ out := by
  have hselected : selectFrom t.estimateMessageTokens maxTokens out.reverse [] 0 <:+ out := by
    suffices h : ∀ (older selected : List Entry) (total : ℕ),
        selectFrom t.estimateMessageTokens maxTokens older selected total <:+ older.reverse ++ selected by
      simpa using h out.reverse [] 0
    intro older
    induction older with
    | nil => exact fun selected total => suffix_rfl
    | cons m older ih =>
      intro selected total
      unfold selectFrom
      split_ifs
      · exact suffix_append _ _
      · simpa using ih (m :: selected) (total + t.estimateMessageTokens m)
  refine (drop_suffix _ _).trans ?_
  split
  · exact (drop_suffix _ _).trans hselected
  · split
    · exact drop_suffix _ _
    · exact hselected

/-- What one message of the session gives. -/
def replayed (m : Entry) : Option Entry := if m.commandMessage then none else replayMessage t o m

theorem replayed_isSome (m : Entry) :
    (replayed t o m).isSome = (!m.commandMessage && !emptyAssistant t o m) := by
  unfold replayed
  cases hc : m.commandMessage with
  | true => rfl
  | false =>
    rw [if_neg (by simp), Bool.not_false, Bool.true_and, Bool.eq_iff_iff, Bool.not_eq_true',
      ← Bool.not_eq_true, ← replayMessage_eq_none_iff, ← Option.ne_none_iff_isSome]

theorem filterMap_filter_command (messages : List Entry) :
    (messages.filter fun m => !m.commandMessage).filterMap (replayMessage t o) =
      messages.filterMap (replayed t o) := by
  rw [filterMap_filter]
  refine filterMap_congr fun m _ => ?_
  unfold replayed
  cases m.commandMessage <;> rfl

theorem getHistory_suffix (s : Session Entry ℕ) :
    getHistory t o s <:+ ((s.messages.drop s.lastConsolidated).drop
      ((s.messages.drop s.lastConsolidated).length - messageLimit o)).filterMap (replayed t o) := by
  have hwindow : (replayWindow o s).filterMap (replayMessage t o) <:+
      ((s.messages.drop s.lastConsolidated).drop
        ((s.messages.drop s.lastConsolidated).length - messageLimit o)).filterMap (replayed t o) := by
    unfold replayWindow
    rw [filterMap_filter_command]
    exact ((drop_suffix _ _).trans (alignWindowToUserTurn_suffix _)).filterMap _
  refine (drop_suffix _ _).trans (List.IsSuffix.trans ?_ hwindow)
  cases o.maxTokens with
  | none => exact suffix_rfl
  | some maxTokens =>
    dsimp only
    split_ifs
    · exact withinTokens_suffix t maxTokens _
    · exact suffix_rfl

/-- **Every history is a replayed one**, for every session and all options. -/
theorem replayed_getHistory (s : Session Entry ℕ) : Replayed t o s (getHistory t o s) := by
  have hsuffix := getHistory_suffix t o s
  refine ⟨?_, ?_, ?_⟩
  · obtain ⟨j, hj⟩ : ∃ j, getHistory t o s =
        (s.messages.drop (s.lastConsolidated + j)).filterMap (replayed t o) := by
      obtain ⟨k, hk⟩ := exists_drop_filterMap hsuffix
      rw [drop_drop, drop_drop] at hk
      exact ⟨_, hk⟩
    refine ⟨s.lastConsolidated + j, Nat.le_add_right _ _, ?_⟩
    rw [hj, ← filter_congr fun m _ => replayed_isSome t o m]
    refine (forall₂_filterMap _).imp fun m entry h => ?_
    unfold replayed at h
    split_ifs at h
    exact h
  · intro front m back hout hrole id hid hne
    have hlegal : NoOrphans view [] (getHistory t o s) := noOrphans_fromLegalStart _
    have hresult : resultId (view m) = some id := by
      unfold resultId view truthyId
      rw [if_pos hrole]
      simp [hid, hne]
    rw [hout] at hlegal
    rcases mem_declaredIds_of_noOrphans hresult hlegal with hmem | ⟨a, ha, hmem⟩
    · cases hmem
    · refine ⟨a, ha, ?_⟩
      unfold declaredIds at hmem
      split_ifs at hmem with hassistant
      · obtain ⟨c, hc, hcid⟩ := mem_filterMap.mp hmem
        exact ⟨hassistant, c, hc, (Option.filter_eq_some_iff.mp hcid).1⟩
      · cases hmem
  · refine hsuffix.length_le.trans ((length_filterMap_le _ _).trans ?_)
    rw [length_drop]
    omega

end Passes

/-- **No limit is the default one**: `maxMessages` is zero, and the message of the user is replayed. -/
theorem more_than_zero : ∃ (t : ReplayTexts) (o : HistoryOptions) (s : Session Entry ℕ),
    o.maxMessages < (getHistory t o s).length :=
  ⟨{ sanitizeAssistantReplayText := id, estimateMessageTokens := fun _ => 4 }, { maxMessages := 0 },
    { key := "s", messages := [{ role := "user", content := .text "hi" }], lastConsolidated := 0
      createdAt := "", updatedAt := "" }, by decide +kernel⟩

end Memmy.Conversation.Window
