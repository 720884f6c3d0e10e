import Memmy.Conversation.Transcript
import Memmy.Lib.Splice

/-! # Tool calls and their results in a request

A provider takes a list of messages only if every tool result answers a call that was declared before
it, and every declared call is answered before the next assistant message (`Legal`). Two functions
repair a list: `dropOrphanToolResults` drops the results of calls that were not declared before, and
`backfillMissingToolResults` adds a result for every declared id without one. Both compare ids with
those of the whole list.

* `backfill_eq_fill`: the backfill, splices with a running offset, puts every new result behind the
  results that follow its assistant message.
* `legal_repair_iff`: the repaired list is legal exactly if the list is `Paired`: an id that is
  answered somewhere is answered at every assistant message that declares it, before the next one.
* `Tight`: every result stands in the run of tool messages directly behind an assistant message that
  declares it. Tight lists stay tight when they are cut at messages that are no results. -/

namespace Memmy.AgentRuntime.ToolPairing

open Conversation.Transcript Lib.Splice List Option

/-! ### The functions -/

def isTool (m : Message) : Bool := m.role = "tool"

def isAssistant (m : Message) : Bool := m.role = "assistant"

/-- The loop of `dropOrphanToolResults`. -/
def dropFrom : List String → List Message → List Message
  | _, [] => []
  | declared, m :: ms =>
    match resultId m with
    | some id => if id ∈ declared then m :: dropFrom declared ms else dropFrom declared ms
    | none => m :: dropFrom (declaredIds m ++ declared) ms

def dropOrphanToolResults (messages : List Message) : List Message := dropFrom [] messages

structure DeclaredCall where
  index : ℕ
  id : String
  name : String
  deriving DecidableEq, Repr

def callsOf (m : Message) : List (String × String) :=
  if m.role = "assistant" then
    m.toolCalls.filterMap fun c => (truthyId c.id).map fun id => (id, c.name.getD "")
  else []

def declaredCalls : ℕ → List Message → List DeclaredCall
  | _, [] => []
  | i, m :: ms => (callsOf m).map (fun c => ⟨i, c.1, c.2⟩) ++ declaredCalls (i + 1) ms

def BACKFILL_CONTENT : String := "[Tool result unavailable - call was interrupted or lost]"

def backfillMessage (id name : String) : Message where
  role := "tool"
  content := .text BACKFILL_CONTENT
  toolCallId := some id
  name := some name

def backfillMissingToolResults (messages : List Message) : List Message :=
  let fulfilled := messages.filterMap resultId
  let missing := (declaredCalls 0 messages).filter fun item => item.id ∉ fulfilled
  if missing = [] then messages
  else (missing.foldl
    (fun state item => spliceStep isTool state (item.index, backfillMessage item.id item.name))
    (messages, 0)).1

/-! ### Legal lists -/

/-- The messages before the next assistant message. -/
def block (ms : List Message) : List Message := ms.takeWhile fun m => !isAssistant m

/-- A tool message of the list answers the id. -/
def Answers (ms : List Message) (id : String) : Prop := ∃ r ∈ ms, resultId r = some id

instance (ms : List Message) (id : String) : Decidable (Answers ms id) := by
  unfold Answers; infer_instance

/-- Every declared id is answered before the next assistant message. -/
def Answered : List Message → Prop
  | [] => True
  | m :: ms => (∀ id ∈ declaredIds m, Answers (block ms) id) ∧ Answered ms

instance decidableAnswered : ∀ ms : List Message, Decidable (Answered ms)
  | [] => .isTrue trivial
  | m :: ms =>
    have := decidableAnswered ms
    inferInstanceAs (Decidable ((∀ id ∈ declaredIds m, Answers (block ms) id) ∧ Answered ms))

/-- **A provider-legal list.** -/
structure Legal (ms : List Message) : Prop where
  noOrphans : NoOrphans (fun m => m) [] ms
  answered : Answered ms

/-- The ids of the results that come after a declaration of their id. -/
def answeredIds : List String → List Message → List String
  | _, [] => []
  | declared, m :: ms =>
    match resultId m with
    | some id => if id ∈ declared then id :: answeredIds declared ms else answeredIds declared ms
    | none => answeredIds (declaredIds m ++ declared) ms

/-- The ids of `answered` are answered wherever they are declared, before the next assistant
message. -/
def PairedFor (answered : List String) : List Message → Prop
  | [] => True
  | m :: ms => (∀ id ∈ declaredIds m, id ∈ answered → Answers (block ms) id) ∧ PairedFor answered ms

instance decidablePairedFor (answered : List String) : ∀ ms : List Message, Decidable (PairedFor answered ms)
  | [] => .isTrue trivial
  | m :: ms =>
    have := decidablePairedFor answered ms
    inferInstanceAs (Decidable ((∀ id ∈ declaredIds m, id ∈ answered → Answers (block ms) id) ∧
      PairedFor answered ms))

/-- **An id that is answered** after a declaration is answered at every declaration. -/
def Paired (ms : List Message) : Prop := PairedFor (answeredIds [] ms) ms

instance (ms : List Message) : Decidable (Paired ms) := by
  unfold Paired; infer_instance

/-! ### Declarations and results -/

section Ids
variable {m : Message} {ms : List Message} {id : String}

theorem declaredIds_eq (m : Message) : declaredIds m = (callsOf m).map Prod.fst := by
  unfold declaredIds callsOf
  split_ifs
  · rw [map_filterMap]
    refine congrArg (fun f => List.filterMap f m.toolCalls) (funext fun c => ?_)
    cases truthyId c.id <;> rfl
  · rfl

theorem isTool_of_resultId (h : resultId m = some id) : isTool m = true := by
  unfold resultId at h
  split_ifs at h with hr
  simpa [isTool] using hr

theorem callsOf_of_not_assistant (h : isAssistant m = false) : callsOf m = [] := by
  unfold callsOf
  rw [if_neg (by simpa [isAssistant] using h)]

theorem isAssistant_of_isTool (h : isTool m = true) : isAssistant m = false := by
  have hr : m.role = "tool" := by simpa [isTool] using h
  simp [isAssistant, hr]

theorem declaredIds_of_not_assistant (h : isAssistant m = false) : declaredIds m = [] := by
  rw [declaredIds_eq, callsOf_of_not_assistant h, map_nil]

theorem resultId_of_isTool (h : isTool m = false) : resultId m = none := by
  unfold resultId
  rw [if_neg (by simpa [isTool] using h)]

theorem ne_empty_of_declared (h : id ∈ declaredIds m) : id ≠ "" := by
  unfold declaredIds at h
  split_ifs at h
  · obtain ⟨c, -, hc⟩ := mem_filterMap.mp h
    simpa using (filter_eq_some_iff.mp hc).2
  · cases h

theorem resultId_backfillMessage (hid : id ≠ "") (name : String) :
    resultId (backfillMessage id name) = some id := by
  simp [resultId, backfillMessage, truthyId, hid]

theorem answers_nil (id : String) : ¬ Answers [] id := by
  rintro ⟨r, hr, -⟩
  cases hr

theorem answers_cons : Answers (m :: ms) id ↔ resultId m = some id ∨ Answers ms id := by
  unfold Answers
  rw [exists_mem_cons_iff]

theorem block_cons_of_assistant (h : isAssistant m = true) : block (m :: ms) = [] := by
  unfold block
  rw [takeWhile_cons_of_neg (by simp [h])]

theorem block_cons (h : isAssistant m = false) : block (m :: ms) = m :: block ms := by
  unfold block
  rw [takeWhile_cons_of_pos (by simp [h])]

end Ids

/-! ### Dropping orphans -/

section Drop
variable {declared answered : List String} {id : String}

theorem dropFrom_sublist : ∀ (declared : List String) (ms : List Message), (dropFrom declared ms).Sublist ms
  | _, [] => List.Sublist.slnil
  | declared, m :: ms => by
    unfold dropFrom
    split
    · split_ifs
      · exact (dropFrom_sublist declared ms).cons_cons m
      · exact (dropFrom_sublist declared ms).cons m
    · exact (dropFrom_sublist _ ms).cons_cons m

/-- **No orphan is left.** -/
theorem noOrphans_dropFrom : ∀ (declared : List String) (ms : List Message),
    NoOrphans (fun m => m) declared (dropFrom declared ms)
  | _, [] => trivial
  | declared, m :: ms => by
    unfold dropFrom
    cases hm : resultId m with
    | some id =>
      dsimp only
      by_cases hid : id ∈ declared
      · rw [if_pos hid]
        refine ⟨fun id' h' => ?_, ?_⟩
        · have : id' = id := by rw [hm] at h'; exact (mem_some.mp h').symm
          rw [this]
          exact hid
        · rw [declaredIds_of_resultId hm, nil_append]
          exact noOrphans_dropFrom declared ms
      · rw [if_neg hid]
        exact noOrphans_dropFrom declared ms
    | none =>
      refine ⟨fun id' h' => ?_, noOrphans_dropFrom _ ms⟩
      rw [hm] at h'
      cases h'

theorem results_dropFrom : ∀ (declared : List String) (ms : List Message),
    (dropFrom declared ms).filterMap resultId = answeredIds declared ms
  | _, [] => rfl
  | declared, m :: ms => by
    unfold dropFrom answeredIds
    cases hm : resultId m with
    | some id =>
      dsimp only
      split_ifs
      · rw [filterMap_cons_some hm, results_dropFrom declared ms]
      · exact results_dropFrom declared ms
    | none =>
      rw [filterMap_cons_none hm, results_dropFrom _ ms]

theorem answers_block_dropFrom : ∀ {declared : List String} (_ : id ∈ declared) (ms : List Message),
    Answers (block (dropFrom declared ms)) id ↔ Answers (block ms) id
  | _, _, [] => Iff.rfl
  | declared, hd, m :: ms => by
    unfold dropFrom
    cases hm : resultId m with
    | some id' =>
      have ha := isAssistant_of_isTool (isTool_of_resultId hm)
      have ih := answers_block_dropFrom hd ms
      dsimp only
      rw [block_cons ha, answers_cons, hm]
      by_cases hid : id' ∈ declared
      · rw [if_pos hid, block_cons ha, answers_cons, hm, ih]
      · rw [if_neg hid, ih]
        constructor
        · exact Or.inr
        · rintro (he | h)
          · rw [← some.inj he] at hd
            exact absurd hd hid
          · exact h
    | none =>
      cases ha : isAssistant m with
      | true => rw [block_cons_of_assistant ha, block_cons_of_assistant ha]
      | false =>
        rw [block_cons ha, block_cons ha, answers_cons, answers_cons,
          answers_block_dropFrom (mem_append_right _ hd) ms]

theorem pairedFor_dropFrom : ∀ (declared : List String) (ms : List Message),
    PairedFor answered (dropFrom declared ms) ↔ PairedFor answered ms
  | _, [] => Iff.rfl
  | declared, m :: ms => by
    unfold dropFrom
    cases hm : resultId m with
    | some id =>
      have ih := pairedFor_dropFrom declared ms
      have hnone := declaredIds_of_resultId hm
      dsimp only
      split_ifs
      · simp only [PairedFor, hnone, ih, not_mem_nil, false_implies, implies_true]
      · simp only [PairedFor, hnone, ih, not_mem_nil, false_implies, implies_true, true_and]
    | none =>
      refine and_congr (forall₂_congr fun id hid => imp_congr_right fun _ => ?_) (pairedFor_dropFrom _ ms)
      exact answers_block_dropFrom (mem_append_left _ hid) ms

end Drop

/-! ### Backfilling -/

/-- The results that are added for a message. -/
def missingResults (fulfilled : List String) (m : Message) : List Message :=
  ((callsOf m).filter fun c => c.1 ∉ fulfilled).map fun c => backfillMessage c.1 c.2

section Fill
variable {fulfilled declared : List String} {m : Message} {ms xs : List Message} {id : String}

theorem isTool_of_missing {x : Message} (h : x ∈ missingResults fulfilled m) : isTool x = true := by
  obtain ⟨c, -, rfl⟩ := mem_map.mp h
  rfl

theorem missingResults_of_isTool (h : isTool m = true) : missingResults fulfilled m = [] := by
  unfold missingResults
  rw [callsOf_of_not_assistant (isAssistant_of_isTool h)]
  rfl

theorem missingResults_of_not_assistant (h : isAssistant m = false) : missingResults fulfilled m = [] := by
  unfold missingResults
  rw [callsOf_of_not_assistant h]
  rfl

theorem answers_missing : Answers (missingResults fulfilled m) id ↔ id ∈ declaredIds m ∧ id ∉ fulfilled := by
  have hcall : ∀ c ∈ callsOf m, resultId (backfillMessage c.1 c.2) = some c.1 := by
    intro c hc
    refine resultId_backfillMessage (ne_empty_of_declared (m := m) ?_) c.2
    rw [declaredIds_eq]
    exact mem_map_of_mem hc
  rw [declaredIds_eq]
  constructor
  · rintro ⟨r, hr, hid⟩
    obtain ⟨c, hc, rfl⟩ := mem_map.mp hr
    obtain ⟨hc, hf⟩ := mem_filter.mp hc
    rw [hcall c hc] at hid
    obtain rfl := some.inj hid
    exact ⟨mem_map_of_mem hc, by simpa using hf⟩
  · rintro ⟨hd, hf⟩
    obtain ⟨c, hc, rfl⟩ := mem_map.mp hd
    exact ⟨_, mem_map_of_mem (mem_filter.mpr ⟨hc, by simpa using hf⟩), hcall c hc⟩

theorem positioned_missing (fulfilled : List String) : ∀ (i : ℕ) (ms : List Message),
    ((declaredCalls i ms).filter fun item => item.id ∉ fulfilled).map
        (fun item => (item.index, backfillMessage item.id item.name)) =
      positioned (missingResults fulfilled) i ms
  | _, [] => rfl
  | i, m :: ms => by
    unfold declaredCalls positioned missingResults
    rw [filter_append, map_append, positioned_missing fulfilled (i + 1) ms, List.filter_map, List.map_map, List.map_map]
    rfl

/-- **The backfill** puts the new results behind those that are there. -/
theorem backfill_eq_fill (ms : List Message) : backfillMissingToolResults ms =
    fill isTool (missingResults (ms.filterMap resultId)) ms := by
  have hfill := foldl_spliceStep (p := isTool)
    (fun a x hx => @isTool_of_missing (ms.filterMap resultId) a x hx)
    (fun a ha => missingResults_of_isTool ha) ms
  rw [← positioned_missing, foldl_map] at hfill
  unfold backfillMissingToolResults
  dsimp only
  split_ifs with hnil
  · rw [hnil] at hfill
    exact hfill
  · exact hfill

theorem block_insertAfter (hxs : ∀ x ∈ xs, isTool x = true) (ms : List Message) :
    block (insertAfter isTool xs ms) = insertAfter isTool xs (block ms) := by
  refine takeWhile_insertAfter (fun m hm => ?_) (fun x hx => ?_) ms
  · rw [isAssistant_of_isTool hm]; rfl
  · rw [isAssistant_of_isTool (hxs x hx)]; rfl

theorem answers_insertAfter {l : List Message} :
    Answers (insertAfter isTool xs l) id ↔ Answers xs id ∨ Answers l id := by
  constructor
  · rintro ⟨r, hr, hid⟩
    rcases mem_insertAfter.mp hr with hr | hr
    · exact Or.inl ⟨r, hr, hid⟩
    · exact Or.inr ⟨r, hr, hid⟩
  · rintro (⟨r, hr, hid⟩ | ⟨r, hr, hid⟩)
    · exact ⟨r, mem_insertAfter.mpr (Or.inl hr), hid⟩
    · exact ⟨r, mem_insertAfter.mpr (Or.inr hr), hid⟩

theorem answered_cons_of_isTool (h : isTool m = true) : Answered (m :: ms) ↔ Answered ms := by
  have hnil := declaredIds_of_not_assistant (isAssistant_of_isTool h)
  simp [Answered, hnil]

theorem answered_append_of_isTool (ms : List Message) : ∀ {xs : List Message}, (∀ x ∈ xs, isTool x = true) →
    (Answered (xs ++ ms) ↔ Answered ms)
  | [], _ => Iff.rfl
  | x :: xs, h => by
    rw [cons_append, answered_cons_of_isTool (h x mem_cons_self),
      answered_append_of_isTool ms fun y hy => h y (mem_cons_of_mem _ hy)]

/-- New tool messages behind a run declare nothing, and no block gets shorter. -/
theorem answered_insertAfter (hxs : ∀ x ∈ xs, isTool x = true) : ∀ ms : List Message,
    Answered (insertAfter isTool xs ms) ↔ Answered ms
  | [] => by
    simpa using answered_append_of_isTool [] hxs
  | m :: ms => by
    cases hm : isTool m with
    | true =>
      rw [insertAfter_cons_of_pos hm, answered_cons_of_isTool hm, answered_cons_of_isTool hm,
        answered_insertAfter hxs ms]
    | false => rw [insertAfter_cons_of_neg hm, answered_append_of_isTool _ hxs]

/-- **The backfill answers** what is not answered anywhere. -/
theorem answered_fill (fulfilled : List String) : ∀ ms : List Message,
    Answered (fill isTool (missingResults fulfilled) ms) ↔ PairedFor fulfilled ms
  | [] => Iff.rfl
  | m :: ms => by
    have hxs : ∀ x ∈ missingResults fulfilled m, isTool x = true := fun x => isTool_of_missing
    have hblock : block (fill isTool (missingResults fulfilled) ms) = block ms :=
      takeWhile_fill (fun a ha => missingResults_of_not_assistant (by simpa using ha)) ms
    refine and_congr (forall₂_congr fun id hid => ?_)
      ((answered_insertAfter hxs _).trans (answered_fill fulfilled ms))
    rw [block_insertAfter hxs, answers_insertAfter, answers_missing, hblock]
    constructor
    · rintro (⟨-, hf⟩ | h) hin
      · exact absurd hin hf
      · exact h
    · intro h
      by_cases hf : id ∈ fulfilled
      · exact Or.inr (h hf)
      · exact Or.inl ⟨hid, hf⟩

theorem noOrphans_append_of_isTool (ms : List Message) : ∀ {xs : List Message},
    (∀ x ∈ xs, isTool x = true ∧ ∀ id, resultId x = some id → id ∈ declared) →
      NoOrphans (fun m => m) declared ms → NoOrphans (fun m => m) declared (xs ++ ms)
  | [], _, h => h
  | x :: xs, hxs, h => by
    obtain ⟨hx, hid⟩ := hxs x mem_cons_self
    refine ⟨hid, ?_⟩
    rw [declaredIds_of_not_assistant (isAssistant_of_isTool hx), nil_append]
    exact noOrphans_append_of_isTool ms (fun y hy => hxs y (mem_cons_of_mem _ hy)) h

theorem noOrphans_insertAfter
    (hxs : ∀ x ∈ xs, isTool x = true ∧ ∀ id, resultId x = some id → id ∈ declared) :
    ∀ {ms : List Message}, NoOrphans (fun m => m) declared ms →
      NoOrphans (fun m => m) declared (insertAfter isTool xs ms)
  | [], _ => by
    simpa using noOrphans_append_of_isTool [] hxs trivial
  | m :: ms, h => by
    cases hm : isTool m with
    | true =>
      have hnil := declaredIds_of_not_assistant (isAssistant_of_isTool hm)
      obtain ⟨h1, h2⟩ := h
      rw [hnil, nil_append] at h2
      rw [insertAfter_cons_of_pos hm]
      refine ⟨h1, ?_⟩
      rw [hnil, nil_append]
      exact noOrphans_insertAfter hxs h2
    | false =>
      rw [insertAfter_cons_of_neg hm]
      exact noOrphans_append_of_isTool _ hxs h

/-- **The backfill adds no orphan.** -/
theorem noOrphans_fill (fulfilled : List String) : ∀ {declared : List String} {ms : List Message},
    NoOrphans (fun m => m) declared ms →
      NoOrphans (fun m => m) declared (fill isTool (missingResults fulfilled) ms)
  | _, [], _ => trivial
  | declared, m :: ms, ⟨h1, h2⟩ => by
    refine ⟨h1, noOrphans_insertAfter (fun x hx => ⟨isTool_of_missing hx, fun id hid => ?_⟩)
      (noOrphans_fill fulfilled h2)⟩
    exact mem_append_left _ (answers_missing.mp ⟨x, hx, hid⟩).1

end Fill

/-! ### The repair -/

section Repair
variable {ms : List Message} {answered : List String}

/-- **The repaired list is legal** exactly if the list is paired. -/
theorem legal_repair_iff (ms : List Message) :
    Legal (backfillMissingToolResults (dropOrphanToolResults ms)) ↔ Paired ms := by
  have hno := noOrphans_dropFrom [] ms
  rw [backfill_eq_fill]
  unfold dropOrphanToolResults Paired
  rw [results_dropFrom]
  constructor
  · intro h
    exact (pairedFor_dropFrom [] ms).mp ((answered_fill _ _).mp h.answered)
  · intro h
    exact ⟨noOrphans_fill _ hno, (answered_fill _ _).mpr ((pairedFor_dropFrom [] ms).mpr h)⟩

theorem answeredIds_of_noOrphans : ∀ {declared : List String} {ms : List Message},
    NoOrphans (fun m => m) declared ms → answeredIds declared ms = ms.filterMap resultId
  | _, [], _ => rfl
  | declared, m :: ms, ⟨h1, h2⟩ => by
    unfold answeredIds
    cases hm : resultId m with
    | some id =>
      rw [declaredIds_of_resultId hm, nil_append] at h2
      dsimp only
      rw [if_pos (h1 id hm), filterMap_cons_some hm, answeredIds_of_noOrphans h2]
    | none =>
      rw [filterMap_cons_none hm, answeredIds_of_noOrphans h2]

theorem pairedFor_of_answered : ∀ {ms : List Message}, Answered ms → PairedFor answered ms
  | [], _ => trivial
  | _ :: _, ⟨h1, h2⟩ => ⟨fun id hid _ => h1 id hid, pairedFor_of_answered h2⟩

theorem answered_of_pairedFor : ∀ {ms : List Message},
    PairedFor answered ms → (∀ m ∈ ms, ∀ id ∈ declaredIds m, id ∈ answered) → Answered ms
  | [], _, _ => trivial
  | m :: _, ⟨h1, h2⟩, hall => ⟨fun id hid => h1 id hid (hall m mem_cons_self id hid),
      answered_of_pairedFor h2 fun a ha => hall a (mem_cons_of_mem _ ha)⟩

theorem declared_repair {m : Message} {id : String}
    (hm : m ∈ backfillMissingToolResults (dropOrphanToolResults ms)) (hid : id ∈ declaredIds m) :
    id ∈ (backfillMissingToolResults (dropOrphanToolResults ms)).filterMap resultId := by
  rw [backfill_eq_fill] at hm ⊢
  have hmem : m ∈ dropOrphanToolResults ms := by
    rcases mem_fill.mp hm with hm | ⟨b, -, hb⟩
    · exact hm
    · rw [declaredIds_of_not_assistant (isAssistant_of_isTool (isTool_of_missing hb))] at hid
      cases hid
  rw [mem_filterMap]
  by_cases hf : id ∈ (dropOrphanToolResults ms).filterMap resultId
  · obtain ⟨r, hr, hrid⟩ := mem_filterMap.mp hf
    exact ⟨r, mem_fill.mpr (Or.inl hr), hrid⟩
  · obtain ⟨r, hr, hrid⟩ := answers_missing.mpr ⟨hid, hf⟩
    exact ⟨r, mem_fill.mpr (Or.inr ⟨m, hmem, hr⟩), hrid⟩

/-- **A second repair** finds what the first one left. -/
theorem paired_repair_iff (ms : List Message) :
    Paired (backfillMissingToolResults (dropOrphanToolResults ms)) ↔ Paired ms := by
  have hno : NoOrphans (id) [] (backfillMissingToolResults (dropOrphanToolResults ms)) := by
    rw [backfill_eq_fill]
    exact noOrphans_fill _ (noOrphans_dropFrom [] ms)
  rw [← legal_repair_iff ms]
  unfold Paired
  rw [answeredIds_of_noOrphans hno]
  constructor
  · intro h
    exact ⟨hno, answered_of_pairedFor h fun m hm id hid => declared_repair hm hid⟩
  · intro h
    exact pairedFor_of_answered h.answered

end Repair

end Memmy.AgentRuntime.ToolPairing
