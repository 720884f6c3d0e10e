import Memmy.AgentRuntime.ToolPairing

/-! # Results directly behind their calls

For one id `d`, a list is `Tight` if every result for `d` stands in the run of tool messages directly
behind a message that declares `d`, and every such run answers `d`. Tight lists can be cut at messages
that are no tool messages, and put together again.

* `legal_of_tight`: a list that is tight for every id is legal.
* `tightFrom_of_adjacent`: the repaired list, without the system messages, is tight for `d` if the results
  for `d` stand directly behind their calls in the list (`Adjacent`, system messages aside) and every
  declaration of `d` is answered.
* `answeredFor_of_once`: an id that is declared once and answered once needs no such place. -/

namespace Memmy.AgentRuntime.Adjacency

open Conversation.Transcript Lib.Splice AgentRuntime.ToolPairing List Option

def isSystem (m : Message) : Bool := m.role = "system"

/-- The run of tool messages at the front. -/
def run (ms : List Message) : List Message := ms.takeWhile isTool

def AnsweredFor (d : String) : List Message → Prop
  | [] => True
  | m :: ms => (d ∈ declaredIds m → Answers (block ms) d) ∧ AnsweredFor d ms

/-- `declares`: the message in front of the run declares `d`. -/
def TightFrom (d : String) : Bool → List Message → Prop
  | _, [] => True
  | declares, m :: ms =>
    if isTool m then (resultId m = some d → declares = true) ∧ TightFrom d declares ms
    else (d ∈ declaredIds m → Answers (run ms) d) ∧ TightFrom d (decide (d ∈ declaredIds m)) ms

/-- **Calls and results for `d` stand together.** -/
def Tight (d : String) (ms : List Message) : Prop := TightFrom d false ms

/-- Every result for `d` that comes after a declaration of `d` stands behind one, with only tool and
system messages between. -/
def AdjacentFrom (d : String) : Bool → Bool → List Message → Prop
  | _, _, [] => True
  | declared, declares, m :: ms =>
    if isSystem m then AdjacentFrom d declared declares ms
    else if isTool m then
      (resultId m = some d → declared = true → declares = true) ∧ AdjacentFrom d declared declares ms
    else AdjacentFrom d (declared || decide (d ∈ declaredIds m)) (decide (d ∈ declaredIds m)) ms

def Adjacent (d : String) (ms : List Message) : Prop := AdjacentFrom d false false ms

/-- One message declares `d`, and one answers it. -/
def UsedOnce (d : String) (ms : List Message) : Prop :=
  (ms.filter fun m => d ∈ declaredIds m).length ≤ 1 ∧ (ms.filter fun m => resultId m = some d).length ≤ 1

/-! ### Tight lists -/

section Tight
variable {d : String} {m : Message} {ms ms' : List Message} {declares : Bool}

theorem pairedFor_iff {answered : List String} : ∀ {ms : List Message},
    PairedFor answered ms ↔ ∀ d ∈ answered, AnsweredFor d ms
  | [] => by simp [PairedFor, AnsweredFor]
  | m :: ms => by
    unfold PairedFor AnsweredFor
    rw [pairedFor_iff]
    constructor
    · rintro ⟨h1, h2⟩ d hd
      exact ⟨fun hm => h1 d hm hd, h2 d hd⟩
    · intro h
      exact ⟨fun d hm hd => (h d hd).1 hm, fun d hd => (h d hd).2⟩

theorem answered_iff : ∀ {ms : List Message}, Answered ms ↔ ∀ d, AnsweredFor d ms
  | [] => by simp [Answered, AnsweredFor]
  | m :: ms => by
    unfold Answered AnsweredFor
    rw [answered_iff, forall_and]

theorem tightFrom_of_tool (h : isTool m = true) : TightFrom d declares (m :: ms) ↔
    (resultId m = some d → declares = true) ∧ TightFrom d declares ms := by
  rw [TightFrom, if_pos h]

theorem tightFrom_of_not_tool (h : isTool m = false) : TightFrom d declares (m :: ms) ↔
    (d ∈ declaredIds m → Answers (run ms) d) ∧ TightFrom d (decide (d ∈ declaredIds m)) ms := by
  rw [TightFrom, if_neg (by simp [h])]

theorem run_cons_of_tool (h : isTool m = true) : run (m :: ms) = m :: run ms := by
  unfold run
  rw [takeWhile_cons_of_pos h]

theorem run_cons_of_not_tool (h : isTool m = false) : run (m :: ms) = [] := by
  unfold run
  rw [takeWhile_cons_of_neg (by simp [h])]

theorem run_subset_block (ms : List Message) : run ms ⊆ block ms := by
  have hrun : run ms = (block ms).takeWhile isTool := by
    unfold run block
    rw [takeWhile_takeWhile]
    congr 1
    funext m
    cases hm : isTool m with
    | true => simp [isAssistant_of_isTool hm]
    | false => simp
  rw [hrun]
  exact takeWhile_subset _

theorem answeredFor_of_tight : ∀ {declares : Bool} {ms : List Message}, TightFrom d declares ms →
    AnsweredFor d ms
  | _, [], _ => trivial
  | declares, m :: ms, h => by
    cases hm : isTool m with
    | true =>
      refine ⟨fun hd => ?_, answeredFor_of_tight ((tightFrom_of_tool hm).mp h).2⟩
      rw [declaredIds_of_not_assistant (isAssistant_of_isTool hm)] at hd
      cases hd
    | false =>
      obtain ⟨h1, h2⟩ := (tightFrom_of_not_tool hm).mp h
      refine ⟨fun hd => ?_, answeredFor_of_tight h2⟩
      obtain ⟨r, hr, hid⟩ := h1 hd
      exact ⟨r, run_subset_block ms hr, hid⟩

theorem noOrphans_of_tight : ∀ {ms : List Message} {declares : String → Bool}
    {declared : List String}, (∀ d, TightFrom d (declares d) ms) →
      (∀ d, declares d = true → d ∈ declared) → NoOrphans (fun m => m) declared ms
  | [], _, _, _, _ => trivial
  | m :: ms, declares, declared, h, hd => by
    cases hm : isTool m with
    | true =>
      refine ⟨fun id hid => hd id (((tightFrom_of_tool hm).mp (h id)).1 hid), ?_⟩
      rw [declaredIds_of_not_assistant (isAssistant_of_isTool hm), nil_append]
      exact noOrphans_of_tight (fun d => ((tightFrom_of_tool hm).mp (h d)).2) hd
    | false =>
      refine ⟨fun id hid => ?_, ?_⟩
      · rw [mem_def, resultId_of_isTool hm] at hid
        cases hid
      · refine noOrphans_of_tight (fun d => ((tightFrom_of_not_tool hm).mp (h d)).2) fun d hd => ?_
        exact mem_append_left _ (by simpa using hd)

/-- **A list that is tight for every id is legal.** -/
theorem legal_of_tight (h : ∀ d, Tight d ms) : Legal ms :=
  ⟨noOrphans_of_tight h (nofun), answered_iff.mpr fun d => answeredFor_of_tight (h d)⟩

theorem tightFrom_of_tight : ∀ {ms : List Message}, Tight d ms → ∀ declares, TightFrom d declares ms
  | [], _, _ => trivial
  | m :: ms, h, declares => by
    cases hm : isTool m with
    | true =>
      obtain ⟨h1, h2⟩ := (tightFrom_of_tool hm).mp h
      refine (tightFrom_of_tool hm).mpr ⟨fun hid => ?_, tightFrom_of_tight h2 declares⟩
      cases h1 hid
    | false => exact (tightFrom_of_not_tool hm).mpr ((tightFrom_of_not_tool hm).mp h)

theorem run_append_mono : run ms ⊆ run (ms ++ ms') := by
  unfold run
  rw [takeWhile_append]
  split_ifs
  · exact fun r h => mem_append_left _ (takeWhile_subset _ h)
  · exact List.Subset.refl _

theorem Answers.mono {l l' : List Message} (h : Answers l d) (hl : ∀ r ∈ l, r ∈ l') :
    Answers l' d := by
  obtain ⟨r, hr, hid⟩ := h
  exact ⟨r, hl r hr, hid⟩

/-- **Tight lists one behind the other.** -/
theorem tightFrom_append (h' : Tight d ms') : ∀ {declares : Bool} {ms : List Message},
    TightFrom d declares ms → TightFrom d declares (ms ++ ms')
  | declares, [], _ => tightFrom_of_tight h' declares
  | declares, m :: ms, h => by
    cases hm : isTool m with
    | true =>
      obtain ⟨h1, h2⟩ := (tightFrom_of_tool hm).mp h
      exact (tightFrom_of_tool hm).mpr ⟨h1, tightFrom_append h' h2⟩
    | false =>
      obtain ⟨h1, h2⟩ := (tightFrom_of_not_tool hm).mp h
      exact (tightFrom_of_not_tool hm).mpr
        ⟨fun hd => Answers.mono (h1 hd) (run_append_mono), tightFrom_append h' h2⟩

theorem tight_of_system : ∀ {ms : List Message}, (∀ m ∈ ms, m.role = "system") → Tight d ms
  | [], _ => trivial
  | m :: ms, h => by
    have hr := h m mem_cons_self
    have ht : isTool m = false := by simp [isTool, hr]
    have hnone : d ∉ declaredIds m := by simp [declaredIds, hr]
    refine (tightFrom_of_not_tool ht).mpr ⟨fun hd => absurd hd hnone, ?_⟩
    rw [decide_eq_false hnone]
    exact tight_of_system fun a ha => h a (mem_cons_of_mem _ ha)

theorem tight_append (h : Tight d ms) (h' : Tight d ms') : Tight d (ms ++ ms') := tightFrom_append h' h

theorem tight_flatten : ∀ {l : List (List Message)}, (∀ ms ∈ l, Tight d ms) → Tight d l.flatten
  | [], _ => trivial
  | ms :: l, h => by
    exact tight_append (h ms mem_cons_self) (tight_flatten fun ms' h' => h ms' (mem_cons_of_mem _ h'))

theorem run_append_of_not_tool (hm : isTool m = false) : ∀ ms : List Message, run (ms ++ m :: ms') = run ms
  | [] => run_cons_of_not_tool hm
  | a :: ms => by
    cases ha : isTool a with
    | true => rw [cons_append, run_cons_of_tool ha, run_cons_of_tool ha, run_append_of_not_tool hm ms]
    | false => rw [cons_append, run_cons_of_not_tool ha, run_cons_of_not_tool ha]

theorem tight_cut (hm : isTool m = false) : ∀ {declares : Bool} {ms : List Message},
    TightFrom d declares (ms ++ m :: ms') → TightFrom d declares ms ∧ Tight d (m :: ms')
  | declares, [], h => ⟨trivial, (tightFrom_of_not_tool hm).mpr ((tightFrom_of_not_tool hm).mp h)⟩
  | declares, a :: ms, h => by
    rw [cons_append] at h
    cases ha : isTool a with
    | true =>
      obtain ⟨h1, h2⟩ := (tightFrom_of_tool ha).mp h
      obtain ⟨h3, h4⟩ := tight_cut hm h2
      exact ⟨(tightFrom_of_tool ha).mpr ⟨h1, h3⟩, h4⟩
    | false =>
      obtain ⟨h1, h2⟩ := (tightFrom_of_not_tool ha).mp h
      obtain ⟨h3, h4⟩ := tight_cut hm h2
      rw [run_append_of_not_tool hm] at h1
      exact ⟨(tightFrom_of_not_tool ha).mpr ⟨h1, h3⟩, h4⟩

end Tight

/-! ### The repaired list -/

def restOf (ms : List Message) : List Message := ms.filter fun m => !isSystem m

section Repaired
variable {d : String} {m : Message} {ms xs : List Message} {declares : Bool}

theorem isSystem_of_isTool (h : isTool m = true) : isSystem m = false := by
  have hr : m.role = "tool" := by simpa [isTool] using h
  simp [isSystem, hr]

theorem isAssistant_of_isSystem (h : isSystem m = true) : isAssistant m = false := by
  have hr : m.role = "system" := by simpa [isSystem] using h
  simp [isAssistant, hr]

theorem isTool_of_isSystem (h : isSystem m = true) : isTool m = false := by
  have hr : m.role = "system" := by simpa [isSystem] using h
  simp [isTool, hr]

theorem restOf_cons (h : isSystem m = false) : restOf (m :: ms) = m :: restOf ms := by
  unfold restOf
  rw [filter_cons_of_pos (by simp [h])]

theorem restOf_cons_of_system (h : isSystem m = true) : restOf (m :: ms) = restOf ms := by
  unfold restOf
  rw [filter_cons_of_neg (by simp [h])]

theorem restOf_append_of_isTool (ms : List Message) : ∀ {xs : List Message}, (∀ x ∈ xs, isTool x = true) →
    restOf (xs ++ ms) = xs ++ restOf ms
  | [], _ => rfl
  | x :: xs, h => by
    rw [cons_append, restOf_cons (isSystem_of_isTool (h x mem_cons_self)),
      restOf_append_of_isTool ms fun y hy => h y (mem_cons_of_mem _ hy), cons_append]

theorem tightFrom_append_of_isTool : ∀ {xs : List Message},
    (∀ x ∈ xs, isTool x = true ∧ (resultId x = some d → declares = true)) →
      TightFrom d declares ms → TightFrom d declares (xs ++ ms)
  | [], _, h => h
  | x :: xs, hxs, h => by
    obtain ⟨hx, hid⟩ := hxs x mem_cons_self
    exact (tightFrom_of_tool hx).mpr
      ⟨hid, tightFrom_append_of_isTool (fun y hy => hxs y (mem_cons_of_mem _ hy)) h⟩

theorem tightFrom_insertAfter
    (hxs : ∀ x ∈ xs, isTool x = true ∧ (resultId x = some d → declares = true)) :
    ∀ {ms : List Message}, TightFrom d declares (restOf ms) →
      TightFrom d declares (restOf (insertAfter isTool xs ms))
  | [], h => by
    rw [insertAfter_nil_right]
    have := restOf_append_of_isTool [] fun x hx => (hxs x hx).1
    rw [append_nil] at this
    rw [this]
    exact tightFrom_append_of_isTool hxs h
  | m :: ms, h => by
    cases hm : isTool m with
    | true =>
      have hs := isSystem_of_isTool hm
      rw [restOf_cons hs] at h
      obtain ⟨h1, h2⟩ := (tightFrom_of_tool hm).mp h
      rw [insertAfter_cons_of_pos hm, restOf_cons hs]
      exact (tightFrom_of_tool hm).mpr ⟨h1, tightFrom_insertAfter hxs h2⟩
    | false =>
      rw [insertAfter_cons_of_neg hm, restOf_append_of_isTool _ fun x hx => (hxs x hx).1]
      exact tightFrom_append_of_isTool hxs h

theorem mem_run_append (ms : List Message) : ∀ {xs : List Message}, (∀ x ∈ xs, isTool x = true) → ∀ r,
    (r ∈ xs ∨ r ∈ run ms) → r ∈ run (xs ++ ms)
  | [], _, r, h => by simpa using h
  | x :: xs, hxs, r, h => by
    rw [cons_append, run_cons_of_tool (hxs x mem_cons_self), mem_cons]
    have ih := mem_run_append ms (fun y hy => hxs y (mem_cons_of_mem _ hy)) r
    rw [mem_cons] at h
    tauto

theorem mem_run_insertAfter (hxs : ∀ x ∈ xs, isTool x = true) : ∀ (ms : List Message) (r : Message),
    (r ∈ xs ∨ r ∈ run (restOf ms)) → r ∈ run (restOf (insertAfter isTool xs ms))
  | [], r, h => by
    have happ := mem_run_append [] hxs r (by simpa [restOf, run] using h)
    rw [insertAfter_nil_right]
    have := restOf_append_of_isTool [] hxs
    rw [append_nil] at this
    rw [this]
    simpa [restOf] using happ
  | m :: ms, r, h => by
    cases hm : isTool m with
    | true =>
      have hs := isSystem_of_isTool hm
      rw [restOf_cons hs, run_cons_of_tool hm, mem_cons] at h
      have ih := mem_run_insertAfter hxs ms r
      rw [insertAfter_cons_of_pos hm, restOf_cons hs, run_cons_of_tool hm, mem_cons]
      tauto
    | false =>
      rw [insertAfter_cons_of_neg hm, restOf_append_of_isTool _ hxs]
      exact mem_run_append _ hxs r h

/-- Behind a message that is no tool message and declares nothing no result follows in the block. -/
theorem not_answers_of_adjacent : ∀ {ms : List Message}, AdjacentFrom d true false ms → ¬ Answers (block ms) d
  | [], _ => answers_nil d
  | m :: ms, h => by
    unfold AdjacentFrom at h
    by_cases hs : isSystem m = true
    · rw [if_pos hs] at h
      have hm := resultId_of_isTool (isTool_of_isSystem hs)
      rw [block_cons (isAssistant_of_isSystem hs), answers_cons, hm]
      rintro (h' | h')
      · cases h'
      · exact not_answers_of_adjacent h h'
    rw [if_neg hs] at h
    by_cases ht : isTool m = true
    · rw [if_pos ht] at h
      rw [block_cons (isAssistant_of_isTool ht), answers_cons]
      rintro (h' | h')
      · cases h.1 h' rfl
      · exact not_answers_of_adjacent h.2 h'
    rw [if_neg ht, Bool.true_or] at h
    cases ha : isAssistant m with
    | true =>
      rw [block_cons_of_assistant ha]
      exact answers_nil d
    | false =>
      rw [declaredIds_of_not_assistant ha] at h
      rw [block_cons ha, answers_cons, resultId_of_isTool (by simpa using ht)]
      rintro (h' | h')
      · cases h'
      · exact not_answers_of_adjacent (by simpa using h) h'

/-- **An answer in the block** stands in the run behind the call, also after the repair. -/
theorem answers_run_of_adjacent (fulfilled : List String) : ∀ {declared : List String}
    {declares : Bool} {ms : List Message}, d ∈ declared → AdjacentFrom d true declares ms →
      Answers (block ms) d →
      Answers (run (restOf (fill isTool (missingResults fulfilled) (dropFrom declared ms)))) d
  | _, _, [], _, _, h => absurd h (answers_nil d)
  | declared, declares, m :: ms, hd, h, hans => by
    unfold AdjacentFrom at h
    by_cases hs : isSystem m = true
    · rw [if_pos hs] at h
      have ha := isAssistant_of_isSystem hs
      have hm := resultId_of_isTool (isTool_of_isSystem hs)
      rw [block_cons ha, answers_cons, hm] at hans
      have hans := hans.resolve_left (by simp)
      have hdrop : dropFrom declared (m :: ms) = m :: dropFrom declared ms := by
        rw [dropFrom, hm, declaredIds_of_not_assistant ha]; rfl
      rw [hdrop, fill, missingResults_of_not_assistant ha, insertAfter_nil_left, restOf_cons_of_system hs]
      exact answers_run_of_adjacent fulfilled hd h hans
    rw [if_neg hs] at h
    by_cases ht : isTool m = true
    · rw [if_pos ht] at h
      have ha := isAssistant_of_isTool ht
      have hkeep : Answers (run (restOf (m :: fill isTool (missingResults fulfilled)
          (dropFrom declared ms)))) d ↔ resultId m = some d ∨
          Answers (run (restOf (fill isTool (missingResults fulfilled) (dropFrom declared ms)))) d := by
        rw [restOf_cons (by simpa using hs), run_cons_of_tool ht, answers_cons]
      have ih := answers_run_of_adjacent fulfilled hd h.2
      rw [block_cons ha, answers_cons] at hans
      unfold dropFrom
      cases hm : resultId m with
      | some id =>
        dsimp only
        rw [hm] at hkeep hans
        by_cases hid : id ∈ declared
        · rw [if_pos hid, fill, missingResults_of_isTool ht, insertAfter_nil_left, hkeep]
          exact hans.imp_right ih
        · rw [if_neg hid]
          refine ih (hans.resolve_left fun he => hid ?_)
          rw [some.inj he]
          exact hd
      | none =>
        rw [declaredIds_of_not_assistant ha, nil_append, fill, missingResults_of_isTool ht,
          insertAfter_nil_left, hkeep]
        exact hans.imp_right ih
    rw [if_neg ht, Bool.true_or] at h
    cases ha : isAssistant m with
    | true =>
      rw [block_cons_of_assistant ha] at hans
      exact absurd hans (answers_nil d)
    | false =>
      rw [declaredIds_of_not_assistant ha] at h
      rw [block_cons ha, answers_cons, resultId_of_isTool (by simpa using ht)] at hans
      exact absurd (hans.resolve_left (by simp)) (not_answers_of_adjacent (by simpa using h))

/-- **The rest of the repaired list is tight** for an id with its results behind their calls. -/
theorem tightFrom_of_adjacent (fulfilled : List String) : ∀ {declared : List String}
    {declares : Bool} {ms : List Message}, AdjacentFrom d (decide (d ∈ declared)) declares ms →
      (d ∈ fulfilled → AnsweredFor d ms) → TightFrom d declares
        (restOf (fill isTool (missingResults fulfilled) (dropFrom declared ms)))
  | _, _, [], _, _ => trivial
  | declared, declares, m :: ms, h, hans => by
    unfold AdjacentFrom at h
    have hans' : d ∈ fulfilled → AnsweredFor d ms := fun hf => (hans hf).2
    by_cases hs : isSystem m = true
    · rw [if_pos hs] at h
      have ha := isAssistant_of_isSystem hs
      have hdrop : dropFrom declared (m :: ms) = m :: dropFrom declared ms := by
        rw [dropFrom, resultId_of_isTool (isTool_of_isSystem hs), declaredIds_of_not_assistant ha]
        rfl
      rw [hdrop, fill, missingResults_of_not_assistant ha, insertAfter_nil_left, restOf_cons_of_system hs]
      exact tightFrom_of_adjacent fulfilled h hans'
    rw [if_neg hs] at h
    have hs' : isSystem m = false := by simpa using hs
    by_cases ht : isTool m = true
    · rw [if_pos ht] at h
      have ha := isAssistant_of_isTool ht
      have ih := tightFrom_of_adjacent fulfilled h.2 hans'
      unfold dropFrom
      cases hm : resultId m with
      | some id =>
        dsimp only
        by_cases hid : id ∈ declared
        · rw [if_pos hid, fill, missingResults_of_isTool ht, insertAfter_nil_left,
            restOf_cons hs', tightFrom_of_tool ht]
          refine ⟨fun he => h.1 he ?_, ih⟩
          rw [hm, some.injEq] at he
          rw [← he]
          exact decide_eq_true hid
        · rw [if_neg hid]
          exact ih
      | none =>
        rw [declaredIds_of_not_assistant ha, nil_append, fill, missingResults_of_isTool ht,
          insertAfter_nil_left, restOf_cons hs', tightFrom_of_tool ht]
        refine ⟨fun he => ?_, ih⟩
        rw [hm] at he
        cases he
    rw [if_neg ht] at h
    have ht' : isTool m = false := by simpa using ht
    have hdeclared : (decide (d ∈ declared) || decide (d ∈ declaredIds m)) =
        decide (d ∈ declaredIds m ++ declared) := by
      rw [Bool.or_comm, ← Bool.decide_or]
      exact decide_eq_decide.mpr mem_append.symm
    have hxs : ∀ x ∈ missingResults fulfilled m, isTool x = true := fun x => isTool_of_missing
    rw [hdeclared] at h
    rw [dropFrom, resultId_of_isTool ht']
    rw [fill, restOf_cons hs', tightFrom_of_not_tool ht']
    refine ⟨fun hd => ?_, tightFrom_insertAfter (fun x hx => ⟨hxs x hx, fun hid => ?_⟩)
      (tightFrom_of_adjacent fulfilled h hans')⟩
    · by_cases hf : d ∈ fulfilled
      · have hd' : d ∈ declaredIds m ++ declared := mem_append_left _ hd
        rw [decide_eq_true hd'] at h
        have hrun := answers_run_of_adjacent fulfilled hd' h ((hans hf).1 hd)
        exact Answers.mono hrun fun r hr => mem_run_insertAfter hxs _ r (Or.inr hr)
      · exact Answers.mono (answers_missing.mpr ⟨hd, hf⟩) fun r hr =>
          mem_run_insertAfter hxs _ r (Or.inl hr)
    · exact decide_eq_true (answers_missing.mp ⟨x, hx, hid⟩).1

end Repaired

/-- An id without an answer has no result to place. -/
theorem adjacentFrom_of_not_answered {d : String} : ∀ {declared : List String} {declares : Bool}
    {ms : List Message}, d ∉ answeredIds declared ms → AdjacentFrom d (decide (d ∈ declared)) declares ms
  | _, _, [], _ => trivial
  | declared, declares, m :: ms, h => by
    unfold AdjacentFrom
    unfold answeredIds at h
    by_cases hs : isSystem m = true
    · have ha := isAssistant_of_isSystem hs
      rw [resultId_of_isTool (isTool_of_isSystem hs), declaredIds_of_not_assistant ha] at h
      rw [if_pos hs]
      exact adjacentFrom_of_not_answered h
    rw [if_neg hs]
    by_cases ht : isTool m = true
    · rw [if_pos ht]
      cases hm : resultId m with
      | some id =>
        rw [hm] at h
        dsimp only at h
        by_cases hid : id ∈ declared
        · rw [if_pos hid, mem_cons, not_or] at h
          refine ⟨fun he => ?_, adjacentFrom_of_not_answered h.2⟩
          exact absurd (some.inj he).symm h.1
        · rw [if_neg hid] at h
          refine ⟨fun he hd => ?_, adjacentFrom_of_not_answered h⟩
          rw [some.inj he] at hid
          exact absurd (of_decide_eq_true hd) hid
      | none =>
        rw [hm, declaredIds_of_not_assistant (isAssistant_of_isTool ht)] at h
        exact ⟨by simp, adjacentFrom_of_not_answered h⟩
    · rw [if_neg ht]
      rw [resultId_of_isTool (by simpa using ht)] at h
      have hdeclared : (decide (d ∈ declared) || decide (d ∈ declaredIds m)) =
          decide (d ∈ declaredIds m ++ declared) := by
        rw [Bool.or_comm, ← Bool.decide_or]
        exact decide_eq_decide.mpr mem_append.symm
      rw [hdeclared]
      exact adjacentFrom_of_not_answered h

/-! ### Ids that are used once -/

section Once
variable {d : String} {m : Message} {ms : List Message}

theorem answeredFor_of_no_declaration : ∀ {ms : List Message}, (∀ m ∈ ms, d ∉ declaredIds m) → AnsweredFor d ms
  | [], _ => trivial
  | m :: _, h => ⟨fun hd => absurd hd (h m mem_cons_self),
      answeredFor_of_no_declaration fun a ha => h a (mem_cons_of_mem _ ha)⟩

theorem answers_of_answeredFor : ∀ {ms : List Message}, AnsweredFor d ms →
    ∀ a ∈ ms, d ∈ declaredIds a → Answers ms d
  | _ :: _, h, a, ha, hd => by
    rcases mem_cons.mp ha with rfl | ha
    · exact Answers.mono (h.1 hd) fun r hr =>
        mem_cons_of_mem _ ((List.takeWhile_prefix _).mem hr)
    · exact Answers.mono (answers_of_answeredFor h.2 a ha hd) fun r hr =>
        mem_cons_of_mem _ hr

theorem no_more_of_filter {p : Message → Bool} (hm : p m = true)
    (h : ((m :: ms).filter p).length ≤ 1) : ∀ a ∈ ms, p a = false := by
  intro a ha
  rw [filter_cons_of_pos hm, length_cons] at h
  have hnil : ms.filter p = [] := length_eq_zero_iff.mp (by omega)
  simpa using filter_eq_nil_iff.mp hnil a ha

theorem UsedOnce.tail (h : UsedOnce d (m :: ms)) : UsedOnce d ms :=
  ⟨((sublist_cons_self m ms).filter _).length_le.trans h.1,
    ((sublist_cons_self m ms).filter _).length_le.trans h.2⟩

theorem answers_block_of_sublist {s : List Message} (hsub : s.Sublist ms)
    (hres : (ms.filter fun m => resultId m = some d).length ≤ 1) (hblock : Answers (block ms) d)
    (hs : Answers s d) : Answers (block s) d := by
  have hsplit := takeWhile_append_dropWhile (p := fun m => !isAssistant m) (l := ms)
  rw [← hsplit] at hsub hres
  obtain ⟨front, back, rfl, hfront, hback⟩ := sublist_append_iff.mp hsub
  have hnone : ¬ Answers back d := by
    rintro ⟨r, hr, hid⟩
    obtain ⟨r₀, hr₀, hid₀⟩ := hblock
    rw [filter_append, length_append] at hres
    have h1 := length_pos_of_mem
      (mem_filter (p := fun m => resultId m = some d) |>.mpr ⟨hr₀, decide_eq_true hid₀⟩)
    have h2 := length_pos_of_mem
      (mem_filter (p := fun m => resultId m = some d) |>.mpr ⟨hback.mem hr, decide_eq_true hid⟩)
    unfold block at h1
    omega
  obtain ⟨r, hr, hid⟩ := hs
  rcases mem_append.mp hr with hr | hr
  · refine ⟨r, ?_, hid⟩
    unfold block
    rw [takeWhile_append_of_pos fun a ha => mem_takeWhile_imp (hfront.mem ha)]
    exact mem_append_left _ hr
  · exact absurd ⟨r, hr, hid⟩ hnone

/-- **An id that is used once** is answered in every part of the list that answers it. -/
theorem answeredFor_of_once : ∀ {s ms : List Message}, s.Sublist ms → UsedOnce d ms →
    AnsweredFor d ms → Answers s d → AnsweredFor d s
  | _, _, .slnil, _, _, _ => trivial
  | _, _ :: _, .cons _ hsub, honce, hans, hs => answeredFor_of_once hsub honce.tail hans.2 hs
  | m :: s, _ :: ms, .cons_cons _ hsub, honce, hans, hs => by
    by_cases hd : d ∈ declaredIds m
    · have hnone : ∀ a ∈ ms, d ∉ declaredIds a := fun a ha => by
        simpa using no_more_of_filter (p := fun m => d ∈ declaredIds m) (by simpa using hd)
          honce.1 a ha
      have hs' : Answers s d := by
        refine (answers_cons.mp hs).resolve_left fun hid => ?_
        rw [declaredIds_of_resultId hid] at hd
        cases hd
      exact ⟨fun _ => answers_block_of_sublist hsub honce.tail.2 (hans.1 hd) hs',
        answeredFor_of_no_declaration fun a ha => hnone a (hsub.mem ha)⟩
    · refine ⟨fun h => absurd h hd, ?_⟩
      rcases answers_cons.mp hs with hid | hs'
      · refine answeredFor_of_no_declaration fun a ha hda => ?_
        obtain ⟨r, hr, hrid⟩ := answers_of_answeredFor hans.2 a (hsub.mem ha) hda
        have := no_more_of_filter (p := fun m => resultId m = some d) (by simpa using hid)
          honce.2 r hr
        simp [hrid] at this
      · exact answeredFor_of_once hsub honce.tail hans.2 hs'

end Once

/-! ### Contents do not matter -/

/-- What the pairing of calls and results reads of a message. -/
def skeleton (m : Message) : Message where
  role := m.role
  toolCalls := m.toolCalls
  toolCallId := m.toolCallId

section Skeleton
variable {d : String}

@[simp] theorem resultId_skeleton (m : Message) : resultId (skeleton m) = resultId m := rfl

@[simp] theorem declaredIds_skeleton (m : Message) : declaredIds (skeleton m) = declaredIds m := rfl

@[simp] theorem isTool_skeleton (m : Message) : isTool (skeleton m) = isTool m := rfl

@[simp] theorem isSystem_skeleton (m : Message) : isSystem (skeleton m) = isSystem m := rfl

theorem answers_map_skeleton (ms : List Message) : Answers (ms.map skeleton) d ↔ Answers ms d := by
  simp [Answers]

theorem block_map_skeleton (ms : List Message) : block (ms.map skeleton) = (block ms).map skeleton :=
  takeWhile_map

theorem run_map_skeleton (ms : List Message) : run (ms.map skeleton) = (run ms).map skeleton := takeWhile_map

theorem restOf_map_skeleton (ms : List Message) : restOf (ms.map skeleton) = (restOf ms).map skeleton := by
  unfold restOf
  rw [List.filter_map]
  rfl

theorem answeredIds_map_skeleton : ∀ (declared : List String) (ms : List Message),
    answeredIds declared (ms.map skeleton) = answeredIds declared ms
  | _, [] => rfl
  | declared, m :: ms => by
    simp only [map_cons, answeredIds, resultId_skeleton, declaredIds_skeleton, answeredIds_map_skeleton _ ms]

theorem answeredFor_map_skeleton : ∀ ms : List Message, AnsweredFor d (ms.map skeleton) ↔ AnsweredFor d ms
  | [] => Iff.rfl
  | m :: ms => by
    simp only [map_cons, AnsweredFor, declaredIds_skeleton, block_map_skeleton,
      answers_map_skeleton, answeredFor_map_skeleton ms]

theorem paired_map_skeleton (ms : List Message) : Paired (ms.map skeleton) ↔ Paired ms := by
  unfold Paired
  simp only [pairedFor_iff, answeredIds_map_skeleton, answeredFor_map_skeleton]

theorem tightFrom_map_skeleton : ∀ (declares : Bool) (ms : List Message),
    TightFrom d declares (ms.map skeleton) ↔ TightFrom d declares ms
  | _, [] => Iff.rfl
  | declares, m :: ms => by
    simp only [map_cons, TightFrom, isTool_skeleton, resultId_skeleton, declaredIds_skeleton,
      run_map_skeleton, answers_map_skeleton, tightFrom_map_skeleton _ ms]
    exact Iff.rfl

theorem adjacentFrom_map_skeleton : ∀ (declared declares : Bool) (ms : List Message),
    AdjacentFrom d declared declares (ms.map skeleton) ↔ AdjacentFrom d declared declares ms
  | _, _, [] => Iff.rfl
  | declared, declares, m :: ms => by
    simp only [map_cons, AdjacentFrom, isSystem_skeleton, isTool_skeleton, resultId_skeleton,
      declaredIds_skeleton, adjacentFrom_map_skeleton _ _ ms]
    exact Iff.rfl

theorem usedOnce_map_skeleton (ms : List Message) : UsedOnce d (ms.map skeleton) ↔ UsedOnce d ms := by
  simp only [UsedOnce, List.filter_map, length_map]
  rfl

end Skeleton

end Memmy.AgentRuntime.Adjacency
