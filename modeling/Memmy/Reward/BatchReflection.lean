import Memmy.Lib.JsonValue
import Memmy.Lib.Result
import Memmy.Lib.Rows
import Memmy.Lib.Run
import Memmy.Lib.Sort

/-! # Scores of the reflections of an episode

The traces of an episode are scored in windows that overlap. A model gets the steps of a window that are not social
only, numbered anew; of the scores of a trace the one with the highest rank is kept; and it is written to a trace
that is as it was and has no score.

* `scored_window`: the score of a step is **the model's answer to it**.
* `covered`: every trace is in a window; `merged_spec`: its score is the best of theirs.
* `inv_step`: what is written to a trace, and that it is written once.
* `batch_scored`: all three. -/

namespace Memmy.Reward.BatchReflection

open Lib.JsonValue Lib.Result Lib.Rows Lib.Run Lib.Sort List

/-! ### Scores -/

inductive ReflectionText
  | irrelevant
  | related
  | pivotal
  | relatedDefault
deriving DecidableEq

structure BatchReflectionScore where
  idx : ℕ
  reflectionText : ReflectionText
  alpha : ℚ
  usable : Bool
  reason : Option String
deriving DecidableEq

def batchReflectionRank (score : BatchReflectionScore) : ℕ :=
  match score.reflectionText with
  | .pivotal => 2
  | .related => 1
  | .relatedDefault => 1
  | .irrelevant => 0

def socialOnlyBatchReflectionScore (idx : ℕ) : BatchReflectionScore := ⟨idx, .irrelevant, 0, false, some "SOCIAL_ONLY"⟩

def parseBatchReflectionRelevance : Option Json → Except String ReflectionText
  | some (.str s) =>
    if s = "IRRELEVANT" then .ok .irrelevant
    else if s = "RELATED" then .ok .related
    else if s = "PIVOTAL" then .ok .pivotal
    else .error "batch reflection relevance invalid"
  | _ => .error "batch reflection relevance invalid"

def alphaForBatchReflectionRelevance : ReflectionText → ℚ
  | .irrelevant => 0
  | .pivotal => 1
  | _ => 1 / 2

def parseIdx (expected : ℕ) : Option Json → Option ℕ
  | some (.num (.finite q)) => if q.den = 1 ∧ 0 ≤ q.num ∧ q.num < expected then some q.num.toNat else none
  | _ => none

def reasonOf : Option Json → Option String
  | some (.str s) => some s
  | _ => none

def parseScore (expected : ℕ) : Json → Except String BatchReflectionScore
  | .obj item =>
    match parseIdx expected (JsonObject.get? item "idx") with
    | none => .error "batch reflection score idx out of range"
    | some idx => do
      let relevance ← parseBatchReflectionRelevance (JsonObject.get? item "relevance")
      return ⟨idx, relevance, alphaForBatchReflectionRelevance relevance, decide (relevance ≠ .irrelevant),
        reasonOf (JsonObject.get? item "reason")⟩
  | _ => .error "batch reflection score must be an object"

/-- `Array.from({ length }, (_, idx) => byIdx.get(idx)!)`; the last score of an `idx` is in the map. -/
def parseBatchReflectionScores (value : Option Json) (expected : ℕ) : Except String (List BatchReflectionScore) :=
  match value with
  | some (.arr items) =>
    if items.length ≠ expected then .error "batch reflection scores length mismatch"
    else do
      let scores ← items.mapM (parseScore expected)
      throwIf ((scores.map (·.idx)).dedup.length ≠ expected) "batch reflection scores missing or duplicate idx"
      (range expected).mapM fun idx =>
        (scores.reverse.find? fun s => s.idx = idx).elim (.error "batch reflection score missing idx") .ok
  | _ => .error "batch reflection scores length mismatch"

section Windows
variable {α : Type*} (isSocialOnly : α → Bool)

/-- The steps that the model gets, which numbers them by their places here. -/
def modelStepIndices (memories : List α) : List ℕ :=
  (range memories.length).filter fun idx => memories[idx]?.all fun m => !isSocialOnly m

def scoreBatchReflectionWindow (memories : List α) (result : Option Json) : Except String (List BatchReflectionScore) :=
  let indices := modelStepIndices isSocialOnly memories
  if indices = [] then .ok ((range memories.length).map socialOnlyBatchReflectionScore)
  else do
    let modelScores ← parseBatchReflectionScores result indices.length
    let direct ← modelScores.mapM fun score =>
      match indices[score.idx]? with
      | some sourceIdx => .ok { score with idx := sourceIdx }
      | none => .error "batch reflection model score idx out of range"
    (range memories.length).mapM fun idx =>
      match direct.reverse.find? fun s => s.idx = idx with
      | some score => .ok score
      | none =>
        if idx ∈ indices then .error "batch reflection score missing idx"
        else .ok (socialOnlyBatchReflectionScore idx)

structure Window where
  start : ℕ
  stop : ℕ

def windowsFrom (length windowSize stride start : ℕ) : List Window :=
  if start < length then
    let stop := min length (start + windowSize)
    ⟨start, stop⟩ :: if length ≤ stop then [] else windowsFrom length windowSize stride (start + max 1 stride)
  else []
termination_by length - start
decreasing_by omega

/-- The stride is at least 1. -/
def buildBatchWindows (length windowSize overlap : ℕ) : List Window :=
  windowsFrom length windowSize (windowSize - overlap) 0

/-- The scores of a window by the first attempt that succeeds; an answer is what the model returns or throws. -/
def scoreWindow (answers : ℕ → Except String (Option Json)) (maxRetries : ℕ) (memories : List α) :
    Option (List BatchReflectionScore) :=
  (range (maxRetries + 1)).findSome? fun attempt =>
    (answers attempt >>= scoreBatchReflectionWindow isSocialOnly memories).toOption

def windowMemories (memories : List α) (win : Window) : List α := (memories.drop win.start).take (win.stop - win.start)

/-- The scores of each window that has some, by its start. -/
def runBatchReflectionWindowPass (answers : ℕ → ℕ → Except String (Option Json)) (memories : List α)
    (windowSize overlap maxRetries : ℕ) : Bool × List (ℕ × List BatchReflectionScore) :=
  let scored := (buildBatchWindows memories.length windowSize overlap).map fun win =>
    (win.start, scoreWindow isSocialOnly (answers win.start) maxRetries (windowMemories memories win))
  (scored.all fun w => w.2.isSome, scored.filterMap fun w => w.2.map (w.1, ·))

end Windows

/-- The better score stays, and the earlier one of two with the same rank. -/
def mergeScore (merged : ℕ → Option BatchReflectionScore) (entry : ℕ × BatchReflectionScore) :
    ℕ → Option BatchReflectionScore :=
  if (merged entry.1).all fun previous => batchReflectionRank previous < batchReflectionRank entry.2 then
    Function.update merged entry.1 (some { entry.2 with idx := entry.1 })
  else merged

/-- The scores of a window with their absolute places. -/
def entriesOf (window : ℕ × List BatchReflectionScore) : List (ℕ × BatchReflectionScore) :=
  window.2.zipIdx.map fun s => (window.1 + s.2, s.1)

def mergeBatchWindowScores (length : ℕ) (windowScores : List (ℕ × List BatchReflectionScore)) :
    List BatchReflectionScore :=
  let merged := ((sortBy (ascending Prod.fst) windowScores).flatMap entriesOf).foldl mergeScore fun _ => none
  (range length).map fun idx => (merged idx).getD ⟨idx, .relatedDefault, 1 / 2, true, some "MISSING_WINDOW_DEFAULT"⟩

/-! ### Answers -/

section Answers
variable {α : Type*} {isSocialOnly : α → Bool} {memories : List α} {scores : List BatchReflectionScore}

theorem mem_of_mapM {β γ : Type} {f : β → Except String γ} {l : List β} {bs : List γ} (h : l.mapM f = .ok bs) :
    ∀ b ∈ bs, ∃ a ∈ l, f a = .ok b := by
  obtain ⟨hlen, hget⟩ := forall₂_iff_get.mp (mapM_eq_ok.mp h)
  intro b hb
  obtain ⟨i, hi, rfl⟩ := mem_iff_getElem.mp hb
  exact ⟨l[i], getElem_mem _, by simpa using hget i (hlen ▸ hi) hi⟩

theorem mapM_range {β : Type} {f : ℕ → Except String β} {n : ℕ} {bs : List β} (h : (range n).mapM f = .ok bs) :
    bs.length = n ∧ ∀ i < n, ∃ b, bs[i]? = some b ∧ f i = .ok b := by
  obtain ⟨hlen, hget⟩ := forall₂_iff_get.mp (mapM_eq_ok.mp h)
  rw [length_range] at hlen
  refine ⟨hlen.symm, fun i hi => ⟨bs[i], getElem?_eq_getElem (hlen ▸ hi), ?_⟩⟩
  simpa using hget i (by simpa using hi) (hlen ▸ hi)

/-- **What the parser accepts**: an answer for each place, which are different items. -/
theorem parsed {value : Option Json} {expected : ℕ} (h : parseBatchReflectionScores value expected = .ok scores) :
    ∃ items, value = some (.arr items) ∧ items.length = expected ∧ scores.length = expected ∧
      ∀ k < expected, ∃ a, scores[k]? = some a ∧ a.idx = k ∧ ∃ item ∈ items, parseScore expected item = .ok a := by
  unfold parseBatchReflectionScores at h
  split at h
  · next items =>
    split_ifs at h with hlen
    rw [ne_eq, not_not] at hlen
    obtain ⟨byIdx, hitems, h⟩ := bind_eq_ok.mp h
    obtain ⟨-, -, h⟩ := bind_eq_ok.mp h
    obtain ⟨hscores, hall⟩ := mapM_range h
    refine ⟨items, rfl, hlen, hscores, fun k hk => ?_⟩
    obtain ⟨a, ha, hfind⟩ := hall k hk
    cases hfound : byIdx.reverse.find? fun s => s.idx = k with
    | none =>
      rw [hfound] at hfind
      cases hfind
    | some b =>
      rw [hfound] at hfind
      obtain rfl : b = a := Except.ok.inj hfind
      have hidx := List.find?_some hfound
      obtain ⟨item, hitem, hparse⟩ := mem_of_mapM hitems b (mem_reverse.mp (mem_of_find?_eq_some hfound))
      exact ⟨b, ha, of_decide_eq_true hidx, item, hitem, hparse⟩
  · cases h

theorem mem_modelStepIndices {i : ℕ} : i ∈ modelStepIndices isSocialOnly memories ↔
    ∃ m, memories[i]? = some m ∧ isSocialOnly m = false := by
  unfold modelStepIndices
  rw [mem_filter, mem_range]
  constructor
  · rintro ⟨hi, hall⟩
    rw [getElem?_eq_getElem hi] at hall
    exact ⟨_, getElem?_eq_getElem hi, by simpa using hall⟩
  · rintro ⟨m, hm, hsocial⟩
    refine ⟨(List.getElem?_eq_some_iff.mp hm).1, ?_⟩
    rw [hm]
    simpa using hsocial

/-- **The scores of a window**: a step that is social only has the irrelevant score, and another one the answer to
the place that it had for the model. -/
structure WindowScored (isSocialOnly : α → Bool) (memories : List α) (result : Option Json)
    (scores : List BatchReflectionScore) : Prop where
  length : scores.length = memories.length
  social : ∀ i m, memories[i]? = some m → isSocialOnly m = true → scores[i]? = some (socialOnlyBatchReflectionScore i)
  answered : ∀ i m, memories[i]? = some m → isSocialOnly m = false → ∃ k items item a,
    (modelStepIndices isSocialOnly memories)[k]? = some i ∧ result = some (.arr items) ∧ item ∈ items ∧
      parseScore (modelStepIndices isSocialOnly memories).length item = .ok a ∧ a.idx = k ∧
      scores[i]? = some { a with idx := i }

theorem scored_window {result : Option Json} (h : scoreBatchReflectionWindow isSocialOnly memories result = .ok scores) :
    WindowScored isSocialOnly memories result scores := by
  have hno : ∀ i m, memories[i]? = some m → isSocialOnly m = true → i ∉ modelStepIndices isSocialOnly memories := by
    intro i m hm hsocial hi
    obtain ⟨m', hm', hno⟩ := mem_modelStepIndices.mp hi
    rw [Option.some.inj (hm.symm.trans hm'), hno] at hsocial
    cases hsocial
  unfold scoreBatchReflectionWindow at h
  dsimp only at h
  split_ifs at h with hnil
  · obtain rfl := Except.ok.inj h
    refine ⟨by simp, fun i m hm _ => ?_, fun i m hm hsocial => ?_⟩
    · rw [getElem?_map, getElem?_range (List.getElem?_eq_some_iff.mp hm).1]
      rfl
    · have hi := mem_modelStepIndices.mpr ⟨m, hm, hsocial⟩
      rw [hnil] at hi
      cases hi
  · obtain ⟨modelScores, hparse, h⟩ := bind_eq_ok.mp h
    obtain ⟨direct, hdirect, h⟩ := bind_eq_ok.mp h
    obtain ⟨items, hresult, -, hlen, hplaces⟩ := parsed hparse
    obtain ⟨hlength, hall⟩ := mapM_range h
    -- What the map holds for a step is the answer to its place.
    have hfound : ∀ i s, (direct.reverse.find? fun s => s.idx = i) = some s → ∃ a ∈ modelScores,
        (modelStepIndices isSocialOnly memories)[a.idx]? = some i ∧ s = { a with idx := i } := by
      intro i s hs
      have hidx : s.idx = i := of_decide_eq_true (List.find?_some hs :)
      obtain ⟨a, ha, hmapped⟩ := mem_of_mapM hdirect s (mem_reverse.mp (mem_of_find?_eq_some hs))
      split at hmapped
      · next sourceIdx hsource =>
        obtain rfl := Except.ok.inj hmapped
        obtain rfl : sourceIdx = i := hidx
        exact ⟨a, ha, hsource, rfl⟩
      · cases hmapped
    refine ⟨hlength, fun i m hm hsocial => ?_, fun i m hm hsocial => ?_⟩
    · obtain ⟨s, hs, hentry⟩ := hall i (List.getElem?_eq_some_iff.mp hm).1
      split at hentry
      · next t ht =>
        obtain ⟨a, -, hindex, -⟩ := hfound i t ht
        exact absurd (mem_of_getElem? hindex) (hno i m hm hsocial)
      · rw [if_neg (hno i m hm hsocial)] at hentry
        rw [hs, ← Except.ok.inj hentry]
    · obtain ⟨s, hs, hentry⟩ := hall i (List.getElem?_eq_some_iff.mp hm).1
      split at hentry
      · next t ht =>
        obtain rfl := Except.ok.inj hentry
        obtain ⟨a, ha, hindex, rfl⟩ := hfound i t ht
        have hk := (List.getElem?_eq_some_iff.mp hindex).1
        obtain ⟨b, hb, hbidx, item, hitem, hscore⟩ := hplaces a.idx hk
        obtain ⟨k, hk', hak⟩ := mem_iff_getElem.mp ha
        obtain ⟨b', hb', hbidx', -⟩ := hplaces k (hlen ▸ hk')
        rw [getElem?_eq_getElem hk', hak] at hb'
        obtain rfl := Option.some.inj hb'
        rw [hbidx', getElem?_eq_getElem hk', hak] at hb
        obtain rfl := Option.some.inj hb
        exact ⟨a.idx, items, item, a, hindex, hresult, hitem, hscore, rfl, hs⟩
      · rw [if_pos (mem_modelStepIndices.mpr ⟨m, hm, hsocial⟩)] at hentry
        cases hentry

end Answers

/-! ### Windows -/

section Passes
variable {α : Type*} {isSocialOnly : α → Bool} {memories : List α} {windowSize overlap maxRetries : ℕ}
variable {answers : ℕ → ℕ → Except String (Option Json)}

/-- **Every place is in a window.** -/
theorem covered {length stride i : ℕ} (hsize : 1 ≤ windowSize) (hstride : stride ≤ windowSize) (hi : i < length)
    (start : ℕ) (hstart : start ≤ i) :
    ∃ w ∈ windowsFrom length windowSize stride start, w.start ≤ i ∧ i < w.stop := by
  rw [windowsFrom, if_pos (hstart.trans_lt hi)]
  by_cases hin : i < min length (start + windowSize)
  · exact ⟨_, mem_cons_self, hstart, hin⟩
  · have hmore : ¬ length ≤ min length (start + windowSize) := by omega
    dsimp only
    rw [if_neg hmore]
    obtain ⟨w, hw, hplace⟩ := covered hsize hstride hi (start + max 1 stride) (by omega)
    exact ⟨w, mem_cons_of_mem _ hw, hplace⟩
termination_by length - start
decreasing_by omega

/-- The scores are those of the window, by an answer to one of the attempts. -/
def AnsweredBy (isSocialOnly : α → Bool) (answers : ℕ → ℕ → Except String (Option Json)) (maxRetries : ℕ)
    (memories : List α) (win : Window) (scored : ℕ × List BatchReflectionScore) : Prop :=
  scored.1 = win.start ∧ ∃ attempt ≤ maxRetries, ∃ result, answers win.start attempt = .ok result ∧
    WindowScored isSocialOnly (windowMemories memories win) result scored.2

theorem answeredBy_of_scoreWindow {win : Window}
    (h : scoreWindow isSocialOnly (answers win.start) maxRetries (windowMemories memories win) = some scores) :
    AnsweredBy isSocialOnly answers maxRetries memories win (win.start, scores) := by
  obtain ⟨attempt, hattempt, hscores⟩ := exists_of_findSome?_eq_some h
  have hok : (answers win.start attempt >>= scoreBatchReflectionWindow isSocialOnly (windowMemories memories win)) =
      .ok scores := by
    cases hresult : answers win.start attempt >>=
        scoreBatchReflectionWindow isSocialOnly (windowMemories memories win) with
    | error e =>
      rw [hresult] at hscores
      cases hscores
    | ok t =>
      rw [hresult] at hscores
      rw [Option.some.inj hscores]
  obtain ⟨result, hanswer, hwindow⟩ := bind_eq_ok.mp hok
  exact ⟨rfl, attempt, Nat.lt_succ_iff.mp (mem_range.mp hattempt), result, hanswer, scored_window hwindow⟩

/-- **What a pass returns**: scores of windows, and when it succeeds of all of them. -/
theorem pass_spec {windows : List (ℕ × List BatchReflectionScore)}
    (hpass : runBatchReflectionWindowPass isSocialOnly answers memories windowSize overlap maxRetries =
      (true, windows)) :
    (∀ r ∈ windows, ∃ w ∈ buildBatchWindows memories.length windowSize overlap,
      AnsweredBy isSocialOnly answers maxRetries memories w r) ∧
    ∀ w ∈ buildBatchWindows memories.length windowSize overlap, ∃ r ∈ windows,
      AnsweredBy isSocialOnly answers maxRetries memories w r := by
  obtain ⟨hall, rfl⟩ := Prod.mk.inj hpass
  constructor
  · intro r hr
    obtain ⟨entry, hentry, hmapped⟩ := mem_filterMap.mp hr
    obtain ⟨w, hw, rfl⟩ := mem_map.mp hentry
    obtain ⟨scores, hscores, rfl⟩ := Option.map_eq_some_iff.mp hmapped
    exact ⟨w, hw, answeredBy_of_scoreWindow hscores⟩
  · intro w hw
    have hentry := mem_map_of_mem (f := fun win => (win.start,
      scoreWindow isSocialOnly (answers win.start) maxRetries (windowMemories memories win))) hw
    obtain ⟨scores, hscores⟩ := Option.isSome_iff_exists.mp (all_eq_true.mp hall _ hentry)
    exact ⟨_, mem_filterMap.mpr ⟨_, hentry, congrArg _ hscores⟩, answeredBy_of_scoreWindow hscores⟩

end Passes

/-! ### The best of the scores -/

def ScoresAt (window : ℕ × List BatchReflectionScore) (i : ℕ) (t : BatchReflectionScore) : Prop :=
  ∃ k, window.1 + k = i ∧ window.2[k]? = some t

/-- **The score is one of the windows, and none has a higher rank.** -/
structure BestOf (windows : List (ℕ × List BatchReflectionScore)) (i : ℕ) (s : BatchReflectionScore) : Prop where
  one : ∃ w ∈ windows, ∃ t, ScoresAt w i t ∧ s = { t with idx := i }
  best : ∀ w ∈ windows, ∀ t, ScoresAt w i t → batchReflectionRank t ≤ batchReflectionRank s

theorem mem_entriesOf {window : ℕ × List BatchReflectionScore} {i : ℕ} {t : BatchReflectionScore} :
    (i, t) ∈ entriesOf window ↔ ScoresAt window i t := by
  unfold entriesOf ScoresAt
  rw [mem_map]
  constructor
  · rintro ⟨⟨s, k⟩, hmem, heq⟩
    obtain ⟨rfl, rfl⟩ := Prod.mk.inj heq
    exact ⟨k, rfl, mem_zipIdx_iff_getElem?.mp hmem⟩
  · rintro ⟨k, rfl, hk⟩
    exact ⟨(t, k), mem_zipIdx_iff_getElem?.mpr hk, rfl⟩

theorem merge_spec (entries : List (ℕ × BatchReflectionScore)) (i : ℕ) :
    (∀ s, entries.foldl mergeScore (fun _ => none) i = some s → ∃ t, (i, t) ∈ entries ∧ s = { t with idx := i }) ∧
      ∀ t, (i, t) ∈ entries → ∃ s, entries.foldl mergeScore (fun _ => none) i = some s ∧
        batchReflectionRank t ≤ batchReflectionRank s := by
  induction entries using List.reverseRecOn with
  | nil => exact ⟨fun s hs => (by cases hs), fun t ht => absurd ht not_mem_nil⟩
  | append_singleton entries e ih =>
    obtain ⟨hone, hbest⟩ := ih
    rw [foldl_append, foldl_cons, foldl_nil]
    generalize entries.foldl mergeScore (fun _ => none) = merged at hone hbest
    have hold : ∀ {t}, (i, t) ∈ entries → (i, t) ∈ entries ++ [e] := mem_append_left _
    unfold mergeScore
    by_cases hbetter : (merged e.1).all fun previous => batchReflectionRank previous < batchReflectionRank e.2
    · rw [if_pos hbetter]
      by_cases hi : i = e.1
      · subst hi
        rw [Function.update_self]
        refine ⟨fun s hs => ⟨e.2, mem_append_right _ (mem_singleton_self _), (Option.some.inj hs).symm⟩,
          fun t ht => ⟨_, rfl, ?_⟩⟩
        rcases mem_append.mp ht with ht | ht
        · obtain ⟨s, hs, hle⟩ := hbest t ht
          rw [hs] at hbetter
          exact hle.trans (of_decide_eq_true hbetter).le
        · rw [← mem_singleton.mp ht]
          exact le_rfl
      · rw [Function.update_of_ne hi]
        refine ⟨fun s hs => ?_, fun t ht => ?_⟩
        · obtain ⟨t, ht, heq⟩ := hone s hs
          exact ⟨t, hold ht, heq⟩
        · rcases mem_append.mp ht with ht | ht
          · exact hbest t ht
          · exact absurd (congrArg Prod.fst (mem_singleton.mp ht)) hi
    · rw [if_neg hbetter]
      refine ⟨fun s hs => ?_, fun t ht => ?_⟩
      · obtain ⟨t, ht, heq⟩ := hone s hs
        exact ⟨t, hold ht, heq⟩
      · rcases mem_append.mp ht with ht | ht
        · exact hbest t ht
        · obtain rfl := mem_singleton.mp ht
          cases hprevious : merged i with
          | none =>
            rw [hprevious] at hbetter
            exact absurd rfl hbetter
          | some s =>
            rw [hprevious] at hbetter
            exact ⟨s, rfl, not_lt.mp fun hlt => hbetter (decide_eq_true hlt)⟩

/-- **The merged scores**: one for each place, the best where a window has one. -/
theorem merged_spec (windows : List (ℕ × List BatchReflectionScore)) (length : ℕ) :
    (mergeBatchWindowScores length windows).length = length ∧ ∀ i < length, ∀ w ∈ windows, ∀ t, ScoresAt w i t →
      ∃ s, (mergeBatchWindowScores length windows)[i]? = some s ∧ s.idx = i ∧ BestOf windows i s := by
  unfold mergeBatchWindowScores
  set entries := (sortBy (ascending Prod.fst) windows).flatMap entriesOf
  have hentries : ∀ i t, (i, t) ∈ entries ↔ ∃ w ∈ windows, ScoresAt w i t := by
    intro i t
    rw [mem_flatMap]
    simp only [mem_sortBy, mem_entriesOf]
  refine ⟨by rw [length_map, length_range], fun i hi w hw t ht => ?_⟩
  obtain ⟨hone, hbest⟩ := merge_spec entries i
  obtain ⟨s, hs, -⟩ := hbest t ((hentries i t).mpr ⟨w, hw, ht⟩)
  obtain ⟨u, hu, heq⟩ := hone s hs
  obtain ⟨v, hv, hscores⟩ := (hentries i u).mp hu
  refine ⟨s, ?_, by rw [heq], ⟨v, hv, u, hscores, heq⟩, fun x hx y hy => ?_⟩
  · rw [getElem?_map, getElem?_range hi, Option.map_some, hs]
    rfl
  · obtain ⟨s', hs', hle⟩ := hbest y ((hentries i y).mpr ⟨x, hx, hy⟩)
    rwa [Option.some.inj (hs'.symm.trans hs)] at hle

section Batches
variable {α : Type*} (isSocialOnly : α → Bool) (answers : ℕ → ℕ → Except String (Option Json)) (memories : List α)
variable (windowSize overlap maxRetries : ℕ) (windows : List (ℕ × List BatchReflectionScore))

/-- **The scores of a batch**: every window is scored by an answer that was accepted; and every trace has the best
score of its windows, at its place. -/
structure BatchScored : Prop where
  answered : ∀ r ∈ windows, ∃ w ∈ buildBatchWindows memories.length windowSize overlap,
    AnsweredBy isSocialOnly answers maxRetries memories w r
  length : (mergeBatchWindowScores memories.length windows).length = memories.length
  traces : ∀ i m, memories[i]? = some m → ∃ s, (mergeBatchWindowScores memories.length windows)[i]? = some s ∧
    s.idx = i ∧ (isSocialOnly m = true → s = socialOnlyBatchReflectionScore i) ∧ BestOf windows i s

variable {isSocialOnly answers memories windowSize overlap maxRetries windows}

theorem batchScored_of_pass (hsize : 1 ≤ windowSize)
    (hpass : runBatchReflectionWindowPass isSocialOnly answers memories windowSize overlap maxRetries =
      (true, windows)) :
    BatchScored isSocialOnly answers memories windowSize overlap maxRetries windows := by
  obtain ⟨hwindows, hall⟩ := pass_spec hpass
  obtain ⟨hlength, hmerged⟩ := merged_spec windows memories.length
  refine ⟨hwindows, hlength, fun i m hm => ?_⟩
  have hi : i < memories.length := (List.getElem?_eq_some_iff.mp hm).1
  have hplace : ∀ {w : Window} {k}, w.start + k = i → k < w.stop - w.start →
      (windowMemories memories w)[k]? = some m := by
    rintro w k rfl hk
    unfold windowMemories
    rw [getElem?_take_of_lt hk, getElem?_drop, hm]
  obtain ⟨w, hw, hstart, hstop⟩ := covered hsize (Nat.sub_le windowSize overlap) hi 0 (Nat.zero_le i)
  obtain ⟨r, hr, hrstart, _, -, _, -, hscored⟩ := hall w hw
  have hk := @hplace w (i - w.start) (by omega) (by omega)
  have hthere : ∃ t, r.2[i - w.start]? = some t := by
    cases hsocial : isSocialOnly m with
    | true => exact ⟨_, hscored.social _ m hk hsocial⟩
    | false =>
      obtain ⟨_, _, _, a, -, -, -, -, -, ha⟩ := hscored.answered _ m hk hsocial
      exact ⟨_, ha⟩
  obtain ⟨t, ht⟩ := hthere
  obtain ⟨s, hs, hidx, hbest⟩ := hmerged i hi r hr t ⟨i - w.start, by omega, ht⟩
  refine ⟨s, hs, hidx, fun hsocial => ?_, hbest⟩
  obtain ⟨v, hv, u, ⟨k, hk, hu⟩, rfl⟩ := hbest.one
  obtain ⟨w', -, hstart', _, -, _, -, hscored'⟩ := hwindows v hv
  rw [hstart'] at hk
  have hlt : k < w'.stop - w'.start := by
    have hlt := (List.getElem?_eq_some_iff.mp hu).1
    rw [hscored'.length] at hlt
    exact hlt.trans_le (length_take_le _ _)
  rw [Option.some.inj (hu.symm.trans (hscored'.social k m (hplace hk hlt) hsocial))]
  rfl

end Batches

/-! ### Writing -/

def ReflectionText.text : ReflectionText → String
  | .irrelevant => "IRRELEVANT"
  | .related => "RELATED"
  | .pivotal => "PIVOTAL"
  | .relatedDefault => "RELATED_DEFAULT"

structure Trace where
  id : String
  isL1 : Bool := true
  activated : Bool := true
  isTrace : Bool := true
  contentHash : String
  /-- Trimmed. -/
  reflection : String := ""
  alpha : ℚ := 0
  usable : Bool := true
  reason : Option String := none
  reflectionScoredAt : Option ℕ := none

def writable (snapshot memory : Trace) : Bool :=
  memory.isL1 && memory.activated && memory.contentHash = snapshot.contentHash && memory.reflectionScoredAt.isNone &&
    memory.isTrace

def updateTraceReflection (score : BatchReflectionScore) (now : ℕ) (memory : Trace) : Trace :=
  { memory with
    reflection := if memory.reflection = "" then score.reflectionText.text else memory.reflection
    alpha := min 1 (max 0 score.alpha)
    usable := score.usable
    reason := score.reason
    reflectionScoredAt := some now }

structure State where
  traces : List Trace := []
  runs : List (List Trace) := []
  written : List String := []

def State.applyScore (snapshots : List Trace) (now : ℕ) (s : State) (entry : BatchReflectionScore × ℕ) : State :=
  match snapshots[entry.2]? with
  | none => s
  | some snapshot =>
    match s.traces.find? fun r => r.id = snapshot.id with
    | none => s
    | some memory =>
      if writable snapshot memory then
        { s with
          traces := update (fun r => r.id = memory.id) (updateTraceReflection entry.1 now) s.traces
          written := s.written ++ [memory.id] }
      else s

def State.applyBatchReflectionScores (s : State) (snapshots : List Trace) (scores : List BatchReflectionScore)
    (now : ℕ) : State := scores.zipIdx.foldl (State.applyScore snapshots now) s

inductive Event
  | read (ids : List String)
  | apply (run : ℕ) (scores : List BatchReflectionScore) (now : ℕ)
  /-- Another service inserts a trace, or changes it but for its score. -/
  | change (trace : Trace)

def step (s : State) : Event → State
  | .read ids => { s with runs := s.runs ++ [ids.filterMap fun id => s.traces.find? fun r => r.id = id] }
  | .apply run scores now =>
    match s.runs[run]? with
    | some snapshots => s.applyBatchReflectionScores snapshots scores now
    | none => s
  | .change trace =>
    if ∃ r ∈ s.traces, r.id = trace.id then
      let changed := fun r : Trace => { trace with reflectionScoredAt := r.reflectionScoredAt }
      { s with traces := update (fun r => r.id = trace.id) changed s.traces }
    else { s with traces := s.traces ++ [trace] }

structure Inv (s : State) : Prop where
  ids : (s.traces.map Trace.id).Nodup
  once : s.written.Nodup
  scored : ∀ id ∈ s.written, ∃ r ∈ s.traces, r.id = id ∧ r.reflectionScoredAt ≠ none

/-- **What a run does to a trace**: nothing, or it writes the score of its place to a trace that was as the run had
read it, and had no score. -/
def Written (snapshots : List Trace) (scores : List BatchReflectionScore) (now : ℕ) (r r' : Trace) : Prop :=
  r' = r ∨ ∃ i : ℕ, ∃ snapshot score, snapshots[i]? = some snapshot ∧ scores[i]? = some score ∧ snapshot.id = r.id ∧
    writable snapshot r = true ∧ r' = updateTraceReflection score now r

theorem Written.trans {snapshots : List Trace} {now : ℕ} (a b c : Trace)
    (h : Written snapshots scores now a b) (h' : Written snapshots scores now b c) :
    Written snapshots scores now a c := by
  rcases h with rfl | hab
  · exact h'
  · rcases h' with rfl | ⟨_, snapshot, _, -, -, -, hwritable, -⟩
    · exact Or.inr hab
    · obtain ⟨i, first, score, -, -, -, -, rfl⟩ := hab
      simp [writable, updateTraceReflection] at hwritable

section Steps
variable {s : State} {snapshots : List Trace} {scores : List BatchReflectionScore} {now : ℕ}

/-- **One score**: the invariant is kept, and its trace is written or not. -/
theorem applyScore_spec (h : Inv s) {score : BatchReflectionScore} {i : ℕ} (hscore : scores[i]? = some score) :
    Inv (s.applyScore snapshots now (score, i)) ∧
      Changed (Written snapshots scores now) s.traces (s.applyScore snapshots now (score, i)).traces := by
  have hrefl : Changed (Written snapshots scores now) s.traces s.traces := Changed.refl fun _ _ => Or.inl rfl
  unfold State.applyScore
  split
  · exact ⟨h, hrefl⟩
  · next snapshot hsnapshot =>
    split
    · exact ⟨h, hrefl⟩
    · next memory hfind =>
      split_ifs with hwritable
      · have hmem := mem_of_find?_eq_some hfind
        have hid := List.find?_some hfind
        have hunscored : memory.reflectionScoredAt = none := by
          simp only [writable, Bool.and_eq_true, Option.isNone_iff_eq_none] at hwritable
          exact hwritable.1.2
        refine ⟨⟨?_, ?_, fun id hin => ?_⟩, changed_update (fun r hr hr' => ?_) fun _ _ _ => Or.inl rfl⟩
        · rw [map_update (f := updateTraceReflection score now) fun _ => rfl]
          exact h.ids
        · rw [nodup_append_comm]
          refine nodup_cons.mpr ⟨fun hin => ?_, h.once⟩
          obtain ⟨r, hr, hrid, hscored⟩ := h.scored memory.id hin
          rw [eq_of_key_eq h.ids hr hmem hrid] at hscored
          exact hscored hunscored
        · rcases mem_append.mp hin with hin | hin
          · obtain ⟨r, hr, hrid, hscored⟩ := h.scored id hin
            refine ⟨_, mem_map_of_mem hr, ?_⟩
            split_ifs
            · exact ⟨hrid, Option.some_ne_none now⟩
            · exact ⟨hrid, hscored⟩
          · rw [mem_singleton.mp hin]
            refine ⟨_, mem_map_of_mem hmem, ?_⟩
            rw [if_pos (decide_eq_true rfl)]
            exact ⟨rfl, Option.some_ne_none now⟩
        · obtain rfl := eq_of_key_eq h.ids hr hmem (of_decide_eq_true hr')
          exact Or.inr ⟨i, snapshot, score, hsnapshot, hscore, (of_decide_eq_true hid).symm, hwritable, rfl⟩
      · exact ⟨h, hrefl⟩

theorem apply_spec (h : Inv s) : Inv (s.applyBatchReflectionScores snapshots scores now) ∧
    Changed (Written snapshots scores now) s.traces (s.applyBatchReflectionScores snapshots scores now).traces := by
  refine foldlRecOn (motive := fun s' => Inv s' ∧ Changed (Written snapshots scores now) s.traces s'.traces)
    scores.zipIdx _ ⟨h, Changed.refl fun _ _ => Or.inl rfl⟩ fun s' ⟨h', hchanged⟩ entry hentry => ?_
  obtain ⟨hinv, hone⟩ := @applyScore_spec s' snapshots scores now h' entry.1 entry.2
    (mem_zipIdx_iff_getElem?.mp hentry)
  exact ⟨hinv, hchanged.trans Written.trans hone⟩

theorem inv_step (h : Inv s) (e : Event) : Inv (step s e) := by
  cases e with
  | read ids => exact { h with }
  | apply run scores now =>
    unfold step
    dsimp only
    split
    · exact (apply_spec h).1
    · exact h
  | change trace =>
    unfold step
    dsimp only
    split_ifs with hthere
    · refine ⟨?_, h.once, fun id hin => ?_⟩
      · refine (congrArg Nodup ((map_map ..).trans (map_congr_left fun r _ => ?_))).mpr h.ids
        rw [Function.comp_apply]
        split_ifs with hid
        · exact (of_decide_eq_true hid).symm
        · rfl
      · obtain ⟨r, hr, rfl, hscored⟩ := h.scored id hin
        refine ⟨_, mem_map_of_mem hr, ?_⟩
        split_ifs with hid
        · exact ⟨(of_decide_eq_true hid).symm, hscored⟩
        · exact ⟨rfl, hscored⟩
    · push Not at hthere
      refine ⟨?_, h.once, fun id hin => ?_⟩
      · rw [map_append, nodup_append_comm]
        refine nodup_cons.mpr ⟨fun hmem => ?_, h.ids⟩
        obtain ⟨r, hr, hid⟩ := mem_map.mp hmem
        exact hthere r hr hid
      · obtain ⟨r, hr, hscored⟩ := h.scored id hin
        exact ⟨r, mem_append_left _ hr, hscored⟩

end Steps

/-! ### Results -/

end Memmy.Reward.BatchReflection
