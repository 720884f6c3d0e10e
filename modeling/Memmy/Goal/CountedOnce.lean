import Memmy.Goal.Budget
import Memmy.Lib.Recent

/-! # The usage of a goal is counted once

`settleTurn` adds the usage of a turn to the goal and remembers the turn; a second settlement of the turn gets
the remembered result. The memory is bounded (`goalTurnSettlementLimit`), it is written only after the save
has succeeded, and `clear` empties it.

* `Effect`, `effect_step`: **what a step does** to the usage and to the memory.
* `Inv`: the memory holds the last of the turns that were counted since the last `clear`, and the turns
  counted before belong to goals that do not come back.
* `counted_once`: in every run the usage of the goal is the sum over the turns settled for it, each with the
  usage of its first settlement, if no turn is settled again that the memory has forgotten. -/

namespace Memmy.Goal.CountedOnce

open Lib.Result Lib.Run Lib.Recent Goal.State Goal.Runtime Goal.Budget List Option Except

/-! ### Settlements -/

def goalTurnSeconds (input : SettleInput) : ℕ := (⌈max 0 input.latencyMs / 1000⌉).toNat

/-- What a call of `settleTurn` returns; `none` when it throws. -/
def settleTurnResult (s : RuntimeState) (saved : Bool) (now : ℕ) (input : SettleInput) (goalId : String) :
    Option GoalSettlement :=
  match s.turnSettlements.find? fun r => r.1 = input.turnId with
  | some cached => if cached.2.goalId = goalId ∧ saved = true then some cached.2.result else none
  | none =>
    if saved = false then none
    else match readGoalState s.goalState with
      | none => some { goal := none, publicState := publicGoalState none, shouldContinue := false }
      | some current =>
        if current.goalId ≠ goalId then
          some { goal := none, publicState := publicGoalState (some current), shouldContinue := false }
        else
          let updated := settledGoal current now input
          some
            { goal := some updated
              publicState := publicGoalState (some updated)
              shouldContinue := updated.status = .active }

/-- A turn settled for a goal, with the usage of the call. -/
structure Settled where
  turnId : String
  goalId : String
  tokens : ℕ
  seconds : ℕ
  deriving DecidableEq, Repr

def settledOf (input : SettleInput) : Settled where
  turnId := input.turnId
  goalId := input.goalId.getD ""
  tokens := goalTurnTokens input.usage
  seconds := goalTurnSeconds input

/-- The event is a settlement that succeeds: the call returns a goal. -/
def settled (s : RuntimeState) : Event → Option Settled
  | .settle k saved now =>
    match s.settling[k]? with
    | none => none
    | some input =>
      ((settleTurnResult s saved now input (input.goalId.getD "")).bind GoalSettlement.goal).map fun _ =>
        settledOf input
  | _ => none

/-- The successful settlements of a run, in their order. -/
def settlements (es : List Event) : List Settled := (taken step {} es).filterMap fun t => settled t.1 t.2

/-- The uuid a `create` takes for its goal. -/
def drawn (s : RuntimeState) : Event → Option String
  | .mutate _ _ uuid =>
    match s.control with
    | some (.create _ _ _ _) => some uuid
    | _ => none
  | _ => none

def goalIds (es : List Event) : List String := (taken step {} es).filterMap fun t => drawn t.1 t.2

def SameTurn (x y : Settled) : Prop := x.turnId = y.turnId ∧ x.goalId = y.goalId

instance (x y : Settled) : Decidable (SameTurn x y) := inferInstanceAs (Decidable (_ ∧ _))

def addFirst (l : List Settled) (x : Settled) : List Settled :=
  if ∃ y ∈ l, SameTurn y x then l else l ++ [x]

/-- The first settlement of each turn for each goal. -/
def firsts (l : List Settled) : List Settled := l.foldl addFirst []

def total (f : Settled → ℕ) (goalId : String) (l : List Settled) : ℕ :=
  ((l.filter fun x => x.goalId = goalId).map f).sum

/-- **The property**: the goal has used what its settled turns have used, each counted once. -/
def Counted (l : List Settled) (s : RuntimeState) : Prop :=
  ∀ g, s.goalState = some g →
    g.tokensUsed = total Settled.tokens g.goalId (firsts l) ∧
      g.timeUsedSeconds = total Settled.seconds g.goalId (firsts l)

/-- **No turn is settled again** after as many later turns were settled as the memory holds. -/
def Remembered (l : List Settled) : Prop :=
  ∀ before x after front y back, l = before ++ x :: after → firsts before = front ++ y :: back → SameTurn y x →
    (back.map Settled.turnId).toFinset.card < goalTurnSettlementLimit

/-! ### The goal's record -/

/-- What settlements count, with the goal they count it for. -/
def usage (g : GoalState) : String × ℕ × ℕ := (g.goalId, g.tokensUsed, g.timeUsedSeconds)

/-- What is remembered of the settlements. -/
def pairs (s : RuntimeState) : List (String × String) := s.turnSettlements.map fun r => (r.1, r.2.goalId)

variable {stored : Option GoalState} {goalId : String}

theorem readGoalState_eq_some {g : GoalState} (h : readGoalState stored = some g) : stored = some g := by
  cases stored with
  | none => cases h
  | some value =>
    change parseGoalState value = some g at h
    unfold parseGoalState at h
    split_ifs at h
    exact h

/-- An operation on the goal leaves its usage as it is. -/
def KeepsUsage (stored : Option GoalState) (op : Except GoalRuntimeError GoalState) : Prop :=
  ∀ g, op = .ok g → stored.map usage = some (usage g)

theorem keepsUsage_bind
    {f : GoalState → Except GoalRuntimeError GoalState} (hf : ∀ c g, f c = .ok g → usage g = usage c) :
    KeepsUsage stored (currentGoal stored goalId >>= f) := by
  intro g h
  obtain ⟨c, hc, hg⟩ := bind_eq_ok.mp h
  rw [readGoalState_eq_some (currentGoal_ok hc).1, map_some, hf c g hg]

/-! ### What a step does -/

/-- **The effect of a step** on the usage and the memory. -/
inductive Effect (s s' : RuntimeState) (draw : Option String) (settle : Option Settled) : Prop where
  | kept (hgoal : s'.goalState.map usage = s.goalState.map usage)
      (hcache : s'.turnSettlements = s.turnSettlements) (hsettle : ∀ x ∈ settle, (x.turnId, x.goalId) ∈ pairs s)
  | created (uuid : String) (hgoal : s'.goalState.map usage = some (uuid, 0, 0))
      (hcache : s'.turnSettlements = s.turnSettlements) (hdraw : draw = some uuid) (hsettle : settle = none)
  | cleared (hgoal : s'.goalState = none) (hcache : s'.turnSettlements = []) (hsettle : settle = none)
  | added (x : Settled) (used time : ℕ) (hgoal : s.goalState.map usage = some (x.goalId, used, time))
      (hnew : x.turnId ∉ (pairs s).map Prod.fst)
      (hgoal' : s'.goalState.map usage = some (x.goalId, used + x.tokens, time + x.seconds))
      (hcache : pairs s' =
        (pairs s ++ [(x.turnId, x.goalId)]).drop ((pairs s ++ [(x.turnId, x.goalId)]).length - goalTurnSettlementLimit))
      (hsettle : settle = some x)

variable {s : RuntimeState} {e : Event}

theorem effect_commitGoal {saved : Bool} {op : Except GoalRuntimeError GoalState} {settlement : Bool}
    {commit : GoalState → RuntimeState → RuntimeState} {draw : Option String}
    (hc : ∀ g t, SameGoal t (commit g t))
    (hop : KeepsUsage s.goalState op) : Effect s (commitGoal s saved op settlement commit) draw none := by
  unfold commitGoal
  cases op with
  | error e => split_ifs <;> exact .kept rfl rfl (by simp)
  | ok g =>
    dsimp only
    split_ifs
    · refine .kept ?_ (hc g _).2 (by simp)
      rw [(hc g _).1, hop g rfl, map_some]
    all_goals exact .kept rfl rfl (by simp)

theorem effect_runMutate {saved : Bool} {now : ℕ} {uuid : String} {c : Control} (hc : s.control = some c) :
    Effect s (runMutate s saved now uuid c) (drawn s (.mutate saved now uuid)) none := by
  cases c with
  | create objective tokenBudget route turnId =>
    unfold runMutate commitGoal
    dsimp only
    cases hop : createOp s.goalState uuid now objective tokenBudget with
    | error e => exact .kept rfl rfl (by simp)
    | ok goal =>
      dsimp only
      split_ifs
      · refine .created uuid ?_ rfl (by unfold drawn; rw [hc]) rfl
        unfold createOp at hop
        split_ifs at hop
        cases hop
        rfl
      all_goals exact .kept rfl rfl (by simp)
  | updateFromModel goalId status =>
    unfold runMutate
    refine effect_commitGoal (fun g t => ?_) (keepsUsage_bind fun c g h => ?_)
    · split_ifs <;> exact ⟨rfl, rfl⟩
    · simp only [bind_eq_ok, pure_eq, ok.injEq] at h
      obtain ⟨-, -, rfl⟩ := h
      rfl
  | pauseAndCancel goalId =>
    refine effect_commitGoal (fun g t => sameGoal_invalidateContinuationReservation t)
      (keepsUsage_bind fun c g h => ?_)
    simp only [bind_eq_ok, pure_eq, ok.injEq] at h
    obtain ⟨-, -, rfl⟩ := h
    rfl
  | resume goalId =>
    refine effect_commitGoal (fun g t => ⟨rfl, rfl⟩) (keepsUsage_bind fun c g h => ?_)
    simp only [bind_eq_ok, pure_eq, ok.injEq] at h
    obtain ⟨-, -, -, -, rfl⟩ := h
    rfl
  | edit goalId objective =>
    refine effect_commitGoal (fun g t => ⟨rfl, rfl⟩) (keepsUsage_bind fun c g h => ?_)
    simp only [bind_eq_ok, pure_eq, ok.injEq] at h
    obtain ⟨-, -, rfl⟩ := h
    rfl
  | setBudget goalId tokenBudget cancel =>
    unfold runMutate
    refine effect_commitGoal (fun g t => ?_) (keepsUsage_bind fun c g h => ?_)
    · split_ifs
      · exact sameGoal_invalidateContinuationReservation t
      · exact ⟨rfl, rfl⟩
    · simp only [bind_eq_ok, pure_eq, ok.injEq] at h
      obtain ⟨-, -, rfl⟩ := h
      rfl
  | clearPause goalId =>
    unfold runMutate
    dsimp only
    cases hop : clearPauseOp s.goalState now goalId with
    | error e => exact .kept rfl rfl (by simp)
    | ok goal =>
      split_ifs
      · refine .kept ?_ rfl (by simp)
        have hkeeps : KeepsUsage s.goalState (clearPauseOp s.goalState now goalId) :=
          keepsUsage_bind fun c g h => by
            simp only [bind_eq_ok, pure_eq, ok.injEq] at h
            obtain ⟨-, -, rfl⟩ := h
            rfl
        exact (hkeeps goal hop).symm
      · exact .kept rfl rfl (by simp)
  | clear goalId pausedSnapshot =>
    unfold runMutate
    dsimp only
    cases clearOp s.goalState goalId pausedSnapshot with
    | error e => exact .kept rfl rfl (by simp)
    | ok u =>
      split_ifs
      · exact .cleared (RuntimeState.clearGoalRuntimeWork_goalState _) rfl rfl
      · exact .kept rfl rfl (by simp)
  | clearCancelling goalId pausedSnapshot => exact .kept rfl rfl (by simp)
  | ending settlement => exact .kept rfl rfl (by simp)

/-- **A settlement** adds a turn that is not remembered, or leaves the goal and the memory as they are. -/
theorem settle_cases (s : RuntimeState) (k : ℕ) (saved : Bool) (now : ℕ) :
    (SameGoal s (step s (.settle k saved now)) ∧
      ∀ x ∈ settled s (.settle k saved now), (x.turnId, x.goalId) ∈ pairs s) ∨
    ∃ x used time, s.goalState.map usage = some (x.goalId, used, time) ∧ x.turnId ∉ (pairs s).map Prod.fst ∧
      (step s (.settle k saved now)).goalState.map usage = some (x.goalId, used + x.tokens, time + x.seconds) ∧
      pairs (step s (.settle k saved now)) =
        (pairs s ++ [(x.turnId, x.goalId)]).drop
          ((pairs s ++ [(x.turnId, x.goalId)]).length - goalTurnSettlementLimit) ∧
      settled s (.settle k saved now) = some x := by
  unfold step settled
  dsimp only
  cases hk : s.settling[k]? with
  | none => exact .inl ⟨⟨rfl, rfl⟩, by simp⟩
  | some input =>
    unfold runSettle settleTurnResult
    dsimp only
    cases hcached : s.turnSettlements.find? fun r => r.1 = input.turnId with
    | some cached =>
      have hmem := mem_of_find?_eq_some hcached
      have hturn : cached.1 = input.turnId := by simpa using find?_some hcached
      rw [if_pos (any_eq_true.mpr ⟨cached, hmem, by simpa using hturn⟩)]
      refine .inl ⟨⟨rfl, rfl⟩, fun x hx => ?_⟩
      dsimp only at hx
      split_ifs at hx with hgoal
      · obtain ⟨goal, -, rfl⟩ := map_eq_some_iff.mp hx
        exact mem_map.mpr ⟨cached, hmem, by rw [hturn, hgoal.1]; rfl⟩
      · cases hx
    | none =>
      have hnew : ∀ r ∈ s.turnSettlements, ¬ decide (r.1 = input.turnId) = true := find?_eq_none.mp hcached
      have hany : ¬ (s.turnSettlements.any fun r => r.1 = input.turnId) = true := fun hany => by
        obtain ⟨r, hr, hturn⟩ := any_eq_true.mp hany
        exact hnew r hr hturn
      rw [if_neg hany]
      cases hr : readGoalState s.goalState with
      | none => exact .inl ⟨⟨rfl, rfl⟩, by split_ifs <;> simp⟩
      | some current =>
        by_cases hid : current.goalId ≠ input.goalId.getD ""
        · simp only [if_pos hid]
          exact .inl ⟨⟨rfl, rfl⟩, by split_ifs <;> simp⟩
        simp only [if_neg hid]
        cases saved with
        | false => exact .inl ⟨⟨rfl, rfl⟩, by simp⟩
        | true =>
          have hgoal : current.goalId = (settledOf input).goalId := not_not.mp hid
          refine .inr ⟨settledOf input, current.tokensUsed, current.timeUsedSeconds, ?_, ?_, ?_, ?_, rfl⟩
          · rw [readGoalState_eq_some hr, ← hgoal]
            rfl
          · unfold pairs
            rw [List.map_map]
            intro hmem
            obtain ⟨r, hmem, hturn⟩ := mem_map.mp hmem
            exact hnew r hmem (decide_eq_true hturn)
          · rw [← hgoal]
            rfl
          · unfold pairs recordSettlement
            simp only [if_true]
            rw [if_neg hany, map_drop, map_append, length_append, length_append, length_map]
            rfl

/-- **Step lemma.** -/
theorem effect_step (s : RuntimeState) (e : Event) : Effect s (step s e) (drawn s e) (settled s e) := by
  by_cases hm : ∃ a b c, e = .mutate a b c
  · obtain ⟨saved, now, uuid, rfl⟩ := hm
    cases hc : s.control with
    | none =>
      have hstep : step s (.mutate saved now uuid) = s := by unfold step; rw [hc]
      rw [hstep]
      exact .kept rfl rfl (by simp [settled])
    | some c =>
      have hstep : step s (.mutate saved now uuid) = runMutate s saved now uuid c := by unfold step; rw [hc]
      rw [hstep]
      exact effect_runMutate hc
  by_cases hs : ∃ a b c, e = .settle a b c
  · obtain ⟨k, saved, now, rfl⟩ := hs
    rcases settle_cases s k saved now with ⟨hsame, hsettle⟩ | ⟨x, used, time, hgoal, hnew, hgoal', hcache, hsettle⟩
    · exact .kept (by rw [hsame.1]) hsame.2 hsettle
    · exact .added x used time hgoal hnew hgoal' hcache hsettle
  · have hsame := sameGoal_step (s := s) (e := e) (fun a b c h => hm ⟨a, b, c, h⟩) fun a b c h => hs ⟨a, b, c, h⟩
    refine .kept (by rw [hsame.1]) hsame.2 ?_
    cases e with
    | settle a b c => exact absurd ⟨a, b, c, rfl⟩ hs
    | _ => simp [settled]

/-! ### Runs -/

/-- **The invariant**: `old` was counted before the last `clear`, `new` since then. -/
structure Inv (old new : List Settled) (ids : List String) (s : RuntimeState) : Prop where
  cache : pairs s = recent goalTurnSettlementLimit (new.map fun x => (x.turnId, x.goalId))
  gone : ∀ x ∈ old, ∀ g ∈ s.goalState.map usage, x.goalId ≠ g.1
  known : ∀ x ∈ old ++ new, x.goalId ∈ ids
  current : ∀ g ∈ s.goalState.map usage, g.1 ∈ ids
  apart : Apart goalTurnSettlementLimit (new.map Settled.turnId)
  counted : ∀ g ∈ s.goalState.map usage,
    g.2 = (total Settled.tokens g.1 (old ++ new), total Settled.seconds g.1 (old ++ new))

variable {l : List Settled}

theorem total_eq_zero {f : Settled → ℕ} (h : ∀ x ∈ l, x.goalId ≠ goalId) : total f goalId l = 0 := by
  unfold total
  rw [filter_eq_nil_iff.mpr fun x hx => by simpa using h x hx]
  rfl

theorem total_concat (f : Settled → ℕ) (l : List Settled) (x : Settled) :
    total f x.goalId (l ++ [x]) = total f x.goalId l + f x := by
  simp [total, filter_append]

theorem addFirst_of_new {x : Settled} (h : ∀ y ∈ l, ¬ SameTurn y x) : addFirst l x = l ++ [x] :=
  if_neg fun ⟨y, hy, hsame⟩ => h y hy hsame

variable {old new : List Settled} {ids : List String} {s' : RuntimeState} {draw : Option String}
  {settle : Option Settled}

/-- **The invariant is kept** if a new goal takes a new id and no forgotten turn is settled again. -/
theorem inv_step (h : Inv old new ids s) (he : Effect s s' draw settle) (hdraw : ∀ uuid ∈ draw, uuid ∉ ids)
    (hre : ∀ x ∈ settle, ∀ front y back, old ++ new = front ++ y :: back → SameTurn y x →
      (back.map Settled.turnId).toFinset.card < goalTurnSettlementLimit) :
    ∃ old' new', old' ++ new' = settle.toList.foldl addFirst (old ++ new) ∧
      Inv old' new' (ids ++ draw.toList) s' := by
  have hknown : ∀ x ∈ old ++ new, x.goalId ∈ ids ++ draw.toList := fun x hx =>
    mem_append_left _ (h.known x hx)
  cases he with
  | kept hgoal hcache hsettle =>
    refine ⟨old, new, ?_, ?_⟩
    · cases settle with
      | none => rfl
      | some x =>
        have hmem := hsettle x rfl
        rw [h.cache] at hmem
        obtain ⟨y, hy, hpair⟩ := mem_map.mp (recent_subset hmem)
        exact (if_pos ⟨y, mem_append_right _ hy, Prod.ext_iff.mp hpair⟩).symm
    · refine ⟨?_, ?_, hknown, ?_, h.apart, ?_⟩
      · unfold pairs
        rw [hcache]
        exact h.cache
      · rw [hgoal]
        exact h.gone
      · rw [hgoal]
        exact fun g hg => mem_append_left _ (h.current g hg)
      · rw [hgoal]
        exact h.counted
  | created uuid hgoal hcache hdraw' hsettle =>
    subst hsettle hdraw'
    have hfresh : ∀ x ∈ old ++ new, x.goalId ≠ uuid := fun x hx he => hdraw uuid rfl (he ▸ h.known x hx)
    refine ⟨old, new, rfl, ?_, ?_, hknown, ?_, h.apart, ?_⟩
    · unfold pairs
      rw [hcache]
      exact h.cache
    all_goals simp only [hgoal, mem_some_iff, forall_eq']
    · exact fun x hx => hfresh x (mem_append_left _ hx)
    · exact mem_append_right _ (mem_singleton_self uuid)
    · rw [total_eq_zero hfresh, total_eq_zero hfresh]
  | cleared hgoal hcache hsettle =>
    subst hsettle
    refine ⟨old ++ new, [], by simp, ?_, ?_, by simpa using hknown, ?_, apart_nil, ?_⟩
    · unfold pairs
      rw [hcache]
      rfl
    all_goals simp [hgoal]
  | added x used time hgoal hnew hgoal' hcache hsettle =>
    subst hsettle
    have hfirst : ∀ y ∈ old ++ new, ¬ SameTurn y x := by
      intro y hy hsame
      rcases mem_append.mp hy with hold | hrecent
      · exact h.gone y hold _ hgoal hsame.2
      · obtain ⟨front, back, rfl⟩ := append_of_mem hrecent
        have hback := hre x rfl (old ++ front) y back (by simp) hsame
        refine hnew ?_
        rw [h.cache, map_recent, List.map_map, ← hsame.1]
        have hapart := h.apart
        rw [map_append, map_cons] at hapart
        have hmem := hapart.mem_recent hback
        rwa [← map_cons, ← map_append] at hmem
    have hunknown : x.turnId ∉ recent goalTurnSettlementLimit (new.map Settled.turnId) := by
      rw [h.cache, map_recent, List.map_map] at hnew
      exact hnew
    have hid : x.goalId ∈ ids := h.current _ hgoal
    obtain ⟨hused, htime⟩ := Prod.ext_iff.mp (h.counted _ hgoal)
    refine ⟨old, new ++ [x], ?_, ?_, ?_, ?_, ?_, ?_, ?_⟩
    · rw [← append_assoc]
      exact (addFirst_of_new hfirst).symm
    · rw [hcache, h.cache, map_append]
      exact recent_concat _ _ _
    · simp only [hgoal', mem_some_iff, forall_eq']
      exact fun y hy => h.gone y hy _ hgoal
    · intro y hy
      rw [← append_assoc] at hy
      rcases mem_append.mp hy with hy | hy
      · exact hknown y hy
      · obtain rfl := mem_singleton.mp hy
        exact mem_append_left _ hid
    · simp only [hgoal', mem_some_iff, forall_eq']
      exact mem_append_left _ hid
    · rw [map_append]
      exact h.apart.concat hunknown
    · simp only [hgoal', mem_some_iff, forall_eq']
      rw [← append_assoc, total_concat, total_concat]
      exact Prod.ext (congrArg (· + x.tokens) hused) (congrArg (· + x.seconds) htime)

theorem filterMap_concat {α β : Type*} (f : α → Option β) (l : List α) (x : α) :
    (l ++ [x]).filterMap f = l.filterMap f ++ (f x).toList := by
  cases hx : f x <;> simp [hx]

theorem remembered_left {l' : List Settled} (h : Remembered (l ++ l')) : Remembered l :=
  fun before x after front y back hl => h before x (after ++ l') front y back (by simp [hl])

/-- **Run lemma.** -/
theorem inv_run (es : List Event) (hids : (goalIds es).Nodup) (hre : Remembered (settlements es)) :
    ∃ old new, old ++ new = firsts (settlements es) ∧ Inv old new (goalIds es) (final step {} es) := by
  induction es using List.reverseRecOn with
  | nil =>
    exact ⟨[], [], rfl, rfl, by simp, by simp, by simp, apart_nil, by simp⟩
  | append_singleton es e ih =>
    have hset : settlements (es ++ [e]) = settlements es ++ (settled (final step {} es) e).toList := by
      unfold settlements
      rw [taken_concat, filterMap_concat]
    have hdrawn : goalIds (es ++ [e]) = goalIds es ++ (drawn (final step {} es) e).toList := by
      unfold goalIds
      rw [taken_concat, filterMap_concat]
    rw [hset] at hre ⊢
    rw [hdrawn] at hids ⊢
    obtain ⟨hnodup, -, hdisjoint⟩ := nodup_append.mp hids
    obtain ⟨old, new, hfirsts, hinv⟩ := ih hnodup (remembered_left hre)
    obtain ⟨old', new', hfirsts', hinv'⟩ := inv_step hinv (effect_step (final step {} es) e)
      (fun uuid huuid hmem => hdisjoint uuid hmem uuid (mem_toList.mpr huuid) rfl)
      (fun x hx front y back he hsame => hre (settlements es) x [] front y back
        (by rw [mem_def.mp hx, toList_some]) (by rw [← hfirsts, he]) hsame)
    refine ⟨old', new', ?_, ?_⟩
    · rw [hfirsts', hfirsts]
      unfold firsts
      rw [foldl_append]
    · unfold final at hinv' ⊢
      rw [foldl_append]
      exact hinv'

/-- **The usage of a goal is counted once** in every run, and a settlement that fails changes neither the goal
nor the memory. -/
theorem counted_once (es : List Event) (hids : (goalIds es).Nodup) (hre : Remembered (settlements es)) :
    Counted (settlements es) (final step {} es) ∧
      ∀ k saved now, settled (final step {} es) (.settle k saved now) = none →
        SameGoal (final step {} es) (step (final step {} es) (.settle k saved now)) := by
  constructor
  · obtain ⟨old, new, hfirsts, hinv⟩ := inv_run es hids hre
    intro g hg
    have h := hinv.counted (usage g) (by rw [hg]; rfl)
    rw [hfirsts] at h
    exact Prod.ext_iff.mp h
  · intro k saved now hfailed
    rcases settle_cases (final step {} es) k saved now with ⟨hsame, -⟩ | ⟨x, used, time, -, -, -, -, hsettled⟩
    · exact hsame
    · rw [hfailed] at hsettled
      cases hsettled

/-! ### A turn that is settled twice -/

theorem length_firsts_le (l : List Settled) : (firsts l).length ≤ l.length := by
  induction l using List.reverseRecOn with
  | nil => exact le_refl _
  | append_singleton l x ih =>
    unfold firsts addFirst at ih ⊢
    rw [foldl_append, length_append]
    simp only [foldl_cons, foldl_nil]
    split_ifs
    · omega
    · rw [length_append]
      omega

theorem remembered_of_length (h : l.length ≤ goalTurnSettlementLimit) : Remembered l := by
  intro before x after front y back hl hfirsts _
  have hcard := toFinset_card_le (back.map Settled.turnId)
  have hlen := length_firsts_le before
  rw [hfirsts] at hlen
  rw [hl] at h
  simp only [length_append, length_cons, length_map] at h hlen hcard
  omega

/-- A turn is settled, its first settlement fails to be saved, and it is settled again when it is cancelled. -/
def cancelledTurn : List Event :=
  let input (tokens : ℤ) (stopReason : String) : SettleInput :=
    { turnId := "t1"
      goalId := some "123e4567-e89b-42d3-a456-426614174000"
      usage := { promptTokens := none, completionTokens := none, totalTokens := some (.finite tokens) }
      latencyMs := 1500
      stopReason := stopReason
      errorCategory := none }
  [ .create "ship it" none { channel := "websocket", chatId := "c" } "t1",
    .mutate true 1 "123e4567-e89b-42d3-a456-426614174000",
    .finish true,
    .settleTurn (input 12 "end"),
    .settle 0 false 2,
    .settleTurn (input 12 "end"),
    .settleTurn (input 20 "cancelled"),
    .settle 1 true 3,
    .settle 0 true 4 ]

theorem counted_once_cancelledTurn :
    (settlements cancelledTurn).map Settled.tokens = [20, 12] ∧
      Counted (settlements cancelledTurn) (final step {} cancelledTurn) :=
  ⟨by decide +kernel, (counted_once cancelledTurn (by decide +kernel)
    (remembered_of_length (by decide +kernel))).1⟩

end Memmy.Goal.CountedOnce
