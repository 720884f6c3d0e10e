import Memmy.Goal.Runtime

/-! # The token budget of an active goal

An active goal with a budget is meant to have used less than it (`BudgetKept`). Every operation
keeps this but `resume`: usage is added while a goal is paused, and a budget can be lowered then,
but `resume` looks at the status only (`resumeOp_ok`). So the property holds along a run exactly if
no `resume` of the run lets an exhausted goal through (`budgetKept_iff`). -/

namespace Memmy.Goal.Budget

open Lib.Result Lib.Run Goal.State Goal.Runtime Except

/-- The goal has tokens left. -/
def WithinBudget (g : GoalState) : Prop := ∀ b ∈ g.tokenBudget, g.tokensUsed < b

/-- **The property**: a goal that is active and has a budget has used less than it. -/
def BudgetKept (s : RuntimeState) : Prop := ∀ g, s.goalState = some g → g.status = .active → WithinBudget g

/-- The event is the `mutate` of a `resume` that succeeds on the goal `g`. -/
def Resumes (s : RuntimeState) (e : Event) (g : GoalState) : Prop :=
  ∃ goalId now uuid, e = .mutate true now uuid ∧ s.control = some (.resume goalId) ∧
    readGoalState s.goalState = some g ∧ g.goalId = goalId ∧
      g.status ∈ [GoalStatus.paused, .blocked, .usageLimited]

/-! ### What the operations do to the goal -/

variable {e : Event} {g : GoalState} {stored : Option GoalState} {s : RuntimeState} {goalId : String} {now : ℕ}

theorem currentGoal_ok
    (h : currentGoal stored goalId = .ok g) : readGoalState stored = some g ∧ g.goalId = goalId := by
  unfold currentGoal at h
  split at h
  · cases h
  · next goal hr =>
    split_ifs at h with hid
    cases h
    exact ⟨hr, not_not.mp hid⟩

variable {commit : GoalState → RuntimeState → RuntimeState} {budget : Option TokenBudget}

theorem createOp_ok {uuid objective : String}
    (h : createOp stored uuid now objective budget = .ok g) : WithinBudget g := by
  unfold createOp at h
  split_ifs at h
  cases h
  intro b hb
  obtain ⟨t, -, rfl⟩ := Option.map_eq_some_iff.mp hb
  exact t.2

theorem updateFromModelOp_ok {status : ModelStatus} (h : updateFromModelOp stored now goalId status = .ok g) :
    g.status ≠ .active := by
  simp only [updateFromModelOp, bind_eq_ok, pure_eq, ok.injEq] at h
  obtain ⟨goal, -, -, -, rfl⟩ := h
  rcases status.2 with hs | hs <;> simp [hs]

theorem pauseOp_ok (h : pauseOp stored now goalId = .ok g) : g.status ≠ .active := by
  simp only [pauseOp, bind_eq_ok, pure_eq, ok.injEq] at h
  obtain ⟨goal, -, -, -, rfl⟩ := h
  simp

theorem clearPauseOp_ok (h : clearPauseOp stored now goalId = .ok g) : g.status ≠ .active := by
  simp only [clearPauseOp, bind_eq_ok, pure_eq, ok.injEq] at h
  obtain ⟨goal, -, -, -, rfl⟩ := h
  simp

theorem editOp_ok {objective : String}
    (h : editOp stored now goalId objective = .ok g) : g.status ≠ .active := by
  simp only [editOp, bind_eq_ok, pure_eq, ok.injEq, throwIf_eq_ok] at h
  obtain ⟨goal, -, -, hs, rfl⟩ := h
  exact fun ha => hs (Or.inl ha)

theorem resumeOp_ok :
    resumeOp stored now goalId = .ok g ↔
      ∃ current, readGoalState stored = some current ∧ current.goalId = goalId ∧
        current.status ∈ [GoalStatus.paused, .blocked, .usageLimited] ∧
        g = { current with
          status := .active, updatedAt := nextGoalUpdatedAt current.updatedAt now } := by
  simp only [resumeOp, bind_eq_ok, pure_eq, ok.injEq, throwIf_eq_ok]
  constructor
  · rintro ⟨goal, hc, -, -, -, hs, rfl⟩
    obtain ⟨hr, hid⟩ := currentGoal_ok hc
    exact ⟨goal, hr, hid, not_not.mp hs, rfl⟩
  · rintro ⟨current, hr, hid, hs, rfl⟩
    have hb : current.status ≠ .budgetLimited := by rintro hb; rw [hb] at hs; simp at hs
    exact ⟨current, by simp [currentGoal, hr, hid], (), hb, (), not_not.mpr hs, rfl⟩

theorem setBudgetOp_ok (h : setBudgetOp stored now goalId budget = .ok g)
    (ha : g.status = .active) : WithinBudget g := by
  simp only [setBudgetOp, bind_eq_ok, pure_eq, ok.injEq] at h
  obtain ⟨goal, -, -, -, rfl⟩ := h
  simp only [budgetStatus] at ha
  split_ifs at ha with h1 h2
  intro b hb
  by_contra hle
  exact h2 ⟨ha, b, hb, by simpa using hle⟩

theorem settledGoal_within {current : GoalState} {input : SettleInput}
    (ha : (settledGoal current now input).status = .active) :
    WithinBudget (settledGoal current now input) := by
  intro b hb
  simp only [settledGoal, settledStatus] at ha hb ⊢
  split_ifs at ha with h1 h2 h3 h4
  all_goals first
    | exact GoalStatus.noConfusion ha
    | exact h3 ⟨ha, hex⟩
    | exact h4 ⟨ha, hex⟩
    | simp_all

/-! ### What a step does to the goal -/

theorem commitGoal_goalState (s : RuntimeState) (saved : Bool)
    (op : Except GoalRuntimeError GoalState) (settlement : Bool)
    
    (hc : ∀ g s, s.goalState = some g → (commit g s).goalState = some g) :
    (∃ g, op = .ok g ∧ saved = true ∧
      (commitGoal s saved op settlement commit).goalState = some g) ∨
    (commitGoal s saved op settlement commit).goalState = s.goalState := by
  unfold commitGoal
  cases op with
  | error e => right; dsimp only; split_ifs <;> simp
  | ok g =>
    by_cases hs : saved = true
    · left; exact ⟨g, rfl, hs, by simp only [hs, if_true]; exact hc g _ rfl⟩
    · right; dsimp only; rw [if_neg hs]; split_ifs <;> simp

theorem commitGoal_kept {saved : Bool} {op : Except GoalRuntimeError GoalState} {settlement : Bool}
    
    (hc : ∀ g s, s.goalState = some g → (commit g s).goalState = some g) (hs : BudgetKept s)
    (hop : ∀ g, op = .ok g → saved = true → g.status = .active → WithinBudget g) :
    BudgetKept (commitGoal s saved op settlement commit) := by
  intro g hg ha
  rcases commitGoal_goalState s saved op settlement hc
    with ⟨g', hok, hsv, he⟩ | he
  · rw [he] at hg; cases hg; exact hop g hok hsv ha
  · rw [he] at hg; exact hs g hg ha

/-- The goal is as it was, and so is what is remembered of settled turns. -/
def SameGoal (s s' : RuntimeState) : Prop := s'.goalState = s.goalState ∧ s'.turnSettlements = s.turnSettlements

theorem sameGoal_beginLifecycleControl (s : RuntimeState) (c : Control) :
    SameGoal s (beginLifecycleControl s c) := by
  unfold beginLifecycleControl; split_ifs <;> exact ⟨rfl, rfl⟩

theorem sameGoal_beginLifecycleSettlement (s : RuntimeState) (c : Control) :
    SameGoal s (beginLifecycleSettlement s c) := by
  unfold beginLifecycleSettlement; split_ifs <;> exact ⟨rfl, rfl⟩

theorem sameGoal_beginClear (s : RuntimeState) (goalId : String) : SameGoal s (beginClear s goalId) := by
  unfold beginClear
  split_ifs
  · split
    · exact ⟨rfl, rfl⟩
    · dsimp only; split_ifs <;> exact sameGoal_beginLifecycleSettlement _ _
  · exact ⟨rfl, rfl⟩

theorem sameGoal_runFinish (s : RuntimeState) (b : Bool) (c : Control) : SameGoal s (runFinish s b c) := by
  unfold runFinish
  split
  · exact ⟨rfl, rfl⟩
  · exact ⟨rfl, rfl⟩
  · split_ifs <;> exact ⟨rfl, rfl⟩
  · exact ⟨rfl, rfl⟩

theorem sameGoal_invalidateContinuationReservation (s : RuntimeState) :
    SameGoal s s.invalidateContinuationReservation := by
  unfold RuntimeState.invalidateContinuationReservation; split_ifs <;> exact ⟨rfl, rfl⟩

theorem sameGoal_step (hm : ∀ a b c, e ≠ .mutate a b c)
    (hs : ∀ a b c, e ≠ .settle a b c) : SameGoal s (step s e) := by
  cases e with
  | mutate a b c => exact absurd rfl (hm a b c)
  | settle a b c => exact absurd rfl (hs a b c)
  | create o b r t =>
    unfold step; dsimp only
    split
    · split_ifs
      · exact ⟨rfl, rfl⟩
      · exact sameGoal_beginLifecycleControl _ _
    · exact ⟨rfl, rfl⟩
  | updateFromModel g st => exact sameGoal_beginLifecycleControl _ _
  | pauseAndCancel g => exact sameGoal_beginLifecycleSettlement _ _
  | resume g => exact sameGoal_beginLifecycleControl _ _
  | edit g o =>
    unfold step; dsimp only
    split
    · exact sameGoal_beginLifecycleControl _ _
    · exact ⟨rfl, rfl⟩
  | setBudget g v =>
    unfold step; dsimp only
    split
    · split_ifs
      · exact sameGoal_beginLifecycleSettlement _ _
      · exact sameGoal_beginLifecycleControl _ _
    · exact ⟨rfl, rfl⟩
  | clear g => exact sameGoal_beginClear _ _
  | finish b =>
    unfold step; dsimp only
    split
    · exact sameGoal_runFinish _ _ _
    · exact ⟨rfl, rfl⟩
  | settleTurn input =>
    unfold step; dsimp only
    split
    · exact ⟨rfl, rfl⟩
    · split_ifs <;> exact ⟨rfl, rfl⟩
  | registerLease g t => unfold step; dsimp only; split_ifs <;> exact ⟨rfl, rfl⟩
  | releaseTurn t => exact ⟨rfl, rfl⟩
  | reserveWork r => unfold step; dsimp only; split_ifs <;> exact ⟨rfl, rfl⟩
  | releaseWork t => exact ⟨rfl, rfl⟩

theorem runSettle_kept (hs : BudgetKept s) (saved : Bool) (now : ℕ)
    (input : SettleInput) (goalId : String) : BudgetKept (runSettle s saved now input goalId) := by
  unfold runSettle
  by_cases hrec : s.turnSettlements.any (fun r => r.1 = input.turnId) = true
  · rw [if_pos hrec]; exact hs
  · rw [if_neg hrec]
    split
    · exact hs
    · next current hr =>
      by_cases hid : current.goalId ≠ goalId
      · rw [if_pos hid]; exact hs
      rw [if_neg hid]
      by_cases hsv : saved = true
      · rw [if_pos hsv]
        intro g hg ha
        cases hg
        exact settledGoal_within ha
      · rw [if_neg hsv]; exact hs

/-- **Step lemma for the mutex**: of the lifecycle methods only `resume` can break the property. -/
theorem runMutate_kept (hs : BudgetKept s) (saved : Bool) (now : ℕ) (uuid : String) (c : Control)
    (hresume : ∀ goalId g, c = .resume goalId → saved = true →
      resumeOp s.goalState now goalId = .ok g → WithinBudget g) :
    BudgetKept (runMutate s saved now uuid c) := by
  cases c with
  | create o b r t =>
    exact commitGoal_kept (fun _ _ h => h) hs fun g hg _ _ => createOp_ok hg
  | updateFromModel id st =>
    refine commitGoal_kept (fun g s h => ?_) hs fun g hg _ ha => absurd ha (updateFromModelOp_ok hg)
    split_ifs <;> simp [h]
  | pauseAndCancel id =>
    exact commitGoal_kept (fun _ _ h => by simp [h]) hs fun g hg _ ha => absurd ha (pauseOp_ok hg)
  | resume id =>
    exact commitGoal_kept (fun _ _ h => h) hs fun g hg hsv _ => hresume id g rfl hsv hg
  | edit id o =>
    exact commitGoal_kept (fun _ _ h => h) hs fun g hg _ ha => absurd ha (editOp_ok hg)
  | setBudget id b cancel =>
    refine commitGoal_kept (fun g s h => ?_) hs fun g hg _ ha => setBudgetOp_ok hg ha
    split_ifs <;> simp [h]
  | clearPause id =>
    unfold runMutate; dsimp only
    split
    · next goal hg =>
      split_ifs
      · intro g hgs ha
        cases hgs
        exact absurd ha (clearPauseOp_ok hg)
      · exact hs
    · exact hs
  | clear id snap =>
    unfold runMutate; dsimp only
    split
    · split_ifs
      · intro g hgs
        simp at hgs
      · exact hs
    · exact hs
  | clearCancelling id snap => exact hs
  | ending b => exact hs

/-- **Step lemma**: a step keeps the property unless it resumes an exhausted goal. -/
theorem step_kept (hs : BudgetKept s) (hr : ∀ g, Resumes s e g → WithinBudget g) : BudgetKept (step s e) := by
  by_cases hm : ∃ a b c, e = .mutate a b c
  · obtain ⟨saved, now, uuid, rfl⟩ := hm
    unfold step; dsimp only
    split
    · next c hc =>
      refine runMutate_kept hs saved now uuid c ?_
      rintro goalId g rfl rfl hok
      obtain ⟨current, hread, hid, hst, rfl⟩ := resumeOp_ok.mp hok
      exact hr current ⟨goalId, now, uuid, rfl, hc, hread, hid, hst⟩
    · exact hs
  by_cases ht : ∃ a b c, e = .settle a b c
  · obtain ⟨k, saved, now, rfl⟩ := ht
    unfold step; dsimp only
    split
    · exact hs
    · exact runSettle_kept (s := { s with settling := s.settling.eraseIdx k }) hs _ _ _ _
  · have he := sameGoal_step (s := s) (e := e) (fun a b c h => hm ⟨a, b, c, h⟩) (fun a b c h => ht ⟨a, b, c, h⟩)
    intro g hg
    rw [he.1] at hg
    exact hs g hg

/-- A `resume` that lets an exhausted goal through breaks the property at once. -/
theorem within_of_step_kept (hs : BudgetKept (step s e)) (hr : Resumes s e g) : WithinBudget g := by
  obtain ⟨goalId, now, uuid, rfl, hc, hread, hid, hst⟩ := hr
  have hok : resumeOp s.goalState now goalId = .ok _ := resumeOp_ok.mpr ⟨g, hread, hid, hst, rfl⟩
  have hstep : step s (.mutate true now uuid) =
      commitGoal s true (resumeOp s.goalState now goalId) false fun _ s => s := by
    simp [step, hc, runMutate]
  rw [hstep, hok] at hs
  exact (hs { g with status := .active, updatedAt := nextGoalUpdatedAt g.updatedAt now } rfl rfl)

/-- **Exactly the runs that resume no exhausted goal keep the budget.** -/
theorem budgetKept_iff (es : List Event) :
    (∀ s ∈ visited step {} es, BudgetKept s) ↔
      ∀ t ∈ taken step {} es, ∀ g, Resumes t.1 t.2 g → WithinBudget g :=
  invariant_iff_steps (I := BudgetKept) (P := fun s e => ∀ g, Resumes s e g → WithinBudget g)
    (fun _ _ hs hr => step_kept hs hr) (fun _ _ hs _ hr => within_of_step_kept hs hr) es _
    (by intro g hg; cases hg)

/-! ### A run that resumes an exhausted goal -/

/-- The goal is paused while its turn runs, the turn's usage reaches the budget, and the goal is
resumed. -/
def exhaustedResume : List Event :=
  [ .create "ship it" (some (.finite 10)) { channel := "websocket", chatId := "c" } "t1",
    .mutate true 1 "123e4567-e89b-42d3-a456-426614174000",
    .finish true,
    .pauseAndCancel "123e4567-e89b-42d3-a456-426614174000",
    .mutate true 2 "",
    .finish true,
    .settleTurn
      { turnId := "t1"
        goalId := some "123e4567-e89b-42d3-a456-426614174000"
        usage := { promptTokens := none, completionTokens := none, totalTokens := some (.finite 12) }
        latencyMs := 5
        stopReason := "cancelled"
        errorCategory := none },
    .settle 0 true 3,
    .releaseTurn "t1",
    .resume "123e4567-e89b-42d3-a456-426614174000",
    .mutate true 4 "" ]

/-- **The property fails**: after `exhaustedResume` the goal is active with 12 of 10 tokens used. -/
theorem budget_not_kept : ¬ ∀ es : List Event, ∀ s ∈ visited step {} es, BudgetKept s := by
  intro h
  have hk := h exhaustedResume _ (final_mem_visited step exhaustedResume {})
  have hrun : (final step {} exhaustedResume).goalState.map
      (fun g => (g.status, g.tokenBudget, g.tokensUsed)) = some (.active, some 10, 12) := by
    decide +kernel
  obtain ⟨g, hg, he⟩ := Option.map_eq_some_iff.mp hrun
  simp only [Prod.mk.injEq] at he
  obtain ⟨ha, hb, hu⟩ := he
  have := hk g hg ha 10 hb
  omega

end Memmy.Goal.Budget
