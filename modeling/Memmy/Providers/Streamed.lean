import Memmy.Providers.Fallback

/-! # Providers: what a request delivers

A round stops at the first attempt that has delivered content, but the loop of retries does not: a round
that failed after it had delivered something is repeated, and its content is delivered again.

* `Ledger`: what is known of a state, from the outcomes that were taken.
* `Justified`: the primary is left out only in the cooldown of a trip, after enough failures.
* `ShownOnce`: what is promised of a request that ends well.
* `shownOnce_iff`: it holds exactly if no attempt but the last has delivered content. -/

namespace Memmy.Providers

open List

/-! ### What is promised -/

def textOf (deltas : List String) : String := deltas.foldr (· ++ ·) ""

def Outcome.text (o : Outcome) : String := textOf o.deltas

/-- A provider that streams: the deltas of a response that is no error are its content. -/
def Outcome.Streams (o : Outcome) : Prop :=
  ∀ r, o.reply = .returned r → r.finishReason ≠ "error" → o.text = r.content.getD ""

/-- The failures since the last success. -/
def failuresSince (start : ℕ) (events : List CircuitEvent) : ℕ :=
  events.foldl (fun n e => match e with
    | .failed => n + 1
    | .succeeded => 0
    | _ => n) start

def lastTrip (start : Option ℤ) (events : List CircuitEvent) : Option ℤ :=
  events.foldl (fun last e => match e with
    | .tripped now => some now
    | _ => last) start

/-- **The primary is left out** only in the cooldown of the last trip, after enough failures. -/
def Justified (circuit : Circuit) (events : List CircuitEvent) : Prop :=
  ∀ before now after, events = before ++ .skipped now :: after →
    ∃ trippedAt, lastTrip circuit.primaryTrippedAt before = some trippedAt ∧
      now - trippedAt < primaryCooldownMs ∧
      primaryFailureThreshold ≤ failuresSince circuit.primaryFailures before

/-- What is promised of a request that ends in `response`. -/
structure ShownOnce (env : Env) (circuit : Circuit) (args : Args) (outcomes : List Outcome)
    (response : Response) (s : State) : Prop where
  exact : textOf s.delivered = response.content.getD ""
  one : outcomes.Pairwise fun o o' => o.text = "" ∨ o'.text = ""
  args : ∀ c ∈ s.calls, c.1 = none → c.2 = buildRetryArgs env args
  skips : Justified circuit s.circuitEvents

/-! ### Texts -/

@[simp] theorem textOf_append (deltas deltas' : List String) :
    textOf (deltas ++ deltas') = textOf deltas ++ textOf deltas' := by
  unfold textOf
  induction deltas with
  | nil => simp
  | cons d deltas ih => simp [ih, String.append_assoc]

theorem textOf_flatMap : ∀ (outcomes : List Outcome),
    textOf (outcomes.flatMap (·.deltas)) = textOf (outcomes.map Outcome.text)
  | [] => rfl
  | o :: outcomes => by
    rw [flatMap_cons, textOf_append, textOf_flatMap outcomes]
    rfl

theorem textOf_eq_empty : ∀ {deltas : List String}, textOf deltas = "" ↔ ∀ d ∈ deltas, d = ""
  | [] => by simp [textOf]
  | d :: deltas => by
    have hcons : textOf (d :: deltas) = d ++ textOf deltas := rfl
    rw [hcons, forall_mem_cons, ← @textOf_eq_empty deltas]
    simp

/-! ### The circuit -/

theorem failuresSince_append (start : ℕ) (events events' : List CircuitEvent) :
    failuresSince start (events ++ events') = failuresSince (failuresSince start events) events' :=
  foldl_append

theorem lastTrip_append (start : Option ℤ) (events events' : List CircuitEvent) :
    lastTrip start (events ++ events') = lastTrip (lastTrip start events) events' := foldl_append

variable {circuit : Circuit}

theorem Justified.append {events events' : List CircuitEvent}
    (h : Justified circuit events) (hskip : ∀ now, .skipped now ∉ events') :
    Justified circuit (events ++ events') := by
  intro before now after he
  rcases append_eq_append_iff.mp he with ⟨l, rfl, htail⟩ | ⟨l, rfl, htail⟩
  · exact absurd (htail ▸ mem_append_right l mem_cons_self) (hskip now)
  · cases l with
    | nil =>
      rw [nil_append] at htail
      exact absurd (htail ▸ mem_cons_self) (hskip now)
    | cons e l =>
      obtain ⟨rfl, rfl⟩ := cons_eq_cons.mp htail
      exact h before _ l rfl

theorem Justified.skip {events : List CircuitEvent} (h : Justified circuit events)
    {now trippedAt : ℤ} (htrip : lastTrip circuit.primaryTrippedAt events = some trippedAt)
    (hcooldown : now - trippedAt < primaryCooldownMs)
    (hfailures : primaryFailureThreshold ≤ failuresSince circuit.primaryFailures events) :
    Justified circuit (events ++ [.skipped now]) := by
  intro before now' after he
  rcases append_eq_append_iff.mp he with ⟨l, rfl, htail⟩ | ⟨l, rfl, htail⟩
  · cases l with
    | nil =>
      cases htail
      rw [append_nil]
      exact ⟨trippedAt, htrip, hcooldown, hfailures⟩
    | cons e l =>
      have hlen := congrArg List.length htail
      simp only [length_append, length_cons, length_nil] at hlen
      omega
  · cases l with
    | nil =>
      cases htail
      rw [append_nil] at htrip hfailures
      exact ⟨trippedAt, htrip, hcooldown, hfailures⟩
    | cons e l =>
      obtain ⟨rfl, rfl⟩ := cons_eq_cons.mp htail
      exact h before _ l rfl

/-! ### The ledger of a request -/

/-- What is known of a state after the outcomes `taken`; the primary is always given `args`. -/
structure Ledger (circuit : Circuit) (args : Args) (outcomes taken : List Outcome) (s : State) : Prop where
  outcomes : outcomes = taken ++ s.outcomes
  delivered : s.delivered = taken.flatMap (·.deltas)
  calls : ∀ c ∈ s.calls, c.1 = none → c.2 = args
  failures : failuresSince circuit.primaryFailures s.circuitEvents = s.circuit.primaryFailures
  trip : ∀ trippedAt, s.circuit.primaryTrippedAt = some trippedAt →
    lastTrip circuit.primaryTrippedAt s.circuitEvents = some trippedAt
  justified : Justified circuit s.circuitEvents

/-- A response that is no error has the content of the last attempt. -/
def Ended (taken : List Outcome) (reply : Reply) : Prop :=
  ∀ r, reply = .returned r → r.finishReason ≠ "error" →
    ∃ o r₀, taken.getLast? = some o ∧ o.reply = .returned r₀ ∧ r₀.content = r.content ∧
      r₀.finishReason = r.finishReason

section Ledger
variable {env : Env} {circuit : Circuit} {args : Args} {outcomes taken : List Outcome} {s s' : State}
  {reply : Reply} {preset : Option FallbackPreset} {r : Response}

theorem Ended.thrown {message : String} {isAbort : Bool} : Ended taken (.thrown message isAbort) :=
  fun _ hr => by cases hr

theorem Ended.error (h : r.finishReason = "error") : Ended taken (.returned r) := fun r' hr hne => by
  cases hr
  exact absurd h hne

theorem Ended.last {o : Outcome} {r₀ : Response} (ho : o.reply = .returned r₀) (hcontent : r₀.content = r.content)
    (hfinish : r₀.finishReason = r.finishReason) : Ended (taken ++ [o]) (.returned r) := fun r' hr _ => by
  cases hr
  exact ⟨o, r₀, getLast?_concat, ho, hcontent, hfinish⟩

theorem classify_content (env : Env) (r : Response) :
    (classifyImageInputUnsupportedResponse env r).content = r.content := by
  unfold classifyImageInputUnsupportedResponse
  split_ifs
  · rfl
  · rfl
  · rfl
  · cases env.classifyImageInputUnsupported r <;> rfl

theorem classify_finishReason (env : Env) (r : Response) :
    (classifyImageInputUnsupportedResponse env r).finishReason = r.finishReason := by
  unfold classifyImageInputUnsupportedResponse
  split_ifs
  · rfl
  · rfl
  · rfl
  · cases env.classifyImageInputUnsupported r <;> rfl

section
variable (h : Ledger circuit args outcomes taken s)
include h

theorem Ledger.call (hargs : preset = none → s.args = args) (hcall : call preset s = some (reply, s')) :
    ∃ o, o.reply = reply ∧ Ledger circuit args outcomes (taken ++ [o]) s' ∧ s'.args = s.args := by
  unfold Providers.call at hcall
  cases hs : s.outcomes with
  | nil =>
    rw [hs] at hcall
    cases hcall
  | cons o rest =>
    rw [hs] at hcall
    cases hcall
    refine ⟨o, rfl, ⟨?_, ?_, fun c hc hnone => ?_, h.failures, h.trip, h.justified⟩, rfl⟩
    · rw [h.outcomes, hs, append_assoc]
      rfl
    · rw [flatMap_append, ← h.delivered]
      simp
    · rcases mem_append.mp hc with hc | hc
      · exact h.calls c hc hnone
      · cases mem_singleton.mp hc
        exact hargs hnone

/-- The arguments and the flag of a round are not in the ledger. -/
theorem Ledger.setArgs (args' : Args) : Ledger circuit args outcomes taken { s with args := args' } :=
  ⟨h.outcomes, h.delivered, h.calls, h.failures, h.trip, h.justified⟩

theorem Ledger.setHasStreamed (hasStreamed : Bool) :
    Ledger circuit args outcomes taken { s with hasStreamed := hasStreamed } :=
  ⟨h.outcomes, h.delivered, h.calls, h.failures, h.trip, h.justified⟩

theorem Ledger.succeeded : Ledger circuit args outcomes taken
      { s with
        circuit := .fresh
        circuitEvents := s.circuitEvents ++ [.succeeded] } where
  outcomes := h.outcomes
  delivered := h.delivered
  calls := h.calls
  failures := by rw [failuresSince_append]; rfl
  trip := nofun
  justified := h.justified.append (by simp)

end

theorem fail_trippedAt (c : Circuit) (now : ℤ) : (c.fail now).primaryTrippedAt =
    if primaryFailureThreshold ≤ (c.fail now).primaryFailures then some now else c.primaryTrippedAt := rfl

theorem Ledger.primaryFailed (h : Ledger circuit args outcomes taken s) (env : Env) :
    Ledger circuit args outcomes taken (primaryFailed env s) := by
  unfold Providers.primaryFailed
  by_cases hle : primaryFailureThreshold ≤ (s.circuit.fail (env.now s)).primaryFailures
  · rw [if_pos hle]
    refine ⟨h.outcomes, h.delivered, h.calls, ?_, fun trippedAt hsome => ?_, h.justified.append (by simp)⟩
    · rw [failuresSince_append, h.failures]
      rfl
    · rw [lastTrip_append]
      have hnow := (fail_trippedAt _ _).symm.trans hsome
      rw [if_pos hle] at hnow
      exact hnow
  · rw [if_neg hle]
    refine ⟨h.outcomes, h.delivered, h.calls, ?_, fun trippedAt hsome => ?_, h.justified.append (by simp)⟩
    · rw [failuresSince_append, h.failures]
      rfl
    · rw [lastTrip_append]
      have hold := (fail_trippedAt _ _).symm.trans hsome
      rw [if_neg hle] at hold
      exact h.trip trippedAt hold

theorem Ledger.readAvailable (h : Ledger circuit args outcomes taken s) (env : Env) :
    Ledger circuit args outcomes taken (readAvailable env s).2 ∧ (readAvailable env s).2.args = s.args := by
  unfold Providers.readAvailable
  cases htrip : s.circuit.primaryTrippedAt with
  | none => exact ⟨h, rfl⟩
  | some trippedAt =>
    refine ⟨?_, rfl⟩
    by_cases havailable : s.circuit.isAvailable (env.now s) = true
    · simp only [havailable, if_true]
      exact ⟨h.outcomes, h.delivered, h.calls, h.failures, h.trip, h.justified⟩
    · simp only [havailable]
      have hlast := h.trip trippedAt htrip
      have hcooldown : env.now s - trippedAt < primaryCooldownMs := by
        unfold Circuit.isAvailable at havailable
        rw [htrip] at havailable
        simpa using havailable
      have hthreshold : primaryFailureThreshold ≤ s.circuit.primaryFailures :=
        s.circuit.tripped (by rw [htrip]; rfl)
      refine ⟨h.outcomes, h.delivered, h.calls, ?_, fun t ht => ?_,
        h.justified.skip hlast hcooldown (by rw [h.failures]; exact hthreshold)⟩
      · rw [if_neg Bool.false_ne_true, failuresSince_append, h.failures]
        rfl
      · rw [if_neg Bool.false_ne_true, lastTrip_append]
        exact h.trip t ht

/-! ### Rounds -/

/-- What a part of a round keeps. -/
structure Kept (circuit : Circuit) (args : Args) (outcomes : List Outcome) (s : State) (reply : Reply) : Prop where
  sameArgs : s.args = args
  ledger : ∃ taken, Ledger circuit args outcomes taken s ∧ Ended taken reply

theorem kept_tryFallbacks {primaryModel : String} : ∀ (presets : List FallbackPreset) (last : Option Response)
    (s : State) {taken : List Outcome}, (∀ r, last = some r → r.finishReason = "error") → s.args = args →
      Ledger circuit args outcomes taken s → tryFallbacks env primaryModel last presets s = some (reply, s') →
        Kept circuit args outcomes s' reply
  | [], last, s, taken, hlast, hargs, h, hrun => by
    cases hrun
    refine ⟨hargs, taken, h, .error ?_⟩
    cases last with
    | none => rfl
    | some r => exact hlast r rfl
  | preset :: presets, last, s, taken, hlast, hargs, h, hrun => by
    unfold tryFallbacks at hrun
    by_cases hstreamed : s.hasStreamed = true
    · rw [if_pos hstreamed] at hrun
      cases hrun
      refine ⟨hargs, taken, h, .error ?_⟩
      cases last with
      | none => rfl
      | some r => exact hlast r rfl
    rw [if_neg hstreamed] at hrun
    by_cases hcovers : (!env.coversInputModalities preset.model) = true
    · rw [if_pos hcovers] at hrun
      exact kept_tryFallbacks presets last s hlast hargs h hrun
    rw [if_neg hcovers] at hrun
    cases hprovider : env.providerFactory preset with
    | none =>
      rw [hprovider] at hrun
      exact kept_tryFallbacks presets last s hlast hargs h hrun
    | some provider =>
      rw [hprovider] at hrun
      cases hcall : call (some preset) { s with args := preset.apply } with
      | none =>
        rw [hcall] at hrun
        cases hrun
      | some result =>
        obtain ⟨reply', s₁⟩ := result
        rw [hcall] at hrun
        obtain ⟨o, ho, h₁, -⟩ := (h.setArgs preset.apply).call (fun hnone => by cases hnone) hcall
        have hrestored := h₁.setArgs s.args
        cases reply' with
        | thrown message isAbort =>
          cases hrun
          exact ⟨hargs, _, hrestored, .thrown⟩
        | returned response =>
          simp only at hrun
          by_cases hfinish : (classifyImageInputUnsupportedResponse env
              (annotateExecution response provider (some preset.model))).finishReason ≠ "error"
          · rw [if_pos hfinish] at hrun
            cases hrun
            refine ⟨hargs, _, hrestored, .last ho ?_ ?_⟩
            · rw [classify_content]
              rfl
            · rw [classify_finishReason]
              rfl
          rw [if_neg hfinish] at hrun
          rw [not_not] at hfinish
          split_ifs at hrun
          · cases hrun
            exact ⟨hargs, _, hrestored, .error hfinish⟩
          · exact kept_tryFallbacks presets (some _) { s₁ with args := s.args }
              (fun r hr => by cases hr; exact hfinish) hargs hrestored hrun

/-- The attempt of the primary ends the round, or leaves an error. -/
theorem kept_tryPrimary {next : Next} (hargs : s.args = args) (h : Ledger circuit args outcomes taken s)
    (hrun : tryPrimary env s = some (next, s')) :
    (∀ reply, next = .done reply → Kept circuit args outcomes s' reply) ∧
      ∀ last, next = .goOn last → s'.args = args ∧ (∀ r, last = some r → r.finishReason = "error") ∧
        ∃ taken, Ledger circuit args outcomes taken s' := by
  unfold tryPrimary at hrun
  cases hcall : call none s with
  | none =>
    rw [hcall] at hrun
    cases hrun
  | some result =>
    obtain ⟨reply', s₁⟩ := result
    rw [hcall] at hrun
    obtain ⟨o, ho, h₁, hargs₁⟩ := h.call (fun _ => hargs) hcall
    rw [hargs] at hargs₁
    cases reply' with
    | thrown message isAbort =>
      cases hrun
      exact ⟨fun reply hreply => by cases hreply; exact ⟨hargs₁, _, h₁, .thrown⟩, fun last hlast => by cases hlast⟩
    | returned response =>
      simp only at hrun
      generalize hclassified : classifyImageInputUnsupportedResponse env (annotateExecution response env.primary
        ((s₁.args.model.bind id).or (some env.primary.defaultModel))) = classified at hrun
      by_cases hfinish : classified.finishReason ≠ "error"
      · rw [if_pos hfinish] at hrun
        cases hrun
        refine ⟨fun reply hreply => ?_, fun last hlast => by cases hlast⟩
        cases hreply
        refine ⟨hargs₁, _, h₁.succeeded, .last ho ?_ ?_⟩
        · rw [← hclassified, classify_content]
          rfl
        · rw [← hclassified, classify_finishReason]
          rfl
      rw [if_neg hfinish] at hrun
      rw [not_not] at hfinish
      have hdone : ∀ reply, Next.done (.returned classified) = .done reply →
          Kept circuit args outcomes s₁ reply := fun reply hreply => by
        cases hreply
        exact ⟨hargs₁, _, h₁, .error hfinish⟩
      split_ifs at hrun
      · cases hrun
        exact ⟨hdone, fun last hlast => by cases hlast⟩
      · cases hrun
        exact ⟨hdone, fun last hlast => by cases hlast⟩
      · cases hrun
        refine ⟨fun reply hreply => (by cases hreply), fun last hlast => ?_⟩
        cases hlast
        exact ⟨hargs₁, fun r hr => by cases hr; exact hfinish, _, h₁⟩
      · cases hrun
        refine ⟨fun reply hreply => (by cases hreply), fun last hlast => ?_⟩
        cases hlast
        refine ⟨?_, fun r hr => by cases hr; exact hfinish, _, h₁.primaryFailed env⟩
        unfold Providers.primaryFailed
        simp only
        split_ifs <;> exact hargs₁

theorem kept_tryWithFallback (hargs : s.args = args) (h : Ledger circuit args outcomes taken s)
    (hrun : tryWithFallback env s = some (reply, s')) : Kept circuit args outcomes s' reply := by
  unfold tryWithFallback at hrun
  obtain ⟨hread, hreadArgs⟩ := h.readAvailable env
  rw [hargs] at hreadArgs
  simp only at hrun
  by_cases havailable : (Providers.readAvailable env s).1 = true
  · rw [if_pos havailable] at hrun
    cases hprimary : tryPrimary env (Providers.readAvailable env s).2 with
    | none =>
      rw [hprimary] at hrun
      cases hrun
    | some result =>
      obtain ⟨next, s₁⟩ := result
      obtain ⟨hdone, hgoOn⟩ := kept_tryPrimary hreadArgs hread hprimary
      rw [hprimary] at hrun
      cases next with
      | done reply' =>
        cases hrun
        exact hdone reply rfl
      | goOn last =>
        obtain ⟨hargs₁, hlast, taken', h₁⟩ := hgoOn last rfl
        exact kept_tryFallbacks _ _ _ hlast hargs₁ h₁ hrun
  · rw [if_neg havailable] at hrun
    exact kept_tryFallbacks _ _ _ (fun r hr => by cases hr) hreadArgs hread hrun

theorem kept_chatStream (hargs : s.args = args) (h : Ledger circuit args outcomes taken s)
    (hrun : chatStream env s = some (reply, s')) : Kept circuit args outcomes s' reply := by
  unfold chatStream at hrun
  by_cases hnone : env.fallbackPresets = []
  · rw [if_pos hnone] at hrun
    cases hcall : call none s with
    | none =>
      rw [hcall] at hrun
      cases hrun
    | some result =>
      obtain ⟨reply', s₁⟩ := result
      rw [hcall] at hrun
      obtain ⟨o, ho, h₁, hargs₁⟩ := h.call (fun _ => hargs) hcall
      rw [hargs] at hargs₁
      cases reply' with
      | thrown message isAbort =>
        cases hrun
        exact ⟨hargs₁, _, h₁, .thrown⟩
      | returned response =>
        cases hrun
        exact ⟨hargs₁, _, h₁, .last ho rfl rfl⟩
  · rw [if_neg hnone] at hrun
    exact kept_tryWithFallback (s := { s with hasStreamed := false }) hargs (h.setHasStreamed false) hrun

theorem kept_safeChatStream (hargs : s.args = args) (h : Ledger circuit args outcomes taken s)
    (hrun : safeChatStream env s = some (reply, s')) : Kept circuit args outcomes s' reply := by
  unfold safeChatStream at hrun
  cases hstream : chatStream env s with
  | none =>
    rw [hstream] at hrun
    cases hrun
  | some result =>
    obtain ⟨reply', s₁⟩ := result
    have hkept := kept_chatStream hargs h hstream
    rw [hstream] at hrun
    cases reply' with
    | returned response =>
      cases hrun
      exact hkept
    | thrown message isAbort =>
      cases isAbort with
      | true =>
        cases hrun
        exact hkept
      | false =>
        cases hrun
        obtain ⟨hargs₁, taken', h₁, -⟩ := hkept
        exact ⟨hargs₁, taken', h₁, .error rfl⟩

/-- **All rounds** keep the arguments and the ledger. -/
theorem kept_runWithRetry {mode : RetryMode} : ∀ (fuel : ℕ) (retry : Retry) (s : State) {taken : List Outcome},
    s.args = args → Ledger circuit args outcomes taken s →
      runWithRetry env mode fuel retry s = some (reply, s') → Kept circuit args outcomes s' reply
  | 0, _, _, _, _, _, hrun => by
    cases hrun
  | fuel + 1, retry, s, taken, hargs, h, hrun => by
    unfold runWithRetry at hrun
    cases hround : safeChatStream env s with
    | none =>
      rw [hround] at hrun
      cases hrun
    | some result =>
      obtain ⟨reply', s₁⟩ := result
      have hkept := kept_safeChatStream hargs h hround
      rw [hround] at hrun
      cases reply' with
      | thrown message isAbort =>
        cases hrun
        exact hkept
      | returned response =>
        simp only at hrun
        by_cases hfinish : response.finishReason ≠ "error"
        · rw [if_pos hfinish] at hrun
          cases hrun
          exact hkept
        rw [if_neg hfinish] at hrun
        rw [not_not] at hfinish
        obtain ⟨hargs₁, taken', h₁, -⟩ := hkept
        have herror : ∀ r, r.finishReason = "error" → Kept circuit args outcomes s₁ (.returned r) :=
          fun r hr => ⟨hargs₁, taken', h₁, .error hr⟩
        have hclassified := (classify_finishReason env response).trans hfinish
        generalize (if errorKey (classifyImageInputUnsupportedResponse env response) = retry.lastError then
          retry.identicalErrors + 1 else 1) = identicalErrors at hrun
        split_ifs at hrun
        · cases hrun
          exact herror _ hfinish
        · cases hrun
          exact herror _ hclassified
        · cases hrun
          exact herror _ hclassified
        · cases hrun
          exact herror _ hclassified
        · revert hrun
          cases retryDelay env mode retry.attempt (classifyImageInputUnsupportedResponse env response) with
          | none =>
            intro hrun
            cases hrun
            exact herror _ hclassified
          | some delay =>
            intro hrun
            exact kept_runWithRetry fuel _ s₁ hargs₁ h₁ hrun

end Ledger

/-! ### Requests -/

section Requests
variable {env : Env} {mode : RetryMode} {fuel : ℕ} {circuit : Circuit} {args : Args} {outcomes : List Outcome}
  {response : Response} {s : State}

theorem ledger_start : Ledger circuit (buildRetryArgs env args) outcomes [] (.start env circuit args outcomes) where
  outcomes := rfl
  delivered := rfl
  calls := nofun
  failures := rfl
  trip := fun _ h => h
  justified := fun before now after he => by
    have hlen := congrArg List.length he
    simp [State.start] at hlen

/-- **The content is shown exactly once** if and only if no attempt but the last has delivered some of it:
for every request that ends well, when all `outcomes` are those of its attempts. -/
theorem shownOnce_iff (env : Env) (mode : RetryMode) (fuel : ℕ) (circuit : Circuit) (args : Args)
    (outcomes : List Outcome) (hstreams : ∀ o ∈ outcomes, o.Streams) (response : Response) (s : State)
    (hrun : chatStreamWithRetry env mode fuel circuit args outcomes = some (.returned response, s))
    (hall : s.outcomes = []) (hok : response.finishReason ≠ "error") :
    ShownOnce env circuit args outcomes response s ↔ ∀ o ∈ outcomes.dropLast, o.text = "" := by
  obtain ⟨-, taken, h, hended⟩ := kept_runWithRetry fuel {} _ rfl ledger_start hrun
  have htaken : outcomes = taken := by
    rw [h.outcomes, hall, append_nil]
  subst htaken
  obtain ⟨o, r, hlast, ho, hcontent, hfinish⟩ := hended response rfl hok
  obtain ⟨init, rfl⟩ := getLast?_eq_some_iff.mp hlast
  have hshown : o.text = response.content.getD "" := by
    rw [← hcontent]
    exact hstreams o (mem_append_right _ mem_cons_self) r ho (by rw [hfinish]; exact hok)
  have hdelivered : textOf s.delivered = textOf (init.map Outcome.text) ++ o.text := by
    rw [h.delivered, textOf_flatMap, map_append, textOf_append]
    exact congrArg (textOf (init.map Outcome.text) ++ ·) String.append_empty
  rw [dropLast_concat]
  constructor
  · intro hexact x hx
    have htwice : textOf (init.map Outcome.text) ++ o.text = "" ++ o.text := by
      rw [← hdelivered, hexact.exact, hshown, String.empty_append]
    exact textOf_eq_empty.mp ((String.append_left_inj o.text).mp htwice) _ (mem_map_of_mem hx)
  · intro hnone
    have hinit : textOf (init.map Outcome.text) = "" := textOf_eq_empty.mpr fun d hd => by
      obtain ⟨x, hx, rfl⟩ := mem_map.mp hd
      exact hnone x hx
    refine ⟨?_, ?_, h.calls, h.justified⟩
    · rw [hdelivered, hinit, String.empty_append, hshown]
    · refine pairwise_append.mpr ⟨?_, pairwise_singleton _ _, fun x hx _ _ => Or.inl (hnone x hx)⟩
      exact List.Pairwise.imp_of_mem (R := fun _ _ => True) (fun hx _ _ => Or.inl (hnone _ hx))
        (pairwise_of_forall fun _ _ => trivial)

end Requests

/-! ### Examples -/

/-- A primary and one fallback, without images; the texts ask for no delay. -/
def exampleEnv : Env where
  primary := ⟨some "primary", "primary-model"⟩
  fallbackPresets := [{ model := "fallback-model" }]
  providerFactory := fun _ => some ⟨some "fallback", "fallback-model"⟩
  generation := ⟨4096, 7 / 10, none⟩
  clock := fun n => n
  hasImageInput := false
  classifyImageInputUnsupported := fun _ => none
  coversInputModalities := fun _ => true
  toLowerCase := id
  rejectsToolDefinition := fun _ => false
  extractRetryAfter := fun _ => none

def exampleArgs : Args := ⟨none, none, none, none⟩

def connectionLost : Response where
  content := some "connection lost"
  finishReason := "error"
  errorKind := some "connection"

def hello : Response where
  content := some "Hello"

/-- The primary fails before it has delivered anything, and the fallback answers. -/
def failsBefore : List Outcome := [⟨[""], .returned connectionLost⟩, ⟨["Hel", "lo"], .returned hello⟩]

theorem failsBefore_shownOnce : ∃ response s,
    chatStreamWithRetry exampleEnv .standard 5 .fresh exampleArgs failsBefore = some (.returned response, s) ∧
      ShownOnce exampleEnv .fresh exampleArgs failsBefore response s := by
  have hstreams : ∀ o ∈ failsBefore, o.Streams := by
    refine forall_mem_cons.mpr ⟨fun r hr hne => ?_, forall_mem_cons.mpr ⟨fun r hr _ => ?_,
      fun _ h => absurd h not_mem_nil⟩⟩
    · cases hr
      exact absurd rfl hne
    · cases hr
      decide +kernel
  have hrun : (chatStreamWithRetry exampleEnv .standard 5 .fresh exampleArgs failsBefore).any
      (fun result => result.2.outcomes = [] && match result.1 with
        | .returned r => r.finishReason ≠ "error"
        | .thrown _ _ => false) = true := by decide +kernel
  cases hresult : chatStreamWithRetry exampleEnv .standard 5 .fresh exampleArgs failsBefore with
  | none =>
    rw [hresult] at hrun
    cases hrun
  | some result =>
    obtain ⟨reply, s⟩ := result
    rw [hresult] at hrun
    cases reply with
    | thrown message isAbort => simp at hrun
    | returned response =>
      simp only [Option.any_some, Bool.and_eq_true, decide_eq_true_eq] at hrun
      exact ⟨response, s, rfl, (shownOnce_iff exampleEnv .standard 5 .fresh exampleArgs failsBefore hstreams response
        s hresult hrun.1 hrun.2).mpr (by decide +kernel)⟩

/-- The primary loses the connection after it has delivered a part, and is tried again. -/
def failsAfter : List Outcome := [⟨["Hel"], .returned connectionLost⟩, ⟨["Hel", "lo"], .returned hello⟩]

/-- **The part is delivered twice**: the loop of retries does not ask what was streamed. -/
theorem failsAfter_shownTwice :
    ¬ ∀ (outcomes : List Outcome) (response : Response) (s : State), (∀ o ∈ outcomes, o.Streams) →
      chatStreamWithRetry exampleEnv .standard 5 .fresh exampleArgs outcomes = some (.returned response, s) →
      s.outcomes = [] → response.finishReason ≠ "error" →
      ShownOnce exampleEnv .fresh exampleArgs outcomes response s := by
  intro hclaim
  have hrun : (chatStreamWithRetry exampleEnv .standard 5 .fresh exampleArgs failsAfter).any
      (fun result => result.2.outcomes = [] && textOf result.2.delivered = "HelHello" &&
        result.1 = .returned (annotateExecution hello exampleEnv.primary (some "primary-model"))) = true := by
    decide +kernel
  cases hresult : chatStreamWithRetry exampleEnv .standard 5 .fresh exampleArgs failsAfter with
  | none =>
    rw [hresult] at hrun
    cases hrun
  | some result =>
    obtain ⟨reply, s⟩ := result
    rw [hresult] at hrun
    simp only [Option.any_some, Bool.and_eq_true, decide_eq_true_eq] at hrun
    obtain ⟨⟨hall, hdelivered⟩, rfl⟩ := hrun
    have hstreams : ∀ o ∈ failsAfter, o.Streams := by
      refine forall_mem_cons.mpr ⟨fun r hr hne => ?_, forall_mem_cons.mpr ⟨fun r hr _ => ?_,
        fun _ h => absurd h not_mem_nil⟩⟩
      · cases hr
        exact absurd rfl hne
      · cases hr
        decide +kernel
    have hexact := (hclaim failsAfter _ s hstreams hresult hall (by decide +kernel)).exact
    rw [hdelivered] at hexact
    exact absurd hexact (by decide +kernel)

end Memmy.Providers
