import Mathlib.Data.List.Infix
import Memmy.Conversation.Transcript

/-! # Where a compaction may end

`planTokenCompactionBoundary` is the message up to which a compaction hides the session: the end of what the
replay window cannot hold (`replayOverflowBoundary`), or the user message up to which enough tokens are
removed (`pickConsolidationBoundary`), whichever is later.

* `planTokenCompactionBoundary_ok`: the boundary is behind the start and not behind the hard end. -/

namespace Memmy.Conversation.Consolidator

open Conversation.Transcript

variable {M : Type} (view : M → Message)

/-! ### The functions -/

def replayOverflowBoundary (s : Session M ℕ) (replayMaxMessages : Option ℕ) : Option ℕ :=
  match replayMaxMessages.filter (0 < ·) with
  | none => none
  | some n =>
    let tail := (s.messages.drop s.lastConsolidated).zipIdx s.lastConsolidated
    if tail.length ≤ n then none
    else
      let window := tail.drop (tail.length - n)
      let aligned := match window.findIdx? fun m : M × ℕ => isUser (view m.1) with
        | some firstUser =>
          let start :=
            if 0 < firstUser ∧ (window[firstUser - 1]?).any (fun m : M × ℕ => (view m.1).channelDelivery) then
              firstUser - 1
            else firstUser
          window.drop start
        | none => window
      let sliced := aligned.drop (findLegalMessageStart (fun m : M × ℕ => view m.1) aligned)
      match sliced.head? with
      | none => some s.messages.length
      | some (_, firstVisibleIdx) =>
        if firstVisibleIdx ≤ s.lastConsolidated then none else some firstVisibleIdx

/-- The loop of `pickConsolidationBoundary` over the messages from `start` on: the boundary at which it
returns, or else the removed tokens and the last boundary at its end. -/
def pickLoop (messageTokens : M → ℕ) (start : ℕ) (tokensToRemove : ℤ) :
    ℕ → Option (ℕ × ℕ) → List (M × ℕ) → (ℕ × ℕ) ⊕ (ℕ × Option (ℕ × ℕ))
  | removedTokens, lastBoundary, [] => .inr (removedTokens, lastBoundary)
  | removedTokens, lastBoundary, (m, idx) :: rest =>
    if start < idx ∧ isUser (view m) = true then
      if tokensToRemove ≤ removedTokens then .inl (idx, removedTokens)
      else pickLoop messageTokens start tokensToRemove (removedTokens + messageTokens m)
        (some (idx, removedTokens)) rest
    else pickLoop messageTokens start tokensToRemove (removedTokens + messageTokens m) lastBoundary rest

def pickConsolidationBoundary (messageTokens : M → ℕ) (s : Session M ℕ) (tokensToRemove : ℤ)
    (maxMessageEndExclusive : ℕ) (allowHardBoundary : Bool) : Option (ℕ × ℕ) :=
  let start := s.lastConsolidated
  let hardEnd := max start (min maxMessageEndExclusive s.messages.length)
  if hardEnd ≤ start ∨ tokensToRemove ≤ 0 then none
  else
    match pickLoop view messageTokens start tokensToRemove 0 none
        (((s.messages.take hardEnd).drop start).zipIdx start) with
    | .inl boundary => some boundary
    | .inr (removedTokens, lastBoundary) =>
      if allowHardBoundary ∧ start < hardEnd then some (hardEnd, removedTokens) else lastBoundary

structure TokenPlanOptions where
  replayMaxMessages : Option ℕ
  estimatedTokens : ℤ
  targetPromptTokens : ℤ
  hardMessageEnd : ℕ
  tokenPressureActive : Bool
  allowHardBoundary : Bool

def planTokenCompactionBoundary (messageTokens : M → ℕ) (s : Session M ℕ) (o : TokenPlanOptions) :
    Option ℕ :=
  let last := s.lastConsolidated
  if o.hardMessageEnd ≤ last then none
  else
    let cappedReplayBoundary :=
      (replayOverflowBoundary view s o.replayMaxMessages).map (min · o.hardMessageEnd)
    let tokenBoundary :=
      if o.tokenPressureActive ∧ o.targetPromptTokens < o.estimatedTokens then
        (pickConsolidationBoundary view messageTokens s (max 1 (o.estimatedTokens - o.targetPromptTokens))
          o.hardMessageEnd o.allowHardBoundary).map (·.1)
      else none
    let planned := max last (max (cappedReplayBoundary.getD last) (tokenBoundary.getD last))
    if last < planned ∧ planned ≤ o.hardMessageEnd then some planned else none

/-! ### Where the boundary lies -/

section Bounds
variable {view} {messageTokens : M → ℕ} {s : Session M ℕ}

/-- **The planned boundary** is behind what is consolidated, and not behind the hard end. -/
theorem planTokenCompactionBoundary_ok {o : TokenPlanOptions} {planned : ℕ}
    (h : planTokenCompactionBoundary view messageTokens s o = some planned) :
    s.lastConsolidated < planned ∧ planned ≤ o.hardMessageEnd := by
  unfold planTokenCompactionBoundary at h
  dsimp only at h
  by_cases hlast : o.hardMessageEnd ≤ s.lastConsolidated
  · rw [if_pos hlast] at h
    cases h
  rw [if_neg hlast] at h
  generalize max s.lastConsolidated _ = p at h
  by_cases hp : s.lastConsolidated < p ∧ p ≤ o.hardMessageEnd
  · rw [if_pos hp] at h
    cases h
    exact hp
  · rw [if_neg hp] at h
    cases h

end Bounds

end Memmy.Conversation.Consolidator
