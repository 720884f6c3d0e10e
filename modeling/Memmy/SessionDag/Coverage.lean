import Memmy.Lib.Watermark
import Memmy.SessionDag.Turns

/-! # What a compaction hides has been folded in

A compaction may hide the messages up to the end of the turn that was processed last, and
`hasProcessedThrough` compares with the end of that turn alone. Both are right when the turns are finished in
message order: then the last processed turn is a watermark of the table. The queue finishes them in this order
as long as they are enqueued in it and no claim passes over a turn that waits for its next try (`InOrder`);
`claimNextTurn` does pass over it.

* `orderly_step`: a step in order keeps the watermark.
* `covered_of_history`: all advances of a history in order are covered, and `hasProcessedThrough` is right.
* `hole_behind_mark`: a history that is not. -/

namespace Memmy.SessionDag.Coverage

open Lib.JsonValue Lib.Result Lib.Run Lib.Sort Lib.Watermark Conversation.Transcript
  SessionDag.Types
open Option
open List SessionDag.Store SessionDag.Invariant SessionDag.History SessionDag.Queue
  SessionDag.Snapshot SessionDag.Completion SessionDag.Turns Queue

/-! ### What is promised -/

def IsDone (t : DagTurn) : Prop := t.dagStatus = .done

/-- Every turn that ends at the mark or before it is done. -/
def TurnsCovered (db : Db) (mark : ℤ) : Prop := Covered (·.messageEnd) IsDone db.turns mark

/-- **What an advance promises**: the turns that it hides are done. -/
def AdvanceOk {M : Type} (s s' : State M) : Prop :=
  s.session.lastConsolidated < s'.session.lastConsolidated → TurnsCovered s'.db s'.session.lastConsolidated

/-- **What `hasProcessedThrough` promises**: the turn is done, and all that end no later. -/
def ThroughOk (db : Db) : Prop :=
  ∀ target ∈ db.turns, hasProcessedThrough db target.turnId = true → TurnsCovered db target.messageEnd

/-! ### Steps in order -/

/-- A claim would pass over a turn: one that is not done and may not be taken yet begins before all that
may. -/
def PassesOver (db : Db) (now : ℕ) : Prop :=
  ∃ t ∈ db.turns, t.dagStatus ≠ .done ∧ isClaimable now t = false ∧
    (∃ u ∈ db.turns, isClaimable now u = true) ∧
    ∀ u ∈ db.turns, isClaimable now u = true → t.messageStart < u.messageStart

/-- The turn is enqueued in message order: it begins where all others have ended, or it is stored already, with
the range that it has. -/
def EnqueuedInOrder (db : Db) (turn : DagTurnInput) : Prop :=
  match getTurn db turn.turnId with
  | none => ∀ start ∈ integer? turn.messageStart, ∀ t ∈ db.turns, t.messageEnd ≤ start
  | some old => integer? turn.messageStart = some old.messageStart ∧
      integer? turn.messageEnd = some old.messageEnd

/-- **A step in order.** -/
def InOrder {M : Type} (s : State M) : Event M → Prop
  | .enqueue turn _ => EnqueuedInOrder s.db turn
  | .claim now => s.claimed = none → ¬ PassesOver (releaseRunning s.db now) now
  | _ => True

instance (db : Db) (now : ℕ) : Decidable (PassesOver db now) := by unfold PassesOver; infer_instance

instance (db : Db) (turn : DagTurnInput) : Decidable (EnqueuedInOrder db turn) := by
  unfold EnqueuedInOrder
  split <;> infer_instance

instance {M : Type} (s : State M) (e : Event M) : Decidable (InOrder s e) := by
  unfold InOrder
  split <;> infer_instance

/-! ### The invariant -/

/-- The row of the turn that the worker has claimed: all that end no later are done. -/
def Working (db : Db) (c : DagTurn) : Prop :=
  ∃ t, getTurn db c.turnId = some t ∧ t.dagStatus = .running ∧ t.messageStart = c.messageStart ∧
    t.messageEnd = c.messageEnd ∧
    ∀ u ∈ db.turns, u.turnId ≠ c.turnId → u.messageEnd ≤ c.messageEnd → IsDone u

/-- The turn that was processed last is stored, and is a watermark. -/
def Marked (db : Db) : Prop :=
  ∀ turnId, getMeta db "last_processed_turn_id" = some turnId →
    ∃ p, getTurn db turnId = some p ∧ TurnsCovered db p.messageEnd

structure Orderly {M : Type} (c : Config M) (s : State M) : Prop where
  graph : WellFormed c.sessionKey s.db
  table : Table s.db.turns
  working : ∀ t, s.claimed = some t → Working s.db t
  marked : Marked s.db

section Marks
variable {db db' : Db} {f : DagTurn → DagTurn}

theorem Marked.map (h : Marked db)
    (hmeta : getMeta db' "last_processed_turn_id" = getMeta db "last_processed_turn_id")
    (hturns : db'.turns = db.turns.map f) (hf : ∀ t ∈ db.turns, Keeps f t)
    (hdone : ∀ t ∈ db.turns, IsDone t → IsDone (f t)) : Marked db' := by
  intro turnId hid
  rw [hmeta] at hid
  obtain ⟨p, hp, hcovered⟩ := h turnId hid
  refine ⟨f p, by rw [getTurn_map hturns hf, hp]; rfl, ?_⟩
  rw [(hf p (getTurn_eq_some hp).1).stop]
  unfold TurnsCovered
  rw [hturns]
  exact Covered.map hcovered (fun t ht => (hf t ht).stop) fun t ht _ hd => hdone t ht hd

/-- **A turn behind all others** keeps the mark. -/
theorem Marked.snoc (h : Marked db) {row : DagTurn}
    (hmeta : getMeta db' "last_processed_turn_id" = getMeta db "last_processed_turn_id")
    (hturns : db'.turns = db.turns ++ [row])
    (hbehind : ∀ t ∈ db.turns, t.messageEnd < row.messageEnd) : Marked db' := by
  intro turnId hid
  rw [hmeta] at hid
  obtain ⟨p, hp, hcovered⟩ := h turnId hid
  refine ⟨p, ?_, ?_⟩
  · unfold getTurn at hp ⊢
    rw [hturns, find?_append, hp]
    rfl
  · unfold TurnsCovered
    rw [hturns]
    refine Covered.append hcovered fun t ht => ?_
    rw [mem_singleton.mp ht]
    exact hbehind p (getTurn_eq_some hp).1

theorem Marked.covered (h : Marked db) {p : DagTurn} (hp : lastProcessedTurn db = some p) :
    TurnsCovered db p.messageEnd := by
  obtain ⟨turnId, hid, hg⟩ := bind_eq_some_iff.mp hp
  obtain ⟨p', hp', hcovered⟩ := h turnId (filter_eq_some_iff.mp hid).1
  rw [hg] at hp'
  rw [some.inj hp']
  exact hcovered

/-- **What is right about the mark.** -/
theorem Marked.throughOk (h : Marked db) (ht : Table db.turns) : ThroughOk db := by
  intro target htarget hthrough
  unfold hasProcessedThrough at hthrough
  rw [getTurn_of_mem ht htarget] at hthrough
  cases hp : lastProcessedTurn db with
  | none =>
    rw [hp] at hthrough
    cases hthrough
  | some p =>
    rw [hp] at hthrough
    exact Covered.mono (h.covered hp) (of_decide_eq_true hthrough)

/-- A write that undoes no turn, and leaves a claimed turn claimed. -/
theorem Working.map {c : DagTurn} (h : Working db c) (hturns : db'.turns = db.turns.map f)
    (hf : ∀ t ∈ db.turns, Keeps f t)
    (hstatus : ∀ t ∈ db.turns, (f t).dagStatus = t.dagStatus) : Working db' c := by
  obtain ⟨t, ht, hrunning, hs, he, hbelow⟩ := h
  have hmem := (getTurn_eq_some ht).1
  refine ⟨f t, by rw [getTurn_map hturns hf, ht]; rfl, by rw [hstatus t hmem]; exact hrunning,
    by rw [(hf t hmem).start]; exact hs, by rw [(hf t hmem).stop]; exact he, fun u hu hne hle => ?_⟩
  rw [hturns] at hu
  obtain ⟨u', hu', rfl⟩ := mem_map.mp hu
  rw [(hf u' hu').id] at hne
  rw [(hf u' hu').stop] at hle
  unfold IsDone
  rw [hstatus u' hu']
  exact hbelow u' hu' hne hle

theorem Working.snoc {c row : DagTurn} (h : Working db c) (hturns : db'.turns = db.turns ++ [row])
    (hbehind : ∀ t ∈ db.turns, t.messageEnd < row.messageEnd) : Working db' c := by
  obtain ⟨t, ht, hrunning, hs, he, hbelow⟩ := h
  refine ⟨t, ?_, hrunning, hs, he, fun u hu hne hle => ?_⟩
  · unfold getTurn at ht ⊢
    rw [hturns, find?_append, ht]
    rfl
  · rw [hturns] at hu
    rcases mem_append.mp hu with hu | hu
    · exact hbelow u hu hne hle
    · rw [mem_singleton.mp hu] at hle
      have := hbehind t (getTurn_eq_some ht).1
      omega

end Marks

/-! ### The worker -/

section Worker
variable {M : Type} {c : Config M} {s : State M} {now : ℕ}

theorem Orderly.frame (h : Orderly c s) {s' : State M} (hgraph : WellFormed c.sessionKey s'.db)
    (hturns : s'.db.turns = s.db.turns)
    (hmeta : getMeta s'.db "last_processed_turn_id" = getMeta s.db "last_processed_turn_id")
    (hclaimed : s'.claimed = s.claimed ∨ s'.claimed = none) : Orderly c s' := by
  refine ⟨hgraph, by rw [hturns]; exact h.table, fun t ht => ?_, ?_⟩
  · rcases hclaimed with hclaimed | hclaimed
    · rw [hclaimed] at ht
      unfold Working getTurn
      rw [hturns]
      exact h.working t ht
    · rw [hclaimed] at ht
      cases ht
  · refine h.marked.map (f := fun t => t) hmeta (by rw [hturns, List.map_id']) (fun t _ => ⟨rfl, rfl, rfl⟩)
      fun t _ hd => hd

theorem orderly_enqueue (h : Orderly c s) {turn : DagTurnInput}
    (hin : EnqueuedInOrder s.db turn) : Orderly c (step c s (.enqueue turn now)) := by
  change Orderly c { s with db := (upsertTurn s.db turn now).toOption.elim s.db (·.1) }
  cases hop : upsertTurn s.db turn now with
  | error e => exact h
  | ok r =>
    obtain ⟨db₁, row⟩ := r
    change Orderly c { s with db := db₁ }
    obtain ⟨hn, he⟩ := upsertTurn_graph hop
    unfold EnqueuedInOrder at hin
    cases hg : getTurn s.db turn.turnId with
    | none =>
      rw [hg] at hin
      obtain ⟨hmeta, hturns, hstart, hrange, hid, -⟩ := upsertTurn_new hg hop
      have hbehind := hin row.messageStart hstart
      have hlt : ∀ t ∈ s.db.turns, t.messageEnd < row.messageEnd := fun t ht =>
        lt_of_le_of_lt (hbehind t ht) hrange
      refine ⟨h.graph.congr hn he, ?_, fun t ht => (h.working t ht).snoc hturns hlt,
        h.marked.snoc (by unfold getMeta; rw [hmeta]) hturns hlt⟩
      rw [hturns]
      refine h.table.snoc (fun t ht => ?_) hrange hbehind
      rw [hid]
      exact getTurn_eq_none hg t ht
    | some old =>
      rw [hg] at hin
      obtain ⟨hmeta, f, hturns, hf⟩ := upsertTurn_stored h.table hg hin.1 hin.2 hop
      have hkeeps : ∀ t ∈ s.db.turns, Keeps f t := fun t ht => (hf t ht).1
      refine ⟨h.graph.congr hn he, ?_,
        fun t ht => (h.working t ht).map hturns hkeeps fun u hu => (hf u hu).2,
        h.marked.map (by unfold getMeta; rw [hmeta]) hturns hkeeps fun t ht hd => (hf t ht).2.trans hd⟩
      rw [hturns]
      exact h.table.map hkeeps

/-- **The claimed turn**: in order, all turns that end no later are done. -/
theorem working_of_claim {row : DagTurn} (h : Table db.turns)
    (hin : ¬ PassesOver db now) (hrow : row ∈ db.turns) (hclaim : isClaimable now row = true)
    (hfirst : ∀ u ∈ db.turns, isClaimable now u = true → row.messageStart ≤ u.messageStart)
    (hturns : db'.turns = db.turns.map (written row.turnId (claimedRow now))) :
    Working db' (claimedRow now row) := by
  have htable : Table db'.turns := by
    rw [hturns]
    exact h.map fun t _ => keeps_claimedRow now row.turnId t
  refine ⟨claimedRow now row, getTurn_of_mem htable ?_, rfl, rfl, rfl, fun u hu hne hle => ?_⟩
  · rw [hturns]
    exact mem_map.mpr ⟨row, hrow, if_pos rfl⟩
  · rw [hturns] at hu
    obtain ⟨u, hu', rfl⟩ := mem_map.mp hu
    have hkeeps := keeps_claimedRow now row.turnId u
    have hid : u.turnId ≠ row.turnId := by rw [← hkeeps.id]; exact hne
    rw [hkeeps.stop] at hle
    have hsame : written row.turnId (claimedRow now) u = u := if_neg hid
    rw [hsame]
    by_contra hopen
    -- it would begin before the claimed turn, so it may not be taken, and the claim passes over it
    have hstart : u.messageStart < row.messageStart := by
      have hrange := h.ranges u hu'
      change u.messageEnd ≤ row.messageEnd at hle
      rcases h.apart u hu' row hrow hid with hapart | hapart
      · omega
      · omega
    have hwaits : isClaimable now u = false := by
      by_contra hc
      rw [Bool.not_eq_false] at hc
      have := hfirst u hu' hc
      omega
    refine hin ⟨u, hu', hopen, hwaits, ⟨row, hrow, hclaim⟩, fun w hw hc => ?_⟩
    have := hfirst w hw hc
    omega

theorem orderly_claim (h : Orderly c s)
    (hin : s.claimed = none → ¬ PassesOver (releaseRunning s.db now) now) :
    Orderly c (step c s (.claim now)) := by
  change Orderly c (claim s now)
  unfold claim
  cases hclaimed : s.claimed with
  | some t => exact h
  | none =>
    obtain ⟨hn, he⟩ := claimNextTurn_graph s.db now
    have hreleased : Marked (releaseRunning s.db now) :=
      h.marked.map rfl rfl (fun t _ => keeps_released t) fun t _ hd => released_done.mpr hd
    obtain ⟨hmeta, ⟨hnone, hturns⟩ | ⟨row, hrow, hclaim, hfirst, hturns, hsome⟩⟩ :=
      claimNextTurn_cases now h.table
    · refine ⟨h.graph.congr hn he, ?_, fun t ht => ?_, ?_⟩
      · change Table (claimNextTurn s.db now).1.turns
        rw [hturns]
        exact h.table.map fun t _ => keeps_released t
      · rw [hnone] at ht
        cases ht
      · exact h.marked.map (by unfold getMeta; rw [hmeta]) hturns (fun t _ => keeps_released t)
          fun t _ hd => released_done.mpr hd
    · have htable := table_releaseRunning now h.table
      refine ⟨h.graph.congr hn he, ?_, fun t ht => ?_, ?_⟩
      · change Table (claimNextTurn s.db now).1.turns
        rw [hturns]
        exact htable.map fun t _ => keeps_claimedRow now row.turnId t
      · change (claimNextTurn s.db now).2 = some t at ht
        rw [hsome, some.injEq] at ht
        subst ht
        exact working_of_claim htable (hin hclaimed) hrow hclaim hfirst hturns
      · refine hreleased.map (by unfold getMeta; rw [hmeta]; rfl) hturns
          (fun t _ => keeps_claimedRow now row.turnId t) fun t ht hd => ?_
        have hid : t.turnId ≠ row.turnId := by
          intro hid
          rw [← htable.eq_of_id ht hrow hid] at hclaim
          unfold isClaimable at hclaim
          rw [show t.dagStatus = .done from hd] at hclaim
          cases hclaim
        rw [show written row.turnId (claimedRow now) t = t from if_neg hid]
        exact hd

/-- A finished turn: the mark moves to it. -/
theorem orderly_of_commits (h : Orderly c s) {turn : DagTurn} (hclaimed : s.claimed = some turn)
    {env : Env} {patch : DagPatch} (hc : Commits c.sessionKey env s.db turn patch db') :
    Orderly c { s with db := db', claimed := none } := by
  obtain ⟨t, ht, hrunning, hstart, hstop, hbelow⟩ := h.working turn hclaimed
  obtain ⟨hmeta, f, hturns, hf⟩ := turns_of_commits h.graph h.table hc ht hstart hstop
  obtain ⟨hmem, hid⟩ := getTurn_eq_some ht
  have hkeeps : ∀ u ∈ s.db.turns, Keeps f u := fun u hu => (hf u hu).1
  obtain ⟨-, mode, writeSource, run, hop⟩ := hc
  refine ⟨wellFormed_applyPatch h.graph hop, ?_, by simp, ?_⟩
  · change Table db'.turns
    rw [hturns]
    exact h.table.map hkeeps
  · intro turnId hid'
    rw [hmeta, some.injEq] at hid'
    subst hid'
    refine ⟨f t, by rw [getTurn_map hturns hkeeps, ht]; rfl, ?_⟩
    unfold TurnsCovered
    rw [hturns]
    refine covered_finish (fun t : DagTurn => t.messageEnd) ?_ fun x hx hne hle => ?_
    · unfold IsDone
      rw [(hf t hmem).2, if_pos hid]
    · obtain ⟨u, hu, rfl⟩ := mem_map.mp hx
      have hne' : u.turnId ≠ turn.turnId := fun he =>
        hne (by rw [h.table.eq_of_id hu hmem (he.trans hid.symm)])
      unfold IsDone
      rw [(hf u hu).2, if_neg hne']
      rw [(hkeeps u hu).stop, (hkeeps t hmem).stop, hstop] at hle
      exact hbelow u hu hne' hle

theorem orderly_putOff (h : Orderly c s) {turn : DagTurn} (hclaimed : s.claimed = some turn)
    {g : DagTurn → DagTurn} (hg : ∀ t, Keeps g t) :
    Orderly c { s with db := updateTurn s.db turn.turnId g, claimed := none } := by
  obtain ⟨t, ht, hrunning, -⟩ := h.working turn hclaimed
  obtain ⟨hmem, hid⟩ := getTurn_eq_some ht
  have hkeeps : ∀ u ∈ s.db.turns, Keeps (written turn.turnId g) u := fun u _ => keeps_written _ hg u
  refine ⟨h.graph.congr rfl rfl, h.table.map hkeeps, by simp, ?_⟩
  refine h.marked.map rfl rfl hkeeps fun u hu hd => ?_
  have hne : u.turnId ≠ turn.turnId := by
    intro he
    rw [h.table.eq_of_id hu hmem (he.trans hid.symm)] at hd
    rw [show t.dagStatus = .done from hd] at hrunning
    cases hrunning
  rw [if_neg hne]
  exact hd

/-- **The end of a build**, by the model, the fallback, or neither. -/
theorem orderly_finish (h : Orderly c s) (reply : Option Json) (error : String) (env fallbackEnv : Env)
    (now : ℕ) : Orderly c (step c s (.finish reply error env fallbackEnv now)) := by
  change Orderly c (finish c s reply error env fallbackEnv now)
  unfold finish
  cases hclaimed : s.claimed with
  | none => exact h
  | some turn =>
    dsimp only
    have hfail : Orderly c { s with db := failTurn c s.db turn error fallbackEnv now, claimed := none } := by
      unfold failTurn
      split
      · exact orderly_putOff h hclaimed fun _ => ⟨rfl, rfl, rfl⟩
      · split
        · next hop =>
          obtain ⟨patch, hc⟩ := commits_of_fallback hop
          exact orderly_of_commits h hclaimed hc
        · exact orderly_putOff h hclaimed fun _ => ⟨rfl, rfl, rfl⟩
    unfold buildTurn
    split
    · next db' run hbuild =>
      obtain ⟨parsed, -, hop⟩ := bind_eq_some_iff.mp hbuild
      obtain ⟨patch, hc⟩ := commits_of_build hop
      exact orderly_of_commits h hclaimed hc
    · exact hfail

end Worker

/-! ### The compaction -/

section Compacting
variable {M : Type} {c : Config M} {s : State M} {sessionKey : String}

theorem repairPair_turns {env : Env} {drawn drawn' : ℕ}
    {pair : DagNode × DagNode} (h : repairPair sessionKey env (db, drawn) pair = .ok (db', drawn')) :
    db'.turns = db.turns ∧ db'.metaRows = db.metaRows := by
  have hset : ∀ db₁, db₁ = db ∨ (∃ status, db₁ =
      setNode db pair.1.id (repairedRow sessionKey status pair.2)) →
      db₁.turns = db.turns ∧ db₁.metaRows = db.metaRows := by
    rintro db₁ (rfl | ⟨status, rfl⟩) <;> exact ⟨rfl, rfl⟩
  rcases repairPair_ok h with rfl | ⟨status, db₁, -, hdb₁, rfl | ⟨e, -, -, -, -, -, rfl⟩⟩
  · exact ⟨rfl, rfl⟩
  · exact hset db' (hdb₁.imp_right fun h => ⟨status, h⟩)
  · exact hset db₁ (hdb₁.imp_right fun h => ⟨status, h⟩)

theorem repair_turns {env : Env}
    (h : repairTaskTransitionsOnce sessionKey env db = .ok db') :
    db'.turns = db.turns ∧ getMeta db' "last_processed_turn_id" = getMeta db "last_processed_turn_id" := by
  unfold repairTaskTransitionsOnce at h
  split_ifs at h with hdone
  · cases h
    exact ⟨rfl, rfl⟩
  · simp only [bind_eq_ok, pure_eq, Except.ok.injEq] at h
    obtain ⟨⟨db₁, drawn⟩, hloop, rfl⟩ := h
    obtain ⟨hturns, hmeta⟩ := foldlM_invariant
      (I := fun acc : Db × ℕ => acc.1.turns = db.turns ∧ acc.1.metaRows = db.metaRows)
      (fun acc hacc pair _ acc' hstep => by
        obtain ⟨h1, h2⟩ := repairPair_turns hstep
        exact ⟨h1.trans hacc.1, h2.trans hacc.2⟩) ⟨rfl, rfl⟩ hloop
    refine ⟨hturns, ?_⟩
    rw [getMeta_setMeta_of_ne _ (by decide +kernel)]
    unfold getMeta
    rw [hmeta]

theorem session_plan (opts : TokenCompactionOptions) (estimate : Estimate) (env : Env) :
    (plan c s opts estimate env).session = s.session := by
  unfold plan
  dsimp only
  split_ifs
  · rfl
  · rfl
  · split
    · rfl
    · split <;> rfl

theorem session_poll (expired : Bool) : (poll s expired).session = s.session := by
  unfold poll
  split
  · rfl
  · split_ifs <;> rfl

theorem lastConsolidated_enforceFileCap_le (limit : ℕ) (now : String) :
    (Memmy.Conversation.Trim.enforceFileCap c.view now s.session limit).1.lastConsolidated ≤
      s.session.lastConsolidated := by
  have hretain : (Memmy.Conversation.Trim.retainRecentLegalSuffix c.view now s.session
      limit).lastConsolidated ≤ s.session.lastConsolidated := by
    unfold Memmy.Conversation.Trim.retainRecentLegalSuffix
    split_ifs
    · exact Nat.zero_le _
    · exact Nat.sub_le _ _
  unfold Memmy.Conversation.Trim.enforceFileCap
  dsimp only
  split_ifs
  · exact le_refl _
  · exact hretain
  · exact hretain

theorem orderly_plan (h : Orderly c s) (opts : TokenCompactionOptions) (estimate : Estimate) (env : Env) :
    Orderly c (step c s (.plan opts estimate env)) := by
  change Orderly c (plan c s opts estimate env)
  unfold plan
  dsimp only
  split_ifs
  · exact h
  · exact h
  · split
    · exact h
    · split
      · exact h
      · next db hrepair =>
        obtain ⟨hturns, hmeta⟩ := repair_turns hrepair
        exact h.frame (wellFormed_repairTaskTransitionsOnce h.graph hrepair) hturns hmeta (Or.inl rfl)

theorem orderly_poll (h : Orderly c s) (expired : Bool) : Orderly c (step c s (.poll expired)) := by
  change Orderly c (poll s expired)
  have hframe : ∀ k, Orderly c { s with compaction := k } := fun k =>
    h.frame h.graph rfl rfl (Or.inl rfl)
  unfold poll
  split
  · exact h
  · split_ifs
    · exact h
    · exact hframe _
    · exact hframe _
    · exact h

/-- **The boundary that is chosen** does not lie behind the last processed turn. -/
theorem le_of_selectSnapshot {k : Compaction} {estimate : Estimate} {p : DagTurn}
    {r : ℤ × SnapshotText} (hp : (k.plannedMessageEnd : ℤ) ≤ p.messageEnd)
    (h : selectSnapshot c db k estimate p = some r) : 0 ≤ r.1 ∧ r.1 ≤ p.messageEnd := by
  obtain ⟨useAvailable, -, h⟩ := exists_of_findSome?_eq_some h
  obtain ⟨messageEnd, hmem, h⟩ := exists_of_findSome?_eq_some h
  obtain ⟨candidate, -, rfl⟩ := map_eq_some_iff.mp h
  unfold boundaries at hmem
  rw [mem_sortBy, mem_eraseDups, mem_cons] at hmem
  rcases hmem with rfl | hmem
  · exact ⟨Int.natCast_nonneg _, hp⟩
  · obtain ⟨t, ht, rfl⟩ := mem_map.mp hmem
    obtain ⟨-, hcond⟩ := mem_filter.mp ht
    obtain ⟨-, hlt, hle, -⟩ := of_decide_eq_true hcond
    exact ⟨by change 0 ≤ t.messageEnd; omega, hle⟩

/-- **The commit of a compaction**: it hides turns that are done. -/
theorem commit_ok (h : Orderly c s) (estimate : Estimate) (env : Env) (saved : Bool) :
    Orderly c (step c s (.commit estimate env saved)) ∧
      AdvanceOk s (step c s (.commit estimate env saved)) := by
  change Orderly c (commit c s estimate env saved) ∧ AdvanceOk s (commit c s estimate env saved)
  have hgiveUp : Orderly c { s with compaction := none } ∧ AdvanceOk s { s with compaction := none } :=
    ⟨h.frame h.graph rfl rfl (Or.inl rfl), fun hlt => absurd hlt (lt_irrefl _)⟩
  unfold commit
  cases hcompaction : s.compaction with
  | none => exact ⟨h, fun hlt => absurd hlt (lt_irrefl _)⟩
  | some k =>
    dsimp only
    by_cases hcaught : k.caughtUp = false
    · rw [if_pos hcaught]
      exact ⟨h, fun hlt => absurd hlt (lt_irrefl _)⟩
    rw [if_neg hcaught]
    cases hp : lastProcessedTurn s.db with
    | none => exact hgiveUp
    | some p =>
      dsimp only
      by_cases hlate : p.dagStatus ≠ .done ∨ p.messageEnd < (k.plannedMessageEnd : ℤ)
      · rw [if_pos hlate]
        exact hgiveUp
      rw [if_neg hlate]
      push Not at hlate
      cases hselected : selectSnapshot c s.db k estimate p with
      | none => exact hgiveUp
      | some r =>
        obtain ⟨hnonneg, hle⟩ := le_of_selectSnapshot hlate.2 hselected
        refine ⟨h.frame (h.graph.congr rfl rfl) rfl rfl (Or.inl rfl), fun hlt => ?_⟩
        cases saved with
        | false => exact absurd hlt (lt_irrefl _)
        | true =>
          change TurnsCovered s.db (r.1.toNat : ℤ)
          rw [Int.toNat_of_nonneg hnonneg]
          exact Covered.mono (h.marked.covered hp) hle

end Compacting

/-! ### Histories -/

section History
variable {M : Type} {c : Config M} {s : State M}

/-- **A step in order** keeps the mark, and hides only turns that are done. -/
theorem orderly_step (h : Orderly c s) {e : Event M} (hin : InOrder s e) :
    Orderly c (step c s e) ∧ AdvanceOk s (step c s e) := by
  have hsame : ∀ s' : State M, s'.session.lastConsolidated ≤ s.session.lastConsolidated → AdvanceOk s s' :=
    fun s' hle hlt => absurd hlt (not_lt.mpr hle)
  cases e with
  | enqueue turn now => exact ⟨orderly_enqueue h hin, hsame _ (le_refl _)⟩
  | claim now =>
    refine ⟨orderly_claim h hin, hsame _ ?_⟩
    change (claim s now).session.lastConsolidated ≤ _
    unfold claim
    split <;> exact le_refl _
  | finish reply error env fallbackEnv now =>
    refine ⟨orderly_finish h reply error env fallbackEnv now, hsame _ ?_⟩
    change (finish c s reply error env fallbackEnv now).session.lastConsolidated ≤ _
    unfold finish
    split <;> exact le_refl _
  | messages messages => exact ⟨h.frame h.graph rfl rfl (Or.inl rfl), hsame _ (le_refl _)⟩
  | enforceFileCap limit now =>
    exact ⟨h.frame h.graph rfl rfl (Or.inl rfl), hsame _ (lastConsolidated_enforceFileCap_le limit now)⟩
  | plan opts estimate env => exact ⟨orderly_plan h opts estimate env,
    hsame _ (le_of_eq (congrArg _ (session_plan opts estimate env)))⟩
  | poll expired => exact ⟨orderly_poll h expired, hsame _ (le_of_eq (congrArg _ (session_poll expired)))⟩
  | commit estimate env saved => exact commit_ok h estimate env saved
  | restart => exact ⟨h.frame h.graph rfl rfl (Or.inr rfl), hsame _ (le_refl _)⟩

/-- **In every history in order**, what a compaction hides has been folded in, and `hasProcessedThrough` means
that the turn is done and all turns that end no later. -/
theorem covered_of_history (c : Config M) (session : Session M ℕ) (events : List (Event M))
    (hin : ∀ t ∈ taken (step c) { session := session } events, InOrder t.1 t.2) :
    (∀ t ∈ taken (step c) { session := session } events,
      AdvanceOk t.1 (step c t.1 t.2)) ∧
    ∀ s ∈ visited (step c) { session := session } events, ThroughOk s.db := by
  have hinit : Orderly c ({ session := session } : State M) := by
    refine ⟨wellFormed_empty, table_nil, by simp, fun turnId hid => ?_⟩
    cases hid
  have horderly := invariant_of_steps (I := Orderly c) (P := InOrder)
    (fun s e h hin => (orderly_step h hin).1) events { session := session } hinit hin
  refine ⟨fun t ht => ?_, fun s hs => (horderly s hs).marked.throughOk (horderly s hs).table⟩
  exact (orderly_step (horderly t.1 (mem_visited_of_mem_taken _ ht)) (hin t ht)).2

end History

/-! ### A hole behind the mark -/

section Sample

instance (db : Db) (mark : ℤ) : Decidable (TurnsCovered db mark) := by
  unfold TurnsCovered Covered IsDone
  infer_instance

instance {M : Type} (s s' : State M) : Decidable (AdvanceOk s s') := by
  unfold AdvanceOk
  infer_instance

instance (db : Db) : Decidable (ThroughOk db) := by
  unfold ThroughOk
  infer_instance

def sampleConfig : Config Message where
  sessionKey := "s"
  maxUpdateAttempts := 3
  retryBackoffMs := [10]
  maxBuilderContextNodes := 40
  contextWindowTokens := 1000
  maxCompletionTokens := 100
  safetyBuffer := 100
  targetPromptTokens := fun budget => budget / 2
  view := fun m => m
  messageTokens := fun _ => 600

/-- Three turns of two messages, of which the first is consolidated. -/
def sampleSession : Session Message ℕ where
  key := "s"
  messages := (List.replicate 3
    [{ role := "user", content := .text "q" }, { role := "assistant", content := .text "a" }]).flatten
  lastConsolidated := 2
  createdAt := ""
  updatedAt := ""

/-- The prompt does not fit until something is hidden. -/
def sampleEstimate : Estimate := fun p => some (if p.visibleMessageStart < 4 then 900 else 200)

def compactionEvents : List (Event Message) := [.plan {} sampleEstimate (sampleEnv 5), .poll false]

def sampleCommit : Event Message := .commit sampleEstimate (sampleEnv 6) true

/-- The first turn fails and waits; the second is built meanwhile. -/
def skippedEvents : List (Event Message) :=
  [.enqueue (sampleTurn 1 none) 1, .claim 1, .finish none "timeout" (sampleEnv 1) (sampleEnv 1) 2,
    .enqueue (sampleTurn 2 none) 3, .claim 3,
    .finish (some samplePatch) "" (sampleEnv 4) (sampleEnv 4) 4] ++ compactionEvents

/-- The first turn is built again before the second one is claimed. -/
def orderedEvents : List (Event Message) :=
  [.enqueue (sampleTurn 1 none) 1, .claim 1, .finish none "timeout" (sampleEnv 1) (sampleEnv 1) 2,
    .enqueue (sampleTurn 2 none) 3, .claim 13,
    .finish (some samplePatch) "" (sampleEnv 3) (sampleEnv 3) 14, .claim 15,
    .finish none "timeout" (sampleEnv 4) (sampleEnv 4) 16, .claim 30,
    .finish (some (.obj [("ops", .arr [])])) "" (sampleEnv 4) (sampleEnv 4) 31] ++ compactionEvents ++
    [sampleCommit]

/-- **The messages of a turn that waits for its next try are hidden**: the next turn has moved the mark past
it. -/
theorem hole_behind_mark :
    (∃ t ∈ taken (step sampleConfig) { session := sampleSession } (skippedEvents ++ [sampleCommit]),
      ¬ AdvanceOk t.1 (step sampleConfig t.1 t.2)) ∧
    ∃ s ∈ visited (step sampleConfig) { session := sampleSession } skippedEvents, ¬ ThroughOk s.db :=
  ⟨⟨_, last_mem_taken (step sampleConfig) skippedEvents _ sampleCommit, by decide +kernel⟩,
    _, final_mem_visited (step sampleConfig) skippedEvents _, by decide +kernel⟩

/-- Both turns are built in their order, and the compaction advances. -/
theorem covered_of_history_ordered :
    (∀ t ∈ taken (step sampleConfig) { session := sampleSession } orderedEvents,
      AdvanceOk t.1 (step sampleConfig t.1 t.2)) ∧
    ∀ s ∈ visited (step sampleConfig) { session := sampleSession } orderedEvents, ThroughOk s.db :=
  covered_of_history sampleConfig sampleSession orderedEvents (by decide +kernel)

/-- The compaction does advance. -/
example : (final (Queue.step sampleConfig) { session := sampleSession }
    orderedEvents).session.lastConsolidated = 4 := by decide +kernel

end Sample

end Memmy.SessionDag.Coverage
