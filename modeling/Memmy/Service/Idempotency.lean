import Memmy.Lib.JsonValue
import Memmy.Lib.Run
import Memmy.Lib.Unique

/-! # Requests that carry an idempotency key

A request with a key looks for the row of the key, runs its operation when there is none, and saves the
answer under the key. The operation runs in segments between its awaits, other requests run in between,
and it may throw in any of them. `idempotent` and `idempotentExact` save after one more await, the
feedback of a user in the last segment of the operation.

* `Idempotent`: at most one request of the key has written, those with one body were answered alike,
  and no two bodies were executed.
* `Alone`: a request that finds no row comes after requests with the same body that have all failed
  before they wrote anything.
* `run_idempotent`: a run in which every request comes so keeps `Idempotent`. -/

namespace Memmy.Service.Idempotency

open Lib.Unique Lib.JsonValue Lib.Run List Bool

/-! ### The three paths -/

inductive Path where
  | idempotent
  | idempotentExact
  | feedback
deriving DecidableEq

/-- The two hashes of a body. -/
structure Hashes where
  stableHash : Json → String
  exactHash : Json → String

def withDuplicateFlag : Json → Json
  | .obj fields => .obj (JsonObject.set fields "duplicate" (.bool true))
  | value => value

namespace Path

def requestHash (hashes : Hashes) (operation : String) (fingerprint : Json) : Path → String
  | idempotent => hashes.stableHash (.obj [("operation", .str operation), ("fingerprint", fingerprint)])
  | idempotentExact =>
    hashes.exactHash (.obj [("operation", .str operation), ("fingerprint", fingerprint)])
  | feedback => hashes.stableHash (.obj [("request", fingerprint)])

/-- What a repeated request is answered. -/
def replay (response : Json) : Path → Json
  | idempotent => withDuplicateFlag response
  | idempotentExact => response
  | feedback => withDuplicateFlag response

def conflict : Path → String
  | idempotent => "idempotency key reused with different request body"
  | idempotentExact => "idempotency key reused with different request body"
  | feedback => "idempotency key reused with different feedback request body"

/-- Whether an await stands between the operation and the save. -/
def savesLater : Path → Bool
  | idempotent => true
  | idempotentExact => true
  | feedback => false

end Path

theorem withDuplicateFlag_twice (value : Json) :
    withDuplicateFlag (withDuplicateFlag value) = withDuplicateFlag value := by
  cases value with
  | obj fields => simp only [withDuplicateFlag, JsonObject.set_set]
  | _ => rfl

@[simp] theorem withDuplicateFlag_replay (path : Path) (response : Json) :
    withDuplicateFlag (path.replay response) = withDuplicateFlag response := by
  cases path with
  | idempotentExact => rfl
  | _ => exact withDuplicateFlag_twice response

/-! ### Operations -/

inductive Next (Cont : Type*) where
  | awaits (cont : Cont)
  | returns (response : Json)
  | throws (message : String)

/-- What runs between two awaits. -/
structure Segment (Write Cont : Type*) where
  writes : List Write := []
  next : Next Cont

/-- An operation reads the store as the list of all writes so far. -/
structure Operation (Body Write Cont : Type*) where
  run : Body → List Write → Segment Write Cont
  resume : Cont → List Write → Segment Write Cont
  /-- What is run when adding memories is disabled. -/
  disabled : Body → List Write → Segment Write Cont
  fingerprint : Body → Json

inductive Phase (Cont : Type*) where
  | running (cont : Cont)
  /-- The operation has returned and its answer is not saved yet. -/
  | returned (response : Json)
  | answered (response : Json)
  | failed (message : String)

structure Request (Body Cont : Type*) where
  path : Path
  body : Body
  guarded : Bool := true
  executed : Bool := true
  wrote : Bool := false
  phase : Phase Cont

/-- The row of the key in `idempotency_keys`. -/
structure Row where
  requestHash : String
  response : Json

structure State (Body Write Cont : Type*) where
  store : List Write
  row : Option Row
  requests : List (Request Body Cont) := []

inductive Event (Body Write : Type*) where
  | arrive (path : Path) (body : Body) (memoryAddEnabled : Bool)
  | resume (i : ℕ)
  | abort (i : ℕ) (message : String)
  | crash
  | others (writes : List Write)

/-! ### The machine -/

section
variable {Body Write Cont : Type*} (hashes : Hashes) (operation : String)
variable (op : Operation Body Write Cont)

def hash (path : Path) (body : Body) : String := path.requestHash hashes operation (op.fingerprint body)

/-- The phase after a segment. -/
def phaseAfter (r : Request Body Cont) : Next Cont → Phase Cont
  | .awaits cont => .running cont
  | .throws message => .failed message
  | .returns response =>
    if r.guarded ∧ r.path.savesLater then .returned response else .answered response

/-- The row after a segment; the feedback saves its answer at once. -/
def rowAfter (r : Request Body Cont) (row : Option Row) : Next Cont → Option Row
  | .returns response =>
    if r.guarded ∧ ¬ r.path.savesLater then some ⟨hash hashes operation op r.path r.body, response⟩
    else row
  | _ => row

def Request.after (r : Request Body Cont) (segment : Segment Write Cont) : Request Body Cont :=
  { r with
    wrote := r.wrote || !segment.writes.isEmpty
    phase := phaseAfter r segment.next }

/-- A request that is given the row of the key. -/
def repeated (path : Path) (body : Body) (row : Row) : Request Body Cont where
  path := path
  body := body
  executed := false
  phase :=
    if row.requestHash ≠ hash hashes operation op path body then .failed path.conflict
    else .answered (path.replay row.response)

def arrive (s : State Body Write Cont) (path : Path) (body : Body) (memoryAddEnabled : Bool) :
    State Body Write Cont :=
  -- the phase is set by the first segment, which runs before the first await
  let fresh : Request Body Cont :=
    { path := path, body := body, guarded := memoryAddEnabled, phase := .failed "" }
  match memoryAddEnabled, s.row with
  | true, some row =>
    { s with requests := s.requests ++ [repeated hashes operation op path body row] }
  | true, none =>
    let segment := op.run body s.store
    { store := s.store ++ segment.writes
      row := rowAfter hashes operation op fresh s.row segment.next
      requests := s.requests ++ [fresh.after segment] }
  | false, _ =>
    let segment := op.disabled body s.store
    { store := s.store ++ segment.writes
      row := rowAfter hashes operation op fresh s.row segment.next
      requests := s.requests ++ [fresh.after segment] }

/-- The next segment of a running request, or the save of one that has returned. -/
def resume (s : State Body Write Cont) (i : ℕ) (r : Request Body Cont) : State Body Write Cont :=
  match r.phase with
  | .running cont =>
    let segment := op.resume cont s.store
    { store := s.store ++ segment.writes
      row := rowAfter hashes operation op r s.row segment.next
      requests := s.requests.set i (r.after segment) }
  | .returned response =>
    { s with
      row := some ⟨hash hashes operation op r.path r.body, response⟩
      requests := s.requests.set i { r with phase := .answered response } }
  | .answered _ => s
  | .failed _ => s

/-- A request that waits fails. -/
def Request.stopped (r : Request Body Cont) (message : String) : Request Body Cont :=
  match r.phase with
  | .running _ => { r with phase := .failed message }
  | .returned _ => { r with phase := .failed message }
  | .answered _ => r
  | .failed _ => r

def step (s : State Body Write Cont) : Event Body Write → State Body Write Cont
  | .arrive path body memoryAddEnabled => arrive hashes operation op s path body memoryAddEnabled
  | .resume i =>
    match s.requests[i]? with
    | some r => resume hashes operation op s i r
    | none => s
  | .abort i message =>
    match s.requests[i]? with
    | some r => { s with requests := s.requests.set i (r.stopped message) }
    | none => s
  | .crash => { s with requests := s.requests.map (·.stopped "process ended") }
  | .others writes => { s with store := s.store ++ writes }

end

/-! ### What an idempotency key is for -/

section
variable {Body Write Cont : Type*}

/-- **Idempotency.** -/
structure Idempotent (s : State Body Write Cont) : Prop where
  /-- The effects are those of one request. -/
  once : AtMostOne (fun r : Request Body Cont => r.wrote = true) s.requests
  /-- Requests with one body have one answer, up to the flag of a replay. -/
  sameResponse : ∀ x ∈ s.requests, ∀ y ∈ s.requests, x.path = y.path → x.body = y.body →
    ∀ a b, x.phase = .answered a → y.phase = .answered b → withDuplicateFlag a = withDuplicateFlag b
  /-- Requests with another body are not executed. -/
  sameBody : ∀ x ∈ s.requests, ∀ y ∈ s.requests, x.executed = true → y.executed = true →
    x.path = y.path ∧ x.body = y.body

def Request.Harmless (r : Request Body Cont) : Prop := r.wrote = false ∧ ∃ message, r.phase = .failed message

/-- **A request that finds no row is alone**: adding memories is enabled, and those of the key that
were executed before it had its body and have failed before they wrote. -/
def Alone (s : State Body Write Cont) : Event Body Write → Prop
  | .arrive path body memoryAddEnabled =>
    memoryAddEnabled = true ∧
      (s.row = none → ∀ x ∈ s.requests, x.executed = true → x.path = path ∧ x.body = body ∧ x.Harmless)
  | _ => True

/-! ### The invariant -/

/-- The request waits. -/
def Request.Pending (r : Request Body Cont) : Prop :=
  (∀ a, r.phase ≠ .answered a) ∧ ∀ message, r.phase ≠ .failed message

structure Inv (s : State Body Write Cont) : Prop where
  guarded : ∀ x ∈ s.requests, x.guarded = true
  idle : ∀ x ∈ s.requests, x.executed = false → x.wrote = false ∧ ¬ x.Pending
  sameBody : ∀ x ∈ s.requests, ∀ y ∈ s.requests, x.executed = true → y.executed = true →
    x.path = y.path ∧ x.body = y.body
  /-- All but one of the executed requests have failed before they wrote. -/
  alone : AtMostOne (fun r : Request Body Cont => r.executed = true ∧ ¬ r.Harmless) s.requests
  /-- With a row, nothing waits and every answer is that of the row. -/
  settled : ∀ row, s.row = some row → ∀ x ∈ s.requests, ¬ x.Pending ∧
    ∀ a, x.phase = .answered a → withDuplicateFlag a = withDuplicateFlag row.response
  /-- Without a row, nothing is answered. -/
  unanswered : s.row = none → ∀ x ∈ s.requests, ∀ a, x.phase ≠ .answered a

variable {s : State Body Write Cont} {r r' : Request Body Cont} {row' : Option Row} {i : ℕ}

theorem Request.Pending.not_harmless (h : r.Pending) : ¬ r.Harmless := fun hharmless => hharmless.2.elim h.2

theorem idempotent_of_inv (h : Inv s) : Idempotent s where
  once := h.alone.mono fun x hx hwrote => by
    refine ⟨?_, fun hharmless => ?_⟩
    · by_contra hidle
      rw [(h.idle x hx (eq_false_iff.mpr hidle)).1] at hwrote
      cases hwrote
    · rw [hharmless.1] at hwrote
      cases hwrote
  sameResponse := fun x hx y hy _ _ a b ha hb => by
    cases hrow : s.row with
    | none => exact absurd ha (h.unanswered hrow x hx a)
    | some row => rw [(h.settled row hrow x hx).2 a ha, (h.settled row hrow y hy).2 b hb]
  sameBody := h.sameBody

theorem inv_start (store : List Write) (row : Option Row) : Inv (⟨store, row, []⟩ : State Body Write Cont) where
  guarded := nofun
  idle := nofun
  sameBody := nofun
  alone := atMostOne_of_forall nofun
  settled := nofun
  unanswered := nofun

/-- The row after a request has become `r'`: its answer, if it has one. -/
structure Saved (r' : Request Body Cont) (row row' : Option Row) : Prop where
  of_answered : ∀ a, r'.phase = .answered a → ∃ hash, row' = some ⟨hash, a⟩
  of_not : (∀ a, r'.phase ≠ .answered a) → row' = row

theorem Saved.answered {row : Row} (h : Saved r' none (some row)) : r'.phase = .answered row.response := by
  by_contra hne
  have hnone : (some row : Option Row) = none := h.of_not fun a ha => by
    obtain ⟨hash, hrow⟩ := h.of_answered a ha
    cases hrow
    exact hne ha
  cases hnone

theorem saved_after (hashes : Hashes) (operation : String) (op : Operation Body Write Cont)
    (hguarded : r.guarded = true) (row : Option Row) (segment : Segment Write Cont) :
    Saved (r.after segment) row (rowAfter hashes operation op r row segment.next) := by
  unfold Request.after rowAfter phaseAfter
  cases segment.next with
  | awaits cont => exact ⟨nofun, fun _ => rfl⟩
  | throws message => exact ⟨nofun, fun _ => rfl⟩
  | returns response =>
    dsimp only
    by_cases hlater : r.path.savesLater = true
    · rw [if_pos ⟨hguarded, hlater⟩, if_neg fun h => h.2 hlater]
      exact ⟨nofun, fun _ => rfl⟩
    · rw [if_neg fun h => hlater h.2, if_pos ⟨hguarded, hlater⟩]
      refine ⟨fun a ha => ?_, fun hne => absurd rfl (hne response)⟩
      cases ha
      exact ⟨_, rfl⟩

/-- **A waiting request goes on**: nothing else of the key is under way. -/
theorem inv_replace (h : Inv s) (hr : s.requests[i]? = some r) (hpending : r.Pending)
    (r' : Request Body Cont) (hguarded : r'.guarded = r.guarded) (hexecuted : r'.executed = r.executed)
    (hbody : r'.path = r.path ∧ r'.body = r.body) (hsaved : Saved r' s.row row')
    (store : List Write) : Inv ⟨store, row', s.requests.set i r'⟩ := by
  have hmem := mem_of_getElem? hr
  have hrun : r.executed = true := by
    by_contra hidle
    exact (h.idle r hmem (eq_false_iff.mpr hidle)).2 hpending
  have hnone : s.row = none := by
    by_contra hrow
    obtain ⟨row, hrow⟩ := Option.ne_none_iff_exists'.mp hrow
    exact (h.settled row hrow r hmem).1 hpending
  rw [hnone] at hsaved
  have hold : ∀ x ∈ s.requests.set i r', x = r' ∨ x ∈ s.requests ∧ ¬ (x.executed = true ∧ ¬ x.Harmless) := by
    intro x hx
    obtain ⟨j, hj⟩ := mem_iff_getElem?.mp hx
    rw [getElem?_set] at hj
    split_ifs at hj with hij
    · exact Or.inl (Option.some.inj hj).symm
    · exact Or.inr ⟨mem_of_getElem? hj, h.alone.not_of_ne hr ⟨hrun, hpending.not_harmless⟩ hj hij⟩
  have hmem' : ∀ x ∈ s.requests.set i r', ∃ y ∈ s.requests, x.guarded = y.guarded ∧
      x.executed = y.executed ∧ x.path = y.path ∧ x.body = y.body := by
    intro x hx
    rcases hold x hx with rfl | ⟨hx, -⟩
    · exact ⟨r, hmem, hguarded, hexecuted, hbody⟩
    · exact ⟨x, hx, rfl, rfl, rfl, rfl⟩
  exact {
    guarded := fun x hx => by
      obtain ⟨y, hy, hg, -⟩ := hmem' x hx
      rw [hg]
      exact h.guarded y hy
    idle := fun x hx hidle => by
      rcases hold x hx with rfl | ⟨hx, -⟩
      · rw [hexecuted, hrun] at hidle
        cases hidle
      · exact h.idle x hx hidle
    sameBody := fun x hx y hy hxe hye => by
      obtain ⟨x', hx', -, he, hp, hb⟩ := hmem' x hx
      obtain ⟨y', hy', -, he', hp', hb'⟩ := hmem' y hy
      rw [hp, hb, hp', hb']
      exact h.sameBody x' hx' y' hy' (he ▸ hxe) (he' ▸ hye)
    alone := h.alone.set hr fun _ => ⟨hrun, hpending.not_harmless⟩
    settled := fun row hrow x hx => by
      subst hrow
      rcases hold x hx with rfl | ⟨hx, hharmless⟩
      · rw [Request.Pending, hsaved.answered]
        exact ⟨fun hp => hp.1 _ rfl, fun a ha => by cases ha; rfl⟩
      · refine ⟨fun hp => hharmless ⟨?_, hp.not_harmless⟩, fun a ha => absurd ha (h.unanswered hnone x hx a)⟩
        by_contra hidle
        exact (h.idle x hx (eq_false_iff.mpr hidle)).2 hp
    unanswered := fun hrow x hx a ha => by
      change row' = none at hrow
      rcases hold x hx with rfl | ⟨hx, -⟩
      · obtain ⟨_, hsome⟩ := hsaved.of_answered a ha
        rw [hrow] at hsome
        cases hsome
      · exact h.unanswered hnone x hx a ha }

/-- **A request that is alone** is started. -/
theorem inv_append (h : Inv s) (hnone : s.row = none) (hguarded : r'.guarded = true)
    (hexecuted : r'.executed = true) (hsaved : Saved r' s.row row')
    (halone : ∀ x ∈ s.requests, x.executed = true → x.path = r'.path ∧ x.body = r'.body ∧ x.Harmless)
    (store : List Write) : Inv ⟨store, row', s.requests ++ [r']⟩ := by
  rw [hnone] at hsaved
  have hcases : ∀ x ∈ s.requests ++ [r'], x ∈ s.requests ∨ x = r' := fun x hx => by
    simpa using hx
  exact {
    guarded := fun x hx => by
      rcases hcases x hx with hx | rfl
      · exact h.guarded x hx
      · exact hguarded
    idle := fun x hx hidle => by
      rcases hcases x hx with hx | rfl
      · exact h.idle x hx hidle
      · rw [hexecuted] at hidle
        cases hidle
    sameBody := by
      have hsame : ∀ x ∈ s.requests ++ [r'], x.executed = true → x.path = r'.path ∧ x.body = r'.body := by
        intro x hx hxe
        rcases hcases x hx with hx | rfl
        · exact ⟨(halone x hx hxe).1, (halone x hx hxe).2.1⟩
        · exact ⟨rfl, rfl⟩
      intro x hx y hy hxe hye
      rw [(hsame x hx hxe).1, (hsame x hx hxe).2, (hsame y hy hye).1, (hsame y hy hye).2]
      exact ⟨rfl, rfl⟩
    alone := h.alone.concat fun _ x hx hx' => hx'.2 (halone x hx hx'.1).2.2
    settled := fun row hrow x hx => by
      subst hrow
      rcases hcases x hx with hx | rfl
      · refine ⟨fun hp => ?_, fun a ha => absurd ha (h.unanswered hnone x hx a)⟩
        by_cases hxe : x.executed = true
        · exact hp.not_harmless (halone x hx hxe).2.2
        · exact (h.idle x hx (eq_false_iff.mpr hxe)).2 hp
      · rw [Request.Pending, hsaved.answered]
        exact ⟨fun hp => hp.1 _ rfl, fun a ha => by cases ha; rfl⟩
    unanswered := fun hrow x hx a ha => by
      change row' = none at hrow
      rcases hcases x hx with hx | rfl
      · exact h.unanswered hnone x hx a ha
      · obtain ⟨_, hsome⟩ := hsaved.of_answered a ha
        rw [hrow] at hsome
        cases hsome }

theorem inv_repeated (h : Inv s) {row : Row} (hrow : s.row = some row)
    (hexecuted : r'.executed = false) (hwrote : r'.wrote = false) (hguarded : r'.guarded = true)
    (hpending : ¬ r'.Pending)
    (hanswer : ∀ a, r'.phase = .answered a → withDuplicateFlag a = withDuplicateFlag row.response) :
    Inv { s with requests := s.requests ++ [r'] } := by
  have hcases : ∀ x ∈ s.requests ++ [r'], x ∈ s.requests ∨ x = r' := fun x hx => by
    simpa using hx
  have hrun : ∀ x ∈ s.requests ++ [r'], x.executed = true → x ∈ s.requests := fun x hx hxe => by
    rcases hcases x hx with hx | rfl
    · exact hx
    · rw [hexecuted] at hxe
      cases hxe
  exact {
    guarded := fun x hx => by
      rcases hcases x hx with hx | rfl
      · exact h.guarded x hx
      · exact hguarded
    idle := fun x hx hidle => by
      rcases hcases x hx with hx | rfl
      · exact h.idle x hx hidle
      · exact ⟨hwrote, hpending⟩
    sameBody := fun x hx y hy hxe hye =>
      h.sameBody x (hrun x hx hxe) y (hrun y hy hye) hxe hye
    alone := h.alone.concat fun hp => by
      rw [hexecuted] at hp
      cases hp.1
    settled := fun row' hrow' x hx => by
      rcases hcases x hx with hx | rfl
      · exact h.settled row' hrow' x hx
      · rw [hrow] at hrow'
        cases hrow'
        exact ⟨hpending, hanswer⟩
    unanswered := fun hnone => by
      rw [hrow] at hnone
      cases hnone }

/-! ### Runs -/

theorem Request.stopped_eq (r : Request Body Cont) (message : String) :
    r.stopped message = r ∧ ¬ r.Pending ∨
      r.stopped message = { r with phase := .failed message } ∧ r.Pending := by
  unfold Request.stopped Request.Pending
  cases hphase : r.phase with
  | running cont => exact Or.inr ⟨rfl, nofun, nofun⟩
  | returned response => exact Or.inr ⟨rfl, nofun, nofun⟩
  | answered response => exact Or.inl ⟨rfl, fun h => h.1 _ rfl⟩
  | failed message => exact Or.inl ⟨rfl, fun h => h.2 _ rfl⟩

variable {hashes : Hashes} {operation : String} {op : Operation Body Write Cont}

/-- Stopping every request at once is stopping one after the other. -/
theorem inv_crash (h : Inv s) (message : String) :
    Inv { s with requests := s.requests.map (·.stopped message) } := by
  have hback : ∀ x ∈ s.requests.map (·.stopped message), ∃ y ∈ s.requests,
      x.guarded = y.guarded ∧ x.executed = y.executed ∧ x.wrote = y.wrote ∧ x.path = y.path ∧
      x.body = y.body ∧ ¬ x.Pending ∧ ∀ a, x.phase = .answered a → y.phase = .answered a := by
    intro x hx
    obtain ⟨y, hy, rfl⟩ := mem_map.mp hx
    rcases y.stopped_eq message with ⟨heq, hp⟩ | ⟨heq, -⟩
    · rw [heq]
      exact ⟨y, hy, rfl, rfl, rfl, rfl, rfl, hp, fun _ ha => ha⟩
    · rw [heq]
      exact ⟨y, hy, rfl, rfl, rfl, rfl, rfl, fun hp => hp.2 _ rfl, nofun⟩
  exact {
    guarded := fun x hx => by
      obtain ⟨y, hy, hg, -⟩ := hback x hx
      rw [hg]
      exact h.guarded y hy
    idle := fun x hx hidle => by
      obtain ⟨y, hy, -, he, hw, -, -, hp, -⟩ := hback x hx
      exact ⟨hw.trans (h.idle y hy (he ▸ hidle)).1, hp⟩
    sameBody := fun x hx y hy hxe hye => by
      obtain ⟨x', hx', -, he, -, hp, hb, -⟩ := hback x hx
      obtain ⟨y', hy', -, he', -, hp', hb', -⟩ := hback y hy
      rw [hp, hb, hp', hb']
      exact h.sameBody x' hx' y' hy' (he ▸ hxe) (he' ▸ hye)
    alone := h.alone.map fun x hx => by
      rcases x.stopped_eq message with ⟨heq, -⟩ | ⟨heq, hp⟩
      · rwa [heq] at hx
      · rw [heq] at hx
        exact ⟨hx.1, hp.not_harmless⟩
    settled := fun row hrow x hx => by
      obtain ⟨y, hy, -, -, -, -, -, hp, ha⟩ := hback x hx
      exact ⟨hp, fun a hxa => (h.settled row hrow y hy).2 a (ha a hxa)⟩
    unanswered := fun hnone x hx a hxa => by
      obtain ⟨y, hy, -, -, -, -, -, -, ha⟩ := hback x hx
      exact h.unanswered hnone y hy a (ha a hxa) }

theorem inv_arrive (h : Inv s) (path : Path) (body : Body) (memoryAddEnabled : Bool)
    (halone : Alone s (.arrive path body memoryAddEnabled)) :
    Inv (arrive hashes operation op s path body memoryAddEnabled) := by
  obtain ⟨rfl, halone⟩ := halone
  obtain ⟨store, row, requests⟩ := s
  cases row with
  | none =>
    let fresh : Request Body Cont :=
      { path := path, body := body, guarded := true, phase := .failed "" }
    have hsaved : Saved (fresh.after (op.run body store)) none _ :=
      saved_after hashes operation op rfl none (op.run body store)
    exact inv_append h rfl rfl rfl hsaved (halone rfl) _
  | some row =>
    refine inv_repeated h rfl rfl rfl rfl ?_ ?_
    · unfold repeated Request.Pending
      split_ifs
      · exact fun hp => hp.2 _ rfl
      · exact fun hp => hp.1 _ rfl
    · unfold repeated
      split_ifs
      · exact nofun
      · intro a ha
        cases ha
        exact withDuplicateFlag_replay path row.response

theorem inv_resume (h : Inv s) (hr : s.requests[i]? = some r) : Inv (resume hashes operation op s i r) := by
  have hguarded := h.guarded r (mem_of_getElem? hr)
  unfold resume
  cases hphase : r.phase with
  | running cont =>
    exact inv_replace h hr (by simp [Request.Pending, hphase]) (r.after _) rfl rfl ⟨rfl, rfl⟩
      (saved_after hashes operation op hguarded s.row _) _
  | returned response =>
    refine inv_replace h hr (by simp [Request.Pending, hphase])
      { r with phase := .answered response } rfl rfl ⟨rfl, rfl⟩
      ⟨fun a ha => ?_, fun hne => absurd rfl (hne response)⟩ _
    cases ha
    exact ⟨_, rfl⟩
  | answered response => exact h
  | failed message => exact h

theorem inv_step (h : Inv s) (e : Event Body Write) (halone : Alone s e) :
    Inv (step hashes operation op s e) := by
  cases e with
  | arrive path body memoryAddEnabled => exact inv_arrive h path body memoryAddEnabled halone
  | resume i =>
    dsimp only [step]
    cases hr : s.requests[i]? with
    | none => exact h
    | some r => exact inv_resume h hr
  | abort i message =>
    dsimp only [step]
    cases hr : s.requests[i]? with
    | none => exact h
    | some r =>
      change Inv { s with requests := s.requests.set i (r.stopped message) }
      rcases r.stopped_eq message with ⟨heq, -⟩ | ⟨heq, hp⟩
      · have hset : s.requests.set i r = s.requests := by
          obtain ⟨hlt, rfl⟩ := List.getElem?_eq_some_iff.mp hr
          exact set_getElem_self hlt
        rw [heq, hset]
        exact h
      · rw [heq]
        exact inv_replace h hr hp { r with phase := .failed message } rfl rfl ⟨rfl, rfl⟩
          ⟨nofun, fun _ => rfl⟩ s.store
  | crash => exact inv_crash h "process ended"
  | others writes => exact ⟨h.guarded, h.idle, h.sameBody, h.alone, h.settled, h.unanswered⟩

/-- **Idempotency of a key.** In a run in which every request that finds no row is alone, the effects
are those of one request, equal bodies are answered alike and only one body is executed. -/
theorem run_idempotent (hashes : Hashes) (operation : String) (op : Operation Body Write Cont)
    (store : List Write) (row : Option Row) (es : List (Event Body Write))
    (halone : ∀ t ∈ taken (step hashes operation op) ⟨store, row, []⟩ es, Alone t.1 t.2) :
    ∀ t ∈ visited (step hashes operation op) ⟨store, row, []⟩ es, Idempotent t :=
  fun t ht => idempotent_of_inv (invariant_of_steps (P := Alone) (fun _ e h => inv_step h e) es _
    (inv_start store row) halone t ht)

end

end Memmy.Service.Idempotency
