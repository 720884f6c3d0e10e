import Memmy.Cron.Service
import Memmy.Lib.KeyMap
import Memmy.Lib.Run

/-! # The action file and the store file

Changes of another process wait in `action.jsonl` until `mergeAction` plays them onto the jobs in memory; a
running service then empties the file and writes the jobs to `jobs.json`, in this order.  The process may stop
and a write may fail between any two of these writes.

* `act_fold`, `merge_again`: a line acts on the job of its id only, and lines that are played again change
  nothing.
* `Recorded`: every line that was appended is in `action.jsonl`, or `jobs.json` was written after it was merged.
* `Resumes`: after an interrupted merge, a restart has the jobs that the merge would have left.
* `recorded_of_whole`: both hold in every run without an interruption between the two writes. -/

namespace Memmy.Cron.ActionFile

open Cron.Service Lib.KeyMap Lib.Run List Option

/-! ### Merging -/

/-- What a line of `action.jsonl` says. -/
inductive Action where
  | add (job : CronJob)
  | update (job : CronJob)
  | del (jobId : String)
  /-- No action that is known, or no JSON. -/
  | other
  deriving DecidableEq, Repr

abbrev idOf (job : CronJob) : String := job.id

/-- One line of `mergeAction`, on the map of the jobs. -/
def mergeLine (jobs : List CronJob) : Action → List CronJob
  | .add job => set idOf jobs job
  | .update job =>
    match get? idOf jobs job.id with
    | some current => set idOf jobs (keepResult current job)
    | none => set idOf jobs job
  | .del jobId => if jobId = "" then jobs else delete idOf jobs jobId
  | .other => jobs

def mergeLines (jobs : List CronJob) (actions : List Action) : List CronJob :=
  actions.foldl mergeLine (ofList idOf jobs)

/-- A line was carried out. -/
def changed (actions : List Action) : Bool := actions.any fun a => a ≠ .other

/-! ### The files and the process -/

/-- A line of the file, with its number among all that were appended. -/
structure Line where
  no : ℕ
  action : Action
  deriving DecidableEq, Repr

/-- The jobs that a process or a file holds, with the numbers of the lines that went into them. -/
structure Jobs where
  jobs : List CronJob := []
  merged : List ℕ := []
  deriving DecidableEq, Repr

structure State where
  lines : List Line := []
  stored : Jobs := {}
  /-- The jobs in memory; there are none before the process has loaded them. -/
  memory : Option Jobs := none
  running : Bool := false
  appended : ℕ := 0
  deriving DecidableEq, Repr

/-- Where `mergeAction` is cut off. -/
inductive Point where
  /-- The lock is not acquired, or the file not read. -/
  | beforeMerge
  | beforeTruncate
  | beforeRename
  | afterRename
  deriving DecidableEq, Repr

/-- A merge is cut off by an error, or by the end of the process. -/
structure Fault where
  point : Point
  stops : Bool
  deriving DecidableEq, Repr

def actionsOf (lines : List Line) : List Action := lines.map (·.action)

/-- The jobs in memory after the lines. -/
def mergedWith (m : Jobs) (lines : List Line) : Jobs where
  jobs := mergeLines m.jobs (actionsOf lines)
  merged := m.merged ++ lines.map (·.no)

/-- The process is gone. -/
def stop (s : State) : State :=
  { s with
    memory := none
    running := false }

/-- The writes of `mergeAction`, on the jobs `m` in memory. -/
def writes (fault : Option Fault) (m : Jobs) (s : State) : State :=
  let merged := mergedWith m s.lines
  match fault.map Fault.point with
  | some .beforeMerge => { s with memory := some m }
  | some .beforeTruncate => { s with memory := some merged }
  | some .beforeRename =>
    if s.running ∧ changed (actionsOf s.lines) then
      { s with
        memory := some merged
        lines := [] }
    else { s with memory := some merged }
  | some .afterRename | none =>
    if s.running ∧ changed (actionsOf s.lines) then
      { s with
        memory := some merged
        lines := []
        stored := merged }
    else { s with memory := some merged }

def mergeAction (fault : Option Fault) (m : Jobs) (s : State) : State :=
  if fault.any (·.stops) then stop (writes fault m s) else writes fault m s

/-! ### Runs -/

inductive Event where
  | append (action : Action)
  | load (fault : Option Fault)
  | merge (fault : Option Fault)
  /-- The service runs, edits, adds and removes jobs in memory. -/
  | work (jobs : List CronJob)
  /-- `saveStore`; it may fail before the file is renamed. -/
  | save (fails : Bool)
  | run (running : Bool)
  | stop
  deriving Repr

def step (s : State) : Event → State
  | .append action =>
    { s with
      lines := s.lines ++
        [{ no := s.appended
           action := action }]
      appended := s.appended + 1 }
  | .load fault => mergeAction fault s.stored s
  | .merge fault =>
    match s.memory with
    | none => s
    | some m => mergeAction fault m s
  | .work jobs => { s with memory := s.memory.map fun m => { m with jobs := jobs } }
  | .save fails =>
    match s.memory with
    | none => s
    | some m => if fails then s else { s with stored := m }
  | .run running => { s with running := running }
  | .stop => stop s

/-- The jobs that a restart reads and merges. -/
def restarted (s : State) : List CronJob := mergeLines s.stored.jobs (actionsOf s.lines)

/-! ### The property -/

/-- **No line is lost**: it is in `action.jsonl`, or in the jobs of `jobs.json`. -/
def Recorded (s : State) : Prop := ∀ n < s.appended, n ∈ s.lines.map (·.no) ∨ n ∈ s.stored.merged

/-- The same jobs, in whatever order. -/
def SameJobs (jobs jobs' : List CronJob) : Prop :=
  ∀ id, get? idOf (ofList idOf jobs) id = get? idOf (ofList idOf jobs') id

/-- The jobs that a merge works on, and where it is cut off. -/
def mergeOf (s : State) : Event → Option (Jobs × Option Fault)
  | .load fault => some (s.stored, fault)
  | .merge fault => s.memory.map (·, fault)
  | _ => none

/-- **A cut merge resumes**: a restart has the jobs that it has after the merge to its end. -/
def Resumes (s : State) (e : Event) : Prop :=
  ∀ m ∈ mergeOf s e, SameJobs (restarted (mergeAction m.2 m.1 s)) (restarted (mergeAction none m.1 s))

/-- The jobs in memory are those of `jobs.json`, but for lines that were merged and are still in the file. -/
def Unchanged (m : Jobs) (s : State) : Prop :=
  ∃ front, front <+: actionsOf s.lines ∧ SameJobs m.jobs (mergeLines s.stored.jobs front)

/-- **The condition.** A merge that empties the file is not cut off before `jobs.json` is there; if it is cut
off before it empties the file, the memory has no work that is not saved. -/
def Whole (s : State) (e : Event) : Prop :=
  ∀ m ∈ mergeOf s e, s.running = true → changed (actionsOf s.lines) = true → ∀ fault ∈ m.2,
    (fault.point ≠ .beforeRename ∧ (fault.point ≠ .afterRename → Unchanged m.1 s))

/-! ### Lines that are played again -/

theorem laterRun_irrefl (a : Option ℤ) : laterRun a a = false := by
  cases a with
  | none => rfl
  | some a => simp [laterRun]

theorem laterRun_trans {a b c : Option ℤ} (hab : laterRun a b = true) (hbc : laterRun b c = true) :
    laterRun a c = true := by
  cases a <;> cases b <;> cases c <;> simp_all [laterRun]
  omega

theorem not_laterRun_trans {a b c : Option ℤ} (hab : ¬ laterRun a b = true) (hbc : ¬ laterRun b c = true) :
    ¬ laterRun a c = true := by
  cases a <;> cases b <;> cases c <;> simp_all [laterRun]
  omega

theorem keepResult_self (u : CronJob) : keepResult u u = u := by
  unfold keepResult
  rw [laterRun_irrefl, if_neg Bool.false_ne_true]

/-- **The latest result is kept**, whichever two lines are taken together first. -/
theorem keepResult_assoc (c u j : CronJob) : keepResult (keepResult c u) j = keepResult c (keepResult u j) := by
  unfold keepResult
  by_cases hcu : laterRun c.state.lastRunAtMs u.state.lastRunAtMs = true
  · by_cases huj : laterRun u.state.lastRunAtMs j.state.lastRunAtMs = true
    · simp [hcu, huj, laterRun_trans hcu huj]
    · simp [hcu, huj]
  · by_cases huj : laterRun u.state.lastRunAtMs j.state.lastRunAtMs = true
    · simp [hcu, huj]
    · simp [hcu, huj, not_laterRun_trans hcu huj]

/-- What a line makes of the job with an id. -/
def act (id : String) (current : Option CronJob) : Action → Option CronJob
  | .add job => if job.id = id then some job else current
  | .update job =>
    if job.id = id then some (match current with
      | some c => keepResult c job
      | none => job)
    else current
  | .del jobId => if jobId ≠ "" ∧ id = jobId then none else current
  | .other => current

theorem id_keepResult (c job : CronJob) : (keepResult c job).id = job.id := by
  unfold keepResult
  split_ifs <;> rfl

theorem nodup_mergeLine {jobs : List CronJob} (h : (jobs.map idOf).Nodup) (a : Action) :
    ((mergeLine jobs a).map idOf).Nodup := by
  cases a with
  | add job => exact nodup_set h job
  | update job =>
    unfold mergeLine
    dsimp only
    split
    · exact nodup_set h _
    · exact nodup_set h _
  | del jobId =>
    unfold mergeLine
    dsimp only
    split_ifs
    · exact h
    · exact nodup_delete h _
  | other => exact h

theorem get?_mergeLine (jobs : List CronJob) (a : Action) (id : String) :
    get? idOf (mergeLine jobs a) id = act id (get? idOf jobs id) a := by
  cases a with
  | add job => exact get?_set jobs job id
  | update job =>
    unfold mergeLine act
    dsimp only
    by_cases hid : job.id = id
    · rw [if_pos hid, ← hid]
      split
      · next current _ =>
        rw [get?_set, if_pos (id_keepResult current job)]
      · rw [get?_set, if_pos rfl]
    · rw [if_neg hid]
      split
      · next current _ => rw [get?_set, if_neg (by rw [idOf, id_keepResult]; exact hid)]
      · rw [get?_set, if_neg hid]
  | del jobId =>
    unfold mergeLine act
    dsimp only
    by_cases hempty : jobId = ""
    · rw [if_pos hempty, if_neg fun h => h.1 hempty]
    · rw [if_neg hempty, get?_delete]
      by_cases hid : id = jobId
      · rw [if_pos hid, if_pos ⟨hempty, hid⟩]
      · rw [if_neg hid, if_neg fun h => hid h.2]
  | other => rfl

theorem nodup_mergeLines (jobs : List CronJob) (actions : List Action) :
    ((mergeLines jobs actions).map idOf).Nodup := by
  have hgeneral : ∀ (actions : List Action) {jobs : List CronJob}, (jobs.map idOf).Nodup →
      ((actions.foldl mergeLine jobs).map idOf).Nodup := by
    intro actions
    induction actions with
    | nil => exact id
    | cons a actions ih => exact fun h => ih (nodup_mergeLine h a)
  exact hgeneral actions (nodup_ofList jobs)

/-- **The job of an id** after the lines. -/
theorem act_fold (jobs : List CronJob) (actions : List Action) (id : String) :
    get? idOf (ofList idOf (mergeLines jobs actions)) id =
      actions.foldl (act id) (get? idOf (ofList idOf jobs) id) := by
  rw [ofList_eq_self (nodup_mergeLines jobs actions)]
  unfold mergeLines
  generalize ofList idOf jobs = jobs'
  induction actions generalizing jobs' with
  | nil => rfl
  | cons a actions ih => rw [foldl_cons, foldl_cons, ih, get?_mergeLine]

/-- A line fixes the job of an id, leaves it, or updates it. -/
theorem act_one (id : String) (a : Action) :
    (∃ c, ∀ x, act id x a = c) ∨ (∀ x, act id x a = x) ∨
      ∃ u, u.id = id ∧ ∀ x, act id x a = act id x (.update u) := by
  cases a with
  | add job =>
    by_cases hid : job.id = id
    · exact Or.inl ⟨some job, fun x => if_pos hid⟩
    · exact Or.inr (Or.inl fun x => if_neg hid)
  | update job =>
    by_cases hid : job.id = id
    · exact Or.inr (Or.inr ⟨job, hid, fun x => rfl⟩)
    · exact Or.inr (Or.inl fun x => if_neg hid)
  | del jobId =>
    by_cases hid : jobId ≠ "" ∧ id = jobId
    · exact Or.inl ⟨none, fun x => if_pos hid⟩
    · exact Or.inr (Or.inl fun x => if_neg hid)
  | other => exact Or.inr (Or.inl fun x => rfl)

theorem act_update {id : String} {u : CronJob} (h : u.id = id) (x : Option CronJob) :
    act id x (.update u) = some ((x.map fun c => keepResult c u).getD u) := by
  unfold act
  dsimp only
  rw [if_pos h]
  cases x <;> rfl

theorem act_update_update {id : String} {u j : CronJob} (hu : u.id = id) (hj : j.id = id) (x : Option CronJob) :
    act id (act id x (.update u)) (.update j) = act id x (.update (keepResult u j)) := by
  rw [act_update hu, act_update hj, act_update (by rw [id_keepResult]; exact hj)]
  cases x with
  | none => rfl
  | some c => exact congrArg some (keepResult_assoc c u j)

/-- **Several lines act as one.** -/
theorem act_foldl (id : String) (actions : List Action) :
    (∃ c, ∀ x, actions.foldl (act id) x = c) ∨ (∀ x, actions.foldl (act id) x = x) ∨
      ∃ u, u.id = id ∧ ∀ x, actions.foldl (act id) x = act id x (.update u) := by
  induction actions using List.reverseRecOn with
  | nil => exact Or.inr (Or.inl fun _ => rfl)
  | append_singleton actions a ih =>
    simp only [foldl_append, foldl_cons, foldl_nil]
    rcases act_one id a with ⟨c, ha⟩ | ha | ⟨j, hj, ha⟩
    · exact Or.inl ⟨c, fun x => ha _⟩
    · simpa only [ha] using ih
    · simp only [ha]
      rcases ih with ⟨c, h⟩ | h | ⟨u, hu, h⟩
      · exact Or.inl ⟨_, fun x => by rw [h]⟩
      · exact Or.inr (Or.inr ⟨j, hj, fun x => by rw [h]⟩)
      · refine Or.inr (Or.inr ⟨keepResult u j, (id_keepResult u j).trans hj, fun x => ?_⟩)
        rw [h, act_update_update hu hj]

theorem act_again (id : String) (actions : List Action) (x : Option CronJob) :
    actions.foldl (act id) (actions.foldl (act id) x) = actions.foldl (act id) x := by
  rcases act_foldl id actions with ⟨c, h⟩ | h | ⟨u, hid, h⟩
  · rw [h, h]
  · rw [h, h]
  · rw [h, h, act_update_update hid hid, keepResult_self]

theorem SameJobs.merge {jobs jobs' : List CronJob} (h : SameJobs jobs jobs') (actions : List Action) :
    SameJobs (mergeLines jobs actions) (mergeLines jobs' actions) := by
  intro id
  rw [act_fold, act_fold, h id]

/-- **Lines that are played again**, with those that were appended since, change nothing. -/
theorem merge_again (jobs : List CronJob) {front actions : List Action} (h : front <+: actions) :
    SameJobs (mergeLines (mergeLines jobs front) actions) (mergeLines jobs actions) := by
  obtain ⟨back, rfl⟩ := h
  intro id
  rw [act_fold, act_fold, act_fold, foldl_append, foldl_append, act_again]

/-! ### What a merge leaves -/

theorem SameJobs.refl (jobs : List CronJob) : SameJobs jobs jobs := fun _ => rfl

theorem SameJobs.symm {jobs jobs' : List CronJob} (h : SameJobs jobs jobs') : SameJobs jobs' jobs :=
  fun id => (h id).symm

theorem SameJobs.trans {jobs jobs' jobs'' : List CronJob} (h : SameJobs jobs jobs') (h' : SameJobs jobs' jobs'') :
    SameJobs jobs jobs'' := fun id => (h id).trans (h' id)

theorem sameJobs_merge_nil (jobs : List CronJob) : SameJobs (mergeLines jobs []) jobs := by
  intro id
  rw [act_fold]
  rfl

variable {s : State} {m : Jobs} {fault : Option Fault}

theorem restarted_mergeAction : restarted (mergeAction fault m s) = restarted (writes fault m s) := by
  unfold mergeAction
  split_ifs <;> rfl

/-- A merge that does not empty the file leaves both files as they are. -/
theorem restarted_writes_of_not (h : ¬ (s.running = true ∧ changed (actionsOf s.lines) = true)) :
    restarted (writes fault m s) = restarted s := by
  rcases fault with - | ⟨point, stops⟩
  · simp only [writes, map_none]
    rw [if_neg h]
    rfl
  · cases point <;> simp only [writes, map_some]
    · rfl
    · rfl
    · rw [if_neg h]
      rfl
    · rw [if_neg h]
      rfl

/-- **A cut merge resumes**, unless it is cut off between its writes. -/
theorem resumes_merge (h : s.running = true → changed (actionsOf s.lines) = true → ∀ f ∈ fault,
      f.point ≠ .beforeRename ∧ (f.point ≠ .afterRename → Unchanged m s)) :
    SameJobs (restarted (mergeAction fault m s)) (restarted (mergeAction none m s)) := by
  rw [restarted_mergeAction, restarted_mergeAction]
  by_cases hwrites : s.running = true ∧ changed (actionsOf s.lines) = true
  · have hnone : writes none m s =
        { s with
          memory := some (mergedWith m s.lines)
          lines := []
          stored := mergedWith m s.lines } := by
      simp only [writes, map_none]
      rw [if_pos hwrites]
    have hwhole : SameJobs (restarted (writes none m s)) (mergeLines m.jobs (actionsOf s.lines)) := by
      rw [hnone]
      exact sameJobs_merge_nil _
    have hearly : Unchanged m s → SameJobs (restarted s) (restarted (writes none m s)) := by
      rintro ⟨front, hfront, hsame⟩
      refine ((hsame.merge _).trans ?_).symm.trans hwhole.symm
      exact merge_again s.stored.jobs hfront
    rcases fault with - | ⟨point, stops⟩
    · exact SameJobs.refl _
    · obtain ⟨hrename, hunchanged⟩ := h hwrites.1 hwrites.2 _ rfl
      cases point with
      | beforeMerge => exact hearly (hunchanged (by simp))
      | beforeTruncate => exact hearly (hunchanged (by simp))
      | beforeRename => exact absurd rfl hrename
      | afterRename => exact SameJobs.refl _
  · rw [restarted_writes_of_not hwrites, restarted_writes_of_not hwrites]
    exact SameJobs.refl _

/-- The lines are recorded, and what is in `jobs.json` is in memory. -/
def Inv (s : State) : Prop := Recorded s ∧ ∀ m ∈ s.memory, s.stored.merged ⊆ m.merged

theorem inv_writes (hs : Recorded s) (hm : s.stored.merged ⊆ m.merged)
    (h : s.running = true → changed (actionsOf s.lines) = true → ∀ f ∈ fault, f.point ≠ .beforeRename) :
    Inv (writes fault m s) := by
  have hmerged : s.stored.merged ⊆ (mergedWith m s.lines).merged := fun n hn => mem_append_left _ (hm hn)
  have hrecorded : ∀ n < s.appended, n ∈ (mergedWith m s.lines).merged := by
    intro n hn
    rcases hs n hn with hline | hstored
    · exact mem_append_right _ hline
    · exact hmerged hstored
  have hkept : Inv { s with memory := some (mergedWith m s.lines) } := by
    refine ⟨hs, fun m' hm' => ?_⟩
    cases hm'
    exact hmerged
  have hwritten : Inv
      { s with
        memory := some (mergedWith m s.lines)
        lines := []
        stored := mergedWith m s.lines } := by
    refine ⟨fun n hn => Or.inr (hrecorded n hn), fun m' hm' => ?_⟩
    cases hm'
    exact fun _ hn => hn
  rcases fault with - | ⟨point, stops⟩
  · simp only [writes, map_none]
    split_ifs
    · exact hwritten
    · exact hkept
  · cases point <;> simp only [writes, map_some]
    · refine ⟨hs, fun m' hm' => ?_⟩
      cases hm'
      exact hm
    · exact hkept
    · split_ifs with hwrites
      · exact absurd rfl (h hwrites.1 hwrites.2 _ rfl)
      · exact hkept
    · split_ifs
      · exact hwritten
      · exact hkept

theorem inv_mergeAction (hs : Recorded s) (hm : s.stored.merged ⊆ m.merged)
    (h : s.running = true → changed (actionsOf s.lines) = true → ∀ f ∈ fault, f.point ≠ .beforeRename) :
    Inv (mergeAction fault m s) := by
  have hwrites := inv_writes hs hm h
  unfold mergeAction
  split_ifs
  · refine ⟨hwrites.1, fun m' hm' => ?_⟩
    cases hm'
  · exact hwrites

/-! ### Every run -/

/-- **A step** without an interruption between the two writes. -/
theorem inv_step (hinv : Inv s) {e : Event} (hwhole : Whole s e) : Inv (step s e) := by
  obtain ⟨hs, hmemory⟩ := hinv
  cases e with
  | append action =>
    refine ⟨fun n hn => ?_, hmemory⟩
    have hn' : n < s.appended + 1 := hn
    by_cases hlast : n = s.appended
    · exact Or.inl (mem_map.mpr ⟨_, mem_append_right _ (mem_singleton_self _), hlast.symm⟩)
    · rcases hs n (by omega) with h | h
      · refine Or.inl ?_
        obtain ⟨l, hl, hno⟩ := mem_map.mp h
        exact mem_map.mpr ⟨l, mem_append_left _ hl, hno⟩
      · exact Or.inr h
  | load fault =>
    exact inv_mergeAction hs (fun _ h => h) fun hrun hchanged f hf => (hwhole _ rfl hrun hchanged f hf).1
  | merge fault =>
    unfold step
    cases hm : s.memory with
    | none => exact ⟨hs, fun m h => by rw [hm] at h; cases h⟩
    | some m =>
      refine inv_mergeAction hs (hmemory m hm) fun hrun hchanged f hf => ?_
      exact (hwhole (m, fault) (by simp [mergeOf, hm]) hrun hchanged f hf).1
  | work jobs =>
    refine ⟨hs, fun m' hm' => ?_⟩
    obtain ⟨m, hm, rfl⟩ := map_eq_some_iff.mp hm'
    exact hmemory m hm
  | save fails =>
    unfold step
    cases hm : s.memory with
    | none => exact ⟨hs, fun m h => by rw [hm] at h; cases h⟩
    | some m =>
      dsimp only
      cases fails
      · rw [if_neg Bool.false_ne_true]
        refine ⟨fun n hn => (hs n hn).imp_right fun h => hmemory m hm h, fun m' hm' => ?_⟩
        cases hm'
        exact fun _ h => h
      · exact ⟨hs, hmemory⟩
  | run running => exact ⟨hs, hmemory⟩
  | stop =>
    refine ⟨hs, fun m' hm' => ?_⟩
    cases hm'

/-- **No line is lost, and cut merges resume**, in every run in which no merge is cut off between its two
writes, or before them with work in memory that is not saved. -/
theorem recorded_of_whole (jobs : List CronJob) (es : List Event)
    (h : ∀ t ∈ taken step { stored := { jobs := jobs } } es, Whole t.1 t.2) :
    (∀ t ∈ visited step { stored := { jobs := jobs } } es, Recorded t) ∧
      ∀ t ∈ taken step { stored := { jobs := jobs } } es, Resumes t.1 t.2 := by
  have hinitial : Inv { stored := { jobs := jobs } } := ⟨fun n hn => absurd hn (Nat.not_lt_zero n), nofun⟩
  refine ⟨fun t ht => ?_, fun t ht m hm => ?_⟩
  · exact (invariant_of_steps (P := Whole) (fun s e hs he => inv_step hs he) es _ hinitial h t ht).1
  · exact resumes_merge (h t ht m hm)

section Interrupted

/-- A job that another process adds while the service is away; the service is cut off as it starts. -/
def added (point : Point) : List Event :=
  [.append (.add { id := "a1", schedule := { kind := .every, everyMs := some 60000 } }), .run true,
    .load (some { point := point, stops := true })]

theorem recorded_of_whole_added : (∀ t ∈ visited step { stored := { jobs := [] } } (added .beforeTruncate),
      Recorded t) ∧
    ∀ t ∈ taken step { stored := { jobs := [] } } (added .beforeTruncate), Resumes t.1 t.2 := by
  refine recorded_of_whole [] (added .beforeTruncate) ?_
  intro t ht m hm hrun hchanged fault hfault
  simp only [added, taken_cons, taken_nil, mem_cons, not_mem_nil, or_false] at ht
  rcases ht with rfl | rfl | rfl
  · cases hm
  · cases hm
  · cases hm
    cases hfault
    exact ⟨by simp, fun _ => ⟨[], nil_prefix, fun id => by rw [act_fold]; rfl⟩⟩

/-- **Cut off between the writes**, the service has the job in neither file. -/
theorem not_recorded_added :
    ¬ ((∀ t ∈ visited step { stored := { jobs := [] } } (added .beforeRename), Recorded t) ∧
      ∀ t ∈ taken step { stored := { jobs := [] } } (added .beforeRename), Resumes t.1 t.2) := by
  rintro ⟨h, -⟩
  have hlost := h _ (final_mem_visited step (added .beforeRename) { stored := { jobs := [] } }) 0 (by decide)
  revert hlost
  decide

end Interrupted

end Memmy.Cron.ActionFile
