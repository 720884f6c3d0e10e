import Memmy.Tools.ApplyPatch

/-! # Applying a patch: all or nothing

A change writes to its own path only. So when all changes are made, the files are those that the operations
make one after another, since no path is named twice; and when something fails, each attempted path is given
back what it had, or is named as one that was not.

* `applyOperation`, `applyAll`: what a patch means, on the files alone.
* `planned_changes`: the changes of a plan do what the operations mean.
* `files_of_run`: what each result says of the files. -/

namespace Memmy.Tools

open Lib.Result List Function

/-! ### What a patch means -/

abbrev Files := Path → Option Bytes

/-- One operation, on the files as they are when it comes. -/
def applyOperation (codec : Codec) (files : Files) : PatchFileOperation Path → Option Files
  | .add p _ lines =>
    if files p = none then some (Function.update files p (some (codec.encode (linesToText lines "\n"))))
    else none
  | .delete p _ =>
    match files p with
    | none => none
    | some bytes => match decodeText codec bytes p.text with
      | .error _ => none
      | .ok _ => some (Function.update files p none)
  | .update p _ moveTo hunks =>
    match files p with
    | none => none
    | some bytes => match updatedBytes codec p bytes hunks with
      | .error _ => none
      | .ok after => match moveTo with
        | none => some (Function.update files p (some after))
        | some (target, _) =>
          if files target = none then
            some (Function.update (Function.update files target (some after)) p none)
          else none

/-- **The operations one after another**, none if one of them does not fit. -/
def applyAll (codec : Codec) (ops : List (PatchFileOperation Path)) (files : Files) : Option Files :=
  ops.foldlM (applyOperation codec) files

/-- What a change means. -/
def applyChange (files : Files) : PendingChange → Files
  | .unchanged _ => files
  | .delete p => Function.update files p none
  | .write p after _ => Function.update files p (some after)

/-! ### Single writes -/

section Writes
variable {fs : FileSystem} {p q : Path} {bytes : Option Bytes} {fault : Option Fault}

theorem fileAt_setFile_self : fileAt (setFile fs p bytes) p = bytes := by
  unfold fileAt setFile
  rw [update_self]
  cases bytes <;> rfl

theorem fileAt_setFile_of_ne (h : q ≠ p) : fileAt (setFile fs p bytes) q = fileAt fs q := by
  unfold fileAt setFile
  rw [update_of_ne h]

theorem fileAt_setFile : fileAt (setFile fs p bytes) = Function.update (fileAt fs) p bytes := by
  funext q
  by_cases h : q = p
  · rw [h, fileAt_setFile_self, update_self]
  · rw [fileAt_setFile_of_ne h, update_of_ne h]

@[simp] theorem fileAt_makeParents : fileAt (makeParents fs p) = fileAt fs := by
  funext q
  unfold fileAt makeParents
  by_cases h : q ∈ properPrefixes p ∧ fs q = none
  · rw [if_pos h, h.2]
  · rw [if_neg h]

@[simp] theorem fileAt_mkdir : fileAt (mkdir fs p fault).2 = fileAt fs := by
  unfold mkdir
  cases fault with
  | some f => exact fileAt_makeParents
  | none =>
    split_ifs
    · exact fileAt_makeParents
    · rfl

theorem fileAt_writeFile_of_ne {after : Bytes} (h : q ≠ p) :
    fileAt (writeFile fs p after fault).2 q = fileAt fs q := by
  unfold writeFile
  cases fault with
  | some f => exact fileAt_setFile_of_ne h
  | none =>
    split_ifs
    · exact fileAt_setFile_of_ne h
    · rfl

theorem fileAt_writeFile {after : Bytes} (h : (writeFile fs p after fault).1 = none) :
    fileAt (writeFile fs p after fault).2 = Function.update (fileAt fs) p (some after) := by
  unfold writeFile at h ⊢
  cases fault with
  | some f => cases h
  | none =>
    split_ifs at h ⊢
    exact fileAt_setFile

theorem fileAt_remove_of_ne {force : Bool} (h : q ≠ p) :
    fileAt (remove fs p force fault).2 q = fileAt fs q := by
  unfold remove
  cases fault with
  | some f => exact fileAt_setFile_of_ne h
  | none =>
    cases fs p with
    | none =>
      split_ifs <;> rfl
    | some node =>
      cases node with
      | file bytes => exact fileAt_setFile_of_ne h
      | directory => rfl

theorem fileAt_remove {force : Bool} (h : (remove fs p force fault).1 = none) :
    fileAt (remove fs p force fault).2 = Function.update (fileAt fs) p none := by
  unfold remove at h ⊢
  cases fault with
  | some f => cases h
  | none =>
    cases hnode : fs p with
    | none =>
      rw [hnode] at h
      have hnone : fileAt fs p = none := by
        unfold fileAt
        rw [hnode]
      split_ifs at h ⊢
      rw [← hnone, update_eq_self]
    | some node =>
      rw [hnode] at h
      cases node with
      | file bytes => exact fileAt_setFile
      | directory => cases h

end Writes

/-! ### Changes -/

section Changes
variable {codec : Codec} {faults : Faults} {fs initial : FileSystem} {change : PendingChange}
  {changes : List PendingChange} {attempted paths : List Path} {p q : Path} {before : Option Bytes}

theorem fileAt_perform_of_ne (h : q ≠ change.target) : fileAt (perform faults fs change).2 q = fileAt fs q := by
  cases change with
  | unchanged p => rfl
  | delete p => exact fileAt_remove_of_ne h
  | write p after verifyText =>
    have hparents : fileAt (mkdir fs p (faults (.mkdir p))).2 q = fileAt fs q := by rw [fileAt_mkdir]
    unfold perform
    simp only
    generalize mkdir fs p (faults (.mkdir p)) = made at hparents ⊢
    obtain ⟨message, fs₁⟩ := made
    cases message with
    | some message => exact hparents
    | none => exact (fileAt_writeFile_of_ne h).trans hparents

/-- A change that is made does what it means. -/
theorem fileAt_perform (h : (perform faults fs change).1 = none) :
    fileAt (perform faults fs change).2 = applyChange (fileAt fs) change := by
  cases change with
  | unchanged p => rfl
  | delete p => exact fileAt_remove h
  | write p after verifyText =>
    have hparents : fileAt (mkdir fs p (faults (.mkdir p))).2 = fileAt fs := fileAt_mkdir
    unfold perform at h ⊢
    simp only at h ⊢
    generalize mkdir fs p (faults (.mkdir p)) = made at h hparents ⊢
    obtain ⟨message, fs₁⟩ := made
    cases message with
    | some message => cases h
    | none =>
      refine (fileAt_writeFile h).trans ?_
      rw [hparents]
      rfl

theorem applyChange_of_ne {files : Files} (h : q ≠ change.target) : applyChange files change q = files q := by
  cases change with
  | unchanged p => rfl
  | delete p => exact update_of_ne h _ _
  | write p after verifyText => exact update_of_ne h _ _

/-- **The loop over the changes** writes to attempted paths only, and does what they mean if it ends well. -/
theorem runChanges_files (faults : Faults) : ∀ (changes : List PendingChange) (attempted : List Path) (fs : FileSystem),
    let run := runChanges faults changes attempted fs
    (∀ q ∈ attempted, q ∈ run.2.1) ∧ (∀ q ∈ run.2.1, q ∈ attempted ∨ q ∈ changes.map (·.target)) ∧
      (∀ q, q ∉ run.2.1 → fileAt run.2.2 q = fileAt fs q) ∧
      (run.1 = none → fileAt run.2.2 = changes.foldl applyChange (fileAt fs))
  | [], attempted, fs => ⟨fun _ h => h, fun _ h => Or.inl h, fun _ _ => rfl, fun _ => rfl⟩
  | change :: changes, attempted, fs => by
    unfold runChanges
    cases habort : faults.message (.abortChange change.target) with
    | some message => exact ⟨fun _ h => h, fun _ h => Or.inl h, fun _ _ => rfl, by simp⟩
    | none =>
      generalize hattempted : (if change.target ∈ attempted then attempted else attempted ++ [change.target]) =
        attempted'
      have hgrows : ∀ q ∈ attempted, q ∈ attempted' := fun q hq => by
        rw [← hattempted]
        split_ifs
        · exact hq
        · exact mem_append_left _ hq
      have htarget : change.target ∈ attempted' := by
        rw [← hattempted]
        split_ifs with hmem
        · exact hmem
        · exact mem_append_right _ mem_cons_self
      have hback : ∀ q ∈ attempted', q ∈ attempted ∨ q = change.target := fun q hq => by
        rw [← hattempted] at hq
        split_ifs at hq
        · exact Or.inl hq
        · exact (mem_append.mp hq).imp_right mem_singleton.mp
      have hother : ∀ q, q ∉ attempted' → fileAt (perform faults fs change).2 q = fileAt fs q := fun q hq =>
        fileAt_perform_of_ne fun he => hq (he ▸ htarget)
      have hdone : (perform faults fs change).1 = none →
          fileAt (perform faults fs change).2 = applyChange (fileAt fs) change := fileAt_perform
      generalize perform faults fs change = result at hother hdone
      obtain ⟨error, fs₁⟩ := result
      cases error with
      | some message =>
        exact ⟨hgrows, fun q hq => (hback q hq).imp_right fun he => mem_cons.mpr (Or.inl he), hother, by simp⟩
      | none =>
        obtain ⟨hmore, hfrom, hsame, hall⟩ := runChanges_files faults changes attempted' fs₁
        refine ⟨fun q hq => hmore q (hgrows q hq), fun q hq => ?_, fun q hq => ?_, fun h => ?_⟩
        · rcases hfrom q hq with hq | hq
          · exact (hback q hq).imp_right fun he => mem_cons.mpr (Or.inl he)
          · exact Or.inr (mem_cons_of_mem _ hq)
        · exact (hsame q hq).trans (hother q fun hq' => hq (hmore q hq'))
        · rw [foldl_cons, ← hdone rfl]
          exact hall h

/-! ### The way back -/

theorem fileAt_restore_of_ne (h : q ≠ p) : fileAt (restore faults before p fs).2 q = fileAt fs q := by
  cases before with
  | none => exact fileAt_remove_of_ne h
  | some bytes =>
    have hparents : fileAt (mkdir fs p (faults (.restoreMkdir p))).2 q = fileAt fs q := by rw [fileAt_mkdir]
    unfold restore
    generalize mkdir fs p (faults (.restoreMkdir p)) = made at hparents ⊢
    obtain ⟨message, fs₁⟩ := made
    cases message with
    | some message => exact hparents
    | none => exact (fileAt_writeFile_of_ne h).trans hparents

theorem fileAt_restore (h : (restore faults before p fs).1 = none) :
    fileAt (restore faults before p fs).2 p = before := by
  cases before with
  | none => exact (congrFun (fileAt_remove h) p).trans (update_self _ _ _)
  | some bytes =>
    unfold restore at h ⊢
    generalize mkdir fs p (faults (.restoreMkdir p)) = made at h ⊢
    obtain ⟨message, fs₁⟩ := made
    cases message with
    | some message => cases h
    | none => exact (congrFun (fileAt_writeFile h) p).trans (update_self _ _ _)

/-- **The rollback** gives each path back what it had, or names it. -/
theorem rollback_files (faults : Faults) (initial : FileSystem) : ∀ (paths : List Path) (fs : FileSystem),
    let run := rollback faults initial paths fs
    (∀ q, q ∉ paths → fileAt run.2 q = fileAt fs q) ∧ ∀ q ∈ paths, q ∈ run.1 ∨ fileAt run.2 q = fileAt initial q
  | [], fs => ⟨fun _ _ => rfl, nofun⟩
  | p :: paths, fs => by
    unfold rollback
    have hother : ∀ q, q ≠ p → fileAt (restore faults (fileAt initial p) p fs).2 q = fileAt fs q :=
      fun q hq => fileAt_restore_of_ne hq
    have hback : (restore faults (fileAt initial p) p fs).1 = none →
        fileAt (restore faults (fileAt initial p) p fs).2 p = fileAt initial p := fileAt_restore
    generalize restore faults (fileAt initial p) p fs = result at hother hback
    obtain ⟨failure, fs₁⟩ := result
    obtain ⟨hsame, hrest⟩ := rollback_files faults initial paths fs₁
    simp only at hsame hrest ⊢
    refine ⟨fun q hq => ?_, fun q hq => ?_⟩
    · rw [mem_cons, not_or] at hq
      exact (hsame q hq.2).trans (hother q hq.1)
    · by_cases hmem : q ∈ paths
      · refine (hrest q hmem).imp_left fun hlisted => ?_
        split_ifs
        · exact mem_cons_of_mem _ hlisted
        · exact hlisted
      · obtain rfl : q = p := (mem_cons.mp hq).resolve_right hmem
        cases failure with
        | none => exact Or.inr ((hsame q hmem).trans (hback rfl))
        | some message => exact Or.inl mem_cons_self

/-! ### Plans -/

variable {op : PatchFileOperation Path} {ops : List (PatchFileOperation Path)} {files : Files}

theorem throwFault_eq_ok {site : Site} {u : Unit} : throwFault faults site = .ok u ↔ faults site = none := by
  unfold throwFault
  cases faults site <;> simp

theorem readSnapshot_eq_ok {b : Option Bytes} (h : readSnapshot faults fs p = .ok b) :
    b = fileAt fs p ∧ fs p ≠ some .directory := by
  obtain ⟨-, -, h⟩ := bind_eq_ok.mp h
  unfold fileAt
  cases hnode : fs p with
  | none =>
    rw [hnode] at h
    cases h
    exact ⟨rfl, nofun⟩
  | some node =>
    rw [hnode] at h
    cases node with
    | file bytes =>
      cases h
      exact ⟨rfl, nofun⟩
    | directory => cases h

/-- What the plan of an operation is, and what it has found. -/
inductive Planned (codec : Codec) (fs : FileSystem) : PatchFileOperation Path → List PendingChange → Prop
  | add (p : Path) (line : ℕ) (lines : List String) (hnew : fs p = none) :
      Planned codec fs (.add p line lines)
        [.write p (codec.encode (linesToText lines "\n")) (linesToText lines "\n")]
  | delete (p : Path) (line : ℕ) (bytes : Bytes) (decoded : DecodedText) (hold : fileAt fs p = some bytes)
      (hdecoded : decodeText codec bytes p.text = .ok decoded) : Planned codec fs (.delete p line) [.delete p]
  | move (p : Path) (line : ℕ) (target : Path) (targetLine : ℕ) (hunks : List PatchHunk) (bytes after : Bytes)
      (hold : fileAt fs p = some bytes) (hafter : updatedBytes codec p bytes hunks = .ok after)
      (hnew : fs target = none) : Planned codec fs (.update p line (some (target, targetLine)) hunks)
        [.write target after (codec.toText after), .delete p]
  | same (p : Path) (line : ℕ) (hunks : List PatchHunk) (bytes : Bytes)
      (hold : fileAt fs p = some bytes) (hafter : updatedBytes codec p bytes hunks = .ok bytes) :
      Planned codec fs (.update p line none hunks) [.unchanged p]
  | update (p : Path) (line : ℕ) (hunks : List PatchHunk) (bytes after : Bytes)
      (hold : fileAt fs p = some bytes) (hafter : updatedBytes codec p bytes hunks = .ok after) :
      Planned codec fs (.update p line none hunks) [.write p after (codec.toText after)]

theorem eq_none_of_fileAt (hfile : fileAt fs p = none) (hdir : fs p ≠ some .directory) : fs p = none := by
  unfold fileAt at hfile
  cases hnode : fs p with
  | none => rfl
  | some node =>
    rw [hnode] at hfile
    cases node with
    | file bytes => cases hfile
    | directory => exact absurd hnode hdir

theorem planned_of_ok (h : planOperation codec faults fs op = .ok changes) : Planned codec fs op changes := by
  obtain ⟨-, -, h⟩ := bind_eq_ok.mp h
  obtain ⟨-, -, h⟩ := bind_eq_ok.mp h
  obtain ⟨source, hsource, h⟩ := bind_eq_ok.mp h
  obtain ⟨hsource, hdir⟩ := readSnapshot_eq_ok hsource
  cases op with
  | add p line lines =>
    obtain ⟨_, hnone, h⟩ := bind_eq_ok.mp h
    cases h
    have hnew : source = none := by
      simpa using hnone
    rw [hsource] at hnew
    exact .add p line lines (eq_none_of_fileAt hnew hdir)
  | delete p line =>
    cases hbytes : source with
    | none =>
      rw [hbytes] at h
      cases h
    | some bytes =>
      rw [hbytes] at h
      obtain ⟨decoded, hdecoded, h⟩ := bind_eq_ok.mp h
      cases h
      exact .delete p line bytes decoded (hsource.symm.trans hbytes) hdecoded
  | update p line moveTo hunks =>
    cases hbytes : source with
    | none =>
      rw [hbytes] at h
      cases h
    | some bytes =>
      rw [hbytes] at h
      have hold : fileAt fs p = some bytes := hsource.symm.trans hbytes
      obtain ⟨after, hafter, h⟩ := bind_eq_ok.mp h
      cases moveTo with
      | none =>
        by_cases hsame : after = bytes
        · rw [if_pos hsame] at h
          cases h
          exact .same p line hunks bytes hold (hsame ▸ hafter)
        · rw [if_neg hsame] at h
          cases h
          exact .update p line hunks bytes after hold hafter
      | some moveTo =>
        obtain ⟨target, targetLine⟩ := moveTo
        obtain ⟨destination, hdestination, h⟩ := bind_eq_ok.mp h
        obtain ⟨hdestination, htarget⟩ := readSnapshot_eq_ok hdestination
        obtain ⟨_, hnone, h⟩ := bind_eq_ok.mp h
        cases h
        have hnew : fileAt fs target = none := by
          rw [throwIf_eq_ok, hdestination] at hnone
          simpa using hnone
        exact .move p line target targetLine hunks bytes after hold hafter (eq_none_of_fileAt hnew htarget)

theorem Planned.target_mem (h : Planned codec fs op changes) : ∀ c ∈ changes, c.target ∈ op.named := by
  intro c hc
  cases h with
  | move p line target targetLine hunks bytes after =>
    simp only [mem_cons, not_mem_nil, or_false] at hc
    rcases hc with rfl | rfl
    · exact mem_cons_of_mem _ mem_cons_self
    · exact mem_cons_self
  | _ =>
    cases mem_singleton.mp hc
    exact mem_cons_self

theorem fileAt_of_none (h : fs p = none) : fileAt fs p = none := by
  unfold fileAt
  rw [h]

theorem Planned.apply (h : Planned codec fs op changes) (hsame : ∀ q ∈ op.named, files q = fileAt fs q) :
    applyOperation codec files op = some (changes.foldl applyChange files) := by
  cases h with
  | add p line lines hnew =>
    have hp : files p = none := (hsame p mem_cons_self).trans (fileAt_of_none hnew)
    unfold applyOperation
    simp only
    rw [if_pos hp]
    rfl
  | delete p line bytes decoded hold hdecoded =>
    have hp : files p = some bytes := (hsame p mem_cons_self).trans hold
    unfold applyOperation
    simp only [hp, hdecoded]
    rfl
  | move p line target targetLine hunks bytes after hold hafter hnew =>
    have hp : files p = some bytes := (hsame p mem_cons_self).trans hold
    have htarget : files target = none :=
      (hsame target (mem_cons_of_mem _ mem_cons_self)).trans (fileAt_of_none hnew)
    unfold applyOperation
    simp only [hp, hafter]
    rw [if_pos htarget]
    rfl
  | same p line hunks bytes hold hafter =>
    have hp : files p = some bytes := (hsame p mem_cons_self).trans hold
    unfold applyOperation
    simp only [hp, hafter]
    rw [← hp, update_eq_self]
    rfl
  | update p line hunks bytes after hold hafter =>
    have hp : files p = some bytes := (hsame p mem_cons_self).trans hold
    unfold applyOperation
    simp only [hp, hafter]
    rfl

theorem foldl_applyChange_of_ne : ∀ {changes : List PendingChange} {files : Files},
    (∀ c ∈ changes, q ≠ c.target) → changes.foldl applyChange files q = files q
  | [], _, _ => rfl
  | c :: changes, files, h => by
    obtain ⟨hc, h⟩ := forall_mem_cons.mp h
    rw [foldl_cons, foldl_applyChange_of_ne h, applyChange_of_ne hc]

def PlannedAll (codec : Codec) (fs : FileSystem) : List (PatchFileOperation Path) → List (List PendingChange) →
    Prop := List.Forall₂ (Planned codec fs)

theorem PlannedAll.apply : ∀ {ops : List (PatchFileOperation Path)} {plans : List (List PendingChange)}
    {files : Files}, PlannedAll codec fs ops plans → (ops.flatMap (·.named)).Nodup →
      (∀ q ∈ ops.flatMap (·.named), files q = fileAt fs q) →
        applyAll codec ops files = some (plans.flatten.foldl applyChange files)
  | _, _, files, .nil, _, _ => rfl
  | op :: ops, changes :: plans, files, .cons h hrest, hnodup, hsame => by
    rw [flatMap_cons, nodup_append] at hnodup
    obtain ⟨-, hnodup, hapart⟩ := hnodup
    have hsame' : ∀ q ∈ op.named, files q = fileAt fs q := fun q hq =>
      hsame q (mem_flatMap.mpr ⟨op, mem_cons_self, hq⟩)
    unfold applyAll
    rw [foldlM_cons, h.apply hsame', flatten_cons, foldl_append]
    refine PlannedAll.apply hrest hnodup fun q hq => ?_
    have hout : ∀ c ∈ changes, q ≠ c.target := fun c hc he =>
      hapart c.target (h.target_mem c hc) q hq he.symm
    rw [foldl_applyChange_of_ne hout]
    obtain ⟨op', hop', hq'⟩ := mem_flatMap.mp hq
    exact hsame q (mem_flatMap.mpr ⟨op', mem_cons_of_mem _ hop', hq'⟩)

theorem planned_changes (h : planOperations codec faults fs ops = .ok changes) :
    ∃ plans, changes = plans.flatten ∧ PlannedAll codec fs ops plans := by
  obtain ⟨-, -, h⟩ := bind_eq_ok.mp h
  obtain ⟨plans, hplans, h⟩ := bind_eq_ok.mp h
  obtain ⟨-, -, h⟩ := bind_eq_ok.mp h
  cases h
  exact ⟨plans, rfl, (mapM_eq_ok.mp hplans).imp fun _ _ => planned_of_ok⟩

/-! ### Applying -/

theorem foldl_filter_actionable : ∀ (changes : List PendingChange) (files : Files),
    (changes.filter (·.isActionable)).foldl applyChange files = changes.foldl applyChange files
  | [], _ => rfl
  | c :: changes, files => by
    cases c with
    | unchanged p => exact foldl_filter_actionable changes files
    | delete p => exact foldl_filter_actionable changes _
    | write p after verifyText => exact foldl_filter_actionable changes _

/-- What is known of the files for each result. -/
inductive ResultOf (changes : List PendingChange) (fs : FileSystem) : PatchResult × FileSystem → Prop
  | refused (message : String) : ResultOf changes fs (.refused message, fs)
  | noChanges (hnone : changes.filter (·.isActionable) = []) : ResultOf changes fs (.noChanges, fs)
  | applied (after : FileSystem) (hafter : fileAt after = changes.foldl applyChange (fileAt fs)) :
      ResultOf changes fs (.applied, after)
  | failed (message : String) (failures : List Path) (after : FileSystem)
      (hback : ∀ q, q ∈ failures ∨ fileAt after q = fileAt fs q)
      (hother : ∀ q, q ∉ changes.map (·.target) → fileAt after q = fileAt fs q) :
      ResultOf changes fs (.failed message failures, after)

theorem files_of_run (codec : Codec) (faults : Faults) (fs : FileSystem) (changes : List PendingChange) :
    ResultOf changes fs (applyChanges codec faults fs changes) := by
  unfold applyChanges
  simp only
  by_cases hnone : changes.filter (·.isActionable) = []
  · rw [if_pos hnone]
    split
    · exact .noChanges hnone
    · exact .refused _
    · exact .refused _
    · exact .refused _
  rw [if_neg hnone]
  obtain ⟨-, hfrom, hsame, hdone⟩ := runChanges_files faults (changes.filter (·.isActionable)) [] fs
  generalize runChanges faults (changes.filter (·.isActionable)) [] fs = run at hfrom hsame hdone ⊢
  obtain ⟨error, attempted, after⟩ := run
  have hfailed : ∀ message, ResultOf changes fs
      (.failed message (rollback faults fs attempted.reverse after).1,
        (rollback faults fs attempted.reverse after).2) := by
    intro message
    obtain ⟨hrest, hback⟩ := rollback_files faults fs attempted.reverse after
    have hinitial : ∀ q, q ∉ attempted → fileAt (rollback faults fs attempted.reverse after).2 q = fileAt fs q :=
      fun q hq => (hrest q fun hmem => hq (mem_reverse.mp hmem)).trans (hsame q hq)
    refine .failed message _ _ (fun q => ?_) fun q hq => ?_
    · by_cases hq : q ∈ attempted
      · exact hback q (mem_reverse.mpr hq)
      · exact Or.inr (hinitial q hq)
    · refine hinitial q fun hmem => hq ?_
      obtain ⟨c, hc, rfl⟩ := mem_map.mp ((hfrom q hmem).resolve_left not_mem_nil)
      exact mem_map_of_mem (mem_filter.mp hc).1
  cases error with
  | some message => exact hfailed message
  | none =>
    cases verifyAll codec faults after (changes.filter (·.isActionable)) (changes.any fun c => !c.isActionable) with
    | error message => exact hfailed message
    | ok u => exact .applied after ((hdone rfl).trans (foldl_filter_actionable changes _))

end Changes

end Memmy.Tools
