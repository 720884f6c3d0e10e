import Memmy.Tools.PatchOrder

/-! # Applying a patch: the result

* `room_of_plan`: the checks of a plan leave room for its changes.
* `applied_iff`: when the changes are applied, which says nothing of their order.
* `execute_all_or_nothing`: the files after a patch, in any order of its operations. -/

namespace Memmy.Tools

open Lib.Result List Function

section Plans
variable {codec : Codec} {faults : Faults} {fs : FileSystem} {workspace : List String}
  {op : PatchFileOperation Path} {ops ops' : List (PatchFileOperation Path)} {p q : Path} {after : Bytes}
  {text : String} {changes changes' : List PendingChange} {plans : List (List PendingChange)}
variable {named : List (PatchFileOperation Path)}

/-! ### Room for a plan -/

theorem fileAt_of_walk (hfs : WellFormed fs) : ∀ {segments t : List String} {current : Path},
    parentsAreDirectories fs current segments = true → t <+: segments → t ≠ [] → t ≠ segments →
      fileAt fs (current ++ t) = none
  | [], t, _, _, ht, hnil, _ => absurd (prefix_nil.mp ht) hnil
  | [_], [], _, _, _, hnil, _ => absurd rfl hnil
  | [s], s₁ :: t, _, _, ht, _, hne => by
    obtain ⟨rfl, htail⟩ := cons_prefix_cons.mp ht
    exact absurd (congrArg (s₁ :: ·) (prefix_nil.mp htail)) hne
  | s :: s' :: rest, [], _, _, _, hnil, _ => absurd rfl hnil
  | s :: s' :: rest, s₁ :: t, current, hwalk, ht, _, hne => by
    obtain ⟨rfl, htail⟩ := cons_prefix_cons.mp ht
    have hne' : t ≠ s' :: rest := fun h => hne (by rw [h])
    have hpath : current ++ s₁ :: t = (current ++ [s₁]) ++ t := by rw [append_assoc]; rfl
    rw [hpath]
    unfold parentsAreDirectories at hwalk
    cases hnode : fs (current ++ [s₁]) with
    | none =>
      -- below what is absent there is nothing
      refine fileAt_of_none (by_contra fun hsome => ?_)
      by_cases hnil : t = []
      · rw [hnil, append_nil] at hsome
        exact hsome hnode
      · have hmem : current ++ [s₁] ∈ properPrefixes ((current ++ [s₁]) ++ t) :=
          mem_properPrefixes.mpr ⟨prefix_append _ _, by simp, by simpa using Ne.symm hnil⟩
        rw [hfs _ _ hmem hsome] at hnode
        cases hnode
    | some node =>
      rw [hnode] at hwalk
      cases node with
      | file bytes => cases hwalk
      | directory =>
        by_cases hnil : t = []
        · rw [hnil, append_nil]
          exact fileAt_of_directory hnode
        · exact fileAt_of_walk hfs hwalk htail hnil hne'

theorem fileAt_of_parents (hfs : WellFormed fs) (h : parentsAreDirectories fs [] p = true)
    (hq : q ∈ properPrefixes p) : fileAt fs q = none := by
  obtain ⟨hbeginning, hnil, hne⟩ := mem_properPrefixes.mp hq
  exact fileAt_of_walk hfs h hbeginning hnil hne

theorem Planned.targets (h : Planned codec fs op changes) : (changes.map (·.target)).Perm op.named := by
  cases h with
  | move p line target targetLine hunks bytes after => exact .swap _ _ _
  | _ => exact .refl _

theorem PlannedAll.targets : ∀ {ops : List (PatchFileOperation Path)} {plans : List (List PendingChange)},
    PlannedAll codec fs ops plans → (plans.flatten.map (·.target)).Perm (ops.flatMap (·.named))
  | _, _, .nil => .refl _
  | op :: ops, changes :: plans, .cons h hrest => by
    rw [flatten_cons, map_append, flatMap_cons]
    exact h.targets.append (PlannedAll.targets hrest)

theorem PlannedAll.mem : ∀ {ops : List (PatchFileOperation Path)} {plans : List (List PendingChange)}
    {change : PendingChange}, PlannedAll codec fs ops plans → change ∈ plans.flatten →
      ∃ op ∈ ops, ∃ changes, Planned codec fs op changes ∧ change ∈ changes
  | _, _, _, .nil, hc => by cases hc
  | op :: ops, changes :: plans, change, .cons h hrest, hc => by
    rw [flatten_cons, mem_append] at hc
    rcases hc with hc | hc
    · exact ⟨op, mem_cons_self, changes, h, hc⟩
    · obtain ⟨op', hop', rest⟩ := PlannedAll.mem hrest hc
      exact ⟨op', mem_cons_of_mem _ hop', rest⟩

theorem Planned.write (h : Planned codec fs op changes) (hc : .write p after text ∈ changes) :
    (fs p = none ∧ ∃ line, op.finalTarget = some (p, line)) ∨ ∃ bytes, fileAt fs p = some bytes := by
  cases h with
  | add p line lines hnew =>
    cases mem_singleton.mp hc
    exact Or.inl ⟨hnew, line, rfl⟩
  | delete => cases mem_singleton.mp hc
  | move p line target targetLine hunks bytes after hold hafter hnew =>
    simp only [mem_cons, not_mem_nil, or_false, reduceCtorEq] at hc
    cases hc
    exact Or.inl ⟨hnew, targetLine, rfl⟩
  | same => cases mem_singleton.mp hc
  | update p line hunks bytes after hold hafter =>
    cases mem_singleton.mp hc
    exact Or.inr ⟨bytes, hold⟩

theorem Planned.delete_mem (h : Planned codec fs op changes) (hc : .delete p ∈ changes) : fileAt fs p ≠ none := by
  cases h with
  | delete p line bytes decoded hold =>
    cases mem_singleton.mp hc
    rw [hold]
    exact Option.some_ne_none _
  | move p line target targetLine hunks bytes after hold hafter hnew =>
    simp only [mem_cons, not_mem_nil, or_false, reduceCtorEq, false_or] at hc
    cases hc
    rw [hold]
    exact Option.some_ne_none _
  | add => cases mem_singleton.mp hc
  | same => cases mem_singleton.mp hc
  | update => cases mem_singleton.mp hc

/-- **A plan leaves room** for its changes. -/
theorem room_of_plan (hfs : WellFormed fs) (hplan : PlannedAll codec fs ops plans) (hops : Conflictless ops)
    (hwalk : ∀ op ∈ ops, ∀ p ∈ op.named, parentsAreDirectories fs [] p = true) :
    Room fs (plans.flatten.filter (·.isActionable)) := by
  have hof : ∀ c ∈ plans.flatten.filter (·.isActionable), ∃ op ∈ ops, ∃ changes,
      Planned codec fs op changes ∧ c ∈ changes := fun c hc => hplan.mem (mem_filter.mp hc).1
  have habove : ∀ c ∈ plans.flatten.filter (·.isActionable), ∀ q ∈ properPrefixes c.target,
      fileAt fs q = none := by
    intro c hc q hq
    obtain ⟨op, hop, changes, hplanned, hc⟩ := hof c hc
    exact fileAt_of_parents hfs (hwalk op hop _ (hplanned.target_mem c hc)) hq
  refine ⟨?_, fun p after text hc => ⟨habove _ hc, ?_⟩, fun p hc => ?_, fun p after text q after' text' hp hq hmem => ?_⟩
  · have hnodup := hplan.targets.nodup_iff.mpr hops.named
    exact hnodup.sublist (filter_sublist.map _)
  · obtain ⟨op, hop, changes, hplanned, hc⟩ := hof _ hc
    rcases hplanned.write hc with ⟨hnone, -⟩ | ⟨bytes, hbytes⟩
    · rw [hnone]
      exact nofun
    · rw [node_of_fileAt hbytes]
      exact nofun
  · obtain ⟨op, hop, changes, hplanned, hc⟩ := hof _ hc
    exact hplanned.delete_mem hc
  · have hnone := habove _ hq p hmem
    obtain ⟨op, hop, changes, hplanned, hc⟩ := hof _ hp
    obtain ⟨op', hop', changes', hplanned', hc'⟩ := hof _ hq
    rcases hplanned.write hc with ⟨habsent, line, hfinal⟩ | ⟨bytes, hbytes⟩
    · rcases hplanned'.write hc' with ⟨habsent', line', hfinal'⟩ | ⟨bytes', hbytes'⟩
      · -- both are new: the third loop has refused them
        have hne : (p, line) ≠ (q, line') := fun he =>
          (mem_properPrefixes.mp hmem).2.2 (congrArg Prod.fst he)
        have hsymm : Std.Symm fun a b : Path × ℕ => Apart a.1 b.1 := ⟨fun _ _ h => ⟨h.2, h.1⟩⟩
        have hapart := hops.finals.forall (mem_filterMap.mpr ⟨op, hop, hfinal⟩)
          (mem_filterMap.mpr ⟨op', hop', hfinal'⟩) hne
        exact Bool.noConfusion ((isAncestorPath_of_mem hmem).symm.trans hapart.1)
      · have hdirectory := hfs q p hmem (by rw [node_of_fileAt hbytes']; exact Option.some_ne_none _)
        rw [habsent] at hdirectory
        cases hdirectory
    · rw [hnone] at hbytes
      cases hbytes

/-! ### When a plan is applied -/

/-- No fault stands in the way of a plan. -/
structure Applies (codec : Codec) (faults : Faults) (changes : List PendingChange) : Prop where
  done : ∀ c ∈ changes.filter (·.isActionable), Makes faults c ∧ Verifies codec faults c
  beforeLint : faults .abortLint = none
  lint : faults .lint = none
  afterLint : faults .abortLinted = none
  report : (∃ c ∈ changes, c.isActionable = false) → faults .report = none

theorem Applies.perm (h : Applies codec faults changes) (hperm : changes.Perm changes') :
    Applies codec faults changes' where
  done c hc := h.done c ((hperm.filter _).mem_iff.mpr hc)
  beforeLint := h.beforeLint
  lint := h.lint
  afterLint := h.afterLint
  report := fun ⟨c, hc, hsame⟩ => h.report ⟨c, hperm.mem_iff.mpr hc, hsame⟩

theorem verifyAll_ok (codec : Codec) (faults : Faults) (hroom : Room fs changes) (reports : Bool) :
    verifyAll codec faults (changes.foldl made fs) changes reports = .ok () ↔
      (∀ c ∈ changes, Verifies codec faults c) ∧ faults .abortLint = none ∧ faults .lint = none ∧
        faults .abortLinted = none ∧ (reports = true → faults .report = none) := by
  unfold verifyAll
  have hall : changes.forM (verifyChange codec faults (changes.foldl made fs)) = .ok () ↔
      ∀ c ∈ changes, Verifies codec faults c := forM_eq_ok.trans
    ⟨fun h c hc => (verifyChange_ok hroom hc).mp (h c hc), fun h c hc => (verifyChange_ok hroom hc).mpr (h c hc)⟩
  have hreport : (if reports then throwFault faults .report else return ()) = .ok () ↔
      (reports = true → faults .report = none) := by
    cases reports with
    | false => simp
    | true => simp [throwFault_eq_ok]
  simp only [bind_eq_ok, throwFault_eq_ok, ← hall, ← hreport]
  constructor
  · rintro ⟨_, hfor, _, hbefore, _, hlint, _, hafter, hlast⟩
    exact ⟨hfor, hbefore, hlint, hafter, hlast⟩
  · rintro ⟨hfor, hbefore, hlint, hafter, hlast⟩
    exact ⟨_, hfor, (), hbefore, (), hlint, (), hafter, hlast⟩

/-- **When the changes are applied**, whatever their order. -/
theorem applied_iff (hroom : Room fs (changes.filter (·.isActionable))) :
    (applyChanges codec faults fs changes).1 = .applied ↔
      changes.filter (·.isActionable) ≠ [] ∧ Applies codec faults changes := by
  unfold applyChanges
  simp only
  by_cases hnone : changes.filter (·.isActionable) = []
  · rw [if_pos hnone]
    refine ⟨fun h => ?_, fun h => absurd hnone h.1⟩
    split at h <;> cases h
  rw [if_neg hnone]
  obtain ⟨hmade, hfiles⟩ := runChanges_ok (changes.filter (·.isActionable)) [] fs hroom
  generalize runChanges faults (changes.filter (·.isActionable)) [] fs = run at hmade hfiles ⊢
  obtain ⟨error, attempted, after⟩ := run
  cases error with
  | some message =>
    refine ⟨nofun, fun h => ?_⟩
    cases hmade.mpr fun c hc => (h.2.done c hc).1
  | none =>
    have hall := hmade.mp rfl
    rw [hfiles hall]
    have hverify := verifyAll_ok codec faults hroom (changes.any fun c => !c.isActionable)
    have hreport : ((changes.any fun c => !c.isActionable) = true → faults .report = none) ↔
        ((∃ c ∈ changes, c.isActionable = false) → faults .report = none) := by
      rw [any_eq_true]
      simp only [Bool.not_eq_true']
    generalize verifyAll codec faults ((changes.filter (·.isActionable)).foldl made fs)
      (changes.filter (·.isActionable)) (changes.any fun c => !c.isActionable) = verified at hverify ⊢
    cases verified with
    | error message =>
      refine ⟨nofun, fun h => ?_⟩
      cases hverify.mpr ⟨fun c hc => (h.2.done c hc).2, h.2.beforeLint, h.2.lint, h.2.afterLint,
        hreport.mpr h.2.report⟩
    | ok u =>
      obtain ⟨hfound, hbefore, hlint, hafter, hrep⟩ := hverify.mp rfl
      exact ⟨fun _ => ⟨hnone, fun c hc => ⟨hall c hc, hfound c hc⟩, hbefore, hlint, hafter, hreport.mp hrep⟩,
        fun _ => rfl⟩

/-! ### Other orders -/

theorem foldl_applyChange_perm (hperm : changes.Perm changes') (hnodup : (changes.map (·.target)).Nodup)
    (files : Files) : changes.foldl applyChange files = changes'.foldl applyChange files := by
  refine hperm.foldl_eq' (fun c hc d hd z => ?_) files
  by_cases he : c.target = d.target
  · rw [inj_on_of_nodup_map hnodup hc hd he]
  · cases c with
    | unchanged p => rfl
    | delete p =>
      cases d with
      | unchanged q => rfl
      | delete q => exact update_comm he _ _ _
      | write q after text => exact update_comm he _ _ _
    | write p after text =>
      cases d with
      | unchanged q => rfl
      | delete q => exact update_comm he _ _ _
      | write q after' text' => exact update_comm he _ _ _

theorem normalizeOperations_perm {ops ops' : List (PatchFileOperation String)} (hperm : ops.Perm ops')
    (h : normalizeOperations workspace fs ops = .ok named) :
    ∃ named', normalizeOperations workspace fs ops' = .ok named' ∧ named.Perm named' := by
  obtain ⟨normalized, hnormalized, h⟩ := bind_eq_ok.mp h
  obtain ⟨⟨⟩, hvalid, h⟩ := bind_eq_ok.mp h
  cases h
  obtain ⟨named', hnamed', hperm'⟩ := mapM_perm hperm hnormalized
  refine ⟨named', bind_eq_ok.mpr ⟨named', hnamed', bind_eq_ok.mpr ⟨(), ?_, rfl⟩⟩, hperm'⟩
  exact validate_eq_ok.mpr ((validate_eq_ok.mp hvalid).perm hperm')

theorem conflictless_of_normalize {ops : List (PatchFileOperation String)}
    (h : normalizeOperations workspace fs ops = .ok named) : Conflictless named := by
  obtain ⟨normalized, hnormalized, h⟩ := bind_eq_ok.mp h
  obtain ⟨⟨⟩, hvalid, h⟩ := bind_eq_ok.mp h
  cases h
  exact validate_eq_ok.mp hvalid

theorem walks_of_plan (h : planOperations codec faults fs ops = .ok changes) :
    ∀ op ∈ ops, ∀ p ∈ op.named, parentsAreDirectories fs [] p = true := by
  obtain ⟨u, hany, -⟩ := bind_eq_ok.mp h
  rw [throwIf_eq_ok] at hany
  intro op hop p hp
  by_contra hfalse
  rw [Bool.not_eq_true] at hfalse
  refine hany (any_eq_true.mpr ⟨op, hop, any_eq_true.mpr ⟨p, hp, ?_⟩⟩)
  rw [hfalse]
  rfl

theorem planOperations_perm (hperm : ops.Perm ops') (h : planOperations codec faults fs ops = .ok changes) :
    ∃ changes', planOperations codec faults fs ops' = .ok changes' ∧ changes.Perm changes' := by
  have hwalk := walks_of_plan h
  obtain ⟨-, -, h⟩ := bind_eq_ok.mp h
  obtain ⟨plans, hplans, h⟩ := bind_eq_ok.mp h
  obtain ⟨u, hfault, h⟩ := bind_eq_ok.mp h
  cases h
  obtain ⟨plans', hplans', hperm'⟩ := mapM_perm hperm hplans
  refine ⟨plans'.flatten, bind_eq_ok.mpr ⟨(), ?_, bind_eq_ok.mpr ⟨plans', hplans', bind_eq_ok.mpr
    ⟨u, hfault, rfl⟩⟩⟩, hperm'.flatten⟩
  rw [throwIf_eq_ok]
  intro hany
  obtain ⟨op, hop, hany⟩ := any_eq_true.mp hany
  obtain ⟨p, hp, hfalse⟩ := any_eq_true.mp hany
  rw [hwalk op (hperm.mem_iff.mpr hop) p hp] at hfalse
  cases hfalse

end Plans

/-! ### The tool -/

section Tool
variable {codec : Codec} {faults : Faults} {fs : FileSystem} {workspace : List String}
  {ops ops' : List (PatchFileOperation String)} {changes : List PendingChange} {q : Path}
variable {result : PatchResult × FileSystem}

structure Accepted (codec : Codec) (faults : Faults) (workspace : List String) (fs : FileSystem)
    (ops : List (PatchFileOperation String)) (changes : List PendingChange) where
  named : List (PatchFileOperation Path)
  normalized : normalizeOperations workspace fs ops = .ok named
  planned : planOperations codec faults fs named = .ok changes

theorem Accepted.execute (h : Accepted codec faults workspace fs ops changes) :
    execute codec faults workspace ops fs = applyChanges codec faults fs changes := by
  unfold Tools.execute
  rw [h.normalized]
  simp only [h.planned]

theorem refused_or_accepted (codec : Codec) (faults : Faults) (workspace : List String) (fs : FileSystem)
    (ops : List (PatchFileOperation String)) :
    (∃ message, execute codec faults workspace ops fs = (.refused message, fs)) ∨
      ∃ changes, Nonempty (Accepted codec faults workspace fs ops changes) := by
  unfold execute
  cases hnormalized : normalizeOperations workspace fs ops with
  | error message => exact Or.inl ⟨message, rfl⟩
  | ok named =>
    cases hplanned : planOperations codec faults fs named with
    | error message => exact Or.inl ⟨message, by simp only [hplanned]⟩
    | ok changes => exact Or.inr ⟨changes, ⟨named, hnormalized, hplanned⟩⟩

section
variable (h : Accepted codec faults workspace fs ops changes)
include h

theorem Accepted.perm (hperm : ops.Perm ops') :
    ∃ changes', Nonempty (Accepted codec faults workspace fs ops' changes') ∧ changes.Perm changes' := by
  obtain ⟨named', hnormalized, hnamed⟩ := normalizeOperations_perm hperm h.normalized
  obtain ⟨changes', hplanned, hchanges⟩ := planOperations_perm hnamed h.planned
  exact ⟨changes', ⟨named', hnormalized, hplanned⟩, hchanges⟩

/-- What an accepted patch has made sure of. -/
theorem Accepted.facts :
    (changes.map (·.target)).Perm (h.named.flatMap (·.named)) ∧ (changes.map (·.target)).Nodup ∧
      applyAll codec h.named (fileAt fs) = some (changes.foldl applyChange (fileAt fs)) := by
  have hnamed := (conflictless_of_normalize h.normalized).named
  obtain ⟨plans, rfl, hplans⟩ := planned_changes h.planned
  exact ⟨hplans.targets, hplans.targets.nodup_iff.mpr hnamed, hplans.apply hnamed fun _ _ => rfl⟩

theorem Accepted.room (hfs : WellFormed fs) : Room fs (changes.filter (·.isActionable)) := by
  have hwalk := walks_of_plan h.planned
  obtain ⟨plans, rfl, hplans⟩ := planned_changes h.planned
  exact room_of_plan hfs hplans (conflictless_of_normalize h.normalized) hwalk

end

theorem ResultOf.of_not_target (h : ResultOf changes fs result)
    (hq : q ∉ changes.map (·.target)) : fileAt result.2 q = fileAt fs q := by
  cases h with
  | refused message => rfl
  | noChanges hnone => rfl
  | applied after hafter =>
    rw [hafter]
    exact foldl_applyChange_of_ne fun c hc he => hq (mem_map.mpr ⟨c, hc, he.symm⟩)
  | failed message failures after hback hother => exact hother q hq

theorem ResultOf.of_applied (h : ResultOf changes fs result)
    (happlied : result.1 = .applied ∨ result.1 = .noChanges) :
    fileAt result.2 = changes.foldl applyChange (fileAt fs) := by
  cases h with
  | refused message => rcases happlied with h | h <;> cases h
  | noChanges hnone =>
    rw [← foldl_filter_actionable, hnone]
    rfl
  | applied after hafter => exact hafter
  | failed message failures after => rcases happlied with h | h <;> cases h

theorem files_of_not_applied (codec : Codec) (faults : Faults) (workspace : List String) (fs : FileSystem)
    (ops : List (PatchFileOperation String)) (hnot : (execute codec faults workspace ops fs).1 ≠ .applied)
    (q : Path) : q ∈ (execute codec faults workspace ops fs).1.rollbackFailures ∨
      fileAt (execute codec faults workspace ops fs).2 q = fileAt fs q := by
  rcases refused_or_accepted codec faults workspace fs ops with ⟨message, he⟩ | ⟨changes, ⟨haccepted⟩⟩
  · rw [he]
    exact Or.inr rfl
  · rw [haccepted.execute] at hnot ⊢
    cases hresult : applyChanges codec faults fs changes with
    | mk result after =>
      rw [hresult] at hnot
      have hof := files_of_run codec faults fs changes
      rw [hresult] at hof
      cases hof with
      | refused message => exact Or.inr rfl
      | noChanges hnone => exact Or.inr rfl
      | applied after hafter => exact absurd rfl hnot
      | failed message failures after hback hother => exact hback q

theorem files_of_applied (codec : Codec) (faults : Faults) (workspace : List String) (fs : FileSystem)
    (ops : List (PatchFileOperation String))
    (happlied : (execute codec faults workspace ops fs).1 = .applied ∨
      (execute codec faults workspace ops fs).1 = .noChanges) :
    ∃ named, normalizeOperations workspace fs ops = .ok named ∧
      applyAll codec named (fileAt fs) = some (fileAt (execute codec faults workspace ops fs).2) := by
  rcases refused_or_accepted codec faults workspace fs ops with ⟨message, he⟩ | ⟨changes, ⟨haccepted⟩⟩
  · rw [he] at happlied
    rcases happlied with h | h <;> cases h
  · rw [haccepted.execute] at happlied ⊢
    refine ⟨haccepted.named, haccepted.normalized, ?_⟩
    rw [haccepted.facts.2.2, (files_of_run codec faults fs changes).of_applied happlied]

theorem files_of_not_named (codec : Codec) (faults : Faults)
    (hnamed : normalizeOperations workspace fs ops = .ok named) (hq : q ∉ named.flatMap (·.named)) :
    fileAt (execute codec faults workspace ops fs).2 q = fileAt fs q := by
  rcases refused_or_accepted codec faults workspace fs ops with ⟨message, he⟩ | ⟨changes, ⟨haccepted⟩⟩
  · rw [he]
  · rw [haccepted.execute]
    refine (files_of_run codec faults fs changes).of_not_target fun hmem => hq ?_
    have hmem' := haccepted.facts.1.mem_iff.mp hmem
    rwa [Except.ok.inj (haccepted.normalized.symm.trans hnamed)] at hmem'

/-- In another order a patch is applied in the same cases, and makes the same changes. -/
theorem applied_perm (codec : Codec) (faults : Faults) (workspace : List String) (hfs : WellFormed fs)
    (hperm : ops.Perm ops') :
    ((execute codec faults workspace ops' fs).1 = .applied ↔ (execute codec faults workspace ops fs).1 = .applied) ∧
      ((execute codec faults workspace ops fs).1 = .applied →
        fileAt (execute codec faults workspace ops' fs).2 = fileAt (execute codec faults workspace ops fs).2) := by
  by_cases haccepted : ∃ changes, Nonempty (Accepted codec faults workspace fs ops changes)
  · obtain ⟨changes, ⟨haccepted⟩⟩ := haccepted
    obtain ⟨changes', ⟨haccepted'⟩, hchanges⟩ := haccepted.perm hperm
    rw [haccepted.execute, haccepted'.execute]
    have hiff : (applyChanges codec faults fs changes').1 = .applied ↔
        (applyChanges codec faults fs changes).1 = .applied := by
      rw [applied_iff (haccepted'.room hfs), applied_iff (haccepted.room hfs)]
      have hfilter := hchanges.filter (·.isActionable)
      exact and_congr (not_congr ⟨fun h => perm_nil.mp (h ▸ hfilter), fun h =>
        perm_nil.mp (h ▸ hfilter.symm)⟩) ⟨fun h => h.perm hchanges.symm, fun h => h.perm hchanges⟩
    refine ⟨hiff, fun happlied => ?_⟩
    rw [(files_of_run codec faults fs changes).of_applied (Or.inl happlied),
      (files_of_run codec faults fs changes').of_applied (Or.inl (hiff.mpr happlied))]
    exact (foldl_applyChange_perm hchanges haccepted.facts.2.1 _).symm
  · have haccepted' : ¬ ∃ changes, Nonempty (Accepted codec faults workspace fs ops' changes) := by
      rintro ⟨changes, ⟨h⟩⟩
      obtain ⟨changes', hother, -⟩ := h.perm hperm.symm
      exact haccepted ⟨changes', hother⟩
    obtain ⟨message, he⟩ := (refused_or_accepted codec faults workspace fs ops).resolve_right haccepted
    obtain ⟨message', he'⟩ := (refused_or_accepted codec faults workspace fs ops').resolve_right haccepted'
    rw [he, he']
    exact ⟨⟨nofun, nofun⟩, fun _ => rfl⟩

/-- One file `a`, with one line. -/
def oneFile : FileSystem := fun p => if p = ["a"] then some (.file [97, 10]) else none

def ascii : Codec where
  decode bytes := if bytes.all (· < 128) then some (String.ofList (bytes.map fun b => Char.ofNat b.toNat)) else none
  toText bytes := String.ofList (bytes.map fun b => Char.ofNat b.toNat)
  encode text := text.toList.map fun c => UInt8.ofNat c.toNat

/-- The file is moved to a new directory, with another line, and a file is added. -/
def moving : List (PatchFileOperation String) :=
  [.update "a" 1 (some ("d/b", 2)) [⟨3, none, [⟨.remove, "a"⟩, ⟨.add, "c"⟩], false⟩], .add "e" 4 ["f"]]

/-- When the new file is only written in part, the move is taken back. -/
example :
    let faults : Faults := fun site => if site = .write ["e"] then some ⟨"ENOSPC", some [102], 0⟩ else none
    let outcome := execute ascii faults [] moving oneFile
    outcome.1 = .failed "ENOSPC" [] ∧ fileAt outcome.2 ["a"] = some [97, 10] ∧
      fileAt outcome.2 ["d", "b"] = none ∧ fileAt outcome.2 ["e"] = none := by
  decide +kernel

end Tool

end Memmy.Tools
