import Mathlib.Data.List.Infix
import Mathlib.Data.List.Pairwise
import Memmy.Tools.Restored

/-! # Applying a patch: in any order

The checks of the paths do not depend on the order of the operations, and they leave no room for one change
to get in the way of another. So the changes succeed in any order, or fail in any.

* `Conflictless`: which operations are not refused for their paths; `validate_eq_ok`.
* `Room`: nothing on the file system stands in the way of the changes to come.
* `runChanges_ok`: with room, the changes are all made if and only if nothing fails.
* `verifyChange_ok`: and then they are found done if and only if nothing fails. -/

namespace Memmy.Tools

open Lib.Result List Function

/-! ### Paths without conflicts -/

/-- Neither is below the other. -/
def Apart (p q : Path) : Prop := isAncestorPath p q = false ∧ isAncestorPath q p = false

/-- No path is named twice, and no new file is below another one. -/
structure Conflictless (ops : List (PatchFileOperation Path)) : Prop where
  named : (ops.flatMap (·.named)).Nodup
  finals : (ops.filterMap (·.finalTarget)).Pairwise fun a b => Apart a.1 b.1

section Conflicts
variable {ops ops' : List (PatchFileOperation Path)} {op : PatchFileOperation Path} {seen : SeenPaths}
  {q : Path}

def SeenPaths.all (seen : SeenPaths) : List Path := seen.sources ++ seen.moveTargets

/-- An operation passes the first loop if its paths are new. -/
theorem seeOperation_ok (seen : SeenPaths) (op : PatchFileOperation Path) :
    (op.named.Nodup ∧ (∀ q ∈ op.named, q ∉ seen.all) ∧
      ∃ seen', seeOperation seen op = .ok seen' ∧ ∀ q, q ∈ seen'.all ↔ q ∈ seen.all ∨ q ∈ op.named) ∨
    (¬ (op.named.Nodup ∧ ∀ q ∈ op.named, q ∉ seen.all)) ∧ ∃ message, seeOperation seen op = .error message := by
  unfold seeOperation
  by_cases hsource : op.path ∈ seen.sources
  · rw [if_pos hsource]
    exact Or.inr ⟨fun h => h.2 op.path mem_cons_self (mem_append_left _ hsource), _, rfl⟩
  rw [if_neg hsource]
  by_cases hmove : op.path ∈ seen.moveTargets
  · rw [if_pos hmove]
    exact Or.inr ⟨fun h => h.2 op.path mem_cons_self (mem_append_right _ hmove), _, rfl⟩
  rw [if_neg hmove]
  have hpath : op.path ∉ seen.all := fun hmem => (mem_append.mp hmem).elim hsource hmove
  cases htarget : op.moveTarget with
  | none =>
    have hnamed : op.named = [op.path] := by
      unfold PatchFileOperation.named
      rw [htarget]
      rfl
    refine Or.inl ⟨by rw [hnamed]; exact nodup_singleton _, fun q hq => ?_, _, rfl, fun q => ?_⟩
    · rw [hnamed, mem_singleton] at hq
      rw [hq]
      exact hpath
    · rw [hnamed]
      unfold SeenPaths.all
      simp only [mem_append, mem_singleton]
      tauto
  | some target =>
    obtain ⟨target, line⟩ := target
    have hnamed : op.named = [op.path, target] := by
      unfold PatchFileOperation.named
      rw [htarget]
      rfl
    rw [hnamed]
    simp only
    by_cases hself : target = op.path
    · rw [if_pos hself]
      exact Or.inr ⟨fun h => by simp [hself] at h, _, rfl⟩
    rw [if_neg hself]
    by_cases hsources : target ∈ seen.sources ++ [op.path]
    · rw [if_pos hsources]
      refine Or.inr ⟨fun h => h.2 target (mem_cons_of_mem _ mem_cons_self) ?_, _, rfl⟩
      exact mem_append_left _ ((mem_append.mp hsources).resolve_right fun he =>
        hself (mem_singleton.mp he))
    rw [if_neg hsources]
    by_cases htargets : target ∈ seen.moveTargets
    · rw [if_pos htargets]
      exact Or.inr ⟨fun h => h.2 target (mem_cons_of_mem _ mem_cons_self) (mem_append_right _ htargets), _, rfl⟩
    rw [if_neg htargets]
    have hnew : target ∉ seen.all := fun hmem => (mem_append.mp hmem).elim
      (fun h => hsources (mem_append_left _ h)) htargets
    refine Or.inl ⟨by simp [Ne.symm hself], fun q hq => ?_, _, rfl, fun q => ?_⟩
    · rcases mem_cons.mp hq with rfl | hq
      · exact hpath
      · rw [mem_singleton.mp hq]
        exact hnew
    · unfold SeenPaths.all
      simp only [mem_append, mem_cons, not_mem_nil, or_false]
      tauto

/-- The first loop passes exactly if all paths are new. -/
theorem seeAll_ok : ∀ (ops : List (PatchFileOperation Path)) (seen : SeenPaths),
    (∃ seen', ops.foldlM seeOperation seen = .ok seen') ↔
      (ops.flatMap (·.named)).Nodup ∧ ∀ q ∈ ops.flatMap (·.named), q ∉ seen.all
  | [], seen => ⟨fun _ => ⟨nodup_nil, nofun⟩, fun _ => ⟨seen, rfl⟩⟩
  | op :: ops, seen => by
    rw [foldlM_cons, flatMap_cons, nodup_append]
    rcases seeOperation_ok seen op with ⟨hnodup, hnew, seen', hsee, hall⟩ | ⟨hnot, message, hsee⟩
    · rw [hsee, ok_bind, seeAll_ok ops seen']
      constructor
      · rintro ⟨hrest, hout⟩
        refine ⟨⟨hnodup, hrest, fun a ha b hb he => hout b hb ((hall b).mpr (Or.inr (he ▸ ha)))⟩, fun q hq => ?_⟩
        rcases mem_append.mp hq with hq | hq
        · exact hnew q hq
        · exact fun hmem => hout q hq ((hall q).mpr (Or.inl hmem))
      · rintro ⟨⟨-, hrest, hapart⟩, hout⟩
        refine ⟨hrest, fun q hq hmem => ?_⟩
        rcases (hall q).mp hmem with hmem | hmem
        · exact hout q (mem_append_right _ hq) hmem
        · exact hapart q hmem q hq rfl
    · rw [hsee]
      constructor
      · rintro ⟨seen', h⟩
        cases h
      · rintro ⟨⟨hnodup, -, -⟩, hout⟩
        exact absurd ⟨hnodup, fun q hq => hout q (mem_append_left _ hq)⟩ hnot

theorem eq_of_named (h : (ops.flatMap (·.named)).Nodup) (hop : op ∈ ops) {op' : PatchFileOperation Path}
    (hop' : op' ∈ ops) (hq : q ∈ op.named) (hq' : q ∈ op'.named) : op = op' := by
  by_contra hne
  have : Std.Symm (Function.onFun List.Disjoint fun op : PatchFileOperation Path => op.named) :=
    ⟨fun _ _ h _ hb ha => h ha hb⟩
  have hapart := (nodup_flatMap.mp h).2.forall hop hop' hne
  exact hapart hq hq'

/-- The second loop finds nothing after the first one. -/
theorem checkMoveTargets_ok (h : (ops.flatMap (·.named)).Nodup) : checkMoveTargets ops = .ok () := by
  unfold checkMoveTargets
  have hnone : (ops.findSome? fun op => op.moveTarget.filter fun t =>
      ops.any fun source => source.path = t.1 && source ≠ op) = none := by
    rw [findSome?_eq_none_iff]
    intro op hop
    cases htarget : op.moveTarget with
    | none => rfl
    | some target =>
      rw [Option.filter_eq_none_iff]
      intro t ht hany
      cases ht
      obtain ⟨source, hsource, hboth⟩ := any_eq_true.mp hany
      simp only [Bool.and_eq_true, decide_eq_true_eq] at hboth
      refine hboth.2 (eq_of_named h hsource hop mem_cons_self ?_)
      rw [hboth.1]
      unfold PatchFileOperation.named
      rw [htarget]
      exact mem_cons_of_mem _ mem_cons_self
  rw [hnone]

theorem checkFinalTargets_ok : ∀ (targets : List (Path × ℕ)),
    checkFinalTargets targets = .ok () ↔ targets.Pairwise fun a b => Apart a.1 b.1
  | [] => ⟨fun _ => .nil, fun _ => rfl⟩
  | left :: targets => by
    unfold checkFinalTargets
    rw [pairwise_cons]
    cases hfind : targets.find? fun right => isAncestorPath left.1 right.1 || isAncestorPath right.1 left.1 with
    | some right =>
      have hmem := mem_of_find?_eq_some hfind
      have hboth := find?_some hfind
      refine ⟨nofun, fun h => ?_⟩
      obtain ⟨h₁, h₂⟩ := h.1 right hmem
      rw [h₁, h₂] at hboth
      simp at hboth
    | none =>
      rw [find?_eq_none] at hfind
      simp only [Bool.or_eq_true, not_or, Bool.not_eq_true] at hfind
      rw [checkFinalTargets_ok targets]
      exact ⟨fun h => ⟨hfind, h⟩, fun h => h.2⟩

/-- **The paths are accepted** exactly if there is no conflict. -/
theorem validate_eq_ok : validatePatchPathConflicts ops = .ok () ↔ Conflictless ops := by
  unfold validatePatchPathConflicts
  simp only [bind_eq_ok]
  constructor
  · rintro ⟨seen', hsee, u, -, hfinals⟩
    exact ⟨((seeAll_ok ops {}).mp ⟨seen', hsee⟩).1, (checkFinalTargets_ok _).mp hfinals⟩
  · intro h
    obtain ⟨seen', hsee⟩ := (seeAll_ok ops {}).mpr ⟨h.named, by simp [SeenPaths.all]⟩
    exact ⟨seen', hsee, (), checkMoveTargets_ok h.named, (checkFinalTargets_ok _).mpr h.finals⟩

theorem Conflictless.perm (h : Conflictless ops) (hperm : ops.Perm ops') : Conflictless ops' where
  named := (hperm.flatMap_right _).nodup_iff.mp h.named
  finals := ((hperm.filterMap _).pairwise_iff fun h => ⟨h.2, h.1⟩).mp h.finals

end Conflicts

/-! ### Room -/

/-- What is above a file or a directory is a directory. -/
def WellFormed (fs : FileSystem) : Prop := ∀ p q, q ∈ properPrefixes p → fs p ≠ none → fs q = some .directory

/-- Nothing stands in the way of the changes. -/
structure Room (fs : FileSystem) (changes : List PendingChange) : Prop where
  targets : (changes.map (·.target)).Nodup
  write : ∀ p after text, .write p after text ∈ changes →
    (∀ q ∈ properPrefixes p, fileAt fs q = none) ∧ fs p ≠ some .directory
  delete : ∀ p, .delete p ∈ changes → fileAt fs p ≠ none
  apart : ∀ p after text q after' text', .write p after text ∈ changes → .write q after' text' ∈ changes →
    p ∉ properPrefixes q

section Room
variable {codec : Codec} {faults : Faults} {fs : FileSystem} {change : PendingChange}
  {changes : List PendingChange} {p q : Path} {after : Bytes} {text : String}

theorem mem_properPrefixes : q ∈ properPrefixes p ↔ q <+: p ∧ q ≠ [] ∧ q ≠ p := by
  unfold properPrefixes
  simp

theorem isAncestorPath_of_mem (h : q ∈ properPrefixes p) : isAncestorPath q p = true := by
  obtain ⟨hbeginning, -, hne⟩ := mem_properPrefixes.mp h
  unfold isAncestorPath
  simp [hne, hbeginning]

theorem fileAt_of_directory (h : fs p = some .directory) : fileAt fs p = none := by
  unfold fileAt
  rw [h]

/-- The sites of a change that must not fail for it to be made. -/
def Makes (faults : Faults) (change : PendingChange) : Prop :=
  faults (.abortChange change.target) = none ∧ match change with
    | .unchanged _ => True
    | .delete p => faults (.remove p) = none
    | .write p _ _ => faults (.mkdir p) = none ∧ faults (.write p) = none

theorem makes_of_perform (fs : FileSystem) (habort : faults (.abortChange change.target) = none)
    (h : (perform faults fs change).1 = none) : Makes faults change := by
  refine ⟨habort, ?_⟩
  cases change with
  | unchanged p => trivial
  | delete p =>
    unfold perform remove at h
    simp only at h ⊢
    cases hfault : faults (.remove p) with
    | none => rfl
    | some f =>
      rw [hfault] at h
      cases h
  | write p after text =>
    unfold perform mkdir writeFile at h
    simp only at h ⊢
    cases hmkdir : faults (.mkdir p) with
    | some f =>
      rw [hmkdir] at h
      cases h
    | none =>
      rw [hmkdir] at h
      refine ⟨rfl, ?_⟩
      cases hwrite : faults (.write p) with
      | none => rfl
      | some f =>
        rw [hwrite] at h
        split_ifs at h

theorem hasParents_makeParents (h : ∀ q ∈ properPrefixes p, fileAt fs q = none) :
    hasParents (makeParents fs p) p = true := by
  unfold hasParents
  rw [all_eq_true]
  intro q hq
  have hfile := h q hq
  unfold makeParents
  by_cases hnone : fs q = none
  · rw [if_pos ⟨hq, hnone⟩]
    rfl
  · rw [if_neg fun h => hnone h.2]
    unfold fileAt at hfile
    cases hnode : fs q with
    | none => exact absurd hnode hnone
    | some node =>
      rw [hnode] at hfile
      cases node with
      | file bytes => cases hfile
      | directory => rfl

theorem perform_write (hmkdir : faults (.mkdir p) = none) (hwrite : faults (.write p) = none)
    (hparents : ∀ q ∈ properPrefixes p, fileAt fs q = none) (hdir : fs p ≠ some .directory) :
    perform faults fs (.write p after text) = (none, setFile (makeParents fs p) p (some after)) := by
  have hall : ((properPrefixes p).all fun q => (fileAt fs q).isNone) = true :=
    all_eq_true.mpr fun q hq => by rw [hparents q hq]; rfl
  have hself : makeParents fs p p = fs p := by
    unfold makeParents
    rw [if_neg fun h => (mem_properPrefixes.mp h.1).2.2 rfl]
  unfold perform mkdir
  simp only [hmkdir, hall, if_true]
  unfold writeFile
  simp only [hwrite, hasParents_makeParents hparents, hself, Bool.true_and]
  rw [if_pos (by simpa using hdir)]

theorem perform_delete (hremove : faults (.remove p) = none) (hfile : fileAt fs p ≠ none) :
    perform faults fs (.delete p) = (none, setFile fs p none) := by
  unfold perform remove
  simp only [hremove]
  unfold fileAt at hfile
  cases hnode : fs p with
  | none => simp [hnode] at hfile
  | some node =>
    cases node with
    | file bytes => rfl
    | directory => simp [hnode] at hfile

/-- The files after a change that does not fail. -/
def made (fs : FileSystem) : PendingChange → FileSystem
  | .unchanged _ => fs
  | .delete p => setFile fs p none
  | .write p after _ => setFile (makeParents fs p) p (some after)

theorem perform_of_makes (hroom : Room fs (change :: changes)) (h : Makes faults change) :
    perform faults fs change = (none, made fs change) := by
  cases change with
  | unchanged p => rfl
  | delete p => exact perform_delete h.2 (hroom.delete p mem_cons_self)
  | write p after text =>
    obtain ⟨hparents, hdir⟩ := hroom.write p after text mem_cons_self
    exact perform_write h.2.1 h.2.2 hparents hdir

theorem Room.made (hroom : Room fs (change :: changes)) : Room (made fs change) changes := by
  have htargets := hroom.targets
  rw [map_cons, nodup_cons] at htargets
  obtain ⟨hhead, htargets⟩ := htargets
  have hne : ∀ c ∈ changes, c.target ≠ change.target := fun c hc he =>
    hhead (he ▸ mem_map_of_mem hc)
  have hapart : ∀ p after text q after' text', .write p after text ∈ changes → .write q after' text' ∈ changes →
      p ∉ properPrefixes q := fun p a t q a' t' hp hq =>
    hroom.apart p a t q a' t' (mem_cons_of_mem _ hp) (mem_cons_of_mem _ hq)
  cases change with
  | unchanged p =>
    exact ⟨htargets, fun p a t hc => hroom.write p a t (mem_cons_of_mem _ hc),
      fun p hc => hroom.delete p (mem_cons_of_mem _ hc), hapart⟩
  | delete p =>
    refine ⟨htargets, fun q a t hc => ?_, fun q hc => ?_, hapart⟩
    · have hqp : q ≠ p := hne _ hc
      obtain ⟨hparents, hdir⟩ := hroom.write q a t (mem_cons_of_mem _ hc)
      refine ⟨fun r hr => ?_, ?_⟩
      · exact (congrFun fileAt_setFile r).trans (by rw [update_apply, hparents r hr, ite_self])
      · exact (congrArg (· ≠ _) (update_of_ne hqp _ _)).mpr hdir
    · have hqp : q ≠ p := hne _ hc
      exact (congrArg (· ≠ none) (fileAt_setFile_of_ne hqp)).mpr (hroom.delete q (mem_cons_of_mem _ hc))
  | write p after text =>
    refine ⟨htargets, fun q a t hc => ?_, fun q hc => ?_, hapart⟩
    · have hqp : q ≠ p := hne _ hc
      have hc' := mem_cons_of_mem (.write p after text) hc
      obtain ⟨hparents, hdir⟩ := hroom.write q a t hc'
      refine ⟨fun r hr => ?_, ?_⟩
      · have hrp : r ≠ p := by
          rintro rfl
          exact hroom.apart r after text q a t mem_cons_self hc' hr
        refine (fileAt_setFile_of_ne hrp).trans ?_
        rw [fileAt_makeParents]
        exact hparents r hr
      · have hself : makeParents fs p q = fs q := if_neg fun hmem =>
          hroom.apart q a t p after text hc' mem_cons_self hmem.1
        exact (congrArg (· ≠ _) ((update_of_ne hqp _ _).trans hself)).mpr hdir
    · have hqp : q ≠ p := hne _ hc
      refine (congrArg (· ≠ none) (fileAt_setFile_of_ne hqp)).mpr ?_
      rw [fileAt_makeParents]
      exact hroom.delete q (mem_cons_of_mem _ hc)

theorem message_eq_none {site : Site} : faults.message site = none ↔ faults site = none := by
  unfold Faults.message
  cases faults site <;> simp

/-- **With room, all changes are made** if and only if nothing fails. -/
theorem runChanges_ok : ∀ (changes : List PendingChange) (attempted : List Path) (fs : FileSystem),
    Room fs changes →
      ((runChanges faults changes attempted fs).1 = none ↔ ∀ c ∈ changes, Makes faults c) ∧
        ((∀ c ∈ changes, Makes faults c) → (runChanges faults changes attempted fs).2.2 = changes.foldl made fs)
  | [], _, _, _ => ⟨⟨by simp, fun _ => rfl⟩, fun _ => rfl⟩
  | change :: changes, attempted, fs, hroom => by
    unfold runChanges
    rw [forall_mem_cons]
    cases habort : faults.message (.abortChange change.target) with
    | some message =>
      have hnot : ¬ Makes faults change := fun h => by
        rw [message_eq_none.mpr h.1] at habort
        cases habort
      exact ⟨⟨by simp, fun h => absurd h.1 hnot⟩, fun h => absurd h.1 hnot⟩
    | none =>
      generalize (if change.target ∈ attempted then attempted else attempted ++ [change.target]) = attempted'
      by_cases hmakes : Makes faults change
      · obtain ⟨hok, hfiles⟩ := runChanges_ok changes attempted' (made fs change) hroom.made
        rw [perform_of_makes hroom hmakes]
        exact ⟨⟨fun h => ⟨hmakes, hok.mp h⟩, fun h => hok.mpr h.2⟩, fun h => hfiles h.2⟩
      · refine ⟨⟨fun h => ?_, fun h => absurd h.1 hmakes⟩, fun h => absurd h.1 hmakes⟩
        refine absurd (makes_of_perform fs (message_eq_none.mp habort) ?_) hmakes
        generalize perform faults fs change = result at h ⊢
        obtain ⟨error, fs₁⟩ := result
        cases error with
        | none => rfl
        | some message => cases h

/-! ### Verification -/

/-- What a change needs to be found done. -/
def Verifies (codec : Codec) (faults : Faults) (change : PendingChange) : Prop :=
  faults (.abortVerify change.target) = none ∧ match change with
    | .write p after verifyText =>
      faults (.stat p) = none ∧ faults (.abortRead p) = none ∧ faults (.read p) = none ∧
        codec.toText after = verifyText
    | _ => True

theorem foldl_made_of_ne : ∀ {changes : List PendingChange} {fs : FileSystem}, (∀ c ∈ changes, p ≠ c.target) →
    (∀ q after text, .write q after text ∈ changes → p ∉ properPrefixes q) → changes.foldl made fs p = fs p
  | [], _, _, _ => rfl
  | change :: changes, fs, hne, hparents => by
    obtain ⟨hhead, hne⟩ := forall_mem_cons.mp hne
    rw [foldl_cons, foldl_made_of_ne hne fun q a t hc => hparents q a t (mem_cons_of_mem _ hc)]
    cases change with
    | unchanged q => rfl
    | delete q => exact update_of_ne hhead _ _
    | write q after text =>
      refine (update_of_ne hhead _ _).trans (if_neg fun hmem => ?_)
      exact hparents q after text mem_cons_self hmem.1

/-- Where something was deleted there is nothing, not even a directory. -/
theorem foldl_made_delete : ∀ {changes : List PendingChange} {fs : FileSystem}, Room fs changes →
    .delete p ∈ changes → changes.foldl made fs p = none
  | change :: changes, fs, hroom, hmem => by
    rw [foldl_cons]
    rcases mem_cons.mp hmem with rfl | hrest
    · have hout : p ∉ changes.map (·.target) := (nodup_cons.mp hroom.targets).1
      refine (foldl_made_of_ne (fun c hc he => hout (mem_map.mpr ⟨c, hc, he.symm⟩)) fun q a t hc hq => ?_).trans
        (update_self _ _ _)
      exact hroom.delete p hmem ((hroom.write q a t (mem_cons_of_mem _ hc)).1 p hq)
    · exact foldl_made_delete hroom.made hrest

theorem foldl_made_write : ∀ {changes : List PendingChange} {fs : FileSystem}, Room fs changes →
    .write p after text ∈ changes → fileAt (changes.foldl made fs) p = some after
  | change :: changes, fs, hroom, hmem => by
    rw [foldl_cons]
    rcases mem_cons.mp hmem with rfl | hrest
    · have hout : p ∉ changes.map (·.target) := (nodup_cons.mp hroom.targets).1
      have hsame : changes.foldl made (made fs (.write p after text)) p = made fs (.write p after text) p := by
        refine foldl_made_of_ne (fun c hc he => hout (mem_map.mpr ⟨c, hc, he.symm⟩)) fun q a t hc => ?_
        exact hroom.apart p after text q a t hmem (mem_cons_of_mem _ hc)
      unfold fileAt
      rw [hsame]
      exact fileAt_setFile_self
    · exact foldl_made_write hroom.made hrest

theorem node_of_fileAt {bytes : Bytes} (h : fileAt fs p = some bytes) : fs p = some (.file bytes) := by
  unfold fileAt at h
  cases hnode : fs p with
  | none => simp [hnode] at h
  | some node =>
    cases node with
    | file bytes' =>
      rw [hnode] at h
      exact congrArg (some ∘ Node.file) (Option.some.inj h)
    | directory => simp [hnode] at h

/-- A change that was made is found done if nothing fails. -/
theorem verifyChange_ok (hroom : Room fs changes) (hmem : change ∈ changes) {u : Unit} :
    verifyChange codec faults (changes.foldl made fs) change = .ok u ↔ Verifies codec faults change := by
  unfold verifyChange Verifies
  simp only [bind_eq_ok, throwFault_eq_ok]
  cases change with
  | unchanged p => simp
  | delete p => simp [foldl_made_delete hroom hmem]
  | write p after text => simp [node_of_fileAt (foldl_made_write hroom hmem), throwFault_eq_ok]

end Room

end Memmy.Tools
