import Memmy.Tools.Patch

/-! # The tool that applies a patch

All operations are planned on the files as they are; then the changes are made one after another, and
checked. When something fails after that has begun, every path that was attempted is given back what it had.

* `planOperations`: the changes of a patch.
* `perform`, `runChanges`, `verifyChange`: the changes on the file system.
* `rollback`: the way back.
* `execute`: the tool.

What can go wrong is given by `Faults`: at any place something may fail, and a write or a removal that fails
may leave anything at its path. -/

namespace Memmy.Tools

open Lib.Result

/-! ### The file system -/

inductive Node
  | file (bytes : Bytes)
  | directory
deriving DecidableEq

/-- What is at a path below the workspace; the workspace itself is a directory. -/
abbrev FileSystem := Path → Option Node

def fileAt (fs : FileSystem) (p : Path) : Option Bytes :=
  match fs p with
  | some (.file bytes) => some bytes
  | _ => none

/-- Gives a path a file, or nothing. -/
def setFile (fs : FileSystem) (p : Path) (bytes : Option Bytes) : FileSystem :=
  Function.update fs p (bytes.map .file)

/-- The directories above a path, where there is nothing. -/
def makeParents (fs : FileSystem) (p : Path) : FileSystem := fun q =>
  if q ∈ properPrefixes p ∧ fs q = none then some .directory else fs q

def hasParents (fs : FileSystem) (p : Path) : Bool := (properPrefixes p).all fun q => fs q = some .directory

/-! ### Faults -/

/-- Where something can fail. -/
inductive Site
  /-- `throwIfAborted`, while an operation is planned, before a change, in its verification, around the linter. -/
  | abortPlan (p : Path)
  | abortChange (p : Path)
  | abortVerify (p : Path)
  | abortRead (p : Path)
  | abortPlanned
  | abortLint
  | abortLinted
  | snapshot (p : Path)
  | mkdir (p : Path)
  | write (p : Path)
  | remove (p : Path)
  | stat (p : Path)
  | read (p : Path)
  | lint
  | report
  | restoreMkdir (p : Path)
  | restoreWrite (p : Path)
  | restoreRemove (p : Path)
deriving DecidableEq

/-- A failure, with what it leaves at the path. -/
structure Fault where
  message : String
  left : Option Bytes
  /-- How much of the path a failing `mkdir` has made. -/
  made : ℕ

abbrev Faults := Site → Option Fault

/-- The message of a failure, if there is one. -/
def Faults.message (faults : Faults) (site : Site) : Option String := (faults site).map (·.message)

/-- `mkdir(dirname(p), { recursive: true })` -/
def mkdir (fs : FileSystem) (p : Path) (fault : Option Fault) : Option String × FileSystem :=
  match fault with
  | some f => (some f.message, makeParents fs (p.take f.made))
  | none =>
    if (properPrefixes p).all fun q => (fileAt fs q).isNone then (none, makeParents fs p)
    else (some "ENOTDIR: not a directory", fs)

def writeFile (fs : FileSystem) (p : Path) (bytes : Bytes) (fault : Option Fault) :
    Option String × FileSystem :=
  match fault with
  | some f => (some f.message, setFile fs p f.left)
  | none =>
    if hasParents fs p && fs p ≠ some .directory then (none, setFile fs p (some bytes))
    else (some "EISDIR: illegal operation on a directory", fs)

/-- `rm(p)`, of what must be a file; with `force` it may also be absent. -/
def remove (fs : FileSystem) (p : Path) (force : Bool) (fault : Option Fault) : Option String × FileSystem :=
  match fault with
  | some f => (some f.message, setFile fs p f.left)
  | none =>
    match fs p with
    | some (.file _) => (none, setFile fs p none)
    | some .directory => (some "EISDIR: illegal operation on a directory", fs)
    | none => if force then (none, fs) else (some "ENOENT: no such file or directory", fs)

/-! ### The plan -/

/-- The walk of `resolveNormalizedPath` from `current` along the segments, until there is nothing; all but
the last must be directories. -/
def parentsAreDirectories (fs : FileSystem) (current : Path) : List String → Bool
  | [] => true
  | [_] => true
  | segment :: segments => match fs (current ++ [segment]) with
    | none => true
    | some .directory => parentsAreDirectories fs (current ++ [segment]) segments
    | some (.file _) => false

/-- `resolve`: a path of the patch, as its segments below the workspace. -/
def resolvePath (workspace : List String) (fs : FileSystem) (raw : String) : Except String Path := do
  let (absolute, segments) ← normalizePatchPath raw
  throwIf (absolute ∧ workspace.isPrefixOf segments = false) ("patch path escapes workspace: " ++ raw)
  let p := if absolute then segments.drop workspace.length else segments
  throwIf (p = []) ("patch path must name a file inside the workspace: " ++ raw)
  throwIf (parentsAreDirectories fs [] p = false) ("patch path parent is not a directory: " ++ raw)
  return p

def normalizeOperation (workspace : List String) (fs : FileSystem) :
    PatchFileOperation String → Except String (PatchFileOperation Path)
  | .add path line lines => do
    let p ← resolvePath workspace fs path
    return .add p line lines
  | .delete path line => do
    let p ← resolvePath workspace fs path
    return .delete p line
  | .update path line none hunks => do
    let p ← resolvePath workspace fs path
    return .update p line none hunks
  | .update path line (some (moveTo, moveLine)) hunks => do
    let p ← resolvePath workspace fs path
    let target ← resolvePath workspace fs moveTo
    return .update p line (some (target, moveLine)) hunks

def normalizeOperations (workspace : List String) (fs : FileSystem) (ops : List (PatchFileOperation String)) :
    Except String (List (PatchFileOperation Path)) := do
  let normalized ← ops.mapM (normalizeOperation workspace fs)
  validatePatchPathConflicts normalized
  return normalized

inductive PendingChange
  | write (target : Path) (after : Bytes) (verifyText : String)
  | delete (target : Path)
  | unchanged (target : Path)
deriving DecidableEq

def PendingChange.target : PendingChange → Path
  | .write target _ _ => target
  | .delete target => target
  | .unchanged target => target

def PendingChange.isActionable : PendingChange → Bool
  | .unchanged _ => false
  | _ => true

def patchContainsNull {π : Type} (op : PatchFileOperation π) : Bool :=
  let hasNull (text : String) : Bool := text.toList.any (·.toNat = 0)
  match op with
  | .add _ _ lines => lines.any hasNull
  | .delete _ _ => false
  | .update _ _ _ hunks => hunks.any fun h => h.anchor.any hasNull || h.lines.any fun l => hasNull l.text

section Plan
variable (codec : Codec)

/-- The bytes of a file after the hunks of an update. -/
def updatedBytes (p : Path) (bytes : Bytes) (hunks : List PatchHunk) : Except String Bytes := do
  let decoded ← decodeText codec bytes p.text
  if hunks = [] then return bytes
  else do
    let text ← applyHunks decoded hunks p.text
    return codec.encode text

variable (faults : Faults) (fs : FileSystem)

/-- `if (fault) throw` -/
def throwFault (site : Site) : Except String Unit :=
  match faults site with
  | some f => .error f.message
  | none => .ok ()

/-- `readSnapshot`: the bytes of a file, none if there is nothing. -/
def readSnapshot (p : Path) : Except String (Option Bytes) := do
  throwFault faults (.snapshot p)
  match fs p with
  | none => return none
  | some (.file bytes) => return some bytes
  | some .directory => .error ("path is not a regular file: " ++ p.text)

def planOperation (op : PatchFileOperation Path) : Except String (List PendingChange) := do
  throwFault faults (.abortPlan op.path)
  throwIf (patchContainsNull op = true) ("binary files are not supported: " ++ op.path.text)
  let source ← readSnapshot faults fs op.path
  match op with
  | .add p _ lines =>
    throwIf (source.isSome = true) ("file already exists: " ++ p.text)
    let text := linesToText lines "\n"
    return [.write p (codec.encode text) text]
  | .delete p _ =>
    match source with
    | none => .error ("file does not exist: " ++ p.text)
    | some bytes => do
      let _ ← decodeText codec bytes p.text
      return [.delete p]
  | .update p _ moveTo hunks =>
    match source with
    | none => .error ("file does not exist: " ++ p.text)
    | some bytes => do
      let after ← updatedBytes codec p bytes hunks
      match moveTo with
      | some (target, _) => do
        let destination ← readSnapshot faults fs target
        throwIf (destination.isSome = true) ("move target already exists: " ++ target.text)
        return [.write target after (codec.toText after), .delete p]
      | none =>
        if after = bytes then return [.unchanged p]
        else return [.write p after (codec.toText after)]

/-- `planOperations`; the paths are resolved once more before anything is read. -/
def planOperations (ops : List (PatchFileOperation Path)) : Except String (List PendingChange) := do
  throwIf (ops.any (fun op => op.named.any fun p => !parentsAreDirectories fs [] p) = true)
    "patch path parent is not a directory"
  let changes ← ops.mapM (planOperation codec faults fs)
  throwFault faults .abortPlanned
  return changes.flatten

end Plan

/-! ### Changes -/

section Changes
variable (codec : Codec) (faults : Faults)

def perform (fs : FileSystem) : PendingChange → Option String × FileSystem
  | .unchanged _ => (none, fs)
  | .delete p => remove fs p false (faults (.remove p))
  | .write p after _ =>
    match mkdir fs p (faults (.mkdir p)) with
    | (some message, fs) => (some message, fs)
    | (none, fs) => writeFile fs p after (faults (.write p))

/-- The loop over the changes: the error, if there is one, the paths that were attempted, and the files. -/
def runChanges : List PendingChange → List Path → FileSystem → Option String × List Path × FileSystem
  | [], attempted, fs => (none, attempted, fs)
  | change :: changes, attempted, fs =>
    match faults.message (.abortChange change.target) with
    | some message => (some message, attempted, fs)
    | none =>
      let attempted := if change.target ∈ attempted then attempted else attempted ++ [change.target]
      match perform faults fs change with
      | (some message, fs) => (some message, attempted, fs)
      | (none, fs) => runChanges changes attempted fs

def verifyChange (fs : FileSystem) (change : PendingChange) : Except String Unit := do
  throwFault faults (.abortVerify change.target)
  match change with
  | .unchanged _ => return ()
  | .delete p => throwIf ((fs p).isSome = true) ("Delete verification failed: " ++ p.text ++ " still exists")
  | .write p _ verifyText =>
    throwFault faults (.stat p)
    match fs p with
    | some (.file bytes) => do
      throwFault faults (.abortRead p)
      throwFault faults (.read p)
      throwIf (codec.toText bytes ≠ verifyText) ("Write verification failed: content mismatch for " ++ p.text)
    | _ => .error ("Write verification failed: " ++ p.text ++ " is not a regular file")

/-- What is checked when all changes were made; the linter does not write. -/
def verifyAll (fs : FileSystem) (changes : List PendingChange) (reports : Bool) : Except String Unit := do
  changes.forM (verifyChange codec faults fs)
  throwFault faults .abortLint
  throwFault faults .lint
  throwFault faults .abortLinted
  if reports then throwFault faults .report else return ()

/-- A path is given back what it had. -/
def restore (before : Option Bytes) (p : Path) (fs : FileSystem) : Option String × FileSystem :=
  match before with
  | none => remove fs p true (faults (.restoreRemove p))
  | some bytes =>
    match mkdir fs p (faults (.restoreMkdir p)) with
    | (some message, fs) => (some message, fs)
    | (none, fs) => writeFile fs p bytes (faults (.restoreWrite p))

/-- The loop of `rollback`: the paths that were not given back, and the files. Every attempted path was read
before anything was written, so `initial` knows its bytes. -/
def rollback (initial : FileSystem) : List Path → FileSystem → List Path × FileSystem
  | [], fs => ([], fs)
  | p :: paths, fs =>
    match restore faults (fileAt initial p) p fs with
    | (failure, fs) =>
      let (failures, fs) := rollback initial paths fs
      (if failure.isSome then p :: failures else failures, fs)

inductive PatchResult
  | refused (message : String)
  | noChanges
  | applied
  /-- The paths that the message names after `rollback failed`. -/
  | failed (message : String) (rollbackFailures : List Path)
deriving DecidableEq

def PatchResult.rollbackFailures : PatchResult → List Path
  | .failed _ paths => paths
  | _ => []

def applyChanges (fs : FileSystem) (changes : List PendingChange) : PatchResult × FileSystem :=
  let actionable := changes.filter (·.isActionable)
  let reports := changes.any fun c => !c.isActionable
  if actionable = [] then
    match faults .abortLint, faults .report, faults .abortLinted with
    | none, none, none => (.noChanges, fs)
    | some f, _, _ => (.refused f.message, fs)
    | _, some f, _ => (.refused f.message, fs)
    | _, _, some f => (.refused f.message, fs)
  else
    let (error, attempted, after) := runChanges faults actionable [] fs
    let error := error.or (match verifyAll codec faults after actionable reports with
      | .ok _ => none
      | .error message => some message)
    match error with
    | none => (.applied, after)
    | some message =>
      let (failures, restored) := rollback faults fs attempted.reverse after
      (.failed message failures, restored)

/-- `execute`, on the operations of a patch that was parsed. -/
def execute (workspace : List String) (ops : List (PatchFileOperation String)) (fs : FileSystem) :
    PatchResult × FileSystem :=
  match normalizeOperations workspace fs ops with
  | .error message => (.refused message, fs)
  | .ok ops =>
    match planOperations codec faults fs ops with
    | .error message => (.refused message, fs)
    | .ok changes => applyChanges codec faults fs changes

end Changes

end Memmy.Tools
