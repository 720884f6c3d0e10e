import Memmy.Lib.Result
import Memmy.Lib.Sort
import Memmy.Lib.Text

/-! # Patches: operations and what they make of a file

A patch is a list of operations on files: one is added, deleted, updated by hunks, or moved. Hunks are
located in the lines of the file, by an anchor and by the lines they take away, the closest match first.

* `applyHunks`: the bytes of an updated file.
* `resolvePath`: a path of the patch, as its segments below the workspace.
* `validatePatchPathConflicts`: which lists of operations are refused for their paths. -/

namespace Memmy.Tools

open Lib.Result Lib.Sort Lib.Text

/-! ### Operations -/

inductive HunkLineKind
  | context
  | remove
  | add
deriving DecidableEq

structure PatchHunkLine where
  kind : HunkLineKind
  text : String
deriving DecidableEq

structure PatchHunk where
  line : ℕ
  anchor : Option String
  lines : List PatchHunkLine
  endOfFile : Bool
deriving DecidableEq

/-- An operation, on the paths of a patch or on resolved ones. -/
inductive PatchFileOperation (π : Type)
  | add (path : π) (line : ℕ) (lines : List String)
  | delete (path : π) (line : ℕ)
  /-- The target of a move, with its line. -/
  | update (path : π) (line : ℕ) (moveTo : Option (π × ℕ)) (hunks : List PatchHunk)
deriving DecidableEq

namespace PatchFileOperation
variable {π : Type}

def path : PatchFileOperation π → π
  | .add path _ _ => path
  | .delete path _ => path
  | .update path _ _ _ => path

def line : PatchFileOperation π → ℕ
  | .add _ line _ => line
  | .delete _ line => line
  | .update _ line _ _ => line

def moveTarget : PatchFileOperation π → Option (π × ℕ)
  | .update _ _ moveTo _ => moveTo
  | _ => none

/-- A path that has a new file after the operation. -/
def finalTarget : PatchFileOperation π → Option (π × ℕ)
  | .add path line _ => some (path, line)
  | .delete _ _ => none
  | .update _ _ moveTo _ => moveTo

def named (op : PatchFileOperation π) : List π := op.path :: (op.moveTarget.map (·.1)).toList

end PatchFileOperation

/-! ### Lines -/

/-- `text.split(separator)` at a character. -/
def splitAt (separator : Char) : List Char → List (List Char)
  | [] => [[]]
  | c :: cs =>
    if c = separator then [] :: splitAt separator cs
    else match splitAt separator cs with
      | [] => [[c]]
      | part :: parts => (c :: part) :: parts

def splitTextLines (text : String) : List String :=
  if text = "" then []
  else
    let lines := (splitAt '\n' text.toList).map String.ofList
    if lines.getLast? = some "" then lines.dropLast else lines

def linesToText (lines : List String) (newline : String) : String :=
  if lines = [] then "" else newline.intercalate lines ++ newline

/-- `normalizeUnicodeMatch`: dashes, quotes and spaces are replaced by the plain ones. -/
def normalizeUnicodeMatch (value : String) : String :=
  String.ofList ((trim value).toList.map fun c =>
    let n := c.toNat
    if 0x2010 ≤ n && n ≤ 0x2015 || n = 0x2212 then '-'
    else if 0x2018 ≤ n && n ≤ 0x201B then '\''
    else if 0x201C ≤ n && n ≤ 0x201F then '"'
    else if n = 0xA0 || 0x2002 ≤ n && n ≤ 0x200A || n = 0x202F || n = 0x205F || n = 0x3000 then ' '
    else c)

/-- The first place from `cursor` where the pattern stands, up to ever more changes of the lines. -/
def seekSequence (lines pattern : List String) (cursor : ℕ) (eof : Bool) : Option ℕ :=
  [id, trimEnd, trim, normalizeUnicodeMatch].findSome? fun transform =>
    (List.range' cursor (lines.length + 1 - pattern.length - cursor)).find? fun index =>
      (!eof || index + pattern.length = lines.length) &&
        pattern.zipIdx.all fun p => (lines[index + p.2]?).map transform = some (transform p.1)

/-! ### Files -/

abbrev Bytes := List UInt8

/-- The encodings of text: the decoder that refuses what is no UTF-8, the one that does not, and the
encoder. -/
structure Codec where
  decode : Bytes → Option String
  toText : Bytes → String
  encode : String → Bytes

structure DecodedText where
  body : String
  raw : String
  bom : Bool

def decodeText (codec : Codec) (bytes : Bytes) (rel : String) : Except String DecodedText :=
  let refused := "binary files are not supported: " ++ rel
  if 0 ∈ bytes then .error refused
  else match codec.decode bytes with
    | none => .error refused
    | some raw =>
      let bom := [0xEF, 0xBB, 0xBF].isPrefixOf bytes
      .ok
        { raw := raw
          body := if bom then String.ofList (raw.toList.drop 1) else raw
          bom := bom }

/-- `text.replace(/\r\n/g, "\n")` -/
def unixLines : List Char → List Char
  | [] => []
  | '\r' :: '\n' :: cs => '\n' :: unixLines cs
  | c :: cs => c :: unixLines cs

/-- `/\r(?!\n)/.test(text)` -/
def hasLoneReturn : List Char → Bool
  | [] => false
  | '\r' :: '\n' :: cs => hasLoneReturn cs
  | '\r' :: _ => true
  | _ :: cs => hasLoneReturn cs

/-- The text without its `\r\n`. -/
def withoutPairs : List Char → List Char
  | [] => []
  | '\r' :: '\n' :: cs => withoutPairs cs
  | c :: cs => c :: withoutPairs cs

/-- The text with plain line ends, and the line end that it has. -/
def detectNewline (text rel : String) : Except String (String × String) := do
  let cs := text.toList
  throwIf (hasLoneReturn cs) ("unsupported line endings: " ++ rel)
  let hasPairs := withoutPairs cs ≠ cs
  throwIf (hasPairs ∧ '\n' ∈ withoutPairs cs) ("unsupported mixed line endings: " ++ rel)
  return (String.ofList (unixLines cs), if hasPairs then "\r\n" else "\n")

structure Replacement where
  startIndex : ℕ
  oldLength : ℕ
  replacementLines : List String
  hunkIndex : ℕ

/-- The new lines of a hunk: those that are added, and the context as the file has it. -/
def replacementLines (sourceLines : List String) (startIndex : ℕ) : ℕ → List PatchHunkLine → List String
  | _, [] => []
  | offset, l :: ls => match l.kind with
    | .add => l.text :: replacementLines sourceLines startIndex offset ls
    | .context => (sourceLines[startIndex + offset]?).toList ++
        replacementLines sourceLines startIndex (offset + 1) ls
    | .remove => replacementLines sourceLines startIndex (offset + 1) ls

/-- The replacement of a hunk, and where the next one is looked for. -/
def locateReplacement (sourceLines : List String) (hunk : PatchHunk) (cursor hunkIndex : ℕ) :
    Except String (Replacement × ℕ) := do
  let notFound := "hunk at line " ++ toString hunk.line ++ " was not found"
  let searchCursor ← match hunk.anchor with
    | none => .ok cursor
    | some anchor => match seekSequence sourceLines [anchor] cursor false with
      | none => .error notFound
      | some anchorIndex => .ok (anchorIndex + 1)
  let oldLines := (hunk.lines.filter (·.kind ≠ .add)).map (·.text)
  if oldLines = [] then
    let startIndex := if hunk.endOfFile then sourceLines.length else searchCursor
    return (⟨startIndex, 0, hunk.lines.map (·.text), hunkIndex⟩, startIndex)
  else match seekSequence sourceLines oldLines searchCursor hunk.endOfFile with
    | none => .error notFound
    | some startIndex => return (⟨startIndex, oldLines.length,
        replacementLines sourceLines startIndex 0 hunk.lines, hunkIndex⟩, startIndex + oldLines.length)

/-- The replacements of all hunks, in order. -/
def locateAll (sourceLines : List String) (rel : String) : ℕ → ℕ → List PatchHunk →
    Except String (List Replacement)
  | _, _, [] => .ok []
  | cursor, index, hunk :: hunks => match locateReplacement sourceLines hunk cursor index with
    | .error message => .error (rel ++ ": " ++ message)
    | .ok (replacement, next) => do
      let rest ← locateAll sourceLines rel next (index + 1) hunks
      return replacement :: rest

def spliceLines (lines : List String) (r : Replacement) : List String :=
  lines.take r.startIndex ++ r.replacementLines ++ lines.drop (r.startIndex + r.oldLength)

/-- The text of the updated file; the replacements are made from the last to the first. -/
def applyHunks (source : DecodedText) (hunks : List PatchHunk) (rel : String) : Except String String := do
  let (normalized, newline) ← detectNewline source.body rel
  let sourceLines := splitTextLines normalized
  let replacements ← locateAll sourceLines rel 0 0 hunks
  let sorted := sortBy (compareLex (descending (·.startIndex)) (descending (·.hunkIndex))) replacements
  let body := linesToText (sorted.foldl spliceLines sourceLines) newline
  return (if source.bom then "\uFEFF" else "") ++ body

/-! ### Paths -/

/-- A path below the workspace, as its segments. -/
abbrev Path := List String

instance : LawfulBEq Path := inferInstance

def Path.text (p : Path) : String := "/".intercalate p

/-- `normalizePatchPath`: whether the path is absolute, and its segments. -/
def normalizePatchPath (raw : String) : Except String (Bool × List String) := do
  let value := trim raw
  let absolute := value.startsWith "/"
  let segments := (splitAt '/' (value.toList.map fun c => if c = '\\' then '/' else c)).map String.ofList
  throwIf (value = "") "patch path cannot be empty"
  throwIf (value.toList.any (·.toNat = 0)) ("patch path contains a null byte: " ++ raw)
  throwIf (value.startsWith "~") ("patch path must not use '~': " ++ raw)
  throwIf (value.toList.head?.any (·.isAlpha) ∧ value.toList[1]? = some ':' ∧ ¬ absolute)
    ("patch path has an unsupported drive prefix: " ++ raw)
  throwIf (value.startsWith "\\" ∧ ¬ absolute) ("patch path has an unsupported absolute form: " ++ raw)
  throwIf (".." ∈ segments) ("patch path must not contain '..': " ++ raw)
  return (absolute, segments.filter fun s => s ≠ "" && s ≠ ".")

/-- The proper beginnings of a path that are below the workspace. -/
def properPrefixes (p : Path) : List Path := p.inits.filter fun q => q ≠ [] && q ≠ p

def isAncestorPath (parent child : Path) : Bool := parent.isPrefixOf child && parent ≠ child

def failAt {α : Type} (line : ℕ) (message : String) : Except String α :=
  .error ("line " ++ toString line ++ ": " ++ message)

/-- What `validatePatchPathConflicts` has seen. -/
structure SeenPaths where
  sources : List Path := []
  moveTargets : List Path := []

/-- The first loop: one operation after those that were seen. -/
def seeOperation (seen : SeenPaths) (op : PatchFileOperation Path) : Except String SeenPaths :=
  if op.path ∈ seen.sources then failAt op.line ("duplicate file operation path: " ++ op.path.text)
  else if op.path ∈ seen.moveTargets then
    failAt op.line ("path conflicts with a move target: " ++ op.path.text)
  else
    let sources := seen.sources ++ [op.path]
    match op.moveTarget with
    | none => .ok { seen with sources := sources }
    | some (target, line) =>
      if target = op.path then failAt line ("move target matches source: " ++ target.text)
      else if target ∈ sources then
        failAt line ("move target conflicts with a source path: " ++ target.text)
      else if target ∈ seen.moveTargets then failAt line ("duplicate move target: " ++ target.text)
      else .ok
        { sources := sources
          moveTargets := seen.moveTargets ++ [target] }

/-- The second loop: a move target that is the source of another operation. -/
def checkMoveTargets (ops : List (PatchFileOperation Path)) : Except String Unit :=
  match ops.findSome? fun op => op.moveTarget.filter fun t =>
    ops.any fun source => source.path = t.1 && source ≠ op with
  | none => .ok ()
  | some (target, line) => failAt line ("move target conflicts with a source path: " ++ target.text)

/-- The third loop: new files below new files. -/
def checkFinalTargets : List (Path × ℕ) → Except String Unit
  | [] => .ok ()
  | left :: targets =>
    match targets.find? fun right => isAncestorPath left.1 right.1 || isAncestorPath right.1 left.1 with
    | some right => failAt right.2 ("file targets conflict: " ++ left.1.text ++ " and " ++ right.1.text)
    | none => checkFinalTargets targets

def validatePatchPathConflicts (ops : List (PatchFileOperation Path)) : Except String Unit := do
  let _ ← ops.foldlM seeOperation {}
  checkMoveTargets ops
  checkFinalTargets (ops.filterMap (·.finalTarget))

end Memmy.Tools
