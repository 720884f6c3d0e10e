import Memmy.Lib.JsonValue
import Memmy.Lib.Scan

/-! # The tags around injected context

What the capture of a turn takes out of a text before it is stored (`utils/memmy-context-tags.ts`): the
blocks of recalled memory with their text, in one pass for each kind of tag, then the tags around the
user's own request, then superfluous blanks. A memory block that is not closed takes the rest of the text
with it. -/

namespace Memmy.Capture.ContextTags

open Lib.JsonValue Lib.Scan Lib.Text List

/-! ### The expressions -/

/-- The name at the start of the text, in either case, and what follows it. -/
def matchName : List Char → List Char → Option (List Char)
  | [], text => some text
  | _ :: _, [] => none
  | c :: name, d :: text => if d.toLower = c then matchName name text else none

/-- `(?:\s[^>]*)?>` -/
def matchTagEnd : List Char → Option (List Char)
  | [] => none
  | c :: text =>
    if c = '>' then some text
    else if isJsSpace c then
      match text.dropWhile (· ≠ '>') with
      | [] => none
      | _ :: rest => some rest
    else none

/-- `new RegExp("<tag(?:\\s[^>]*)?>", "i")` at the start of the text. -/
def matchOpen (tag : List Char) (text : List Char) : Option (List Char) :=
  matchName ('<' :: tag) text >>= matchTagEnd

/-- `new RegExp("</tag>", "i")` at the start of the text. -/
def matchClose (tag : List Char) (text : List Char) : Option (List Char) :=
  matchName ('<' :: '/' :: (tag ++ ['>'])) text

/-! ### The blocks -/

/-- One round of the loop of `replaceTaggedBlocks`; `none` where it returns. -/
def replaceStep (tag : List Char) (replace : List Char → List Char) (removeUnclosedTail : Bool)
    (text : List Char) : Option (List Char) :=
  match find (matchOpen tag) text with
  | none => none
  | some (before, rest) =>
    match find (matchClose tag) rest with
    | none => if removeUnclosedTail then some (trimEndChars before) else none
    | some (inner, after) => some (before ++ replace inner ++ after)

def replaceLoop (tag : List Char) (replace : List Char → List Char) (removeUnclosedTail : Bool) :
    ℕ → List Char → List Char
  | 0, text => text
  | n + 1, text =>
    match replaceStep tag replace removeUnclosedTail text with
    | none => text
    | some text' => replaceLoop tag replace removeUnclosedTail n text'

/-- `replaceTaggedBlocks`: each round takes out a tag, so the length of the text is rounds enough. -/
def replaceTaggedBlocks (tag : List Char) (replace : List Char → List Char) (removeUnclosedTail : Bool)
    (text : List Char) : List Char :=
  replaceLoop tag replace removeUnclosedTail (text.length + 1) text

/-- `MEMORY_CONTEXT_TAGS` -/
def memoryContextTags : List (List Char) :=
  ["memmy_memory_context".toList, "memos_context".toList, "memory_context".toList]

def currentUserRequestTag : List Char := "current_user_request".toList

def stripMemoryContextBlocks (text : List Char) : List Char :=
  memoryContextTags.foldl (fun text tag => replaceTaggedBlocks tag (fun _ => []) true text) text

def unwrapCurrentUserRequestBlocks (text : List Char) : List Char :=
  replaceTaggedBlocks currentUserRequestTag (fun inner => inner) false text

/-! ### Blanks -/

/-- `value.replace(/[ \t]+\n/g, "\n")` -/
def dropLineEndBlanks : List Char → List Char
  | [] => []
  | c :: text =>
    let rest := dropLineEndBlanks text
    if (c = ' ' ∨ c = '\t') ∧ rest.head? = some '\n' then rest else c :: rest

/-- `value.replace(/\n{3,}/g, "\n\n")` -/
def collapseNewlines : List Char → List Char
  | [] => []
  | c :: text =>
    let rest := collapseNewlines text
    if c = '\n' ∧ rest.take 2 = ['\n', '\n'] then rest else c :: rest

def normalizeProtocolWhitespace (text : List Char) : String :=
  trim (String.ofList (collapseNewlines (dropLineEndBlanks text)))

def sanitizeMemmyProtocolText (value : String) : String :=
  normalizeProtocolWhitespace (unwrapCurrentUserRequestBlocks (stripMemoryContextBlocks value.toList))

mutual

def sanitizeMemmyProtocolValue : Json → Json
  | .str s => .str (sanitizeMemmyProtocolText s)
  | .arr items => .arr (sanitizeItems items)
  | .obj fields => .obj (sanitizeFields fields)
  | .null => .null
  | .bool b => .bool b
  | .num n => .num n

def sanitizeItems : List Json → List Json
  | [] => []
  | item :: items => sanitizeMemmyProtocolValue item :: sanitizeItems items

def sanitizeFields : List (String × Json) → List (String × Json)
  | [] => []
  | (key, item) :: fields => (key, sanitizeMemmyProtocolValue item) :: sanitizeFields fields

end

/-! ### Recall tools -/

def isMemmyRecallToolName (name : Option String) : Bool :=
  name = some "memmy_memory_search" || name = some "memmy_memory_get"

def memmyRecallToolPlaceholder (name : Option String) : String :=
  let toolName := if isMemmyRecallToolName name then name.getD "" else "memmy_memory"
  "[memmy memory result omitted from capture: " ++ toolName ++ "]"

/-! ### How the values are read back -/

theorem sanitizeItems_eq (items : List Json) : sanitizeItems items = items.map sanitizeMemmyProtocolValue := by
  induction items with
  | nil => rfl
  | cons item items ih => rw [sanitizeItems, ih, map_cons]

theorem sanitizeFields_eq (fields : List (String × Json)) :
    sanitizeFields fields = fields.map fun f => (f.1, sanitizeMemmyProtocolValue f.2) := by
  induction fields with
  | nil => rfl
  | cons f fields ih => rw [sanitizeFields, ih, map_cons]

theorem get?_sanitizeFields (fields : List (String × Json)) (key : String) :
    JsonObject.get? (sanitizeFields fields) key =
      (JsonObject.get? fields key).map sanitizeMemmyProtocolValue := by
  rw [sanitizeFields_eq]
  unfold JsonObject.get?
  rw [find?_map, Option.map_map, Option.map_map]
  rfl

@[simp] theorem record?_sanitize (j : Json) :
    (sanitizeMemmyProtocolValue j).record? = j.record?.map sanitizeFields := by
  cases j <;> simp [sanitizeMemmyProtocolValue, Json.record?]

@[simp] theorem str?_sanitize (j : Json) :
    (sanitizeMemmyProtocolValue j).str? = j.str?.map sanitizeMemmyProtocolText := by
  cases j <;> simp [sanitizeMemmyProtocolValue, Json.str?]

/-! ### One pass -/

variable {text : List Char}

variable {rest : List Char}

theorem matchName_length {name : List Char} (h : matchName name text = some rest) :
    text.length = name.length + rest.length := by
  induction name generalizing text with
  | nil =>
    cases h
    exact (Nat.zero_add _).symm
  | cons c name ih =>
    cases text with
    | nil => cases h
    | cons d text =>
      unfold matchName at h
      split_ifs at h with hd
      have := ih h
      simp only [length_cons]
      omega

theorem matchTagEnd_length (h : matchTagEnd text = some rest) : rest.length < text.length := by
  cases text with
  | nil => cases h
  | cons c text =>
    simp only [matchTagEnd] at h
    split_ifs at h with hc hs
    · cases h
      exact Nat.lt_succ_self _
    · have hsuffix : text.dropWhile (· ≠ '>') <:+ text := dropWhile_suffix _
      cases hdrop : text.dropWhile (· ≠ '>') with
      | nil =>
        rw [hdrop] at h
        cases h
      | cons d rest' =>
        rw [hdrop] at h hsuffix
        cases h
        have := hsuffix.length_le
        simp only [length_cons] at this ⊢
        omega

variable {removeUnclosedTail : Bool} {tag : List Char} {replace : List Char → List Char}

theorem matchOpen_length (h : matchOpen tag text = some rest) : rest.length < text.length := by
  obtain ⟨middle, hname, hend⟩ := Option.bind_eq_some_iff.mp h
  have := matchName_length hname
  have := matchTagEnd_length hend
  omega

section
variable (hreplace : ∀ inner, (replace inner).length ≤ inner.length)
include hreplace

/-- **A round shortens the text.** -/
theorem replaceStep_length {text' : List Char}
    (h : replaceStep tag replace removeUnclosedTail text = some text') : text'.length < text.length := by
  unfold replaceStep at h
  cases hopen : find (matchOpen tag) text with
  | none =>
    rw [hopen] at h
    cases h
  | some p =>
    obtain ⟨before, rest⟩ := p
    simp only [hopen] at h
    obtain ⟨matched, rfl, hmatched⟩ := find_eq_some hopen
    have hshorter := matchOpen_length hmatched
    simp only [length_append]
    cases hclose : find (matchClose tag) rest with
    | none =>
      simp only [hclose] at h
      split_ifs at h
      cases h
      have := ( trimEndChars_prefix before).length_le
      omega
    | some q =>
      obtain ⟨inner, after⟩ := q
      simp only [hclose] at h
      cases h
      obtain ⟨closing, rfl, hclosing⟩ := find_eq_some hclose
      have := matchName_length hclosing
      have := hreplace inner
      simp only [length_append] at hshorter ⊢
      omega

theorem replaceLoop_eq {n n' : ℕ} (hn : text.length < n) (hn' : text.length < n') :
    replaceLoop tag replace removeUnclosedTail n text = replaceLoop tag replace removeUnclosedTail n' text := by
  induction n generalizing n' text with
  | zero => omega
  | succ n ih =>
    cases n' with
    | zero => omega
    | succ n' =>
      unfold replaceLoop
      cases hstep : replaceStep tag replace removeUnclosedTail text with
      | none => rfl
      | some text' =>
        have := replaceStep_length hreplace hstep
        exact ih (by omega) (by omega)

/-- **The loop runs to its end:** it goes on with what the round leaves until no round is left. -/
theorem replaceTaggedBlocks_eq (text : List Char) : replaceTaggedBlocks tag replace removeUnclosedTail text =
      match replaceStep tag replace removeUnclosedTail text with
      | none => text
      | some text' => replaceTaggedBlocks tag replace removeUnclosedTail text' := by
  unfold replaceTaggedBlocks
  rw [replaceLoop]
  cases hstep : replaceStep tag replace removeUnclosedTail text with
  | none => rfl
  | some text' =>
    have := replaceStep_length hreplace hstep
    exact replaceLoop_eq hreplace (by omega) (by omega)

end

example : sanitizeMemmyProtocolText "<memos_context a>x</MEMOS_context>  \nyes" = "yes" := by decide +kernel

end Memmy.Capture.ContextTags
