import Memmy.Lib.Run
import Memmy.Lib.Text
import Memmy.Lib.Utf8

/-! # The transcript file

`appendTranscriptObject` writes an object and the size of the file as one line. `readTranscriptChunk` returns the
lines after an offset, with the offset of what follows them.

* `Faithful`: the lines of the file are **the records that were written**, and a reader gets each of them once.
* `logged_of_whole`: so it is in every run in which each write leaves nothing or its whole line.
* `tornRun_loses`: a record is lost when its line is glued to a part of one. -/

namespace Memmy.Conversation.TranscriptFile

open Lib.Run Lib.Text Lib.Utf8 List

/-! ### Lines -/

def maxTranscriptFileBytes : ℕ := 128 * 1024 * 1024

/-- `text.trim()`. -/
def trimChars (cs : List Char) : List Char := trimEndChars (cs.dropWhile isJsSpace)

/-- `JSON.stringify` and `JSON.parse` on the records of a transcript. -/
structure JsonText (Dict : Type) where
  /-- `{ ...obj, transcript_offset }`. -/
  record : Dict → ℕ → Dict
  stringify : Dict → List Char
  /-- An object, or nothing for another text. -/
  parse : List Char → Option Dict
  parse_stringify : ∀ obj, parse (stringify obj) = some obj
  oneLine : ∀ obj, '\n' ∉ stringify obj ∧ '\r' ∉ stringify obj
  trimmed : ∀ obj, trimChars (stringify obj) = stringify obj ∧ stringify obj ≠ []

section Files
variable {Dict : Type} (json : JsonText Dict)

/-- `line.replace(/\r$/, "")`. -/
def dropReturn (line : List Char) : List Char := if line.getLast? = some '\r' then line.dropLast else line

/-- The lines of a file that are not empty; `trim` takes the carriage return that `split` leaves here. -/
def readTranscriptLines (file : List ℕ) : List Dict :=
  if maxTranscriptFileBytes < file.length then []
  else ((decode file).splitOn '\n').filterMap fun rawLine =>
    if trimChars rawLine = [] then none else json.parse (trimChars rawLine)

/-- `nextOffset` and `completeLines`; no file is an empty one. -/
def readTranscriptChunk (file : List ℕ) (offset : ℕ) : Option (ℕ × List (List Char)) :=
  if maxTranscriptFileBytes < file.length then none
  else
    let parts := (decode (file.drop (min offset file.length))).splitOn '\n'
    some (file.length - (encode (parts.getLastD [])).length, parts.dropLast.map dropReturn)

/-- The complete lines of the file. -/
def linesOf (file : List ℕ) : List (List Char) := ((decode file).splitOn '\n').dropLast.map dropReturn

def rawOf (obj : Dict) (startOffset : ℕ) : List Char := json.stringify (json.record obj startOffset)

/-- What is written for an object. -/
def lineOf (obj : Dict) (startOffset : ℕ) : List ℕ := encode (rawOf json obj startOffset ++ ['\n'])

/-- How an append ends: it returns, or it throws with so many bytes of the line written. -/
inductive Outcome
  | returned
  | failed (written : ℕ)

structure State (Dict : Type) where
  file : List ℕ := []
  /-- The objects whose append returned, with the `transcript_offset` that they got. -/
  appended : List (Dict × ℕ) := []
  /-- Where the reader goes on, and what it has got. -/
  nextOffset : ℕ := 0
  completeLines : List (List Char) := []

inductive Event (Dict : Type)
  | append (obj : Dict) (outcome : Outcome)
  | read

def appendTranscriptObject (s : State Dict) (obj : Dict) (outcome : Outcome) : State Dict :=
  let startOffset := s.file.length
  if maxTranscriptFileBytes < (encode (rawOf json obj startOffset)).length then s
  else
    match outcome with
    | .returned =>
      { s with
        file := s.file ++ lineOf json obj startOffset
        appended := s.appended ++ [(obj, startOffset)] }
    | .failed written => { s with file := s.file ++ (lineOf json obj startOffset).take written }

def step (s : State Dict) : Event Dict → State Dict
  | .append obj outcome => appendTranscriptObject json s obj outcome
  | .read =>
    match readTranscriptChunk s.file s.nextOffset with
    | none => s
    | some (nextOffset, lines) =>
      { s with
        nextOffset := nextOffset
        completeLines := s.completeLines ++ lines }

/-- **The file is a faithful log**: its records are those that were written, the appends that returned among them in
their order; each carries the byte at which its line starts; and what the reader has got and would get now are the
complete lines. -/
structure Faithful (s : State Dict) : Prop where
  logged : ∃ entries : List (Dict × ℕ), readTranscriptLines json s.file = entries.map (fun e => json.record e.1 e.2) ∧
    s.appended <+ entries ∧ (∀ e ∈ entries, lineOf json e.1 e.2 <+: s.file.drop e.2) ∧
      (entries.map Prod.snd).Pairwise (· < ·)
  read : ∃ nextOffset lines, readTranscriptChunk s.file s.nextOffset = some (nextOffset, lines) ∧
    s.completeLines ++ lines = linesOf s.file

/-- The write leaves nothing or its whole line, and the file does not grow beyond what is read. -/
def Whole (s : State Dict) : Event Dict → Prop
  | .append obj .returned => (encode (rawOf json obj s.file.length)).length ≤ maxTranscriptFileBytes →
      s.file.length + (lineOf json obj s.file.length).length ≤ maxTranscriptFileBytes
  | .append obj (.failed written) => (encode (rawOf json obj s.file.length)).length ≤ maxTranscriptFileBytes →
      written = 0 ∨ (lineOf json obj s.file.length).length ≤ written ∧
        s.file.length + (lineOf json obj s.file.length).length ≤ maxTranscriptFileBytes
  | .read => True

instance (s : State Dict) : ∀ e, Decidable (Whole json s e)
  | .append _ .returned => inferInstanceAs (Decidable (_ → _))
  | .append _ (.failed _) => inferInstanceAs (Decidable (_ → _ ∨ _ ∧ _))
  | .read => inferInstanceAs (Decidable True)

/-! ### What was written whole -/

def textOf (entries : List (Dict × ℕ)) : List Char := entries.flatMap fun e => rawOf json e.1 e.2 ++ ['\n']

variable {json} {entries : List (Dict × ℕ)}

theorem splitOn_textOf (entries : List (Dict × ℕ)) :
    (textOf json entries).splitOn '\n' = entries.map (fun e => rawOf json e.1 e.2) ++ [[]] := by
  have hline : ∀ e : Dict × ℕ, '\n' ∉ rawOf json e.1 e.2 := fun e => (json.oneLine _).1
  induction entries with
  | nil => rfl
  | cons e entries ih =>
    unfold textOf at ih ⊢
    rw [flatMap_cons, append_assoc, singleton_append, splitOn_append_cons_self_of_not_mem (hline e), ih]
    rfl

theorem dropReturn_rawOf (obj : Dict) (n : ℕ) : dropReturn (rawOf json obj n) = rawOf json obj n :=
  if_neg fun h => (json.oneLine _).2 (mem_of_getLast? h)

/-- **The lines of a text that was written** are its records. -/
theorem lines_textOf (entries : List (Dict × ℕ)) :
    ((textOf json entries).splitOn '\n').dropLast.map dropReturn = entries.map fun e => rawOf json e.1 e.2 := by
  rw [splitOn_textOf, dropLast_concat, map_map]
  exact map_congr_left fun e _ => dropReturn_rawOf e.1 e.2

theorem readTranscriptLines_textOf (hsize : (encode (textOf json entries)).length ≤ maxTranscriptFileBytes) :
    readTranscriptLines json (encode (textOf json entries)) = entries.map fun e => json.record e.1 e.2 := by
  unfold readTranscriptLines
  rw [if_neg (not_lt.mpr hsize), decode_encode, splitOn_textOf, filterMap_append, filterMap_map, ← filterMap_eq_map]
  refine (append_nil _).trans (filterMap_congr fun e _ => ?_)
  obtain ⟨htrim, hne⟩ := json.trimmed (json.record e.1 e.2)
  rw [Function.comp_apply, rawOf, htrim, if_neg hne, json.parse_stringify]
  rfl

theorem encode_textOf_cons (e : Dict × ℕ) (l : List (Dict × ℕ)) :
    encode (textOf json (e :: l)) = lineOf json e.1 e.2 ++ encode (textOf json l) := encode_append _ _

theorem length_lineOf_pos (obj : Dict) (n : ℕ) : 0 < (lineOf json obj n).length := by
  unfold lineOf
  rw [encode_append, length_append]
  exact Nat.add_pos_right _ Nat.one_pos

/-- Each entry has the place of its line, after so many bytes. -/
def PlacedFrom (json : JsonText Dict) : ℕ → List (Dict × ℕ) → Prop
  | _, [] => True
  | start, e :: l => e.2 = start ∧ PlacedFrom json (start + (lineOf json e.1 e.2).length) l

theorem PlacedFrom.concat {start : ℕ} (h : PlacedFrom json start entries) (obj : Dict) :
    PlacedFrom json start (entries ++ [(obj, start + (encode (textOf json entries)).length)]) := by
  induction entries generalizing start with
  | nil => exact ⟨rfl, trivial⟩
  | cons e l ih =>
    refine ⟨h.1, ?_⟩
    rw [encode_textOf_cons, length_append, ← Nat.add_assoc]
    exact ih h.2

/-- **A line starts at the byte that its record carries**, and the bytes increase. -/
theorem PlacedFrom.spec {start : ℕ} (h : PlacedFrom json start entries) :
    (∀ e ∈ entries, start ≤ e.2 ∧ lineOf json e.1 e.2 <+: (encode (textOf json entries)).drop (e.2 - start)) ∧
      (entries.map Prod.snd).Pairwise (· < ·) := by
  induction entries generalizing start with
  | nil => exact ⟨fun e he => absurd he not_mem_nil, Pairwise.nil⟩
  | cons e l ih =>
    obtain ⟨rfl, h⟩ := h
    obtain ⟨hplaces, hlt⟩ := ih h
    rw [encode_textOf_cons]
    refine ⟨fun x hx => ?_, pairwise_cons.mpr ⟨fun n hn => ?_, hlt⟩⟩
    · rcases mem_cons.mp hx with rfl | hx
      · rw [Nat.sub_self]
        exact ⟨le_rfl, prefix_append _ _⟩
      · obtain ⟨hle, hprefix⟩ := hplaces x hx
        refine ⟨by omega, ?_⟩
        rwa [show x.2 - e.2 = (lineOf json e.1 e.2).length + (x.2 - (e.2 + (lineOf json e.1 e.2).length)) by omega,
          drop_length_add_append]
    · obtain ⟨x, hx, rfl⟩ := mem_map.mp hn
      have hpos := @length_lineOf_pos _ json e.1 e.2
      have hle := (hplaces x hx).1
      omega

/-! ### Runs -/

/-- The entries that the reader has got, and those that it has not. -/
structure Inv (json : JsonText Dict) (s : State Dict) (got rest : List (Dict × ℕ)) : Prop where
  placed : PlacedFrom json 0 (got ++ rest)
  file : s.file = encode (textOf json (got ++ rest))
  size : s.file.length ≤ maxTranscriptFileBytes
  appended : s.appended <+ got ++ rest
  offset : s.nextOffset = (encode (textOf json got)).length
  lines : s.completeLines = got.map fun e => rawOf json e.1 e.2

variable {s : State Dict} {got rest : List (Dict × ℕ)}

/-- **A read** returns the lines that are left. -/
theorem Inv.chunk (h : Inv json s got rest) : readTranscriptChunk s.file s.nextOffset =
    some (s.file.length, rest.map fun e => rawOf json e.1 e.2) := by
  have htext : textOf json (got ++ rest) = textOf json got ++ textOf json rest := flatMap_append
  have hle : s.nextOffset ≤ s.file.length := by
    rw [h.offset, h.file, htext, encode_append, length_append]
    exact Nat.le_add_right _ _
  have hdrop : s.file.drop s.nextOffset = encode (textOf json rest) := by
    rw [h.offset, h.file, htext, encode_append, drop_left]
  unfold readTranscriptChunk
  rw [if_neg (not_lt.mpr h.size), Nat.min_eq_left hle, hdrop, decode_encode]
  dsimp only
  rw [lines_textOf, splitOn_textOf, getLastD_concat]
  rfl

theorem Inv.faithful (h : Inv json s got rest) : Faithful json s := by
  obtain ⟨hplaces, hlt⟩ := h.placed.spec
  refine ⟨⟨got ++ rest, ?_, h.appended, fun e he => ?_, hlt⟩, _, _, h.chunk, ?_⟩
  · rw [h.file]
    exact readTranscriptLines_textOf (h.file ▸ h.size)
  · rw [h.file]
    exact (hplaces e he).2
  · unfold linesOf
    rw [h.lines, ← map_append, h.file, decode_encode, lines_textOf]

theorem Inv.write (h : Inv json s got rest) (obj : Dict) {appended : List (Dict × ℕ)}
    (happended : appended <+ got ++ (rest ++ [(obj, s.file.length)]))
    (hsize : s.file.length + (lineOf json obj s.file.length).length ≤ maxTranscriptFileBytes) :
    Inv json { s with file := s.file ++ lineOf json obj s.file.length, appended := appended } got
      (rest ++ [(obj, s.file.length)]) := by
  have htext : s.file ++ lineOf json obj s.file.length =
      encode (textOf json (got ++ (rest ++ [(obj, s.file.length)]))) := by
    rw [← append_assoc, textOf, flatMap_append, encode_append]
    exact congrArg₂ _ h.file (congrArg encode (append_nil _)).symm
  refine ⟨?_, htext, by rwa [length_append], happended, h.offset, h.lines⟩
  have hplaced := h.placed.concat obj
  rwa [Nat.zero_add, ← h.file, append_assoc] at hplaced

theorem inv_step (h : Inv json s got rest) (e : Event Dict) (hwhole : Whole json s e) :
    ∃ got rest, Inv json (step json s e) got rest := by
  cases e with
  | read =>
    refine ⟨got ++ rest, [], ?_⟩
    unfold step
    rw [h.chunk]
    refine ⟨by rw [append_nil]; exact h.placed, by rw [append_nil]; exact h.file, h.size,
      by rw [append_nil]; exact h.appended, by rw [h.file], by rw [h.lines, map_append]⟩
  | append obj outcome =>
    unfold step appendTranscriptObject
    dsimp only
    split_ifs with hlarge
    · exact ⟨got, rest, h⟩
    · cases outcome with
      | returned =>
        refine ⟨got, _, h.write obj ?_ (hwhole (not_lt.mp hlarge))⟩
        rw [← append_assoc]
        exact h.appended.append (Sublist.refl _)
      | failed written =>
        dsimp only
        rcases hwhole (not_lt.mp hlarge) with rfl | ⟨hall, hsize⟩
        · rw [take_zero, append_nil]
          exact ⟨got, rest, h⟩
        · rw [take_of_length_le hall]
          refine ⟨got, _, h.write obj (h.appended.trans ?_) hsize⟩
          rw [← append_assoc]
          exact sublist_append_left _ _

/-- **The transcript file**: in a run whose writes leave nothing or a whole line, it is a faithful log. -/
theorem logged_of_whole (json : JsonText Dict) (es : List (Event Dict))
    (hwhole : ∀ t ∈ taken (step json) {} es, Whole json t.1 t.2) : ∀ s ∈ visited (step json) {} es, Faithful json s := by
  have hinv := invariant_of_steps (I := fun s => ∃ got rest, Inv json s got rest) (P := Whole json)
    (fun s e ⟨_, _, h⟩ he => inv_step h e he) es {}
    ⟨[], [], trivial, rfl, Nat.zero_le _, Sublist.refl _, rfl, rfl⟩ hwhole
  intro s hs
  obtain ⟨_, _, h⟩ := hinv s hs
  exact h.faithful

end Files

/-! ### Two runs -/

namespace Example

def plain (c : Char) : Bool := c ∉ ['{', '}', '\n', '\r']

/-- An object without objects in it, by the text between its braces. -/
structure Flat where
  body : List Char
  flat : body.all plain

def flatJson : JsonText Flat where
  record obj n :=
    { body := obj.body ++ ",\"transcript_offset\":".toList ++ Nat.toDigits 10 n
      flat := by
        have hkey : ",\"transcript_offset\":".toList.all plain := by decide
        rw [all_append, all_append, obj.flat, hkey]
        refine all_eq_true.mpr fun c hc => decide_eq_true fun hmem => ?_
        have hdigit := Nat.isDigit_of_mem_toDigits (by decide) (by decide) hc
        simp only [mem_cons, not_mem_nil, or_false] at hmem
        rcases hmem with rfl | rfl | rfl | rfl <;> exact absurd hdigit (by decide) }
  stringify obj := '{' :: (obj.body ++ ['}'])
  parse
    | '{' :: rest =>
      if h : rest.getLast? = some '}' ∧ rest.dropLast.all plain then some ⟨rest.dropLast, h.2⟩ else none
    | _ => none
  parse_stringify obj := by
    have h := obj.flat
    simp only [getLast?_concat, dropLast_concat]
    rw [dif_pos ⟨trivial, h⟩]
  oneLine obj := by
    constructor <;> intro hmem <;> simp at hmem <;> exact absurd (all_eq_true.mp obj.flat _ hmem) (by decide)
  trimmed obj := by
    refine ⟨?_, cons_ne_nil _ _⟩
    unfold trimChars trimEndChars
    rw [dropWhile_cons_of_neg (by decide), reverse_cons, reverse_append, reverse_singleton]
    simp [isJsSpace]

/-- `{"event":"user"}`. -/
def user : Flat := ⟨"\"event\":\"user\"".toList, by decide⟩

/-- A write that leaves nothing comes before one that succeeds. -/
def wholeRun : List (Event Flat) := [.append user .returned, .read, .append user (.failed 0), .append user .returned]

/-- The brace of the first line is in the file when the second one is written. -/
def tornRun : List (Event Flat) := [.append user (.failed 1), .append user .returned]

end Example

open Example

theorem logged_of_whole_wholeRun : Faithful flatJson (final (step flatJson) {} wholeRun) :=
  logged_of_whole flatJson wholeRun (by decide) _ (final_mem_visited _ _ _)

theorem tornRun_loses : ¬ ∀ (Dict : Type) (json : JsonText Dict) (es : List (Event Dict)),
    ∀ s ∈ visited (step json) {} es, Faithful json s := by
  intro h
  obtain ⟨⟨entries, hentries, happended, -⟩, -⟩ := h Flat flatJson tornRun _ (final_mem_visited _ _ _)
  rw [map_eq_nil_iff.mp hentries.symm] at happended
  have hlen := happended.length_le
  exact absurd hlen (by decide)

end Memmy.Conversation.TranscriptFile
