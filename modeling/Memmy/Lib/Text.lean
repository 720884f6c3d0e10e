import Mathlib.Data.List.DropRight
import Mathlib.Data.Rat.Floor
import Mathlib.Data.String.Basic

/-! # Text and numbers as JavaScript has them

A string is measured and cut in UTF-16 code units: a character outside the basic plane counts two
(`utf16Length`), and a cut between its two units leaves the replacement character, which is what
the halves become when the string is written as UTF-8 (`sliceUtf16`). `trim` removes the white
space and line ends of the language. A number is a finite rational or one of the values outside
(`JsNumber`). -/

namespace Memmy.Lib.Text

open List

/-- The UTF-16 code units of a character. -/
def utf16Size (c : Char) : ℕ := if c.toNat < 0x10000 then 1 else 2

/-- `text.length`. -/
def utf16Length (s : String) : ℕ := (s.toList.map utf16Size).sum

/-- The first `n` code units; half a pair at the end becomes `U+FFFD`. -/
def takeUtf16 : ℕ → List Char → List Char
  | _, [] => []
  | n, c :: cs =>
    if utf16Size c ≤ n then c :: takeUtf16 (n - utf16Size c) cs
    else if n = 0 then [] else ['\uFFFD']

/-- `text.slice(0, n)`. -/
def sliceUtf16 (s : String) (n : ℕ) : String := String.ofList (takeUtf16 n s.toList)

/-- The white space and line terminators that `trim` removes and `\s` matches. -/
def isJsSpace (c : Char) : Bool :=
  let n := c.toNat
  (9 ≤ n && n ≤ 13) || n == 0x20 || n == 0xA0 || n == 0x1680 || (0x2000 ≤ n && n ≤ 0x200A) ||
    n == 0x2028 || n == 0x2029 || n == 0x202F || n == 0x205F || n == 0x3000 || n == 0xFEFF

/-- `text.trimEnd()`, on characters. -/
def trimEndChars (cs : List Char) : List Char := (cs.reverse.dropWhile isJsSpace).reverse

/-- `text.trimEnd()`. -/
def trimEnd (s : String) : String := String.ofList (trimEndChars s.toList)

/-- `text.trim()`. -/
def trim (s : String) : String := String.ofList (trimEndChars (s.toList.dropWhile isJsSpace))

theorem trimEndChars_prefix (cs : List Char) : trimEndChars cs <+: cs := by
  have hsuffix : cs.reverse.dropWhile isJsSpace <:+ cs.reverse := dropWhile_suffix _
  have hbeginning := reverse_prefix.mpr hsuffix
  rwa [reverse_reverse] at hbeginning

@[simp] theorem trim_trim (s : String) : trim (trim s) = trim s := by
  unfold trim
  rw [String.toList_ofList]
  have hend : ∀ cs, trimEndChars (trimEndChars cs) = trimEndChars cs := fun cs => by
    unfold trimEndChars
    rw [reverse_reverse, dropWhile_idempotent]
  generalize hcs : s.toList.dropWhile isJsSpace = cs
  have hstart : (trimEndChars cs).dropWhile isJsSpace = trimEndChars cs := by
    cases hhead : trimEndChars cs with
    | nil => rfl
    | cons c rest =>
      obtain ⟨rest', hrest⟩ := trimEndChars_prefix cs
      have hfirst := head?_dropWhile_not isJsSpace s.toList
      rw [hcs, ← hrest, hhead] at hfirst
      have hc : isJsSpace c = false := hfirst
      rw [dropWhile_cons_of_neg (by rw [hc]; exact Bool.false_ne_true)]
  rw [hstart, hend]

/-- A number of the language. -/
inductive JsNumber where
  | finite (q : ℚ)
  | posInf
  | negInf
  | nan
  deriving DecidableEq

namespace JsNumber

/-- `Number.MAX_SAFE_INTEGER`. -/
def maxSafeInteger : ℕ := 2 ^ 53 - 1

/-- `Number.isSafeInteger(value)`, with the integer it is. -/
def safeInteger? : JsNumber → Option ℤ
  | finite q => if q.den = 1 ∧ q.num.natAbs ≤ maxSafeInteger then some q.num else none
  | _ => none

/-- `Math.floor` of a finite positive number, `0` for every other value. -/
def floorPositive : JsNumber → ℕ
  | finite q => ⌊q⌋.toNat
  | _ => 0

end JsNumber

/-! ### The order of texts -/

theorem append_lt_append_iff (s a b : String) : s ++ a < s ++ b ↔ a < b := by
  rw [String.lt_iff_toList_lt, String.lt_iff_toList_lt, String.toList_append, String.toList_append]
  induction s.toList with
  | nil => rfl
  | cons c cs ih =>
    simp [ih]

/-- **Texts with the same beginning** compare as what follows it. -/
theorem compare_append (s a b : String) : compare (s ++ a) (s ++ b) = compare a b := by
  change compareOfLessAndEq (s ++ a) (s ++ b) = compareOfLessAndEq a b
  unfold compareOfLessAndEq
  simp only [append_lt_append_iff, String.append_right_inj]

end Memmy.Lib.Text
