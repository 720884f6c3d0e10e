import Mathlib.Data.Char
import Mathlib.Data.List.Basic

/-! # Text as bytes

A decoder of UTF-8 takes the bytes one after the other. It keeps what it has of a character that is not complete, and
gives the replacement character for the bytes that cannot be a part of one.

* `feed_append`: **the cut of the bytes is immaterial** to what a decoder gives.
* `feed_encode`, `decode_encode`: a text that is written is read back. -/

namespace Memmy.Lib.Utf8

open List

def encodeChar (c : Char) : List ℕ :=
  let n := c.toNat
  if n < 0x80 then [n]
  else if n < 0x800 then [0xC0 + n / 64, 0x80 + n % 64]
  else if n < 0x10000 then [0xE0 + n / 4096, 0x80 + n / 64 % 64, 0x80 + n % 64]
  else [0xF0 + n / 262144, 0x80 + n / 4096 % 64, 0x80 + n / 64 % 64, 0x80 + n % 64]

def encode (text : List Char) : List ℕ := text.flatMap encodeChar

/-- The character that is not complete: how many bytes are missing, and the bounds of the next one. -/
structure Decoder where
  needed : ℕ := 0
  point : ℕ := 0
  low : ℕ := 0x80
  high : ℕ := 0xBF
deriving DecidableEq

def replacement : Char := '\uFFFD'

/-- The byte begins a character. -/
def Decoder.first (b : ℕ) : Decoder × List Char :=
  if b < 0x80 then ({}, [Char.ofNat b])
  else if 0xC2 ≤ b ∧ b ≤ 0xDF then ({ needed := 1, point := b - 0xC0 }, [])
  else if 0xE0 ≤ b ∧ b ≤ 0xEF then
    ({ needed := 2, point := b - 0xE0, low := if b = 0xE0 then 0xA0 else 0x80,
       high := if b = 0xED then 0x9F else 0xBF }, [])
  else if 0xF0 ≤ b ∧ b ≤ 0xF4 then
    ({ needed := 3, point := b - 0xF0, low := if b = 0xF0 then 0x90 else 0x80,
       high := if b = 0xF4 then 0x8F else 0xBF }, [])
  else ({}, [replacement])

def Decoder.step (s : Decoder) (b : ℕ) : Decoder × List Char :=
  if s.needed = 0 then first b
  else if s.low ≤ b ∧ b ≤ s.high then
    if s.needed = 1 then ({}, [Char.ofNat (s.point * 64 + (b - 0x80))])
    else ({ needed := s.needed - 1, point := s.point * 64 + (b - 0x80) }, [])
  else ((first b).1, replacement :: (first b).2)

def Decoder.feed (s : Decoder) : List ℕ → Decoder × List Char
  | [] => (s, [])
  | b :: bs => (((s.step b).1.feed bs).1, (s.step b).2 ++ ((s.step b).1.feed bs).2)

def Decoder.finish (s : Decoder) : List Char := if s.needed = 0 then [] else [replacement]

def decode (bytes : List ℕ) : List Char := (({} : Decoder).feed bytes).2 ++ (({} : Decoder).feed bytes).1.finish

variable (s : Decoder)

theorem Decoder.feed_append (bs bs' : List ℕ) :
    s.feed (bs ++ bs') = (((s.feed bs).1.feed bs').1, (s.feed bs).2 ++ ((s.feed bs).1.feed bs').2) := by
  induction bs generalizing s with
  | nil => rfl
  | cons b bs ih =>
    rw [cons_append, feed, feed, ih, append_assoc]

theorem encode_append (t t' : List Char) : encode (t ++ t') = encode t ++ encode t' := flatMap_append

/-- A character goes on with the byte. -/
theorem Decoder.feed_of_mem {b k : ℕ} {bs : List ℕ} (hneeded : s.needed = k + 2) (hlow : s.low ≤ b)
    (hhigh : b ≤ s.high) : s.feed (b :: bs) = feed { needed := k + 1, point := s.point * 64 + (b - 0x80) } bs := by
  have hstep : s.step b = ({ needed := k + 1, point := s.point * 64 + (b - 0x80) }, []) := by
    unfold step
    rw [if_neg (by omega), if_pos ⟨hlow, hhigh⟩, if_neg (by omega), hneeded]
    rfl
  rw [feed, hstep]
  rfl

/-- A character ends with the byte. -/
theorem Decoder.feed_last {b : ℕ} (hneeded : s.needed = 1) (hlow : s.low ≤ b) (hhigh : b ≤ s.high) :
    s.feed [b] = ({}, [Char.ofNat (s.point * 64 + (b - 0x80))]) := by
  rw [feed, step, if_neg (by omega), if_pos ⟨hlow, hhigh⟩, if_pos hneeded]
  rfl

open Decoder

/-- **A character that is written is read back.** -/
theorem feed_encodeChar (c : Char) : ({} : Decoder).feed (encodeChar c) = ({}, [c]) := by
  have hvalid : c.toNat < 0xD800 ∨ 0xDFFF < c.toNat ∧ c.toNat < 0x110000 := c.valid
  have hofNat : ∀ n, n = c.toNat → Char.ofNat n = c := fun n hn => hn ▸ Char.ofNat_toNat c
  have hfirst : ∀ b bs d, first b = (d, []) → ({} : Decoder).feed (b :: bs) = d.feed bs := by
    intro b bs d hd
    rw [feed, step, if_pos rfl, hd]
    rfl
  unfold encodeChar
  dsimp only
  split_ifs with h1 h2 h3
  · simp [feed, step, first, h1, hofNat]
  · rw [hfirst _ _ _ (by rw [first, if_neg (by omega), if_pos (by omega)]),
      feed_last _ rfl (by dsimp only; omega) (by dsimp only; omega), hofNat _ (by dsimp only; omega)]
  · rw [hfirst _ _ _ (by rw [first, if_neg (by omega), if_neg (by omega), if_pos (by omega)]),
      feed_of_mem _ rfl (by dsimp only; split_ifs <;> omega) (by dsimp only; split_ifs <;> omega),
      feed_last _ rfl (by dsimp only; omega) (by dsimp only; omega), hofNat _ (by dsimp only; omega)]
  · rw [hfirst _ _ _ (by rw [first, if_neg (by omega), if_neg (by omega), if_neg (by omega),
        if_pos (by omega)]),
      feed_of_mem _ rfl (by dsimp only; split_ifs <;> omega) (by dsimp only; split_ifs <;> omega),
      feed_of_mem _ rfl (by dsimp only; omega) (by dsimp only; omega),
      feed_last _ rfl (by dsimp only; omega) (by dsimp only; omega), hofNat _ (by dsimp only; omega)]

theorem feed_encode (text : List Char) : ({} : Decoder).feed (encode text) = ({}, text) := by
  induction text with
  | nil => rfl
  | cons c text ih =>
    unfold encode at ih ⊢
    rw [flatMap_cons, feed_append, feed_encodeChar, ih]
    rfl

theorem decode_encode (text : List Char) : decode (encode text) = text := by
  unfold decode
  rw [feed_encode]
  exact append_nil text

end Memmy.Lib.Utf8
