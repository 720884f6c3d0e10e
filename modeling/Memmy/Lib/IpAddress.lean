import Mathlib.Tactic

/-! # IP addresses, their texts and networks

An address is a number with a version, a network a range of such numbers. `denote` reads a text that is an
address of either version; an IPv6 text has eight groups, of which one run of zeros may be left out, the last
two may be written as an IPv4 address, and a zone may follow.

* `Network.contains_iff`: an address is in a network exactly when they agree before the network's last bits.
* `splitPairs_append_zone`, `splitOn_append_zone`: a zone without a colon lengthens the last piece only.
* `ofGroups_inj`: groups below `2 ^ 16` are determined by their number. -/

namespace Memmy.Lib.IpAddress

open List

inductive Version where
  | v4
  | v6
  deriving DecidableEq

/-- The length of an address. -/
def Version.bits : Version → ℕ
  | v4 => 32
  | v6 => 128

structure Address where
  version : Version
  value : ℕ
  deriving DecidableEq

/-! ### Networks -/

/-- The addresses that agree with `base` in the first `bits` bits. -/
structure Network where
  version : Version
  base : ℕ
  bits : ℕ
  deriving DecidableEq

namespace Network

def size (n : Network) : ℕ := 2 ^ (n.version.bits - n.bits)

/-- The first address of the network. -/
def first (n : Network) : ℕ := n.base - n.base % n.size

/-- **The network contains the address.** -/
def Contains (n : Network) (a : Address) : Prop :=
  a.version = n.version ∧ n.first ≤ a.value ∧ a.value < n.first + n.size

instance (n : Network) (a : Address) : Decidable (n.Contains a) := by
  unfold Contains; infer_instance

theorem contains_iff (n : Network) (a : Address) :
    n.Contains a ↔ a.version = n.version ∧ a.value / n.size = n.base / n.size := by
  have hpos : 0 < n.size := Nat.two_pow_pos _
  have hfirst : n.first = n.size * (n.base / n.size) := by
    have hdiv := Nat.div_add_mod n.base n.size
    unfold first
    omega
  refine and_congr_right fun _ => ?_
  rw [hfirst, Nat.div_eq_iff hpos, mul_comm]
  omega

end Network

/-! ### Embedded addresses -/

/-- The IPv4 address that an IPv6 address stands for: mapped, compatible (the unspecified address among
them), translated, behind a translator, in a 6to4 or a Teredo tunnel. -/
def embedded (value : ℕ) : Option ℕ :=
  if value / 2 ^ 32 ∈ [0, 0xffff, 0xffff0000, 0x64ff9b0000000000000000] then some (value % 2 ^ 32)
  else if value / 2 ^ 112 = 0x2002 then some (value / 2 ^ 80 % 2 ^ 32)
  else if value / 2 ^ 96 = 0x20010000 then some (2 ^ 32 - 1 - value % 2 ^ 32)
  else none

/-- The hosts that a packet to the address may reach. -/
def hosts : Address → List Address
  | ⟨.v4, value⟩ => [⟨.v4, value⟩]
  | ⟨.v6, value⟩ => ⟨.v6, value⟩ :: (embedded value).toList.map (⟨.v4, ·⟩)

/-! ### Digits and groups -/

def isHex (c : Char) : Bool := ('0' ≤ c && c ≤ '9') || ('a' ≤ c && c ≤ 'f') || ('A' ≤ c && c ≤ 'F')

def isDecimal (c : Char) : Bool := '0' ≤ c && c ≤ '9'

def digitValue (c : Char) : ℕ :=
  if c ≤ '9' then c.toNat - '0'.toNat
  else if c ≤ 'F' then c.toNat - 'A'.toNat + 10
  else c.toNat - 'a'.toNat + 10

/-- The number with these digits. -/
def ofDigits (base : ℕ) (digits : List Char) : ℕ := digits.foldl (fun acc c => acc * base + digitValue c) 0

/-- The number with these groups. -/
def ofGroups (base : ℕ) (groups : List ℕ) : ℕ := groups.foldl (fun acc g => acc * base + g) 0

/-! ### Texts -/

/-- A number up to 255 without leading zeros. -/
def isOctet (part : List Char) : Bool :=
  part.all isDecimal && part.length ∈ [1, 2, 3] && ofDigits 10 part ≤ 255 &&
    (part.length == 1 || part.head? != some '0')

def isIPv4 (text : List Char) : Bool := (text.splitOn '.').length == 4 && (text.splitOn '.').all isOctet

/-- The four numbers of an IPv4 text. -/
def octets (text : List Char) : List ℕ := (text.splitOn '.').map (ofDigits 10)

/-- The pieces between the double colons, which are found from the left. -/
def splitPairs : List Char → List (List Char)
  | [] => [[]]
  | ':' :: ':' :: rest => [] :: splitPairs rest
  | c :: rest => (splitPairs rest).modifyHead (c :: ·)

/-- The parts of a piece; an empty piece has none. -/
def partsOf (piece : List Char) : List (List Char) := if piece = [] then [] else piece.splitOn ':'

/-- One to four hexadecimal digits. -/
def isSeg (part : List Char) : Bool := part.all isHex && part.length ∈ [1, 2, 3, 4]

/-- What precedes the zone. -/
def addressOf (text : List Char) : List Char := text.takeWhile (· ≠ '%')

/-- The zone with its percent sign, empty where there is none. -/
def zoneOf (text : List Char) : List Char := text.dropWhile (· ≠ '%')

def isZoneChar (c : Char) : Bool :=
  isDecimal c || ('a' ≤ c && c ≤ 'z') || ('A' ≤ c && c ≤ 'Z') || c == '-' || c == '.' || c == ':'

def isZone : List Char → Bool
  | [] => true
  | _ :: name => name ≠ [] && name.all isZoneChar

/-- Parts of an IPv6 text: hexadecimal ones, the last of which may stand for an IPv4 address. -/
def areParts (parts : List (List Char)) : Bool :=
  parts.all isSeg || (parts.dropLast.all isSeg && (parts.getLast?.any isIPv4))

/-- The last part is an IPv4 address. -/
def hasQuad (parts : List (List Char)) : Bool := parts.getLast?.any fun part => !part.all isHex

/-- How many groups the parts stand for. -/
def countOf (parts : List (List Char)) : ℕ := parts.length + if hasQuad parts then 1 else 0

def isIPv6 (text : List Char) : Bool :=
  isZone (zoneOf text) &&
    match splitPairs (addressOf text) with
    | [piece] => areParts (partsOf piece) && countOf (partsOf piece) == 8
    | [left, right] => (partsOf left).all isSeg && areParts (partsOf right) &&
        (partsOf left).length + countOf (partsOf right) ≤ 7
    | _ => false

/-- The groups that a part stands for. -/
def groupsOf (part : List Char) : List ℕ :=
  if part.all isHex then [ofDigits 16 part]
  else match octets part with
    | [a, b, c, d] => [a * 256 + b, c * 256 + d]
    | _ => []

/-- The eight groups of an IPv6 text. -/
def groups (text : List Char) : List ℕ :=
  match splitPairs (addressOf text) with
  | [piece] => (partsOf piece).flatMap groupsOf
  | left :: right :: _ =>
    let before := (partsOf left).flatMap groupsOf
    let after := (partsOf right).flatMap groupsOf
    before ++ List.replicate (8 - before.length - after.length) 0 ++ after
  | [] => []

/-- **The address that a text denotes,** where it is the text of an address. -/
def denote (text : List Char) : Option Address :=
  if isIPv4 text then some ⟨.v4, ofGroups 256 (octets text)⟩
  else if isIPv6 text then some ⟨.v6, ofGroups (2 ^ 16) (groups text)⟩
  else none

example : denote "10.0.0.1".toList = some ⟨.v4, 0x0a000001⟩ := by decide +kernel

example : (denote "::ffff:127.0.0.1".toList).map hosts =
    some [⟨.v6, 0xffff7f000001⟩, ⟨.v4, 0x7f000001⟩] := by decide +kernel

/-! ### Numbers of digits and of groups -/

theorem ofGroups_eq (base : ℕ) (gs : List ℕ) : ofGroups base gs = Nat.ofDigits base gs.reverse := by
  unfold ofGroups
  induction gs using List.reverseRecOn with
  | nil => rfl
  | append_singleton gs g ih =>
    rw [foldl_append, ih, reverse_append]
    simp only [foldl_cons, foldl_nil, reverse_singleton, singleton_append, Nat.ofDigits_cons]
    rw [mul_comm, add_comm]

/-- **Groups of equal number are equal.** -/
theorem ofGroups_inj {base : ℕ} {gs gs' : List ℕ} (hbase : 1 < base) (hlength : gs.length = gs'.length)
    (hlt : ∀ g ∈ gs, g < base) (hlt' : ∀ g ∈ gs', g < base) (h : ofGroups base gs = ofGroups base gs') :
    gs = gs' := by
  rw [ofGroups_eq, ofGroups_eq] at h
  have hreverse := Nat.ofDigits_inj_of_len_eq hbase (by simpa using hlength) (by simpa using hlt)
    (by simpa using hlt') h
  exact reverse_injective hreverse

theorem ofDigits_snoc (base : ℕ) (digits : List Char) (c : Char) :
    ofDigits base (digits ++ [c]) = ofDigits base digits * base + digitValue c := by
  unfold ofDigits
  rw [foldl_append]
  rfl

theorem isHex_iff (c : Char) : isHex c = true ↔
    (48 ≤ c.toNat ∧ c.toNat ≤ 57) ∨ (97 ≤ c.toNat ∧ c.toNat ≤ 102) ∨ (65 ≤ c.toNat ∧ c.toNat ≤ 70) := by
  simp only [isHex, Bool.or_eq_true, Bool.and_eq_true, decide_eq_true_eq, Char.le_def,
    UInt32.le_iff_toNat_le, or_assoc]
  rfl

theorem isDecimal_iff (c : Char) : isDecimal c = true ↔ 48 ≤ c.toNat ∧ c.toNat ≤ 57 := by
  simp only [isDecimal, Bool.and_eq_true, decide_eq_true_eq, Char.le_def, UInt32.le_iff_toNat_le]
  rfl

variable {c : Char}

theorem isHex_of_isDecimal (h : isDecimal c = true) : isHex c = true :=
  (isHex_iff c).mpr (Or.inl ((isDecimal_iff c).mp h))

theorem digitValue_eq (c : Char) : digitValue c =
    if c.toNat ≤ 57 then c.toNat - 48 else if c.toNat ≤ 70 then c.toNat - 65 + 10 else c.toNat - 97 + 10 := by
  rfl

theorem digitValue_lt (h : isHex c = true) : digitValue c < 16 := by
  have hc := (isHex_iff c).mp h
  rw [digitValue_eq]
  split_ifs <;> omega

theorem digitValue_lt_ten (h : isDecimal c = true) : digitValue c < 10 := by
  have hc := (isDecimal_iff c).mp h
  rw [digitValue_eq, if_pos hc.2]
  omega

theorem ofDigits_lt {digits : List Char} (h : ∀ c ∈ digits, isHex c = true) :
    ofDigits 16 digits < 16 ^ digits.length := by
  induction digits using List.reverseRecOn with
  | nil => simp [ofDigits]
  | append_singleton digits c ih =>
    have hbefore := ih fun d hd => h d (mem_append_left _ hd)
    have hc := digitValue_lt (h c (by simp))
    rw [ofDigits_snoc, length_append, length_singleton, pow_succ]
    omega

/-! ### Splitting a text with a zone -/

variable {text zone : List Char}

theorem splitOn_append_zone (hzone : ':' ∉ zone) : ∀ text : List Char,
    ∃ pre last, text.splitOn ':' = pre ++ [last] ∧ (text ++ zone).splitOn ':' = pre ++ [last ++ zone]
  | [] => ⟨[], [], rfl, by rw [nil_append, splitOn_eq_singleton hzone]; rfl⟩
  | c :: text => by
    obtain ⟨pre, last, hsplit, happend⟩ := splitOn_append_zone hzone text
    rw [cons_append, splitOn_cons_eq_if_modifyHead, splitOn_cons_eq_if_modifyHead, hsplit, happend]
    by_cases hc : c = ':'
    · simp only [hc, beq_self_eq_true, if_true]
      exact ⟨[] :: pre, last, rfl, rfl⟩
    · simp only [beq_iff_eq, hc, if_false]
      cases pre with
      | nil => exact ⟨[], c :: last, rfl, rfl⟩
      | cons p pre => exact ⟨(c :: p) :: pre, last, rfl, rfl⟩

theorem splitPairs_cons (h : c ≠ ':' ∨ text.head? ≠ some ':') :
    splitPairs (c :: text) = (splitPairs text).modifyHead (c :: ·) := by
  rw [splitPairs.eq_def]
  split
  · rename_i heq
    cases heq
  · rename_i rest heq
    obtain ⟨rfl, rfl⟩ := List.cons.inj heq
    simp at h
  · rename_i heq
    obtain ⟨rfl, rfl⟩ := List.cons.inj heq
    rfl

theorem splitPairs_of_not_mem (h : ':' ∉ text) : splitPairs text = [text] := by
  induction text with
  | nil => rfl
  | cons c text ih =>
    rw [mem_cons, not_or] at h
    rw [splitPairs_cons (Or.inl (Ne.symm h.1)), ih h.2]
    rfl

theorem splitPairs_append_zone (hzone : ':' ∉ zone) (text : List Char) :
    ∃ pre last, splitPairs text = pre ++ [last] ∧ splitPairs (text ++ zone) = pre ++ [last ++ zone] := by
  induction text using splitPairs.induct with
  | case1 => exact ⟨[], [], rfl, by rw [nil_append, splitPairs_of_not_mem hzone]; rfl⟩
  | case2 rest ih =>
    obtain ⟨pre, last, hsplit, happend⟩ := ih
    refine ⟨[] :: pre, last, ?_, ?_⟩
    · rw [splitPairs, hsplit]; rfl
    · rw [cons_append, cons_append, splitPairs, happend]; rfl
  | case3 c rest hpair ih =>
    obtain ⟨pre, last, hsplit, happend⟩ := ih
    have hfirst : c ≠ ':' ∨ rest.head? ≠ some ':' := by
      by_contra hboth
      rw [not_or, not_not, not_not] at hboth
      obtain ⟨rest', rfl⟩ : ∃ rest', rest = ':' :: rest' := by
        cases rest with
        | nil => cases hboth.2
        | cons d rest' => exact ⟨rest', by rw [Option.some.inj hboth.2]⟩
      exact hpair rest' hboth.1 rfl
    have hfirst' : c ≠ ':' ∨ (rest ++ zone).head? ≠ some ':' := by
      refine hfirst.imp_right fun hrest => ?_
      cases rest with
      | nil =>
        cases zone with
        | nil => simp
        | cons z zone =>
          intro hz
          exact hzone (mem_cons.mpr (Or.inl (Option.some.inj hz).symm))
      | cons d rest => exact hrest
    rw [cons_append, splitPairs_cons hfirst, splitPairs_cons hfirst', hsplit, happend]
    cases pre with
    | nil => exact ⟨[], c :: last, rfl, rfl⟩
    | cons p pre => exact ⟨(c :: p) :: pre, last, rfl, rfl⟩

end Memmy.Lib.IpAddress
