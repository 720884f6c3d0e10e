import Memmy.Security.Network

/-! # What the guard reads

The guard counts an IPv4 address at the end of an IPv6 text as one group and reads the hexadecimal digits
before its first dot; a zone after the double colon it reads as a group that is not a number.

* `ipv6ToBigint_eq`: the groups that the guard reads, `readGroups`.
* `read_iff`: it reads the address of a text exactly when the zone does not follow the double colon and the
  groups behind the double colon are zero where the text ends in an IPv4 address. -/

namespace Memmy.Security.Reading

open Lib.IpAddress Lib.Result Lib.Text Security.Network List Option

/-! ### One part -/

variable {c : Char} {parts : List (List Char)} {part text : List Char}

theorem isJsSpace_of_isHex (h : isHex c = true) : isJsSpace c = false := by
  have hc := (isHex_iff c).mp h
  unfold isJsSpace
  simp only [Bool.or_eq_false_iff, Bool.and_eq_false_iff, decide_eq_false_iff_not, beq_eq_false_iff_ne]
  omega

theorem ne_of_isHex {d : Char} (h : isHex c = true) (hd : isHex d = false) : c ≠ d := by
  rintro rfl
  rw [h] at hd
  cases hd

theorem splitSign_of_isHex (h : isHex c = true) : splitSign (c :: text) = (false, c :: text) := by
  unfold splitSign
  split
  · rename_i heq
    exact absurd (List.cons.inj heq).1 (ne_of_isHex h rfl)
  · rename_i heq
    exact absurd (List.cons.inj heq).1 (ne_of_isHex h rfl)
  · rfl

theorem dropPrefix_cons (h : ∀ d, text.head? = some d → d ≠ 'x' ∧ d ≠ 'X') :
    dropPrefix (c :: text) = c :: text := by
  unfold dropPrefix
  split
  · rename_i heq
    exact absurd rfl (h 'x' (by rw [(List.cons.inj heq).2]; rfl)).1
  · rename_i heq
    exact absurd rfl (h 'X' (by rw [(List.cons.inj heq).2]; rfl)).2
  · rfl

/-- **The digits at the beginning are read,** where what follows them is neither a digit nor an `x`. -/
theorem parseHex_append {digits rest : List Char} (hne : digits ≠ []) (hhex : ∀ c ∈ digits, isHex c = true)
    (hrest : ∀ c, rest.head? = some c → isHex c = false ∧ c ≠ 'x' ∧ c ≠ 'X') :
    parseHex (digits ++ rest) = some (ofDigits 16 digits : ℤ) := by
  obtain ⟨c, digits', rfl⟩ := exists_cons_of_ne_nil hne
  have hc := hhex c mem_cons_self
  have hsecond : ∀ d, (digits' ++ rest).head? = some d → d ≠ 'x' ∧ d ≠ 'X' := by
    intro d hd
    cases digits' with
    | nil => exact (hrest d hd).2
    | cons e digits'' =>
      have he : e = d := some.inj hd
      have hhexd := hhex d (by simp [he])
      exact ⟨ne_of_isHex hhexd rfl, ne_of_isHex hhexd rfl⟩
  have htake : (c :: (digits' ++ rest)).takeWhile isHex = c :: digits' := by
    have hnone : rest.takeWhile isHex = [] := by
      cases rest with
      | nil => rfl
      | cons e rest => exact takeWhile_cons_of_neg (by rw [(hrest e rfl).1]; simp)
    rw [← cons_append, takeWhile_append_of_pos hhex, hnone, append_nil]
  unfold parseHex
  rw [cons_append, dropWhile_cons_of_neg (by rw [isJsSpace_of_isHex hc]; simp), splitSign_of_isHex hc]
  simp only [dropPrefix_cons hsecond, htake]
  rfl

/-- What the guard reads in a part. -/
def readValue (part : List Char) : ℕ := ofDigits 16 (part.takeWhile isHex)

theorem isSeg_iff (part : List Char) : isSeg part = true ↔
    (∀ c ∈ part, isHex c = true) ∧ part ≠ [] ∧ part.length ≤ 4 := by
  unfold isSeg
  rcases part with _ | ⟨a, _ | ⟨b, _ | ⟨c, _ | ⟨d, _ | ⟨e, part⟩⟩⟩⟩⟩ <;> simp

theorem takeWhile_of_isSeg (h : isSeg part = true) : part.takeWhile isHex = part :=
  takeWhile_eq_self_iff.mpr ((isSeg_iff part).mp h).1

theorem groupsOf_of_isSeg (h : isSeg part = true) : groupsOf part = [readValue part] := by
  unfold groupsOf readValue
  rw [takeWhile_of_isSeg h, if_pos (all_eq_true.mpr ((isSeg_iff part).mp h).1)]

theorem readValue_lt_of_isSeg (h : isSeg part = true) : readValue part < 2 ^ 16 := by
  obtain ⟨hhex, -, hlength⟩ := (isSeg_iff part).mp h
  unfold readValue
  rw [takeWhile_of_isSeg h]
  calc ofDigits 16 part < 16 ^ part.length := ofDigits_lt hhex
    _ ≤ 16 ^ 4 := Nat.pow_le_pow_right (by omega) hlength
    _ = 2 ^ 16 := by norm_num

theorem isOctet_spec (h : isOctet part = true) :
    (∀ c ∈ part, isDecimal c = true) ∧ part ≠ [] ∧ part.length ≤ 3 ∧ ofDigits 10 part ≤ 255 := by
  simp only [isOctet, Bool.and_eq_true, List.all_eq_true, decide_eq_true_eq] at h
  obtain ⟨⟨⟨hdecimal, hlength⟩, hvalue⟩, -⟩ := h
  refine ⟨hdecimal, ?_, ?_, hvalue⟩
  · rintro rfl
    simp at hlength
  · simp only [mem_cons, not_mem_nil, or_false] at hlength
    omega

/-- Read in base 16, an octet falls short of two hundred and fifty-six times its value, unless it is zero. -/
theorem octet_read (h : isOctet part = true) :
    ofDigits 16 part < 2 ^ 16 ∧ (ofDigits 10 part = 0 → ofDigits 16 part = 0) ∧
      (ofDigits 10 part ≠ 0 → ofDigits 16 part < ofDigits 10 part * 256) := by
  obtain ⟨hdecimal, hne, hlength, -⟩ := isOctet_spec h
  have hdigit : ∀ c ∈ part, digitValue c < 10 := fun c hc => digitValue_lt_ten (hdecimal c hc)
  rcases part with _ | ⟨a, _ | ⟨b, _ | ⟨c, _ | ⟨d, part⟩⟩⟩⟩
  · exact absurd rfl hne
  · have ha := hdigit a (by simp)
    simp only [ofDigits, foldl_cons, foldl_nil]
    omega
  · have ha := hdigit a (by simp)
    have hb := hdigit b (by simp)
    simp only [ofDigits, foldl_cons, foldl_nil]
    omega
  · have ha := hdigit a (by simp)
    have hb := hdigit b (by simp)
    have hc := hdigit c (by simp)
    simp only [ofDigits, foldl_cons, foldl_nil]
    omega
  · simp only [length_cons] at hlength
    omega

/-- A dotted text has four octets, and the guard reads the first. -/
theorem isIPv4_spec (h : isIPv4 part = true) : ∃ o₁ o₂ o₃ o₄ : List Char,
    part.splitOn '.' = [o₁, o₂, o₃, o₄] ∧ (∀ o ∈ [o₁, o₂, o₃, o₄], isOctet o = true) ∧
      part.takeWhile isHex = o₁ ∧ '.' ∈ part := by
  simp only [isIPv4, Bool.and_eq_true, beq_iff_eq, List.all_eq_true] at h
  obtain ⟨hlength, hoctets⟩ := h
  obtain ⟨o₁, o₂, o₃, o₄, hsplit⟩ := length_eq_four.mp hlength
  rw [hsplit] at hoctets
  have hpart : part = o₁ ++ '.' :: (o₂ ++ '.' :: (o₃ ++ '.' :: o₄)) := by
    have hback : ['.'].intercalate (part.splitOn '.') = part := intercalate_splitOn '.'
    rw [← hback, hsplit]
    simp [List.intercalate]
  have hhex : ∀ c ∈ o₁, isHex c = true := fun c hc =>
    isHex_of_isDecimal ((isOctet_spec (hoctets o₁ (by simp))).1 c hc)
  refine ⟨o₁, o₂, o₃, o₄, hsplit, hoctets, ?_, by rw [hpart]; simp⟩
  rw [hpart, takeWhile_append_of_pos hhex, takeWhile_cons_of_neg (by decide), append_nil]

/-- **The two groups of a dotted part** and what the guard reads in their place. -/
theorem groupsOf_of_isIPv4 (h : isIPv4 part = true) : ∃ x y : ℕ,
    groupsOf part = [x, y] ∧ x < 2 ^ 16 ∧ y < 2 ^ 16 ∧ readValue part < 2 ^ 16 ∧
      (x = 0 → readValue part = 0) ∧ (readValue part = x → x = 0) := by
  obtain ⟨o₁, o₂, o₃, o₄, hsplit, hoctets, hread, hdot⟩ := isIPv4_spec h
  have hle : ∀ o ∈ [o₁, o₂, o₃, o₄], ofDigits 10 o ≤ 255 := fun o ho => (isOctet_spec (hoctets o ho)).2.2.2
  obtain ⟨hlt, hzero, hshort⟩ := octet_read (hoctets o₁ (by simp))
  have h₁ := hle o₁ (by simp)
  have h₂ := hle o₂ (by simp)
  have h₃ := hle o₃ (by simp)
  have h₄ := hle o₄ (by simp)
  refine ⟨ofDigits 10 o₁ * 256 + ofDigits 10 o₂, ofDigits 10 o₃ * 256 + ofDigits 10 o₄, ?_, by omega, by omega,
    ?_, ?_, ?_⟩
  · unfold groupsOf octets
    rw [hsplit, if_neg]
    · rfl
    · rw [List.all_eq_true]
      intro hall
      exact absurd (hall '.' hdot) (by decide)
  · unfold readValue
    rw [hread]
    exact hlt
  · intro hx
    unfold readValue
    rw [hread]
    exact hzero (by omega)
  · unfold readValue
    rw [hread]
    omega

variable {piece zone : List Char}

theorem readPart_append (h : isSeg part = true ∨ isIPv4 part = true)
    (hzone : ∀ c, zone.head? = some c → c = '%') : readPart (part ++ zone) = .ok (readValue part : ℤ) := by
  have hdigits : part.takeWhile isHex ≠ [] ∧ ∀ c, (part.dropWhile isHex).head? = some c → c = '.' := by
    rcases h with h | h
    · rw [takeWhile_of_isSeg h, dropWhile_eq_nil_iff.mpr ((isSeg_iff part).mp h).1]
      exact ⟨((isSeg_iff part).mp h).2.1, nofun⟩
    · obtain ⟨o₁, o₂, o₃, o₄, hsplit, hoctets, hread, -⟩ := isIPv4_spec h
      have hpart : part = o₁ ++ '.' :: (o₂ ++ '.' :: (o₃ ++ '.' :: o₄)) := by
        have hback : ['.'].intercalate (part.splitOn '.') = part := intercalate_splitOn '.'
        rw [← hback, hsplit]
        simp [List.intercalate]
      have hdrop := takeWhile_append_dropWhile (p := isHex) (l := part)
      rw [hread, hpart] at hdrop
      have hrest := append_cancel_left hdrop
      rw [← hpart] at hrest
      rw [hread, hrest]
      exact ⟨(isOctet_spec (hoctets o₁ (by simp))).2.1, fun c hc => (some.inj hc).symm⟩
  have hne : part ≠ [] := by
    rintro rfl
    exact hdigits.1 rfl
  have hsplit : part ++ zone = part.takeWhile isHex ++ (part.dropWhile isHex ++ zone) := by
    rw [← append_assoc, takeWhile_append_dropWhile]
  unfold readPart
  rw [if_neg (by simp [hne]), hsplit, parseHex_append hdigits.1]
  · rfl
  · exact fun c hc => mem_takeWhile_imp hc
  · intro c hc
    have hchar : c = '.' ∨ c = '%' := by
      cases hdrop : part.dropWhile isHex with
      | nil => rw [hdrop] at hc; exact Or.inr (hzone c hc)
      | cons d rest => rw [hdrop] at hc hdigits; exact Or.inl (hdigits.2 c hc)
    rcases hchar with rfl | rfl <;> decide

/-! ### The parts of a text -/

/-- The groups that the guard reads. -/
def readGroups (text : List Char) : List ℕ :=
  match splitPairs (addressOf text) with
  | [piece] => (partsOf piece).map readValue ++ List.replicate (8 - (partsOf piece).length) 0
  | left :: right :: _ => (partsOf left).map readValue ++
      List.replicate (8 - (partsOf left).length - (partsOf right).length) 0 ++ (partsOf right).map readValue
  | [] => []

/-- The zone follows the double colon. -/
def DanglingZone (text : List Char) : Prop :=
  zoneOf text ≠ [] ∧ (splitPairs (addressOf text)).getLast? = some []

/-- A part is an IPv4 address. -/
def Dotted (text : List Char) : Prop :=
  ∃ piece ∈ splitPairs (addressOf text), ∃ part ∈ partsOf piece, '.' ∈ part

/-- The groups behind the double colon, or those of the last part. -/
def tailGroups (text : List Char) : List ℕ :=
  match splitPairs (addressOf text) with
  | [piece] => groupsOf ((partsOf piece).getLast?.getD [])
  | _ :: right :: _ => (partsOf right).flatMap groupsOf
  | [] => []

/-- **The guard reads the text right.** -/
def ReadRight (text : List Char) : Prop := ¬ DanglingZone text ∧ (Dotted text → ∀ g ∈ tailGroups text, g = 0)

instance (text : List Char) : Decidable (ReadRight text) := by
  unfold ReadRight DanglingZone Dotted; infer_instance

/-- The parts of an IPv6 text are hexadecimal, but for the last, which may be an IPv4 address. -/
theorem areParts_cases (h : areParts parts = true) :
    (∀ part ∈ parts, isSeg part = true) ∨ ∃ segs quad, parts = segs ++ [quad] ∧
      (∀ part ∈ segs, isSeg part = true) ∧ isIPv4 quad = true := by
  unfold areParts at h
  rw [Bool.or_eq_true, Bool.and_eq_true] at h
  rcases h with h | ⟨hsegs, hlast⟩
  · exact Or.inl (all_eq_true.mp h)
  · rcases eq_nil_or_concat parts with rfl | ⟨segs, quad, rfl⟩
    · simp at hlast
    · rw [concat_eq_append] at hsegs hlast ⊢
      rw [dropLast_concat] at hsegs
      rw [getLast?_concat] at hlast
      exact Or.inr ⟨segs, quad, rfl, all_eq_true.mp hsegs, hlast⟩

theorem areParts_part (h : areParts parts = true) : ∀ part ∈ parts, isSeg part = true ∨ isIPv4 part = true := by
  rcases areParts_cases h with hsegs | ⟨segs, quad, rfl, hsegs, hquad⟩
  · exact fun part hpart => Or.inl (hsegs part hpart)
  · intro part hpart
    rcases mem_append.mp hpart with hpart | hpart
    · exact Or.inl (hsegs part hpart)
    · rw [mem_singleton.mp hpart]
      exact Or.inr hquad

theorem countOf_of_segs (h : ∀ part ∈ parts, isSeg part = true) : countOf parts = parts.length := by
  have hquad : hasQuad parts = false := by
    unfold hasQuad
    cases hlast : parts.getLast? with
    | none => rfl
    | some part =>
      have hhex := all_eq_true.mpr ((isSeg_iff part).mp (h part (mem_of_getLast? hlast))).1
      rw [any_some, hhex]
      rfl
  rw [countOf, hquad]
  rfl

theorem countOf_of_quad {segs : List (List Char)} {quad : List Char} (h : isIPv4 quad = true) :
    countOf (segs ++ [quad]) = segs.length + 2 := by
  obtain ⟨-, -, -, -, -, -, -, hdot⟩ := isIPv4_spec h
  have hhex : quad.all isHex = false := by
    rw [Bool.eq_false_iff]
    intro hall
    exact absurd (all_eq_true.mp hall '.' hdot) (by decide)
  have hquad : hasQuad (segs ++ [quad]) = true := by
    unfold hasQuad
    rw [getLast?_concat, any_some, hhex]
    rfl
  rw [countOf, hquad, length_append]
  rfl

theorem flatMap_groupsOf (h : ∀ part ∈ parts, isSeg part = true) :
    parts.flatMap groupsOf = parts.map readValue := by
  induction parts with
  | nil => rfl
  | cons part parts ih =>
    rw [flatMap_cons, groupsOf_of_isSeg (h part mem_cons_self), ih fun p hp => h p (mem_cons_of_mem _ hp)]
    rfl

theorem not_mem_dot_of_isSeg (h : isSeg part = true) : '.' ∉ part := fun hdot =>
  absurd (((isSeg_iff part).mp h).1 '.' hdot) (by decide)

/-! ### What the guard reads in a text -/

/-- The guard reads the value in the part. -/
def Reads (part : List Char) (value : ℕ) : Prop := readPart part = .ok (value : ℤ)

theorem foldlM_readPart : ∀ {parts : List (List Char)} {values : List ℕ} (acc : ℕ),
    List.Forall₂ Reads parts values →
    parts.foldlM (fun acc part => do
      let value ← readPart part
      return acc * 2 ^ 16 + value) (acc : ℤ) =
      (.ok ((values.foldl (fun acc g => acc * 2 ^ 16 + g) acc : ℕ) : ℤ) : Except String ℤ)
  | [], [], _, _ => rfl
  | part :: parts, value :: values, acc, .cons hpart hparts => by
    rw [foldlM_cons, hpart]
    exact_mod_cast foldlM_readPart (acc * 2 ^ 16 + value) hparts

theorem reads_zero : Reads ['0'] 0 := by
  unfold Reads
  decide

theorem forall₂_replicate (n : ℕ) : List.Forall₂ Reads (List.replicate n ['0']) (List.replicate n 0) := by
  induction n with
  | zero => exact .nil
  | succ n ih =>
    exact .cons reads_zero ih

theorem forall₂_map (h : ∀ part ∈ parts, isSeg part = true ∨ isIPv4 part = true) :
    List.Forall₂ Reads parts (parts.map readValue) := by
  rw [List.forall₂_map_right_iff, List.forall₂_same]
  intro part hpart
  have hread := @readPart_append part [] (h part hpart) (nofun)
  rw [append_nil] at hread
  exact hread

theorem forall₂_zone (hcolon : ':' ∉ zone)
    (hzone : ∀ c, zone.head? = some c → c = '%') (hpiece : piece ≠ [])
    (h : ∀ part ∈ partsOf piece, isSeg part = true ∨ isIPv4 part = true) :
    List.Forall₂ Reads (partsOf (piece ++ zone)) ((partsOf piece).map readValue) := by
  obtain ⟨pre, last, hsplit, happend⟩ := splitOn_append_zone hcolon piece
  unfold partsOf at h ⊢
  rw [if_neg hpiece, hsplit] at h
  rw [if_neg (by simp [hpiece]), if_neg hpiece, hsplit, happend, map_append]
  refine rel_append (forall₂_map fun part hpart => h part (mem_append_left _ hpart)) ?_
  exact .cons (readPart_append (h last (by simp)) hzone) .nil

theorem zone_head (text : List Char) : ∀ c, (zoneOf text).head? = some c → c = '%' := by
  intro c hc
  have hhead := head?_dropWhile_not (fun c => decide (c ≠ '%')) text
  unfold zoneOf at hc
  rw [hc] at hhead
  simpa using hhead

theorem isIPv6_cases (h : isIPv6 text = true) :
    (∃ piece, splitPairs (addressOf text) = [piece] ∧ areParts (partsOf piece) = true ∧
      countOf (partsOf piece) = 8) ∨
    ∃ left right, splitPairs (addressOf text) = [left, right] ∧
      (∀ part ∈ partsOf left, isSeg part = true) ∧ areParts (partsOf right) = true ∧
      (partsOf left).length + countOf (partsOf right) ≤ 7 := by
  unfold isIPv6 at h
  rw [Bool.and_eq_true] at h
  obtain ⟨-, h⟩ := h
  split at h
  · rename_i piece hsplit
    simp only [Bool.and_eq_true, beq_iff_eq] at h
    exact Or.inl ⟨piece, hsplit, h.1, h.2⟩
  · rename_i left right hsplit
    simp only [Bool.and_eq_true, decide_eq_true_eq] at h
    exact Or.inr ⟨left, right, hsplit, all_eq_true.mp h.1.1, h.1.2, h.2⟩
  · cases h

theorem length_le_countOf (parts : List (List Char)) : parts.length ≤ countOf parts := by
  unfold countOf
  omega

theorem ipv6ToBigint_eq_foldlM (ip : List Char) : ipv6ToBigint ip =
    (fullParts ip >>= fun full => full.foldlM (fun acc part => do
      let value ← readPart part
      return acc * 2 ^ 16 + value) 0) := by
  unfold ipv6ToBigint
  by_cases hip : ip = [':', ':', '1']
  · rw [if_pos hip, hip]
    decide +kernel
  · rw [if_neg hip]

theorem fullParts_single (hcolon : ':' ∉ zoneOf text)
    (hsplit : splitPairs (addressOf text) = [piece]) (hle : (partsOf (piece ++ zoneOf text)).length ≤ 8) :
    fullParts text = .ok (partsOf (piece ++ zoneOf text) ++
      List.replicate (8 - (partsOf (piece ++ zoneOf text)).length) ['0']) := by
  obtain ⟨pre, last, hpre, happend⟩ := splitPairs_append_zone hcolon (addressOf text)
  have hsingle : [] ++ [piece] = pre ++ [last] := hsplit.symm.trans hpre
  obtain ⟨rfl, hlast⟩ := append_inj' hsingle rfl
  rw [← singleton_inj.mp hlast, nil_append] at happend
  unfold addressOf zoneOf at happend
  rw [takeWhile_append_dropWhile] at happend
  unfold fullParts
  rw [happend]
  have hnil : partsOf [] = [] := rfl
  simp only [getElem?_cons_zero, getD_some, getElem?_cons_succ, getElem?_nil,
    getD_none, hnil, length_nil, Nat.add_zero, Nat.sub_zero, append_nil]
  exact if_pos hle

theorem fullParts_pair {left right : List Char} (hcolon : ':' ∉ zoneOf text)
    (hsplit : splitPairs (addressOf text) = [left, right])
    (hle : (partsOf left).length + (partsOf (right ++ zoneOf text)).length ≤ 8) :
    fullParts text = .ok (partsOf left ++
      List.replicate (8 - (partsOf left).length - (partsOf (right ++ zoneOf text)).length) ['0'] ++
      partsOf (right ++ zoneOf text)) := by
  obtain ⟨pre, last, hpre, happend⟩ := splitPairs_append_zone hcolon (addressOf text)
  have hpair : [left] ++ [right] = pre ++ [last] := hsplit.symm.trans hpre
  obtain ⟨rfl, hlast⟩ := append_inj' hpair rfl
  rw [← singleton_inj.mp hlast] at happend
  unfold addressOf zoneOf at happend
  rw [takeWhile_append_dropWhile] at happend
  unfold fullParts
  rw [happend]
  exact if_pos hle

theorem ipv6ToBigint_of_parts {ip : List Char} {full : List (List Char)} {values : List ℕ}
    (hfull : fullParts ip = .ok full)
    (hvalues : List.Forall₂ Reads full values) :
    ipv6ToBigint ip = .ok (ofGroups (2 ^ 16) values : ℤ) := by
  have hfold := foldlM_readPart 0 hvalues
  rw [ipv6ToBigint_eq_foldlM, hfull]
  exact hfold

theorem forall₂_piece (hcolon : ':' ∉ zoneOf text)
    (hpiece : piece = [] → zoneOf text = []) (h : areParts (partsOf piece) = true) :
    List.Forall₂ Reads (partsOf (piece ++ zoneOf text)) ((partsOf piece).map readValue) := by
  by_cases hnil : piece = []
  · rw [hnil, hpiece hnil]
    exact .nil
  · exact forall₂_zone hcolon (zone_head text) hnil (areParts_part h)

/-- **The groups that the guard reads.** -/
theorem ipv6ToBigint_eq (h : isIPv6 text = true) (hcolon : ':' ∉ zoneOf text)
    (hzone : ¬ DanglingZone text) : ipv6ToBigint text = .ok (ofGroups (2 ^ 16) (readGroups text) : ℤ) := by
  rcases isIPv6_cases h with ⟨piece, hsplit, hparts, hcount⟩ | ⟨left, right, hsplit, hleft, hright, hcount⟩
  · have hpiece : piece = [] → zoneOf text = [] := by
      rintro rfl
      exact absurd hcount (by decide)
    have hread := forall₂_piece hcolon hpiece hparts
    have hlength := hread.length_eq
    rw [length_map] at hlength
    have hle := length_le_countOf (partsOf piece)
    have hfull := fullParts_single hcolon hsplit (by omega)
    have hvalues : readGroups text =
        (partsOf piece).map readValue ++ List.replicate (8 - (partsOf piece).length) 0 := by
      unfold readGroups
      rw [hsplit]
    rw [hvalues]
    rw [hlength] at hfull
    exact ipv6ToBigint_of_parts hfull (rel_append hread (forall₂_replicate _))
  · have hpiece : right = [] → zoneOf text = [] := by
      rintro rfl
      by_contra hne
      exact hzone ⟨hne, by rw [hsplit]; rfl⟩
    have hread := forall₂_piece hcolon hpiece hright
    have hlength := hread.length_eq
    rw [length_map] at hlength
    have hle := length_le_countOf (partsOf right)
    have hfull := fullParts_pair hcolon hsplit (by omega)
    have hvalues : readGroups text = (partsOf left).map readValue ++
        List.replicate (8 - (partsOf left).length - (partsOf right).length) 0 ++
        (partsOf right).map readValue := by
      unfold readGroups
      rw [hsplit]
    rw [hvalues]
    rw [hlength] at hfull
    have hbefore := forall₂_map fun part hpart => Or.inl (hleft part hpart)
    exact ipv6ToBigint_of_parts hfull
      (rel_append (rel_append hbefore (forall₂_replicate _)) hread)

theorem readPart_zone (hne : zone ≠ []) (h : ∀ c, zone.head? = some c → c = '%') :
    readPart zone = .error "The number NaN cannot be converted to a BigInt" := by
  obtain ⟨c, name, rfl⟩ := exists_cons_of_ne_nil hne
  obtain rfl := h c rfl
  have hnone : parseHex ('%' :: name) = none := by
    rfl
  unfold readPart
  rw [if_neg (by simp), hnone]

/-- A zone that follows the double colon makes the guard throw. -/
theorem ipv6ToBigint_dangling (h : isIPv6 text = true) (hcolon : ':' ∉ zoneOf text)
    (hzone : DanglingZone text) :
    ipv6ToBigint text = .error "The number NaN cannot be converted to a BigInt" := by
  obtain ⟨hne, hlast⟩ := hzone
  rcases isIPv6_cases h with ⟨piece, hsplit, hparts, hcount⟩ | ⟨left, right, hsplit, hleft, hright, hcount⟩
  · rw [hsplit] at hlast
    obtain rfl : piece = [] := some.inj hlast
    exact absurd hcount (by decide)
  · rw [hsplit] at hlast
    obtain rfl : right = [] := some.inj hlast
    have hparts : partsOf ([] ++ zoneOf text) = [zoneOf text] := by
      unfold partsOf
      rw [nil_append, if_neg hne, splitOn_eq_singleton hcolon]
    have hfull := fullParts_pair hcolon hsplit (by rw [hparts, length_singleton]; omega)
    rw [hparts] at hfull
    have hbefore := rel_append (forall₂_map fun part hpart => Or.inl (hleft part hpart))
      (forall₂_replicate (8 - (partsOf left).length - [zoneOf text].length))
    have hfold := foldlM_readPart 0 hbefore
    rw [Nat.cast_zero] at hfold
    rw [ipv6ToBigint_eq_foldlM, hfull, ok_bind, foldlM_append, hfold, ok_bind, foldlM_cons,
      readPart_zone hne (zone_head text), error_bind, error_bind]

/-! ### Right and wrong readings -/

theorem shift_eq_iff (h x y : ℕ) : ∀ l : List ℕ,
    0 :: (l ++ [h]) = l ++ [x, y] ↔ (∀ g ∈ l, g = 0) ∧ x = 0 ∧ h = y
  | [] => by
    simp only [nil_append, List.cons.injEq, and_true, not_mem_nil, false_implies, implies_true, true_and]
    exact and_congr_left fun _ => eq_comm
  | g :: l => by
    rw [cons_append, cons_append, List.cons.injEq, forall_mem_cons, and_assoc, ← shift_eq_iff h x y l]
    constructor
    · rintro ⟨rfl, heq⟩
      exact ⟨rfl, heq⟩
    · rintro ⟨rfl, heq⟩
      exact ⟨rfl, heq⟩

section
variable (h : areParts parts = true)
include h

theorem readGroups_lt : ∀ g ∈ parts.map readValue, g < 2 ^ 16 := by
  intro g hg
  obtain ⟨part, hpart, rfl⟩ := mem_map.mp hg
  rcases areParts_part h part hpart with hseg | hquad
  · exact readValue_lt_of_isSeg hseg
  · obtain ⟨x, y, -, -, -, hlt, -⟩ := groupsOf_of_isIPv4 hquad
    exact hlt

theorem groupsOf_lt : ∀ g ∈ parts.flatMap groupsOf, g < 2 ^ 16 := by
  intro g hg
  obtain ⟨part, hpart, hg⟩ := mem_flatMap.mp hg
  rcases areParts_part h part hpart with hseg | hquad
  · rw [groupsOf_of_isSeg hseg, mem_singleton] at hg
    rw [hg]
    exact readValue_lt_of_isSeg hseg
  · obtain ⟨x, y, hgroups, hx, hy, -⟩ := groupsOf_of_isIPv4 hquad
    rw [hgroups] at hg
    rcases mem_cons.mp hg with rfl | hg
    · exact hx
    · rw [mem_singleton.mp hg]
      exact hy

theorem length_groupsOf : (parts.flatMap groupsOf).length = countOf parts := by
  rcases areParts_cases h with hsegs | ⟨segs, quad, rfl, hsegs, hquad⟩
  · rw [flatMap_groupsOf hsegs, countOf_of_segs hsegs, length_map]
  · obtain ⟨x, y, hgroups, -⟩ := groupsOf_of_isIPv4 hquad
    rw [flatMap_append, flatMap_groupsOf hsegs, flatMap_singleton, hgroups,
      countOf_of_quad hquad, length_append, length_map]
    rfl

/-- **The reading of the parts behind the double colon** is right where the text has no IPv4 address, or
where all of them are zero. -/
theorem tail_iff {k : ℕ} (hk : countOf parts < k) :
    List.replicate (k - parts.length) 0 ++ parts.map readValue =
      List.replicate (k - countOf parts) 0 ++ parts.flatMap groupsOf ↔
    ((∃ part ∈ parts, '.' ∈ part) → ∀ g ∈ parts.flatMap groupsOf, g = 0) := by
  rcases areParts_cases h with hsegs | ⟨segs, quad, rfl, hsegs, hquad⟩
  · rw [countOf_of_segs hsegs, flatMap_groupsOf hsegs]
    refine iff_of_true rfl ?_
    rintro ⟨part, hpart, hdot⟩
    exact absurd hdot (not_mem_dot_of_isSeg (hsegs part hpart))
  · obtain ⟨x, y, hgroups, -, -, -, hzero, hshort⟩ := groupsOf_of_isIPv4 hquad
    obtain ⟨-, -, -, -, -, -, -, hdot⟩ := isIPv4_spec hquad
    rw [countOf_of_quad hquad] at hk ⊢
    obtain ⟨m, rfl⟩ : ∃ m, k = m + (segs.length + 2) := ⟨k - (segs.length + 2), by omega⟩
    have hleft : m + (segs.length + 2) - (segs ++ [quad]).length = m + 1 := by
      rw [length_append, length_singleton]
      omega
    rw [hleft, Nat.add_sub_cancel, replicate_succ', append_assoc, map_append,
      flatMap_append, flatMap_groupsOf hsegs, flatMap_singleton, hgroups,
      append_right_inj]
    have hshift := shift_eq_iff (readValue quad) x y (segs.map readValue)
    have hall : (∀ g ∈ segs.map readValue ++ [x, y], g = 0) ↔
        (∀ g ∈ segs.map readValue, g = 0) ∧ x = 0 ∧ y = 0 := by
      rw [forall_mem_append]
      simp
    rw [singleton_append, map_singleton, hshift, hall]
    constructor
    · rintro ⟨hbefore, hx, hy⟩ -
      exact ⟨hbefore, hx, by rw [← hy, hzero hx]⟩
    · intro hdotted
      obtain ⟨hbefore, hx, hy⟩ := hdotted ⟨quad, by simp, hdot⟩
      exact ⟨hbefore, hx, by rw [hzero hx, hy]⟩

end

section
variable (h : isIPv6 text = true)
include h

/-- **The groups that the guard reads are those of the text** exactly under the condition. -/
theorem readGroups_eq_iff : readGroups text = groups text ↔ (Dotted text → ∀ g ∈ tailGroups text, g = 0) := by
  rcases isIPv6_cases h with ⟨piece, hsplit, hparts, hcount⟩ | ⟨left, right, hsplit, hleft, hright, hcount⟩
  · unfold readGroups groups Dotted tailGroups
    rw [hsplit]
    simp only [mem_singleton, exists_eq_left]
    rcases areParts_cases hparts with hsegs | ⟨segs, quad, heq, hsegs, hquad⟩
    · rw [countOf_of_segs hsegs] at hcount
      rw [hcount, flatMap_groupsOf hsegs]
      refine iff_of_true (append_nil _) ?_
      rintro ⟨part, hpart, hdot⟩
      exact absurd hdot (not_mem_dot_of_isSeg (hsegs part hpart))
    · obtain ⟨x, y, hgroups, -, -, -, hzero, hshort⟩ := groupsOf_of_isIPv4 hquad
      obtain ⟨-, -, -, -, -, -, -, hdot⟩ := isIPv4_spec hquad
      rw [heq, countOf_of_quad hquad] at hcount
      rw [heq, getLast?_concat, getD_some, map_append, flatMap_append,
        flatMap_groupsOf hsegs, flatMap_singleton, hgroups, append_assoc, append_right_inj,
        length_append, length_singleton]
      have hmissing : 8 - (segs.length + 1) = 1 := by omega
      rw [hmissing]
      constructor
      · intro hread _ g hg
        obtain ⟨hx, hy, -⟩ : readValue quad = x ∧ 0 = y ∧ True := by simpa using hread
        rcases mem_cons.mp hg with rfl | hg
        · exact hshort hx
        · rw [mem_singleton.mp hg, ← hy]
      · intro hdotted
        have hall := hdotted ⟨quad, by simp, hdot⟩
        have hx := hall x (by simp)
        have hy := hall y (by simp)
        simp [hx, hy, hzero hx]
  · have hlength := length_groupsOf hright
    have hleft' := flatMap_groupsOf hleft
    have hdotted : Dotted text ↔ ∃ part ∈ partsOf right, '.' ∈ part := by
      unfold Dotted
      rw [hsplit]
      simp only [mem_cons, not_mem_nil, or_false, exists_eq_or_imp, exists_eq_left]
      refine or_iff_right ?_
      rintro ⟨part, hpart, hdot⟩
      exact not_mem_dot_of_isSeg (hleft part hpart) hdot
    have htail := tail_iff hright (k := 8 - (partsOf left).length) (by omega)
    rw [hdotted, tailGroups, hsplit]
    rw [← htail, readGroups, groups, hsplit]
    simp only
    rw [hleft', hlength, length_map, append_assoc, append_assoc, append_right_inj]

theorem readGroups_bounds : (readGroups text).length = 8 ∧ ∀ g ∈ readGroups text, g < 2 ^ 16 := by
  unfold readGroups
  rcases isIPv6_cases h with ⟨piece, hsplit, hparts, hcount⟩ | ⟨left, right, hsplit, hleft, hright, hcount⟩
  · have hle := length_le_countOf (partsOf piece)
    rw [hsplit]
    refine ⟨?_, ?_⟩
    · rw [length_append, length_map, length_replicate]
      omega
    · intro g hg
      rcases mem_append.mp hg with hg | hg
      · exact readGroups_lt hparts g hg
      · rw [eq_of_mem_replicate hg]
        norm_num
  · have hle := length_le_countOf (partsOf right)
    have hleft' : areParts (partsOf left) = true := by
      unfold areParts
      rw [all_eq_true.mpr hleft]
      rfl
    rw [hsplit]
    refine ⟨?_, ?_⟩
    · rw [length_append, length_append, length_map, length_map, length_replicate]
      omega
    · intro g hg
      rcases mem_append.mp hg with hg | hg
      · rcases mem_append.mp hg with hg | hg
        · exact readGroups_lt hleft' g hg
        · rw [eq_of_mem_replicate hg]
          norm_num
      · exact readGroups_lt hright g hg

theorem groups_bounds : (groups text).length = 8 ∧ ∀ g ∈ groups text, g < 2 ^ 16 := by
  unfold groups
  rcases isIPv6_cases h with ⟨piece, hsplit, hparts, hcount⟩ | ⟨left, right, hsplit, hleft, hright, hcount⟩
  · rw [hsplit]
    exact ⟨by rw [length_groupsOf hparts, hcount], groupsOf_lt hparts⟩
  · have hleft' : areParts (partsOf left) = true := by
      unfold areParts
      rw [all_eq_true.mpr hleft]
      rfl
    have hlength := length_groupsOf hright
    have hbefore : ((partsOf left).flatMap groupsOf).length = (partsOf left).length := by
      rw [flatMap_groupsOf hleft, length_map]
    rw [hsplit]
    refine ⟨?_, ?_⟩
    · rw [length_append, length_append, length_replicate, hbefore, hlength]
      omega
    · intro g hg
      rcases mem_append.mp hg with hg | hg
      · rcases mem_append.mp hg with hg | hg
        · exact groupsOf_lt hleft' g hg
        · rw [eq_of_mem_replicate hg]
          norm_num
      · exact groupsOf_lt hright g hg

/-- **The guard reads the address of a text** exactly where it reads it right. -/
theorem read_iff (hcolon : ':' ∉ zoneOf text) :
    ipv6ToBigint text = .ok (ofGroups (2 ^ 16) (groups text) : ℤ) ↔ ReadRight text := by
  unfold ReadRight
  by_cases hzone : DanglingZone text
  · rw [ipv6ToBigint_dangling h hcolon hzone]
    exact iff_of_false (nofun) fun hright => hright.1 hzone
  · rw [ipv6ToBigint_eq h hcolon hzone, ← readGroups_eq_iff h]
    refine ⟨fun heq => ⟨hzone, ?_⟩, fun heq => by rw [heq.2]⟩
    have hvalue : ofGroups (2 ^ 16) (readGroups text) = ofGroups (2 ^ 16) (groups text) := by
      exact_mod_cast Except.ok.inj heq
    obtain ⟨hlength, hlt⟩ := readGroups_bounds h
    obtain ⟨hlength', hlt'⟩ := groups_bounds h
    exact ofGroups_inj (by norm_num) (hlength.trans hlength'.symm) hlt hlt' hvalue

end

end Memmy.Security.Reading
