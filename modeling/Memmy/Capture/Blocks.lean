import Memmy.Capture.ContextTags

/-! # The text of a memory block leaves nothing behind

* `matchOpen_local`, `matchClose_local`: a tag is found or not found before the text behind it is looked at.
* `find_open`, `find_close`: what the two searches of a round answer at a block, whatever the block contains.
* `stripStep_earlier`, `stripStep_own`: one round of two passes over texts that differ in one block.
* `strip_of_sameBlock`, `sanitizeValue_of_valueStep`: texts, and values, that differ in the text of a
  block are captured alike. -/

namespace Memmy.Capture.Blocks

open Lib.JsonValue Lib.Scan Lib.Text Capture.ContextTags List Option

/-! ### Reading a tag -/

/-- What a tag is made of: no character of a bracket or a closing tag. -/
def IsTag (tag : List Char) : Prop := '<' ∉ tag ∧ '>' ∉ tag ∧ '/' ∉ tag ∧ tag.map Char.toLower = tag

instance (tag : List Char) : Decidable (IsTag tag) := by unfold IsTag; infer_instance

theorem isTag_of_mem : ∀ tag ∈ memoryContextTags, IsTag tag := by decide +kernel

variable {d : Char} {kind tag text : List Char}

variable {c name o : List Char} {m : List Char → Option (List Char)}

variable {inner rest : List Char}

theorem matchName_eq_some :
    matchName name text = some rest ↔ ∃ word, text = word ++ rest ∧ word.map Char.toLower = name := by
  induction name generalizing text with
  | nil =>
    simp only [matchName, some.injEq, map_eq_nil_iff]
    exact ⟨fun h => ⟨[], h, rfl⟩, fun ⟨_, h, hword⟩ => by rw [h, hword]; rfl⟩
  | cons c name ih =>
    cases text with
    | nil =>
      refine iff_of_false (nofun) ?_
      rintro ⟨word, hword, hname⟩
      rw [(append_eq_nil_iff.mp hword.symm).1] at hname
      cases hname
    | cons d text =>
      simp only [matchName]
      constructor
      · intro h
        split_ifs at h with hd
        obtain ⟨word, rfl, hname⟩ := ih.mp h
        exact ⟨d :: word, rfl, by rw [map_cons, hd, hname]⟩
      · rintro ⟨word, hword, hname⟩
        cases word with
        | nil => cases hname
        | cons e word =>
          obtain ⟨rfl, rfl⟩ := List.cons.inj hword
          obtain ⟨hd, hrest⟩ := List.cons.inj (by simpa using hname)
          rw [if_pos hd]
          exact ih.mpr ⟨word, rfl, hrest⟩

/-- A name stops at a `>` of the text that it does not contain before its own end. -/
theorem matchName_local (rest : List Char) (hname : '>' ∉ name.dropLast)
    (htext : '>' ∈ text) : matchName name (text ++ rest) = (matchName name text).map (· ++ rest) := by
  induction name generalizing text with
  | nil => rfl
  | cons c name ih =>
    cases text with
    | nil => cases htext
    | cons d text =>
      simp only [cons_append, matchName]
      split_ifs with hd
      · cases name with
        | nil => rfl
        | cons c' name =>
          rw [dropLast_cons_of_ne_nil (cons_ne_nil _ _), mem_cons, not_or] at hname
          refine ih hname.2 ?_
          rcases mem_cons.mp htext with rfl | htext
          · exact absurd hd hname.1
          · exact htext
      · rfl

theorem matchName_before (text rest : List Char) (hname : '<' ∉ name) :
    matchName name (text ++ '<' :: rest) = (matchName name text).map (· ++ '<' :: rest) := by
  induction name generalizing text with
  | nil => rfl
  | cons c name ih =>
    rw [mem_cons, not_or] at hname
    cases text with
    | nil => exact if_neg hname.1
    | cons d text =>
      simp only [cons_append, matchName]
      split_ifs
      · exact ih text hname.2
      · rfl

theorem matchName_open_before (rest : List Char) (hname : '<' ∉ name) (htext : text ≠ []) :
    matchName ('<' :: name) (text ++ '<' :: rest) =
      (matchName ('<' :: name) text).map (· ++ '<' :: rest) := by
  cases text with
  | nil => exact absurd rfl htext
  | cons d text =>
    simp only [cons_append, matchName]
    split_ifs
    · exact matchName_before text rest hname
    · rfl

/-- A character below the letters has no upper case. -/
theorem toLower_eq {c : Char} (hc : c.toNat < 65) (h : d.toLower = c) : d = c := by
  unfold Char.toLower at h
  split_ifs at h with hupper
  · exfalso
    have hlow : 65 ≤ d.val.toNat := hupper.1
    have hhigh : d.val.toNat ≤ 90 := hupper.2
    have hval : c.val = d.val + 32 := (congrArg Char.val h).symm
    have hsum : c.val.toNat = (d.val.toNat + 32) % 2 ^ 32 := by
      rw [hval, UInt32.toNat_add]
      rfl
    have hlt : c.val.toNat < 65 := hc
    omega
  · exact h

/-- A name that begins with a bracket is read at a bracket only. -/
theorem matchName_of_head (h : d ≠ '<') : matchName ('<' :: name) (d :: text) = none :=
  if_neg fun hd => h (toLower_eq (by decide) hd)

theorem matchTagEnd_local (rest : List Char) (htext : '>' ∈ text) :
    matchTagEnd (text ++ rest) = (matchTagEnd text).map (· ++ rest) := by
  cases text with
  | nil => cases htext
  | cons d text =>
    simp only [cons_append, matchTagEnd]
    split_ifs with hd hs
    · rfl
    · have hmem : '>' ∈ text := (mem_cons.mp htext).resolve_left fun h => hd h.symm
      have hdrop : text.dropWhile (· ≠ '>') ≠ [] := by
        intro hnil
        have := dropWhile_eq_nil_iff.mp hnil '>' hmem
        simp at this
      rw [dropWhile_append, if_neg (by simpa using hdrop)]
      cases hcase : text.dropWhile (· ≠ '>') with
      | nil => exact absurd hcase hdrop
      | cons e text' => rfl
    · rfl

/-- A tag ends at its first `>`. -/
theorem matchTagEnd_eq_some (h : matchTagEnd text = some rest) :
    ∃ body, text = body ++ '>' :: rest ∧ '>' ∉ body := by
  cases text with
  | nil => cases h
  | cons d text =>
    simp only [matchTagEnd] at h
    split_ifs at h with hd hs
    · cases h
      exact ⟨[], by rw [hd]; rfl, not_mem_nil⟩
    · have hsplit := takeWhile_append_dropWhile (p := (· ≠ '>')) (l := text)
      cases hdrop : text.dropWhile (· ≠ '>') with
      | nil =>
        rw [hdrop] at h
        cases h
      | cons e text' =>
        rw [hdrop] at h hsplit
        cases h
        have he : e = '>' := by
          have hhead := head?_dropWhile_not (· ≠ '>') text
          rw [hdrop] at hhead
          simpa using hhead
        subst he
        refine ⟨d :: text.takeWhile (· ≠ '>'), (congrArg (d :: ·) hsplit).symm, ?_⟩
        rw [mem_cons, not_or]
        refine ⟨fun h => hd h.symm, fun hmem => ?_⟩
        have := mem_takeWhile_imp hmem
        simp at this

/-! ### Opening and closing tags -/

theorem matchOpen_local (htag : IsTag tag) (rest : List Char) (htext : '>' ∈ text) :
    matchOpen tag (text ++ rest) = (matchOpen tag text).map (· ++ rest) := by
  have hname : '>' ∉ '<' :: tag := by simpa using htag.2.1
  unfold matchOpen
  rw [matchName_local rest (fun h => hname (dropLast_subset _ h)) htext]
  cases hm : matchName ('<' :: tag) text with
  | none => rfl
  | some middle =>
    obtain ⟨word, rfl, hword⟩ := matchName_eq_some.mp hm
    refine matchTagEnd_local rest ((mem_append.mp htext).resolve_left fun hmem => hname ?_)
    rw [← hword]
    exact mem_map.mpr ⟨'>', hmem, by decide⟩

theorem matchClose_local (htag : IsTag tag) (rest : List Char) (htext : '>' ∈ text) :
    matchClose tag (text ++ rest) = (matchClose tag text).map (· ++ rest) := by
  refine matchName_local rest (fun hmem => ?_) htext
  rw [← cons_append, ← cons_append, dropLast_concat] at hmem
  simp [htag.2.1] at hmem

theorem matchClose_before (htag : IsTag tag) (rest : List Char) (htext : text ≠ []) :
    matchClose tag (text ++ '<' :: rest) = (matchClose tag text).map (· ++ '<' :: rest) :=
  matchName_open_before rest (by simp [htag.1]) htext

theorem matchOpen_before (htag : IsTag tag) (rest : List Char) (htext : text ≠ [])
    (h : matchName ('<' :: tag) text = none) : matchOpen tag (text ++ '<' :: rest) = none := by
  unfold matchOpen
  rw [matchName_open_before rest htag.1 htext, h]
  rfl

theorem matchOpen_close (htag : IsTag tag) (text : List Char) : matchOpen tag ('<' :: '/' :: text) = none := by
  have hname : matchName ('<' :: tag) ('<' :: '/' :: text) = matchName tag ('/' :: text) := if_pos rfl
  unfold matchOpen
  rw [hname]
  cases tag with
  | nil => rfl
  | cons c tag =>
    have hc : matchName (c :: tag) ('/' :: text) = none := if_neg fun hd => htag.2.2.1 (by
      rw [← hd]
      exact mem_cons_self)
    rw [hc]
    rfl

theorem matchOpen_of_head (h : d ≠ '<') : matchOpen tag (d :: text) = none := by
  unfold matchOpen
  rw [matchName_of_head h]
  rfl

theorem matchClose_of_head (h : d ≠ '<') : matchClose tag (d :: text) = none := matchName_of_head h

/-- A search that can only begin at `<` passes a text that has none. -/
theorem skips_of_not_mem (hm : ∀ d text, d ≠ '<' → m (d :: text) = none)
    (h : '<' ∉ text) (rest : List Char) : Skips m text rest := by
  intro s hs hne
  cases s with
  | nil => exact absurd rfl hne
  | cons d s => exact hm d _ fun hd => h (hd ▸ hs.subset mem_cons_self)

/-! ### A block and the searches of a round -/

/-- An opening tag whose attributes contain no bracket. -/
def Opening (tag o : List Char) : Prop := matchOpen tag o = some [] ∧ '<' ∉ o.tail

def Closing (tag c : List Char) : Prop := matchClose tag c = some []

/-- No opening tag begins in the text, whether or not it ends there. -/
def NoOpenTag (tag text : List Char) : Prop := find (matchName ('<' :: tag)) text = none

def NoCloseTag (tag text : List Char) : Prop := find (matchClose tag) text = none

theorem Opening.shape (htag : IsTag tag) (h : Opening tag o) :
    ∃ body, o = '<' :: (body ++ ['>']) ∧ '>' ∉ body ∧ '<' ∉ body := by
  obtain ⟨hopen, htail⟩ := h
  obtain ⟨middle, hname, hend⟩ := bind_eq_some_iff.mp hopen
  obtain ⟨word, rfl, hword⟩ := matchName_eq_some.mp hname
  obtain ⟨body, rfl, hbody⟩ := matchTagEnd_eq_some hend
  cases word with
  | nil => cases hword
  | cons d word =>
    obtain ⟨hd, hrest⟩ := List.cons.inj (by simpa using hword)
    obtain rfl := toLower_eq (by decide) hd
    refine ⟨word ++ body, by simp, ?_, fun hmem => htail ?_⟩
    · rw [mem_append, not_or]
      refine ⟨fun hmem => htag.2.1 ?_, hbody⟩
      rw [← hrest]
      exact mem_map.mpr ⟨'>', hmem, by decide⟩
    · rw [cons_append, tail_cons, ← append_assoc]
      exact mem_append_left _ hmem

theorem Closing.shape (htag : IsTag tag) (h : Closing tag c) :
    ∃ body, c = '<' :: '/' :: (body ++ ['>']) ∧ body.map Char.toLower = tag ∧ '<' ∉ body := by
  obtain ⟨word, hc, hword⟩ := matchName_eq_some.mp h
  rw [append_nil] at hc
  subst hc
  obtain ⟨d₁, word₁, rfl, hd₁, hword₁⟩ := map_eq_cons_iff.mp hword
  obtain ⟨d₂, word₂, rfl, hd₂, hword₂⟩ := map_eq_cons_iff.mp hword₁
  obtain ⟨body, tail, rfl, hbody, htail⟩ := map_eq_append_iff.mp hword₂
  obtain ⟨d₃, rest, rfl, hd₃, hrest⟩ := map_eq_cons_iff.mp htail
  obtain rfl := map_eq_nil_iff.mp hrest
  obtain rfl := toLower_eq (by decide) hd₁
  obtain rfl := toLower_eq (by decide) hd₂
  obtain rfl := toLower_eq (by decide) hd₃
  refine ⟨body, rfl, hbody, fun hmem => htag.1 ?_⟩
  rw [← hbody]
  exact mem_map.mpr ⟨'<', hmem, by decide⟩

/-- What ends with `>` is read before what follows it. -/
theorem mem_of_suffix_concat (text : List Char) {s : List Char} (hs : s <:+ text ++ ['>'])
    (hne : s ≠ []) : '>' ∈ s := by
  obtain ⟨t, ht⟩ := hs
  have hlast : s.getLast? = some '>' := by
    have := congrArg List.getLast? ht
    rw [getLast?_append_of_ne_nil _ hne, getLast?_concat] at this
    exact this
  exact mem_of_getLast? hlast

/-- **Where an opening tag is found at a block:** before it, at its own tag (or behind an earlier tag that
takes this one for an attribute), or only behind what the block contains. -/
theorem find_open (htag : IsTag tag) (hkind : IsTag kind) (ho : Opening kind o) (pre : List Char) :
    (∃ b p, ∀ z, find (matchOpen tag) (pre ++ o ++ z) = some (b, p ++ o ++ z)) ∨
    (∃ b, ∀ z, find (matchOpen tag) (pre ++ o ++ z) = some (b, z)) ∨
    (tag ≠ kind ∧ ∀ z, find (matchOpen tag) (pre ++ o ++ z) =
      (find (matchOpen tag) z).map fun q => (pre ++ o ++ q.1, q.2)) := by
  obtain ⟨body, hshape, hbody, -⟩ := ho.shape hkind
  have hlocal : ∀ z, Local (matchOpen tag) (pre ++ o) z := by
    intro z s hs hne
    refine matchOpen_local htag z (mem_of_suffix_concat (pre ++ '<' :: body) ?_ hne)
    rwa [hshape, ← cons_append, ← append_assoc] at hs
  cases hfind : find (matchOpen tag) (pre ++ o) with
  | none =>
    refine Or.inr (Or.inr ⟨?_, fun z => ?_⟩)
    · rintro rfl
      have := find_eq_none hfind o (suffix_append _ _)
      rw [ho.1] at this
      cases this
    · rw [find_append rfl (hlocal z), hfind]
  | some q =>
    obtain ⟨b, r⟩ := q
    have hz : ∀ z, find (matchOpen tag) (pre ++ o ++ z) = some (b, r ++ z) := fun z => by
      rw [find_append rfl (hlocal z), hfind]
    obtain ⟨matched, hsplit, hmatched⟩ := find_eq_some hfind
    obtain ⟨middle, hname, hend⟩ := bind_eq_some_iff.mp hmatched
    obtain ⟨word, rfl, -⟩ := matchName_eq_some.mp hname
    obtain ⟨body', rfl, -⟩ := matchTagEnd_eq_some hend
    have hr : '>' :: r <:+ pre ++ o := ⟨b ++ (word ++ body'), by rw [hsplit]; simp⟩
    rcases suffix_or_suffix_of_suffix hr (suffix_append pre o) with hin | hout
    · -- the tag ends inside `o`, so at its end
      rcases eq_nil_or_concat r with rfl | ⟨r', d, rfl⟩
      · exact Or.inr (Or.inl ⟨b, hz⟩)
      · exfalso
        rw [hshape, ← cons_append] at hin
        obtain ⟨t, ht⟩ := hin
        rw [concat_eq_append, ← cons_append, ← append_assoc] at ht
        have hmem : '>' ∈ '<' :: body := by
          rw [← (append_inj' ht rfl).1]
          simp
        simp [hbody] at hmem
    · rcases suffix_cons_iff.mp hout with heq | ⟨p, hp⟩
      · rw [hshape] at heq
        cases heq
      · exact Or.inl ⟨b, p, fun z => by rw [hz z, ← hp]⟩

theorem Opening.matchClose_eq_none (hkind : IsTag kind) (ho : Opening kind o)
    (z : List Char) : matchClose tag (o ++ z) = none := by
  obtain ⟨body, hshape, -, -⟩ := ho.shape hkind
  rw [eq_none_iff_forall_ne_some]
  intro r hr
  obtain ⟨word, hsplit, hword⟩ := matchName_eq_some.mp hr
  obtain ⟨d₁, word₁, rfl, -, hword₁⟩ := map_eq_cons_iff.mp hword
  obtain ⟨d₂, word₂, rfl, hd₂, -⟩ := map_eq_cons_iff.mp hword₁
  obtain rfl := toLower_eq (by decide) hd₂
  have hopen := ho.1
  rw [hshape] at hsplit hopen
  cases body with
  | nil => cases hsplit
  | cons d body =>
    obtain ⟨-, hrest⟩ := List.cons.inj hsplit
    obtain ⟨rfl, -⟩ := List.cons.inj hrest
    rw [cons_append, matchOpen_close hkind] at hopen
    cases hopen

theorem find_close (htag : IsTag tag) (hkind : IsTag kind) (ho : Opening kind o) (pre : List Char) :
    (∃ x p, ∀ z, find (matchClose tag) (pre ++ o ++ z) = some (x, p ++ o ++ z)) ∨
    ∀ z, find (matchClose tag) (pre ++ o ++ z) =
      (find (matchClose tag) z).map fun q => (pre ++ o ++ q.1, q.2) := by
  obtain ⟨body, hshape, -, hbody⟩ := ho.shape hkind
  have hlocal : ∀ z, Local (matchClose tag) pre (o ++ z) := by
    intro z s _ hne
    rw [hshape, cons_append]
    exact matchClose_before htag _ hne
  have hskips : ∀ z, Skips (matchClose tag) o z := by
    intro z s hs hne
    rw [hshape] at hs
    rcases suffix_cons_iff.mp hs with rfl | hs
    · rw [← hshape]
      exact ho.matchClose_eq_none hkind z
    · have hno : '<' ∉ body ++ ['>'] := by simp [hbody]
      exact skips_of_not_mem (fun d text => matchClose_of_head) hno z s hs hne
  cases hfind : find (matchClose tag) pre with
  | none =>
    refine Or.inr fun z => ?_
    rw [append_assoc, find_append rfl (hlocal z), hfind, find_of_skips (hskips z), Option.map_map]
    simp [Function.comp_def]
  | some q =>
    obtain ⟨x, p⟩ := q
    refine Or.inl ⟨x, p, fun z => ?_⟩
    rw [append_assoc, find_append rfl (hlocal z), hfind, append_assoc]

/-- A closing tag is passed if no search begins at its start. -/
theorem Closing.skips (hm : ∀ d text, d ≠ '<' → m (d :: text) = none)
    (hkind : IsTag kind) (hc : Closing kind c) {post : List Char} (hstart : m (c ++ post) = none) :
    Skips m c post := by
  obtain ⟨body, hshape, -, hbody⟩ := hc.shape hkind
  intro s hs hne
  rw [hshape] at hs
  rcases suffix_cons_iff.mp hs with rfl | hs
  · rw [← hshape]
    exact hstart
  · have hno : '<' ∉ '/' :: (body ++ ['>']) := by simp [hbody]
    exact skips_of_not_mem hm hno post s hs hne

theorem find_open_behind (htag : IsTag tag) (hkind : IsTag kind)
    (hc : Closing kind c) (hinner : NoOpenTag tag inner) (post : List Char) :
    find (matchOpen tag) (inner ++ c ++ post) =
      (find (matchOpen tag) post).map fun q => (inner ++ c ++ q.1, q.2) := by
  obtain ⟨body, hshape, -, -⟩ := hc.shape hkind
  have hinside : Skips (matchOpen tag) inner (c ++ post) := by
    intro s hs hne
    rw [hshape, cons_append]
    exact matchOpen_before htag _ hne (find_eq_none hinner s hs)
  have hskips : Skips (matchOpen tag) c post := hc.skips (fun d text => matchOpen_of_head) hkind (by
    rw [hshape]
    exact matchOpen_close htag _)
  rw [append_assoc, find_of_skips hinside, find_of_skips hskips, Option.map_map]
  simp [Function.comp_def]

theorem find_close_own (hkind : IsTag kind) (hc : Closing kind c)
    (hinner : NoCloseTag kind inner) (post : List Char) :
    find (matchClose kind) (inner ++ c ++ post) = some (inner, post) := by
  obtain ⟨body, hshape, -, -⟩ := hc.shape hkind
  have hlocal : Local (matchClose kind) inner (c ++ post) := by
    intro s _ hne
    rw [hshape, cons_append]
    exact matchClose_before hkind _ hne
  have hfirst : matchClose kind (c ++ post) = some post := by
    rw [matchClose_local hkind post (by rw [hshape]; simp), show matchClose kind c = some [] from hc]
    rfl
  rw [append_assoc, find_append rfl hlocal, show find (matchClose kind) inner = none from hinner]
  rw [hshape, cons_append] at hfirst ⊢
  rw [find_cons_of_some hfirst, map_some, append_nil]

theorem find_close_behind (htag : IsTag tag) (hkind : IsTag kind)
    (hne : tag ≠ kind) (hc : Closing kind c) (hinner : NoCloseTag tag inner) (post : List Char) :
    find (matchClose tag) (inner ++ c ++ post) =
      (find (matchClose tag) post).map fun q => (inner ++ c ++ q.1, q.2) := by
  obtain ⟨body, hshape, hbody, -⟩ := hc.shape hkind
  have hlocal : Local (matchClose tag) inner (c ++ post) := by
    intro s _ hne
    rw [hshape, cons_append]
    exact matchClose_before htag _ hne
  have hother : matchClose tag (c ++ post) = none := by
    rw [matchClose_local htag post (by rw [hshape]; simp), map_eq_none_iff, eq_none_iff_forall_ne_some]
    intro r hr
    obtain ⟨word, hsplit, hword⟩ := matchName_eq_some.mp hr
    refine hne ?_
    have hlower : tag ++ '>' :: r.map Char.toLower = kind ++ ['>'] := by
      have := congrArg (List.map Char.toLower) (hshape.symm.trans hsplit)
      rw [map_append, hword] at this
      simpa [hbody, show Char.toLower '<' = '<' from by decide, show Char.toLower '/' = '/' from by decide,
        show Char.toLower '>' = '>' from by decide] using this.symm
    have hcut : ∀ (word rest : List Char), '>' ∉ word → (word ++ '>' :: rest).takeWhile (· ≠ '>') = word := by
      intro word rest hword
      have hpass : ∀ d ∈ word, decide (d ≠ '>') = true := fun d hd => decide_eq_true fun h => hword (h ▸ hd)
      rw [takeWhile_append_of_pos hpass]
      simp
    rw [← hcut tag _ htag.2.1, hlower, hcut kind _ hkind.2.1]
  rw [append_assoc, find_append rfl hlocal, show find (matchClose tag) inner = none from hinner]
  rw [find_of_skips (hc.skips (fun d text => matchClose_of_head) hkind hother), Option.map_map]
  simp [Function.comp_def]

/-! ### Texts that differ in one block -/

/-- **The text of a block of `kind`:** it does not close the block, and has no tag of a kind that is stripped
earlier. -/
def Contained (earlier : List (List Char)) (kind inner : List Char) : Prop :=
  NoCloseTag kind inner ∧ ∀ tag ∈ earlier, NoOpenTag tag inner ∧ NoCloseTag tag inner

/-- **The texts differ in the text of one closed block** of `kind`. -/
inductive SameBlock (earlier : List (List Char)) (kind : List Char) : List Char → List Char → Prop
  | vary {o c inner inner' : List Char} (pre post : List Char) (ho : Opening kind o) (hc : Closing kind c)
      (hinner : Contained earlier kind inner) (hinner' : Contained earlier kind inner') :
      SameBlock earlier kind (pre ++ o ++ (inner ++ c ++ post)) (pre ++ o ++ (inner' ++ c ++ post))

/-- What a round leaves of the rest behind an opening tag. -/
def dropBlock (tag before rest : List Char) : List Char :=
  match find (matchClose tag) rest with
  | none => trimEndChars before
  | some (_, after) => before ++ after

abbrev stripStep (tag : List Char) : List Char → Option (List Char) := replaceStep tag (fun _ => []) true

theorem stripStep_eq (tag text : List Char) :
    stripStep tag text = (find (matchOpen tag) text).map fun q => dropBlock tag q.1 q.2 := by
  unfold stripStep replaceStep
  cases find (matchOpen tag) text with
  | none => rfl
  | some q =>
    obtain ⟨before, rest⟩ := q
    simp only [map_some, dropBlock]
    cases find (matchClose tag) rest with
    | none => rfl
    | some q => simp

theorem dropBlock_of_map {before post : List Char} (skipped : List Char → List Char)
    (h : find (matchClose tag) rest = (find (matchClose tag) post).map fun q => (skipped q.1, q.2)) :
    dropBlock tag before rest = dropBlock tag before post := by
  unfold dropBlock
  rw [h]
  cases find (matchClose tag) post <;> rfl

theorem trimEndChars_tag (text behind : List Char) (d : Char) (hd : isJsSpace d = false) :
    trimEndChars (text ++ d :: behind) = text ++ d :: trimEndChars behind := by
  unfold trimEndChars
  rw [reverse_append, reverse_cons, append_assoc, dropWhile_append]
  by_cases hnil : behind.reverse.dropWhile isJsSpace = []
  · rw [if_pos (by simpa using hnil), hnil, singleton_append,
      dropWhile_cons_of_neg (by rw [hd]; exact Bool.false_ne_true)]
    simp
  · rw [if_neg (by simpa using hnil)]
    simp

section Rounds

variable {earlier : List (List Char)} {kind : List Char}

/-- What is left of two texts by the same round is the same or differs in the block again. -/
def Follows (earlier : List (List Char)) (kind : List Char) (u u' : List Char) : Prop :=
  u = u' ∨ SameBlock earlier kind u u'

/-- **A round that opens before the block**, or takes its opening tag for its own. -/
theorem follows_dropBlock {inner' : List Char} (htag : IsTag tag) (hkind : IsTag kind) (p post b : List Char)
    (ho : Opening kind o) (hc : Closing kind c) (hinner : Contained earlier kind inner)
    (hinner' : Contained earlier kind inner')
    (hdrop : dropBlock tag b (inner ++ c ++ post) = dropBlock tag b (inner' ++ c ++ post)) :
    Follows earlier kind (dropBlock tag b (p ++ o ++ (inner ++ c ++ post)))
      (dropBlock tag b (p ++ o ++ (inner' ++ c ++ post))) := by
  rcases find_close htag hkind ho p with ⟨x, p', hx⟩ | hx
  · right
    unfold dropBlock
    simp only [hx]
    have hb : ∀ i, b ++ (p' ++ o ++ (i ++ c ++ post)) = b ++ p' ++ o ++ (i ++ c ++ post) := fun i => by simp
    rw [hb, hb]
    exact .vary (b ++ p') post ho hc hinner hinner'
  · left
    rw [dropBlock_of_map (fun x => p ++ o ++ x) (hx _), dropBlock_of_map (fun x => p ++ o ++ x) (hx _), hdrop]

/-- **One round of an earlier pass** does the same to both texts. -/
theorem stripStep_earlier {t t' : List Char} (htag : IsTag tag) (hkind : IsTag kind) (hmem : tag ∈ earlier)
    (hne : tag ≠ kind) (h : SameBlock earlier kind t t') :
    (stripStep tag t = none ∧ stripStep tag t' = none) ∨
    ∃ u u', stripStep tag t = some u ∧ stripStep tag t' = some u' ∧ Follows earlier kind u u' := by
  obtain ⟨pre, post, ho, hc, hinner, hinner'⟩ := h
  rename_i o c inner inner'
  have hdrop : ∀ {i}, Contained earlier kind i → ∀ b,
      dropBlock tag b (i ++ c ++ post) = dropBlock tag b post := fun {i} hi _ =>
    dropBlock_of_map (fun x => i ++ c ++ x) (find_close_behind htag hkind hne hc (hi.2 tag hmem).2 post)
  rw [stripStep_eq, stripStep_eq]
  rcases find_open htag hkind ho pre with ⟨b, p, hz⟩ | ⟨b, hz⟩ | ⟨-, hz⟩
  · rw [hz, hz]
    exact Or.inr ⟨_, _, rfl, rfl, follows_dropBlock htag hkind p post b ho hc hinner hinner'
      ((hdrop hinner b).trans (hdrop hinner' b).symm)⟩
  · rw [hz, hz]
    refine Or.inr ⟨_, _, rfl, rfl, Or.inl ?_⟩
    exact (hdrop hinner b).trans (hdrop hinner' b).symm
  · rw [hz, hz, find_open_behind htag hkind hc (hinner.2 tag hmem).1 post,
      find_open_behind htag hkind hc (hinner'.2 tag hmem).1 post]
    cases hpost : find (matchOpen tag) post with
    | none => exact Or.inl ⟨rfl, rfl⟩
    | some q =>
      obtain ⟨b, r⟩ := q
      refine Or.inr ⟨_, _, rfl, rfl, Or.inr ?_⟩
      simp only
      unfold dropBlock
      cases find (matchClose tag) r with
      | none =>
        have hb : ∀ i, trimEndChars (pre ++ o ++ (i ++ c ++ b)) = pre ++ o ++ (i ++ c ++ trimEndChars b) := by
          intro i
          obtain ⟨body, hshape, -⟩ := hc.shape hkind
          have htrim := trimEndChars_tag (pre ++ o ++ i ++ '<' :: '/' :: body) b '>' (by decide)
          simpa [hshape] using htrim
        rw [hb, hb]
        exact .vary pre (trimEndChars b) ho hc hinner hinner'
      | some q =>
        have hb : ∀ i, pre ++ o ++ (i ++ c ++ b) ++ q.2 = pre ++ o ++ (i ++ c ++ (b ++ q.2)) := by simp
        simp only [hb]
        exact .vary pre (b ++ q.2) ho hc hinner hinner'

/-- **One round of the pass of the kind itself** comes to both texts, and takes the block out of them or
leaves it in both. -/
theorem stripStep_own {t t' : List Char} (hkind : IsTag kind) (h : SameBlock earlier kind t t') :
    ∃ u u', stripStep kind t = some u ∧ stripStep kind t' = some u' ∧ Follows earlier kind u u' := by
  obtain ⟨pre, post, ho, hc, hinner, hinner'⟩ := h
  rename_i o c inner inner'
  have hdrop : ∀ {i}, Contained earlier kind i → ∀ b, dropBlock kind b (i ++ c ++ post) = b ++ post := by
    intro i hi b
    unfold dropBlock
    rw [find_close_own hkind hc hi.1 post]
  rw [stripStep_eq, stripStep_eq]
  rcases find_open hkind hkind ho pre with ⟨b, p, hz⟩ | ⟨b, hz⟩ | ⟨hne, -⟩
  · rw [hz, hz]
    exact ⟨_, _, rfl, rfl, follows_dropBlock hkind hkind p post b ho hc hinner hinner'
      ((hdrop hinner b).trans (hdrop hinner' b).symm)⟩
  · rw [hz, hz]
    exact ⟨_, _, rfl, rfl, Or.inl ((hdrop hinner b).trans (hdrop hinner' b).symm)⟩
  · exact absurd rfl hne

/-- A pass of the loop. -/
abbrev stripBlocks (tag : List Char) : List Char → List Char := replaceTaggedBlocks tag (fun _ => []) true

theorem stripBlocks_eq (tag text : List Char) : stripBlocks tag text =
    match stripStep tag text with
    | none => text
    | some text' => stripBlocks tag text' :=
  replaceTaggedBlocks_eq (fun _ => Nat.zero_le _) text

theorem stripStep_length {text' : List Char} (h : stripStep tag text = some text') :
    text'.length < text.length :=
  replaceStep_length (fun _ => Nat.zero_le _) h

/-- **An earlier pass** leaves texts that differ in the block, or none that differ. -/
theorem stripBlocks_earlier {t t' : List Char} (htag : IsTag tag) (hkind : IsTag kind)
    (hmem : tag ∈ earlier) (hne : tag ≠ kind) (h : SameBlock earlier kind t t') :
    Follows earlier kind (stripBlocks tag t) (stripBlocks tag t') := by
  induction hlen : t.length using Nat.strong_induction_on generalizing t t' with
  | _ n ih =>
    subst hlen
    rw [stripBlocks_eq tag t, stripBlocks_eq tag t']
    rcases stripStep_earlier htag hkind hmem hne h with ⟨ht, ht'⟩ | ⟨u, u', ht, ht', hu⟩
    · rw [ht, ht']
      exact Or.inr h
    · rw [ht, ht']
      rcases hu with rfl | hu
      · exact Or.inl rfl
      · exact ih _ (stripStep_length ht) hu rfl

/-- **The pass of the kind itself** leaves the same text. -/
theorem stripBlocks_own {t t' : List Char} (hkind : IsTag kind) (h : SameBlock earlier kind t t') :
    stripBlocks kind t = stripBlocks kind t' := by
  induction hlen : t.length using Nat.strong_induction_on generalizing t t' with
  | _ n ih =>
    subst hlen
    obtain ⟨u, u', ht, ht', hu⟩ := stripStep_own hkind h
    rw [stripBlocks_eq kind t, stripBlocks_eq kind t', ht, ht']
    rcases hu with rfl | hu
    · rfl
    · exact ih _ (stripStep_length ht) hu rfl

theorem foldl_earlier (htags : ∀ tag ∈ earlier, IsTag tag ∧ tag ≠ kind) (hkind : IsTag kind) :
    ∀ {passes : List (List Char)}, passes ⊆ earlier → ∀ {t t' : List Char}, SameBlock earlier kind t t' →
      Follows earlier kind (passes.foldl (fun text tag => stripBlocks tag text) t)
        (passes.foldl (fun text tag => stripBlocks tag text) t')
  | [], _, _, _, h => Or.inr h
  | tag :: passes, hsub, _, _, h => by
    obtain ⟨hmem, hrest⟩ := cons_subset.mp hsub
    obtain ⟨htag, hne⟩ := htags tag hmem
    rw [foldl_cons, foldl_cons]
    rcases stripBlocks_earlier htag hkind hmem hne h with heq | hsame
    · rw [heq]
      exact Or.inl rfl
    · exact foldl_earlier htags hkind hrest hsame

end Rounds

/-- **Two texts differ in the text of one closed memory block.** -/
def BlockStep (t t' : List Char) : Prop :=
  ∃ earlier kind later, memoryContextTags = earlier ++ kind :: later ∧ SameBlock earlier kind t t'

theorem strip_of_sameBlock {t t' : List Char} (h : BlockStep t t') :
    stripMemoryContextBlocks t = stripMemoryContextBlocks t' := by
  obtain ⟨earlier, kind, later, hsplit, hsame⟩ := h
  have hnodup : (earlier ++ kind :: later).Nodup := by
    rw [← hsplit]
    decide +kernel
  have htags : ∀ tag ∈ earlier, IsTag tag ∧ tag ≠ kind := by
    intro tag htag
    refine ⟨isTag_of_mem tag (by rw [hsplit]; exact mem_append_left _ htag), fun heq => ?_⟩
    exact (nodup_append.mp hnodup).2.2 tag htag kind mem_cons_self heq
  have hkind : IsTag kind := isTag_of_mem kind (by rw [hsplit]; simp)
  unfold stripMemoryContextBlocks
  rw [hsplit, foldl_append, foldl_append, foldl_cons, foldl_cons]
  congr 1
  rcases foldl_earlier htags hkind (List.Subset.refl _) hsame with heq | hsame'
  · exact congrArg _ heq
  · exact stripBlocks_own hkind hsame'

/-- A tag of an earlier kind in the text of a block takes what follows the block. -/
example : stripMemoryContextBlocks "<memos_context>a</memos_context> yes".toList = " yes".toList ∧
    stripMemoryContextBlocks "<memos_context><memmy_memory_context></memos_context> yes".toList = [] := by
  decide +kernel

/-! ### Values -/

/-- **Two values differ in the text of one closed memory block** of a text somewhere in them. -/
inductive ValueStep : Json → Json → Prop
  | text {s s' : String} (h : BlockStep s.toList s'.toList) : ValueStep (.str s) (.str s')
  | item {j j' : Json} (before after : List Json) (h : ValueStep j j') :
      ValueStep (.arr (before ++ j :: after)) (.arr (before ++ j' :: after))
  | field {j j' : Json} (before after : List (String × Json)) (key : String) (h : ValueStep j j') :
      ValueStep (.obj (before ++ (key, j) :: after)) (.obj (before ++ (key, j') :: after))

theorem sanitizeText_of_blockStep {s s' : String} (h : BlockStep s.toList s'.toList) :
    sanitizeMemmyProtocolText s = sanitizeMemmyProtocolText s' := by
  unfold sanitizeMemmyProtocolText
  rw [strip_of_sameBlock h]

/-- **Values that differ in the text of a block** are captured alike. -/
theorem sanitizeValue_of_valueStep {j j' : Json} (h : ValueStep j j') :
    sanitizeMemmyProtocolValue j = sanitizeMemmyProtocolValue j' := by
  induction h with
  | text h => rw [sanitizeMemmyProtocolValue, sanitizeMemmyProtocolValue, sanitizeText_of_blockStep h]
  | item before after h ih =>
    simp only [sanitizeMemmyProtocolValue, sanitizeItems_eq, map_append, map_cons, ih]
  | field before after key h ih =>
    simp only [sanitizeMemmyProtocolValue, sanitizeFields_eq, map_append, map_cons, ih]

end Memmy.Capture.Blocks
