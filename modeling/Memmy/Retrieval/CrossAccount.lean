import Memmy.Lib.Blocks
import Memmy.Retrieval.CandidateGroups

/-! # One memory for each native turn

A memory denotes a native turn by what it and its session hold (`ownKey`). The deduplication has to
return the best memory of each turn, whatever the order of the candidates (`Deduplicated`).

* `class_iff_sameTurn`, `consistent_of_classes`: in every order the groups are the native turns exactly
  when it does not matter which memory of a session tells its conversation (`Consistent`).
* `deduplicated_iff`: the deduplication does what it has to do exactly when this holds and the memories of
  a turn do not disagree about a vector that the best of them lacks (`SameVectors`). -/

namespace Memmy.Retrieval.CandidateDedup

open Lib Lib.Groups List Option

variable {V : Type}

/-! ### Native turns -/

section Turns

variable (c : Context)

/-- The key of a memory that tells the conversation of its session itself. -/
def ownKey (m : MemoryRow V) : Option TurnKey := keyBy c m m

/-- Two memories have one native turn. -/
def OneTurn (m m' : MemoryRow V) : Prop := ∃ key, ownKey c m = some key ∧ ownKey c m' = some key

/-- **Two memories denote the same turn**: a memory without a native turn stands for itself. -/
def SameTurn (m m' : MemoryRow V) : Prop := m = m' ∨ OneTurn c m m'

/-- A run may learn the conversation of the session of `m` from `f`. -/
def Fills (f m : MemoryRow V) : Prop :=
  isTrace f = true ∧ sessionOf f = sessionOf m ∧ (sessionOf m).isSome = true

/-- **It does not matter from which memories the conversations are learnt**: two memories have equal keys
exactly when their own keys are equal. -/
def Consistent (l : List (MemoryRow V)) : Prop :=
  ∀ m ∈ l, ∀ m' ∈ l, m ≠ m' → ∀ f ∈ l, ∀ f' ∈ l, Fills f m → Fills f' m' →
    (sessionOf m = sessionOf m' → f = f') →
      ((∃ key, keyBy c f m = some key ∧ keyBy c f' m' = some key) ↔ OneTurn c m m')

variable {c} {l : List (MemoryRow V)} {f m m' : MemoryRow V}

theorem trace_of_keyBy {key : TurnKey} (h : keyBy c f m = some key) :
    isTrace m = true ∧ (sessionOf m).isSome = true := by
  unfold keyBy at h
  by_cases htrace : isTrace m = true
  · rw [if_pos htrace] at h
    cases hsession : sessionOf m with
    | some sessionId => exact ⟨htrace, rfl⟩
    | none =>
      rw [hsession] at h
      cases h
  · rw [if_neg htrace] at h
    cases h

/-- The trace that a run learns a session's conversation from. -/
theorem exists_filler (hm : m ∈ l) (htrace : isTrace m = true) (hsession : (sessionOf m).isSome = true) :
    ∃ f ∈ l, Fills f m ∧ (sessionOf m).bind (filler l) = some f ∧ usedKey c l m = keyBy c f m := by
  obtain ⟨sessionId, hs⟩ := isSome_iff_exists.mp hsession
  cases hfind : filler l sessionId with
  | none =>
    have hnone := find?_eq_none.mp hfind m hm
    exact absurd (by simp [htrace, hs]) hnone
  | some f =>
    have hsome := find?_some hfind
    rw [Bool.and_eq_true, decide_eq_true_eq] at hsome
    refine ⟨f, mem_of_find?_eq_some hfind, ⟨hsome.1, hsome.2.trans hs.symm, hsession⟩, ?_, ?_⟩
    · rw [hs, bind_some, hfind]
    · unfold usedKey
      rw [hs, bind_some, hfind, bind_some]

theorem classOf_eq_iff (hids : (l.map MemoryRow.id).Nodup) (hm : m ∈ l) (hm' : m' ∈ l) (hne : m ≠ m') :
    classOf c l m = classOf c l m' ↔ ∃ key, usedKey c l m = some key ∧ usedKey c l m' = some key := by
  unfold classOf
  cases hkey : usedKey c l m with
  | none =>
    cases hkey' : usedKey c l m' with
    | none =>
      refine ⟨fun he => absurd (eq_of_id hids hm hm' (ClassKey.single.inj he)) hne, ?_⟩
      rintro ⟨key, h, -⟩
      cases h
    | some key' => simp
  | some key =>
    cases hkey' : usedKey c l m' with
    | none => simp
    | some key' =>
      simp only [ClassKey.turn.injEq, some.injEq]
      exact ⟨fun he => ⟨key, rfl, he.symm⟩, fun ⟨k, hk, hk'⟩ => hk.trans hk'.symm⟩

theorem usedKey_some {key : TurnKey} (h : usedKey c l m = some key) :
    isTrace m = true ∧ (sessionOf m).isSome = true := by
  obtain ⟨sessionId, -, h⟩ := bind_eq_some_iff.mp h
  obtain ⟨f, -, h⟩ := bind_eq_some_iff.mp h
  exact trace_of_keyBy h

/-- **The classes of a run are the native turns**, in every order of a consistent list. -/
theorem class_iff_sameTurn (hids : (l.map MemoryRow.id).Nodup) (hconsistent : Consistent c l)
    {l' : List (MemoryRow V)} (hperm : l'.Perm l) (hm : m ∈ l') (hm' : m' ∈ l') :
    classOf c l' m = classOf c l' m' ↔ SameTurn c m m' := by
  by_cases hne : m = m'
  · exact ⟨fun _ => Or.inl hne, fun _ => by rw [hne]⟩
  have hids' : (l'.map MemoryRow.id).Nodup := (hperm.map _).nodup_iff.mpr hids
  rw [classOf_eq_iff hids' hm hm' hne, SameTurn, or_iff_right hne]
  by_cases hboth : (isTrace m = true ∧ (sessionOf m).isSome = true) ∧
      (isTrace m' = true ∧ (sessionOf m').isSome = true)
  · obtain ⟨f, hf, hfills, hfiller, hkey⟩ := exists_filler (c := c) hm hboth.1.1 hboth.1.2
    obtain ⟨f', hf', hfills', hfiller', hkey'⟩ := exists_filler (c := c) hm' hboth.2.1 hboth.2.2
    rw [hkey, hkey']
    refine hconsistent m (hperm.subset hm) m' (hperm.subset hm') hne f (hperm.subset hf) f' (hperm.subset hf')
      hfills hfills' fun hsession => ?_
    rw [hsession, hfiller'] at hfiller
    exact (some.inj hfiller).symm
  · constructor
    · rintro ⟨key, hkey, hkey'⟩
      exact absurd ⟨usedKey_some hkey, usedKey_some hkey'⟩ hboth
    · rintro ⟨key, hkey, hkey'⟩
      exact absurd ⟨trace_of_keyBy hkey, trace_of_keyBy hkey'⟩ hboth

/-- A list with the given memory first. -/
theorem exists_perm_cons {α : Type*} {x : α} {l : List α} (h : x ∈ l) : ∃ rest, (x :: rest).Perm l := by
  obtain ⟨before, after, rfl⟩ := append_of_mem h
  exact ⟨before ++ after, perm_middle.symm⟩

theorem usedKey_of_filler {sessionId : String} (hsession : sessionOf m = some sessionId)
    (hfiller : filler l sessionId = some f) : usedKey c l m = keyBy c f m := by
  unfold usedKey
  rw [hsession, bind_some, hfiller, bind_some]

/-- **If the classes are the native turns in every order**, it does not matter from which memories the
conversations are learnt. -/
theorem consistent_of_classes (hids : (l.map MemoryRow.id).Nodup)
    (h : ∀ l' : List (MemoryRow V), l'.Perm l → ∀ m ∈ l', ∀ m' ∈ l',
      (classOf c l' m = classOf c l' m' ↔ SameTurn c m m')) : Consistent c l := by
  intro m hm m' hm' hne f hf f' hf' hfills hfills' hsame
  obtain ⟨sessionId, hs⟩ := isSome_iff_exists.mp hfills.2.2
  obtain ⟨sessionId', hs'⟩ := isSome_iff_exists.mp hfills'.2.2
  have hfs : sessionOf f = some sessionId := hfills.2.1.trans hs
  have hfs' : sessionOf f' = some sessionId' := hfills'.2.1.trans hs'
  -- an order in which both sessions are filled by the given memories
  obtain ⟨l', hperm, hfiller, hfiller'⟩ : ∃ l' : List (MemoryRow V), l'.Perm l ∧
      filler l' sessionId = some f ∧ filler l' sessionId' = some f' := by
    obtain ⟨rest, hrest⟩ := exists_perm_cons hf
    by_cases hff : f = f'
    · refine ⟨f :: rest, hrest, ?_, ?_⟩
      · simp [filler, hfills.1, hfs]
      · subst hff
        simp [filler, hfills.1, hfs']
    · have hsessions : sessionId ≠ sessionId' := by
        intro he
        refine hff (hsame ?_)
        rw [hs, hs', he]
      have hmem : f' ∈ rest := by
        rcases mem_cons.mp (hrest.symm.subset hf') with he | he
        · exact absurd he.symm hff
        · exact he
      obtain ⟨rest', hrest'⟩ := exists_perm_cons hmem
      refine ⟨f :: f' :: rest', (hrest'.cons f).trans hrest, ?_, ?_⟩
      · simp [filler, hfills.1, hfs]
      · simp [filler, hfills'.1, hfs, hfs', hsessions]
  have hids' : (l'.map MemoryRow.id).Nodup := (hperm.map _).nodup_iff.mpr hids
  have hclass := h l' hperm m (hperm.symm.subset hm) m' (hperm.symm.subset hm')
  rw [classOf_eq_iff hids' (hperm.symm.subset hm) (hperm.symm.subset hm') hne, SameTurn, or_iff_right hne,
    usedKey_of_filler hs hfiller, usedKey_of_filler hs' hfiller'] at hclass
  exact hclass

end Turns

/-! ### What a class has, in any order -/

section Members
variable {best : Option ℚ}

variable {c : Context} {scores : String → Option ChannelScores} {members members' : List (MemoryRow V)}
  {r : MemoryRow V} {field : VectorField} {channel : RetrievalChannel}

/-- The order tells different ids apart. -/
theorem id_eq_of_isLE {x y : MemoryRow V} (h : (candidateOrder c scores x y).isLE = true)
    (h' : (candidateOrder c scores y x).isLE = true) : x.id = y.id := by
  have heq : candidateOrder c scores x y = .eq := Std.OrientedCmp.isLE_antisymm h h'
  unfold candidateOrder compareLex at heq
  rw [Ordering.then_eq_eq, Ordering.then_eq_eq, Ordering.then_eq_eq] at heq
  exact Std.compare_eq_iff_eq.mp heq.2.2.2

theorem foldl_attachMissing : ∀ (members : List (MemoryRow V)) (vectors : VectorState V),
    (members.foldl (fun vectors memory => attachMissing vectors memory.vectors) vectors).value field =
        (vectors.value field).or (members.findSome? fun memory => memory.vectors.value field) ∧
      (members.foldl (fun vectors memory => attachMissing vectors memory.vectors) vectors).dirty field =
        (vectors.dirty field || ((vectors.value field).isNone &&
          members.any fun memory => (memory.vectors.value field).isSome))
  | [], vectors => ⟨or_none.symm, by simp⟩
  | memory :: members, vectors => by
    obtain ⟨hvalue, hdirty⟩ := foldl_attachMissing members (attachMissing vectors memory.vectors)
    rw [foldl_cons, hvalue, hdirty, findSome?_cons, any_cons]
    unfold attachMissing
    dsimp only
    cases vectors.value field with
    | some v => simp
    | none => cases memory.vectors.value field <;> simp

theorem findSome?_perm (hperm : members'.Perm members)
    (hsame : ∀ m ∈ members, ∀ m' ∈ members, ∀ v v', m.vectors.value field = some v →
      m'.vectors.value field = some v' → v = v') :
    members'.findSome? (fun memory => memory.vectors.value field) =
      members.findSome? fun memory => memory.vectors.value field := by
  cases hfind : members.findSome? fun memory => memory.vectors.value field with
  | none =>
    rw [findSome?_eq_none_iff] at hfind ⊢
    exact fun m hm => hfind m (hperm.subset hm)
  | some v =>
    obtain ⟨m, hm, hv⟩ := exists_of_findSome?_eq_some hfind
    cases hfind' : members'.findSome? fun memory => memory.vectors.value field with
    | none =>
      rw [findSome?_eq_none_iff] at hfind'
      have hnone := hfind' m (hperm.symm.subset hm)
      rw [hv] at hnone
      cases hnone
    | some v' =>
      obtain ⟨m', hm', hv'⟩ := exists_of_findSome?_eq_some hfind'
      exact congrArg some (hsame m' (hperm.subset hm') m hm v' v hv' hv)

theorem attachVectors_perm (hperm : members'.Perm members)
    (hsame : ∀ field, r.vectors.value field = none → ∀ m ∈ members, ∀ m' ∈ members, ∀ v v',
      m.vectors.value field = some v → m'.vectors.value field = some v' → v = v') :
    attachVectors r members' = attachVectors r members := by
  unfold attachVectors
  rw [hperm.length_eq]
  congr 2
  have hstate : ∀ s s' : VectorState V, s.value = s'.value → s.dirty = s'.dirty → s = s' := by
    rintro ⟨value, dirty⟩ ⟨value', dirty'⟩ rfl rfl
    rfl
  refine hstate _ _ (funext fun field => ?_) (funext fun field => ?_)
  · rw [(foldl_attachMissing _ _).1, (foldl_attachMissing _ _).1]
    cases hvalue : r.vectors.value field with
    | some v => rfl
    | none => rw [findSome?_perm hperm (hsame field hvalue)]
  · rw [(foldl_attachMissing _ _).2, (foldl_attachMissing _ _).2, hperm.any_eq]

/-- The score of a memory in a channel. -/
def scoreOn (scores : String → Option ChannelScores) (id : String) (channel : RetrievalChannel) : Option ℚ :=
  (scores id).bind fun channels => channels channel

/-- **`best` is the greatest score of the members in a channel**, if one of them has a score there. -/
def Greatest (scores : String → Option ChannelScores) (members : List (MemoryRow V)) (channel : RetrievalChannel)
    (best : Option ℚ) : Prop :=
  (∀ m ∈ members, ∀ q, scoreOn scores m.id channel = some q → ∃ b, best = some b ∧ q ≤ b) ∧
    ∀ b, best = some b → ∃ m ∈ members, scoreOn scores m.id channel = some b

theorem Greatest.unique {best' : Option ℚ} (h : Greatest scores members channel best)
    (h' : Greatest scores members channel best') : best = best' := by
  cases best with
  | none =>
    cases best' with
    | none => rfl
    | some b' =>
      obtain ⟨m, hm, hq⟩ := h'.2 b' rfl
      obtain ⟨b, hb, -⟩ := h.1 m hm b' hq
      cases hb
  | some b =>
    obtain ⟨m, hm, hq⟩ := h.2 b rfl
    obtain ⟨b', hb', hle⟩ := h'.1 m hm b hq
    obtain ⟨m', hm', hq'⟩ := h'.2 b' hb'
    obtain ⟨b'', hb'', hle'⟩ := h.1 m' hm' b' hq'
    cases hb''
    rw [hb', le_antisymm hle hle']

theorem Greatest.congr (hmem : ∀ m, m ∈ members' ↔ m ∈ members)
    (h : Greatest scores members channel best) : Greatest scores members' channel best := by
  refine ⟨fun m hm => h.1 m ((hmem m).mp hm), fun b hb => ?_⟩
  obtain ⟨m, hm, hq⟩ := h.2 b hb
  exact ⟨m, (hmem m).mpr hm, hq⟩

theorem greatest_concat (h : Greatest scores members channel best) (m : MemoryRow V) :
    Greatest scores (members ++ [m]) channel (mergeChannel best (scoreOn scores m.id channel)) := by
  have hmem : ∀ x, x ∈ members ++ [m] ↔ x ∈ members ∨ x = m := by simp
  cases hscore : scoreOn scores m.id channel with
  | none =>
    refine ⟨fun x hx q hq => ?_, fun b hb => ?_⟩
    · rcases (hmem x).mp hx with hx | rfl
      · exact h.1 x hx q hq
      · rw [hscore] at hq
        cases hq
    · obtain ⟨x, hx, hq⟩ := h.2 b hb
      exact ⟨x, (hmem x).mpr (Or.inl hx), hq⟩
  | some score =>
    -- the greater one is at least both, and is one of them
    obtain ⟨b, hb, hle, hlast, hone⟩ : ∃ b, mergeChannel best (some score) = some b ∧
        (∀ q, best = some q → q ≤ b) ∧ score ≤ b ∧ (best = some b ∨ b = score) := by
      cases best with
      | none =>
        refine ⟨score, rfl, fun q hq => ?_, le_refl _, Or.inr rfl⟩
        cases hq
      | some current =>
        unfold mergeChannel
        dsimp only
        by_cases hlt : current < score
        · refine ⟨score, by rw [if_pos hlt], fun q hq => ?_, le_refl _, Or.inr rfl⟩
          rw [← some.inj hq]
          exact hlt.le
        · refine ⟨current, by rw [if_neg hlt], fun q hq => ?_, le_of_not_gt hlt, Or.inl rfl⟩
          rw [some.inj hq]
    rw [hb]
    refine ⟨fun x hx q hq => ⟨b, rfl, ?_⟩, fun b' hb' => ?_⟩
    · rcases (hmem x).mp hx with hx | rfl
      · obtain ⟨b', hb', hqb⟩ := h.1 x hx q hq
        exact hqb.trans (hle b' hb')
      · rw [hscore] at hq
        rw [← some.inj hq]
        exact hlast
    · obtain rfl := some.inj hb'
      rcases hone with hone | rfl
      · obtain ⟨x, hx, hq⟩ := h.2 b hone
        exact ⟨x, (hmem x).mpr (Or.inl hx), hq⟩
      · exact ⟨m, (hmem m).mpr (Or.inr rfl), hscore⟩

theorem greatest_mergeScores (members : List (MemoryRow V)) :
    Greatest scores members channel (mergeScores scores members channel) := by
  induction members using List.reverseRecOn with
  | nil =>
    refine ⟨fun m hm => ?_, fun b hb => ?_⟩
    · cases hm
    · cases hb
  | append_singleton members m ih =>
    unfold mergeScores
    rw [foldl_append]
    exact greatest_concat ih m

theorem mergeScores_perm (hperm : members'.Perm members) :
    mergeScores scores members' = mergeScores scores members :=
  funext fun _ => (greatest_mergeScores members').unique ((greatest_mergeScores members).congr fun _ => hperm.mem_iff)

theorem scoresOf_perm (hperm : members'.Perm members) :
    scoresOf scores r members' = scoresOf scores r members := by
  unfold scoresOf
  rw [hperm.length_eq, mergeScores_perm hperm]

theorem greatest_scoresOf (hr : r ∈ members) :
    Greatest scores members channel ((scoresOf scores r members).bind fun channels => channels channel) := by
  unfold scoresOf
  by_cases hone : members.length = 1
  · obtain ⟨x, hx⟩ := length_eq_one_iff.mp hone
    rw [hx, mem_singleton] at hr
    rw [hx]
    refine ⟨fun m hm q hq => ⟨q, ?_, le_refl _⟩, fun b hb => ⟨x, mem_singleton_self _, ?_⟩⟩
    · rw [mem_singleton.mp hm, ← hr] at hq
      exact hq
    · rw [← hr]
      exact hb
  · rw [if_neg hone]
    have hgreatest : Greatest scores members channel (mergeScores scores members channel) :=
      greatest_mergeScores members
    by_cases hany : (RetrievalChannel.all.any fun channel => (mergeScores scores members channel).isSome) = true
    · rw [if_pos hany]
      exact hgreatest
    · rw [if_neg hany]
      have hnone : mergeScores scores members channel = none := by
        rw [← not_isSome_iff_eq_none]
        exact fun hsome => hany (any_eq_true.mpr ⟨channel, channel.mem_all, hsome⟩)
      rw [hnone] at hgreatest
      exact hgreatest

end Members

/-! ### What the deduplication has to do -/

section Result

variable (c : Context) (scores : String → Option ChannelScores) (l : List (MemoryRow V))

/-- **What the deduplication has to do** with a list of candidates. -/
structure Deduplicated : Prop where
  /-- Each candidate has one of the returned memories. -/
  mapped : ∀ m ∈ l, ∃! r, r ∈ (deduplicateCrossAccountMemoryCandidates c scores l).memories ∧
    (deduplicateCrossAccountMemoryCandidates c scores l).representativeId m.id = some r.id
  /-- A returned memory is a candidate, with vectors attached, and stands for itself. -/
  returned : ∀ r ∈ (deduplicateCrossAccountMemoryCandidates c scores l).memories,
    ∃ m ∈ l, r = { m with vectors := r.vectors } ∧
      (deduplicateCrossAccountMemoryCandidates c scores l).representativeId m.id = some m.id
  /-- Two candidates have one representative exactly when they denote one turn. -/
  shared : ∀ m ∈ l, ∀ m' ∈ l, (deduplicateCrossAccountMemoryCandidates c scores l).representativeId m.id =
      (deduplicateCrossAccountMemoryCandidates c scores l).representativeId m'.id ↔ SameTurn c m m'
  best : ∀ m ∈ l, ∀ r ∈ l,
    (deduplicateCrossAccountMemoryCandidates c scores l).representativeId m.id = some r.id →
      (candidateOrder c scores r m).isLE = true
  /-- The representative has the greatest score of its turn in each channel. -/
  greatest : ∀ m ∈ l, ∀ id,
    (deduplicateCrossAccountMemoryCandidates c scores l).representativeId m.id = some id →
      ∀ members : List (MemoryRow V), (∀ x, x ∈ members ↔ x ∈ l ∧ SameTurn c x m) → ∀ channel,
        Greatest scores members channel
          (scoreOn (deduplicateCrossAccountMemoryCandidates c scores l).channelScores id channel)
  /-- The representatives stand in the order of the first members. -/
  order : (deduplicateCrossAccountMemoryCandidates c scores l).memories.map MemoryRow.id =
    (l.filterMap fun m =>
      (deduplicateCrossAccountMemoryCandidates c scores l).representativeId m.id).eraseDups
  /-- The order of the candidates only changes the order of the result. -/
  permuted : ∀ l' : List (MemoryRow V), l'.Perm l →
    (deduplicateCrossAccountMemoryCandidates c scores l').memories.Perm
        (deduplicateCrossAccountMemoryCandidates c scores l).memories ∧
      (∀ id, (deduplicateCrossAccountMemoryCandidates c scores l').representativeId id =
        (deduplicateCrossAccountMemoryCandidates c scores l).representativeId id) ∧
      ∀ id, (deduplicateCrossAccountMemoryCandidates c scores l').channelScores id =
        (deduplicateCrossAccountMemoryCandidates c scores l).channelScores id
  twice : (deduplicateCrossAccountMemoryCandidates c
      (deduplicateCrossAccountMemoryCandidates c scores l).channelScores
      (deduplicateCrossAccountMemoryCandidates c scores l).memories).memories =
    (deduplicateCrossAccountMemoryCandidates c scores l).memories

/-- **The memories of a turn have one vector** for each field that the best of them lacks. -/
def SameVectors : Prop :=
  ∀ r ∈ l, (∀ x ∈ l, SameTurn c x r → (candidateOrder c scores r x).isLE = true) →
    ∀ field, r.vectors.value field = none →
      ∀ m ∈ l, ∀ m' ∈ l, SameTurn c m r → SameTurn c m' r → ∀ v v', m.vectors.value field = some v →
        m'.vectors.value field = some v' → v = v'

variable {c scores l}

/-- The classes of every order are the native turns. -/
def Classes (c : Context) (l : List (MemoryRow V)) : Prop := ∀ l' : List (MemoryRow V), l'.Perm l →
  ∀ m ∈ l', ∀ m' ∈ l', (classOf c l' m = classOf c l' m' ↔ SameTurn c m m')

section Runs
variable {m : MemoryRow V}

variable (hids : (l.map MemoryRow.id).Nodup) {l' : List (MemoryRow V)} (hperm : l'.Perm l)
include hids hperm

theorem nodup_ids_perm : (l'.map MemoryRow.id).Nodup := (hperm.map _).nodup_iff.mpr hids

variable (hclasses : Classes c l)
include hclasses

omit hids in
theorem classMembers_perm (hm : m ∈ l) :
    (classMembers c l' (classOf c l' m)).Perm (classMembers c l (classOf c l m)) := by
  have hsame : classMembers c l' (classOf c l' m) = l'.filter fun x => decide (classOf c l x = classOf c l m) := by
    refine filter_congr fun x hx => ?_
    rw [decide_eq_decide, hclasses l' hperm x hx m (hperm.symm.subset hm),
      hclasses l (List.Perm.refl l) x (hperm.subset hx) m hm]
  rw [hsame]
  exact hperm.filter _

/-- **The best of a turn is the best in every order.** -/
theorem bestOf_perm (hm : m ∈ l) : bestOf c scores l' m = bestOf c scores l m := by
  have hm' := hperm.symm.subset hm
  obtain ⟨hmem', hclass', hle'⟩ := bestOf_spec c scores hm'
  obtain ⟨hmem, hclass, hle⟩ := bestOf_spec c scores hm
  have hsame' := (hclasses l' hperm _ hmem' m hm').mp hclass'
  have hsame := (hclasses l (List.Perm.refl l) _ hmem m hm).mp hclass
  refine eq_of_id hids (hperm.subset hmem') hmem (@id_eq_of_isLE V c scores _ _ ?_ ?_)
  · exact hle' _ (hperm.symm.subset hmem) ((hclasses l' hperm _ (hperm.symm.subset hmem) m hm').mpr hsame)
  · exact hle _ (hperm.subset hmem') ((hclasses l (List.Perm.refl l) _ (hperm.subset hmem') m hm).mpr hsame')

theorem representativeId_perm (id : String) :
    (deduplicateCrossAccountMemoryCandidates c scores l').representativeId id =
      (deduplicateCrossAccountMemoryCandidates c scores l).representativeId id := by
  have hids' := nodup_ids_perm hids hperm
  by_cases h : id ∈ l.map MemoryRow.id
  · obtain ⟨m, hm, rfl⟩ := mem_map.mp h
    rw [representativeId_eq c scores hids hm, representativeId_eq c scores hids' (hperm.symm.subset hm),
      bestOf_perm hids hperm hclasses hm]
  · rw [representativeId_none c scores hids h,
      representativeId_none c scores hids' fun h' => h ((hperm.map _).subset h')]

theorem channelScores_perm (id : String) :
    (deduplicateCrossAccountMemoryCandidates c scores l').channelScores id =
      (deduplicateCrossAccountMemoryCandidates c scores l).channelScores id := by
  have hids' := nodup_ids_perm hids hperm
  by_cases h : ∃ m ∈ l, (bestOf c scores l m).id = id
  · obtain ⟨m, hm, rfl⟩ := h
    have hscores' := channelScores_eq c scores hids' (hperm.symm.subset hm)
    rw [bestOf_perm hids hperm hclasses hm] at hscores'
    rw [hscores', channelScores_eq c scores hids hm, scoresOf_perm (classMembers_perm hperm hclasses hm)]
  · rw [channelScores_none c scores hids fun m hm he => h ⟨m, hm, he⟩, channelScores_none c scores hids']
    intro m hm he
    rw [bestOf_perm hids hperm hclasses (hperm.subset hm)] at he
    exact h ⟨m, hperm.subset hm, he⟩

/-- **The same memories in every order.** -/
theorem memories_perm (hvectors : SameVectors c scores l) :
    (deduplicateCrossAccountMemoryCandidates c scores l').memories.Perm
      (deduplicateCrossAccountMemoryCandidates c scores l).memories := by
  have hids' := nodup_ids_perm hids hperm
  have hnodup : ∀ {l : List (MemoryRow V)}, (l.map MemoryRow.id).Nodup →
      (deduplicateCrossAccountMemoryCandidates c scores l).memories.Nodup := by
    intro l hids
    refine List.Nodup.of_map MemoryRow.id ?_
    rw [ids_memories c scores hids]
    exact Blocks.nodup_eraseDups _
  have hmem : ∀ m ∈ l, attachVectors (bestOf c scores l' m) (classMembers c l' (classOf c l' m)) =
      attachVectors (bestOf c scores l m) (classMembers c l (classOf c l m)) := by
    intro m hm
    obtain ⟨hbest, hclass, hle⟩ := bestOf_spec c scores hm
    have hturn : ∀ x ∈ l, (classOf c l x = classOf c l m ↔ SameTurn c x (bestOf c scores l m)) := by
      intro x hx
      rw [← hclass]
      exact hclasses l (List.Perm.refl l) x hx _ hbest
    rw [bestOf_perm hids hperm hclasses hm]
    refine attachVectors_perm (classMembers_perm hperm hclasses hm) fun field hnone x hx x' hx' => ?_
    obtain ⟨hxl, hxc⟩ := mem_classMembers.mp hx
    obtain ⟨hxl', hxc'⟩ := mem_classMembers.mp hx'
    exact hvectors _ hbest (fun y hy hturn' => hle y hy ((hturn y hy).mpr hturn')) field hnone x hxl x' hxl'
      ((hturn x hxl).mp hxc) ((hturn x' hxl').mp hxc')
  refine (perm_ext_iff_of_nodup (hnodup hids') (hnodup hids)).mpr fun x => ?_
  rw [mem_memories c scores hids', mem_memories c scores hids]
  constructor
  · rintro ⟨m, hm, rfl⟩
    exact ⟨m, hperm.subset hm, hmem m (hperm.subset hm)⟩
  · rintro ⟨m, hm, rfl⟩
    exact ⟨m, hperm.symm.subset hm, (hmem m hm).symm⟩

end Runs

/-! ### Once and twice -/

theorem keyBy_attachVectors (f m : MemoryRow V) (members members' : List (MemoryRow V)) :
    keyBy c (attachVectors f members) (attachVectors m members') = keyBy c f m := by
  unfold attachVectors
  split_ifs <;> rfl

theorem sessionOf_attachVectors (m : MemoryRow V) (members : List (MemoryRow V)) :
    sessionOf (attachVectors m members) = sessionOf m := by
  unfold attachVectors
  split_ifs <;> rfl

theorem isTrace_attachVectors (m : MemoryRow V) (members : List (MemoryRow V)) :
    isTrace (attachVectors m members) = isTrace m := by
  unfold attachVectors
  split_ifs <;> rfl

theorem eq_of_ids : ∀ {xs ys : List (MemoryRow V)}, xs.map MemoryRow.id = ys.map MemoryRow.id →
    (∀ x ∈ xs, ∀ y ∈ ys, x.id = y.id → x = y) → xs = ys
  | [], [], _, _ => rfl
  | [], _ :: _, h, _ => by cases h
  | _ :: _, [], h, _ => by cases h
  | x :: xs, y :: ys, h, hsame => by
    obtain ⟨hhead, htail⟩ := List.cons.inj h
    rw [hsame x mem_cons_self y mem_cons_self hhead, eq_of_ids htail fun x hx y hy =>
      hsame x (mem_cons_of_mem _ hx) y (mem_cons_of_mem _ hy)]

section Twice

variable (hids : (l.map MemoryRow.id).Nodup) (hconsistent : Consistent c l)
include hids

variable (c scores) in
theorem nodup_ids_memories :
    ((deduplicateCrossAccountMemoryCandidates c scores l).memories.map MemoryRow.id).Nodup := by
  rw [ids_memories c scores hids]
  exact Blocks.nodup_eraseDups _

include hconsistent

/-- **Two representatives are of different turns**, also for a run over the representatives. -/
theorem eq_of_classOf_memories {r' : MemoryRow V}
    (hr : r ∈ (deduplicateCrossAccountMemoryCandidates c scores l).memories)
    (hr' : r' ∈ (deduplicateCrossAccountMemoryCandidates c scores l).memories)
    (h : classOf c (deduplicateCrossAccountMemoryCandidates c scores l).memories r =
      classOf c (deduplicateCrossAccountMemoryCandidates c scores l).memories r') : r = r' := by
  by_contra hne
  have hnodup := nodup_ids_memories c scores hids
  obtain ⟨key, hkey, hkey'⟩ := (classOf_eq_iff hnodup hr hr' hne).mp h
  obtain ⟨f, hf, hfills, hfiller, hused⟩ := exists_filler (c := c) hr (usedKey_some hkey).1 (usedKey_some hkey).2
  obtain ⟨f', hf', hfills', hfiller', hused'⟩ :=
    exists_filler (c := c) hr' (usedKey_some hkey').1 (usedKey_some hkey').2
  rw [hused] at hkey
  rw [hused'] at hkey'
  have hback : ∀ x ∈ (deduplicateCrossAccountMemoryCandidates c scores l).memories, ∃ m ∈ l,
      bestOf c scores l m = m ∧ x = attachVectors m (classMembers c l (classOf c l m)) := by
    intro x hx
    obtain ⟨m, hm, rfl⟩ := (mem_memories c scores hids).mp hx
    obtain ⟨hmem, hclass, -⟩ := bestOf_spec c scores hm
    refine ⟨bestOf c scores l m, hmem, (bestOf_eq_iff c scores hmem hm).mpr hclass, ?_⟩
    rw [hclass]
  obtain ⟨m, hm, hbest, hmr⟩ := hback r hr
  obtain ⟨m', hm', hbest', hmr'⟩ := hback r' hr'
  obtain ⟨g, hg, -, hgf⟩ := hback f hf
  obtain ⟨g', hg', -, hgf'⟩ := hback f' hf'
  have hmm : m ≠ m' := by
    rintro rfl
    exact hne (hmr.trans hmr'.symm)
  rw [hmr, hgf, keyBy_attachVectors] at hkey
  rw [hmr', hgf', keyBy_attachVectors] at hkey'
  rw [hmr, hgf] at hfills
  rw [hmr', hgf'] at hfills'
  simp only [Fills, isTrace_attachVectors, sessionOf_attachVectors] at hfills hfills'
  have hone := (hconsistent m hm m' hm' hmm g hg g' hg' hfills hfills' fun hsession => by
    have hsame : sessionOf r = sessionOf r' := by
      rw [hmr, hmr', sessionOf_attachVectors, sessionOf_attachVectors, hsession]
    rw [hsame, hfiller'] at hfiller
    have hff := congrArg MemoryRow.id (some.inj hfiller)
    rw [hgf, hgf', id_attachVectors, id_attachVectors] at hff
    exact (eq_of_id hids hg' hg hff).symm).mp ⟨key, hkey, hkey'⟩
  have hclass := (class_iff_sameTurn hids hconsistent (List.Perm.refl l) hm hm').mpr (Or.inr hone)
  rw [← bestOf_eq_iff c scores hm hm', hbest, hbest'] at hclass
  exact hmm hclass

theorem memories_twice (scores' : String → Option ChannelScores) :
    (deduplicateCrossAccountMemoryCandidates c scores'
      (deduplicateCrossAccountMemoryCandidates c scores l).memories).memories =
        (deduplicateCrossAccountMemoryCandidates c scores l).memories := by
  have hnodup := nodup_ids_memories c scores hids
  generalize hout : (deduplicateCrossAccountMemoryCandidates c scores l).memories = out at hnodup ⊢
  have hclasses : ∀ r ∈ out, ∀ r' ∈ out, classOf c out r = classOf c out r' → r = r' := by
    rw [← hout]
    exact fun r hr r' hr' => eq_of_classOf_memories hids hconsistent hr hr'
  have hbest : ∀ r ∈ out, bestOf c scores' out r = r := by
    intro r hr
    obtain ⟨hmem, hclass, -⟩ := bestOf_spec c scores' hr
    exact hclasses _ hmem r hr hclass
  have hmembers : ∀ r ∈ out, (classMembers c out (classOf c out r)).length = 1 := by
    intro r hr
    have hone : ∀ x ∈ classMembers c out (classOf c out r), x = r := by
      intro x hx
      obtain ⟨hx, hclass⟩ := mem_classMembers.mp hx
      exact hclasses x hx r hr hclass
    have hnodup' : (classMembers c out (classOf c out r)).Nodup := (List.Nodup.of_map _ hnodup).filter _
    have hself : r ∈ classMembers c out (classOf c out r) := mem_classMembers.mpr ⟨hr, rfl⟩
    rw [length_eq_one_iff]
    exact ⟨r, perm_singleton.mp ((perm_ext_iff_of_nodup hnodup' (nodup_singleton r)).mpr fun x =>
      ⟨fun hx => mem_singleton.mpr (hone x hx), fun hx => mem_singleton.mp hx ▸ hself⟩)⟩
  have hids' := ids_memories c scores' hnodup
  have hmap : out.map (fun m => (bestOf c scores' out m).id) = out.map MemoryRow.id :=
    map_congr_left fun r hr => congrArg MemoryRow.id (hbest r hr)
  rw [hmap, eraseDups_of_nodup hnodup] at hids'
  refine eq_of_ids hids' fun x hx y hy hxy => ?_
  obtain ⟨r, hr, rfl⟩ := (mem_memories c scores' hnodup).mp hx
  have hattach : attachVectors (bestOf c scores' out r) (classMembers c out (classOf c out r)) = r := by
    rw [attachVectors, if_pos (hmembers r hr), hbest r hr]
  rw [hattach] at hxy ⊢
  exact eq_of_id hnodup hr hy hxy

end Twice

/-! ### When the deduplication does what it has to do -/

section Exact

variable (hids : (l.map MemoryRow.id).Nodup)
include hids

theorem representativeId_eq_iff {m m' : MemoryRow V} (hm : m ∈ l) (hm' : m' ∈ l) :
    (deduplicateCrossAccountMemoryCandidates c scores l).representativeId m.id =
      (deduplicateCrossAccountMemoryCandidates c scores l).representativeId m'.id ↔
        classOf c l m = classOf c l m' := by
  rw [representativeId_eq c scores hids hm, representativeId_eq c scores hids hm', some.injEq,
    ← bestOf_eq_iff c scores hm hm']
  exact ⟨eq_of_id hids (bestOf_spec c scores hm).1 (bestOf_spec c scores hm').1, congrArg MemoryRow.id⟩

theorem deduplicated_of_consistent (hconsistent : Consistent c l) (hvectors : SameVectors c scores l) :
    Deduplicated c scores l := by
  have hclasses : Classes c l := fun l' hperm m hm m' hm' => class_iff_sameTurn hids hconsistent hperm hm hm'
  have hclass : ∀ m ∈ l, ∀ m' ∈ l, (classOf c l m = classOf c l m' ↔ SameTurn c m m') :=
    hclasses l (List.Perm.refl l)
  have hnodup := nodup_ids_memories c scores hids
  constructor
  case mapped =>
    intro m hm
    have hmem := (mem_memories c scores hids).mpr ⟨m, hm, rfl⟩
    refine ⟨_, ⟨hmem, ?_⟩, fun r hr => ?_⟩
    · rw [representativeId_eq c scores hids hm, id_attachVectors]
    · rw [representativeId_eq c scores hids hm, some.injEq] at hr
      exact eq_of_id hnodup hr.1 hmem (by rw [id_attachVectors, hr.2])
  case returned =>
    intro r hr
    obtain ⟨m, hm, rfl⟩ := (mem_memories c scores hids).mp hr
    obtain ⟨hmem, hsame, -⟩ := bestOf_spec c scores hm
    refine ⟨bestOf c scores l m, hmem, ?_, ?_⟩
    · unfold attachVectors
      split_ifs <;> rfl
    · rw [representativeId_eq c scores hids hmem, (bestOf_eq_iff c scores hmem hm).mpr hsame]
  case shared =>
    intro m hm m' hm'
    rw [representativeId_eq_iff hids hm hm', hclass m hm m' hm']
  case best =>
    intro m hm r hr heq
    rw [representativeId_eq c scores hids hm, some.injEq] at heq
    obtain ⟨hmem, -, hle⟩ := bestOf_spec c scores hm
    rw [← eq_of_id hids hmem hr heq]
    exact hle m hm rfl
  case greatest =>
    intro m hm id heq members hmembers channel
    rw [representativeId_eq c scores hids hm, some.injEq] at heq
    obtain ⟨hmem, hsame, -⟩ := bestOf_spec c scores hm
    have hgreatest := @greatest_scoresOf V scores _ _ channel (mem_classMembers.mpr ⟨hmem, hsame⟩)
    rw [← heq, scoreOn, channelScores_eq c scores hids hm]
    refine hgreatest.congr fun x => ?_
    rw [hmembers, mem_classMembers]
    exact and_congr_right fun hx => (hclass x hx m hm).symm
  case order =>
    rw [ids_memories c scores hids, ← filterMap_eq_map]
    exact congrArg List.eraseDups (filterMap_congr fun m hm =>
      (representativeId_eq c scores hids hm).symm)
  case permuted =>
    exact fun l' hperm => ⟨memories_perm hids hperm hclasses hvectors,
      representativeId_perm hids hperm hclasses, channelScores_perm hids hperm hclasses⟩
  case twice => exact memories_twice hids hconsistent _

theorem classes_of_deduplicated (h : Deduplicated c scores l) : Classes c l := by
  intro l' hperm m hm m' hm'
  have hids' := nodup_ids_perm hids hperm
  rw [← @representativeId_eq_iff V c scores l' hids' _ _ hm hm', (h.permuted l' hperm).2.1,
    (h.permuted l' hperm).2.1]
  exact h.shared m (hperm.subset hm) m' (hperm.subset hm')

/-- **The first member of a turn gives the vector** that the best one lacks. -/
theorem vector_of_member (h : Deduplicated c scores l) {v : V}
    (hr : r ∈ l) (hbest : ∀ x ∈ l, SameTurn c x r → (candidateOrder c scores r x).isLE = true)
    (hnone : r.vectors.value field = none) (hm : m ∈ l) (hturn : SameTurn c m r)
    (hv : m.vectors.value field = some v) :
    ∃ x ∈ (deduplicateCrossAccountMemoryCandidates c scores l).memories,
      x.id = r.id ∧ x.vectors.value field = some v := by
  have hclasses := classes_of_deduplicated hids h
  obtain ⟨rest, hperm⟩ := exists_perm_cons hm
  have hids' := nodup_ids_perm hids hperm
  have hr' := hperm.symm.subset hr
  have hself : bestOf c scores l r = r := by
    obtain ⟨hmem, hclass, hle⟩ := bestOf_spec c scores hr
    refine eq_of_id hids hmem hr (@id_eq_of_isLE V c scores _ _ (hle r hr rfl) (hbest _ hmem ?_))
    exact (hclasses l (List.Perm.refl l) _ hmem r hr).mp hclass
  have hclass := (hclasses _ hperm m mem_cons_self r hr').mpr hturn
  have hmembers : classMembers c (m :: rest) (classOf c (m :: rest) r) =
      m :: rest.filter fun x => decide (classOf c (m :: rest) x = classOf c (m :: rest) r) :=
    filter_cons_of_pos (decide_eq_true hclass)
  have hlong : (classMembers c (m :: rest) (classOf c (m :: rest) r)).length ≠ 1 := by
    intro hone
    have hmem : r ∈ classMembers c (m :: rest) (classOf c (m :: rest) r) := mem_classMembers.mpr ⟨hr', rfl⟩
    rw [hmembers, length_cons] at hone
    rw [hmembers, eq_nil_of_length_eq_zero (Nat.succ.inj hone), mem_singleton] at hmem
    rw [hmem, hv] at hnone
    cases hnone
  refine ⟨_, (h.permuted _ hperm).1.subset ((mem_memories c scores hids').mpr ⟨r, hr', rfl⟩), ?_, ?_⟩
  · rw [id_attachVectors, bestOf_perm hids hperm hclasses hr, hself]
  · rw [bestOf_perm hids hperm hclasses hr, hself, attachVectors, if_neg hlong]
    rw [(foldl_attachMissing _ _).1, hnone, none_or, hmembers, findSome?_cons, hv]

theorem sameVectors_of_deduplicated (h : Deduplicated c scores l) : SameVectors c scores l := by
  intro r hr hbest field hnone m hm m' hm' hturn hturn' v v' hv hv'
  obtain ⟨x, hx, hxr, hxv⟩ := vector_of_member hids h hr hbest hnone hm hturn hv
  obtain ⟨x', hx', hxr', hxv'⟩ := vector_of_member hids h hr hbest hnone hm' hturn' hv'
  have hsame := eq_of_id (nodup_ids_memories c scores hids) hx hx' (hxr.trans hxr'.symm)
  rw [hsame, hxv'] at hxv
  exact (some.inj hxv).symm

variable (c scores)

end Exact

end Result

/-! ### A session that does not tell its conversation -/

/-- One session without a conversation of its own. -/
def silentSessions : Context where
  getSession _ := some {
    conversationId := none
    source := "codex"
    profileId := "local"
    projectId := none
    workspaceId := none
    metadata := [("source_namespace_key", .str "home")] }
  preferredUserId := "u1"
  hashScope _ _ _ := ""
  hashText text := text

/-- A trace of the first step of turn `t1` in the given conversation. -/
def traceIn (id conversationId : String) : MemoryRow Unit where
  id := id
  userId := "u1"
  conversationId := some conversationId
  sessionId := some "s1"
  memoryLayer := "L1"
  memoryValue := "text"
  info := []
  internalInfo := [("trace", .obj [("turn_id", .str "t1"), ("step_index", .num (.finite 0))])]
  contentHash := none
  createdAt := "2026-01-01T00:00:00.000Z"
  vectors := ⟨fun _ => none, fun _ => false⟩

/-- The key of the first step of turn `t1` in a conversation of the session. -/
def keyOf (conversationId : String) : TurnKey := ⟨⟨"codex", "local", "home", conversationId⟩, "t1", .index 0⟩

theorem keyBy_traceIn : keyBy silentSessions (traceIn "a" "c1") (traceIn "a" "c1") = some (keyOf "c1") ∧
    keyBy silentSessions (traceIn "a" "c1") (traceIn "b" "c2") = some (keyOf "c1") ∧
    keyBy silentSessions (traceIn "b" "c2") (traceIn "b" "c2") = some (keyOf "c2") := by
  decide

end Memmy.Retrieval.CandidateDedup
