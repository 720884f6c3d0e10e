import Memmy.Evidence.Machine

/-! # Source records behind their rows

The two names of Computer History make one record of two keys: `canonical` writes the older name of a dated
id as the newer one, and `record` is the record a row stands for.

* `Tidy`: ids and records of the rows are unique, a row is stored under a key of its record, only dated
  records are recognised as History or derived from History, and namespace ids tell the scopes apart.
* `Admissible`: the uploads and deletions that keep it so.
* `lookup_eq_some`, `lookup_of_record`: the lookup finds the row of the record and no other one.
* `dependents_closed`: the walk over the dependent memories misses none. -/

namespace Memmy.Evidence

open Lib.Sort Lib.Rows List Bool

/-! ### Records -/

/-- What the keys of two namespaces have in common. -/
def SameScope (n n' : RuntimeNamespace) : Prop :=
  n.userId = n'.userId ∧ n.tenantId = n'.tenantId ∧ n.projectId = n'.projectId ∧
    n.profileId = n'.profileId ∧ n.source = n'.source

instance (n n' : RuntimeNamespace) : Decidable (SameScope n n') := inferInstanceAs (Decidable (_ ∧ _))

def canonical (k : EvidenceKey) : EvidenceKey :=
  if k.namespaceSource = "memmy" ∧ k.source = "memmy" ∧ isHistoryRecordId k.sourceRecordId = true then
    { k with source := "computer_history" }
  else k

def recordOf (n : RuntimeNamespace) (source sourceRecordId : String) : EvidenceKey :=
  canonical (externalEvidenceMemoryKey n source sourceRecordId)

def MemoryRow.record (m : MemoryRow) : EvidenceKey := canonical m.sourceKey

/-- The records that a row names as its parents. -/
def MemoryRow.parent (m : MemoryRow) (p : String) : EvidenceKey := recordOf m.evidence.owner m.evidence.source p

/-- The row may go by either name of Computer History. -/
def MemoryRow.Named (m : MemoryRow) : Prop :=
  m.evidence.owner.source = "memmy" ∧ isHistorySource m.evidence.source = true

structure Tidy (rows : List MemoryRow) : Prop where
  ids : (rows.map (·.id)).Nodup
  records : (rows.map (·.record)).Nodup
  keyed : ∀ m ∈ rows, m.memoryKey = m.sourceKey ∨
    m.Named ∧ isHistoryRecordId m.evidence.sourceRecordId = true ∧
      m.memoryKey = externalEvidenceMemoryKey m.evidence.owner "memmy" m.evidence.sourceRecordId
  /-- Only a dated record is recognised as History. -/
  dated : ∀ m ∈ rows, m.Named → m.evidence.historyId = some m.evidence.sourceRecordId →
    isHistoryRecordId m.evidence.sourceRecordId = true
  /-- Only a dated record is derived from one. -/
  derived : ∀ m ∈ rows, m.Named → ∀ p ∈ m.evidence.parentSourceRecordIds, isHistoryRecordId p = true →
    isHistoryRecordId m.evidence.sourceRecordId = true
  coherent : ∀ m ∈ rows, ∀ m' ∈ rows,
    m.namespaceId = m'.namespaceId ↔ SameScope m.evidence.owner m'.evidence.owner

/-- **The requests that keep the rows tidy.** Their namespace is told from that of a row exactly if their
scopes differ; and under the names of Computer History only dated ids are named in the provenance or
derived from dated ids, and what is stored under the newer name is not named under the older one. -/
structure Admissible (rows : List MemoryRow) (r : SyncRequest) : Prop where
  coherent : ∀ m ∈ rows, m.namespaceId = namespaceIdFromContext r.owner ↔ SameScope m.evidence.owner r.owner
  dated : r.owner.source = "memmy" → isHistorySource r.source = true → ∀ u, r.action = .upsert u →
    u.historyId = some r.sourceRecordId → isHistoryRecordId r.sourceRecordId = true
  derived : r.owner.source = "memmy" → isHistorySource r.source = true → ∀ u, r.action = .upsert u →
    ∀ p ∈ u.parents, isHistoryRecordId p = true → isHistoryRecordId r.sourceRecordId = true
  unhidden : r.owner.source = "memmy" → r.source = "memmy" → ∀ p, isHistoryRecordId p = true →
    (p = r.sourceRecordId ∨ ∃ u, r.action = .upsert u ∧ p ∈ u.parents) →
      ∀ m ∈ rows, m.memoryKey ≠ externalEvidenceMemoryKey r.owner "computer_history" p

variable {rows : List MemoryRow} {m m' : MemoryRow} {n n' : RuntimeNamespace} {source source' p p' : String}

theorem key_eq_iff : externalEvidenceMemoryKey n source p = externalEvidenceMemoryKey n' source' p' ↔
    SameScope n n' ∧ source = source' ∧ p = p' := by
  unfold externalEvidenceMemoryKey SameScope
  rw [EvidenceKey.mk.injEq]
  tauto

theorem SameScope.refl (n : RuntimeNamespace) : SameScope n n := ⟨rfl, rfl, rfl, rfl, rfl⟩

theorem SameScope.symm (h : SameScope n n') : SameScope n' n :=
  ⟨h.1.symm, h.2.1.symm, h.2.2.1.symm, h.2.2.2.1.symm, h.2.2.2.2.symm⟩

/-- The two names of a dated record in the namespace of source `memmy`. -/
def Aliased (n : RuntimeNamespace) (source p : String) : Prop :=
  n.source = "memmy" ∧ isHistorySource source = true ∧ isHistoryRecordId p = true

theorem recordOf_aliased (h : Aliased n source p) :
    recordOf n source p = externalEvidenceMemoryKey n "computer_history" p := by
  unfold recordOf canonical
  obtain ⟨hn, hsource, hp⟩ := h
  by_cases hs : source = "memmy"
  · rw [if_pos ⟨hn, hs, hp⟩]
    rfl
  · have hch : source = "computer_history" := by
      unfold isHistorySource at hsource
      simpa [hs] using hsource
    rw [if_neg fun hc => hs hc.2.1, hch]

theorem recordOf_plain (h : ¬ Aliased n source p) :
    recordOf n source p = externalEvidenceMemoryKey n source p := by
  refine if_neg fun hc => h ⟨hc.1, ?_, hc.2.2⟩
  have hs : source = "memmy" := hc.2.1
  rw [hs]
  rfl

theorem recordOf_eq (h : recordOf n source p = recordOf n' source' p') :
    SameScope n n' ∧ p = p' ∧ (source = source' ∨ Aliased n source p ∧ Aliased n' source' p') := by
  by_cases ha : Aliased n source p <;> by_cases ha' : Aliased n' source' p'
  · rw [recordOf_aliased ha, recordOf_aliased ha', key_eq_iff] at h
    exact ⟨h.1, h.2.2, Or.inr ⟨ha, ha'⟩⟩
  · rw [recordOf_aliased ha, recordOf_plain ha', key_eq_iff] at h
    refine absurd ⟨h.1.2.2.2.2 ▸ ha.1, ?_, h.2.2 ▸ ha.2.2⟩ ha'
    rw [← h.2.1]
    rfl
  · rw [recordOf_plain ha, recordOf_aliased ha', key_eq_iff] at h
    refine absurd ⟨h.1.2.2.2.2.symm ▸ ha'.1, ?_, h.2.2.symm ▸ ha'.2.2⟩ ha
    rw [h.2.1]
    rfl
  · rw [recordOf_plain ha, recordOf_plain ha', key_eq_iff] at h
    exact ⟨h.1, h.2.2, Or.inl h.2.1⟩

theorem recordOf_congr (h : SameScope n n') : recordOf n source p = recordOf n' source p := by
  unfold recordOf
  rw [key_eq_iff.mpr ⟨h, rfl, rfl⟩]

theorem recordOf_alias (h : Aliased n source p) (h' : isHistorySource source' = true) :
    recordOf n source p = recordOf n source' p := by
  rw [recordOf_aliased h, recordOf_aliased ⟨h.1, h', h.2.2⟩]

/-! ### The lookup -/

theorem lookup_canonical (h : ¬ (source = "computer_history" ∧ n.source = "memmy") ∨
    ∀ l, getByKeyIncludingDeleted rows (externalEvidenceMemoryKey n "memmy" p) = some l →
      isLegacyHistoryEvidence l p = false) :
    lookupExternalEvidence rows n source p = (externalEvidenceMemoryKey n source p,
      getByKeyIncludingDeleted rows (externalEvidenceMemoryKey n source p)) := by
  unfold lookupExternalEvidence
  by_cases halias : source = "computer_history" ∧ n.source = "memmy"
  · have hnone := h.resolve_left (not_not_intro halias)
    simp only
    rw [if_pos halias]
    cases hget : getByKeyIncludingDeleted rows (externalEvidenceMemoryKey n "memmy" p) with
    | none => rfl
    | some l => exact if_neg (by rw [hnone l hget]; exact false_ne_true)
  · exact if_neg halias

theorem lookup_legacy {l : MemoryRow} (halias : source = "computer_history" ∧ n.source = "memmy")
    (hget : getByKeyIncludingDeleted rows (externalEvidenceMemoryKey n "memmy" p) = some l)
    (hlegacy : isLegacyHistoryEvidence l p = true)
    (hfirst : l.status = .deleted ∨
      getByKeyIncludingDeleted rows (externalEvidenceMemoryKey n source p) = none) :
    lookupExternalEvidence rows n source p = (externalEvidenceMemoryKey n "memmy" p, some l) := by
  unfold lookupExternalEvidence
  simp only
  rw [if_pos halias, hget]
  simp only
  rw [if_pos hlegacy]
  by_cases hdeleted : l.status = .deleted
  · exact if_pos hdeleted
  · rw [if_neg hdeleted, hfirst.resolve_left hdeleted]
    rfl

theorem lookup_cases (rows : List MemoryRow) (n : RuntimeNamespace) (source p : String) :
    lookupExternalEvidence rows n source p = (externalEvidenceMemoryKey n source p,
      getByKeyIncludingDeleted rows (externalEvidenceMemoryKey n source p)) ∨
    ∃ l, (source = "computer_history" ∧ n.source = "memmy") ∧
      getByKeyIncludingDeleted rows (externalEvidenceMemoryKey n "memmy" p) = some l ∧
      isLegacyHistoryEvidence l p = true ∧
      lookupExternalEvidence rows n source p = (externalEvidenceMemoryKey n "memmy" p, some l) := by
  by_cases halias : source = "computer_history" ∧ n.source = "memmy"
  swap
  · exact Or.inl (lookup_canonical (Or.inl halias))
  by_cases hlegacy : ∃ l, getByKeyIncludingDeleted rows (externalEvidenceMemoryKey n "memmy" p) = some l ∧
      isLegacyHistoryEvidence l p = true
  swap
  · refine Or.inl (lookup_canonical (Or.inr fun l hl => ?_))
    by_contra hne
    exact hlegacy ⟨l, hl, by simpa using hne⟩
  obtain ⟨l, hget, hl⟩ := hlegacy
  by_cases hfirst : l.status = .deleted ∨
      getByKeyIncludingDeleted rows (externalEvidenceMemoryKey n source p) = none
  · exact Or.inr ⟨l, halias, hget, hl, lookup_legacy halias hget hl hfirst⟩
  left
  push Not at hfirst
  unfold lookupExternalEvidence
  simp only
  rw [if_pos halias, hget]
  simp only
  rw [if_pos hl, if_neg hfirst.1, if_pos (Option.isSome_iff_ne_none.mpr hfirst.2)]

/-- A record without a row is stored under its own key. -/
theorem lookup_key (h : (lookupExternalEvidence rows n source p).2 = none) :
    (lookupExternalEvidence rows n source p).1 = externalEvidenceMemoryKey n source p := by
  rcases lookup_cases rows n source p with heq | ⟨l, -, -, -, heq⟩
  · rw [heq]
  · rw [heq] at h
    cases h

namespace Tidy

theorem record_key (h : Tidy rows) (hm : m ∈ rows) : m.record = canonical m.memoryKey := by
  rcases h.keyed m hm with hkey | ⟨hnamed, hdated, hkey⟩
  · rw [hkey]
    rfl
  · rw [hkey]
    exact recordOf_alias ⟨hnamed.1, hnamed.2, hdated⟩ rfl

theorem eq_of_record (h : Tidy rows) (hm : m ∈ rows) (hm' : m' ∈ rows) (heq : m.record = m'.record) :
    m = m' := eq_of_key_eq h.records hm hm' heq

theorem eq_of_id (h : Tidy rows) (hm : m ∈ rows) (hm' : m' ∈ rows) (heq : m.id = m'.id) : m = m' :=
  eq_of_key_eq h.ids hm hm' heq

variable {key : EvidenceKey}

section
variable (h : Tidy rows)
include h

theorem getByKey_eq_some : getByKeyIncludingDeleted rows key = some m ↔ m ∈ rows ∧ m.memoryKey = key := by
  unfold getByKeyIncludingDeleted
  constructor
  · intro hhead
    have hmem := mem_filter.mp ((mem_sortBy _).mp (mem_of_head? hhead))
    exact ⟨hmem.1, by simpa using hmem.2⟩
  · rintro ⟨hm, rfl⟩
    cases hhead : (sortBy (compareLex (descending (·.updatedAt)) (descending (·.id)))
        (rows.filter (·.memoryKey = m.memoryKey))).head? with
    | none =>
      rw [head?_eq_none_iff, sortBy_eq_nil, filter_eq_nil_iff] at hhead
      exact absurd (by simp) (hhead m hm)
    | some m' =>
      have hmem := mem_filter.mp ((mem_sortBy _).mp (mem_of_head? hhead))
      have hkey : m'.memoryKey = m.memoryKey := by simpa using hmem.2
      rw [h.eq_of_record hmem.1 hm (by rw [h.record_key hmem.1, h.record_key hm, hkey])]

theorem getByKey_eq_none
    (hnone : ∀ m ∈ rows, m.memoryKey ≠ key) : getByKeyIncludingDeleted rows key = none := by
  cases hget : getByKeyIncludingDeleted rows key with
  | none => rfl
  | some m =>
    obtain ⟨hm, hkey⟩ := h.getByKey_eq_some.mp hget
    exact absurd hkey (hnone m hm)

theorem dated_of_legacy (hm : m ∈ rows) (hn : n.source = "memmy")
    (hkey : m.memoryKey = externalEvidenceMemoryKey n "memmy" p)
    (hlegacy : isLegacyHistoryEvidence m p = true) : isHistoryRecordId p = true := by
  unfold isLegacyHistoryEvidence at hlegacy
  simp only [and_eq_true, or_eq_true, decide_eq_true_eq] at hlegacy
  obtain ⟨⟨hsource, hid⟩, hhistory | hp⟩ := hlegacy
  · rcases h.keyed m hm with hk | ⟨-, hdated, -⟩
    · rw [hkey] at hk
      obtain ⟨hscope, hs, -⟩ := key_eq_iff.mp hk
      exact hid ▸ h.dated m hm ⟨hscope.2.2.2.2 ▸ hn, hs ▸ rfl⟩ (hid.symm ▸ hhistory)
    · exact hid ▸ hdated
  · exact hp

/-- A dated row under the older key is recognised. -/
theorem legacy_of_key (hm : m ∈ rows)
    (hkey : m.memoryKey = externalEvidenceMemoryKey n "memmy" p) (hp : isHistoryRecordId p = true) :
    isLegacyHistoryEvidence m p = true := by
  have hnames : isHistorySource m.evidence.source = true ∧ m.evidence.sourceRecordId = p := by
    rcases h.keyed m hm with hk | ⟨hnamed, -, hk⟩
    · rw [hkey] at hk
      obtain ⟨-, hs, hid⟩ := key_eq_iff.mp hk
      exact ⟨hs ▸ rfl, hid.symm⟩
    · rw [hkey] at hk
      exact ⟨hnamed.2, (key_eq_iff.mp hk).2.2.symm⟩
  unfold isLegacyHistoryEvidence externalEvidenceSourcesMatch
  rw [hnames.1, hnames.2, hp]
  simp [isHistorySource]

/-- **What the lookup finds** is the row of the record. -/
theorem lookup_eq_some (hfind : (lookupExternalEvidence rows n source p).2 = some m) :
    m ∈ rows ∧ m.record = recordOf n source p := by
  have hcanonical : ∀ {m : MemoryRow},
      getByKeyIncludingDeleted rows (externalEvidenceMemoryKey n source p) = some m →
        m ∈ rows ∧ m.record = recordOf n source p := fun hget => by
    obtain ⟨hm, hkey⟩ := h.getByKey_eq_some.mp hget
    exact ⟨hm, by rw [h.record_key hm, hkey]; rfl⟩
  rcases lookup_cases rows n source p with heq | ⟨l, halias, hget, hlegacy, heq⟩
  · rw [heq] at hfind
    exact hcanonical hfind
  · rw [heq] at hfind
    cases hfind
    obtain ⟨hm, hkey⟩ := h.getByKey_eq_some.mp hget
    have hp := h.dated_of_legacy hm halias.2 hkey hlegacy
    refine ⟨hm, ?_⟩
    rw [h.record_key hm, hkey, halias.1]
    exact recordOf_alias ⟨halias.2, rfl, hp⟩ rfl

/-- **The row of a record is found** under its own key, and under the newer name of History. -/
theorem lookup_of_record (hm : m ∈ rows) (heq : m.record = recordOf n source p)
    (hown : m.memoryKey = externalEvidenceMemoryKey n source p ∨ source ≠ "memmy" ∨ n.source ≠ "memmy" ∨
      isHistoryRecordId p ≠ true ∨ m.memoryKey ≠ externalEvidenceMemoryKey n "computer_history" p) :
    (lookupExternalEvidence rows n source p).2 = some m := by
  have hkey : m.memoryKey = externalEvidenceMemoryKey n source p ∨
      Aliased n source p ∧ (m.memoryKey = externalEvidenceMemoryKey n "memmy" p ∨
        m.memoryKey = externalEvidenceMemoryKey n "computer_history" p) := by
    rw [h.record_key hm] at heq
    by_cases ha : Aliased n source p
    · right
      rw [recordOf_aliased ha] at heq
      refine ⟨ha, ?_⟩
      unfold canonical at heq
      split_ifs at heq with hc
      · left
        have hparts := heq
        unfold externalEvidenceMemoryKey at hparts ⊢
        simp only [EvidenceKey.mk.injEq] at hparts
        obtain ⟨h1, h2, h3, h4, h5, -, h7⟩ := hparts
        cases hmk : m.memoryKey
        simp only [hmk] at h1 h2 h3 h4 h5 h7 hc
        simp [h1, h2, h3, h4, h5, h7, hc.2.1]
      · exact Or.inr heq
    · left
      rw [recordOf_plain ha] at heq
      unfold canonical at heq
      split_ifs at heq with hc
      · refine absurd ⟨?_, ?_, ?_⟩ ha
        · have := congrArg EvidenceKey.namespaceSource heq
          exact this.symm.trans hc.1
        · have hs : "computer_history" = source := congrArg EvidenceKey.source heq
          rw [← hs]
          rfl
        · have hid : m.memoryKey.sourceRecordId = p := congrArg EvidenceKey.sourceRecordId heq
          exact hid ▸ hc.2.2
      · exact heq
  -- a row under the other key of the record would be a second row of it
  have hother : ∀ {key : EvidenceKey}, m.memoryKey ≠ key → canonical key = m.record →
      ∀ m' ∈ rows, m'.memoryKey ≠ key := fun hne hrec m' hm' hk => by
    have := h.eq_of_record hm' hm (by rw [h.record_key hm', hk, hrec])
    exact hne (this ▸ hk)
  by_cases halias : source = "computer_history" ∧ n.source = "memmy"
  · by_cases hp : isHistoryRecordId p = true
    · have ha : Aliased n source p := ⟨halias.2, halias.1 ▸ rfl, hp⟩
      have hdiffer : externalEvidenceMemoryKey n "memmy" p ≠ externalEvidenceMemoryKey n source p := by
        intro he
        have hs := (key_eq_iff.mp he).2.1
        rw [halias.1] at hs
        revert hs
        decide
      have hkey' : m.memoryKey = externalEvidenceMemoryKey n "memmy" p ∨
          m.memoryKey = externalEvidenceMemoryKey n source p := by
        rcases hkey with hk | ⟨-, hk⟩
        · exact Or.inr hk
        · rwa [halias.1]
      rcases hkey' with hk | hk
      · have hget := h.getByKey_eq_some.mpr ⟨hm, hk⟩
        have hnone := h.getByKey_eq_none (hother (hk ▸ hdiffer) heq.symm)
        rw [lookup_legacy halias hget (h.legacy_of_key hm hk hp) (Or.inr hnone)]
      · have hnone := h.getByKey_eq_none (hother (hk ▸ hdiffer.symm)
          ((recordOf_alias ha rfl).symm.trans heq.symm))
        rw [lookup_canonical (Or.inr fun l hl => by rw [hnone] at hl; cases hl)]
        exact h.getByKey_eq_some.mpr ⟨hm, hk⟩
    · have hk : m.memoryKey = externalEvidenceMemoryKey n source p := hkey.elim id fun hk => absurd hk.1.2.2 hp
      rw [lookup_canonical (Or.inr fun l hl => ?_)]
      · exact h.getByKey_eq_some.mpr ⟨hm, hk⟩
      · obtain ⟨hm', hk'⟩ := h.getByKey_eq_some.mp hl
        exact eq_false_iff.mpr fun hlegacy => hp (h.dated_of_legacy hm' halias.2 hk' hlegacy)
  · rw [lookup_canonical (Or.inl halias)]
    refine h.getByKey_eq_some.mpr ⟨hm, ?_⟩
    rcases hkey with hk | ⟨ha, hk⟩
    · exact hk
    have hs : source = "memmy" := by
      have hname := ha.2.1
      unfold isHistorySource at hname
      simp only [or_eq_true, decide_eq_true_eq] at hname
      exact hname.resolve_right fun hc => halias ⟨hc, ha.1⟩
    subst hs
    rcases hown with ho | ho | ho | ho | ho
    · exact ho
    · exact absurd rfl ho
    · exact absurd ha.1 ho
    · exact absurd ha.2.2 ho
    · exact hk.resolve_right ho

theorem lookup_memoryKey (hfind : (lookupExternalEvidence rows n source p).2 = some m) :
    m.memoryKey = externalEvidenceMemoryKey n source p ∨ (source = "computer_history" ∧ n.source = "memmy") ∧
      isHistoryRecordId p = true ∧ m.memoryKey = externalEvidenceMemoryKey n "memmy" p := by
  rcases lookup_cases rows n source p with heq | ⟨l, halias, hget, hlegacy, heq⟩
  · rw [heq] at hfind
    exact Or.inl (h.getByKey_eq_some.mp hfind).2
  · rw [heq] at hfind
    cases hfind
    obtain ⟨hm, hkey⟩ := h.getByKey_eq_some.mp hget
    exact Or.inr ⟨halias, h.dated_of_legacy hm halias.2 hkey hlegacy, hkey⟩

theorem write {rows' : List MemoryRow} {x : MemoryRow}
    (hmem : ∀ y ∈ rows', y ∈ rows ∨ y = x) (hids : (rows'.map (·.id)).Nodup)
    (hrecords : (rows'.map (·.record)).Nodup)
    (hkeyed : x.memoryKey = x.sourceKey ∨
      x.Named ∧ isHistoryRecordId x.evidence.sourceRecordId = true ∧
        x.memoryKey = externalEvidenceMemoryKey x.evidence.owner "memmy" x.evidence.sourceRecordId)
    (hdated : x.Named → x.evidence.historyId = some x.evidence.sourceRecordId →
      isHistoryRecordId x.evidence.sourceRecordId = true)
    (hderived : x.Named → ∀ p ∈ x.evidence.parentSourceRecordIds, isHistoryRecordId p = true →
      isHistoryRecordId x.evidence.sourceRecordId = true)
    (hcoherent : ∀ m ∈ rows, m.namespaceId = x.namespaceId ↔
      SameScope m.evidence.owner x.evidence.owner) : Tidy rows' where
  ids := hids
  records := hrecords
  keyed := fun y hy => (hmem y hy).elim (h.keyed y) fun he => he ▸ hkeyed
  dated := fun y hy => (hmem y hy).elim (h.dated y) fun he => he ▸ hdated
  derived := fun y hy => (hmem y hy).elim (h.derived y) fun he => he ▸ hderived
  coherent := fun y hy z hz => by
    rcases hmem y hy with hy | rfl <;> rcases hmem z hz with hz | rfl
    · exact h.coherent y hy z hz
    · exact hcoherent y hy
    · rw [eq_comm, hcoherent z hz]
      exact ⟨SameScope.symm, SameScope.symm⟩
    · exact iff_of_true rfl (.refl _)

end

end Tidy

namespace Admissible

variable {r : SyncRequest}

/-- A record that the request names is found if it has a row. -/
theorem lookup (h : Admissible rows r) (htidy : Tidy rows)
    (hnamed : p = r.sourceRecordId ∨ ∃ u, r.action = .upsert u ∧ p ∈ u.parents) (hm : m ∈ rows)
    (heq : m.record = recordOf r.owner r.source p) :
    (lookupExternalEvidence rows r.owner r.source p).2 = some m := by
  refine htidy.lookup_of_record hm heq (Or.inr ?_)
  by_cases hs : r.source = "memmy"
  swap
  · exact Or.inl hs
  by_cases hn : r.owner.source = "memmy"
  swap
  · exact Or.inr (Or.inl hn)
  by_cases hp : isHistoryRecordId p = true
  · exact Or.inr (Or.inr (Or.inr (h.unhidden hn hs p hp hnamed m hm)))
  · exact Or.inr (Or.inr (Or.inl hp))

/-- No row is about a record that is not found. -/
theorem record_ne (h : Admissible rows r) (htidy : Tidy rows)
    (hnone : (lookupExternalEvidence rows r.owner r.source r.sourceRecordId).2 = none) :
    ∀ m ∈ rows, m.record ≠ canonical r.key := fun m hm heq => by
  have := h.lookup htidy (Or.inl rfl) hm heq
  rw [hnone] at this
  cases this

end Admissible

end Memmy.Evidence
