import Memmy.SessionDag.PatchSchema

/-! # What a checked patch is

`PatchOk` says what `validateDagPatch` promises of a patch: the new nodes have temporary ids that are
different from each other and from the nodes of the context, a new task is open, an update is of a
node of the context, and every edge joins names that are known where it stands.

* `validateDagPatch_ok`: a patch that is let through is `PatchOk`. -/

namespace Memmy.SessionDag.Validated

open Lib.JsonValue Lib.Result Lib.Text SessionDag.Types SessionDag.PatchSchema List Option Except

/-- The temporary ids of the new nodes. -/
def tempIds (ops : DagPatch) : List String := (ops.filterMap DagPatchOp.addNode?).map (·.tempId)

@[simp] theorem tempIds_nil : tempIds [] = [] := rfl

@[simp] theorem tempIds_append (ops ops' : DagPatch) : tempIds (ops ++ ops') = tempIds ops ++ tempIds ops' := by
  unfold tempIds; rw [filterMap_append, map_append]

@[simp] theorem tempIds_addNode (op : AddNodePatchOp) (ops : DagPatch) :
    tempIds (.addNode op :: ops) = op.tempId :: tempIds ops := rfl

@[simp] theorem tempIds_updateNode (op : UpdateNodePatchOp) (ops : DagPatch) :
    tempIds (.updateNode op :: ops) = tempIds ops := rfl

@[simp] theorem tempIds_addEdge (op : AddEdgePatchOp) (ops : DagPatch) :
    tempIds (.addEdge op :: ops) = tempIds ops := rfl

variable {kinds : ContextKinds} {ops : DagPatch} {n : JsNumber} {raw : JsonObject} {id : String} {index : ℕ}

theorem mem_tempIds : id ∈ tempIds ops ↔ ∃ op, .addNode op ∈ ops ∧ op.tempId = id := by
  unfold tempIds
  simp only [List.mem_map, mem_filterMap]
  constructor
  · rintro ⟨op, ⟨o, ho, hop⟩, rfl⟩
    cases o <;> cases hop
    exact ⟨_, ho, rfl⟩
  · rintro ⟨op, hop, rfl⟩
    exact ⟨op, ⟨_, hop, rfl⟩, rfl⟩

theorem addedTasks_eq (ops : DagPatch) :
    addedTasks ops = (ops.filterMap DagPatchOp.addNode?).filter fun op => op.kind = .task := by
  unfold addedTasks
  induction ops with
  | nil => rfl
  | cons op ops ih =>
    cases op with
    | addNode a =>
      by_cases hk : a.kind = .task
      · simp [DagPatchOp.addedTask?, DagPatchOp.addNode?, hk, ih]
      · simp [DagPatchOp.addedTask?, DagPatchOp.addNode?, hk, ih]
    | updateNode u => exact ih
    | addEdge e => exact ih

theorem mem_addedTasks {a : AddNodePatchOp} : a ∈ addedTasks ops ↔ .addNode a ∈ ops ∧ a.kind = .task := by
  rw [addedTasks_eq, mem_filter, decide_eq_true_eq, mem_filterMap]
  refine and_congr_left fun _ => ⟨?_, fun h => ⟨_, h, rfl⟩⟩
  rintro ⟨op, hop, ha⟩
  cases op <;> cases ha
  exact hop

/-! ### Scopes -/

/-- Every edge joins names that are known where it stands. -/
def Scoped (known : List String) : DagPatch → Prop
  | [] => True
  | .addNode op :: ops => Scoped (op.tempId :: known) ops
  | .updateNode _ :: ops => Scoped known ops
  | .addEdge op :: ops => (op.sourceId ∈ known ∧ op.targetId ∈ known) ∧ Scoped known ops

theorem Scoped.mono {known known' : List String} (h : ∀ id ∈ known, id ∈ known') :
    ∀ {ops : DagPatch}, Scoped known ops → Scoped known' ops
  | [], _ => trivial
  | .addNode op :: ops, hs => by
    have hcons : ∀ id ∈ op.tempId :: known, id ∈ op.tempId :: known' := by
      intro id hid
      rcases mem_cons.mp hid with rfl | hid
      · exact mem_cons_self
      · exact mem_cons_of_mem _ (h id hid)
    exact @Scoped.mono _ _ hcons ops hs
  | .updateNode _ :: ops, hs => @Scoped.mono _ _ h ops hs
  | .addEdge _ :: ops, hs => ⟨⟨h _ hs.1.1, h _ hs.1.2⟩, @Scoped.mono _ _ h ops hs.2⟩

theorem scoped_append : ∀ (known : List String) (ops ops' : DagPatch),
    Scoped known (ops ++ ops') ↔ Scoped known ops ∧ Scoped (tempIds ops ++ known) ops'
  | known, [], ops' => by simp [Scoped]
  | known, .addNode op :: ops, ops' => by
    have ih := scoped_append (op.tempId :: known) ops ops'
    simp only [cons_append, Scoped, ih, tempIds_addNode]
    refine and_congr_right fun _ => ⟨fun h => h.mono ?_, fun h => h.mono ?_⟩ <;>
      · intro id hid
        simp only [mem_append, mem_cons] at hid ⊢
        tauto
  | known, .updateNode _ :: ops, ops' => by
    have ih := scoped_append known ops ops'
    simpa only [cons_append, Scoped, tempIds_updateNode] using ih
  | known, .addEdge _ :: ops, ops' => by
    have ih := scoped_append known ops ops'
    simp only [cons_append, Scoped, ih, tempIds_addEdge]
    tauto

theorem Scoped.of_mem {known : List String} : ∀ {ops : DagPatch}, Scoped known ops →
    ∀ {e : AddEdgePatchOp}, .addEdge e ∈ ops →
      e.sourceId ∈ tempIds ops ++ known ∧ e.targetId ∈ tempIds ops ++ known
  | .addNode op :: ops, hs, e, he => by
    rcases mem_cons.mp he with he | he
    · cases he
    · have ih := @Scoped.of_mem _ ops hs e he
      simp only [tempIds_addNode, mem_append, mem_cons] at ih ⊢
      tauto
  | .updateNode _ :: ops, hs, e, he => by
    rcases mem_cons.mp he with he | he
    · cases he
    · exact @Scoped.of_mem _ ops hs e he
  | .addEdge op :: ops, hs, e, he => by
    rcases mem_cons.mp he with he | he
    · cases he
      exact ⟨mem_append_right _ hs.1.1, mem_append_right _ hs.1.2⟩
    · exact @Scoped.of_mem _ ops hs.2 e he

theorem scoped_of_forall_mem {known : List String} : ∀ {ops : DagPatch},
    (∀ e, .addEdge e ∈ ops → e.sourceId ∈ known ∧ e.targetId ∈ known) → Scoped known ops
  | [], _ => trivial
  | .addNode _ :: ops, h => Scoped.mono (fun _ => mem_cons_of_mem _)
      (@scoped_of_forall_mem _ ops fun e he => h e (mem_cons_of_mem _ he))
  | .updateNode _ :: ops, h =>
    @scoped_of_forall_mem _ ops fun e he => h e (mem_cons_of_mem _ he)
  | .addEdge op :: ops, h => ⟨h op mem_cons_self,
      @scoped_of_forall_mem _ ops fun e he => h e (mem_cons_of_mem _ he)⟩

/-! ### The promise -/

/-- An importance that is in range. -/
def ImportanceOk (n : JsNumber) : Prop := ∃ k : ℕ, k ≤ 100 ∧ n = .finite k

/-- A name that is neither an id of a node nor the one that an object does not store. -/
structure TempName (name : String) : Prop where
  ne_proto : name ≠ "__proto__"
  ne_id : ∀ s, name ≠ "n_" ++ s

/-- A new node of a checked patch. -/
structure AddOk (ids : List String) (op : AddNodePatchOp) : Prop where
  temp : TempName op.tempId
  new : op.tempId ∉ ids
  importance : ImportanceOk op.importance
  openTask : op.kind = .task → op.status.isOpen = true

/-- An update of a checked patch. -/
structure UpdateOk (ids : List String) (op : UpdateNodePatchOp) : Prop where
  known : op.nodeId ∈ ids
  importance : ∀ i, op.importance = some i → ImportanceOk i
  detail : ∀ d, op.detailJson = some d → d.keys.Nodup
  sourceRefs : ∀ refs, op.sourceRefs = some refs → dedupeSourceRefs refs = refs

/-- **What a checked patch is**, `ids` being the nodes of the context. -/
structure PatchOk (ids : List String) (ops : DagPatch) : Prop where
  adds : ∀ op, .addNode op ∈ ops → AddOk ids op
  updates : ∀ op, .updateNode op ∈ ops → UpdateOk ids op
  temps : (tempIds ops).Nodup
  scopes : Scoped ids ops

/-! ### The fields of an operation -/

theorem mathRound_natCast (k : ℕ) : mathRound (k : ℚ) = k := by
  unfold mathRound
  norm_num

theorem normalizeImportance_of_ok (h : ImportanceOk n) :
    ∃ k : ℕ, k ≤ 100 ∧ n = .finite k ∧ normalizeImportance n = some k := by
  obtain ⟨k, hk, rfl⟩ := h
  refine ⟨k, hk, rfl, ?_⟩
  unfold normalizeImportance
  simp only [mathRound_natCast]
  rw [if_neg (by omega), Int.toNat_natCast]

theorem importanceOk_of_normalize {k : ℕ} (h : normalizeImportance n = some k) : ImportanceOk (.finite k) := by
  unfold normalizeImportance at h
  cases n with
  | finite q =>
    simp only at h
    split_ifs at h with hrange
    · refine ⟨k, ?_, rfl⟩
      have hk := some.inj h
      omega
  | _ => cases h

theorem importanceField_ok (h : importanceField raw index = .ok n) : ImportanceOk n := by
  unfold importanceField at h
  split at h
  · split at h
    · next hn =>
      cases h
      exact importanceOk_of_normalize hn
    · cases h
  · cases h

theorem nodup_keys_sanitizeDetailJson (kind : DagNodeKind) (detail : Option Json) :
    (sanitizeDetailJson kind detail).keys.Nodup := by
  unfold sanitizeDetailJson
  cases detail.bind Json.record? with
  | none => exact nodup_nil
  | some entries =>
    refine List.foldlRecOn (motive := fun o : JsonObject => o.keys.Nodup) entries _ nodup_nil ?_
    intro o ho entry _
    split_ifs
    · exact JsonObject.nodup_keys_set ho _ _
    · exact ho

theorem dedupeFrom_idem : ∀ (refs : List DagSourceRef) (seen : List String),
    dedupeFrom seen (dedupeFrom seen refs) = dedupeFrom seen refs
  | [], _ => rfl
  | ref :: refs, seen => by
    by_cases h : sourceRefKey ref ∈ seen
    · simp only [dedupeFrom, if_pos h]
      exact dedupeFrom_idem refs seen
    · simp only [dedupeFrom, if_neg h]
      rw [dedupeFrom_idem refs]

theorem dedupeSourceRefs_idem (refs : List DagSourceRef) :
    dedupeSourceRefs (dedupeSourceRefs refs) = dedupeSourceRefs refs := dedupeFrom_idem refs []

theorem dedupe_sanitizeSourceRefs (input : Option Json) (turnId : Option String) :
    dedupeSourceRefs (sanitizeSourceRefs input turnId) = sanitizeSourceRefs input turnId := by
  unfold sanitizeSourceRefs
  split
  · exact dedupeSourceRefs_idem _
  · rfl

theorem tempName_of_isTempId {name : String} (h : isTempId name = true) : TempName name := by
  unfold isTempId at h
  constructor
  · rintro rfl
    revert h
    decide
  · rintro s rfl
    revert h
    simp

theorem requiredTempId_ok {expected out : String}
    (h : requiredTempId raw index expected = .ok out) : out = expected ∧ isTempId out = true := by
  unfold requiredTempId at h
  simp only [bind_eq_ok, throwIf_eq_ok, pure_eq, ok.injEq] at h
  obtain ⟨out', -, -, hout, rfl⟩ := h
  push Not at hout
  exact ⟨hout.2, by simpa using hout.1⟩

theorem validateAddNode_ok {expected : String} {op : AddNodePatchOp}
    (h : validateAddNode raw index expected = .ok op) :
    isTempId op.tempId = true ∧ ImportanceOk op.importance ∧ (op.kind = .task → op.status.isOpen = true) := by
  unfold validateAddNode at h
  simp only [bind_eq_ok, throwIf_eq_ok, pure_eq, ok.injEq] at h
  obtain ⟨-, -, kind, -, status, -, -, hstatus, importance, himp, -, -, tempId, htemp, title, -,
    summary, -, rfl⟩ := h
  refine ⟨(requiredTempId_ok htemp).2, importanceField_ok himp, fun hk => ?_⟩
  by_contra ho
  exact hstatus ⟨hk, by simpa using ho⟩

theorem optionalField_ok {β : Type} {field : String} {read : Except String β}
    {v : β} (h : optionalField raw field read = .ok (some v)) : read = .ok v := by
  unfold optionalField at h
  split_ifs at h
  · cases read with
    | error e => cases h
    | ok w => cases h; rfl
  · cases h

theorem validateUpdateNode_ok
    {op : UpdateNodePatchOp} (h : validateUpdateNode raw index kinds = .ok op) :
    (∀ i, op.importance = some i → ImportanceOk i) ∧
      (∀ d, op.detailJson = some d → d.keys.Nodup) ∧
      ∀ refs, op.sourceRefs = some refs → dedupeSourceRefs refs = refs := by
  unfold validateUpdateNode at h
  simp only [bind_eq_ok, throwIf_eq_ok, pure_eq, ok.injEq] at h
  obtain ⟨-, -, nodeId, -, title, -, summary, -, status, -, importance, himp, -, -, -, -, rfl⟩ := h
  refine ⟨?_, ?_, ?_⟩
  · rintro i rfl
    exact importanceField_ok (optionalField_ok himp)
  · rintro d hd
    dsimp only at hd
    split_ifs at hd
    · cases some.inj hd
      cases kinds.lookup nodeId with
      | none => exact nodup_nil
      | some k => exact nodup_keys_sanitizeDetailJson k _
  · rintro refs hrefs
    dsimp only at hrefs
    split_ifs at hrefs
    · cases some.inj hrefs
      exact dedupe_sanitizeSourceRefs _ _

theorem validateAddEdge_ok {tempKinds : ContextKinds}
    {op : AddEdgePatchOp} (h : validateAddEdge raw index tempKinds kinds = .ok op) :
    ((tempKinds.lookup op.sourceId).or (kinds.lookup op.sourceId)).isSome = true ∧
      ((tempKinds.lookup op.targetId).or (kinds.lookup op.targetId)).isSome = true := by
  unfold validateAddEdge at h
  simp only [bind_eq_ok, throwIf_eq_ok, pure_eq, ok.injEq] at h
  obtain ⟨-, -, sourceId, -, targetId, -, -, -, -, hs, -, ht, type, -, -, -, -, -, rfl⟩ := h
  exact ⟨isSome_iff_ne_none.mpr hs, isSome_iff_ne_none.mpr ht⟩

/-! ### The whole patch -/

theorem lookup_isSome : (kinds.lookup id).isSome = true ↔ id ∈ kinds.map (·.1) := by
  rw [List.mem_map]
  constructor
  · intro h
    obtain ⟨k, hk⟩ := isSome_iff_exists.mp h
    obtain ⟨l₁, l₂, hl, -⟩ := lookup_eq_some_iff.mp hk
    exact ⟨(id, k), by rw [hl]; simp, rfl⟩
  · rintro ⟨⟨id', k⟩, hmem, rfl⟩
    by_contra hnone
    rw [not_isSome_iff_eq_none, lookup_eq_none_iff] at hnone
    simpa using hnone _ hmem

/-- What is known of the patch that has been read so far. -/
structure ReadOk (kinds : ContextKinds) (r : PatchReading) : Prop where
  validated : PatchOk (kinds.map (·.1)) r.ops
  tempKinds : r.tempKinds.map (·.1) = tempIds r.ops

theorem known_of_isSome {r : PatchReading} (hr : ReadOk kinds r)
    (h : ((r.tempKinds.lookup id).or (kinds.lookup id)).isSome = true) :
    id ∈ tempIds r.ops ++ kinds.map (·.1) := by
  rw [isSome_or, Bool.or_eq_true, lookup_isSome, lookup_isSome, hr.tempKinds] at h
  exact mem_append.mpr h

theorem PatchOk.snoc {ids : List String} (h : PatchOk ids ops) {op : DagPatchOp}
    (hadd : ∀ a, op = .addNode a → AddOk ids a ∧ a.tempId ∉ tempIds ops)
    (hupdate : ∀ u, op = .updateNode u → UpdateOk ids u)
    (hedge : ∀ e, op = .addEdge e → e.sourceId ∈ tempIds ops ++ ids ∧ e.targetId ∈ tempIds ops ++ ids) :
    PatchOk ids (ops ++ [op]) where
  adds := by
    intro a ha
    rcases mem_append.mp ha with ha | ha
    · exact h.adds a ha
    · exact (hadd a (mem_singleton.mp ha).symm).1
  updates := by
    intro u hu
    rcases mem_append.mp hu with hu | hu
    · exact h.updates u hu
    · exact hupdate u (mem_singleton.mp hu).symm
  temps := by
    rw [tempIds_append]
    cases op with
    | addNode a =>
      refine nodup_append.mpr ⟨h.temps, nodup_singleton _, ?_⟩
      intro t ht t' ht'
      rw [mem_singleton.mp ht']
      exact fun he => (hadd a rfl).2 (Eq.subst he ht)
    | updateNode u => simpa using h.temps
    | addEdge e => simpa using h.temps
  scopes := by
    rw [scoped_append]
    refine ⟨h.scopes, ?_⟩
    cases op with
    | addNode a => trivial
    | updateNode u => trivial
    | addEdge e => exact ⟨hedge e rfl, trivial⟩

/-- **One operation of a raw patch keeps the promise.** -/
theorem ReadOk.validateOp {r r' : PatchReading} (hr : ReadOk kinds r)
    {rawOp : Json × ℕ} (h : PatchSchema.validateOp kinds r rawOp = .ok r') : ReadOk kinds r' := by
  unfold PatchSchema.validateOp at h
  split at h
  · cases h
  split at h
  · simp only [bind_eq_ok, throwIf_eq_ok, pure_eq, ok.injEq] at h
    obtain ⟨add, hadd, -, hnew, rfl⟩ := h
    push Not at hnew
    obtain ⟨htemp, himp, hopen⟩ := validateAddNode_ok hadd
    have hnotTemp : add.tempId ∉ tempIds r.ops := by
      rw [← hr.tempKinds, ← lookup_isSome]
      exact hnew.1
    refine ⟨hr.validated.snoc ?_ (by simp) (by simp), ?_⟩
    · rintro a ⟨⟩
      exact ⟨⟨tempName_of_isTempId htemp, by rw [← lookup_isSome]; exact hnew.2, himp, hopen⟩, hnotTemp⟩
    · rw [tempIds_append, ← hr.tempKinds]
      simp
  · simp only [bind_eq_ok, throwIf_eq_ok, pure_eq, ok.injEq] at h
    obtain ⟨update, hupdate, -, hknown, rfl⟩ := h
    obtain ⟨himp, hdetail, hrefs⟩ := validateUpdateNode_ok hupdate
    refine ⟨hr.validated.snoc (by simp) ?_ (by simp), ?_⟩
    · rintro u ⟨⟩
      refine ⟨?_, himp, hdetail, hrefs⟩
      simpa using hknown
    · rw [tempIds_append, hr.tempKinds]
      simp
  · simp only [bind_eq_ok, pure_eq, ok.injEq] at h
    obtain ⟨edge, hedge, rfl⟩ := h
    obtain ⟨hs, ht⟩ := validateAddEdge_ok hedge
    refine ⟨hr.validated.snoc (by simp) (by simp) ?_, ?_⟩
    · rintro e ⟨⟩
      exact ⟨known_of_isSome hr hs, known_of_isSome hr ht⟩
    · rw [tempIds_append, hr.tempKinds]
      simp
  · cases h

/-- **A patch that is let through is checked.** -/
theorem validateDagPatch_ok {input : Json}
    (h : validateDagPatch input kinds = .ok ops) : PatchOk (kinds.map (·.1)) ops := by
  unfold validateDagPatch at h
  split at h
  · cases h
  simp only [bind_eq_ok] at h
  obtain ⟨-, -, h⟩ := h
  split at h
  · simp only [bind_eq_ok, pure_eq, ok.injEq] at h
    obtain ⟨r, hr, -, -, rfl⟩ := h
    have hstart : ReadOk kinds {} := ⟨⟨by simp, by simp, by simp, trivial⟩, rfl⟩
    exact (foldlM_invariant (I := ReadOk kinds) (fun _ hb _ _ _ hop => hb.validateOp hop)
      hstart hr).validated
  · cases h

end Memmy.SessionDag.Validated
