import Memmy.Retrieval.CandidateDedup

/-! # The groups of a list of candidates

Which conversation a session has during a run is decided by the first trace of the session in the list
(`filler`). So the key that a run uses for a memory is a function of the list (`usedKey`), and the groups
are the classes of the memories under it.

* `selectedGroups_eq`: the classes in the order of their first members, each with its best member.
* `mem_memories`, `ids_memories`, `representativeId_eq`, `channelScores_eq`: the result in terms of
  the best member `bestOf` and the class `classOf` of each memory. -/

namespace Memmy.Retrieval.CandidateDedup

open Lib Lib.Groups Lib.Sort List Option Function

variable {V : Type} (c : Context) (scores : String → Option ChannelScores)

/-! ### The keys of a run -/

/-- The first trace of a session. -/
def filler (l : List (MemoryRow V)) (sessionId : String) : Option (MemoryRow V) :=
  l.find? fun f => isTrace f && decide (sessionOf f = some sessionId)

/-- What is known of the sessions after the memories of a list. -/
def cacheAfter (l : List (MemoryRow V)) : Cache := fun sessionId =>
  (filler l sessionId).map (nativeConversation c sessionId)

/-- The key of `m` when the conversation of its session comes from `f`. -/
def keyBy (f m : MemoryRow V) : Option TurnKey :=
  if isTrace m then (sessionOf m).bind fun sessionId => keyIn c (nativeConversation c sessionId f) m else none

/-- The key that a run over `l` has for a memory. -/
def usedKey (l : List (MemoryRow V)) (m : MemoryRow V) : Option TurnKey :=
  (sessionOf m).bind fun sessionId => (filler l sessionId).bind fun f => keyBy c f m

variable {m : MemoryRow V}

variable {m' : MemoryRow V} {sessionId : String}

theorem filler_self (htrace : isTrace m = true)
    (hsession : sessionOf m = some sessionId) (l : List (MemoryRow V)) :
    filler (l ++ [m]) sessionId = some ((filler l sessionId).getD m) := by
  unfold filler
  rw [find?_append]
  cases l.find? fun f => isTrace f && decide (sessionOf f = some sessionId) with
  | none => simp [htrace, hsession]
  | some f => rfl

theorem filler_other (h : ¬ (isTrace m = true ∧ sessionOf m = some sessionId)) (l : List (MemoryRow V)) :
    filler (l ++ [m]) sessionId = filler l sessionId := by
  unfold filler
  rw [find?_append]
  have hnone : [m].find? (fun f => isTrace f && decide (sessionOf f = some sessionId)) = none := by
    simpa using h
  rw [hnone, or_none]

theorem usedKey_of_not_trace (h : ¬ isTrace m = true) (l : List (MemoryRow V)) : usedKey c l m = none := by
  unfold usedKey keyBy
  simp only [if_neg h]
  cases sessionOf m with
  | none => rfl
  | some sessionId =>
    rw [bind_some]
    cases filler l sessionId <;> rfl

theorem duplicateKey_cacheAfter (l : List (MemoryRow V)) (m : MemoryRow V) :
    duplicateKey c (cacheAfter c l) m = (usedKey c (l ++ [m]) m, cacheAfter c (l ++ [m])) := by
  by_cases htrace : isTrace m = true
  · unfold duplicateKey nativeConversationKey
    cases hsession : sessionOf m with
    | none =>
      have hcache : cacheAfter c (l ++ [m]) = cacheAfter c l := by
        funext sessionId
        unfold cacheAfter
        rw [filler_other (by rintro ⟨-, h⟩; rw [hsession] at h; cases h)]
      simp [usedKey, hsession, hcache, keyIn]
    | some sessionId =>
      have hother : ∀ other, other ≠ sessionId → cacheAfter c (l ++ [m]) other = cacheAfter c l other := by
        intro other hne
        unfold cacheAfter
        rw [filler_other (by rintro ⟨-, h⟩; rw [hsession] at h; exact hne (some.inj h).symm)]
      have hself := filler_self htrace hsession l
      cases hfiller : filler l sessionId with
      | none =>
        rw [hfiller, getD_none] at hself
        have hcache : cacheAfter c (l ++ [m]) =
            Function.update (cacheAfter c l) sessionId (some (nativeConversation c sessionId m)) := by
          funext other
          by_cases hother' : other = sessionId
          · rw [hother', update_self, cacheAfter, hself, map_some]
          · rw [update_of_ne hother', hother other hother']
        have hlookup : cacheAfter c l sessionId = none := by rw [cacheAfter, hfiller, map_none]
        simp [hlookup, hcache, usedKey, hsession, hself, keyBy, htrace]
      | some f =>
        rw [hfiller, getD_some] at hself
        have hcache : cacheAfter c (l ++ [m]) = cacheAfter c l := by
          funext other
          by_cases hother' : other = sessionId
          · rw [hother', cacheAfter, hself, cacheAfter, hfiller]
          · exact hother other hother'
        have hlookup : cacheAfter c l sessionId = some (nativeConversation c sessionId f) := by
          rw [cacheAfter, hfiller, map_some]
        simp [hlookup, hcache, usedKey, hsession, hself, keyBy, htrace]
  · have hcache : cacheAfter c (l ++ [m]) = cacheAfter c l := by
      funext sessionId
      unfold cacheAfter
      rw [filler_other fun h => htrace h.1]
    rw [duplicateKey, if_neg htrace, usedKey_of_not_trace c htrace, hcache]

/-- The first trace of a session stays the first. -/
theorem usedKey_append {l : List (MemoryRow V)} (hm : m ∈ l) (rest : List (MemoryRow V)) :
    usedKey c (l ++ rest) m = usedKey c l m := by
  by_cases htrace : isTrace m = true
  · unfold usedKey
    cases hsession : sessionOf m with
    | none => rfl
    | some sessionId =>
      have hfound : filler (l ++ rest) sessionId = filler l sessionId := by
        unfold filler
        rw [find?_append]
        cases hfind : l.find? fun f => isTrace f && decide (sessionOf f = some sessionId) with
        | some f => rfl
        | none =>
          have hnone := find?_eq_none.mp hfind m hm
          exact absurd (by simp [htrace, hsession]) hnone
      rw [bind_some, bind_some, hfound]
  · rw [usedKey_of_not_trace c htrace, usedKey_of_not_trace c htrace]

/-- An entry of the map of groups. -/
def entryOf (l : List (MemoryRow V)) (item : MemoryRow V × ℕ) : GroupKey × ℕ × MemoryRow V :=
  (groupKeyOf (usedKey c l item.1) item.2 item.1.id, item.2, item.1)

/-- **The run over the candidates** collects them by the keys of the list. -/
theorem foldl_addCandidate : ∀ (rest before : List (MemoryRow V)) (n : ℕ)
    (groups : List (Group GroupKey (MemoryRow V))),
    ((rest.zipIdx n).foldl (addCandidate c) (groups, cacheAfter c before)).1 =
      ((rest.zipIdx n).map (entryOf c (before ++ rest))).foldl
        (fun groups item => add groups item.1 item.2.1 item.2.2) groups
  | [], _, _, _ => rfl
  | m :: rest, before, n, groups => by
    have hlist : before ++ m :: rest = (before ++ [m]) ++ rest := by simp
    have hkey : usedKey c (before ++ m :: rest) m = usedKey c (before ++ [m]) m := by
      rw [hlist]
      exact usedKey_append c (mem_append_right _ (mem_singleton_self _)) rest
    rw [zipIdx_cons, foldl_cons, addCandidate, duplicateKey_cacheAfter]
    rw [foldl_addCandidate rest (before ++ [m]) (n + 1), map_cons, foldl_cons, ← hlist]
    simp only [entryOf, hkey]

/-! ### The classes -/

/-- What tells the groups apart: the key of the run, or the id of a memory without one. -/
inductive ClassKey where
  | single (id : String)
  | turn (key : TurnKey)
  deriving DecidableEq, Repr

def classOf (l : List (MemoryRow V)) (m : MemoryRow V) : ClassKey :=
  match usedKey c l m with
  | none => .single m.id
  | some key => .turn key

/-- The memories of a class, in the order of the list. -/
def classMembers (l : List (MemoryRow V)) (k : ClassKey) : List (MemoryRow V) :=
  l.filter fun m => classOf c l m = k

/-- A key of the map of groups without the index. -/
def GroupKey.toClass : GroupKey → ClassKey
  | unique _ id => .single id
  | turn key => .turn key

variable {c} {l : List (MemoryRow V)}

theorem toClass_entryOf (item : MemoryRow V × ℕ) : (entryOf c l item).1.toClass = classOf c l item.1 := by
  unfold entryOf groupKeyOf classOf
  cases usedKey c l item.1 <;> rfl

/-- **Among the entries of a list the index tells no more** than the id. -/
theorem key_eq_of_toClass (hids : (l.map MemoryRow.id).Nodup) {item item' : MemoryRow V × ℕ}
    (h : item ∈ l.zipIdx) (h' : item' ∈ l.zipIdx)
    (heq : (entryOf c l item).1.toClass = (entryOf c l item').1.toClass) :
    (entryOf c l item).1 = (entryOf c l item').1 := by
  unfold entryOf groupKeyOf at heq ⊢
  cases hkey : usedKey c l item.1 with
  | some key =>
    cases hkey' : usedKey c l item'.1 with
    | some key' =>
      simp only [hkey, hkey', GroupKey.toClass, ClassKey.turn.injEq] at heq
      simp only [heq]
    | none => simp [hkey, hkey', GroupKey.toClass] at heq
  | none =>
    cases hkey' : usedKey c l item'.1 with
    | some key' => simp [hkey, hkey', GroupKey.toClass] at heq
    | none =>
      simp only [hkey, hkey', GroupKey.toClass, ClassKey.single.injEq] at heq
      have hget : (l.map MemoryRow.id)[item.2]? = some item.1.id := by
        rw [getElem?_map, mem_zipIdx_iff_getElem?.mp h, map_some]
      have hget' : (l.map MemoryRow.id)[item'.2]? = some item.1.id := by
        rw [getElem?_map, mem_zipIdx_iff_getElem?.mp h', map_some, heq]
      obtain ⟨hlt, -⟩ := List.getElem?_eq_some_iff.mp hget
      have hindex : item.2 = item'.2 := (getElem?_inj hlt hids).mp (hget.trans hget'.symm)
      simp only [heq, hindex]

def entries (c : Context) (l : List (MemoryRow V)) : List (GroupKey × ℕ × MemoryRow V) :=
  l.zipIdx.map (entryOf c l)

theorem entries_memories : (entries c l).map (·.2.2) = l := by
  unfold entries
  rw [List.map_map]
  exact zipIdx_map_fst 0 l

theorem entries_classes : ((entries c l).map (·.1)).map GroupKey.toClass = l.map (classOf c l) := by
  have hmap : l.map (classOf c l) = l.zipIdx.map fun item => classOf c l item.1 := by
    have hfst := congrArg (List.map (classOf c l)) (zipIdx_map_fst 0 l)
    rw [List.map_map] at hfst
    exact hfst.symm
  unfold entries
  rw [hmap, List.map_map, List.map_map]
  exact map_congr_left fun item _ => toClass_entryOf item

theorem members_collect (hids : (l.map MemoryRow.id).Nodup) :
    (collect (entries c l)).map Group.members =
      (l.map (classOf c l)).eraseDups.map (classMembers c l) := by
  have hnamed := congrArg (List.map Prod.snd) (collect_members (entries c l))
  rw [List.map_map, List.map_map] at hnamed
  have hinjective : ∀ k ∈ (entries c l).map (·.1), ∀ k' ∈ (entries c l).map (·.1),
      k.toClass = k'.toClass → k = k' := by
    intro k hk k' hk' heq
    obtain ⟨entry, hentry, rfl⟩ := mem_map.mp hk
    obtain ⟨entry', hentry', rfl⟩ := mem_map.mp hk'
    obtain ⟨item, hitem, rfl⟩ := mem_map.mp hentry
    obtain ⟨item', hitem', rfl⟩ := mem_map.mp hentry'
    exact key_eq_of_toClass hids hitem hitem' heq
  rw [← entries_classes, eraseDups_map hinjective, List.map_map]
  refine hnamed.trans (map_congr_left fun k hk => ?_)
  have hk' := mem_eraseDups.mp hk
  have hfilter : (entries c l).filter (fun entry => decide (entry.1 = k)) =
      (entries c l).filter fun entry => decide (classOf c l entry.2.2 = k.toClass) := by
    refine filter_congr fun entry hentry => ?_
    obtain ⟨item, hitem, rfl⟩ := mem_map.mp hentry
    have hclass := toClass_entryOf (c := c) (l := l) item
    refine decide_eq_decide.mpr ⟨fun he => ?_, fun he => ?_⟩
    · rw [← he]
      exact hclass.symm
    · exact hinjective _ (mem_map_of_mem hentry) k hk' (hclass.trans he)
  simp only [comp_apply]
  rw [hfilter]
  unfold classMembers
  conv_rhs => rw [← entries_memories (c := c) (l := l), List.filter_map]
  rw [entries_memories]
  rfl

/-- The groups stand in the order of their first members already. -/
theorem sort_collect : sortBy (ascending Group.firstIndex) (collect (entries c l)) = collect (entries c l) := by
  refine sortBy_eq_self _ ?_
  have hindices : (entries c l).map (·.2.1) = List.range' 0 l.length := by
    unfold entries
    rw [List.map_map]
    exact zipIdx_map_snd 0 l
  have hsorted := (hindices ▸ pairwise_lt_range' (s := 0) (n := l.length)).sublist
    (firstIndex_sublist (entries c l))
  rw [pairwise_map] at hsorted
  exact hsorted.imp fun h => ascending_isLE.mpr (Nat.le_of_lt h)

theorem foldl_candidates : (l.zipIdx.foldl (addCandidate c) ([], fun _ => none)).1 = collect (entries c l) :=
  foldl_addCandidate c l [] 0 []

/-- **The groups with their representatives.** -/
theorem selectedGroups_eq (hids : (l.map MemoryRow.id).Nodup) : selectedGroups c scores l =
    (l.map (classOf c l)).eraseDups.filterMap fun k =>
      (sortBy (candidateOrder c scores) (classMembers c l k)).head?.map fun representative =>
        (representative, classMembers c l k) := by
  have hgroups : selectedGroups c scores l = ((collect (entries c l)).map Group.members).filterMap fun members =>
      (sortBy (candidateOrder c scores) members).head?.map fun representative => (representative, members) := by
    unfold selectedGroups
    dsimp only
    rw [foldl_candidates, sort_collect, filterMap_map]
    rfl
  rw [hgroups, members_collect hids, filterMap_map]
  rfl

/-! ### The best of a class -/

instance : Std.TransCmp (candidateOrder (V := V) c scores) := by
  unfold candidateOrder
  infer_instance

variable (c l) in
/-- The best memory of the class of `m`. -/
def bestOf (m : MemoryRow V) : MemoryRow V :=
  ((sortBy (candidateOrder c scores) (classMembers c l (classOf c l m))).head?).getD m

theorem mem_classMembers {k : ClassKey} : m ∈ classMembers c l k ↔ m ∈ l ∧ classOf c l m = k := by
  simp [classMembers]

variable (c)

theorem head?_bestOf (hm : m ∈ l) :
    (sortBy (candidateOrder c scores) (classMembers c l (classOf c l m))).head? = some (bestOf c scores l m) := by
  unfold bestOf
  cases hhead : (sortBy (candidateOrder c scores) (classMembers c l (classOf c l m))).head? with
  | some r => rfl
  | none =>
    rw [head?_eq_none_iff, sortBy_eq_nil] at hhead
    have hmem : m ∈ classMembers c l (classOf c l m) := mem_classMembers.mpr ⟨hm, rfl⟩
    rw [hhead] at hmem
    cases hmem

theorem bestOf_spec (hm : m ∈ l) : bestOf c scores l m ∈ l ∧
    classOf c l (bestOf c scores l m) = classOf c l m ∧
    ∀ x ∈ l, classOf c l x = classOf c l m → (candidateOrder c scores (bestOf c scores l m) x).isLE = true := by
  obtain ⟨hmem, hle⟩ := head?_sortBy _ (head?_bestOf c scores hm)
  obtain ⟨hl, hclass⟩ := mem_classMembers.mp hmem
  exact ⟨hl, hclass, fun x hx he => hle x (mem_classMembers.mpr ⟨hx, he⟩)⟩

theorem bestOf_eq_iff (hm : m ∈ l) (hm' : m' ∈ l) :
    bestOf c scores l m = bestOf c scores l m' ↔ classOf c l m = classOf c l m' := by
  constructor
  · intro h
    rw [← (bestOf_spec c scores hm).2.1, h, (bestOf_spec c scores hm').2.1]
  · intro h
    have hhead := head?_bestOf c scores hm
    rw [h, head?_bestOf c scores hm'] at hhead
    exact (some.inj hhead).symm

variable {c}

theorem eq_of_id (hids : (l.map MemoryRow.id).Nodup) (hm : m ∈ l) (hm' : m' ∈ l)
    (h : m.id = m'.id) : m = m' := inj_on_of_nodup_map hids hm hm' h

theorem mem_selectedGroups (hids : (l.map MemoryRow.id).Nodup) {p : MemoryRow V × List (MemoryRow V)} :
    p ∈ selectedGroups c scores l ↔ ∃ m ∈ l, p = (bestOf c scores l m, classMembers c l (classOf c l m)) := by
  rw [selectedGroups_eq scores hids, mem_filterMap]
  constructor
  · rintro ⟨k, hk, hp⟩
    obtain ⟨m, hm, rfl⟩ := mem_map.mp (mem_eraseDups.mp hk)
    rw [head?_bestOf c scores hm] at hp
    exact ⟨m, hm, (some.inj hp).symm⟩
  · rintro ⟨m, hm, rfl⟩
    refine ⟨classOf c l m, mem_eraseDups.mpr (mem_map_of_mem hm), ?_⟩
    rw [head?_bestOf c scores hm]
    rfl

/-- **The representatives stand in the order of the first members.** -/
theorem ids_selectedGroups (hids : (l.map MemoryRow.id).Nodup) :
    (selectedGroups c scores l).map (·.1.id) = (l.map fun m => (bestOf c scores l m).id).eraseDups := by
  -- the id of the best member as a function of the class
  have hfun : ∀ k ∈ l.map (classOf c l), ∃ m ∈ l, classOf c l m = k ∧
      (sortBy (candidateOrder c scores) (classMembers c l k)).head? = some (bestOf c scores l m) := by
    intro k hk
    obtain ⟨m, hm, rfl⟩ := mem_map.mp hk
    exact ⟨m, hm, rfl, head?_bestOf c scores hm⟩
  have hmap : l.map (fun m => (bestOf c scores l m).id) = (l.map (classOf c l)).map fun k =>
      (((sortBy (candidateOrder c scores) (classMembers c l k)).head?).map MemoryRow.id).getD "" := by
    rw [List.map_map]
    refine map_congr_left fun m hm => ?_
    simp only [comp_apply, head?_bestOf c scores hm, map_some, getD_some]
  rw [hmap, eraseDups_map, selectedGroups_eq scores hids, map_filterMap]
  · conv_rhs => rw [← filterMap_eq_map]
    refine filterMap_congr fun k hk => ?_
    obtain ⟨m, hm, rfl, hhead⟩ := hfun k (mem_eraseDups.mp hk)
    simp [hhead]
  · intro k hk k' hk' heq
    obtain ⟨m, hm, rfl, hhead⟩ := hfun k hk
    obtain ⟨m', hm', rfl, hhead'⟩ := hfun k' hk'
    simp only [hhead, hhead', map_some, getD_some] at heq
    have hsame := eq_of_id hids (bestOf_spec c scores hm).1 (bestOf_spec c scores hm').1 heq
    exact (bestOf_eq_iff c scores hm hm').mp hsame

/-! ### The result -/

@[simp] theorem id_attachVectors (r : MemoryRow V) (members : List (MemoryRow V)) :
    (attachVectors r members).id = r.id := by
  unfold attachVectors
  split_ifs <;> rfl

section Result
variable {m : MemoryRow V}

variable (c) (hids : (l.map MemoryRow.id).Nodup)
include hids

theorem mem_memories {x : MemoryRow V} : x ∈ (deduplicateCrossAccountMemoryCandidates c scores l).memories ↔
    ∃ m ∈ l, x = attachVectors (bestOf c scores l m) (classMembers c l (classOf c l m)) := by
  unfold deduplicateCrossAccountMemoryCandidates
  simp only [List.mem_map, mem_selectedGroups scores hids]
  constructor
  · rintro ⟨p, ⟨m, hm, rfl⟩, rfl⟩
    exact ⟨m, hm, rfl⟩
  · rintro ⟨m, hm, rfl⟩
    exact ⟨_, ⟨m, hm, rfl⟩, rfl⟩

theorem ids_memories : (deduplicateCrossAccountMemoryCandidates c scores l).memories.map MemoryRow.id =
    (l.map fun m => (bestOf c scores l m).id).eraseDups := by
  rw [← ids_selectedGroups scores hids]
  unfold deduplicateCrossAccountMemoryCandidates
  rw [List.map_map]
  exact map_congr_left fun p _ => id_attachVectors _ _

/-- **Which memory stands for a candidate**: the best of its class. -/
theorem representativeId_eq (hm : m ∈ l) :
    (deduplicateCrossAccountMemoryCandidates c scores l).representativeId m.id =
      some (bestOf c scores l m).id := by
  unfold DedupResult.representativeId deduplicateCrossAccountMemoryCandidates
  rw [KeyMap.get?_entries (v := (bestOf c scores l m).id)]
  · rfl
  · refine mem_flatMap.mpr ⟨_, (mem_selectedGroups scores hids).mpr ⟨m, hm, rfl⟩, ?_⟩
    exact mem_map.mpr ⟨m, mem_classMembers.mpr ⟨hm, rfl⟩, rfl⟩
  · intro entry hentry hkey
    obtain ⟨p, hp, hmem⟩ := mem_flatMap.mp hentry
    obtain ⟨m', hm', rfl⟩ := (mem_selectedGroups scores hids).mp hp
    obtain ⟨x, hx, rfl⟩ := mem_map.mp hmem
    obtain ⟨hxl, hclass⟩ := mem_classMembers.mp hx
    have hxm := eq_of_id hids hxl hm hkey
    rw [hxm] at hclass
    exact congrArg MemoryRow.id ((bestOf_eq_iff c scores hm' hm).mpr hclass.symm)

theorem representativeId_none {id : String} (h : id ∉ l.map MemoryRow.id) :
    (deduplicateCrossAccountMemoryCandidates c scores l).representativeId id = none := by
  unfold DedupResult.representativeId deduplicateCrossAccountMemoryCandidates
  rw [KeyMap.get?_entries_none]
  · rfl
  · intro entry hentry hkey
    obtain ⟨p, hp, hmem⟩ := mem_flatMap.mp hentry
    obtain ⟨m', -, rfl⟩ := (mem_selectedGroups scores hids).mp hp
    obtain ⟨x, hx, rfl⟩ := mem_map.mp hmem
    exact h (hkey ▸ mem_map_of_mem (mem_classMembers.mp hx).1)

/-- **The scores of a representative.** -/
theorem channelScores_eq (hm : m ∈ l) :
    (deduplicateCrossAccountMemoryCandidates c scores l).channelScores (bestOf c scores l m).id =
      scoresOf scores (bestOf c scores l m) (classMembers c l (classOf c l m)) := by
  -- an entry of the representative comes from its class
  have hentry : ∀ entry ∈ (selectedGroups c scores l).filterMap (fun group =>
      (scoresOf scores group.1 group.2).map fun channels => (group.1.id, channels)),
      entry.1 = (bestOf c scores l m).id →
        scoresOf scores (bestOf c scores l m) (classMembers c l (classOf c l m)) = some entry.2 := by
    intro entry hmem hkey
    obtain ⟨p, hp, hsome⟩ := mem_filterMap.mp hmem
    obtain ⟨m', hm', rfl⟩ := (mem_selectedGroups scores hids).mp hp
    obtain ⟨channels, hchannels, rfl⟩ := map_eq_some_iff.mp hsome
    have hsame := eq_of_id hids (bestOf_spec c scores hm').1 (bestOf_spec c scores hm).1 hkey
    rw [← hsame, ← (bestOf_eq_iff c scores hm' hm).mp hsame]
    exact hchannels
  unfold DedupResult.channelScores deduplicateCrossAccountMemoryCandidates
  cases hscores : scoresOf scores (bestOf c scores l m) (classMembers c l (classOf c l m)) with
  | none =>
    rw [KeyMap.get?_entries_none]
    · rfl
    · intro entry hmem hkey
      have hsome := hentry entry hmem hkey
      rw [hscores] at hsome
      cases hsome
  | some channels =>
    rw [KeyMap.get?_entries (v := channels)]
    · rfl
    · refine mem_filterMap.mpr ⟨_, (mem_selectedGroups scores hids).mpr ⟨m, hm, rfl⟩, ?_⟩
      rw [hscores]
      rfl
    · intro entry hmem hkey
      have hsome := hentry entry hmem hkey
      rw [hscores] at hsome
      exact (some.inj hsome).symm

theorem channelScores_none {id : String} (h : ∀ m ∈ l, (bestOf c scores l m).id ≠ id) :
    (deduplicateCrossAccountMemoryCandidates c scores l).channelScores id = none := by
  unfold DedupResult.channelScores deduplicateCrossAccountMemoryCandidates
  rw [KeyMap.get?_entries_none]
  · rfl
  · intro entry hmem hkey
    obtain ⟨p, hp, hsome⟩ := mem_filterMap.mp hmem
    obtain ⟨m', hm', rfl⟩ := (mem_selectedGroups scores hids).mp hp
    obtain ⟨channels, -, rfl⟩ := map_eq_some_iff.mp hsome
    exact h m' hm' hkey

end Result

end Memmy.Retrieval.CandidateDedup
