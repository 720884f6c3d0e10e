import Mathlib.Data.List.Basic

/-! # Skills: the steps of a procedure

A step names the policies that support it; a step that names none is supported by all source policies of
its Skill. Steps of two procedures are matched by their ids, and else by their normalised titles.

* `mergeCompatibleSkillSteps`: the steps of one Skill are added to those of another.
* `mergeSkillSteps`, `attachSkillStepPolicySources`: a rebuilt procedure over the stored one.
* `keptStep`: what an invalidation leaves of a step.
* `merged_steps`, `merged_covers`: a merge keeps every step with its supports. -/

namespace Memmy.Skills

open List Option

/-- The cleaning of texts, and the hash that a new step is named by. -/
structure TextRules where
  skillText : String → String
  skillMarkdown : String → String
  normalizeSkillStepTitle : String → String
  stepHash : String → String → String

structure Step where
  /-- The id, if it is a text that is not empty. -/
  id : Option String
  title : String
  body : String
  required : Option Bool
  core : Option Bool
  /-- The policies that are declared, none if there is no declaration. -/
  supportingPolicyIds : List String
deriving DecidableEq

def Step.isRequired (st : Step) : Bool := st.required = some true || st.core = some true

/-- `Array.from(new Set(values))` -/
def uniq (values : List String) : List String := values.eraseDups

variable (t : TextRules)

/-- The last element that satisfies `p`, as a map filled in order would give it. -/
def lastIndex (p : Step → Bool) (steps : List Step) : Option ℕ :=
  (steps.zipIdx.reverse.find? fun q => p q.1).map (·.2)

/-- The step that another one is matched with. -/
def matchIndex (steps : List Step) (id : Option String) (title : String) : Option ℕ :=
  (lastIndex (fun st => id.isSome && st.id = id) steps).or
    (lastIndex (fun st => t.normalizeSkillStepTitle st.title = t.normalizeSkillStepTitle title) steps)

/-- `procedureWithPolicySources` -/
def Step.withPolicySources (policyIds : List String) (st : Step) : Step :=
  { st with
    supportingPolicyIds :=
      uniq (st.supportingPolicyIds ++ if st.supportingPolicyIds = [] then policyIds else []) }

/-- `Object.assign(current, { ...step, ...current, supportingPolicyIds })` -/
def Step.absorb (current st : Step) : Step where
  id := current.id.or st.id
  title := current.title
  body := current.body
  required := current.required.or st.required
  core := current.core.or st.core
  supportingPolicyIds := uniq (current.supportingPolicyIds ++ st.supportingPolicyIds)

def mergeCompatibleSkillSteps (existing incoming : List Step) : List Step :=
  incoming.foldl (fun merged st =>
    match matchIndex t existing st.id st.title with
    | some i => merged.modify i (·.absorb st)
    | none => merged ++ [st]) existing

/-- The procedures of Skills, each as the source policies and the steps of the Skill. -/
def mergeCompatibleSkillProcedures : List (List String × List Step) → List Step
  | [] => []
  | first :: rest =>
    rest.foldl (fun merged next =>
      mergeCompatibleSkillSteps t merged (next.2.map (·.withPolicySources next.1)))
      (first.2.map (·.withPolicySources first.1))

/-- The rebuilt steps over the stored ones; the steps of a draft have neither ids nor supports. -/
def mergeSkillSteps (existing additions : List Step) : List Step :=
  let replacement (st : Step) : Option ℕ := lastIndex (fun a =>
    t.normalizeSkillStepTitle a.title = t.normalizeSkillStepTitle st.title) additions
  let merged := existing.map fun st =>
    match (replacement st).bind (additions[·]?) with
    | some a =>
      { st with
        title := a.title
        body := a.body }
    | none => st
  merged ++ (additions.zipIdx.filter fun a => existing.all fun st => replacement st ≠ some a.2).map (·.1)

/-- A step of the written procedure, with the supports of the stored step that it is matched with. -/
def attachStep (existing : List Step) (policyId : String) (st : Step) : Step :=
  let title := if t.skillText st.title ≠ "" then t.skillText st.title else "Step"
  let body := t.skillMarkdown st.body
  let found := (matchIndex t existing st.id title).bind (existing[·]?)
  { st with
    id := (found.bind (·.id)).or (st.id.or (some (t.stepHash title body)))
    title := title
    body := body
    supportingPolicyIds := uniq ((found.map (·.supportingPolicyIds)).getD [] ++
      if found.all (fun e => t.skillMarkdown e.body ≠ body) then [policyId] else []) }

def attachSkillStepPolicySources (existing : List Step) (policyId : String) (steps : List Step) :
    List Step := steps.map (attachStep t existing policyId)

/-- What is left of a step when only some policies are active. -/
def keptStep (activePolicyIds sourcePolicyIds : List String) (st : Step) : Option Step :=
  let effective := if st.supportingPolicyIds ≠ [] then st.supportingPolicyIds else sourcePolicyIds
  let supporting := effective.filter (· ∈ activePolicyIds)
  if supporting = [] then none else some { st with supportingPolicyIds := supporting }

/-! ### Supports -/

variable {t} {steps existing incoming : List Step} {st st' current : Step} {p policyId : String}

@[simp] theorem mem_uniq {values : List String} : p ∈ uniq values ↔ p ∈ values := mem_eraseDups

variable {cs : List (List String × List Step)} {i : ℕ}

theorem lastIndex_some {q : Step → Bool} (h : lastIndex q steps = some i) :
    ∃ current, steps[i]? = some current ∧ q current = true := by
  obtain ⟨⟨current, j⟩, hfind, rfl⟩ := map_eq_some_iff.mp h
  have hmem := mem_reverse.mp (mem_of_find?_eq_some hfind)
  have hq := find?_some hfind
  exact ⟨current, mem_zipIdx_iff_getElem?.mp hmem, hq⟩

/-- The steps are taken as one: they have the same id, or the same title but for its normal form. -/
def Matches (t : TextRules) (st current : Step) : Prop :=
  st.id.isSome ∧ current.id = st.id ∨
    t.normalizeSkillStepTitle current.title = t.normalizeSkillStepTitle st.title

theorem matchIndex_some (h : matchIndex t steps st.id st.title = some i) :
    ∃ current, steps[i]? = some current ∧ Matches t st current := by
  rcases or_eq_some_iff.mp h with hid | ⟨-, htitle⟩
  · obtain ⟨current, hget, hq⟩ := lastIndex_some hid
    simp only [Bool.and_eq_true, decide_eq_true_eq] at hq
    exact ⟨current, hget, Or.inl hq⟩
  · obtain ⟨current, hget, hq⟩ := lastIndex_some htitle
    exact ⟨current, hget, Or.inr (of_decide_eq_true hq)⟩

/-- The step is the same one, with as many supports. -/
structure Grows (current current' : Step) : Prop where
  title : current'.title = current.title
  id : current.id.isSome → current'.id = current.id
  supports : ∀ p ∈ current.supportingPolicyIds, p ∈ current'.supportingPolicyIds

theorem Grows.refl (current : Step) : Grows current current := ⟨rfl, fun _ => rfl, fun _ hp => hp⟩

theorem Grows.trans {a b c : Step} (h : Grows a b) (h' : Grows b c) : Grows a c :=
  ⟨h'.title.trans h.title, fun hid => (h'.id (by rw [h.id hid]; exact hid)).trans (h.id hid),
    fun p hp => h'.supports p (h.supports p hp)⟩

structure Covers (t : TextRules) (st kept : Step) : Prop where
  isMatch : Matches t st kept
  supports : ∀ p ∈ st.supportingPolicyIds, p ∈ kept.supportingPolicyIds

theorem Covers.grows (h : Covers t st current) (hg : Grows current st') : Covers t st st' where
  isMatch := h.isMatch.imp
    (fun hid => ⟨hid.1, (hg.id (by rw [hid.2]; exact hid.1)).trans hid.2⟩) fun htitle => by rw [hg.title, htitle]
  supports := fun p hp => hg.supports p (h.supports p hp)

theorem grows_absorb (current st : Step) : Grows current (current.absorb st) where
  title := rfl
  id := fun hid => by
    obtain ⟨i, hi⟩ := isSome_iff_exists.mp hid
    unfold Step.absorb
    rw [hi]
    rfl
  supports := fun p hp => mem_uniq.mpr (mem_append_left _ hp)

theorem Covers.absorb (h : Matches t st current) : Covers t st (current.absorb st) where
  isMatch := h.imp (fun hid => ⟨hid.1, ((grows_absorb current st).id (by rw [hid.2]; exact hid.1)).trans hid.2⟩) id
  supports := fun p hp => mem_uniq.mpr (mem_append_right _ hp)

/-- One turn of the loop of a merge. -/
def mergeStep (t : TextRules) (existing merged : List Step) (st : Step) : List Step :=
  match matchIndex t existing st.id st.title with
  | some i => merged.modify i (·.absorb st)
  | none => merged ++ [st]

variable {merged : List Step}

theorem getElem?_mergeStep (t : TextRules) (existing : List Step) (st : Step)
    (h : merged[i]? = some current) :
    ∃ current', (mergeStep t existing merged st)[i]? = some current' ∧ Grows current current' := by
  unfold mergeStep
  cases matchIndex t existing st.id st.title with
  | none =>
    have hlt := (List.getElem?_eq_some_iff.mp h).1
    exact ⟨current, by rw [getElem?_append_left hlt, h], .refl current⟩
  | some j =>
    simp only [getElem?_modify, h]
    by_cases hj : j = i
    · exact ⟨current.absorb st, by simp [hj], grows_absorb current st⟩
    · exact ⟨current, by simp [hj], .refl current⟩

theorem grows_mergeStep (t : TextRules) (existing : List Step) (st : Step) (h : current ∈ merged) :
    ∃ current' ∈ mergeStep t existing merged st, Grows current current' := by
  obtain ⟨i, hi⟩ := mem_iff_getElem?.mp h
  obtain ⟨current', hget, hg⟩ := getElem?_mergeStep t existing st hi
  exact ⟨current', mem_of_getElem? hget, hg⟩

/-- The places of the stored steps are kept through the loop. -/
def Placed (existing merged : List Step) : Prop :=
  ∀ (i : ℕ) (current : Step), existing[i]? = some current →
    ∃ current', merged[i]? = some current' ∧ Grows current current'

theorem placed_mergeStep (st : Step) (h : Placed existing merged) :
    Placed existing (mergeStep t existing merged st) := fun i current hi => by
  obtain ⟨x, hx, hg⟩ := h i current hi
  obtain ⟨x', hx', hg'⟩ := getElem?_mergeStep t existing st hx
  exact ⟨x', hx', hg.trans hg'⟩

theorem covers_mergeStep (st : Step) (h : Placed existing merged) :
    ∃ kept ∈ mergeStep t existing merged st, Covers t st kept := by
  unfold mergeStep
  cases hmatch : matchIndex t existing st.id st.title with
  | none => exact ⟨st, mem_append_right _ mem_cons_self, Or.inr rfl, fun _ => id⟩
  | some i =>
    obtain ⟨current, hget, hm⟩ := matchIndex_some hmatch
    obtain ⟨x, hx, hg⟩ := h i current hget
    have hmx : Matches t st x := hm.imp
      (fun hid => ⟨hid.1, (hg.id (by rw [hid.2]; exact hid.1)).trans hid.2⟩) fun htitle => by rw [hg.title, htitle]
    refine ⟨x.absorb st, mem_of_getElem? (i := i) ?_, .absorb hmx⟩
    simp only [getElem?_modify, hx]
    simp

theorem mem_mergeStep (h : st' ∈ mergeStep t existing merged st) :
    ∀ p ∈ st'.supportingPolicyIds, p ∈ st.supportingPolicyIds ∨
      ∃ current ∈ merged, p ∈ current.supportingPolicyIds := by
  unfold mergeStep at h
  intro p hp
  cases hmatch : matchIndex t existing st.id st.title with
  | none =>
    rw [hmatch] at h
    rcases mem_append.mp h with h | h
    · exact Or.inr ⟨st', h, hp⟩
    · exact Or.inl (mem_singleton.mp h ▸ hp)
  | some i =>
    rw [hmatch] at h
    obtain ⟨j, hj⟩ := mem_iff_getElem?.mp h
    rw [getElem?_modify] at hj
    obtain ⟨x, hx, he⟩ := map_eq_some_iff.mp hj
    by_cases hij : i = j
    · rw [if_pos hij] at he
      subst he
      rcases mem_append.mp (mem_uniq.mp hp) with hp | hp
      · exact Or.inr ⟨x, mem_of_getElem? hx, hp⟩
      · exact Or.inl hp
    · rw [if_neg hij] at he
      exact Or.inr ⟨x, mem_of_getElem? hx, by rw [← he] at hp; exact hp⟩

/-! ### Merges -/

theorem foldl_mergeStep : ∀ (incoming : List Step) {merged : List Step}, Placed existing merged →
    (∀ current ∈ merged, ∃ kept ∈ incoming.foldl (mergeStep t existing) merged, Grows current kept) ∧
    (∀ st ∈ incoming, ∃ kept ∈ incoming.foldl (mergeStep t existing) merged, Covers t st kept) ∧
    ∀ kept ∈ incoming.foldl (mergeStep t existing) merged, ∀ p ∈ kept.supportingPolicyIds,
      ∃ st, (st ∈ incoming ∨ st ∈ merged) ∧ p ∈ st.supportingPolicyIds
  | [], merged, _ => ⟨fun current h => ⟨current, h, .refl current⟩, nofun,
      fun kept h p hp => ⟨kept, Or.inr h, hp⟩⟩
  | st :: incoming, merged, h => by
    obtain ⟨hgrows, hcovers, hsound⟩ := foldl_mergeStep incoming (placed_mergeStep (t := t) st h)
    refine ⟨fun current hc => ?_, fun st' hst' => ?_, fun kept hk p hp => ?_⟩
    · obtain ⟨x, hx, hg⟩ := grows_mergeStep t existing st hc
      obtain ⟨kept, hkept, hg'⟩ := hgrows x hx
      exact ⟨kept, hkept, hg.trans hg'⟩
    · rcases mem_cons.mp hst' with rfl | hst'
      · obtain ⟨x, hx, hc⟩ := covers_mergeStep (t := t) st' h
        obtain ⟨kept, hkept, hg⟩ := hgrows x hx
        exact ⟨kept, hkept, hc.grows hg⟩
      · exact hcovers st' hst'
    · obtain ⟨x, hx | hx, hpx⟩ := hsound kept hk p hp
      · exact ⟨x, Or.inl (mem_cons_of_mem _ hx), hpx⟩
      · rcases mem_mergeStep hx p hpx with hps | ⟨current, hc, hpc⟩
        · exact ⟨st, Or.inl mem_cons_self, hps⟩
        · exact ⟨current, Or.inr hc, hpc⟩

theorem placed_refl (existing : List Step) : Placed existing existing :=
  fun _ current h => ⟨current, h, .refl current⟩

/-- **A merge of two procedures** keeps the steps of both, and adds no supports. -/
theorem merged_steps (existing incoming : List Step) :
    (∀ current ∈ existing, ∃ kept ∈ mergeCompatibleSkillSteps t existing incoming, Grows current kept) ∧
    (∀ st ∈ incoming, ∃ kept ∈ mergeCompatibleSkillSteps t existing incoming, Covers t st kept) ∧
    ∀ kept ∈ mergeCompatibleSkillSteps t existing incoming, ∀ p ∈ kept.supportingPolicyIds,
      ∃ st, (st ∈ incoming ∨ st ∈ existing) ∧ p ∈ st.supportingPolicyIds :=
  foldl_mergeStep incoming (placed_refl existing)

/-- What a merge takes of a Skill. -/
def ownSteps (c : List String × List Step) : List Step := c.2.map (·.withPolicySources c.1)

theorem foldl_merges : ∀ (rest : List (List String × List Step)) (merged : List Step),
    let result := rest.foldl (fun merged next => mergeCompatibleSkillSteps t merged (ownSteps next)) merged
    (∀ current ∈ merged, ∃ kept ∈ result, Grows current kept) ∧
    (∀ c ∈ rest, ∀ st ∈ ownSteps c, ∃ kept ∈ result, Covers t st kept) ∧
    ∀ kept ∈ result, ∀ p ∈ kept.supportingPolicyIds,
      ∃ st, (st ∈ merged ∨ ∃ c ∈ rest, st ∈ ownSteps c) ∧ p ∈ st.supportingPolicyIds
  | [], merged => ⟨fun current h => ⟨current, h, .refl current⟩, nofun, fun kept h p hp => ⟨kept, Or.inl h, hp⟩⟩
  | c :: rest, merged => by
    obtain ⟨hgrows, hcovers, hsound⟩ := foldl_merges rest (mergeCompatibleSkillSteps t merged (ownSteps c))
    obtain ⟨hfirst, hown, hold⟩ := merged_steps (t := t) merged (ownSteps c)
    refine ⟨fun current hc => ?_, fun d hd st hst => ?_, fun kept hk p hp => ?_⟩
    · obtain ⟨x, hx, hg⟩ := hfirst current hc
      obtain ⟨kept, hkept, hg'⟩ := hgrows x hx
      exact ⟨kept, hkept, hg.trans hg'⟩
    · rcases mem_cons.mp hd with rfl | hd
      · obtain ⟨x, hx, hc⟩ := hown st hst
        obtain ⟨kept, hkept, hg⟩ := hgrows x hx
        exact ⟨kept, hkept, hc.grows hg⟩
      · exact hcovers d hd st hst
    · obtain ⟨x, hx | ⟨d, hd, hx⟩, hpx⟩ := hsound kept hk p hp
      · obtain ⟨y, hy | hy, hpy⟩ := hold x hx p hpx
        · exact ⟨y, Or.inr ⟨c, mem_cons_self, hy⟩, hpy⟩
        · exact ⟨y, Or.inl hy, hpy⟩
      · exact ⟨x, Or.inr ⟨d, mem_cons_of_mem _ hd, hx⟩, hpx⟩

/-- **Every step of a merged Skill is kept** with its supports. -/
theorem merged_covers {c : List String × List Step} (hc : c ∈ cs) (hst : st ∈ c.2) :
    ∃ kept ∈ mergeCompatibleSkillProcedures t cs, Covers t (st.withPolicySources c.1) kept := by
  cases cs with
  | nil => cases hc
  | cons first rest =>
    obtain ⟨hgrows, hcovers, -⟩ := foldl_merges (t := t) rest (ownSteps first)
    rcases mem_cons.mp hc with rfl | hc
    · obtain ⟨kept, hkept, hg⟩ := hgrows _ (mem_map_of_mem hst)
      exact ⟨kept, hkept, Or.inr (by rw [hg.title]), hg.supports⟩
    · exact hcovers c hc _ (mem_map_of_mem hst)

theorem mem_withPolicySources {policyIds : List String}
    (h : p ∈ (st.withPolicySources policyIds).supportingPolicyIds) :
    p ∈ st.supportingPolicyIds ∨ p ∈ policyIds := by
  rcases mem_append.mp (mem_uniq.mp h) with h | h
  · exact Or.inl h
  · split_ifs at h
    · exact Or.inr h
    · cases h

theorem merged_supports {kept : Step}
    (hk : kept ∈ mergeCompatibleSkillProcedures t cs) (hp : p ∈ kept.supportingPolicyIds) :
    ∃ c ∈ cs, p ∈ c.1 ∨ ∃ st ∈ c.2, p ∈ st.supportingPolicyIds := by
  have hown : ∀ c ∈ cs, ∀ st ∈ ownSteps c, p ∈ st.supportingPolicyIds →
      ∃ c ∈ cs, p ∈ c.1 ∨ ∃ st ∈ c.2, p ∈ st.supportingPolicyIds := by
    intro c hc st hst hps
    obtain ⟨st₀, hst₀, rfl⟩ := mem_map.mp hst
    exact ⟨c, hc, (mem_withPolicySources hps).symm.imp id fun h => ⟨st₀, hst₀, h⟩⟩
  cases cs with
  | nil => cases hk
  | cons first rest =>
    obtain ⟨-, -, hsound⟩ := foldl_merges (t := t) rest (ownSteps first)
    obtain ⟨st, hst | ⟨c, hc, hst⟩, hps⟩ := hsound kept hk p hp
    · exact hown first mem_cons_self st hst hps
    · exact hown c (mem_cons_of_mem _ hc) st hst hps

/-! ### Rebuilds and invalidations -/

theorem attachStep_supports (hp : p ∈ (attachStep t existing policyId st).supportingPolicyIds) :
    p = policyId ∨ ∃ current ∈ existing, p ∈ current.supportingPolicyIds := by
  rcases mem_append.mp (mem_uniq.mp hp) with hp | hp
  · right
    cases hfound : (matchIndex t existing st.id
        (if t.skillText st.title ≠ "" then t.skillText st.title else "Step")).bind (existing[·]?) with
    | none =>
      rw [hfound] at hp
      cases hp
    | some current =>
      rw [hfound] at hp
      obtain ⟨i, -, hget⟩ := bind_eq_some_iff.mp hfound
      exact ⟨current, mem_of_getElem? hget, hp⟩
  · have hlast : ∀ b : Bool, p ∈ (if b = true then [policyId] else []) → p = policyId := by
      intro b hb
      cases b with
      | true => exact mem_singleton.mp hb
      | false => cases hb
    exact Or.inl (hlast _ hp)

theorem keptStep_supports {active sources : List String} (h : keptStep active sources st = some st') :
    st'.supportingPolicyIds ≠ [] ∧ ∀ p ∈ st'.supportingPolicyIds, p ∈ active := by
  unfold keptStep at h
  generalize (if st.supportingPolicyIds ≠ [] then st.supportingPolicyIds else sources) = effective at h
  by_cases hnone : effective.filter (· ∈ active) = []
  · rw [if_pos hnone] at h
    cases h
  · rw [if_neg hnone] at h
    cases h
    exact ⟨hnone, fun p hp => of_decide_eq_true (mem_filter.mp hp).2⟩

end Memmy.Skills
