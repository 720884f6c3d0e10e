import Mathlib.Data.List.Nodup
import Memmy.Lib.Text

/-! # JSON values

What `JSON.parse` returns and what a session or a patch carries as untyped data. The properties of an
object are listed in order, each key once. -/

namespace Memmy.Lib.JsonValue

open Lib.Text List

inductive Json where
  | null
  | bool (b : Bool)
  | num (n : JsNumber)
  | str (s : String)
  | arr (items : List Json)
  | obj (fields : List (String × Json))

/-- A plain object: `Record<string, unknown>`. -/
abbrev JsonObject : Type := List (String × Json)

namespace JsonObject

/-- `object[key]`; `none` is `undefined`. -/
def get? (o : JsonObject) (key : String) : Option Json := (o.find? fun f => f.1 = key).map (·.2)

/-- `key in object`, for an own property. -/
def has (o : JsonObject) (key : String) : Bool := o.any fun f => f.1 = key

/-- `object[key] = value`: a key that is there keeps its place. -/
def set (o : JsonObject) (key : String) (value : Json) : JsonObject :=
  if has o key then o.map fun f => if f.1 = key then (key, value) else f else o ++ [(key, value)]

/-- `{ ...object, ...other }`. -/
def merge (o other : JsonObject) : JsonObject := other.foldl (fun o f => set o f.1 f.2) o

def keys (o : JsonObject) : List String := o.map (·.1)

variable {o : JsonObject} {key : String}

theorem has_iff : has o key = true ↔ key ∈ keys o := by
  simp [has, keys]

theorem get?_set_of_ne {other : String} (h : other ≠ key) (value : Json) :
    get? (set o key value) other = get? o other := by
  have hmap : ∀ o : JsonObject, get? (o.map fun f => if f.1 = key then (key, value) else f) other =
      get? o other := by
    intro o
    unfold get?
    induction o with
    | nil => rfl
    | cons f o ih =>
      rw [map_cons, find?_cons, find?_cons]
      by_cases hf : f.1 = key
      · rw [if_pos hf, hf]
        simpa [h.symm] using ih
      · rw [if_neg hf]
        by_cases ho : f.1 = other
        · simp [ho]
        · simpa [ho] using ih
  unfold set
  split_ifs with hhas
  · exact hmap o
  · unfold get?
    simp [h.symm]

theorem get?_set_self (o : JsonObject) (key : String) (value : Json) :
    get? (set o key value) key = some value := by
  have hmap : ∀ o : JsonObject, has o key = true →
      get? (o.map fun f => if f.1 = key then (key, value) else f) key = some value := by
    intro o
    unfold get?
    induction o with
    | nil => exact fun h => absurd h Bool.false_ne_true
    | cons f o ih =>
      intro hhas
      rw [map_cons, find?_cons]
      by_cases hf : f.1 = key
      · simp [hf]
      · rw [if_neg hf]
        simpa [hf] using ih (by simpa [has, hf] using hhas)
  unfold set
  split_ifs with hhas
  · exact hmap o hhas
  · unfold get?
    have hnone : o.find? (fun f => f.1 = key) = none := by
      rw [find?_eq_none]
      exact fun f hf he => hhas (has_iff.mpr (mem_map.mpr ⟨f, hf, by simpa using he⟩))
    rw [find?_append, hnone]
    simp

theorem set_of_not_mem (h : key ∉ keys o) (value : Json) : set o key value = o ++ [(key, value)] := by
  unfold set
  rw [if_neg (by rwa [has_iff])]

theorem keys_set (value : Json) :
    keys (set o key value) = if key ∈ keys o then keys o else keys o ++ [key] := by
  by_cases h : key ∈ keys o
  · unfold set
    rw [if_pos h, if_pos (has_iff.mpr h)]
    unfold keys
    rw [map_map]
    refine map_congr_left fun f _ => ?_
    simp only [Function.comp_apply]
    split_ifs with hf
    · exact hf.symm
    · rfl
  · rw [if_neg h, set_of_not_mem h]
    simp [keys]

/-- Only the last of two writes counts. -/
theorem set_set (o : JsonObject) (key : String) (value value' : Json) :
    set (set o key value) key value' = set o key value' := by
  have hmap : ∀ o : JsonObject,
      (o.map fun f => if f.1 = key then (key, value) else f).map
        (fun f => if f.1 = key then (key, value') else f) =
      o.map fun f => if f.1 = key then (key, value') else f := by
    intro o
    rw [map_map]
    refine map_congr_left fun f _ => ?_
    split_ifs <;> simp_all
  have hhas : has (set o key value) key = true := by
    rw [has_iff, keys_set]
    split_ifs with h
    · exact h
    · exact mem_append_right _ (mem_singleton_self _)
  rw [set, if_pos hhas]
  by_cases h : has o key = true
  · rw [set, if_pos h, hmap, set, if_pos h]
  · rw [set, if_neg h, set, if_neg h, map_append]
    have hid : ∀ f ∈ o, (if f.1 = key then (key, value') else f) = f := by
      intro f hf
      have hne : f.1 ≠ key := fun he => h (has_iff.mpr (mem_map.mpr ⟨f, hf, he⟩))
      rw [if_neg hne]
    rw [map_congr_left hid]
    simp

theorem nodup_keys_set (h : (keys o).Nodup) (key : String) (value : Json) : (keys (set o key value)).Nodup := by
  rw [keys_set]
  split_ifs with hk
  · exact h
  · exact nodup_append.mpr ⟨h, nodup_singleton _, by
      intro a ha b hb
      rw [mem_singleton.mp hb]
      exact fun he => hk (he ▸ ha)⟩

theorem nodup_keys_merge : ∀ (other : JsonObject) {o : JsonObject}, (keys o).Nodup →
    (keys (merge o other)).Nodup
  | [], _, h => h
  | f :: other, o, h => nodup_keys_merge other (o := set o f.1 f.2) (nodup_keys_set h f.1 f.2)

theorem merge_of_disjoint : ∀ (other o : JsonObject), (keys (o ++ other)).Nodup → merge o other = o ++ other
  | [], o, _ => (append_nil o).symm
  | f :: other, o, h => by
    have hf : f.1 ∉ keys o := by
      unfold keys at h ⊢
      rw [map_append, nodup_append] at h
      intro hmem
      exact h.2.2 _ hmem _ mem_cons_self rfl
    change merge (set o f.1 f.2) other = _
    rw [set_of_not_mem hf, merge_of_disjoint other _ (by simpa using h), append_assoc]
    rfl

/-- An object with each key once is what it is merged from. -/
theorem merge_nil (h : (keys o).Nodup) : merge [] o = o := merge_of_disjoint o [] h

end JsonObject

namespace Json

/-- `isRecord(value)`, with the record. -/
def record? : Json → Option JsonObject
  | obj fields => some fields
  | _ => none

def str? : Json → Option String
  | str s => some s
  | _ => none

mutual

/-- `JSON.parse(JSON.stringify(value))`: a number that is not finite is written as `null`. -/
def wire : Json → Json
  | null => null
  | bool b => bool b
  | num (.finite q) => num (.finite q)
  | num _ => null
  | str s => str s
  | arr items => arr (wireItems items)
  | obj fields => obj (wireFields fields)

def wireItems : List Json → List Json
  | [] => []
  | j :: js => wire j :: wireItems js

def wireFields : List (String × Json) → List (String × Json)
  | [] => []
  | (key, j) :: fields => (key, wire j) :: wireFields fields

end

/-- Texts are written as they are. -/
@[simp] theorem str?_wire (j : Json) : (wire j).str? = j.str? := by
  cases j with
  | num n => cases n <;> rfl
  | _ => rfl

theorem get?_wireFields (key : String) : ∀ o : JsonObject,
    JsonObject.get? (wireFields o) key = (JsonObject.get? o key).map wire
  | [] => rfl
  | (k, j) :: o => by
    have ih := get?_wireFields key o
    unfold JsonObject.get? at ih ⊢
    by_cases hk : k = key
    · simp [wireFields, hk]
    · simpa [wireFields, find?_cons, hk] using ih

end Json

end Memmy.Lib.JsonValue
