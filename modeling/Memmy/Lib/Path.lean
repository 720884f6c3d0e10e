import Memmy.Lib.Reach

/-! # Paths of edges

A path is the list of its edges; `src` and `tgt` say what an edge joins, and `ok` which edges may be taken.

* `isPath_concat`, `stop_concat`: a path that is one edge longer at its end.
* `nodup_vertices`: where nothing reaches itself, no path visits a vertex twice. -/

namespace Memmy.Lib.Path

open Relation Lib.Reach List

section Paths
variable {α ε : Type*} (src tgt : ε → α) (ok : ε → Prop)

/-- The edges lead on from `x`, one after the other. -/
def IsPath : α → List ε → Prop
  | _, [] => True
  | x, e :: es => ok e ∧ src e = x ∧ IsPath (tgt e) es

/-- Where the edges lead. -/
def stop : α → List ε → α
  | x, [] => x
  | _, e :: es => stop (tgt e) es

/-- What the path visits. -/
def vertices (x : α) (es : List ε) : List α := x :: es.map tgt

/-- An edge that may be taken joins the two. -/
def Joined (x y : α) : Prop := ∃ e, ok e ∧ src e = x ∧ tgt e = y

variable {src tgt ok} {x y : α} {e : ε} {es : List ε}

theorem isPath_concat : ∀ {x : α} {es : List ε},
    IsPath src tgt ok x (es ++ [e]) ↔ IsPath src tgt ok x es ∧ ok e ∧ src e = stop tgt x es
  | _, [] => by simp [IsPath, stop]
  | _, e' :: es => by simp only [cons_append, IsPath, stop, @isPath_concat (tgt e') es, and_assoc]

theorem stop_concat : ∀ {x : α} {es : List ε}, stop tgt x (es ++ [e]) = tgt e
  | _, [] => rfl
  | _, e' :: es => @stop_concat (tgt e') es

theorem vertices_concat : vertices tgt x (es ++ [e]) = vertices tgt x es ++ [tgt e] := by
  simp [vertices]

theorem getLast?_vertices : ∀ {x : α} {es : List ε}, (vertices tgt x es).getLast? = some (stop tgt x es)
  | _, [] => rfl
  | x, e :: es => by
    have ih := @getLast?_vertices (tgt e) es
    unfold vertices at ih ⊢
    rw [map_cons, getLast?_cons_cons, ih]
    rfl

theorem IsPath.mono {ok' : ε → Prop} (hok : ∀ e, ok e → ok' e) : ∀ {x : α} {es : List ε},
    IsPath src tgt ok x es → IsPath src tgt ok' x es
  | _, [], _ => trivial
  | _, e :: _, h => ⟨hok e h.1, h.2.1, h.2.2.mono hok⟩

theorem IsPath.forall_mem : ∀ {x : α} {es : List ε}, IsPath src tgt ok x es → ∀ e ∈ es, ok e
  | _, [], _, _, he => absurd he not_mem_nil
  | _, _ :: _, h, e, he => by
    rcases mem_cons.mp he with rfl | he
    · exact h.1
    · exact h.2.2.forall_mem e he

theorem mem_vertices : ∀ {x : α} {es : List ε}, IsPath src tgt ok x es → y ∈ vertices tgt x es →
    ReflTransGen (Joined src tgt ok) x y
  | x, [], _, hy => by
    obtain rfl := mem_singleton.mp hy
    exact ReflTransGen.refl
  | x, e :: es, h, hy => by
    rcases mem_cons.mp hy with rfl | hy
    · exact ReflTransGen.refl
    · exact ReflTransGen.head ⟨e, h.1, h.2.1, rfl⟩ (mem_vertices h.2.2 hy)

/-- **No vertex twice** on a path, where nothing reaches itself. -/
theorem nodup_vertices (hacyclic : Acyclic (Joined src tgt ok)) : ∀ {x : α} {es : List ε},
    IsPath src tgt ok x es → (vertices tgt x es).Nodup
  | x, [], _ => nodup_cons.mpr ⟨not_mem_nil, nodup_nil⟩
  | x, e :: es, h => by
    refine nodup_cons.mpr ⟨fun hx => ?_, nodup_vertices hacyclic h.2.2⟩
    exact hacyclic x (TransGen.head' ⟨e, h.1, h.2.1, rfl⟩ (mem_vertices h.2.2 hx))

end Paths

end Memmy.Lib.Path
