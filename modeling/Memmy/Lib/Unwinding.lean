import Memmy.Lib.Run

/-! # What a run leaves when something is hidden

`hide` forgets a part of a state. A silent step changes only what is hidden; a visible one does to the rest what it
does where everything is hidden. Then a run leaves of its state what its visible events alone do (`hide_final`), and
two runs with the same visible events leave the same (`hide_final_eq`). -/

namespace Memmy.Lib.Unwinding

open Lib.Run

variable {σ ε ι : Type*}

/-- The steps of the states with the invariant `I` that satisfy `P`. -/
structure Unwinds (step : σ → ε → σ) (react : σ → ι → σ) (visible : ε → Option ι) (hide : σ → σ) (I : σ → Prop)
    (P : σ → ε → Prop) : Prop where
  inv : ∀ s e, I s → I (step s e)
  silent : ∀ s e, I s → visible e = none → hide (step s e) = hide s
  visible : ∀ s e i, I s → P s e → visible e = some i → hide (step s e) = react (hide s) i

variable {step : σ → ε → σ} {react : σ → ι → σ} {visible : ε → Option ι} {hide : σ → σ} {I : σ → Prop}
  {P : σ → ε → Prop}

/-- **What a run leaves** is what its visible events do. -/
theorem hide_final (h : Unwinds step react visible hide I P) : ∀ (es : List ε) (s : σ), I s →
    (∀ t ∈ taken step s es, P t.1 t.2) → hide (final step s es) = final react (hide s) (es.filterMap visible)
  | [], _, _, _ => rfl
  | e :: es, s, hs, hp => by
    simp only [taken_cons, List.forall_mem_cons] at hp
    have ih := hide_final h es (step s e) (h.inv s e hs) hp.2
    cases hvisible : visible e with
    | none => rw [final_cons, List.filterMap_cons_none hvisible, ih, h.silent s e hs hvisible]
    | some i => rw [final_cons, List.filterMap_cons_some hvisible, final_cons, ih, h.visible s e i hs hp.1 hvisible]

/-- **Two runs with the same visible events** leave the same. -/
theorem hide_final_eq (h : Unwinds step react visible hide I P) {s : σ} (hs : I s) {es es' : List ε}
    (hsame : es.filterMap visible = es'.filterMap visible) (hp : ∀ t ∈ taken step s es, P t.1 t.2)
    (hp' : ∀ t ∈ taken step s es', P t.1 t.2) : hide (final step s es) = hide (final step s es') := by
  rw [hide_final h es s hs hp, hide_final h es' s hs hp', hsame]

end Memmy.Lib.Unwinding
