import SlotLisp.Proofs.Evaluation.Fuel
import SlotLisp.Proofs.Session.Reachable

/-!
Uses of a session respect what evaluation respects, provided that finding the macros for a form
does. What every single change keeps is so kept by every use.
-/

namespace SlotLisp
namespace Session

open Eval

section Simulation

variable {T : MacroTableId → Prop} {R : ∀ α : Type, (α → Prop) → Eval α → Eval α → Prop}
  (hR : Simulation T R) {x : Session} (htable : R MacroTableId T x.tableForForm x.tableForForm)

include hR htable

theorem simulation_evalForm (fuel : Nat) {form : Value} (hform : form.Within T) :
    R Value (Value.Within T) (x.evalForm fuel form) (x.evalForm fuel form) :=
  hR.bind htable fun _ hm => hR.bind (hR.mark hform) fun _ hv =>
    hR.evaluate (Nat.le_refl fuel) hv x.env hm

theorem simulation_evalText (fuel : Nat) (text : String) :
    R Value (Value.Within T) (x.evalText fuel text) (x.evalText fuel text) := by
  refine hR.bind (hR.sequence (fun v hv => simulation_evalForm hR htable fuel hv) Value.all_nil
    (Form.all_ofText text)) fun v hv => ?_
  split
  · exact hR.pure hv
  · exact hR.throw _

theorem simulation_defineClass (fuel : Nat) {name bases slots options : Value}
    (selection : Option Selection) (hname : name.Within T) (hbases : bases.Within T)
    (hslots : slots.Within T) (hoptions : options.Within T) :
    R Value (Value.Within T) (x.defineClass fuel name bases slots options selection)
      (x.defineClass fuel name bases slots options selection) := by
  have helements : ∀ {v : Value}, v.Within T → R (List Value) (fun ys => ∀ y ∈ ys, y.Within T)
      (ofFault v.elements) (ofFault v.elements) := fun hv =>
    hR.ofFault fun _ h => Value.all_elements h hv
  refine hR.bind (helements hbases) fun bs hbs => hR.bind (helements hslots) fun ss hss => ?_
  refine hR.bind (helements hoptions) fun os hos => ?_
  refine hR.bind (hR.ask fun s hs _ h => State.all_expandClass h hs.settings ?_) fun form hform =>
    simulation_evalForm hR htable fuel hform
  simp only [List.mem_cons, forall_eq_or_imp, Value.all_list]
  exact ⟨hname, hbs, hss, hos⟩

end Simulation

/-- What every change keeps, and a new table of macros, every use of a session keeps. -/
theorem Step.preserves {P : State → State → Prop} (htrans : ∀ {s t u}, P s t → P t u → P s u)
    (hchange : ∀ {s t : State}, s.Change t → P s t) (htable : ∀ s : State, P s s.addMacroTable.1)
    {x : Session} {s t : State} (h : Step x s t) : P s t := by
  have hcongr := congruence_preserves (P := P) htrans hchange
  have htables : Preserves P MacroTableId x.tableForForm x.tableForForm := by
    unfold tableForForm
    split
    · exact hcongr.pure _
    · intro s r t h
      rw [outcome_create] at h
      obtain ⟨-, rfl⟩ := Prod.mk.inj (Option.some.inj h)
      exact htable s
  have hR := hcongr.simulation
  have hanswers : Answering (Preserves P) MacroTableId (fun _ => True)
      x.tableForForm x.tableForForm :=
    ⟨htables, fun _ _ _ _ => trivial⟩
  cases h with
  | text h => exact (simulation_evalText hR hanswers _ _).1 s _ t h
  | form _ h => exact (simulation_evalForm hR hanswers _ (Value.within_all _)).1 s _ t h
  | evaluation _ h => exact hcongr.evaluate (Nat.le_refl _) _ _ _ s _ t h
  | defineClass _ _ _ _ h =>
      exact (simulation_defineClass hR hanswers _ _ (Value.within_all _) (Value.within_all _)
        (Value.within_all _) (Value.within_all _)).1 s _ t h

end Session
end SlotLisp
