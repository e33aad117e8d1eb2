import SlotLisp.Proofs.Evaluation.Simulation

/-!
Evaluation respects every congruence of computations, whatever it works on: a congruence is a
simulation for the set of all tables, in which nothing is to be known of forms, values and states.
-/

namespace SlotLisp

/-- Every table is one of all. -/
theorem Value.within_all (v : Value) : v.Within fun _ => True := v.within_of_forall fun _ => trivial

theorem Value.all_within_all (vs : List Value) : ∀ v ∈ vs, v.Within fun _ => True :=
  fun v _ => v.within_all

namespace Eval

variable {R : ∀ α : Type, Eval α → Eval α → Prop}

theorem Answering.within {x y : Eval Value} (h : R Value x y) :
    Answering R Value (Value.Within fun _ => True) x y :=
  ⟨h, fun _ v _ _ => v.within_all⟩

namespace Congruence

variable (hR : Congruence R) {α : Type}

include hR

/-! ## Computations that do not evaluate -/

theorem of_outcome {x : Eval α} {f : State → Except Error α × State}
    (hx : ∀ s, x.outcome s = some (f s)) (h : ∀ s : State, s.Change (f s).2) : R α x x := by
  refine hR.single fun s r t hs => ?_
  rw [hx] at hs
  obtain rfl := (Prod.mk.inj (Option.some.inj hs)).2
  exact h s

theorem pure (a : α) : R α (pure a) (pure a) :=
  hR.of_outcome (outcome_pure a) fun _ => .none

theorem throw (e : Error) : R α (throw e) (throw e) :=
  hR.of_outcome (outcome_throw e) fun _ => .none

theorem ofFault (x : Except Fault α) : R α (ofFault x) (ofFault x) := by
  cases x with
  | ok a => exact hR.pure a
  | error f => exact hR.throw _

theorem ask (f : State → Except Error α) : R α (ask f) (ask f) :=
  hR.of_outcome (outcome_ask f) fun _ => .none

theorem define (f : FrameId) (name v : Value) : R Unit (define f name v) (define f name v) :=
  (hR.simulation.define f name v.within_all).1

theorem mark (v : Value) :
    R Value (Eval.create fun s => s.mark v) (Eval.create fun s => s.mark v) :=
  (hR.simulation.mark v.within_all).1

/-! ## Computations that evaluate -/

section Parameters

variable {f g : Value → Eval Value} (h : ∀ v, R Value (f v) (g v))

include h

theorem bindIn (frame : FrameId) (mode : Mode) (args formals : List Value) :
    R Unit (bindIn f frame mode args formals) (bindIn g frame mode args formals) :=
  (hR.simulation.bindIn (fun v _ => .within (h v)) frame mode (Value.all_within_all args)
    (Value.all_within_all formals)).1

theorem sequence (last : Value) (forms : List Value) :
    R Value (sequence f last forms) (sequence g last forms) :=
  (hR.simulation.sequence (fun v _ => .within (h v)) last.within_all (Value.all_within_all forms)).1

end Parameters

section Evaluation

variable {eval eval' : Evaluator}
  (h : ∀ form env macros, R Value (eval form env macros) (eval' form env macros))

include h

theorem initialValue (c : Class) (initargs : Table Value) (slot : Slot) :
    R (Option Value) (initialValue eval c initargs slot) (initialValue eval' c initargs slot) :=
  (hR.simulation.initialValue (fun form env macros _ _ => .within (h form env macros))
    (fun e _ => e.2.within_all) fun v _ => ⟨v.within_all, trivial⟩).1

theorem initialValues (c : Class) (initargs : Table Value) (slots : List Slot)
    (values : Table Value) :
    R (Table Value) (initialValues eval c initargs slots values)
      (initialValues eval' c initargs slots values) :=
  (hR.simulation.initialValues (fun form env macros _ _ => .within (h form env macros))
    (fun e _ => e.2.within_all) (fun _ _ v _ => ⟨v.within_all, trivial⟩) fun e _ =>
      e.2.within_all).1

theorem apply (fn : Value) (env : FrameId) (macros : MacroTableId) (args : List Value) :
    R Value (apply eval fn env macros args) (apply eval' fn env macros args) :=
  (hR.simulation.apply (fun form env macros _ _ => .within (h form env macros))
    fn.within_all env trivial
    (Value.all_within_all args)).1

theorem transform (x : Transformer) (args : List Value) (env : FrameId) (macros : MacroTableId) :
    R Value (transform eval x args env macros) (transform eval' x args env macros) :=
  (hR.simulation.transform (fun form env macros _ _ => .within (h form env macros))
    (x.within_of_forall fun _ => trivial) (Value.all_within_all args) env trivial).1

end Evaluation

/-- Two evaluations of a form are related if the second has at least as much fuel. -/
theorem evaluate {fuel fuel' : Nat} (hle : fuel ≤ fuel') (form : Value) (env : FrameId)
    (macros : MacroTableId) :
    R Value (evaluate fuel form env macros) (evaluate fuel' form env macros) :=
  (hR.simulation.evaluate hle form.within_all env trivial).1

end Congruence
end Eval
end SlotLisp
