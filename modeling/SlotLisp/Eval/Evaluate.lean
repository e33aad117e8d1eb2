import SlotLisp.Eval.SpecialForm

/-!
The evaluator. A form is looked at once: macro calls are expanded and evaluated again, special forms
follow their own rules, other lists are applications, symbols are variables, and everything else is
its own value. Fuel bounds how deeply evaluations nest.
-/

namespace SlotLisp
namespace Eval

/-- An application evaluates the function and then the arguments, from left to right. -/
def application (eval : Evaluator) (head : Value) (args : List Value) (env : FrameId)
    (macros : MacroTableId) : Eval Value := do
  let fn ← eval head env macros
  let args ← args.mapM fun a => eval a env macros
  apply eval fn env macros args

def symbolForm (eval : Evaluator) (fuel : Nat) (head : Symbol) (args : List Value) (env : FrameId)
    (macros : MacroTableId) : Eval Value := do
  match (← get).transformer? macros head with
  | some t => do
    let form ← transform eval t args env macros
    eval form env macros
  | none =>
    match SpecialForm.ofSymbol? head with
    | some form => special eval fuel form args env macros
    | none => application eval (.symbol head) args env macros

/-- Evaluate a form, where `eval` evaluates the forms that this takes. -/
def step (eval : Evaluator) (fuel : Nat) : Evaluator := fun form env macros =>
  match form with
  | .dotted _ _ => throw (.malformed (.dottedCall form))
  | .copies _ _ _ => throw (.malformed (.dottedCall form))
  | .list (.symbol head :: args) => symbolForm eval fuel head args env macros
  | .list (head :: args) => application eval head args env macros
  | .symbol n => if n.selfEvaluating then return form else lookup env form
  | v => pure v

end Eval

def evaluate : Nat → Evaluator
  | 0 => fun _ _ _ => Eval.outOfFuel
  | fuel + 1 => Eval.step (evaluate fuel) fuel

end SlotLisp
