import SlotLisp.Eval.Builtin
import SlotLisp.Eval.Parameters

/-!
Applying a function to arguments that have been evaluated.
-/

namespace SlotLisp
namespace Eval

def applyClosure (eval : Evaluator) (formals : List Value) (body : Value) (frame : FrameId)
    (args : List Value) (macros : MacroTableId) : Eval Value := do
  let f ← bindParameters (fun f form => eval form f macros) formals args frame
  eval body f macros

def applyPredicate (cls : ClassId) (args : List Value) : Eval Value := do
  let s ← get
  match args with
  | [v] => return .ofBool (v.isInstance?.any fun i => s.descends (s.classOf i) cls)
  | _ => throw (.arity (.predicate (s.getClass cls).name))

def applyReader (cls : ClassId) (name slot : Symbol) (args : List Value) : Eval Value := do
  let s ← get
  match args with
  | [v] =>
    match v.isInstance? with
    | some i =>
      if s.descends (s.classOf i) cls then ofExcept (s.readSlot i (.symbol slot))
      else throw (.mismatch (.readerArgument name (s.getClass cls).name v))
    | none => throw (.mismatch (.readerArgument name (s.getClass cls).name v))
  | _ => throw (.arity (.reader name))

/-- Apply a value to arguments. `funcall` applies its first argument to the others; a default that
has to be supplied looks like a function and takes no arguments. -/
def apply (eval : Evaluator) (fn : Value) (env : FrameId) (macros : MacroTableId)
    (args : List Value) : Eval Value :=
  match fn with
  | .closure _ formals body frame => applyClosure eval formals body frame args macros
  | .function (.builtin b) => callBuiltin eval b args env
  | .function (.funcall macros) =>
    match args with
    | [] => throw (.arity .funcall)
    | f :: rest => apply eval f env macros rest
  | .function (.constructor cls) => construct eval cls args
  | .function (.predicate cls) => applyPredicate cls args
  | .function (.reader cls name slot) => applyReader cls name slot args
  | .unsupplied _ _ _ => fault .mismatch
  | v => throw (.mismatch (.notCallable v))
termination_by structural args

end Eval
end SlotLisp
