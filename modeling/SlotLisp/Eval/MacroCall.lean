import SlotLisp.Eval.Apply
import SlotLisp.Inference.Expansion

/-!
Macro calls: forms whose head names a macro. Expanding one step replaces a call by what its macro
makes of the unevaluated arguments; a form is fully expanded when no part of it outside quoted data
is a call.
-/

namespace SlotLisp

def letBinding (b : Value) : Except Error (Symbol × Value) :=
  match b.items? with
  | some [.symbol name, form] => .ok (name, form)
  | _ => .error (.mismatch (.letBinding b))

/-- Parallel binding is the application of a function of the variables to their values. -/
def expandLet (args : List Value) : Except Error Value :=
  match args with
  | bindings :: form :: body =>
    match bindings.items? with
    | none => .error (.mismatch .letBindings)
    | some bs => do
      let pairs ← bs.mapM letBinding
      let names := pairs.map fun p => Value.symbol p.1
      return .list (.list (.symbol Symbol.lambda :: .list names :: form :: body) ::
        pairs.map Prod.snd)
  | _ => .error (.arity .letForm)

/-- Defining a function is defining a variable with a closure as its value. -/
def expandDefun (args : List Value) : Except Error Value :=
  match args with
  | name :: params :: form :: body =>
    .ok (.list [.symbol Symbol.define, name,
      .list (.symbol Symbol.lambda :: params :: form :: body)])
  | _ => .error (.arity .functionForm)

def State.macroCall? (s : State) (macros : MacroTableId) (form : Value) :
    Option (Transformer × List Value) :=
  match form.items? with
  | some (.symbol name :: args) => (s.transformer? macros name).map fun t => (t, args)
  | _ => none

namespace Eval

/-- The plain definition that a class definition with inference stands for; what is inferred is
new. -/
def transformClass (args : List Value) (env : FrameId) : Eval Value := do
  let form ← ask fun s => s.expandClass args (some env) none
  create fun s => s.mark form

def transform (eval : Evaluator) (t : Transformer) (args : List Value) (env : FrameId)
    (macros : MacroTableId) : Eval Value :=
  match t with
  | .closure formals body frame => applyClosure eval formals body frame args macros
  | .letForm => ofExcept (expandLet args)
  | .functionForm => ofExcept (expandDefun args)
  | .inferredClassForm => transformClass args env

/-- Expand a macro call one step, and leave every other form as it is. -/
def expandOnce (eval : Evaluator) (form : Value) (env : FrameId) (macros : MacroTableId) :
    Eval Value := do
  match (← get).macroCall? macros form with
  | some (t, args) => transform eval t args env macros
  | none => return form

/-- Expand a form until a step leaves it equal to what it was. -/
def expandHead (eval : Evaluator) (env : FrameId) (macros : MacroTableId) : Nat → Value → Eval Value
  | 0, _ => outOfFuel
  | fuel + 1, form => do
    let next ← expandOnce eval form env macros
    if (← get).equal next form then return form
    else expandHead eval env macros fuel next

def isQuotedData (items : List Value) : Bool :=
  match items with
  | .symbol s :: _ => s == Symbol.quote || s == Symbol.quasiquote
  | _ => false

/-- Expand a form and everything inside it that is not quoted. The items of a dotted list come
before its tail. -/
def expandAll (eval : Evaluator) (env : FrameId) (macros : MacroTableId) : Nat → Value → Eval Value
  | 0, _ => outOfFuel
  | fuel + 1, form => do
    match ← expandHead eval env macros (fuel + 1) form with
    | .list items =>
      if isQuotedData items then return .list items
      else return .list (← items.mapM (expandAll eval env macros fuel))
    | .dotted items tail => do
      let items ← items.mapM (expandAll eval env macros fuel)
      return .dotted items (← expandAll eval env macros fuel tail)
    | v => return v

end Eval
end SlotLisp
