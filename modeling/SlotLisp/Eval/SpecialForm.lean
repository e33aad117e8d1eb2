import SlotLisp.Eval.ClassForm
import SlotLisp.Eval.MacroCall
import SlotLisp.Eval.Template

/-!
Forms with an evaluation rule of their own. Each is told by the symbol at its head.
-/

namespace SlotLisp

inductive SpecialForm
  | assign
  | progn
  | macroDefinition
  | classDefinition
  | quote
  | quasiquote
  | unquote
  | unquoteSplicing
  | function
  | lambda
  | define
  | conditional
  | expandOnce
  | expandAll
  deriving DecidableEq, Repr

namespace SpecialForm

def names : List (String × SpecialForm) :=
  [("set", .assign), ("progn", .progn), ("defmacro", .macroDefinition),
    ("defclass", .classDefinition), ("quote", .quote), ("quasiquote", .quasiquote),
    ("unquote", .unquote), ("unquote-splicing", .unquoteSplicing), ("function", .function),
    ("lambda", .lambda), ("define", .define), ("if", .conditional), ("macroexpand-1", .expandOnce),
    ("macroexpand", .expandAll)]

def ofSymbol? (s : Symbol) : Option SpecialForm := names.lookup s.name

end SpecialForm

def bodyForm (forms : List Value) : Value :=
  match forms with
  | [] => .nil
  | [form] => form
  | forms => .list (.symbol Symbol.progn :: forms)

/-- A string before further forms of a macro's body only describes the macro. -/
def withoutDescription (body : List Value) : List Value :=
  match body with
  | .str _ :: form :: forms => form :: forms
  | body => body

/-- The form that is to be expanded: the only argument, which may be quoted. -/
def formToExpand (name : String) (args : List Value) : Except Error Value :=
  match args with
  | [form] =>
    match form.items? with
    | some (.symbol q :: x :: _) => .ok (if q = Symbol.quote then x else form)
    | _ => .ok form
  | _ => .error (.arity (.singleArgument name))

def bindingParts (form : Symbol) (args : List Value) : Except Error (Symbol × Value) :=
  match args with
  | [.symbol name, v] =>
    if name.selfEvaluating then .error (.badName (.notBindable form (.symbol name)))
    else .ok (name, v)
  | [name, _] => .error (.badName (.notBindable form name))
  | _ => .error (.arity (.bindingForm form))

namespace Eval

def sequence (eval : Value → Eval Value) : Value → List Value → Eval Value
  | last, [] => pure last
  | _, form :: forms => do
    let v ← eval form
    sequence eval v forms

def closure (formals : List Value) (body : Value) (env : FrameId) : Eval Value := do
  let id ← create fun s => ({ s with closures := s.closures + 1 }, s.closures)
  return .closure id formals body env

def makeLambda (args : List Value) (env : FrameId) : Eval Value :=
  match args with
  | [] => throw (.arity .lambdaForm)
  | params :: body =>
    match (listOfNil params).items? with
    | none => throw (.mismatch .lambdaParameters)
    | some formals => closure formals (bodyForm body) env

/-- A macro name is any symbol but a keyword. -/
def defineMacro (args : List Value) (env : FrameId) (macros : MacroTableId) : Eval Value :=
  match args with
  | name :: params :: form :: body =>
    match name with
    | .symbol n =>
      if n.isKeyword then throw (.badName (.macroName name))
      else
        match (listOfNil params).items? with
        | none => throw (.mismatch (.macroParameters n))
        | some formals => do
          let body := bodyForm (withoutDescription (form :: body))
          update fun s => s.defineTransformer macros n (.closure formals body env)
          return name
    | v => throw (.badName (.macroName v))
  | _ => throw (.arity .macroForm)

/-- Evaluate a special form with the given arguments; `fuel` bounds the steps of an expansion. -/
def special (eval : Evaluator) (fuel : Nat) (form : SpecialForm) (args : List Value) (env : FrameId)
    (macros : MacroTableId) : Eval Value :=
  match form with
  | .assign => do
    let (name, form) ← ofExcept (bindingParts ⟨"set"⟩ args)
    let v ← eval form env macros
    assign env (.symbol name) v
    return v
  | .define => do
    let (name, form) ← ofExcept (bindingParts Symbol.define args)
    let v ← eval form env macros
    define env (.symbol name) v
    return .symbol name
  | .progn => sequence (fun form => eval form env macros) .nil args
  | .macroDefinition => defineMacro args env macros
  | .classDefinition => defineClass args env macros
  | .quote =>
    match args with
    | [v] => return v
    | _ => throw (.arity (.singleArgument "Quote"))
  | .quasiquote =>
    match args with
    | [v] => fill (fun form => eval form env macros) 1 v
    | _ => throw (.arity (.singleArgument "Quasiquote"))
  | .unquote => throw (.outsideTemplate false)
  | .unquoteSplicing => throw (.outsideTemplate true)
  | .function =>
    match args with
    | [.symbol n] => lookup env (.symbol n)
    | [form] => eval form env macros
    | _ => throw (.arity (.singleArgument "function"))
  | .lambda => makeLambda args env
  | .conditional =>
    match args with
    | test :: yes :: rest => do
      if (← eval test env macros).isTrue then eval yes env macros
      else
        match rest with
        | no :: _ => eval no env macros
        | [] => return .nil
    | _ => throw (.arity .conditional)
  | .expandOnce => do
    expandOnce eval (← ofExcept (formToExpand "macroexpand-1" args)) env macros
  | .expandAll => do
    expandAll eval env macros fuel (← ofExcept (formToExpand "macroexpand" args))

end Eval
end SlotLisp
