import SlotLisp.Eval.Variables
import SlotLisp.Value.Map

/-!
Binding arguments to parameters. Markers among the parameters say how the ones behind them are
bound: required parameters take an argument each, optional ones take one if there is one left and
otherwise their default, and a rest parameter takes all that are left.
-/

namespace SlotLisp

inductive Mode
  | required
  | optional
  | rest
  deriving DecidableEq, Repr

namespace Mode

def ofMarker? (formal : Value) : Option Mode :=
  match formal with
  | .symbol s =>
    if s.name == "&optional" then some .optional
    else if s.name == "&rest" || s.name == "&body" then some .rest
    else none
  | _ => none

end Mode

/-- The name of an optional parameter: a symbol itself, and otherwise what stands first in it. -/
def optionalName (formal : Value) : Except Fault Value :=
  match formal with
  | .symbol s => .ok (.symbol s)
  | .dotted xs _ => .ok (.list xs)
  | .copies n xs _ => if n = 0 then .error .noSuchIndex else .ok (.list xs)
  | .map es =>
    match Value.entry? es (.int 0) with
    | some v => .ok v
    | none => .error .noSuchKey
  | .nil => .error .mismatch
  | v =>
    match v.elements with
    | .ok (x :: _) => .ok x
    | .ok [] => .error .noSuchIndex
    | .error f => .error f

def optionalDefault? (formal : Value) : Option Value :=
  match formal.items? with
  | some (_ :: v :: _) => some v
  | _ => none

namespace Eval

def missingOptional (evalDefault : Value → Eval Value) (formal : Value) : Eval Value :=
  match optionalDefault? formal with
  | some form => evalDefault form
  | none => pure .nil

/-- Bind parameters in a frame, in order. Defaults are evaluated there, so that they see the
parameters before them. -/
def bindIn (evalDefault : Value → Eval Value) (f : FrameId) :
    Mode → List Value → List Value → Eval Unit
  | _, args, [] => if args.isEmpty then pure () else throw (.arity (.extraArguments args))
  | mode, args, formal :: formals =>
    match Mode.ofMarker? formal with
    | some mode => bindIn evalDefault f mode args formals
    | none =>
      match mode with
      | .required =>
        match args with
        | [] => throw (.arity (.missingArgument formal))
        | a :: args => do
          define f formal a
          bindIn evalDefault f .required args formals
      | .optional => do
        let name ← ofFault (optionalName formal)
        match args with
        | [] =>
          define f name (← missingOptional evalDefault formal)
          bindIn evalDefault f .optional [] formals
        | a :: args =>
          define f name a
          bindIn evalDefault f .optional args formals
      | .rest => do
        define f formal (.list args)
        bindIn evalDefault f .rest [] formals

def bindParameters (evalDefault : FrameId → Value → Eval Value) (formals args : List Value)
    (outer : FrameId) : Eval FrameId := do
  let f ← create fun s => s.childFrame outer
  bindIn (evalDefault f) f .required args formals
  return f

end Eval
end SlotLisp
