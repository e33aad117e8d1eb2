import SlotLisp.Eval.Basic

/-!
Variables under any value as their name. Only symbols can be bound; looking up anything else fails
like looking up a symbol that is not bound, provided that it could be a key at all.
-/

namespace SlotLisp

def nameToFind (name : Value) : Except Error (Option Symbol) :=
  match name with
  | .symbol n => .ok (some n)
  | v => if v.hashable then .ok none else .error (.fault .mismatch)

def nameToBind (name : Value) : Except Error Symbol :=
  match name with
  | .symbol n => .ok n
  | v => .error (.badName (.notASymbol v))

namespace State

def findNamed (s : State) (f : FrameId) (name : Value) : Except Error (Option FrameId) := do
  return (← nameToFind name).bind (s.find? f)

def isBound (s : State) (f : FrameId) (name : Value) : Except Error Bool := do
  return (← s.findNamed f name).isSome

def depth (s : State) (f : FrameId) (name : Value) : Except Error (Option Nat) := do
  return (← nameToFind name).bind (s.depth? f)

def lookup (s : State) (f : FrameId) (name : Value) : Except Error Value := do
  match (← nameToFind name).bind (s.lookup? f) with
  | some v => return v
  | none => throw (.unbound (.read name))

def assign (s : State) (f : FrameId) (name v : Value) : Except Error State := do
  match (← nameToFind name).bind fun n => s.assign? f n v with
  | some s => return s
  | none => throw (.unbound (.assigned name))

end State

namespace Eval

def lookup (f : FrameId) (name : Value) : Eval Value := ask fun s => s.lookup f name

def define (f : FrameId) (name v : Value) : Eval Unit := do
  let n ← ofExcept (nameToBind name)
  update fun s => s.define f n v

def assign (f : FrameId) (name v : Value) : Eval Unit := do
  let s ← ask fun s => s.assign f name v
  set s

/-- Bind names one after the other, up to the first that cannot be bound. -/
def defineAll (f : FrameId) : List (Value × Value) → Eval Unit
  | [] => pure ()
  | (name, v) :: r => do
    define f name v
    defineAll f r

/-- Bind the keys of a mapping to its values; nothing else has entries. -/
def updateFrame (f : FrameId) (entries : Value) : Eval Unit :=
  match entries with
  | .map es => defineAll f es
  | _ => fault .notOffered

end Eval
end SlotLisp
