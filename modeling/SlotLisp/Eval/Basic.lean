import SlotLisp.State

/-!
Computations on the state of a session. One that ends in an error keeps the state that it reached,
so that what was done before the error stays done; one that does not end within its fuel has no
outcome at all.
-/

namespace SlotLisp

/-- From a state to an answer or an error, with the state then, or to nothing where fuel ran out. -/
abbrev Eval := ExceptT Error (StateT State Option)

abbrev Evaluator := Value → FrameId → MacroTableId → Eval Value

namespace Eval

variable {α : Type}

def outOfFuel : Eval α := ExceptT.mk fun _ => none

def fault (f : Fault) : Eval α := throw (.fault f)

def ask (f : State → Except Error α) : Eval α := do
  match f (← get) with
  | .ok a => pure a
  | .error e => throw e

def ofExcept (x : Except Error α) : Eval α :=
  match x with
  | .ok a => pure a
  | .error e => throw e

def ofFault (x : Except Fault α) : Eval α :=
  match x with
  | .ok a => pure a
  | .error f => fault f

def create (f : State → State × α) : Eval α := do
  let (s, a) := f (← get)
  set s
  return a

def update (f : State → State) : Eval Unit := modify f

def outcome (x : Eval α) (s : State) : Option (Except Error α × State) := x s

end Eval
end SlotLisp
