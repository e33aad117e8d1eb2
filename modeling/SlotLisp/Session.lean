import SlotLisp.Eval.Evaluate
import SlotLisp.Form.Read
import SlotLisp.State.Text

/-!
Sessions: a root frame with the builtin functions and, usually, a table of macros that is kept from
one text to the next. Forms are evaluated as they are read, so that a text that cannot be read to
its end still has the effects of the forms before.
-/

namespace SlotLisp

def standardMacros : Table Transformer :=
  .ofList [(⟨"defun"⟩, .functionForm), (⟨"let"⟩, .letForm), (⟨"defclass*"⟩, .inferredClassForm)]

namespace State

def addBuiltins (s : State) (f : FrameId) (macros : MacroTableId) : State :=
  (builtinBindings macros).foldl (fun s b => s.define f b.1 (.function b.2)) s

end State

structure Session where
  env : FrameId
  /-- Without a table, every form has the macros only that it defines itself. -/
  macros : Option MacroTableId
  deriving Inhabited

namespace Session

def bare (s : State) : State × Session :=
  let (s, env) := s.rootFrame
  let (s, macros) := s.addMacroTable
  (s, ⟨env, some macros⟩)

def core (s : State) : State × Session :=
  let (s, env) := s.rootFrame
  let (s, macros) := s.addMacroTable
  (s.addBuiltins env macros, ⟨env, none⟩)

/-- A session with everything, in which a selection is published; without one, what the process says
is. -/
def full (s : State) (selection : Option Selection) : State × Session :=
  let (s, macros) := s.addMacroTable
  let s := standardMacros.entries.foldl (fun s e => s.defineTransformer macros e.1 e.2) s
  let (s, env) := s.rootFrame
  let s := s.addBuiltins env macros
  (s.install env (selection.getD (Selection.ofSettings s.settings)), ⟨env, some macros⟩)

def tableForForm (x : Session) : Eval MacroTableId :=
  match x.macros with
  | some t => pure t
  | none => Eval.create State.addMacroTable

def evalForm (x : Session) (fuel : Nat) (form : Value) : Eval Value := do
  let t ← x.tableForForm
  let form ← Eval.create fun s => s.mark form
  evaluate fuel form x.env t

def evalForms (x : Session) (fuel : Nat) (last : Value) (forms : List Value) : Eval Value :=
  Eval.sequence (x.evalForm fuel) last forms

/-- Evaluate the forms of a text, as far as it can be read. -/
def evalText (x : Session) (fuel : Nat) (text : String) : Eval Value := do
  let (forms, e) := Form.ofText text
  let v ← x.evalForms fuel .nil forms
  match e with
  | none => return v
  | some e => throw e

def evalWhole (x : Session) (fuel : Nat) (text : String) : Eval Value := do
  x.evalForms fuel .absent (← Eval.ofExcept (Form.every text))

def defineClass (x : Session) (fuel : Nat) (name bases slots options : Value)
    (selection : Option Selection) : Eval Value := do
  let bases ← Eval.ofFault bases.elements
  let slots ← Eval.ofFault slots.elements
  let options ← Eval.ofFault options.elements
  let form ← Eval.ask fun s =>
    s.expandClass (name :: .list bases :: .list slots :: options) (some x.env) selection
  x.evalForm fuel form

end Session
end SlotLisp
