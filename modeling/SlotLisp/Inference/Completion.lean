import SlotLisp.Inference.Infer
import SlotLisp.State.Text

/-!
Completing slot declarations. A declaration with a default and a type stays as it is; one with a
default alone may gain a type; one without a default may gain that. A facet that is switched off
adds nothing.
-/

namespace SlotLisp

structure Policies where
  initform : Choice
  type : Choice
  deriving Inhabited

namespace State

def gain (s : State) (ps : Policies) (env : Option FrameId) (d : Declaration) :
    Except Error (Option Declaration) :=
  match d.default, d.type? with
  | some _, some _ => .ok none
  | some _, none => do return (← s.infer .type ps.type d env).map d.withType
  | none, _ => do return (← s.infer .initform ps.initform d env).map d.withDefault

/-- The new form of a declaration, or `none` where it stays as it is. A change is put on record, for
which both forms need a text. -/
def completion (s : State) (ps : Policies) (env : Option FrameId) (form : Value) :
    Except Error (Option Value) := do
  let d ← Declaration.ofForm form
  match ← s.gain ps env d with
  | none => return none
  | some e =>
    match (s.textFault? form).or (s.textFault? e.toForm) with
    | none => return some e.toForm
    | some f => throw (.fault f)

def complete (s : State) (ps : Policies) (env : Option FrameId) (form : Value) :
    Except Error Value := do
  return (← s.completion ps env form).getD form

/-- Declarations in order, up to the first one for which inference fails. -/
def completeAll (s : State) (ps : Policies) (env : Option FrameId) :
    List Value → Except Error (List Value)
  | [] => .ok []
  | form :: forms => do
    let v ← s.complete ps env form
    let vs ← s.completeAll ps env forms
    return v :: vs

end State
end SlotLisp
