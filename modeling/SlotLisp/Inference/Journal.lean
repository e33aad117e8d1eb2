import SlotLisp.Inference.Expansion

/-!
The record of an expansion: the policies that hold, what each of them found, and every declaration
that changed. The record ends where the expansion fails.
-/

namespace SlotLisp
namespace State

def choiceText (s : State) (style : Style) : Choice → String
  | .off => "None"
  | .policy p => p.text
  | .stray v => s.text style v

def classifyRecord (s : State) (d : Declaration) (env : Option FrameId) : String :=
  let found :=
    match s.classify (d.default.getD .absent) env with
    | some t => t.name
    | none => "not inferred"
  "classify " ++ d.name.name ++ " -> " ++ found

def policyRecords (s : State) (ps : Policies) (env : Option FrameId) (d : Declaration) :
    List String :=
  match d.default, d.type? with
  | some _, some _ => []
  | some _, none =>
    match ps.type with
    | .policy .generalType => [s.classifyRecord d env]
    | _ => []
  | none, type =>
    match ps.initform with
    | .policy .generalType => [s.classifyRecord d none]
    | .policy .deferredError =>
      if type.any fun t => (zeroValue? t).isNone then
        ["slot " ++ d.name.name ++ ": deferring missing default to construction time"]
      else []
    | _ => []

def slotRecords (s : State) (ps : Policies) (env : Option FrameId) : List Value → List String
  | [] => []
  | form :: forms =>
    match Declaration.ofForm form with
    | .error _ => []
    | .ok d =>
      s.policyRecords ps env d ++
        match s.completion ps env form with
        | .error _ => []
        | .ok none => s.slotRecords ps env forms
        | .ok (some v) =>
          ("slot " ++ s.source form ++ " -> " ++ s.source v) :: s.slotRecords ps env forms

def expansionRecords (s : State) (args : List Value) (env : Option FrameId)
    (selection : Option Selection) : List String :=
  match s.planClass args env selection with
  | .error _ => []
  | .ok plan =>
    ("defclass* " ++ plan.name.name ++ ": initform policy " ++
        s.choiceText .inspect plan.policies.initform ++ ", type policy " ++
        s.choiceText .inspect plan.policies.type) ::
      s.slotRecords plan.policies env plan.slots

end State
end SlotLisp
