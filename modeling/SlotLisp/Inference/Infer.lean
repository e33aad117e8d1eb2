import SlotLisp.Declaration
import SlotLisp.Inference.Classify

/-!
What a policy infers for a slot. The three policies for defaults differ only at a slot whose type
has no empty value.
-/

namespace SlotLisp

def Policy.unknownType (p : Policy) (slot : Symbol) (type : Value) : Except Error (Option Value) :=
  match p with
  | .deferredError => .ok (some (.unsupplied none slot type))
  | .nilFallback => .ok none
  | _ => .error (.noDefault slot type)

/-- A slot without a type gets no default, and one whose type has an empty value gets that. -/
def Policy.zeroDefault (p : Policy) (d : Declaration) : Except Error (Option Value) :=
  match d.type? with
  | none => .ok none
  | some t =>
    match zeroValue? t with
    | some form => .ok (some form)
    | none => p.unknownType d.name t

namespace State

/-- The default that a policy infers, without looking at variables. -/
def inferDefault (s : State) (p : Policy) (d : Declaration) : Except Error (Option Value) :=
  match p with
  | .fixed answer => answer
  | .generalType => .ok ((s.classify (d.default.getD .absent) none).map .symbol)
  | p => p.zeroDefault d

/-- The type that a policy infers; the policies for defaults alone cannot be asked for one. -/
def inferType (s : State) (p : Policy) (d : Declaration) (env : Option FrameId) :
    Except Error (Option Value) :=
  match p with
  | .fixed answer => answer
  | .generalType => .ok ((s.classify (d.default.getD .absent) env).map .symbol)
  | _ => .error (.fault .mismatch)

def inferBy (s : State) (facet : Facet) (p : Policy) (d : Declaration) (env : Option FrameId) :
    Except Error (Option Value) :=
  match facet with
  | .initform => s.inferDefault p d
  | .type => s.inferType p d env

def infer (s : State) (facet : Facet) (c : Choice) (d : Declaration) (env : Option FrameId) :
    Except Error (Option Value) :=
  match c with
  | .off => .ok none
  | .policy p => s.inferBy facet p d env
  | .stray _ => .error (.fault .notOffered)

end State
end SlotLisp
