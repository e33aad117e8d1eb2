import SlotLisp.Error
import SlotLisp.Table

/-!
Policies for inferring what a slot leaves out, and what a process sets about them.
-/

namespace SlotLisp

inductive Policy
  /-- The empty value of a slot's type; for a type without one, an error. -/
  | buildError
  /-- The same, but for a type without an empty value a default that fails when it is used. -/
  | deferredError
  /-- The same, but for a type without an empty value no default. -/
  | nilFallback
  /-- The general type of a slot's default. -/
  | generalType
  /-- Always the same answer or error; `none` is that nothing is inferred. -/
  | fixed (answer : Except Error (Option Value))
  deriving Inhabited

namespace Policy

def className : Policy → String
  | .buildError => "BuildErrorPolicy"
  | .deferredError => "DeferredErrorPolicy"
  | .nilFallback => "NilFallbackPolicy"
  | .generalType => "GeneralTypeInference"
  | .fixed _ => "Const"

def text (p : Policy) : String := p.className ++ "()"

def typeName (p : Policy) : Symbol := ⟨String.ofList (p.className.toList.map Char.toLower)⟩

end Policy

inductive Choice
  /-- Nothing is inferred. -/
  | off
  | policy (p : Policy)
  /-- A value that goes by the name of a policy and is none. It cannot be asked for anything. -/
  | stray (v : Value)
  deriving Inhabited

/-- What holds for a whole process: its two variables, where they are set, the policies it knows,
and what goes by a keyword. Whatever is put under a keyword is taken as it is, a policy or not. -/
structure Settings where
  initformVariable : Option String
  typeVariable : Option String
  policies : List Policy
  initformNames : Table Value
  typeNames : Table Value
  deriving Inhabited

namespace Settings

def standard : Settings where
  initformVariable := none
  typeVariable := none
  policies := [.buildError, .deferredError, .nilFallback, .generalType]
  initformNames :=
    .ofList [(⟨":error"⟩, .ref (.policy 0)), (⟨":deferred-error"⟩, .ref (.policy 1)),
      (⟨":nil-fallback"⟩, .ref (.policy 2))]
  typeNames := .ofList [(⟨":general"⟩, .ref (.policy 3))]

def policy? (s : Settings) (id : PolicyId) : Option Policy := s.policies[id]?

def choice (s : Settings) (v : Value) : Choice :=
  match v with
  | .absent => .off
  | .ref (.policy id) =>
    match s.policy? id with
    | some p => .policy p
    | none => .stray v
  | v => .stray v

def names (s : Settings) : Facet → Table Value
  | .initform => s.initformNames
  | .type => s.typeNames

def addPolicy (s : Settings) (p : Policy) : Settings × PolicyId :=
  ({ s with policies := s.policies ++ [p] }, s.policies.length)

def register (s : Settings) (facet : Facet) (name : Symbol) (v : Value) : Settings :=
  match facet with
  | .initform => { s with initformNames := s.initformNames.insert name.keyword v }
  | .type => { s with typeNames := s.typeNames.insert name.keyword v }

end Settings
end SlotLisp
