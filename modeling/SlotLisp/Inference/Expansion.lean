import SlotLisp.Inference.Completion
import SlotLisp.Inference.Selection

/-!
Class definitions with inference, and the plain definitions that they stand for. Two class options
select the policies for one definition and are not passed on.
-/

namespace SlotLisp

def Facet.option : Facet → Symbol
  | .initform => ⟨":initform-inference"⟩
  | .type => ⟨":type-inference"⟩

def Facet.ofOption? (v : Value) : Option Facet :=
  match v with
  | .symbol s =>
    if s = Facet.initform.option then some .initform
    else if s = Facet.type.option then some .type
    else none
  | _ => none

/-- A selector may be quoted once. -/
def unquoted (v : Value) : Value :=
  match v.items? with
  | some [.symbol q, x] => if q = Symbol.quote then x else v
  | _ => v

/-- Selectors by facet, in the order in which the facets are first mentioned. -/
abbrev Overrides := List (Facet × Value)

/-- A later mention of a facet replaces its selector. -/
def Overrides.set (facet : Facet) (selector : Value) : Overrides → Overrides
  | [] => [(facet, selector)]
  | o :: r => if o.1 = facet then (o.1, selector) :: r else o :: Overrides.set facet selector r

def overrideOf (option : Value) : Except Error (Option (Facet × Value)) :=
  match option.items? with
  | some (head :: args) =>
    if !head.hashable then .error (.fault .mismatch)
    else
      match Facet.ofOption? head with
      | none => .ok none
      | some facet =>
        match args with
        | [v] => .ok (some (facet, unquoted v))
        | _ => .error (.arity (.inferenceOption facet.option))
  | _ => .ok none

/-- The options that select policies, apart from the ones that are passed on. `seen` are the
selectors of the options before. -/
def splitOptionsFrom (seen : Overrides) : List Value → Except Error (Overrides × List Value)
  | [] => .ok (seen, [])
  | option :: rest => do
    match ← overrideOf option with
    | some (facet, selector) => splitOptionsFrom (Overrides.set facet selector seen) rest
    | none =>
      let (overrides, passed) ← splitOptionsFrom seen rest
      return (overrides, option :: passed)

def splitOptions (options : List Value) : Except Error (Overrides × List Value) :=
  splitOptionsFrom [] options

structure ClassPlan where
  name : Symbol
  bases : Value
  slots : List Value
  options : List Value
  policies : Policies

/-- `nil` as the empty list, and any other form as it is. -/
def listOfNil (v : Value) : Value :=
  match v with
  | .nil => .list []
  | v => v

namespace State

/-- Resolve the selectors of both facets, that of the default first. -/
def policies (s : State) (c : Selection) : Except Error Policies := do
  let initform ← s.resolve .initform c.initform
  let type ← s.resolve .type c.type
  return ⟨initform, type⟩

/-- The parts of a definition and what its facets are left to. An explicit selection takes the place
of the one in effect in the frame, and the definition's own options go before both. -/
def planClass (s : State) (args : List Value) (env : Option FrameId)
    (selection : Option Selection) :
    Except Error ClassPlan :=
  match args with
  | .symbol name :: bases :: slots :: options => do
    let bases := listOfNil bases
    match bases.items?, (listOfNil slots).items? with
    | some _, some slots =>
      let base := selection.getD (s.selection env)
      let (overrides, passed) ← splitOptions options
      let chosen := overrides.foldl (fun c o => c.override o.1 o.2) base
      let ps ← s.policies chosen
      return ⟨name, bases, slots, passed, ps⟩
    | _, _ => throw (.mismatch .inferredClassLists)
  | name :: _ :: _ :: _ => .error (.mismatch (.inferredClassName name))
  | _ => .error (.arity .inferredClassForm)

def expandClass (s : State) (args : List Value) (env : Option FrameId)
    (selection : Option Selection) : Except Error Value := do
  let plan ← s.planClass args env selection
  let slots ← s.completeAll plan.policies env plan.slots
  return .list (.symbol Symbol.defclass :: .symbol plan.name :: plan.bases :: .list slots ::
    plan.options)

end State
end SlotLisp
