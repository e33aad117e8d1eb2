import SlotLisp.State
import SlotLisp.Text.Blank
import SlotLisp.Text.LowerCase

/-!
Which policies are in effect. A selection names one for each facet; it comes from two variables of
the session where these are bound, and otherwise from two variables of the process.
-/

namespace SlotLisp

/-- What a setting may say to switch a facet off. -/
def disabledWords : List String := ["", "disabled", "nil", "none", "off"]

/-- Blanks around the text of a setting, colons in front and the case of letters do not matter. -/
def settingName (raw : String) : String :=
  let inner := raw.toList.dropWhile isBlank
  let inner := (inner.reverse.dropWhile isBlank).reverse
  lowerCase (String.ofList (inner.dropWhile (· == ':')))

/-- The selector in a setting, or the one in `fallback` where there is none. -/
def selectorOfSetting (raw : Option String) (fallback : String) : Value :=
  let name := settingName (raw.getD fallback)
  if disabledWords.contains name then .nil else .symbol ⟨":" ++ name⟩

structure Selection where
  initform : Value
  type : Value
  deriving Inhabited

namespace Selection

def reference : Selection := ⟨.symbol ⟨":error"⟩, .symbol ⟨":general"⟩⟩

def get (c : Selection) : Facet → Value
  | .initform => c.initform
  | .type => c.type

def override (c : Selection) (facet : Facet) (selector : Value) : Selection :=
  match facet with
  | .initform => { c with initform := selector }
  | .type => { c with type := selector }

def ofSettings (s : Settings) : Selection :=
  ⟨selectorOfSetting s.initformVariable "error", selectorOfSetting s.typeVariable "general"⟩

end Selection

/-- The variable of the session that selects the policy of a facet. -/
def Facet.variable : Facet → Symbol
  | .initform => ⟨"*default-initform-inference*"⟩
  | .type => ⟨"*default-type-inference*"⟩

namespace State

def selection (s : State) (env : Option FrameId) : Selection :=
  let base := Selection.ofSettings s.settings
  let see (facet : Facet) : Value :=
    (env.bind fun f => s.lookup? f facet.variable).getD (base.get facet)
  ⟨see .initform, see .type⟩

def install (s : State) (f : FrameId) (c : Selection) : State :=
  (s.define f Facet.initform.variable c.initform).define f Facet.type.variable c.type

/-- What a selector leaves a facet to: a policy itself, or what goes by a keyword. -/
def resolve (s : State) (facet : Facet) (selector : Value) : Except Error Choice :=
  match selector with
  | .absent => .ok .off
  | .nil => .ok .off
  | .symbol n =>
    let key := n.keyword
    if key = ⟨":disabled"⟩ then .ok .off
    else
      match (s.settings.names facet).get? key with
      | some v => .ok (s.settings.choice v)
      | none => .error (.unknownPolicy facet key (s.settings.names facet).keys)
  | .ref (.policy id) =>
    match s.settings.policy? id with
    | some p => .ok (.policy p)
    | none => .error (.mismatch (.policy facet selector))
  | v => .error (.mismatch (.policy facet v))

end State
end SlotLisp
