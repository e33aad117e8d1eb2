import SlotLisp.State

/-!
The types of values: the exact one, and the first of seven general ones that fits. The order of the
general types decides, since a value can be of several: an integer is also a number, and `nil` is
both a truth value and an empty list.
-/

namespace SlotLisp

inductive Category
  | string
  | boolean
  | list
  | array
  | mapping
  | float
  | number
  deriving DecidableEq, Repr

namespace Category

def symbol : Category → Symbol
  | .string => ⟨"string"⟩
  | .boolean => ⟨"boolean"⟩
  | .list => ⟨"list"⟩
  | .array => ⟨"array"⟩
  | .mapping => ⟨"mapping"⟩
  | .float => ⟨"float"⟩
  | .number => ⟨"integer-or-number"⟩

def holds (c : Category) (v : Value) : Bool :=
  match c, v with
  | .string, .str _ => true
  | .boolean, .nil => true
  | .boolean, .bool _ => true
  | .boolean, .symbol s => s == Symbol.yes || s == Symbol.no
  | .list, .list _ => true
  | .array, .vector _ => true
  | .array, .bytes _ _ => true
  | .mapping, .map _ => true
  | .float, .float _ => true
  | .float, .nan _ (.float _) => true
  | .number, .bool _ => true
  | .number, .int _ => true
  | .number, .float _ => true
  | .number, .complex _ _ => true
  | .number, .nan _ _ => true
  | _, _ => false

/-- The categories in the order in which they are tried. -/
def priority : List Category := [.string, .boolean, .list, .array, .mapping, .float, .number]

def of? (v : Value) : Option Category := priority.find? fun c => c.holds v

end Category

def Number.typeName : Number → Symbol
  | .int _ => ⟨"int"⟩
  | .float _ => ⟨"float"⟩
  | .complex _ _ => ⟨"complex"⟩

namespace State

def typeOf (s : State) : Value → Symbol
  | .absent => ⟨"nonetype"⟩
  | .nil => ⟨"niltype"⟩
  | .bool _ => ⟨"bool"⟩
  | .symbol _ => ⟨"symbol"⟩
  | .int n => (Number.int n).typeName
  | .float x => (Number.float x).typeName
  | .complex re im => (Number.complex re im).typeName
  | .nan _ n => n.typeName
  | .str _ => ⟨"str"⟩
  | .bytes growing _ => ⟨if growing then "bytearray" else "bytes"⟩
  | .list _ => ⟨"list"⟩
  | .vector _ => ⟨"vector"⟩
  | .dotted _ _ => ⟨"tuple"⟩
  | .copies _ _ _ => ⟨"tuple"⟩
  | .map _ => ⟨"dict"⟩
  | .closure _ _ _ _ => ⟨"lambda"⟩
  | .function _ => ⟨"function"⟩
  | .unsupplied _ _ _ => ⟨"unsuppliedslot"⟩
  | .ref (.cls _) => ⟨"standard-class"⟩
  | .ref (.inst i) => (s.getClass (s.classOf i)).name
  | .ref (.policy p) => ((s.settings.policy? p).map Policy.typeName).getD ⟨"object"⟩

/-- The first general type that fits, and otherwise the exact type. -/
def generalTypeOf (s : State) (v : Value) : Symbol :=
  match Category.of? v with
  | some c => c.symbol
  | none => s.typeOf v

end State
end SlotLisp
