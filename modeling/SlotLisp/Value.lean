import SlotLisp.Symbol
import SlotLisp.Text
import SlotLisp.Number.Arithmetic

/-!
Values, which are also forms: what the reader gives, what evaluation takes and what it answers.
Whatever can change or has an identity of its own is kept in the session's state, and a value refers
to it by number.
-/

namespace SlotLisp

abbrev FrameId := Nat

abbrev ClassId := Nat

abbrev InstanceId := Nat

abbrev MacroTableId := Nat

abbrev PolicyId := Nat

/-- The functions that every session starts with, but for `funcall`. -/
inductive Builtin
  | add | sub | mul | div
  | equals | less | greater | not
  | cons | car | cdr | list | vector | makeTable
  | signal | typeOf
  | makeInstance | slotValue | setSlotValue | slotBound | classOf
  deriving DecidableEq, Inhabited, Repr

/-- Functions that are not written in the language itself. Two of them are equal exactly if they
were made for the same purpose. -/
inductive Function
  | builtin (b : Builtin)
  /-- Calls its first argument; closures then expand their bodies with the given macros. -/
  | funcall (macros : MacroTableId)
  | constructor (cls : ClassId)
  | predicate (cls : ClassId)
  /-- Reads a slot of instances of a class; `name` is what it is called in its own errors. -/
  | reader (cls : ClassId) (name slot : Symbol)
  deriving DecidableEq, Inhabited, Repr

inductive Ref
  | cls (id : ClassId)
  | inst (id : InstanceId)
  | policy (id : PolicyId)
  deriving DecidableEq, Inhabited, Repr

inductive Value
  /-- What stands where a text ends before a form, or where a declaration says nothing. -/
  | absent
  | nil
  | bool (b : Bool)
  | symbol (s : Symbol)
  | int (n : Int)
  | float (x : Float)
  | complex (re im : Float)
  /-- What an operation made that is not a number, or in part not one. Its `mark` tells it from
  others. -/
  | nan (mark : Nat) (n : Number)
  | str (t : Text)
  /-- Bytes of a fixed or of a growing array. -/
  | bytes (growing : Bool) (data : List UInt8)
  | list (items : List Value)
  | vector (items : List Value)
  | dotted (items : List Value) (tail : Value)
  /-- A dotted list multiplied by `count`, where `count` is not one. -/
  | copies (count : Nat) (items : List Value) (tail : Value)
  /-- Keys and values in the order of first arrival, without equal keys. -/
  | map (entries : List (Value × Value))
  /-- A function with the frame in which it was made. Every closure has an `id` of its own. -/
  | closure (id : Nat) (formals : List Value) (body : Value) (frame : FrameId)
  | function (f : Function)
  /-- The default of a slot that has to be supplied. It gets a `mark` where it comes into use. -/
  | unsupplied (mark : Option Nat) (slot : Symbol) (type : Value)
  | ref (r : Ref)
  deriving Inhabited

namespace Value

/-- Everything is true but `nil`, `#f` and the false truth value. -/
def isTrue : Value → Bool
  | .nil => false
  | .bool b => b
  | .symbol s => s != Symbol.no
  | _ => true

def ofBool (b : Bool) : Value := .symbol (Symbol.ofBool b)

/-- Truth values count as zero and one. -/
def number? : Value → Option Number
  | .bool b => some (.int b.toInt)
  | .int n => some (.int n)
  | .float x => some (.float x)
  | .complex re im => some (.complex re im)
  | .nan _ n => some n
  | _ => none

def ofNumber : Number → Value
  | .int n => .int n
  | .float x => .float x
  | .complex re im => .complex re im

def items? : Value → Option (List Value)
  | .list xs => some xs
  | .vector xs => some xs
  | _ => none

def isContainer : Value → Bool
  | .list _ => true
  | .vector _ => true
  | .dotted _ _ => true
  | .copies _ _ _ => true
  | .map _ => true
  | _ => false

def isString : Value → Bool
  | .str _ => true
  | _ => false

def isInstance? : Value → Option InstanceId
  | .ref (.inst i) => some i
  | _ => none

def isClass? : Value → Option ClassId
  | .ref (.cls c) => some c
  | _ => none

/-- Whether `v` is empty or zero. -/
def isVoid : Value → Bool
  | .absent => true
  | .nil => true
  | .bool b => !b
  | .int n => n == 0
  | .float x => x == 0.0
  | .complex re im => re == 0.0 && im == 0.0
  | .str t => t.isEmpty
  | .bytes _ d => d.isEmpty
  | .list xs => xs.isEmpty
  | .vector xs => xs.isEmpty
  | .copies n _ _ => n == 0
  | .map es => es.isEmpty
  | _ => false

/-- A dotted list as the sequence of its list of items and its tail. -/
def pairParts (count : Nat) (items : List Value) (tail : Value) : List Value :=
  (List.replicate count [Value.list items, tail]).flatten

/-- What one meets going through `v`: the items of a sequence, the characters of a string, the keys
of a mapping. -/
def elements (v : Value) : Except Fault (List Value) :=
  match v with
  | .nil => .ok []
  | .str t => .ok (t.letters.map .str)
  | .bytes _ d => .ok (d.map fun b => .int b.toNat)
  | .list xs => .ok xs
  | .vector xs => .ok xs
  | .dotted xs t => .ok [.list xs, t]
  | .copies n xs t => .ok (pairParts n xs t)
  | .map es => .ok (es.map Prod.fst)
  | _ => .error .mismatch

def arguments (v : Value) : Except Fault (List Value) :=
  match v with
  | .nil => .error .mismatch
  | .map _ => .error .mismatch
  | v => List.tail <$> v.elements

/-- Whether `v` can be a key of a mapping: it then holds nothing that is compared part by part. -/
def hashable : Value → Bool
  | .list _ => false
  | .vector _ => false
  | .dotted _ _ => false
  | .copies n _ _ => n == 0
  | .map _ => false
  | .bytes growing _ => !growing
  | .ref (.cls _) => false
  | .ref (.inst _) => false
  | _ => true

end Value
end SlotLisp
