import SlotLisp.Fault
import SlotLisp.Number.Binary64

/-!
The three kinds of numbers and their arithmetic. Integers are exact and of any size; an operation
with a floating-point number gives one, and an operation with a complex number gives a complex
number. Numbers of different kinds compare by their exact values.
-/

namespace SlotLisp

inductive Number
  | int (n : Int)
  | float (x : Float)
  | complex (re im : Float)

namespace Number

def widen (n : Int) : Except Fault Float :=
  match Binary64.ofInt? n with
  | some x => .ok x
  | none => .error .overflow

def toComplex : Number → Except Fault (Float × Float)
  | .int n => return (← widen n, 0.0)
  | .float x => return (x, 0.0)
  | .complex re im => return (re, im)

/-- The kind that an operation on two operands works in decides between the three functions. -/
def combine (ints : Int → Int → Except Fault Number) (floats : Float → Float → Except Fault Number)
    (complexes : Float × Float → Float × Float → Except Fault Number) :
    Number → Number → Except Fault Number
  | .int a, .int b => ints a b
  | .complex re im, b => do complexes (re, im) (← b.toComplex)
  | a, .complex re im => do complexes (← a.toComplex) (re, im)
  | .float a, .float b => floats a b
  | .float a, .int b => do floats a (← widen b)
  | .int a, .float b => do floats (← widen a) b

def add : Number → Number → Except Fault Number :=
  combine (fun a b => .ok (.int (a + b))) (fun a b => .ok (.float (a + b)))
    fun a b => .ok (.complex (a.1 + b.1) (a.2 + b.2))

def sub : Number → Number → Except Fault Number :=
  combine (fun a b => .ok (.int (a - b))) (fun a b => .ok (.float (a - b)))
    fun a b => .ok (.complex (a.1 - b.1) (a.2 - b.2))

def mul : Number → Number → Except Fault Number :=
  combine (fun a b => .ok (.int (a * b))) (fun a b => .ok (.float (a * b)))
    fun a b => .ok (.complex (a.1 * b.1 - a.2 * b.2) (a.1 * b.2 + a.2 * b.1))

/-- The quotient of two integers is rounded once, from its exact value; a zero takes the sign that
the quotient's operands give it. -/
def divInts (a b : Int) : Except Fault Number :=
  if b = 0 then .error .divisionByZero
  else
    match Binary64.ofRatio? ((a < 0) != (b < 0)) a.natAbs b.natAbs with
    | some x => .ok (.float x)
    | none => .error .overflow

def divFloats (a b : Float) : Except Fault Number :=
  if b == 0.0 then .error .divisionByZero else .ok (.float (a / b))

/-- Division scaled by the larger part of the divisor, so that no intermediate product overflows
needlessly. A part that is not a number spoils both parts of the result. -/
def divComplex (a b : Float × Float) : Except Fault Number :=
  let size (x : Float) : Float := if x < 0.0 then -x else x
  if size b.2 ≤ size b.1 then
    if size b.1 == 0.0 then .error .divisionByZero
    else
      let ratio := b.2 / b.1
      let den := b.1 + b.2 * ratio
      .ok (.complex ((a.1 + a.2 * ratio) / den) ((a.2 - a.1 * ratio) / den))
  else if size b.1 ≤ size b.2 then
    let ratio := b.1 / b.2
    let den := b.1 * ratio + b.2
    .ok (.complex ((a.1 * ratio + a.2) / den) ((a.2 * ratio - a.1) / den))
  else .ok (.complex (0.0 / 0.0) (0.0 / 0.0))

def div : Number → Number → Except Fault Number := combine divInts divFloats divComplex

def neg : Number → Number
  | .int n => .int (-n)
  | .float x => .float (-x)
  | .complex re im => .complex (-re) (-im)

def isNaN : Number → Bool
  | .int _ => false
  | .float x => x.isNaN
  | .complex re im => re.isNaN || im.isNaN

def equal : Number → Number → Bool
  | .int a, .int b => a == b
  | .int a, .float b => Binary64.compareInt? a b == some .eq
  | .float a, .int b => Binary64.compareInt? b a == some .eq
  | .float a, .float b => a == b
  | .complex re im, .int b => im == 0.0 && Binary64.compareInt? b re == some .eq
  | .int a, .complex re im => im == 0.0 && Binary64.compareInt? a re == some .eq
  | .complex re im, .float b => re == b && im == 0.0
  | .float a, .complex re im => re == a && im == 0.0
  | .complex re im, .complex re' im' => re == re' && im == im'

/-- Order of exact values; complex numbers have none. -/
def less : Number → Number → Except Fault Bool
  | .int a, .int b => .ok (a < b)
  | .int a, .float b => .ok (Binary64.compareInt? a b == some .lt)
  | .float a, .int b => .ok (Binary64.compareInt? b a == some .gt)
  | .float a, .float b => .ok (a < b)
  | _, _ => .error .mismatch

/-- The complex number with the given parts. A part that is itself complex turns by a right angle
where it stands in the imaginary place. -/
def ofParts (a b : Number) : Except Fault Number := do
  let (re, up) ← a.toComplex
  let (im, back) ← b.toComplex
  let re := match b with | .complex _ _ => re - back | _ => re
  let im := match a with | .complex _ _ => im + up | _ => im
  return .complex re im

@[simp] theorem equal_int (a b : Int) : equal (.int a) (.int b) = (a == b) := rfl

end Number
end SlotLisp
