import SlotLisp.Fault
import SlotLisp.Number.Binary64
import SlotLisp.Number.Layout

/-!
Reading numbers in decimal notation. An integer is an optional sign and digits; a floating-point
number has a point, an exponent, or both, with a digit on at least one side of the point. Only the
ten ASCII digits count.
-/

namespace SlotLisp
namespace Decimal

def splitSign : List Char → Bool × List Char
  | '-' :: r => (true, r)
  | '+' :: r => (false, r)
  | r => (false, r)

def value (digits : List Char) : Nat := Nat.ofDigitChars 10 digits 0

def isDigits (cs : List Char) : Bool := !cs.isEmpty && cs.all Char.isDigit

def integer? (cs : List Char) : Option (Bool × List Char) :=
  let (negative, ds) := splitSign cs
  if isDigits ds then some (negative, ds) else none

def intValue (negative : Bool) (digits : List Char) : Except Fault Int :=
  if maxDigits < digits.length then .error .badValue
  else .ok (if negative then -(value digits : Int) else value digits)

/-- The exponent part of a number, which may be absent; `none` where something else stands. -/
def exponent? : List Char → Option Int
  | [] => some 0
  | c :: r =>
    if c == 'e' || c == 'E' then
      (integer? r).map fun (negative, ds) => if negative then -(value ds : Int) else value ds
    else none

def fraction? (cs : List Char) : Option (List Char × List Char × Int) :=
  let whole := cs.takeWhile Char.isDigit
  match cs.dropWhile Char.isDigit with
  | '.' :: r =>
    let part := r.takeWhile Char.isDigit
    if whole.isEmpty && part.isEmpty then none
    else (exponent? (r.dropWhile Char.isDigit)).map fun e => (whole, part, e)
  | r => if whole.isEmpty then none else (exponent? r).map fun e => (whole, [], e)

/-- The number nearest to `± m * 10 ^ e`, where `m` has the given digits. Exponents far outside the
range of finite numbers are decided by the number of digits alone. -/
def nearest (negative : Bool) (digits : List Char) (e : Int) : Float :=
  let m := value digits
  if m = 0 then (if negative then -0.0 else 0.0)
  else
    let top := e + (Nat.toDigits 10 m).length
    if top < -400 then (if negative then -0.0 else 0.0)
    else if 400 < top then Binary64.infinity negative
    else
      ((if 0 ≤ e then Binary64.ofRatio? negative (m * Nat.pow 10 e.toNat) 1
        else Binary64.ofRatio? negative m (Nat.pow 10 (-e).toNat))).getD
          (Binary64.infinity negative)

def float? (cs : List Char) : Option Float :=
  let (negative, r) := splitSign cs
  (fraction? r).map fun (whole, part, e) => nearest negative (whole ++ part) (e - part.length)

end Decimal
end SlotLisp
