/-!
Binary floating-point numbers of 64 bits as exact ratios: a ratio of naturals is rounded once, to
the nearest number and on a tie to the one with an even significand, and a finite number is taken
apart into `m * 2 ^ e`.
-/

namespace SlotLisp
namespace Binary64

/-- The quotient as the nearest natural number, a half going to the even neighbour. -/
def roundDiv (num den : Nat) : Nat :=
  let q := num / den
  let r := num % den
  if den < 2 * r || (2 * r == den && q % 2 == 1) then q + 1 else q

def scale (num den : Nat) (e : Int) : Nat × Nat :=
  if 0 ≤ e then (num, den <<< e.toNat) else (num <<< (-e).toNat, den)

/-- The exponent of the power of two that is the largest up to `num / den`, for positive `num` and
`den`. The two logarithms decide it up to one, and one comparison decides the rest. -/
def exponent (num den : Nat) : Int :=
  let e := (num.log2 : Int) - den.log2
  let (n, d) := scale num den e
  if n < d then e - 1 else e

/-- Exponent of the last place of the numbers next to zero. -/
def minExponent : Int := -1074

/-- The word of infinity, and of every word of a finite positive number the strict upper bound. -/
def infinityWord : Nat := 2047 <<< 52

/-- The word of the number nearest to `num / den`, if that is finite. A significand that rounds up
to `2 ^ 53` carries into the exponent by the addition. -/
def wordOfRatio (num den : Nat) : Nat :=
  if num = 0 then 0
  else
    let e := max (exponent num den - 52) minExponent
    let (n, d) := scale num den e
    ((e - minExponent).toNat <<< 52) + roundDiv n d

def ofRatio? (negative : Bool) (num den : Nat) : Option Float :=
  let w := wordOfRatio num den
  if w < infinityWord then
    some (Float.ofBits (UInt64.ofNat (if negative then w + 1 <<< 63 else w)))
  else none

def ofInt? (n : Int) : Option Float := ofRatio? (n < 0) n.natAbs 1

def infinity (negative : Bool) : Float :=
  Float.ofBits (UInt64.ofNat (if negative then infinityWord + 1 <<< 63 else infinityWord))

/-- Whether the sign bit is set, which it also is in negative zero. -/
def isNegative (x : Float) : Bool := x.toBits.toNat >>> 63 % 2 == 1

/-- `m` and `e` with `|x| = m * 2 ^ e`, for a finite `x`. -/
def dyadic? (x : Float) : Option (Nat × Int) :=
  let w := x.toBits.toNat
  let field := w >>> 52 % 1 <<< 11
  let fraction := w % 1 <<< 52
  if field = 2047 then none
  else if field = 0 then some (fraction, minExponent)
  else some (1 <<< 52 + fraction, minExponent + (field - 1 : Nat))

def compareInt? (n : Int) (x : Float) : Option Ordering :=
  match dyadic? x with
  | some (m, e) =>
    let m : Int := if isNegative x then -(m : Int) else m
    some (if 0 ≤ e then compare n (m * (1 <<< e.toNat : Nat))
      else compare (n * (1 <<< (-e).toNat : Nat)) m)
  | none => if x.isNaN then none else some (if isNegative x then .gt else .lt)

end Binary64
end SlotLisp
