import SlotLisp.Number.Binary64

/-!
The shortest decimal that reads back as a given binary number. The reals that round to the number
form an interval; the first decimal grid, from one digit upwards, with a point in that interval
gives the answer, and of two points on it the nearer one.
-/

namespace SlotLisp
namespace Shortest

/-- A number `value / den` and the interval of reals that round to it; the ends belong to it when
`closed`. -/
structure Target where
  low : Nat
  value : Nat
  high : Nat
  den : Nat
  closed : Bool

/-- In quarters of the last place, a number stands two from the ends of its interval, and one from
the lower end at a power of two, where the numbers below lie twice as dense. -/
def Target.ofDyadic (m : Nat) (e : Int) : Target :=
  let below := if m = 1 <<< 52 && Binary64.minExponent < e then 1 else 2
  let up := 1 <<< (e - 2).toNat
  { low := (4 * m - below) * up
    value := 4 * m * up
    high := (4 * m + 2) * up
    den := 1 <<< (2 - e).toNat
    closed := m % 2 == 0 }

/-- The exponent of the largest power of ten up to `num / den`, for positive `num` and `den`. -/
def decimalExponent (num den : Nat) : Int :=
  if den ≤ num then ((Nat.toDigits 10 (num / den)).length : Int) - 1
  else -((Nat.toDigits 10 ((den - 1) / num)).length : Int)

/-- The point `d * 10 ^ g` of a grid that lies in the interval and is nearest to the value. Only the
two neighbours of the value can be. -/
def Target.onGrid? (t : Target) (g : Int) : Option Nat :=
  let k := Nat.pow 10 (-g).toNat
  let b := t.den * Nat.pow 10 g.toNat
  let d := t.value * k / b
  let inside (x : Nat) : Bool :=
    if t.closed then t.low * k ≤ x * b && x * b ≤ t.high * k
    else t.low * k < x * b && x * b < t.high * k
  let toLower := t.value * k - d * b
  let toUpper := (d + 1) * b - t.value * k
  match inside d, inside (d + 1) with
  | true, true =>
    some (if toLower < toUpper || (toLower == toUpper && d % 2 == 0) then d else d + 1)
  | true, false => some d
  | false, true => some (d + 1)
  | false, false => none

/-- Digits `d` and exponent `g` of the shortest decimal `d * 10 ^ g`. Seventeen digits always
suffice. -/
def decimal (m : Nat) (e : Int) : Nat × Int :=
  let t := Target.ofDyadic m e
  let top := decimalExponent t.value t.den
  let tried := (List.range 17).findSome? fun (n : Nat) => (t.onGrid? (top - n)).map fun d =>
    (d, top - n)
  tried.getD (t.value / t.den, 0)

end Shortest
end SlotLisp
