import SlotLisp.Number.Shortest

/-!
The texts of numbers. A layout says where positional notation ends and whether a whole number shows
a point; the digits are the shortest that read back.
-/

namespace SlotLisp

structure Layout where
  /-- Decimal exponents from here are written positionally. -/
  lowest : Int
  /-- Decimal exponents from here are written with an exponent again. -/
  limit : Int
  /-- Whether a whole number in positional notation ends in `.0`. -/
  wholePoint : Bool

namespace Layout

/-- Numbers that stand alone show that they are not integers. -/
def standing : Layout := ⟨-4, 16, true⟩

/-- Inside a complex number the parts are written bare. -/
def part : Layout := ⟨-4, 16, false⟩

/-- Sign and at least two digits. -/
def exponentText (e : Int) : String :=
  let ds := toString e.natAbs
  (if e < 0 then "e-" else "e+") ++ (if ds.length < 2 then "0" ++ ds else ds)

/-- The digits without the zeros at their end, and how many zeros these are. -/
def trimZeros (ds : List Char) : List Char × Nat :=
  let r := ds.reverse.dropWhile (· == '0')
  (r.reverse, ds.length - r.length)

def decimalText (f : Layout) (d : Nat) (g : Int) : String :=
  let (ds, zeros) := trimZeros (Nat.toDigits 10 d)
  let top := g + zeros + ds.length - 1
  if f.lowest ≤ top && top < f.limit then
    if top < 0 then
      "0." ++ String.ofList (List.replicate (-top - 1).toNat '0' ++ ds)
    else
      let whole := ds.take (top + 1).toNat
      let rest := ds.drop (top + 1).toNat
      let whole := whole ++ List.replicate ((top + 1).toNat - ds.length) '0'
      if rest.isEmpty then String.ofList whole ++ (if f.wholePoint then ".0" else "")
      else String.ofList whole ++ "." ++ String.ofList rest
  else
    let lead := String.ofList (ds.take 1)
    let rest := ds.drop 1
    (if rest.isEmpty then lead else lead ++ "." ++ String.ofList rest) ++ exponentText top

def magnitudeText (f : Layout) (x : Float) : String :=
  match Binary64.dyadic? x with
  | none => if x.isNaN then "nan" else "inf"
  | some (0, _) => if f.wholePoint then "0.0" else "0"
  | some (m, e) =>
    let (d, g) := Shortest.decimal m e
    f.decimalText d g

/-- Not-a-number has no sign that is shown. -/
def signed (x : Float) : Bool := Binary64.isNegative x && !x.isNaN

def text (f : Layout) (x : Float) : String :=
  (if signed x then "-" else "") ++ f.magnitudeText x

end Layout

def intText (n : Int) : String :=
  match n with
  | .ofNat k => String.ofList (Nat.toDigits 10 k)
  | .negSucc k => String.ofList ('-' :: Nat.toDigits 10 (k + 1))

/-- Integers beyond this many decimal digits are neither read nor written. -/
def maxDigits : Nat := 4300

def fitsDigits (n : Int) : Bool := n.natAbs < Nat.pow 10 maxDigits

def floatText (x : Float) : String := Layout.standing.text x

/-- The text of a complex number; its real part is left out only where it is positive zero. -/
def complexText (re im : Float) : String :=
  let imText := Layout.part.text im ++ "j"
  if re == 0.0 && !Binary64.isNegative re then imText
  else "(" ++ Layout.part.text re ++ (if Layout.signed im then "" else "+") ++ imText ++ ")"

end SlotLisp
