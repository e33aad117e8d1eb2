/-!
Characters beyond the first 65536 as pairs of 16-bit halves, a high one and a low one.
-/

namespace SlotLisp
namespace Surrogate

def isHigh (n : Nat) : Bool := 0xd800 ≤ n && n < 0xdc00

def isLow (n : Nat) : Bool := 0xdc00 ≤ n && n < 0xe000

def split (n : Nat) : Nat × Nat :=
  (0xd800 + (n - 0x10000) / 0x400, 0xdc00 + (n - 0x10000) % 0x400)

def join (high low : Nat) : Nat := 0x10000 + (high - 0xd800) * 0x400 + (low - 0xdc00)

/-- What a high half that no low one follows leaves: the replacement character. -/
def loneHalf : Option Nat → List Char
  | some _ => ['\ufffd']
  | none => []

/-- The characters of a list of code points, in which a high half followed by a low one is a single
character. `high` is a high half that has just been passed. A half that stands alone is no
character. -/
def toCharsAfter (high : Option Nat) : List Nat → List Char
  | [] => loneHalf high
  | n :: r =>
    if isHigh n then loneHalf high ++ toCharsAfter (some n) r
    else if isLow n then
      (match high with
        | some h => Char.ofNat (join h n)
        | none => '\ufffd') :: toCharsAfter none r
    else loneHalf high ++ Char.ofNat n :: toCharsAfter none r

def toChars (ns : List Nat) : List Char := toCharsAfter none ns

/-- No character is a half. -/
theorem isHigh_toNat (c : Char) : isHigh c.toNat = false := by
  have h : Nat.isValidChar c.toNat := c.valid
  unfold Nat.isValidChar at h
  simp only [isHigh, Bool.and_eq_false_iff, decide_eq_false_iff_not]
  omega

theorem isLow_toNat (c : Char) : isLow c.toNat = false := by
  have h : Nat.isValidChar c.toNat := c.valid
  unfold Nat.isValidChar at h
  simp only [isLow, Bool.and_eq_false_iff, decide_eq_false_iff_not]
  omega

/-- Characters are read off their own code points. -/
theorem toChars_map_toNat (cs : List Char) : toChars (cs.map Char.toNat) = cs := by
  unfold toChars
  induction cs with
  | nil => rfl
  | cons c cs ih =>
    rw [List.map_cons, toCharsAfter, isHigh_toNat, isLow_toNat]
    simp [loneHalf, ih]

theorem join_split {n : Nat} (h : 0x10000 ≤ n) : join (split n).1 (split n).2 = n := by
  unfold join split
  omega

end Surrogate
end SlotLisp
