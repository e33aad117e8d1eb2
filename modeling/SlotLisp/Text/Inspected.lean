import SlotLisp.Text
import SlotLisp.Text.Hex
import SlotLisp.Text.Printable

/-!
Texts and bytes as they are shown for inspection: in single quotes, or in double ones if that spares
an escape, with every printable character as it is.
-/

namespace SlotLisp
namespace Inspected

/-- Double quotes are taken exactly for a text that holds a single quote and no double one. -/
def quoteFor (hasSingle hasDouble : Bool) : Char :=
  if hasSingle && !hasDouble then '"' else '\''

def common? (quote c : Char) : Option (List Char) :=
  if c == quote || c == '\\' then some ['\\', c]
  else if c == '\t' then some ['\\', 't']
  else if c == '\n' then some ['\\', 'n']
  else if c == '\r' then some ['\\', 'r']
  else none

def showChar (quote c : Char) : List Char :=
  match common? quote c with
  | some e => e
  | none =>
    if isPrintable c then [c]
    else if c.toNat < 0x100 then '\\' :: 'x' :: hexDigits 2 c.toNat
    else if c.toNat < 0x10000 then '\\' :: 'u' :: hexDigits 4 c.toNat
    else '\\' :: 'U' :: hexDigits 8 c.toNat

/-- A half of a character is never printable. -/
def showCode (quote : Char) (n : Nat) : List Char :=
  if n.isValidChar then showChar quote (Char.ofNat n) else '\\' :: 'u' :: hexDigits 4 n

def showByte (quote : Char) (b : UInt8) : List Char :=
  let c := Char.ofNat b.toNat
  match common? quote c with
  | some e => e
  | none => if 0x20 ≤ b.toNat && b.toNat < 0x7f then [c] else '\\' :: 'x' :: hexDigits 2 b.toNat

end Inspected

def inspectText (t : Text) : String :=
  let q := Inspected.quoteFor (t.codes.contains 39) (t.codes.contains 34)
  String.ofList (q :: t.codes.flatMap (Inspected.showCode q) ++ [q])

def inspectBytes (bs : List UInt8) : String :=
  let q := Inspected.quoteFor (bs.contains 39) (bs.contains 34)
  String.ofList ('b' :: q :: bs.flatMap (Inspected.showByte q) ++ [q])

end SlotLisp
