import SlotLisp.Text
import SlotLisp.Text.Hex

/-!
Texts as they are written in source: in double quotes, in ASCII, every other character as an escape
of four hexadecimal digits or a pair of such escapes.
-/

namespace SlotLisp
namespace Quoted

def unit (n : Nat) : List Char := '\\' :: 'u' :: hexDigits 4 n

/-- A code point as it is written; the ones with an escape of their own come first. -/
def escape (n : Nat) : List Char :=
  if n = '"'.toNat then ['\\', '"']
  else if n = '\\'.toNat then ['\\', '\\']
  else if n = '\n'.toNat then ['\\', 'n']
  else if n = '\r'.toNat then ['\\', 'r']
  else if n = '\t'.toNat then ['\\', 't']
  else if n = '\x08'.toNat then ['\\', 'b']
  else if n = '\x0c'.toNat then ['\\', 'f']
  else if 0x20 ≤ n && n ≤ 0x7e then [Char.ofNat n]
  else if n < 0x10000 then unit n
  else unit (Surrogate.split n).1 ++ unit (Surrogate.split n).2

def encode (codes : List Nat) : List Char := '"' :: codes.flatMap escape ++ ['"']

end Quoted

def quoted (t : Text) : String := String.ofList (Quoted.encode t.codes)

end SlotLisp
