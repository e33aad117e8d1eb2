import SlotLisp.Fault
import SlotLisp.Text
import SlotLisp.Text.Hex

/-!
The text that a string literal stands for. A backslash joins lines, gives one of a few control
characters, or gives a character by number: up to three octal digits, or two, four or eight
hexadecimal ones. Before any other character it stands for itself. A literal does not run over the
end of a line, and no character goes by its name.
-/

namespace SlotLisp
namespace Literal

def octalValue? (c : Char) : Option Nat :=
  if '0' ≤ c && c ≤ '7' then some (c.toNat - 48) else none

def control? (c : Char) : Option Nat :=
  match c with
  | '\\' => some 92
  | '\'' => some 39
  | '"' => some 34
  | 'a' => some 7
  | 'b' => some 8
  | 'f' => some 12
  | 'n' => some 10
  | 'r' => some 13
  | 't' => some 9
  | 'v' => some 11
  | _ => none

/-- Code points that are written out in hexadecimal end with the last one there is. -/
def numbered (digits : List Char) (rest : Except Fault (List Nat)) : Except Fault (List Nat) :=
  match hexNumber? digits with
  | some n => if n < 0x110000 then (n :: ·) <$> rest else .error .badLiteral
  | none => .error .badLiteral

def codes : List Char → Except Fault (List Nat)
  | [] => .ok []
  | '\\' :: '\n' :: r => codes r
  | '\\' :: '\r' :: '\n' :: r => codes r
  | '\\' :: '\r' :: r => codes r
  | '\\' :: 'x' :: a :: b :: r => numbered [a, b] (codes r)
  | '\\' :: 'u' :: a :: b :: c :: d :: r => numbered [a, b, c, d] (codes r)
  | '\\' :: 'U' :: a :: b :: c :: d :: e :: f :: g :: h :: r =>
    numbered [a, b, c, d, e, f, g, h] (codes r)
  | '\\' :: c :: r =>
    match octalValue? c with
    | some n =>
      match r with
      | [] => .ok [n]
      | d :: r₁ =>
        match octalValue? d with
        | none => (n :: ·) <$> codes (d :: r₁)
        | some m =>
          match r₁ with
          | [] => .ok [8 * n + m]
          | e :: r₂ =>
            match octalValue? e with
            | none => ((8 * n + m) :: ·) <$> codes (e :: r₂)
            | some l => ((64 * n + 8 * m + l) :: ·) <$> codes r₂
    | none =>
      match control? c with
      | some n => (n :: ·) <$> codes r
      | none =>
        if c == 'x' || c == 'u' || c == 'U' || c == 'N' then .error .badLiteral
        else (fun ns => 92 :: c.toNat :: ns) <$> codes r
  | c :: r =>
    if c == '\n' || c == '\r' || c == '\\' then .error .badLiteral
    else (c.toNat :: ·) <$> codes r

/-- The text between the quotes of a literal. A NUL character is refused before anything else is
looked at. -/
def decode (body : List Char) : Except Fault Text :=
  if body.contains '\x00' then .error .badValue else Text.mk <$> codes body

end Literal
end SlotLisp
