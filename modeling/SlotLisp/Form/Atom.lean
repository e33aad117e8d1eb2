import SlotLisp.Number.Decimal
import SlotLisp.Text.Literal
import SlotLisp.Token

/-!
The values of tokens that are forms by themselves: symbols, numbers, characters and strings.
-/

namespace SlotLisp
namespace Form

def isNil (cs : List Char) : Bool := cs.map Char.toLower == ['n', 'i', 'l']

/-- What a token without delimiters stands for: `nil`, a number in decimal notation, or a symbol. -/
def ofName (cs : List Char) : Except Fault Value :=
  if isNil cs then .ok .nil
  else
    match Decimal.integer? cs with
    | some (negative, ds) => Value.int <$> Decimal.intValue negative ds
    | none =>
      match Decimal.float? cs with
      | some x => .ok (.float x)
      | none => .ok (.symbol ⟨String.ofList cs⟩)

def ofCharLiteral (text : List Char) : Value :=
  let name := text.drop 2
  match Token.charNames.find? fun n => n.1 == name with
  | some n => .str (.ofChars [n.2])
  | none => .str (.ofChars name)

def ofRadixDigits (base : Nat) (digits : List Char) : Value :=
  .int (digits.foldl (fun n c => base * n + (hexValue? c).getD 0) 0 : Nat)

def ofRadixLiteral : List Char → Value
  | _ :: c :: r => ofRadixDigits (((Token.radix? c).map Prod.fst).getD 10) r
  | _ => .int 0

def ofStringLiteral (text : List Char) : Except Fault Value :=
  Value.str <$> Literal.decode (text.drop 1).dropLast

def quoteHead (text : List Char) : Symbol :=
  if text == ['\''] then Symbol.quote
  else if text == ['\x60'] then Symbol.quasiquote
  else if text == [','] then Symbol.unquote
  else Symbol.unquoteSplicing

def complexOf (re im : Value) : Except Fault Value :=
  match re.number?, im.number? with
  | some a, some b => Value.ofNumber <$> Number.ofParts a b
  | _, _ => .error .mismatch

end Form
end SlotLisp
