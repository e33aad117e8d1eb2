import SlotLisp.Error
import SlotLisp.Text.Blank
import SlotLisp.Text.Hex

/-!
Tokens and how far each reaches. A token is decided by its first characters alone: where several
kinds could start, the first one in the order of `Token.reach?` is taken, and a symbol is what is
left over.
-/

namespace SlotLisp

inductive TokenKind
  | symbol
  | quote
  | unquote
  | leftParen
  | rightParen
  | leftBrace
  | rightBrace
  | string
  | char
  | vector
  | function
  | complex
  | radix
  deriving DecidableEq, Inhabited, Repr

structure Token where
  kind : TokenKind
  text : List Char
  deriving DecidableEq, Inhabited, Repr

namespace Token

/-- The characters that end a symbol, blanks aside. -/
def isDelimiter (c : Char) : Bool :=
  c == '(' || c == ')' || c == '\x7b' || c == '\x7d' || c == '\'' || c == '"' ||
    c == ',' || c == ';'

def isSymbolChar (c : Char) : Bool := !isBlank c && !isDelimiter c

/-- How many characters follow up to the closing quote, this one included. A character behind a
backslash closes nothing. -/
def closingQuote? : List Char → Option Nat
  | [] => none
  | [c] => if c == '"' then some 1 else none
  | c :: d :: r =>
    if c == '"' then some 1
    else if c == '\\' then (closingQuote? r).map (· + 2)
    else (closingQuote? (d :: r)).map (· + 1)

def charNames : List (List Char × Char) :=
  [("newline".toList, '\n'), ("space".toList, ' '), ("tab".toList, '\t'), ("return".toList, '\r')]

def charNameLength (cs : List Char) : Nat :=
  match charNames.find? fun n => n.1.isPrefixOf cs with
  | some n => n.1.length
  | none => 1

def isBinaryDigit (c : Char) : Bool := c == '0' || c == '1'

def isOctalDigit (c : Char) : Bool := '0' ≤ c && c ≤ '7'

def isHexDigit (c : Char) : Bool := (hexValue? c).isSome

def radix? : Char → Option (Nat × (Char → Bool))
  | 'b' => some (2, isBinaryDigit)
  | 'o' => some (8, isOctalDigit)
  | 'x' => some (16, isHexDigit)
  | _ => none

def symbolReach (cs : List Char) : TokenKind × Nat :=
  (.symbol, (cs.takeWhile isSymbolChar).length)

def hashReach : List Char → TokenKind × Nat
  | [] => symbolReach []
  | c :: r =>
    if c == '\\' && !r.isEmpty then (.char, charNameLength r + 1)
    else if c == '(' then (.vector, 1)
    else if c == '\'' then (.function, 1)
    else if c == 'C' then (.complex, 1)
    else
      match radix? c with
      | some (_, isDigit) =>
        let n := (r.takeWhile isDigit).length
        if n = 0 then symbolReach (c :: r) else (.radix, n + 1)
      | none => symbolReach (c :: r)

/-- The kind of the token that starts with `c` and how many of the characters behind it belong to
it. Only a double quote without a partner starts none. -/
def reach? (c : Char) (cs : List Char) : Option (TokenKind × Nat) :=
  if c == '\'' || c == '\x60' then some (.quote, 0)
  else if c == ',' then some (.unquote, if cs.head? == some '@' then 1 else 0)
  else if c == '(' then some (.leftParen, 0)
  else if c == ')' then some (.rightParen, 0)
  else if c == '\x7b' then some (.leftBrace, 0)
  else if c == '\x7d' then some (.rightBrace, 0)
  else if c == '"' then (closingQuote? cs).map fun n => (.string, n)
  else if c == '#' then some (hashReach cs)
  else some (symbolReach cs)

end Token

/-- The tokens of a text, up to its end or to the place where no token can be made out. -/
structure TokenStream where
  tokens : List Token
  fault : Option Malformed
  deriving Inhabited

namespace TokenStream

def finished : TokenStream := ⟨[], none⟩

def failed (why : Malformed) : TokenStream := ⟨[], some why⟩

def cons (t : Token) (s : TokenStream) : TokenStream := ⟨t :: s.tokens, s.fault⟩

end TokenStream
end SlotLisp
