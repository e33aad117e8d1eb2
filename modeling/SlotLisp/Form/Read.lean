import SlotLisp.Form.Atom
import SlotLisp.Token.Scan
import SlotLisp.Value.Map

/-!
From tokens to forms. The reader takes one token after the other and keeps what is open on a stack,
so that a form is given out at the very token that completes it. A token that has no place is left
for the next attempt; one whose value cannot be made is used up.
-/

namespace SlotLisp
namespace Form

/-- A form that has begun and waits for another one inside it. Items stand latest first. -/
inductive Open
  | marked (head : Symbol)
  | list (items : List Value)
  /-- The tail of a dotted list comes next. -/
  | tail (items : List Value)
  | vector (items : List Value)
  | mapping (items : List Value)
  | realPart
  | imaginaryPart (re : Value)

inductive Expected
  | form
  /-- The end of a dotted list. -/
  | listEnd (items : List Value) (tail : Value)
  | complexStart
  | complexEnd (re im : Value)

inductive Step
  | more (expected : Expected) (stack : List Open)
  | complete (v : Value)
  /-- The token has no place here, and stays. -/
  | refuse (why : Malformed)
  /-- The token completes something that has no value, and is gone. -/
  | fail (e : Error)

def deliver (v : Value) : List Open → Step
  | [] => .complete v
  | .marked head :: stack => deliver (.list [.symbol head, v]) stack
  | .list items :: stack => .more .form (.list (v :: items) :: stack)
  | .tail items :: stack => .more (.listEnd items v) stack
  | .vector items :: stack => .more .form (.vector (v :: items) :: stack)
  | .mapping items :: stack => .more .form (.mapping (v :: items) :: stack)
  | .realPart :: stack => .more .form (.imaginaryPart v :: stack)
  | .imaginaryPart re :: stack => .more (.complexEnd re v) stack

def deliverOrFail (v : Except Fault Value) (stack : List Open) : Step :=
  match v with
  | .ok v => deliver v stack
  | .error f => .fail (.fault f)

/-- A closing parenthesis ends a list or a vector, and nothing else that waits for a form. -/
def closeParen : List Open → Step
  | .list items :: stack => deliver (.list items.reverse) stack
  | .vector items :: stack => deliver (.vector items.reverse) stack
  | _ => .refuse .strayClose

def closeBrace : List Open → Step
  | .mapping items :: stack =>
    if items.length % 2 = 1 then .fail (.malformed .oddMapping)
    else deliverOrFail (Value.ofPairs items.reverse) stack
  | _ => .refuse .strayBrace

/-- A symbol token. Directly inside a parenthesis a dot announces the tail. -/
def nameToken (text : List Char) (stack : List Open) : Step :=
  match stack with
  | .list items :: rest =>
    if text == ['.'] then .more .form (.tail items :: rest)
    else deliverOrFail (ofName text) stack
  | _ => deliverOrFail (ofName text) stack

def formToken (stack : List Open) (t : Token) : Step :=
  match t.kind with
  | .symbol => nameToken t.text stack
  | .quote => .more .form (.marked (quoteHead t.text) :: stack)
  | .unquote => .more .form (.marked (quoteHead t.text) :: stack)
  | .function => .more .form (.marked Symbol.function :: stack)
  | .leftParen => .more .form (.list [] :: stack)
  | .rightParen => closeParen stack
  | .leftBrace => .more .form (.mapping [] :: stack)
  | .rightBrace => closeBrace stack
  | .vector => .more .form (.vector [] :: stack)
  | .char => deliver (ofCharLiteral t.text) stack
  | .string => deliverOrFail (ofStringLiteral t.text) stack
  | .radix => deliver (ofRadixLiteral t.text) stack
  | .complex => .more .complexStart stack

def feed (expected : Expected) (stack : List Open) (t : Token) : Step :=
  match expected with
  | .form => formToken stack t
  | .listEnd items tail =>
    if t.kind = .rightParen then deliver (.dotted items.reverse tail) stack else .refuse .openTail
  | .complexStart =>
    if t.kind = .leftParen then .more .form (.realPart :: stack) else .refuse .complexOpening
  | .complexEnd re im =>
    if t.kind = .rightParen then deliverOrFail (complexOf re im) stack else .refuse .complexClosing

/-- At the end of the tokens a mark stands for a form whose inside is missing; everything else that
is open stays so. `v` is the form so far. -/
def atEnd (v : Option Value) : List Open → Except Error (Option Value)
  | [] => .ok v
  | .marked head :: stack => atEnd (some (.list [.symbol head, v.getD .absent])) stack
  | .list _ :: _ => .error (.malformed .openList)
  | .tail _ :: _ => .error (.malformed .openTail)
  | .vector _ :: _ => .error (.malformed .openVector)
  | .mapping _ :: _ => .error (.malformed .openMapping)
  | .realPart :: _ => .error (.malformed .complexClosing)
  | .imaginaryPart _ :: _ => .error (.malformed .complexClosing)

def endOf (expected : Expected) (stack : List Open) : Except Error (Option Value) :=
  match expected with
  | .form => atEnd none stack
  | .listEnd _ _ => .error (.malformed .openTail)
  | .complexStart => .error (.malformed .complexOpening)
  | .complexEnd _ _ => .error (.malformed .complexClosing)

/-- Read on until a form is complete; `none` is the end of the text. The tokens that are left come
back also where reading fails. -/
def readFrom (fault : Option Malformed) (expected : Expected) (stack : List Open) :
    List Token → Except Error (Option Value) × TokenStream
  | [] =>
    match fault with
    | some why => (.error (.malformed why), TokenStream.finished)
    | none => (endOf expected stack, TokenStream.finished)
  | t :: ts =>
    match feed expected stack t with
    | .more expected stack => readFrom fault expected stack ts
    | .complete v => (.ok (some v), ⟨ts, fault⟩)
    | .refuse why => (.error (.malformed why), ⟨t :: ts, fault⟩)
    | .fail e => (.error e, ⟨ts, fault⟩)

def next (s : TokenStream) : Except Error (Option Value) × TokenStream :=
  readFrom s.fault .form [] s.tokens

/-- The forms of a stream up to its end or to the first one that cannot be read, with what is left
then. Each form uses up at least one token, so that `fuel` beyond the number of tokens changes
nothing. -/
def readAll : Nat → TokenStream → List Value × Option Error × TokenStream
  | 0, s => ([], none, s)
  | fuel + 1, s =>
    match next s with
    | (.ok none, rest) => ([], none, rest)
    | (.error e, rest) => ([], some e, rest)
    | (.ok (some v), rest) =>
      let (vs, e, rest) := readAll fuel rest
      (v :: vs, e, rest)

def all (s : TokenStream) : List Value × Option Error × TokenStream :=
  readAll (s.tokens.length + 1) s

/-- The forms of a text, and why there are no more of them where that is not its end. -/
def ofText (text : String) : List Value × Option Error :=
  let (vs, e, _) := all (TokenStream.ofString text)
  (vs, e)

def first (text : String) : Except Error (Option Value) := (next (TokenStream.ofString text)).1

def every (text : String) : Except Error (List Value) :=
  match ofText text with
  | (vs, none) => .ok vs
  | (_, some e) => .error e

end Form

namespace TokenStream

/-- The next token, which stays; a fault shows once and ends the stream. -/
def peek (s : TokenStream) : Except Malformed (Option Token) × TokenStream :=
  match s.tokens, s.fault with
  | t :: _, _ => (.ok (some t), s)
  | [], some why => (.error why, finished)
  | [], none => (.ok none, s)

def advance (s : TokenStream) : Except Malformed (Option Token) × TokenStream :=
  match s.tokens, s.fault with
  | t :: ts, fault => (.ok (some t), ⟨ts, fault⟩)
  | [], some why => (.error why, finished)
  | [], none => (.ok none, s)

end TokenStream
end SlotLisp
