import SlotLisp.Token

/-!
From a text to its tokens, one character after the other. Between tokens stand blanks, comments to
the end of a line, and comments in `#|` and `|#`, which nest.
-/

namespace SlotLisp
namespace TokenStream

inductive Passing
  /-- So many more characters of the last token; with none left, the next one may start. -/
  | token (left : Nat)
  | line
  /-- A comment within so many pairs of marks. -/
  | block (depth : Nat)
  deriving DecidableEq, Repr

/-- `position` counts the characters that have been passed. -/
def scan (passing : Passing) (position : Nat) : List Char → TokenStream
  | [] =>
    match passing with
    | .block _ => failed .openComment
    | _ => finished
  | c :: cs =>
    match passing with
    | .token (n + 1) => scan (.token n) (position + 1) cs
    | .line => scan (if c == '\n' then .token 0 else .line) (position + 1) cs
    | .block depth =>
      match cs with
      | [] => failed .openComment
      | d :: r =>
        if c == '#' && d == '|' then scan (.block (depth + 1)) (position + 2) r
        else if c == '|' && d == '#' then
          scan (if depth ≤ 1 then .token 0 else .block (depth - 1)) (position + 2) r
        else scan (.block depth) (position + 1) (d :: r)
    | .token 0 =>
      if isBlank c then scan (.token 0) (position + 1) cs
      else if c == ';' then scan .line (position + 1) cs
      else if c == '#' && cs.head? == some '|' then
        match cs with
        | [] => failed .openComment
        | _ :: r => scan (.block 1) (position + 2) r
      else
        match Token.reach? c cs with
        | some (kind, n) => cons ⟨kind, c :: cs.take n⟩ (scan (.token n) (position + 1) cs)
        | none => failed (.strayQuote position)

def ofChars (cs : List Char) : TokenStream := scan (.token 0) 0 cs

def ofString (s : String) : TokenStream := ofChars s.toList

end TokenStream
end SlotLisp
