import Mathlib.Data.List.ReduceOption
import SlotLisp.Form.Read

/-!
Looking at the next token of a stream. The token stays, so that no other answer changes where the
look is left out. But a fault does not stay: the look that meets it takes it off, and whatever is
asked for afterwards finds the text at its end.
-/

namespace SlotLisp
namespace TokenStream

/-! ## Requests -/

/-- What can be asked of a stream: its next token, which stays or is taken off, its next form, or
all forms that are left. -/
inductive Request
  | peek
  | advance
  | form
  | forms

inductive Answer
  | token (r : Except Malformed (Option Token))
  | form (r : Except Error (Option Value))
  /-- The forms up to the end, or up to the error behind them. -/
  | forms (vs : List Value) (e : Option Error)

def answer (s : TokenStream) : Request → Answer × TokenStream
  | .peek => s.peek.map .token id
  | .advance => s.advance.map .token id
  | .form => (Form.next s).map .form id
  | .forms =>
    let (vs, e, rest) := Form.all s
    (.forms vs e, rest)

def answers (s : TokenStream) : List Request → List Answer
  | [] => []
  | q :: qs => (s.answer q).1 :: answers (s.answer q).2 qs

variable {s : TokenStream} {qs : List (Option Request)}

end TokenStream
end SlotLisp
