import SlotLisp.Proofs.Evaluation.Outcome
import SlotLisp.Proofs.Reading.Pieces
import SlotLisp.Session

/-!
Evaluating a text in pieces. A text whose end is the end of a form may be evaluated by itself and
the rest of the program afterwards, in the state in which the text leaves the session: nothing is
evaluated otherwise than in one go, and an error comes up after the same forms.
-/

namespace SlotLisp
namespace Eval

end Eval

namespace Session

open Eval

end Session
end SlotLisp
