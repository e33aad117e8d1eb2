/-!
Faults: the reasons for which an operation on values has no answer. A fault carries no message; the
errors that do are in the module on errors.
-/

namespace SlotLisp

inductive Fault
  /-- The operation is not defined on values of this kind. -/
  | mismatch
  /-- The kind fits and the value does not, such as a number with too many digits. -/
  | badValue
  /-- A string literal is not well formed. -/
  | badLiteral
  | divisionByZero
  /-- The result is too large for a floating-point number. -/
  | overflow
  /-- A sequence that is longer than what can be held. -/
  | noRoom
  /-- A position beyond the end of a sequence. -/
  | noSuchIndex
  /-- A key that a mapping does not hold. -/
  | noSuchKey
  /-- The value does not offer the operation at all. -/
  | notOffered
  /-- The operation would go on without end. -/
  | endless
  deriving DecidableEq, Inhabited, Repr

end SlotLisp
