import SlotLisp.Inference.Kind

/-!
The type of a form before it is evaluated, and the empty value of a type. Only forms whose value
shows in the form itself have a type: literals, quoted data, functions, and symbols that are bound.
-/

namespace SlotLisp

/-- The general type of a quoted form; an empty one counts as a list, and every symbol as a
symbol. -/
def State.quotedType (s : State) : Value → Symbol
  | .nil => Category.list.symbol
  | .list [] => Category.list.symbol
  | .vector [] => Category.list.symbol
  | .symbol _ => ⟨"symbol"⟩
  | v => s.generalTypeOf v

/-- The type of a form, where it can be told without evaluating it. -/
def State.classify (s : State) (form : Value) (env : Option FrameId) : Option Symbol :=
  match form with
  | .vector _ => some Category.array.symbol
  | .dotted _ _ => none
  | .copies _ _ _ => none
  | .list [.symbol head, x] =>
    if head = Symbol.quote then some (s.quotedType x)
    else if head = Symbol.function then some Symbol.function
    else none
  | .list (_ :: _) => none
  | .symbol n =>
    if n.selfEvaluating then some (s.generalTypeOf form)
    else (env.bind fun f => s.lookup? f n).map s.generalTypeOf
  | v => some (s.generalTypeOf v)

/-- The form that gives the empty value of a general type; containers are made anew each time. -/
def Category.zeroForm : Category → Value
  | .string => .str .empty
  | .boolean => .nil
  | .list => .list [.symbol ⟨"list"⟩]
  | .array => .list [.symbol ⟨"vector"⟩]
  | .mapping => .list [.symbol ⟨"make-hash-table"⟩]
  | .float => .float 0.0
  | .number => .int 0

def zeroValue? (type : Value) : Option Value :=
  match type with
  | .symbol t => (Category.priority.find? fun c => c.symbol == t).map Category.zeroForm
  | _ => none

end SlotLisp
