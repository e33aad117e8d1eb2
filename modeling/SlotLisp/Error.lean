import SlotLisp.Value

/-!
Errors by their causes. The outermost kind says what sort of mistake was made, and each cause
carries what its message shows.
-/

namespace SlotLisp

/-- The two things that can be inferred of a slot: its default and its type. -/
inductive Facet
  | initform
  | type
  deriving DecidableEq, Inhabited, Repr

/-- A text that is no sequence of forms, or a form that is no program. -/
inductive Malformed
  /-- A double quote without a partner. -/
  | strayQuote (position : Nat)
  | openComment
  | openList
  /-- Something else than a closing parenthesis after the tail of a dotted list. -/
  | openTail
  | strayClose
  | strayBrace
  | openVector
  | openMapping
  | oddMapping
  | complexOpening
  | complexClosing
  | dottedCall (form : Value)
  | slotDeclaration (declaration : Value)
  | slotName (name : Value)

inductive BadName
  | notASymbol (name : Value)
  /-- A form that binds a variable refuses the name. -/
  | notBindable (form : Symbol) (name : Value)
  | macroName (name : Value)

inductive Unbound
  | read (name : Value)
  | assigned (name : Value)

inductive Arity
  | bindingForm (form : Symbol)
  | classForm
  | inferredClassForm
  | macroForm
  | lambdaForm
  | conditional
  | letForm
  | functionForm
  /-- A form that takes one argument, under the name by which its message calls it. -/
  | singleArgument (form : String)
  | builtin (name : String) (count : Nat)
  | atLeastOne (name : String)
  | mappingPairs
  | funcall
  | makeInstance
  | initargPairs (cls : Symbol)
  | unknownInitargs (cls : Symbol) (keys : List Symbol)
  | repeatedSlot (cls : Symbol)
  | noSlot (cls : Symbol) (slot : Value)
  | predicate (cls : Symbol)
  | reader (name : Symbol)
  | missingArgument (formal : Value)
  | extraArguments (args : List Value)
  | inferenceOption (option : Symbol)

inductive Mismatch
  | notNumbers (operator : String)
  | notCallable (v : Value)
  | notAList
  | className (v : Value)
  | inferredClassName (v : Value)
  | inferredClassLists
  | baseClass (v : Value)
  | classArgument (v : Value)
  | classOption (v : Value)
  | instanceArgument (function : String) (v : Value)
  | readerArgument (name cls : Symbol) (v : Value)
  | initargKey (cls : Symbol) (v : Value)
  | macroParameters (name : Symbol)
  | lambdaParameters
  | letBindings
  | letBinding (v : Value)
  | policy (facet : Facet) (v : Value)

/-- A slot whose value is asked for and was never given. -/
inductive EmptySlot
  | unset (slot cls : Symbol)
  | unsupplied (slot : Symbol) (type : Value)

def EmptySlot.slot : EmptySlot → Symbol
  | .unset s _ => s
  | .unsupplied s _ => s

inductive Error
  | malformed (why : Malformed)
  | badName (why : BadName)
  | unbound (why : Unbound)
  /-- A policy that the session does not know, beside the ones it does. -/
  | unknownPolicy (facet : Facet) (selector : Symbol) (known : List Symbol)
  | arity (why : Arity)
  | mismatch (why : Mismatch)
  /-- A form that has a meaning only inside a template; the flag tells the splicing one. -/
  | outsideTemplate (splicing : Bool)
  /-- An error that a program signals itself. -/
  | signalled (args : List Value)
  | noDefault (slot : Symbol) (type : Value)
  | emptySlot (why : EmptySlot)
  | fault (f : Fault)
  deriving Inhabited

end SlotLisp
