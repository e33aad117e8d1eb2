import SlotLisp.Error
import SlotLisp.Value.Print

/-!
The messages of errors. A message is a list of pieces, texts and values with the style in which each
is written. An error whose message would show something without a text is the fault of that instead.
-/

namespace SlotLisp

inductive Piece
  | text (s : String)
  | value (style : Style) (v : Value)

namespace Piece

def symbol (s : Symbol) : Piece := .text s.name

def source (v : Value) : Piece := .value .source v

def display (v : Value) : Piece := .value .display v

def render (refs : Ref → String) : Piece → String
  | .text s => s
  | .value style v => v.write refs style

def textFault? (fault? : Value → Option Fault) : Piece → Option Fault
  | .text _ => none
  | .value _ v => fault? v

end Piece

def Facet.word : Facet → String
  | .initform => "initform"
  | .type => "type"

def Malformed.pieces : Malformed → List Piece
  | .strayQuote p => [.text ("Unexpected char at " ++ toString p ++ ": '\"'")]
  | .openComment => [.text "Unterminated multi-line comment"]
  | .openList => [.text "Unmatched '('"]
  | .openTail => [.text "Expected ')' after dotted cdr"]
  | .strayClose => [.text "Unexpected ')'"]
  | .strayBrace => [.text "Unknown token: rbrace \x7d"]
  | .openVector => [.text "Unexpected EOF while reading vector"]
  | .openMapping => [.text "Unexpected EOF while reading mapping"]
  | .oddMapping => [.text "Mapping literal needs an even number of forms"]
  | .complexOpening => [.text "Expected '(' after #C"]
  | .complexClosing => [.text "Expected ')' after #C arguments"]
  | .dottedCall v => [.text "Cannot evaluate dotted list ", .source v]
  | .slotDeclaration v => [.text "Malformed slot declaration: ", .source v]
  | .slotName v => [.text "Slot name must be a symbol, got ", .source v]

def BadName.pieces : BadName → List Piece
  | .notASymbol v => [.text "Cannot define ", .display v, .text " as a symbol"]
  | .notBindable form v => [.symbol form, .text " cannot bind ", .source v]
  | .macroName v => [.text "Macro name must be a symbol, got ", .source v]

def Unbound.pieces : Unbound → List Piece
  | .read v => [.text "Cannot lookup unbound symbol ", .display v]
  | .assigned v => [.text "Cannot set unbound symbol ", .display v]

def Arity.pieces : Arity → List Piece
  | .bindingForm form =>
    [.symbol form, .text " requires exactly 2 arguments: (", .symbol form, .text " name value)"]
  | .classForm => [.text "defclass requires a name, a base list and a slot list"]
  | .inferredClassForm => [.text "defclass* requires a name, a base list and a slot list"]
  | .macroForm => [.text "defmacro requires a name, a parameter list and a body"]
  | .lambdaForm => [.text "lambda requires at least a parameter list"]
  | .conditional => [.text "if requires a condition and a then-expression"]
  | .letForm => [.text "Let requires bindings and at least one body form"]
  | .functionForm =>
    [.text "defun requires at least 3 arguments: (defun name (params) body...)"]
  | .singleArgument form => [.text (form ++ " expects exactly 1 argument")]
  | .builtin name n =>
    [.text (name ++ " requires exactly " ++ toString n ++ " argument(s)")]
  | .atLeastOne name => [.text (name ++ " requires at least 1 argument")]
  | .mappingPairs => [.text "make-hash-table expects key value pairs"]
  | .funcall => [.text "funcall requires a function"]
  | .makeInstance => [.text "make-instance requires a class"]
  | .initargPairs cls => [.symbol cls, .text " constructor expects :initarg value pairs"]
  | .unknownInitargs cls keys =>
    [.text "Invalid initargs for ", .symbol cls, .text ": ",
      .text (", ".intercalate (keys.map Symbol.name))]
  | .repeatedSlot cls => [.symbol cls, .text " declares a slot more than once"]
  | .noSlot cls slot => [.symbol cls, .text " has no slot named ", .display slot]
  | .predicate cls => [.symbol cls, .text "-p requires exactly 1 argument"]
  | .reader name => [.symbol name, .text " requires exactly 1 argument"]
  | .missingArgument formal => [.text "Too few arguments; missing parameter ", .display formal]
  | .extraArguments args => [.text "Too many arguments: ", .display (.list args)]
  | .inferenceOption option => [.symbol option, .text " takes exactly one value"]

def Mismatch.pieces : Mismatch → List Piece
  | .notNumbers operator => [.text ("All arguments to " ++ operator ++ " must be numbers")]
  | .notCallable v => [.text "Cannot apply non-function ", .source v]
  | .notAList => [.text "Unquote-splicing must produce a list"]
  | .className v => [.text "defclass name must be a Symbol, got ", .display v]
  | .inferredClassName v => [.text "defclass* name must be a symbol, got ", .source v]
  | .inferredClassLists => [.text "defclass* base and slot lists must be lists"]
  | .baseClass v => [.display v, .text " does not name a class"]
  | .classArgument v => [.source v, .text " does not name a class"]
  | .classOption v => [.text "Malformed class option ", .display v]
  | .instanceArgument function v => [.text (function ++ " expects an instance, got "), .source v]
  | .readerArgument name cls v =>
    [.symbol name, .text " expects an instance of ", .symbol cls, .text ", got ", .source v]
  | .initargKey cls v => [.symbol cls, .text " initarg must be a keyword, got ", .display v]
  | .macroParameters name => [.symbol name, .text ": macro parameter list must be a list"]
  | .lambdaParameters => [.text "lambda parameter list must be a list"]
  | .letBindings => [.text "Let bindings must be a list"]
  | .letBinding v => [.text "Let binding must be (name value), got ", .display v]
  | .policy facet v =>
    [.text ("Not a " ++ facet.word ++ " inference policy: "), .value .inspect v]

def EmptySlot.pieces : EmptySlot → List Piece
  | .unset slot cls =>
    [.text "Slot ", .symbol slot, .text " is unbound in an instance of ", .symbol cls]
  | .unsupplied slot type =>
    [.text "Slot ", .symbol slot, .text " of type ", .source type,
      .text " must be supplied: no default value could be inferred"]

namespace Error

/-- Strings among the arguments of a signalled error are shown bare and all else as source. -/
def signalledPiece (v : Value) : Piece := if v.isString then .display v else .source v

/-- An error that is signalled without a text is called an error. -/
def signalledPieces : List Value → List Piece
  | [] => [.text "error"]
  | [.str ⟨[]⟩] => [.text "error"]
  | args => (args.map signalledPiece).intersperse (.text " ")

def pieces : Error → List Piece
  | .malformed why => why.pieces
  | .badName why => why.pieces
  | .unbound why => why.pieces
  | .unknownPolicy facet selector known =>
    [.text ("Unknown " ++ facet.word ++ " inference policy "), .symbol selector,
      .text (" (known: " ++ ", ".intercalate (known.map Symbol.name) ++ ")")]
  | .arity why => why.pieces
  | .mismatch why => why.pieces
  | .outsideTemplate splicing =>
    [.text (if splicing then "Unquote-splicing not valid outside of quasiquote"
      else "Unquote not valid outside of quasiquote")]
  | .signalled args => signalledPieces args
  | .noDefault slot type =>
    [.text "Cannot infer a default for slot ", .symbol slot, .text " of type ", .source type,
      .text "; give it an explicit default"]
  | .emptySlot why => why.pieces
  | .fault _ => []

def message (refs : Ref → String) (e : Error) : String :=
  String.join (e.pieces.map (Piece.render refs))

/-- The error as it is reported, where `fault?` says why a value has no text. -/
def settled (fault? : Value → Option Fault) (e : Error) : Error :=
  match e.pieces.findSome? (Piece.textFault? fault?) with
  | none => e
  | some f => .fault f

end Error
end SlotLisp
