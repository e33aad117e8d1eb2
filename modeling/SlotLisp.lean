import SlotLisp.Symbol
import SlotLisp.Table
import SlotLisp.Fault
import SlotLisp.Number.Binary64
import SlotLisp.Number.Shortest
import SlotLisp.Number.Layout
import SlotLisp.Number.Arithmetic
import SlotLisp.Number.Decimal
import SlotLisp.Text.Surrogate
import SlotLisp.Text
import SlotLisp.Text.Ranges
import SlotLisp.Text.Blank
import SlotLisp.Text.Printable
import SlotLisp.Text.Cased
import SlotLisp.Text.LowerCase
import SlotLisp.Text.Hex
import SlotLisp.Text.Quoted
import SlotLisp.Text.Literal
import SlotLisp.Text.Inspected
import SlotLisp.Value
import SlotLisp.Value.Mark
import SlotLisp.Value.Equal
import SlotLisp.Value.Less
import SlotLisp.Value.Print
import SlotLisp.Error
import SlotLisp.Error.Message
import SlotLisp.Token
import SlotLisp.Token.Scan
import SlotLisp.Value.Map
import SlotLisp.Form.Atom
import SlotLisp.Form.Read
import SlotLisp.Policy
import SlotLisp.State
import SlotLisp.State.Text
import SlotLisp.State.Equal
import SlotLisp.Declaration
import SlotLisp.Inference.Kind
import SlotLisp.Inference.Classify
import SlotLisp.Inference.Selection
import SlotLisp.Inference.Infer
import SlotLisp.Inference.Completion
import SlotLisp.Inference.Expansion
import SlotLisp.Inference.Journal
import SlotLisp.Eval.Basic
import SlotLisp.Eval.Variables
import SlotLisp.Eval.Parameters
import SlotLisp.Eval.Template
import SlotLisp.Eval.Construct
import SlotLisp.Eval.ClassForm
import SlotLisp.Eval.Builtin
import SlotLisp.Eval.Apply
import SlotLisp.Eval.MacroCall
import SlotLisp.Eval.SpecialForm
import SlotLisp.Eval.Evaluate
import SlotLisp.Session
import SlotLisp.Proofs.Reading.Quoted
import SlotLisp.Proofs.Reading.Name
import SlotLisp.Proofs.Reading.Lexeme
import SlotLisp.Proofs.Reading.Datum
import SlotLisp.Proofs.Reading.RoundTrip
import SlotLisp.Proofs.Reading.Plain
import SlotLisp.Proofs.Value.Leaf
import SlotLisp.Proofs.Value.Mark
import SlotLisp.Proofs.Value.Operation
import SlotLisp.Proofs.Value.Pair
import SlotLisp.Proofs.Value.Equality
import SlotLisp.Proofs.Inference.Soundness
import SlotLisp.Proofs.Inference.Expansion
import SlotLisp.Proofs.Inference.Completion
import SlotLisp.Proofs.State.Table
import SlotLisp.Proofs.State.Sound
import SlotLisp.Proofs.State.Update
import SlotLisp.Proofs.Classes.Draft
import SlotLisp.Proofs.Classes.Slot
import SlotLisp.Proofs.Classes.Definition
import SlotLisp.Proofs.Classes.Hierarchy
import SlotLisp.Proofs.Evaluation.Outcome
import SlotLisp.Proofs.Evaluation.Keeps
import SlotLisp.Proofs.Evaluation.Binding
import SlotLisp.Proofs.Evaluation.Application
import SlotLisp.Proofs.Evaluation.Template
import SlotLisp.Proofs.Evaluation.Preservation
import SlotLisp.Proofs.Session.Reachable
import SlotLisp.Proofs.Session.Classes
import SlotLisp.Proofs.Session.Atomicity
import SlotLisp.Proofs.Session.Conservative
import SlotLisp.Proofs.Evaluation.Relation
import SlotLisp.Proofs.Evaluation.Congruence
import SlotLisp.Proofs.Evaluation.Fuel
import SlotLisp.Proofs.Macros.Agreement
import SlotLisp.Proofs.Macros.FullExpansion
import SlotLisp.Proofs.Classes.Names
import SlotLisp.Proofs.State.Text
import SlotLisp.Proofs.Inference.ZeroPolicies
import SlotLisp.Proofs.Session.ZeroDefaults
import SlotLisp.Proofs.Session.Initargs
import SlotLisp.Proofs.Session.Filling
import SlotLisp.Proofs.Session.Roles
import SlotLisp.Proofs.Evaluation.Levels
import SlotLisp.Proofs.Evaluation.Nesting
import SlotLisp.Proofs.Reading.Newline
import SlotLisp.Proofs.Reading.Pieces
import SlotLisp.Proofs.Session.Pieces
import SlotLisp.Proofs.Reading.Layout
import SlotLisp.Proofs.Reading.Grammar
import SlotLisp.Proofs.Reading.Derivation
import SlotLisp.Proofs.Reading.Valueless
import SlotLisp.Proofs.Inference.Independence
import SlotLisp.Proofs.Inference.Sources
import SlotLisp.Proofs.Session.Construction
import SlotLisp.Proofs.Evaluation.Order
import SlotLisp.Proofs.Evaluation.Holes
import SlotLisp.Proofs.Evaluation.Substitution
import SlotLisp.Proofs.Evaluation.Splicing
import SlotLisp.Proofs.State.Frames
import SlotLisp.Proofs.Evaluation.LambdaList
import SlotLisp.Proofs.Inference.Declaration
import SlotLisp.Proofs.Inference.Idempotence
import SlotLisp.Proofs.Macros.Freshness
import SlotLisp.Proofs.Reading.Peek
import SlotLisp.Proofs.Reading.Literals
import SlotLisp.Proofs.Inference.Refusal
import SlotLisp.Proofs.Reading.Spacing
import SlotLisp.Proofs.State.Forest
import SlotLisp.Proofs.Session.SlotWrites
import SlotLisp.Proofs.State.Within
import SlotLisp.Proofs.Evaluation.Simulation
import SlotLisp.Proofs.Macros.OneTable
import SlotLisp.Proofs.Session.Uses
import SlotLisp.Proofs.Session.Funcall
import SlotLisp.Proofs.Evaluation.Forms
import SlotLisp.Proofs.Evaluation.Let
