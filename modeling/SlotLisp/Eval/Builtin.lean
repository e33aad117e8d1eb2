import SlotLisp.Eval.Construct
import SlotLisp.Inference.Kind
import SlotLisp.State.Equal
import SlotLisp.Value.Map

/-!
The functions that every session starts with. Arguments that are not numbers are a mistake of their
own for the operators of arithmetic, where everything else that goes wrong in a number is a fault.
-/

namespace SlotLisp
namespace Value

/-- The largest number that can count anything, the largest of 63 bits. -/
def maxLength : Int := 0x7fffffffffffffff

def maxRoom : Int := 0x100000000

/-- How often a sequence is taken when it is multiplied by `n`. The fault of a length that cannot be
counted depends on the kind of sequence. -/
def repetitions (uncountable : Fault) (n : Int) (length : Nat) : Except Fault Nat :=
  if maxLength < n || n < -maxLength - 1 then .error .overflow
  else if maxLength < n * length then .error uncountable
  else if maxRoom < n * length then .error .noRoom
  else .ok (if length = 0 then 0 else n.toNat)

/-- Several copies of a dotted list, of which one is the list itself. -/
def pairCopies (n : Nat) (items : List Value) (tail : Value) : Value :=
  if n = 0 then .copies 0 [] .nil else if n = 1 then .dotted items tail else .copies n items tail

/-- A sequence taken `n` times, if `v` is one. A vector becomes a list. -/
def timesSequence? (v : Value) (n : Int) : Option (Except Fault Value) :=
  match v with
  | .str t => some do return .str (t.times (← repetitions .overflow n t.length))
  | .bytes growing d => some do
    let k ← repetitions (if growing then .noRoom else .overflow) n d.length
    return .bytes growing (List.replicate k d).flatten
  | .list xs => some do return .list (List.replicate (← repetitions .noRoom n xs.length) xs).flatten
  | .vector xs =>
    some do return .list (List.replicate (← repetitions .noRoom n xs.length) xs).flatten
  | .dotted xs t => some do return pairCopies (← repetitions .noRoom n 2) xs t
  | .copies m xs t => some do return pairCopies (m * (← repetitions .noRoom n (2 * m))) xs t
  | _ => none

/-- An integer as which `v` multiplies a sequence. -/
def factor? : Value → Option Int
  | .bool b => some b.toInt
  | .int n => some n
  | _ => none

/-- The product of two values: of two numbers, or of a sequence and an integer. `none` where there
is no product. -/
def product? (v w : Value) : Option (Except Fault Value) :=
  match v.number?, w.number? with
  | some a, some b => some (Value.ofNumber <$> a.mul b)
  | _, _ =>
    match v.factor? with
    | some n => w.timesSequence? n
    | none => w.factor?.bind v.timesSequence?

def cons (head tail : Value) : Value :=
  match tail with
  | .nil => .list [head]
  | .list xs => .list (head :: xs)
  | .vector xs => .list (head :: xs)
  | t => .dotted [head] t

/-- The first item; whatever has none gives `nil`. -/
def car (v : Value) : Except Fault Value :=
  match v with
  | .list (x :: _) => .ok x
  | .vector (x :: _) => .ok x
  | .dotted (x :: _) _ => .ok x
  | .copies n xs _ => if n = 0 then .error .noSuchIndex else .ok (xs.headD .nil)
  | _ => .ok .nil

/-- What follows the first item; where nothing does, this is `nil`. -/
def cdr (v : Value) : Except Fault Value :=
  match v with
  | .list (_ :: y :: r) => .ok (.list (y :: r))
  | .vector (_ :: y :: r) => .ok (.list (y :: r))
  | .dotted (_ :: y :: r) t => .ok (.dotted (y :: r) t)
  | .dotted _ t => .ok t
  | .copies _ _ _ => .error .badValue
  | _ => .ok .nil

end Value

namespace Arithmetic

def notNumbers {α : Type} (operator : String) : Except Error α :=
  .error (.mismatch (.notNumbers operator))

def settle (x : Except Fault Value) : Except Error Value :=
  match x with
  | .ok v => .ok v
  | .error f => .error (.fault f)

def step (operator : String) (op : Number → Number → Except Fault Number) (v w : Value) :
    Except Error Value :=
  match v.number?, w.number? with
  | some a, some b => settle (Value.ofNumber <$> op a b)
  | _, _ => notNumbers operator

def sum (args : List Value) : Except Error Value := args.foldlM (step "+" Number.add) (.int 0)

def difference (args : List Value) : Except Error Value :=
  match args with
  | [] => .error (.arity (.atLeastOne "-"))
  | [v] =>
    match v.number? with
    | some a => .ok (Value.ofNumber a.neg)
    | none => notNumbers "-"
  | v :: vs => vs.foldlM (step "-" Number.sub) v

def product (args : List Value) : Except Error Value :=
  args.foldlM (fun v w =>
    match v.product? w with
    | some x => settle x
    | none => notNumbers "*") (.int 1)

def quotient (args : List Value) : Except Error Value :=
  match args with
  | [] => .error (.arity (.atLeastOne "/"))
  | [v] => step "/" Number.div (.int 1) v
  | v :: vs => vs.foldlM (step "/" Number.div) v

end Arithmetic

/-- Whether a relation holds between all neighbours; it is not asked any more once it does not. -/
def chainHolds (rel : Value → Value → Except Fault Bool) : List Value → Except Fault Bool
  | v :: w :: r => do if ← rel v w then chainHolds rel (w :: r) else return false
  | _ => .ok true

namespace State

def allEqual (s : State) (args : List Value) : Bool :=
  (args.zip args.tail).all fun p => s.equal p.1 p.2

def classArgument (s : State) (env : FrameId) (v : Value) : Except Error ClassId := do
  let x ← match v with
    | .symbol _ => s.lookup env v
    | _ => pure v
  match x.isClass? with
  | some c => return c
  | none => throw (.mismatch (.classArgument v))

end State

def instanceArgument (function : String) (v : Value) : Except Error InstanceId :=
  match v.isInstance? with
  | some i => .ok i
  | none => .error (.mismatch (.instanceArgument function v))

namespace Eval

def wrongCount {α : Type} (name : String) (count : Nat) : Eval α :=
  throw (.arity (.builtin name count))

/-- The outcome of an operation on numbers. What is not a number is new, and differs from all
others. -/
def arithmetic (x : Except Error Value) : Eval Value := do
  let v ← ofExcept x
  create fun s => s.mark v

def callBuiltin (eval : Evaluator) (b : Builtin) (args : List Value) (env : FrameId) : Eval Value :=
  match b with
  | .add => arithmetic (Arithmetic.sum args)
  | .sub => arithmetic (Arithmetic.difference args)
  | .mul => arithmetic (Arithmetic.product args)
  | .div => arithmetic (Arithmetic.quotient args)
  | .equals => do return .ofBool ((← get).allEqual args)
  | .less => do return .ofBool (← ofFault (chainHolds (← get).less args))
  | .greater => do
    let s ← get
    return .ofBool (← ofFault (chainHolds (fun v w => s.less w v) args))
  | .not =>
    match args with
    | [v] => return .ofBool !v.isTrue
    | _ => wrongCount "not" 1
  | .cons =>
    match args with
    | [v, w] => return v.cons w
    | _ => wrongCount "cons" 2
  | .car =>
    match args with
    | [v] => ofFault v.car
    | _ => wrongCount "car" 1
  | .cdr =>
    match args with
    | [v] => ofFault v.cdr
    | _ => wrongCount "cdr" 1
  | .list => return .list args
  | .vector => return .vector args
  | .makeTable =>
    if args.length % 2 = 1 then throw (.arity .mappingPairs) else ofFault (Value.ofPairs args)
  | .signal => throw (.signalled args)
  | .typeOf =>
    match args with
    | [v] => do return .symbol ((← get).typeOf v)
    | _ => wrongCount "type-of" 1
  | .makeInstance =>
    match args with
    | [] => throw (.arity .makeInstance)
    | v :: initargs => do construct eval (← ask fun s => s.classArgument env v) initargs
  | .slotValue =>
    match args with
    | [v, name] => do
      let i ← ofExcept (instanceArgument "slot-value" v)
      ask fun s => s.readSlot i name
    | _ => wrongCount "slot-value" 2
  | .setSlotValue =>
    match args with
    | [v, name, w] => do
      let i ← ofExcept (instanceArgument "set-slot-value" v)
      set (← ask fun s => s.writeSlot i name w)
      return w
    | _ => wrongCount "set-slot-value" 3
  | .slotBound =>
    match args with
    | [v, name] => do
      let i ← ofExcept (instanceArgument "slot-boundp" v)
      return .ofBool (← ask fun s => s.slotBound i name)
    | _ => wrongCount "slot-boundp" 2
  | .classOf =>
    match args with
    | [v] => do
      let i ← ofExcept (instanceArgument "class-of" v)
      return .ref (.cls ((← get).classOf i))
    | _ => wrongCount "class-of" 1

end Eval

/-- The builtin functions under their names, in the order in which a session binds them. `funcall`
stands among them and needs a table of macros. -/
def builtinBindings (macros : MacroTableId) : List (Symbol × Function) :=
  [(⟨"+"⟩, .builtin .add), (⟨"-"⟩, .builtin .sub), (⟨"*"⟩, .builtin .mul), (⟨"/"⟩, .builtin .div),
    (⟨"="⟩, .builtin .equals), (⟨"eq"⟩, .builtin .equals), (⟨"<"⟩, .builtin .less),
    (⟨">"⟩, .builtin .greater), (⟨"not"⟩, .builtin .not), (⟨"cons"⟩, .builtin .cons),
    (⟨"car"⟩, .builtin .car), (⟨"cdr"⟩, .builtin .cdr), (⟨"list"⟩, .builtin .list),
    (⟨"vector"⟩, .builtin .vector), (⟨"make-hash-table"⟩, .builtin .makeTable),
    (⟨"funcall"⟩, .funcall macros), (⟨"error"⟩, .builtin .signal), (⟨"type-of"⟩, .builtin .typeOf),
    (⟨"make-instance"⟩, .builtin .makeInstance), (⟨"slot-value"⟩, .builtin .slotValue),
    (⟨"set-slot-value"⟩, .builtin .setSlotValue), (⟨"slot-boundp"⟩, .builtin .slotBound),
    (⟨"class-of"⟩, .builtin .classOf)]

end SlotLisp
