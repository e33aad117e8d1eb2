import SlotLisp.Declaration
import SlotLisp.Eval.Variables

/-!
Making and reading instances. All mistakes in the initial arguments are found before the default of
any slot is evaluated; then every slot in order takes its last argument, its default, or nothing.
-/

namespace SlotLisp

def initargTable (cls : Symbol) (args : List Value) : Except Error (Table Value) :=
  if args.length % 2 = 1 then .error (.arity (.initargPairs cls))
  else do
    let entries ← (Declaration.pairs args).mapM fun (k, v) =>
      match k with
      | .symbol s =>
        if s.isKeyword then Except.ok (s, v)
        else .error (.mismatch (.initargKey cls k))
      | k => .error (.mismatch (.initargKey cls k))
    return .ofList entries

/-- The initial arguments, provided that every one belongs to a slot of the class. -/
def Class.checkInitargs (c : Class) (initargs : Table Value) : Except Error Unit :=
  if c.slots.any fun s => !s.initarg.hashable then .error (.fault .mismatch)
  else
    let unknown := initargs.keys.filter fun k => !c.slots.any fun s => Declaration.isKey k s.initarg
    if unknown.isEmpty then .ok () else .error (.arity (.unknownInitargs c.name unknown))

def Slot.argument? (slot : Slot) (initargs : Table Value) : Option Value :=
  match slot.initarg with
  | .symbol k => initargs.get? k
  | _ => none

namespace Eval

/-- The value that a slot starts with; a default that has to be supplied fails here. -/
def initialValue (eval : Evaluator) (c : Class) (initargs : Table Value) (slot : Slot) :
    Eval (Option Value) :=
  match slot.argument? initargs with
  | some v => pure (some v)
  | none =>
    match slot.default with
    | none => pure none
    | some form => do
      match ← eval form c.frame c.macros with
      | .unsupplied _ name type => throw (.emptySlot (.unsupplied name type))
      | v => return some v

def initialValues (eval : Evaluator) (c : Class) (initargs : Table Value) :
    List Slot → Table Value → Eval (Table Value)
  | [], values => pure values
  | slot :: slots, values => do
    match ← initialValue eval c initargs slot with
    | some v => initialValues eval c initargs slots (values.insert slot.name v)
    | none => initialValues eval c initargs slots values

def construct (eval : Evaluator) (cls : ClassId) (args : List Value) : Eval Value := do
  let c := (← get).getClass cls
  let initargs ← ofExcept (initargTable c.name args)
  ofExcept (c.checkInitargs initargs)
  let values ← initialValues eval c initargs c.slots .empty
  let i ← create fun s => s.addInstance ⟨cls, values⟩
  return .ref (.inst i)

end Eval

namespace State

/-- A slot of the class of an instance, by any value as its name. -/
def namedSlot (s : State) (i : InstanceId) (name : Value) : Except Error Slot :=
  let c := s.getClass (s.classOf i)
  match c.slots.find? fun slot => Declaration.isKey slot.name name with
  | some slot => .ok slot
  | none => .error (.arity (.noSlot c.name name))

def readSlot (s : State) (i : InstanceId) (name : Value) : Except Error Value := do
  let slot ← s.namedSlot i name
  match (s.getInstance i).values.get? slot.name with
  | some v => return v
  | none => throw (.emptySlot (.unset slot.name (s.getClass (s.classOf i)).name))

def writeSlot (s : State) (i : InstanceId) (name v : Value) : Except Error State := do
  let slot ← s.namedSlot i name
  return s.setSlot i slot.name v

def slotBound (s : State) (i : InstanceId) (name : Value) : Except Error Bool := do
  let slot ← s.namedSlot i name
  return (s.getInstance i).values.contains slot.name

end State
end SlotLisp
