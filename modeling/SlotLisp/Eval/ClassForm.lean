import SlotLisp.Declaration
import SlotLisp.Eval.Variables

/-!
Defining classes. A class has the slots of its bases, in order and each name once, and then its own
ones, which replace inherited ones of the same name. A definition binds the class, its constructor,
its predicate and a reader for each of its own slots.
-/

namespace SlotLisp

def Slot.initargKey : Symbol := ⟨":initarg"⟩
def Slot.accessorKey : Symbol := ⟨":accessor"⟩
def Slot.documentationKey : Symbol := ⟨":documentation"⟩

def Slot.isKnownOption (key : Value) : Bool :=
  Declaration.isKey Declaration.typeKey key || Declaration.isKey Slot.initargKey key ||
    Declaration.isKey Slot.accessorKey key || Declaration.isKey Slot.documentationKey key

def Slot.ofDeclaration (cls : Symbol) (d : Declaration) : Slot where
  name := d.name
  default := d.default
  type := d.type?
  initarg := (d.option? Slot.initargKey).getD (.symbol d.name.keyword)
  accessor := (d.option? Slot.accessorKey).getD (.symbol ⟨cls.name ++ "-" ++ d.name.name⟩)
  documentation := d.option? Slot.documentationKey
  metadata := d.options.filter fun o => !Slot.isKnownOption o.1

/-- Slots by the first mention of each name, leaving out the names in `seen`. -/
def firstByName (seen : List Symbol) : List Slot → List Slot
  | [] => []
  | slot :: slots =>
    if seen.contains slot.name then firstByName seen slots
    else slot :: firstByName (slot.name :: seen) slots

def State.effectiveSlots (s : State) (bases : List ClassId) (own : List Slot) : List Slot :=
  firstByName (own.map Slot.name) (bases.flatMap fun b => (s.getClass b).slots) ++ own

/-- The parts of a form that lists things, where `nil` lists none. -/
def partsOf (v : Value) : Except Error (List Value) :=
  match v.elements with
  | .ok vs => .ok vs
  | .error f => .error (.fault f)

def State.baseClass (s : State) (env : FrameId) (name : Value) : Except Error ClassId := do
  match (← s.lookup env name).isClass? with
  | some c => return c
  | none => throw (.mismatch (.baseClass name))

/-- A class option: a keyword with one value, or with all that follows it. -/
def classOption (form : Value) : Except Error (Symbol × Value) :=
  match form.items? with
  | some (.symbol key :: args) =>
    match args with
    | [v] => .ok (key, v)
    | vs => .ok (key, .list vs)
  | _ => .error (.mismatch (.classOption form))

/-- A class as it is written, before its names are bound. -/
structure ClassDraft where
  name : Symbol
  bases : List ClassId
  own : List Slot
  options : Table Value

namespace State

/-- Everything that can be found wrong with the parts of a class definition, in order. -/
def draftClass (s : State) (env : FrameId) (args : List Value) : Except Error ClassDraft :=
  match args with
  | .symbol name :: bases :: slots :: options => do
    let bases ← (← partsOf bases).mapM (s.baseClass env)
    let own ← (← partsOf slots).mapM fun d => do
      return Slot.ofDeclaration name (← Declaration.ofForm d)
    if !decide (own.map Slot.name).Nodup then throw (.arity (.repeatedSlot name))
    let options ← options.mapM classOption
    return ⟨name, bases, own, .ofList options⟩
  | name :: _ :: _ :: _ => .error (.mismatch (.className name))
  | _ => .error (.arity .classForm)

def classOfDraft (s : State) (d : ClassDraft) (env : FrameId) (macros : MacroTableId) : Class where
  name := d.name
  bases := d.bases
  slots := s.effectiveSlots d.bases d.own
  options := d.options
  frame := env
  macros := macros
  lineage := s.classes.size :: (d.bases.flatMap fun b => (s.getClass b).lineage).eraseDups

end State

def ClassDraft.bindings (d : ClassDraft) (cls : ClassId) : List (Value × Value) :=
  (.symbol d.name, .ref (.cls cls)) ::
  (.symbol ⟨"make-" ++ d.name.name⟩, .function (.constructor cls)) ::
  (.symbol ⟨d.name.name ++ "-p"⟩, .function (.predicate cls)) ::
  d.own.map fun slot =>
    let name := match slot.accessor with
      | .symbol n => n
      | _ => slot.name
    (slot.accessor, .function (.reader cls name slot.name))

def Eval.defineClass (args : List Value) (env : FrameId) (macros : MacroTableId) : Eval Value := do
  let draft ← ask fun s => s.draftClass env args
  let cls ← create fun s => s.addClass (s.classOfDraft draft env macros)
  defineAll env (draft.bindings cls)
  return .ref (.cls cls)

end SlotLisp
