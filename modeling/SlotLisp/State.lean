import SlotLisp.Policy
import SlotLisp.Value.Mark

/-!
The state of a session: frames of variables, classes, instances and tables of macros, each in the
order of creation and none ever removed. A frame knows the whole chain of frames around it, so that
looking a variable up needs no search through links.
-/

namespace SlotLisp

structure Frame where
  vars : Table Value
  /-- The frames around this one, the nearest first. -/
  outers : List FrameId
  deriving Inhabited

/-- A slot of a class, whether declared for it or inherited. -/
structure Slot where
  name : Symbol
  default : Option Value
  type : Option Value
  initarg : Value
  accessor : Value
  documentation : Option Value
  /-- The remaining options of its declaration. -/
  metadata : List (Value × Value)
  deriving Inhabited

structure Class where
  name : Symbol
  bases : List ClassId
  slots : List Slot
  options : Table Value
  /-- Where the class was defined, which is where the defaults of its slots are evaluated. -/
  frame : FrameId
  macros : MacroTableId
  /-- The classes it descends from, itself included. -/
  lineage : List ClassId
  deriving Inhabited

namespace Class

def documentation (c : Class) : Option Value := c.options.get? ⟨":documentation"⟩

end Class

structure Instance where
  cls : ClassId
  /-- The slots that have a value. -/
  values : Table Value
  deriving Inhabited

/-- How a macro makes a call into another form: by a body of its own, or as one of the three macros
that every session starts with. -/
inductive Transformer
  | closure (formals : List Value) (body : Value) (frame : FrameId)
  | letForm
  | functionForm
  | inferredClassForm
  deriving Inhabited

structure MacroTable where
  transformers : Table Transformer
  /-- How many symbols have been generated. -/
  generated : Nat
  deriving Inhabited

structure State where
  settings : Settings
  frames : Array Frame
  classes : Array Class
  instances : Array Instance
  macroTables : Array MacroTable
  /-- How many closures have been made. -/
  closures : Nat
  /-- How many marks have been given to values that may differ from themselves. -/
  marks : Nat
  deriving Inhabited

namespace State

def start (settings : Settings) : State := ⟨settings, #[], #[], #[], #[], 0, 0⟩

/-- A value as a part of the state, in which all that may differ from itself has a mark. -/
def mark (s : State) (v : Value) : State × Value :=
  let (v, next) := v.mark.run s.marks
  ({ s with marks := next }, v)

/- Frames. -/

def frame (s : State) (f : FrameId) : Frame := s.frames[f]?.getD default

/-- The frames in which a variable is looked up from `f`, the nearest first. -/
def chain (s : State) (f : FrameId) : List FrameId := f :: (s.frame f).outers

def rootFrame (s : State) : State × FrameId :=
  ({ s with frames := s.frames.push ⟨.empty, []⟩ }, s.frames.size)

def childFrame (s : State) (f : FrameId) : State × FrameId :=
  ({ s with frames := s.frames.push ⟨.empty, s.chain f⟩ }, s.frames.size)

/-- The nearest frame from `f` that binds `name`. -/
def find? (s : State) (f : FrameId) (name : Symbol) : Option FrameId :=
  (s.chain f).find? fun g => (s.frame g).vars.contains name

def lookup? (s : State) (f : FrameId) (name : Symbol) : Option Value :=
  (s.find? f name).bind fun g => (s.frame g).vars.get? name

def define (s : State) (f : FrameId) (name : Symbol) (v : Value) : State :=
  { s with frames := s.frames.modify f fun fr => { fr with vars := fr.vars.insert name v } }

/-- Give a variable that is bound somewhere around `f` a new value, where it is bound. -/
def assign? (s : State) (f : FrameId) (name : Symbol) (v : Value) : Option State :=
  (s.find? f name).map fun g => s.define g name v

/-- The frame in which the variable seen from `f` is bound, with the number of frames in between. -/
def depth? (s : State) (f : FrameId) (name : Symbol) : Option Nat :=
  (s.chain f).findIdx? fun g => (s.frame g).vars.contains name

/- Classes and instances. -/

def getClass (s : State) (c : ClassId) : Class := s.classes[c]?.getD default

def addClass (s : State) (c : Class) : State × ClassId :=
  ({ s with classes := s.classes.push c }, s.classes.size)

def descends (s : State) (c d : ClassId) : Bool := (s.getClass c).lineage.contains d

def getInstance (s : State) (i : InstanceId) : Instance := s.instances[i]?.getD default

def addInstance (s : State) (i : Instance) : State × InstanceId :=
  ({ s with instances := s.instances.push i }, s.instances.size)

def setSlot (s : State) (i : InstanceId) (name : Symbol) (v : Value) : State :=
  { s with instances := s.instances.modify i fun x => { x with values := x.values.insert name v } }

def classOf (s : State) (i : InstanceId) : ClassId := (s.getInstance i).cls

/- Macros. -/

def macroTable (s : State) (t : MacroTableId) : MacroTable := s.macroTables[t]?.getD default

def addMacroTable (s : State) : State × MacroTableId :=
  ({ s with macroTables := s.macroTables.push ⟨.empty, 0⟩ }, s.macroTables.size)

def transformer? (s : State) (t : MacroTableId) (name : Symbol) : Option Transformer :=
  (s.macroTable t).transformers.get? name

def defineTransformer (s : State) (t : MacroTableId) (name : Symbol) (x : Transformer) : State :=
  { s with
    macroTables :=
      s.macroTables.modify t fun m => { m with transformers := m.transformers.insert name x } }

def namesMacro (s : State) (t : MacroTableId) (v : Value) : Bool :=
  match v with
  | .symbol n => (s.macroTable t).transformers.contains n
  | _ => false

/-- A symbol made of the given text and the next number. -/
def generate (s : State) (t : MacroTableId) (stem : String) : State × Symbol :=
  let n := (s.macroTable t).generated + 1
  ({ s with macroTables := s.macroTables.modify t fun m => { m with generated := n } },
    ⟨stem ++ toString n⟩)

end State
end SlotLisp
