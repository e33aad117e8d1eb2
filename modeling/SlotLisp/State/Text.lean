import SlotLisp.Error.Message
import SlotLisp.State

/-!
The texts of values in a state. An instance shows the values of its slots, which may be instances
again. One that comes to be shown inside of itself has no text, unless it does so inside of a
container that is not written again there. As many steps as there are instances are enough to tell.
-/

namespace SlotLisp
namespace State

def slotText (write : Value → String) (values : Table Value) (slot : Slot) : String :=
  slot.name.name ++ "=" ++
    (match values.get? slot.name with
      | some v => write v
      | none => "#<unbound>")

/-- The text of a reference that has one. Instances are shown inside of others `depth` times at
most, which cuts short only what comes again inside of a container that is not written again
there. -/
def refText (s : State) : Nat → Ref → String
  | _, .cls c => "#<class " ++ (s.getClass c).name.name ++ ">"
  | _, .policy p => ((s.settings.policy? p).map Policy.text).getD ""
  | 0, .inst _ => ""
  | depth + 1, .inst i =>
    let x := s.getInstance i
    let c := s.getClass x.cls
    "#<" ++ c.name.name ++ " " ++
      " ".intercalate (c.slots.map (slotText (Value.write (s.refText depth) .source) x.values)) ++
        ">"

/-- Why a reference has no text, by the slots of an instance in order. `depth` bounds how far
instances show one another, and reaching it says that there is no end; `inner` judges the references
inside of containers that are not written again inside of themselves. -/
def refFault? (s : State) (inner : Ref → Option Fault) : Nat → Ref → Option Fault
  | 0, .inst _ => some .endless
  | depth + 1, .inst i =>
    let x := s.getInstance i
    (s.getClass x.cls).slots.findSome? fun slot =>
      (x.values.get? slot.name).bind (Value.textFault? (s.refFault? inner depth) inner)
  | _, _ => none

/-- More instances than there are do not show one another without one that comes again. -/
def depthBound (s : State) : Nat := s.instances.size + 1

/-- Why a reference inside of such containers has no text, where they are entered `n` times at most.
What comes after that has been met before. -/
def innerFault? (s : State) : Nat → Ref → Option Fault
  | 0 => fun _ => none
  | n + 1 => s.refFault? (s.innerFault? n) s.depthBound

def text (s : State) (style : Style) (v : Value) : String := v.write (s.refText s.depthBound) style

def source (s : State) (v : Value) : String := s.text .source v

def textFault? (s : State) (v : Value) : Option Fault :=
  v.textFault? (s.innerFault? (s.depthBound + 1)) (s.innerFault? s.depthBound)

def writable (s : State) (v : Value) : Bool := (s.textFault? v).isNone

def message (s : State) (e : Error) : String := e.message (s.refText s.depthBound)

def settle (s : State) (e : Error) : Error := e.settled s.textFault?

def varsText (s : State) (f : FrameId) : String :=
  "\x7b" ++ ", ".intercalate
    ((s.frame f).vars.entries.map fun e => e.1.name ++ ": " ++ s.text .inspect e.2) ++ "\x7d"

def frameFault? (s : State) (f : FrameId) : Option Fault :=
  (s.chain f).findSome? fun g => (s.frame g).vars.entries.findSome? fun e => s.textFault? e.2

def frameDisplay (s : State) (f : FrameId) : String :=
  s.varsText f ++ (if (s.frame f).outers.isEmpty then "" else " -> ...")

def frameInspect (s : State) (f : FrameId) : String :=
  "<Environment chain: " ++ " -> ".intercalate ((s.chain f).map s.varsText) ++ ">"

end State
end SlotLisp
