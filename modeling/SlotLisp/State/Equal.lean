import SlotLisp.State
import SlotLisp.Value.Less

/-!
Equality of values in a state. Two instances are equal if they are of one class and their slots are;
two classes are equal if everything that was said in their definitions is and they were defined in
one place.
-/

namespace SlotLisp

/-- Tables are equal whatever the order of their entries. -/
def Table.equalBy {β : Type} (eq : β → β → Bool) (t u : Table β) : Bool :=
  t.entries.length == u.entries.length &&
    t.entries.all fun e =>
      match u.get? e.1 with
      | some w => eq e.2 w
      | none => false

def optionEqualBy {α : Type} (eq : α → α → Bool) : Option α → Option α → Bool
  | none, none => true
  | some a, some b => eq a b
  | _, _ => false

def listEqualBy {α : Type} (eq : α → α → Bool) (xs ys : List α) : Bool :=
  xs.length == ys.length && (xs.zip ys).all fun p => eq p.1 p.2

namespace State

def memberEqual (same : Ref → Ref → Bool) (v w : Value) : Bool :=
  Value.sameMark v w || v.equalBy same w

def slotEqual (same : Ref → Ref → Bool) (a b : Slot) : Bool :=
  a.name == b.name &&
  optionEqualBy (memberEqual same) a.default b.default &&
  memberEqual same (a.type.getD .absent) (b.type.getD .absent) &&
  memberEqual same a.initarg b.initarg &&
  memberEqual same a.accessor b.accessor &&
  memberEqual same (a.documentation.getD .absent) (b.documentation.getD .absent) &&
  listEqualBy (fun x y => memberEqual same x.1 y.1 && memberEqual same x.2 y.2)
    a.metadata b.metadata

def classEqual (same : Ref → Ref → Bool) (a b : Class) : Bool :=
  a.name == b.name &&
  listEqualBy (fun c d => same (.cls c) (.cls d)) a.bases b.bases &&
  listEqualBy (slotEqual same) a.slots b.slots &&
  a.options.equalBy (memberEqual same) b.options &&
  a.frame == b.frame &&
  a.macros == b.macros

/-- Two references are the same to the given depth, beyond which only identity counts. -/
def sameRef (s : State) : Nat → Ref → Ref → Bool
  | 0, r, q => r == q
  | depth + 1, r, q =>
    r == q ||
      match r, q with
      | .inst i, .inst j =>
        s.classOf i == s.classOf j &&
          (s.getInstance i).values.equalBy (memberEqual (s.sameRef depth)) (s.getInstance j).values
      | .cls c, .cls d => classEqual (s.sameRef depth) (s.getClass c) (s.getClass d)
      | _, _ => false

/-- As many steps as there are references tell all that are the same from all others. Comparing two
different instances that lead back to themselves may have no end of its own; here it comes to an
end, and they count as different. -/
def same (s : State) : Ref → Ref → Bool := s.sameRef (s.classes.size + s.instances.size + 1)

def equal (s : State) (v w : Value) : Bool := v.equalBy s.same w

def less (s : State) (v w : Value) : Except Fault Bool := v.lessBy s.same w

end State
end SlotLisp
