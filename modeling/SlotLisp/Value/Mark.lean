import SlotLisp.Value

/-!
Marks on values that may differ from themselves: what is not a number, and the default of a slot
that has to be supplied, whose type may be such. Two of them are told apart even if they look alike,
but one that is stored in several places is the same in all of them; so each gets a mark when it is
made, and keeps it.
-/

namespace SlotLisp
namespace Value

def nextMark : StateM Nat Nat := modifyGet fun n => (n, n + 1)

def markNumber (n : Number) : StateM Nat Value := do
  if n.isNaN then return .nan (← nextMark) n else return ofNumber n

mutual

/-- A value in which every part that may differ from itself has a mark; the state is the next
mark. -/
def mark : Value → StateM Nat Value
  | .float x => markNumber (.float x)
  | .complex re im => markNumber (.complex re im)
  | .list xs => return .list (← markAll xs)
  | .vector xs => return .vector (← markAll xs)
  | .dotted xs t => return .dotted (← markAll xs) (← mark t)
  | .copies n xs t => return .copies n (← markAll xs) (← mark t)
  | .map es => return .map (← markEntries es)
  | .unsupplied none s t => return .unsupplied (← nextMark) s (← mark t)
  | v => return v
termination_by structural v => v

def markAll : List Value → StateM Nat (List Value)
  | [] => return []
  | v :: vs => return (← mark v) :: (← markAll vs)

def markEntries : List (Value × Value) → StateM Nat (List (Value × Value))
  | [] => return []
  | (k, v) :: es => return (← mark k, ← mark v) :: (← markEntries es)

end

end Value
end SlotLisp
