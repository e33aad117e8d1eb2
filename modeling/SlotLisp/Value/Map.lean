import SlotLisp.Value.Equal

/-!
Mappings: entries in the order in which their keys first came. Storing under a key that is present
keeps the key and its place and replaces the value.
-/

namespace SlotLisp
namespace Value

/-- Equality of two keys, which hold no references to things that are compared part by part. -/
def sameKey (k j : Value) : Bool := sameMark k j || equalBy (fun r q => r == q) k j

def insertEntry (k v : Value) : List (Value × Value) → List (Value × Value)
  | [] => [(k, v)]
  | e :: es => if sameKey k e.1 then (e.1, v) :: es else e :: insertEntry k v es

/-- The mapping with alternating keys and values, all of whose keys have to be comparable as keys. A
last key without a value is left out. -/
def mapOfPairs (entries : List (Value × Value)) : List Value → Except Fault Value
  | [] => .ok (.map entries)
  | [_] => .ok (.map entries)
  | k :: v :: r => if k.hashable then mapOfPairs (insertEntry k v entries) r else .error .mismatch

def ofPairs (items : List Value) : Except Fault Value := mapOfPairs [] items

def entry? (entries : List (Value × Value)) (k : Value) : Option Value :=
  (entries.find? fun e => sameKey k e.1).map Prod.snd

end Value
end SlotLisp
