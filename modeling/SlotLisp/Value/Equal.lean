import SlotLisp.Value

/-!
Equality of values. Numbers of different kinds are equal if their exact values are; a list and a
vector are equal if their items are; mappings are equal whatever the order of their entries;
functions are equal only to themselves. How things outside the value compare is a parameter.
-/

namespace SlotLisp
namespace Value

/-- Whether two values are one and the same by their marks. What is not a number differs from
itself, and so does the default of a slot of such a type; inside another value each is taken for
equal to itself. -/
def sameMark : Value → Value → Bool
  | .nan i _, .nan j _ => i == j
  | .unsupplied (some i) _ _, .unsupplied (some j) _ _ => i == j
  | _, _ => false

mutual

def equalBy (same : Ref → Ref → Bool) : Value → Value → Bool
  | .absent, w => match w with
    | .absent => true
    | _ => false
  | .nil, w => match w with
    | .nil => true
    | _ => false
  | .bool b, w => match w.number? with
    | some n => Number.equal (.int b.toInt) n
    | none => false
  | .int m, w => match w.number? with
    | some n => Number.equal (.int m) n
    | none => false
  | .float x, w => match w.number? with
    | some n => Number.equal (.float x) n
    | none => false
  | .complex re im, w => match w.number? with
    | some n => Number.equal (.complex re im) n
    | none => false
  | .nan _ n, w => match w.number? with
    | some m => Number.equal n m
    | none => false
  | .symbol s, w => match w with
    | .symbol t => s == t
    | _ => false
  | .str t, w => match w with
    | .str u => t == u
    | _ => false
  | .bytes _ d, w => match w with
    | .bytes _ e => d == e
    | _ => false
  | .list xs, w => match w.items? with
    | some ys => itemsEqualBy same xs ys
    | none => false
  | .vector xs, w => match w.items? with
    | some ys => itemsEqualBy same xs ys
    | none => false
  | .dotted xs t, w => match w with
    | .dotted ys u => itemsEqualBy same xs ys && (sameMark t u || equalBy same t u)
    | _ => false
  | .copies n xs t, w => match w with
    | .copies m ys u =>
      n == m && (n == 0 || itemsEqualBy same xs ys && (sameMark t u || equalBy same t u))
    | _ => false
  | .map es, w => match w with
    | .map fs => es.length == fs.length && entriesEqualBy same es fs
    | _ => false
  | .closure i _ _ _, w => match w with
    | .closure j _ _ _ => i == j
    | _ => false
  | .function f, w => match w with
    | .function g => f == g
    | _ => false
  | .unsupplied _ s t, w => match w with
    | .unsupplied _ s' t' => s == s' && equalBy same t t'
    | _ => false
  | .ref r, w => match w with
    | .ref q => same r q
    | _ => false
termination_by structural v => v

def itemsEqualBy (same : Ref → Ref → Bool) : List Value → List Value → Bool
  | [], ys => ys.isEmpty
  | x :: xs, ys => match ys with
    | [] => false
    | y :: ys => (sameMark x y || equalBy same x y) && itemsEqualBy same xs ys

def entriesEqualBy (same : Ref → Ref → Bool) : List (Value × Value) → List (Value × Value) → Bool
  | [], _ => true
  | (k, v) :: es, fs =>
    (fs.any fun f =>
        (sameMark k f.1 || equalBy same k f.1) && (sameMark v f.2 || equalBy same v f.2)) &&
      entriesEqualBy same es fs

end

end Value
end SlotLisp
