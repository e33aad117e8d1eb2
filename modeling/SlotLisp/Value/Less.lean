import SlotLisp.Value.Equal

/-!
Order of values. Numbers are ordered by their exact values, strings and bytes by their characters
and bytes, sequences by the first place at which they differ and otherwise by their lengths. Nothing
else is ordered.
-/

namespace SlotLisp
namespace Value

/-- A dotted list, as one copy of itself, or several copies of one. -/
def pair? : Value → Option (Nat × List Value × Value)
  | .dotted xs t => some (1, xs, t)
  | .copies n xs t => some (n, xs, t)
  | _ => none

def numberLess (n : Number) (w : Value) : Except Fault Bool :=
  match w.number? with
  | some m => n.less m
  | none => .error .mismatch

mutual

def lessBy (same : Ref → Ref → Bool) : Value → Value → Except Fault Bool
  | .bool b, w => numberLess (.int b.toInt) w
  | .int n, w => numberLess (.int n) w
  | .float x, w => numberLess (.float x) w
  | .nan _ n, w => numberLess n w
  | .str t, w => match w with
    | .str u => .ok (t.less u)
    | _ => .error .mismatch
  | .bytes _ d, w => match w with
    | .bytes _ e => .ok (d < e)
    | _ => .error .mismatch
  | .list xs, w => match w.items? with
    | some ys => itemsLessBy same xs ys
    | none => .error .mismatch
  | .vector xs, w => match w.items? with
    | some ys => itemsLessBy same xs ys
    | none => .error .mismatch
  | .dotted xs t, w => match w.pair? with
    | some (m, ys, u) =>
      if m == 0 then .ok false
      else if !itemsEqualBy same xs ys then itemsLessBy same xs ys
      else if sameMark t u || equalBy same t u then .ok (1 < m)
      else lessBy same t u
    | none => .error .mismatch
  | .copies n xs t, w => match w.pair? with
    | some (m, ys, u) =>
      if n == 0 || m == 0 then .ok (n < m)
      else if !itemsEqualBy same xs ys then itemsLessBy same xs ys
      else if sameMark t u || equalBy same t u then .ok (n < m)
      else lessBy same t u
    | none => .error .mismatch
  | _, _ => .error .mismatch
termination_by structural v => v

def itemsLessBy (same : Ref → Ref → Bool) : List Value → List Value → Except Fault Bool
  | [], ys => .ok !ys.isEmpty
  | x :: xs, ys => match ys with
    | [] => .ok false
    | y :: ys =>
      if sameMark x y || equalBy same x y then itemsLessBy same xs ys else lessBy same x y

end

end Value
end SlotLisp
