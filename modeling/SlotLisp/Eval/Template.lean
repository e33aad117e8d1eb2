import SlotLisp.Eval.Basic

/-!
Templates: data with holes. At the outermost level of nesting a hole is replaced by the value of the
form in it, or by the items of that value; a template inside a template is one level deeper.
Vectors, mappings and everything else that is not a list or a dotted list is copied as it is.
-/

namespace SlotLisp

/-- What the head of a list inside a template makes of the list, at a given level. -/
inductive Hole
  | plain
  | inner
  | value
  | splice
  deriving DecidableEq, Repr

namespace Hole

def ofHead (level : Nat) (head : Value) : Hole :=
  match head with
  | .symbol s =>
    if s = Symbol.quasiquote then .inner
    else if s = Symbol.unquote && level == 1 then .value
    else if s = Symbol.unquoteSplicing && level == 1 then .splice
    else .plain
  | _ => .plain

end Hole

/-- The items that a value contributes where it is spliced in. Anything empty contributes none. -/
def splicedItems (v : Value) : Except Error (List Value) :=
  if v.isVoid then .ok []
  else
    match v.items? with
    | some xs => .ok xs
    | none => .error (.mismatch .notAList)

namespace Eval

mutual

/-- The value of a template, where `eval` gives the values of its holes. The tail of a dotted list
is filled in before the items. -/
def fill (eval : Value → Eval Value) (level : Nat) : Value → Eval Value
  | .list xs => return .list (← fillItems eval level xs)
  | .dotted xs t => do
    let t ←
      match t with
      | .list (h :: args) =>
        if Hole.ofHead level h = .value then
          match args with
          | x :: _ => eval x
          | [] => fault .noSuchIndex
        else Value.list <$> fillItems eval level (h :: args)
      | t => fill eval level t
    return .dotted (← fillItems eval level xs) t
  | v => pure v
termination_by structural v => v

def fillItems (eval : Value → Eval Value) (level : Nat) : List Value → Eval (List Value)
  | [] => pure []
  | v :: vs => do
    let first ←
      match v with
      | .list (h :: args) =>
        match Hole.ofHead level h with
        | .inner =>
          match args with
          | x :: _ =>
            (fun t => [Value.list [.symbol Symbol.quasiquote, t]]) <$> fill eval (level + 1) x
          | [] => fault .noSuchIndex
        | .value =>
          match args with
          | x :: _ => List.singleton <$> eval x
          | [] => fault .noSuchIndex
        | .splice =>
          match args with
          | x :: _ => eval x >>= fun t => ofExcept (splicedItems t)
          | [] => pure []
        | .plain => (fun ts => [Value.list ts]) <$> fillItems eval level (h :: args)
      | v => List.singleton <$> fill eval level v
    return first ++ (← fillItems eval level vs)

end

end Eval
end SlotLisp
