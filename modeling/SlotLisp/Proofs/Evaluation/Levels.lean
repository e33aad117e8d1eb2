import SlotLisp.Proofs.Evaluation.Outcome
import SlotLisp.Proofs.Value.Leaf

/-!
Levels of nested templates. A template inside a template is one level deeper than what is around it,
and a hole that is not at level one leads one level back; the rule is that the holes at level one,
and no others, are evaluated wherever they stand. Filling a template keeps to the rule at an item of
a list. It never leads back, so that it evaluates nothing inside a template that is an item; and it
does not look at the head of a list that is the template itself, its only exception being the tail
of a dotted list that is a hole without splicing.
-/

namespace SlotLisp

inductive Nesting
  | plain
  | template
  | hole (splice : Bool) (form : Value)

def holeHead (splice : Bool) : Symbol := if splice then Symbol.unquoteSplicing else Symbol.unquote

namespace Value

def nesting : Value → Nesting
  | .list [.symbol s, x] =>
    if s = Symbol.quasiquote then .template
    else if s = Symbol.unquote then .hole false x
    else if s = Symbol.unquoteSplicing then .hole true x
    else .plain
  | _ => .plain

/-- The level of what is inside `v`, where `v` itself is at `level`. -/
def innerLevel (level : Nat) (v : Value) : Nat :=
  match v.nesting with
  | .plain => level
  | .template => level + 1
  | .hole _ _ => level - 1

/-- The form of a hole at level one, and whether its value is spliced in. -/
def openHole? (level : Nat) (v : Value) : Option (Bool × Value) :=
  match v.nesting with
  | .hole splice form => if level = 1 then some (splice, form) else none
  | _ => none

/-- Whether a list that starts as a template or as a hole does has one argument. -/
def OneArgument (xs : List Value) : Prop :=
  match xs with
  | .symbol s :: args =>
    s = Symbol.quasiquote ∨ s = Symbol.unquote ∨ s = Symbol.unquoteSplicing → args.length = 1
  | _ => True

mutual

def Unary : Value → Prop
  | .list xs => OneArgument xs ∧ UnaryItems xs
  | .dotted xs t => UnaryItems xs ∧ Unary t
  | _ => True
termination_by structural v => v

def UnaryItems : List Value → Prop
  | [] => True
  | v :: vs => Unary v ∧ UnaryItems vs

end

mutual

/-- Whether there is no hole at level one in a value that is at the given level. -/
def Inert (level : Nat) : Value → Prop
  | .list xs =>
    openHole? level (.list xs) = none ∧ InertItems (innerLevel level (.list xs)) xs
  | .dotted xs t => InertItems level xs ∧ Inert level t
  | _ => True
termination_by structural v => v

def InertItems (level : Nat) : List Value → Prop
  | [] => True
  | v :: vs => Inert level v ∧ InertItems level vs

end

mutual

/-- Whether filling a value as if it were the whole template, at level one, does what the rule says
of it at the given level. A list that stands by itself must not be a hole to be evaluated; a
template that is an item must have none inside. -/
def FollowsLevels (level : Nat) : Value → Prop
  | .list xs =>
    openHole? level (.list xs) = none ∧ FollowsLevelsItems (innerLevel level (.list xs)) xs
  | .dotted xs t =>
    FollowsLevelsItems level xs ∧
      match t.nesting with
      | .hole false _ => level = 1
      | _ => FollowsLevels level t
  | _ => True
termination_by structural v => v

def FollowsLevelsItems (level : Nat) : List Value → Prop
  | [] => True
  | v :: vs =>
    (match v.nesting with
      | .plain => FollowsLevels level v
      | .template => Inert level v
      | .hole _ _ => level = 1) ∧ FollowsLevelsItems level vs

end

end Value

namespace Eval

mutual

/-- The value of a template by the rule, where `eval` gives the values of its holes. A hole where
there is nothing to splice into is replaced by the value. -/
def fillByLevel (eval : Value → Eval Value) (level : Nat) : Value → Eval Value
  | .list xs =>
    match Value.openHole? level (.list xs) with
    | some (_, form) => eval form
    | none => Value.list <$> fillItemsByLevel eval (Value.innerLevel level (.list xs)) xs
  | .dotted xs t => do
    let t ← fillByLevel eval level t
    return .dotted (← fillItemsByLevel eval level xs) t
  | v => pure v
termination_by structural v => v

def fillItemsByLevel (eval : Value → Eval Value) (level : Nat) : List Value → Eval (List Value)
  | [] => pure []
  | v :: vs => do
    let first ←
      match v.openHole? level with
      | some (true, form) => eval form >>= fun t => ofExcept (splicedItems t)
      | _ => List.singleton <$> fillByLevel eval level v
    return first ++ (← fillItemsByLevel eval level vs)

end

/-! ## Parts of templates by their shape -/

section

variable {xs : List Value}

theorem oneArgument_cases (h : Value.OneArgument xs) :
    (∃ x, xs = [.symbol Symbol.quasiquote, x]) ∨
      (∃ splice x, xs = [.symbol (holeHead splice), x]) ∨
        (Value.list xs).nesting = .plain ∧
          ∀ level head args, xs = head :: args → Hole.ofHead level head = .plain := by
  cases xs with
  | nil => exact .inr (.inr ⟨rfl, fun _ _ _ h => absurd h (by simp)⟩)
  | cons head args =>
      cases head with
      | symbol s =>
          by_cases hs : s = Symbol.quasiquote ∨ s = Symbol.unquote ∨ s = Symbol.unquoteSplicing
          · obtain ⟨x, rfl⟩ := List.length_eq_one_iff.1 (h hs)
            rcases hs with rfl | rfl | rfl
            · exact .inl ⟨x, rfl⟩
            · exact .inr (.inl ⟨false, x, rfl⟩)
            · exact .inr (.inl ⟨true, x, rfl⟩)
          · simp only [not_or] at hs
            refine .inr (.inr ⟨?_, fun level head' args' heq => ?_⟩)
            · rcases args with _ | ⟨x, _ | ⟨y, zs⟩⟩
              · rfl
              · simp [Value.nesting, hs]
              · rfl
            · obtain ⟨rfl, -⟩ := List.cons.inj heq
              simp [Hole.ofHead, hs]
      | _ => exact .inr (.inr ⟨rfl, fun _ _ _ heq => by obtain ⟨rfl, -⟩ := List.cons.inj heq; rfl⟩)

end

/-- A part of a template is a template, a hole, or something whose head is of no account. -/
theorem unary_cases {v : Value} (hv : v.Unary) :
    (∃ x, x.Unary ∧ v = .list [.symbol Symbol.quasiquote, x]) ∨
      (∃ splice x, v = .list [.symbol (holeHead splice), x]) ∨
        v.nesting = .plain ∧
          ∀ level head args, v = .list (head :: args) → Hole.ofHead level head = .plain := by
  cases v with
  | list xs =>
      obtain ⟨hone, hxs⟩ := hv
      rcases oneArgument_cases hone with ⟨x, rfl⟩ | ⟨splice, x, rfl⟩ | ⟨hnesting, hplain⟩
      · exact .inl ⟨x, hxs.2.1, rfl⟩
      · exact .inr (.inl ⟨splice, x, rfl⟩)
      · exact .inr (.inr ⟨hnesting, fun level head args heq =>
          hplain level head args (Value.list.inj heq)⟩)
  | _ => exact .inr (.inr ⟨rfl, by simp⟩)

/-! ## Filling by items -/

variable {eval : Value → Eval Value}

theorem fill_list (level : Nat) (xs : List Value) :
    fill eval level (.list xs) = Value.list <$> fillItems eval level xs := rfl

theorem fillItems_nil (level : Nat) : fillItems eval level [] = pure [] := rfl

theorem fillItems_cons (level : Nat) (v : Value) (vs : List Value) :
    fillItems eval level (v :: vs) = do
      let first ← fillItems eval level [v]
      return first ++ (← fillItems eval level vs) := by
  rw [fillItems.eq_def, fillItems.eq_def eval level [v]]
  simp only [fillItems_nil, pure_bind, List.append_nil, bind_pure]
  repeat' split
  all_goals simp

/-- Nothing is added to an item with none after it. -/
theorem bind_append_nil (first : Eval (List Value)) :
    (do return (← first) ++ (← pure [])) = first := by
  simp

/-- What an item adds to the items around it by the rule. -/
theorem fillItemsByLevel_item (level : Nat) (v : Value) :
    fillItemsByLevel eval level [v] =
      match v.openHole? level with
      | some (true, form) => eval form >>= fun t => ofExcept (splicedItems t)
      | _ => List.singleton <$> fillByLevel eval level v := by
  rw [fillItemsByLevel]
  split <;> exact bind_append_nil _

theorem fillItemsByLevel_cons (level : Nat) (v : Value) (vs : List Value) :
    fillItemsByLevel eval level (v :: vs) = do
      let first ← fillItemsByLevel eval level [v]
      return first ++ (← fillItemsByLevel eval level vs) := by
  rw [fillItemsByLevel, fillItemsByLevel_item]
  split <;> rfl

theorem fillItems_template (level : Nat) (x : Value) :
    fillItems eval level [.list [.symbol Symbol.quasiquote, x]] =
      (fun t => [.list [.symbol Symbol.quasiquote, t]]) <$> fill eval (level + 1) x :=
  bind_append_nil _

theorem fillItems_value (x : Value) :
    fillItems eval 1 [.list [.symbol Symbol.unquote, x]] = List.singleton <$> eval x :=
  bind_append_nil _

theorem fillItems_splice (x : Value) :
    fillItems eval 1 [.list [.symbol Symbol.unquoteSplicing, x]] =
      eval x >>= fun t => ofExcept (splicedItems t) :=
  bind_append_nil _

theorem fillItems_plain {level : Nat} {v : Value}
    (h : ∀ head args, v = .list (head :: args) → Hole.ofHead level head = .plain) :
    fillItems eval level [v] = List.singleton <$> fill eval level v := by
  rw [fillItems.eq_def]
  dsimp only
  rw [fillItems_nil]
  split
  next head args =>
    rw [h head args rfl, fill_list]
    simp
    rfl
  next => simp

/-- The tail of a dotted list is filled in like a template, unless it starts as a hole without
splicing. -/
theorem fill_dotted {level : Nat} {t : Value}
    (h : ∀ head args, t = .list (head :: args) → Hole.ofHead level head ≠ .value)
    (xs : List Value) :
    fill eval level (.dotted xs t) = do
      let t ← fill eval level t
      return .dotted (← fillItems eval level xs) t := by
  rw [fill.eq_def]
  dsimp only
  split
  next head args =>
    rw [if_neg (h head args rfl), fill_list]
  next => rfl

theorem fill_dotted_value (xs : List Value) (x : Value) :
    fill eval 1 (.dotted xs (.list [.symbol Symbol.unquote, x])) = do
      let t ← eval x
      return .dotted (← fillItems eval 1 xs) t := by
  have hhead : Hole.ofHead 1 (.symbol Symbol.unquote) = .value := by decide
  rw [fill]
  simp [hhead]

/-- A list that starts as a hole without splicing is one, since it has one argument. -/
theorem ofHead_ne_value {t : Value} (ht : t.Unary)
    (hhole : ¬ ∃ x, t = .list [.symbol Symbol.unquote, x]) (head : Value) (args : List Value)
    (heq : t = .list (head :: args)) : Hole.ofHead 1 head ≠ .value := by
  subst heq
  intro hhead
  rcases oneArgument_cases ht.1 with ⟨x, hx⟩ | ⟨splice, x, hx⟩ | ⟨-, hplain⟩
  · obtain ⟨rfl, -⟩ := List.cons.inj hx
    exact absurd hhead (by decide)
  · cases splice with
    | false => exact hhole ⟨x, congrArg Value.list hx⟩
    | true =>
        obtain ⟨rfl, -⟩ := List.cons.inj hx
        exact absurd hhead (by decide)
  · exact absurd ((hplain 1 head args rfl).symm.trans hhead) (by decide)

/-! ## Values without open holes -/

theorem hole_of_nesting {v x : Value} {splice : Bool} (h : v.nesting = .hole splice x) :
    v = .list [.symbol (holeHead splice), x] := by
  rw [Value.nesting.eq_def] at h
  split at h
  next s y =>
    by_cases hq : s = Symbol.quasiquote
    · rw [if_pos hq] at h
      exact absurd h (by simp)
    · rw [if_neg hq] at h
      by_cases hu : s = Symbol.unquote
      · rw [if_pos hu] at h
        obtain ⟨rfl, rfl⟩ := Nesting.hole.inj h
        rw [hu]
        rfl
      · rw [if_neg hu] at h
        split at h
        next hs =>
          obtain ⟨rfl, rfl⟩ := Nesting.hole.inj h
          rw [hs]
          rfl
        next => exact absurd h (by simp)
  next => exact absurd h (by simp)

theorem unaryItems_iff {xs : List Value} : Value.UnaryItems xs ↔ ∀ x ∈ xs, x.Unary := by
  induction xs with
  | nil => simp [Value.UnaryItems]
  | cons x xs ih => rw [Value.UnaryItems, ih, List.forall_mem_cons]

theorem fillItems_eq_of_forall {level : Nat} {xs : List Value}
    (h : ∀ x ∈ xs, fillItems eval level [x] = pure [x]) : fillItems eval level xs = pure xs := by
  induction xs with
  | nil => rfl
  | cons x xs ih =>
      obtain ⟨hx, hxs⟩ := List.forall_mem_cons.1 h
      rw [fillItems_cons, hx, ih hxs]
      rfl

/-- Below the outermost level a template is copied. -/
theorem fill_deep (eval : Value → Eval Value) {v : Value} (hv : v.Unary) (level : Nat) :
    fill eval (level + 2) v = pure v ∧ fillItems eval (level + 2) [v] = pure [v] := by
  induction v using Value.induction_parts generalizing level with
  | list xs ih =>
      obtain ⟨hone, hxs⟩ := hv
      have hunary := unaryItems_iff.1 hxs
      have hitems : fillItems eval (level + 2) xs = pure xs :=
        fillItems_eq_of_forall fun x hx => (ih x hx (hunary x hx) level).2
      have hown : fill eval (level + 2) (.list xs) = pure (.list xs) := by
        rw [fill_list, hitems]
        rfl
      refine ⟨hown, ?_⟩
      rcases oneArgument_cases hone with ⟨x, rfl⟩ | ⟨splice, x, rfl⟩ | ⟨-, hplain⟩
      · have hx := ih x (by simp) (hunary x (by simp)) (level + 1)
        rw [fillItems_template, hx.1]
        rfl
      · rw [fillItems_plain, hown]
        · rfl
        · intro head args heq
          obtain ⟨rfl, -⟩ := List.cons.inj (Value.list.inj heq)
          cases splice <;> simp [Hole.ofHead, holeHead, Symbol.quasiquote, Symbol.unquote,
            Symbol.unquoteSplicing]
      · rw [fillItems_plain, hown]
        · rfl
        · exact fun head args heq => hplain _ head args (Value.list.inj heq)
  | dotted xs t ih iht =>
      obtain ⟨hxs, ht⟩ := hv
      have hunary := unaryItems_iff.1 hxs
      have hitems : fillItems eval (level + 2) xs = pure xs :=
        fillItems_eq_of_forall fun x hx => (ih x hx (hunary x hx) level).2
      have hown : fill eval (level + 2) (.dotted xs t) = pure (.dotted xs t) := by
        rw [fill_dotted, (iht ht level).1, hitems]
        · rfl
        · intro head args _
          cases head <;> simp [Hole.ofHead]
          split <;> simp
      exact ⟨hown, by rw [fillItems_plain (by simp), hown]; rfl⟩
  | _ => exact ⟨rfl, by rw [fillItems_plain (by simp)]; rfl⟩

theorem fillItemsByLevel_single {level : Nat} {v : Value} (h : v.openHole? level = none) :
    fillItemsByLevel eval level [v] = List.singleton <$> fillByLevel eval level v := by
  rw [fillItemsByLevel_item, h]

theorem inertItems_iff {level : Nat} {xs : List Value} :
    Value.InertItems level xs ↔ ∀ x ∈ xs, x.Inert level := by
  induction xs with
  | nil => simp [Value.InertItems]
  | cons x xs ih => rw [Value.InertItems, ih, List.forall_mem_cons]

theorem openHole?_of_inert {level : Nat} {v : Value} (h : v.Inert level) :
    v.openHole? level = none := by
  cases v with
  | list xs => exact h.1
  | _ => rfl

theorem fillItemsByLevel_eq_of_forall {level : Nat} {xs : List Value}
    (h : ∀ x ∈ xs, x.Inert level ∧ fillByLevel eval level x = pure x) :
    fillItemsByLevel eval level xs = pure xs := by
  induction xs with
  | nil => rfl
  | cons x xs ih =>
      obtain ⟨⟨hinert, hx⟩, hxs⟩ := List.forall_mem_cons.1 h
      rw [fillItemsByLevel_cons, fillItemsByLevel_single (openHole?_of_inert hinert), hx, ih hxs]
      rfl

theorem fillByLevel_list {level : Nat} {xs : List Value}
    (h : Value.openHole? level (.list xs) = none) : fillByLevel eval level (.list xs) =
      Value.list <$> fillItemsByLevel eval (Value.innerLevel level (.list xs)) xs := by
  rw [fillByLevel, h]

theorem fillByLevel_open {level : Nat} {xs : List Value} {splice : Bool} {form : Value}
    (h : Value.openHole? level (.list xs) = some (splice, form)) :
    fillByLevel eval level (.list xs) = eval form := by
  rw [fillByLevel, h]

theorem fillByLevel_dotted (level : Nat) (xs : List Value) (t : Value) :
    fillByLevel eval level (.dotted xs t) = do
      let t ← fillByLevel eval level t
      return .dotted (← fillItemsByLevel eval level xs) t := rfl

theorem fillByLevel_unquote (x : Value) :
    fillByLevel eval 1 (.list [.symbol Symbol.unquote, x]) = eval x :=
  fillByLevel_open rfl

/-- By the rule a value without open holes is copied. -/
theorem fillByLevel_of_inert (eval : Value → Eval Value) {v : Value} {level : Nat}
    (hv : v.Inert level) : fillByLevel eval level v = pure v := by
  induction v using Value.induction_parts generalizing level with
  | list xs ih =>
      obtain ⟨hopen, hxs⟩ := hv
      have hinert := inertItems_iff.1 hxs
      have hitems : fillItemsByLevel eval _ xs = pure xs :=
        fillItemsByLevel_eq_of_forall fun x hx => ⟨hinert x hx, ih x hx (hinert x hx)⟩
      rw [fillByLevel_list hopen, hitems]
      rfl
  | dotted xs t ih iht =>
      obtain ⟨hxs, ht⟩ := hv
      have hinert := inertItems_iff.1 hxs
      have hitems : fillItemsByLevel eval level xs = pure xs :=
        fillItemsByLevel_eq_of_forall fun x hx => ⟨hinert x hx, ih x hx (hinert x hx)⟩
      rw [fillByLevel_dotted, iht ht, hitems]
      rfl
  | _ => rfl

/-! ## Where filling follows the rule -/

theorem openHole?_of_plain {v : Value} (h : v.nesting = .plain) (level : Nat) :
    v.openHole? level = none := by
  rw [Value.openHole?, h]

theorem openHole?_hole (splice : Bool) (x : Value) (level : Nat) :
    Value.openHole? level (.list [.symbol (holeHead splice), x]) =
      if level = 1 then some (splice, x) else none := by
  cases splice <;> rfl

theorem fillItemsByLevel_value (x : Value) :
    fillItemsByLevel eval 1 [.list [.symbol Symbol.unquote, x]] = List.singleton <$> eval x := by
  have hopen : Value.openHole? 1 (.list [.symbol Symbol.unquote, x]) = some (false, x) := rfl
  simp only [fillItemsByLevel_item, hopen, fillByLevel_open hopen]

theorem fillItemsByLevel_splice (x : Value) :
    fillItemsByLevel eval 1 [.list [.symbol Symbol.unquoteSplicing, x]] =
      eval x >>= fun t => ofExcept (splicedItems t) := by
  have hopen : Value.openHole? 1 (.list [.symbol Symbol.unquoteSplicing, x]) = some (true, x) := rfl
  rw [fillItemsByLevel_item, hopen]

/-- An item is filled in by the rule if it would be as the whole template, or is a hole at level
one. -/
theorem fillItems_of_followsLevels {v : Value} {level : Nat} (hv : v.Unary)
    (hown : v.FollowsLevels level → fill eval 1 v = fillByLevel eval level v)
    (h : Value.FollowsLevelsItems level [v]) :
    fillItems eval 1 [v] = fillItemsByLevel eval level [v] := by
  have h' := h.1
  rcases unary_cases hv with ⟨x, hx, rfl⟩ | ⟨splice, x, rfl⟩ | ⟨hnesting, hplain⟩
  · have hinert : Value.Inert level (.list [.symbol Symbol.quasiquote, x]) := h'
    rw [fillItems_template, (fill_deep eval hx 0).1,
      fillItemsByLevel_single (openHole?_of_inert hinert), fillByLevel_of_inert eval hinert]
    rfl
  · have hlevel : level = 1 := by cases splice <;> exact h'
    subst hlevel
    cases splice with
    | false => exact (fillItems_value x).trans (fillItemsByLevel_value x).symm
    | true => exact (fillItems_splice x).trans (fillItemsByLevel_splice x).symm
  · rw [hnesting] at h'
    rw [fillItems_plain (hplain 1), hown h',
      fillItemsByLevel_single (openHole?_of_plain hnesting level)]

theorem fillItems_eq_of_followsLevelsItems {xs : List Value} {level : Nat}
    (hxs : ∀ x ∈ xs, x.Unary ∧ (x.FollowsLevels level → fill eval 1 x = fillByLevel eval level x))
    (h : Value.FollowsLevelsItems level xs) :
    fillItems eval 1 xs = fillItemsByLevel eval level xs := by
  induction xs with
  | nil => rfl
  | cons x xs ih =>
      obtain ⟨⟨hunary, hx⟩, hxs⟩ := List.forall_mem_cons.1 hxs
      rw [fillItems_cons, fillItemsByLevel_cons,
        fillItems_of_followsLevels hunary hx ⟨h.1, trivial⟩, ih hxs h.2]

theorem fill_eq_of_followsLevels (eval : Value → Eval Value) {v : Value} {level : Nat}
    (hv : v.Unary) (h : v.FollowsLevels level) : fill eval 1 v = fillByLevel eval level v := by
  induction v using Value.induction_parts generalizing level with
  | list xs ih =>
      obtain ⟨hopen, hitems⟩ := h
      have hunary := unaryItems_iff.1 hv.2
      rw [fill_list, fillByLevel_list hopen, fillItems_eq_of_followsLevelsItems
        (fun x hx => ⟨hunary x hx, ih x hx (hunary x hx)⟩) hitems]
  | dotted xs t ih iht =>
      obtain ⟨hitems, ht⟩ := h
      have hunary := unaryItems_iff.1 hv.1
      have hrest : fillItems eval 1 xs = fillItemsByLevel eval level xs :=
        fillItems_eq_of_followsLevelsItems (fun x hx => ⟨hunary x hx, ih x hx (hunary x hx)⟩) hitems
      by_cases hhole : ∃ x, t = .list [.symbol Symbol.unquote, x]
      · obtain ⟨x, rfl⟩ := hhole
        have hlevel : level = 1 := ht
        subst hlevel
        rw [fill_dotted_value, fillByLevel_dotted, fillByLevel_unquote, hrest]
      · have hplain := ofHead_ne_value hv.2 hhole
        have htail : t.FollowsLevels level := by
          split at ht
          next hnesting => exact absurd ⟨_, hole_of_nesting hnesting⟩ hhole
          next => exact ht
        rw [fill_dotted hplain, fillByLevel_dotted, iht hv.2 htail, hrest]
  | _ => rfl

end Eval
end SlotLisp
