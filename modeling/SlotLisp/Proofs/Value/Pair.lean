import SlotLisp.Proofs.Evaluation.Outcome
import SlotLisp.Session

/-!
Lists as chains of pairs. One chain can be written in several ways, since a dotted list may have a
list or another dotted list as its tail. What is made of an item and a tail has that item and that
tail again; what is made of the item and the tail of a list is the same chain of pairs, but not
always the same writing of it.
-/

namespace SlotLisp
namespace Value

/-- The items of a chain of pairs, and what stands at its end. A dotted list goes on in its tail. -/
def spine : Value → List Value × Value
  | .list xs => (xs, .nil)
  | .vector xs => (xs, .nil)
  | .dotted xs t => (xs ++ t.spine.1, t.spine.2)
  | v => ([], v)
termination_by structural v => v

def joins : Value → Bool
  | .nil => true
  | .list _ => true
  | .vector _ => true
  | _ => false

/-- The value as it is found behind an item: nothing is `nil`, and a vector has become a list. -/
def asTail : Value → Value
  | .list [] => .nil
  | .vector [] => .nil
  | .vector xs => .list xs
  | v => v

theorem car_cons (a d : Value) : (a.cons d).car = .ok a := by
  cases d <;> rfl

theorem cdr_cons (a d : Value) : (a.cons d).cdr = .ok d.asTail := by
  cases d with
  | list xs => cases xs <;> rfl
  | vector xs => cases xs <;> rfl
  | _ => rfl

/-- It makes no difference to an item in front how nothing is written, nor whether items are a
vector. -/
theorem cons_asTail (a d : Value) : a.cons d.asTail = a.cons d := by
  cases d with
  | list xs => cases xs <;> rfl
  | vector xs => cases xs <;> rfl
  | _ => rfl

theorem exists_cons_eq_list {d : Value} (h : d.joins = true) (a : Value) :
    ∃ xs, a.cons d = .list xs := by
  cases d with
  | nil => exact ⟨[a], rfl⟩
  | list xs => exact ⟨a :: xs, rfl⟩
  | vector xs => exact ⟨a :: xs, rfl⟩
  | _ => exact Bool.noConfusion h

theorem cons_of_not_joins {d : Value} (h : d.joins = false) (a : Value) :
    a.cons d = .dotted [a] d := by
  cases d with
  | nil => exact Bool.noConfusion h
  | list xs => exact Bool.noConfusion h
  | vector xs => exact Bool.noConfusion h
  | _ => rfl

/-- The item in front of a chain is the first one of the longer chain. -/
theorem spine_cons (a d : Value) : (a.cons d).spine = (a :: d.spine.1, d.spine.2) := by
  cases d <;> rfl

theorem cdr_list (a : Value) (xs : List Value) :
    (Value.list (a :: xs)).cdr = .ok (Value.list xs).asTail := by
  cases xs <;> rfl

theorem equal_list_dotted (s : State) (xs ys : List Value) (t : Value) :
    s.equal (.list xs) (.dotted ys t) = false := rfl

/-- Dotted lists of different lengths are not equal, whatever their tails are. -/
theorem equal_dotted_longer (s : State) (a b : Value) (xs : List Value) (t u : Value) :
    s.equal (.dotted [a] t) (.dotted (a :: b :: xs) u) = false := by
  simp [State.equal, equalBy, itemsEqualBy]

end Value

namespace State

def Gives (s : State) (eval : Evaluator) (env : FrameId) (b : Builtin) (args : List Value)
    (v : Value) : Prop :=
  (Eval.callBuiltin eval b args env).outcome s = some (.ok v, s)

variable {s : State} {eval : Evaluator} {env : FrameId}

theorem gives_cons (a d : Value) : s.Gives eval env .cons [a, d] (a.cons d) := rfl

theorem gives_car {v w : Value} (h : v.car = .ok w) : s.Gives eval env .car [v] w := by
  show (Eval.ofFault v.car).outcome s = _
  rw [h]
  rfl

theorem gives_cdr {v w : Value} (h : v.cdr = .ok w) : s.Gives eval env .cdr [v] w := by
  show (Eval.ofFault v.cdr).outcome s = _
  rw [h]
  rfl

/-- The first item of a dotted list and what is behind it make the same chain of pairs. They make
the same dotted list, or an equal value at all, only if there is nothing else than the first item in
front of the dot and the tail is not one that an item can join. -/
theorem gives_pair_dotted (a : Value) (xs : List Value) (t : Value) :
    ∃ d y, s.Gives eval env .car [.dotted (a :: xs) t] a ∧
    s.Gives eval env .cdr [.dotted (a :: xs) t] d ∧
      s.Gives eval env .cons [a, d] y ∧ y.spine = (Value.dotted (a :: xs) t).spine ∧
      if xs.isEmpty && !t.joins then y = .dotted (a :: xs) t
        else s.equal y (.dotted (a :: xs) t) = false := by
  cases xs with
  | nil =>
      refine ⟨t, a.cons t, gives_car rfl, gives_cdr rfl, gives_cons a t, Value.spine_cons a t, ?_⟩
      cases hjoins : t.joins with
      | false => exact Value.cons_of_not_joins hjoins a
      | true =>
          obtain ⟨ys, hys⟩ := Value.exists_cons_eq_list hjoins a
          rw [hys]
          exact Value.equal_list_dotted s ys [a] t
  | cons b xs =>
      refine ⟨.dotted (b :: xs) t, a.cons (.dotted (b :: xs) t), gives_car rfl, gives_cdr rfl,
        gives_cons _ _,
        Value.spine_cons _ _, ?_⟩
      exact Value.equal_dotted_longer s a b xs _ t

/-- Whatever an item is put in front of, the item and what is behind it are found again, where
nothing counts as `nil` and a vector as the list of its items. The first item of a list and what is
behind it make the same list again. Those of a dotted list make the same chain of pairs, which is
written in the same way exactly if the dotted list has one item and a tail that is neither `nil` nor
a list nor a vector, and is no equal value otherwise. -/
theorem pairs_taken_apart (s : State) (eval : Evaluator) (env : FrameId) :
    (∀ a d, ∃ p, s.Gives eval env .cons [a, d] p ∧ p.spine = (a :: d.spine.1, d.spine.2) ∧
      s.Gives eval env .car [p] a ∧ s.Gives eval env .cdr [p] d.asTail) ∧
    (∀ a xs, ∃ d, s.Gives eval env .car [.list (a :: xs)] a ∧
      s.Gives eval env .cdr [.list (a :: xs)] d ∧
      s.Gives eval env .cons [a, d] (.list (a :: xs))) ∧
    ∀ a xs t, ∃ d y, s.Gives eval env .car [.dotted (a :: xs) t] a ∧
    s.Gives eval env .cdr [.dotted (a :: xs) t] d ∧
      s.Gives eval env .cons [a, d] y ∧ y.spine = (Value.dotted (a :: xs) t).spine ∧
      if xs.isEmpty && !t.joins then y = .dotted (a :: xs) t
        else s.equal y (.dotted (a :: xs) t) = false := by
  refine ⟨fun a d => ?_, fun a xs => ?_, gives_pair_dotted⟩
  · exact ⟨a.cons d, gives_cons a d, Value.spine_cons a d, gives_car (Value.car_cons a d),
      gives_cdr (Value.cdr_cons a d)⟩
  · refine ⟨_, gives_car rfl, gives_cdr (Value.cdr_list a xs), ?_⟩
    have hcons : s.Gives eval env .cons [a, (Value.list xs).asTail]
      (a.cons (Value.list xs).asTail) := gives_cons a _
    rwa [Value.cons_asTail] at hcons

/-- A dotted list of two items: what comes of its first item and what is behind it is a dotted list
in the tail of another one, and not equal to it. -/
theorem not_put_together_dotted :
    let s := (Session.full (State.start Settings.standard) none).1
    let x : Value := .dotted [.int 1, .int 2] (.int 3)
    let y : Value := .dotted [.int 1] (.dotted [.int 2] (.int 3))
    s.Gives (evaluate 0) 0 .car [x] (.int 1) ∧
    s.Gives (evaluate 0) 0 .cdr [x] (.dotted [.int 2] (.int 3)) ∧
      s.Gives (evaluate 0) 0 .cons [.int 1, .dotted [.int 2] (.int 3)] y ∧ y ≠ x ∧
      s.Gives (evaluate 0) 0 .equals [y, x] (.ofBool false) :=
  ⟨rfl, rfl, rfl, by simp, rfl⟩

end State
end SlotLisp
