import SlotLisp.Eval.Evaluate

/-!
The outcomes of computations by the way they are put together. These are the only facts about the
monad that the rest uses. With them come the outcomes of the computations that every form takes:
looking a symbol up and binding it.
-/

namespace SlotLisp
namespace Eval

variable {α β : Type}

@[simp] theorem outcome_pure (a : α) (s : State) :
    outcome (pure a) s = some (.ok a, s) := rfl

@[simp] theorem outcome_throw (e : Error) (s : State) :
    outcome (throw e : Eval α) s = some (.error e, s) := rfl

@[simp] theorem outcome_outOfFuel (s : State) : outcome (outOfFuel : Eval α) s = none := rfl

@[simp] theorem outcome_fault (f : Fault) (s : State) :
    outcome (fault f : Eval α) s = some (.error (.fault f), s) := rfl

@[simp] theorem outcome_get (s : State) : outcome (get : Eval State) s = some (.ok s, s) := rfl

@[simp] theorem outcome_set (t s : State) : outcome (set t : Eval PUnit) s = some (.ok ⟨⟩, t) := rfl

@[simp] theorem outcome_update (f : State → State) (s : State) :
    outcome (update f) s = some (.ok ⟨⟩, f s) := rfl

@[simp] theorem outcome_create (f : State → State × α) (s : State) :
    outcome (create f) s = some (.ok (f s).2, (f s).1) := rfl

/-- An error ends the whole computation in the state in which it came up. -/
theorem outcome_bind (x : Eval α) (f : α → Eval β) (s : State) :
    outcome (x >>= f) s =
      match outcome x s with
      | none => none
      | some (.ok a, t) => outcome (f a) t
      | some (.error e, t) => some (.error e, t) := by
  show (x s).bind _ = _
  rw [outcome]
  cases x s with
  | none => rfl
  | some r =>
      obtain ⟨_ | _, t⟩ := r
      · rfl
      · rfl

@[simp] theorem outcome_ofExcept (x : Except Error α) (s : State) :
    outcome (ofExcept x) s = some (x, s) := by
  cases x <;> rfl

@[simp] theorem outcome_ask (f : State → Except Error α) (s : State) :
    outcome (ask f) s = some (f s, s) := by
  rw [ask, outcome_bind, outcome_get]
  cases h : f s <;> simp [h]

/-- A computation that has come to an answer in state `t` goes on from there. -/
theorem outcome_bind_ok {x : Eval α} {s t : State} {a : α} (h : outcome x s = some (.ok a, t))
    (f : α → Eval β) : outcome (x >>= f) s = outcome (f a) t := by
  rw [outcome_bind, h]

theorem outcome_bind_error {x : Eval α} {s t : State} {e : Error}
    (h : outcome x s = some (.error e, t)) (f : α → Eval β) :
    outcome (x >>= f) s = some (.error e, t) := by
  rw [outcome_bind, h]

/-- What comes to an answer has come through all of its parts. -/
theorem outcome_bind_eq_ok {x : Eval α} {f : α → Eval β} {s u : State} {b : β}
    (h : outcome (x >>= f) s = some (.ok b, u)) :
    ∃ a t, outcome x s = some (.ok a, t) ∧ outcome (f a) t = some (.ok b, u) := by
  rw [outcome_bind] at h
  cases hx : outcome x s with
  | none => rw [hx] at h; exact absurd h (by simp)
  | some p =>
      obtain ⟨e | a, t⟩ := p
      · rw [hx] at h
        exact absurd h (by simp)
      · rw [hx] at h
        exact ⟨a, t, rfl, h⟩

/-- An answer that is given at once is given in the state as it is. -/
theorem outcome_pure_eq_ok {a b : α} {s t : State} (h : outcome (pure a) s = some (.ok b, t)) :
    a = b ∧ s = t := by
  obtain ⟨hab, hst⟩ := Prod.mk.inj (Option.some.inj h)
  exact ⟨Except.ok.inj hab, hst⟩

end Eval

/-! ## Variables -/

theorem State.lookup_of_bound {s : State} {f : FrameId} {n : Symbol} {v : Value}
    (h : s.lookup? f n = some v) : s.lookup f (.symbol n) = .ok v := by
  have hfind : nameToFind (.symbol n) = .ok (some n) := rfl
  rw [State.lookup, hfind]
  simp only [bind, Except.bind, Option.bind_some, h]
  rfl

namespace Eval

theorem outcome_define (f : FrameId) (n : Symbol) (v : Value) (s : State) :
    (define f (.symbol n) v).outcome s = some (.ok ⟨⟩, s.define f n v) := rfl

/-- A symbol that is bound and does not stand for itself has the value that it is bound to. -/
theorem outcome_evaluate_symbol {s : State} {f : FrameId} {n : Symbol} {v : Value}
    (hself : n.selfEvaluating = false) (h : s.lookup? f n = some v) (fuel : Nat)
    (macros : MacroTableId) :
    (evaluate (fuel + 1) (.symbol n) f macros).outcome s = some (.ok v, s) := by
  show (if n.selfEvaluating then pure (.symbol n) else lookup f (.symbol n)).outcome s = _
  rw [hself, if_neg (by simp), lookup, outcome_ask, State.lookup_of_bound h]

end Eval
end SlotLisp
