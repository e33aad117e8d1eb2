import SlotLisp.Proofs.Evaluation.Simulation

/-!
Evaluation with a single table of macros. In a state where functions and classes have that table
only, no evaluation asks for another one, however deeply it nests, and none brings another one in.
Calling a function through the one that calls its first argument is then calling it directly.
-/

namespace SlotLisp

def Symbol.funcall : Symbol := ⟨"funcall"⟩

namespace Eval

variable {α : Type}

/-! ## States within a set of tables -/

/-- From every state within `T`, `y` ends as `x` does and in a state within `T`, with an answer as
`Q` says. -/
def ExtendsWithin (T : MacroTableId → Prop) (α : Type) (Q : α → Prop) (x y : Eval α) : Prop :=
  ∀ s, s.Within T → ∀ r t, x.outcome s = some (r, t) →
    y.outcome s = some (r, t) ∧ t.Within T ∧ ∀ a, r = .ok a → Q a

theorem simulation_extendsWithin (T : MacroTableId → Prop) : Simulation T (ExtendsWithin T) where
  outOfFuel y s _ r t h := absurd h (by simp)
  single h s hs r t hst := ⟨hst, (h s hs r t hst).2⟩
  bind {_ _ P Q x y f g} h k s hs r u hu := by
    rw [outcome_bind] at hu ⊢
    cases hx : x.outcome s with
    | none => rw [hx] at hu; exact absurd hu (by simp)
    | some p =>
        obtain ⟨q, t⟩ := p
        rw [hx] at hu
        obtain ⟨hy, ht, hP⟩ := h s hs q t hx
        rw [hy]
        cases q with
        | ok a => exact k a (hP a rfl) t ht r u hu
        | error e =>
            obtain ⟨rfl, rfl⟩ := Prod.mk.inj (Option.some.inj hu)
            exact ⟨rfl, ht, fun _ h => absurd h (by simp)⟩

/-- Two computations of which each ends as the other does have the same outcome. -/
theorem ExtendsWithin.antisymm {T : MacroTableId → Prop} {P Q : α → Prop} {x y : Eval α}
    (h : ExtendsWithin T α P x y) (h' : ExtendsWithin T α Q y x) {s : State} (hs : s.Within T) :
    x.outcome s = y.outcome s := by
  cases hx : x.outcome s with
  | some p => exact (h s hs p.1 p.2 hx).1.symm
  | none =>
      cases hy : y.outcome s with
      | none => rfl
      | some p => exact absurd (hx.symm.trans (h' s hs p.1 p.2 hy).1) (by simp)

/-- Evaluation does not leave the states within a set of tables, and its answers are within the set
too. -/
theorem evaluate_within {T : MacroTableId → Prop} {s t : State} {form : Value} {env : FrameId}
    {macros : MacroTableId} {fuel : Nat} {r : Except Error Value} (hs : s.Within T)
    (hform : form.Within T) (hm : T macros)
    (h : (evaluate fuel form env macros).outcome s = some (r, t)) :
    t.Within T ∧ ∀ v, r = .ok v → v.Within T :=
  ((simulation_extendsWithin T).evaluate (Nat.le_refl fuel) hform env hm s hs r t h).2

end Eval

/-! ## No other table -/

/-- Evaluation with the table `m`, and whatever `other` does with all other tables. -/
def evaluateWith (m : MacroTableId) (other : Evaluator) : Nat → Evaluator
  | 0 => fun _ _ _ => Eval.outOfFuel
  | fuel + 1 => fun form env macros =>
    if macros = m then Eval.step (evaluateWith m other fuel) fuel form env macros
    else other form env macros

namespace Eval

variable {m : MacroTableId}

/-- All evaluations that a form asks for are of forms within the one table, with this table and in
states within it, so that an evaluator may do anything else elsewhere. -/
theorem outcome_step_congr {eval : Evaluator} {fuel : Nat}
    (h : ∀ (s : State) (form : Value) (env : FrameId), s.Within (· = m) → form.Within (· = m) →
      (eval form env m).outcome s = (evaluate fuel form env m).outcome s)
    {s : State} (hs : s.Within (· = m)) {form : Value} (hform : form.Within (· = m))
    (env : FrameId) :
    (step eval fuel form env m).outcome s = (evaluate (fuel + 1) form env m).outcome s := by
  have hR := simulation_extendsWithin (· = m)
  have hto : ∀ (form : Value) (env : FrameId) (macros : MacroTableId), form.Within (· = m) →
    macros = m →
      ExtendsWithin (· = m) Value (Value.Within (· = m)) (eval form env macros)
        (evaluate fuel form env macros) := by
    rintro form env macros hform rfl s hs r t hst
    rw [h s form env hs hform] at hst
    exact ⟨hst, evaluate_within hs hform rfl hst⟩
  have hfrom : ∀ (form : Value) (env : FrameId) (macros : MacroTableId), form.Within (· = m) →
    macros = m →
      ExtendsWithin (· = m) Value (Value.Within (· = m)) (evaluate fuel form env macros)
        (eval form env macros) := by
    rintro form env macros hform rfl s hs r t hst
    exact ⟨(h s form env hs hform).trans hst, evaluate_within hs hform rfl hst⟩
  exact (hR.step hto (Nat.le_refl fuel) hform env rfl).antisymm
    (hR.step hfrom (Nat.le_refl fuel) hform env rfl) hs

theorem evaluateWith_succ (m : MacroTableId) (other : Evaluator) (fuel : Nat) (form : Value)
    (env : FrameId) :
    evaluateWith m other (fuel + 1) form env m = step (evaluateWith m other fuel) fuel form env m :=
  if_pos rfl

/-- Where all functions and classes have the table `m`, it makes no difference what evaluation does
with any other table. -/
theorem outcome_evaluateWith {s : State} (hs : s.Within (· = m)) (other : Evaluator) (fuel : Nat)
    {form : Value} (hform : form.Within (· = m)) (env : FrameId) :
    (evaluateWith m other fuel form env m).outcome s = (evaluate fuel form env m).outcome s := by
  induction fuel generalizing s form env with
  | zero => rfl
  | succ fuel ih =>
      rw [evaluateWith_succ]
      exact outcome_step_congr (fun u form env hu hform => ih hu hform env) hs hform env

/-! ## Calling through a function -/

/-- A function that calls its first argument does so with the table that it has. -/
theorem apply_funcall (eval : Evaluator) (k : MacroTableId) (f : Value) (args : List Value)
    (env : FrameId) (macros : MacroTableId) :
    apply eval (.function (.funcall k)) env macros (f :: args) = apply eval f env k args := by
  rw [apply]

/-- The function that is called is evaluated first, as it is at the head of the form. -/
theorem outcome_application_funcall {s : State} {env : FrameId}
    (hbound : s.lookup? env Symbol.funcall = some (.function (.funcall m))) (fuel : Nat) (f : Value)
    (args : List Value) :
    (application (evaluate fuel) (.symbol Symbol.funcall) (f :: args) env m).outcome s =
      (application (evaluate fuel) f args env m).outcome s := by
  cases fuel with
  | zero => rfl
  | succ fuel =>
      have hhead := outcome_evaluate_symbol (by decide) hbound fuel m
      rw [application, outcome_bind_ok hhead, List.mapM_cons, application]
      simp only [bind_assoc, pure_bind, apply_funcall]

/-- A list is an application unless its head names a macro or a special form. -/
theorem outcome_evaluate_application {s : State} {f : Value}
    (hf : ∀ n, f = .symbol n → s.transformer? m n = none ∧ SpecialForm.ofSymbol? n = none)
    (fuel : Nat) (args : List Value) (env : FrameId) :
    (evaluate (fuel + 1) (.list (f :: args)) env m).outcome s =
      (application (evaluate fuel) f args env m).outcome s := by
  cases f with
  | symbol n =>
      obtain ⟨hnone, hspecial⟩ := hf n rfl
      show (symbolForm (evaluate fuel) fuel n args env m).outcome s = _
      rw [symbolForm, outcome_bind_ok (outcome_get s), hnone]
      dsimp only
      rw [hspecial]
  | _ => rfl

/-- Calling a function through `funcall` is calling it directly, with all that comes of it, provided
that `funcall` goes by the table with which the form is evaluated. -/
theorem outcome_evaluate_funcall {s : State} {env : FrameId}
    (hbound : s.lookup? env Symbol.funcall = some (.function (.funcall m)))
    (hnone : s.transformer? m Symbol.funcall = none) {f : Value}
    (hf : ∀ n, f = .symbol n → s.transformer? m n = none ∧ SpecialForm.ofSymbol? n = none)
    (args : List Value) (fuel : Nat) :
    (evaluate fuel (.list (.symbol Symbol.funcall :: f :: args)) env m).outcome s =
      (evaluate fuel (.list (f :: args)) env m).outcome s := by
  cases fuel with
  | zero => rfl
  | succ fuel =>
      have hname : ∀ n, Value.symbol Symbol.funcall = .symbol n →
          s.transformer? m n = none ∧ SpecialForm.ofSymbol? n = none := by
        rintro n h
        obtain rfl := Value.symbol.inj h
        exact ⟨hnone, by decide⟩
      rw [outcome_evaluate_application hname, outcome_application_funcall hbound,
        outcome_evaluate_application hf]

end Eval
end SlotLisp
