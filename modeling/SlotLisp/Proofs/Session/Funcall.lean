import SlotLisp.Proofs.Macros.OneTable
import SlotLisp.Proofs.Session.Classes
import SlotLisp.Proofs.Session.Uses

/-!
The macros of a session. A full session has one table of macros, and nothing that it evaluates ever
goes by another one: functions that call their first argument, classes that evaluate defaults and
macros that evaluate bodies all have this table. Calling a function through `funcall` is therefore
calling it directly.
-/

namespace SlotLisp
namespace Session

open Eval

/-! ## States of a session with one table -/

/-- A new session with the macros `m`, in a process and for a selection that hold no function with
others. -/
structure Owns (settings : Settings) (selection : Option Selection) (m : MacroTableId) : Prop where
  macros : (full (State.start settings) selection).2.macros = some m
  policies : settings.All (Leaf.Within (· = m))
  selectors : ∀ c ∈ selection, c.initform.Within (· = m) ∧ c.type.Within (· = m)

/-- One use of a session from outside, or of the evaluator in any of its frames, with the macros
`m`. Values that come from outside hold no function with others. -/
inductive OwnStep (x : Session) (m : MacroTableId) (s : State) : State → Prop
  | text {fuel : Nat} {text : String} {r : Except Error Value} {t : State}
      (h : (x.evalText fuel text).outcome s = some (r, t)) : OwnStep x m s t
  | form {fuel : Nat} {form : Value} {r : Except Error Value} {t : State}
      (hform : form.Within (· = m))
      (h : (x.evalForm fuel form).outcome s = some (r, t)) : OwnStep x m s t
  | evaluation {fuel : Nat} {form : Value} {env : FrameId} {r : Except Error Value} {t : State}
      (hform : form.Within (· = m)) (h : (evaluate fuel form env m).outcome s = some (r, t)) :
      OwnStep x m s t
  | defineClass {fuel : Nat} {name bases slots options : Value} {selection : Option Selection}
      {r : Except Error Value} {t : State} (hname : name.Within (· = m))
      (hbases : bases.Within (· = m))
      (hslots : slots.Within (· = m)) (hoptions : options.Within (· = m))
      (h : (x.defineClass fuel name bases slots options selection).outcome s = some (r, t)) :
        OwnStep x m s t

inductive OwnState (settings : Settings) (selection : Option Selection) (m : MacroTableId) :
    State → Prop
  | start : OwnState settings selection m (full (State.start settings) selection).1
  | step {s t : State} (hs : OwnState settings selection m s)
      (h : OwnStep (full (State.start settings) selection).2 m s t) :
      OwnState settings selection m t

variable {settings : Settings} {selection : Option Selection} {m : MacroTableId} {s t : State}

theorem OwnState.afterText (hs : OwnState settings selection m s) (fuel : Nat) (text : String) :
    OwnState settings selection m
      ((full (State.start settings) selection).2.afterText fuel s text) := by
  unfold Session.afterText
  cases h : ((full (State.start settings) selection).2.evalText fuel text).outcome s with
  | none => exact hs
  | some r => exact hs.step (.text h)

theorem owns_standard : Owns Settings.standard none 0 :=
  ⟨rfl, fun v hv => absurd hv (by simp [Settings.standard]), by simp⟩

theorem OwnStep.within {x : Session} (hx : x.macros = some m) (h : OwnStep x m s t)
    (hs : s.Within (· = m)) :
    t.Within (· = m) := by
  have hR := simulation_extendsWithin (· = m)
  have htable : ExtendsWithin (· = m) MacroTableId (· = m) x.tableForForm x.tableForForm := by
    rw [tableForForm, hx]
    exact hR.pure rfl
  cases h with
  | text h => exact (simulation_evalText hR htable _ _ s hs _ t h).2.1
  | form hform h => exact (simulation_evalForm hR htable _ hform s hs _ t h).2.1
  | evaluation hform h => exact (evaluate_within hs hform rfl h).1
  | defineClass hname hbases hslots hoptions h =>
      exact (simulation_defineClass hR htable _ _ hname hbases hslots hoptions s hs _ t h).2.1

/-! ## The start -/

variable {T : MacroTableId → Prop}

theorem within_start (h : settings.All (Leaf.Within T)) : (State.start settings).Within T where
  settings := h
  vars f e he := absurd he List.not_mem_nil
  classes c k hk := absurd hk (by simp [State.start])
  instances i x hx := absurd hx (by simp [State.start])
  transformers m e he := absurd he List.not_mem_nil

theorem full_macros (s : State) (selection : Option Selection) :
    (full s selection).2.macros = some s.macroTables.size := by
  rw [full_eq]

/-- A new session brings its own table in, and no other. -/
theorem within_full (hs : s.Within T) (hm : T s.macroTables.size)
    (hsel : ∀ c ∈ selection, c.initform.Within T ∧ c.type.Within T) :
    (full s selection).1.Within T := by
  rw [full_eq]
  extract_lets k u v
  have hu : u.Within T := List.foldlRecOn standardMacros.entries _ hs.addMacroTable fun w hw e he =>
    hw.defineTransformer k e.1 (forall_standardMacros trivial trivial trivial e he)
  have hv : v.Within T := List.foldlRecOn (builtinBindings k) _ hu.rootFrame fun w hw b hb =>
    hw.define _ b.1 (all_builtinBindings (fun _ => trivial) hm b hb)
  have hchosen : (selection.getD (Selection.ofSettings v.settings)).initform.Within T ∧
      (selection.getD (Selection.ofSettings v.settings)).type.Within T := by
    cases selection with
    | none => exact all_ofSettings v.settings
    | some c => exact hsel c rfl
  exact (hv.define _ _ hchosen.1).define _ _ hchosen.2

theorem OwnState.within (hown : Owns settings selection m) (hs : OwnState settings selection m s) :
    s.Within (· = m) := by
  induction hs with
  | start =>
      have hm := hown.macros
      rw [full_macros] at hm
      exact within_full (within_start hown.policies) (Option.some.inj hm) hown.selectors
  | step _ h ih => exact h.within hown.macros ih

/-! ## Direct calls -/

structure CallsAgree (m : MacroTableId) (s : State) : Prop where
  /-- No evaluation asks for another table, so that it makes no difference what would be done with
  one. -/
  oneTable (other : Evaluator) (fuel : Nat) (form : Value) (env : FrameId) : form.Within (· = m) →
    (evaluateWith m other fuel form env m).outcome s = (evaluate fuel form env m).outcome s
  /-- Nor does any evaluation bring another table in. -/
  kept (fuel : Nat) (form : Value) (env : FrameId) (r : Except Error Value) (t : State) :
    form.Within (· = m) →
    (evaluate fuel form env m).outcome s = some (r, t) → t.Within (· = m)
  /-- A function that is called through `funcall` gives what it gives when it is called directly. -/
  funcall (env : FrameId) (k : MacroTableId) (f : Value) (args : List Value) (fuel : Nat) :
    s.lookup? env Symbol.funcall = some (.function (.funcall k)) →
    s.transformer? m Symbol.funcall = none →
    (∀ n, f = .symbol n → s.transformer? m n = none ∧ SpecialForm.ofSymbol? n = none) →
    (evaluate fuel (.list (.symbol Symbol.funcall :: f :: args)) env m).outcome s =
      (evaluate fuel (.list (f :: args)) env m).outcome s

theorem callsAgree_of_within (hs : s.Within (· = m)) : CallsAgree m s where
  oneTable other fuel _ env hform := outcome_evaluateWith hs other fuel hform env
  kept _ _ _ _ _ hform h := (evaluate_within hs hform rfl h).1
  funcall env k f args fuel hbound hnone hf := by
    obtain rfl : k = m := hs.lookup? hbound
    exact outcome_evaluate_funcall hbound hnone hf args fuel

/-- In every state of a session, and in every other state that has no table but that of the session,
as evaluation comes to, all evaluation goes by that table, and calling a function through `funcall`,
where this still is what the session has bound it to, is calling it directly. -/
theorem OwnState.callsAgree (hown : Owns settings selection m)
    (hs : OwnState settings selection m s) :
    s.Within (· = m) ∧ ∀ u : State, u.Within (· = m) → CallsAgree m u :=
  ⟨hs.within hown, fun _ hu => callsAgree_of_within hu⟩

/-- A macro that is defined after the builtin functions are bound, and called in the body of a
function. -/
theorem OwnState.callsAgree_macroInBody :
    let s := (full (State.start Settings.standard) none).2.afterText 2
      (full (State.start Settings.standard) none).1 "(defmacro double (x) `(* 2 ,x))"
    let f := (Form.ofText "(lambda (n) (double n))").1.headD .nil
    Owns Settings.standard none 0 ∧ OwnState Settings.standard none 0 s ∧
      (s.transformer? 0 ⟨"double"⟩).isSome ∧ (s.transformer? 0 Symbol.funcall).isNone ∧
      s.lookup? 0 Symbol.funcall = some (.function (.funcall 0)) ∧
      (f.items?.map List.length) = some 3 ∧
      ∀ fuel : Nat, (evaluate fuel (.list [.symbol Symbol.funcall, f, .int 21]) 0 0).outcome s =
        (evaluate fuel (.list [f, .int 21]) 0 0).outcome s := by
  intro s f
  have hs : OwnState Settings.standard none 0 s := OwnState.start.afterText 2 _
  have hmacros : (s.transformer? 0 ⟨"double"⟩).isSome ∧
      (s.transformer? 0 Symbol.funcall).isNone := by
    decide +kernel
  have hfunction : (s.lookup? 0 Symbol.funcall).bind Value.isFunction? = some (.funcall 0) := by
    decide +kernel
  have hlist : (f.items?.map List.length) = some 3 := by decide +kernel
  obtain ⟨hwithin, hagree⟩ := OwnState.callsAgree owns_standard hs
  clear_value s f
  obtain ⟨v, hv, hfunction⟩ := Option.bind_eq_some_iff.1 hfunction
  obtain rfl := Value.eq_of_isFunction? hfunction
  refine ⟨owns_standard, hs, hmacros.1, hmacros.2, hv, hlist, fun fuel => ?_⟩
  refine (hagree s hwithin).funcall 0 0 f [.int 21] fuel hv
    (Option.isNone_iff_eq_none.1 hmacros.2) ?_
  rintro n rfl
  exact absurd hlist (by simp [Value.items?])

end Session
end SlotLisp
