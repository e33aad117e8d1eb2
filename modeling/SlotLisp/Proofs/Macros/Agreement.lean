import SlotLisp.Proofs.Evaluation.Fuel
import SlotLisp.Proofs.Session.Reachable
import Mathlib.Logic.Relation

/-!
What the macro expander and the evaluator take for a macro call. The evaluator's calls are lists
that begin with the name of a macro; the expander takes a vector for a call as well. As long as
expansion meets no such vector the two agree: evaluating a form is expanding its head and evaluating
what comes of it.
-/

namespace SlotLisp

open Relation

namespace State

/-- A list that begins with the name of a macro, which is what the evaluator expands. -/
def IsCall (s : State) (macros : MacroTableId) (form : Value) : Prop :=
  ∃ n args, form = .list (.symbol n :: args) ∧ (s.transformer? macros n).isSome

/-- A vector that begins with the name of a macro. For the evaluator it is a value like any
other. -/
def IsVectorCall (s : State) (macros : MacroTableId) (form : Value) : Prop :=
  ∃ n args, form = .vector (.symbol n :: args) ∧ (s.transformer? macros n).isSome

def HeadExpands (s : State) (env : FrameId) (macros : MacroTableId) (form : Value)
    (r : Except Error Value) (t : State) : Prop :=
  ∃ fuel n, (Eval.expandHead (evaluate fuel) env macros n form).outcome s = some (r, t)

inductive HeadStep (env : FrameId) (macros : MacroTableId) : State × Value → State × Value → Prop
  | call {s t : State} {form next : Value} {x : Transformer} {args : List Value} {fuel : Nat}
      (hcall : s.macroCall? macros form = some (x, args))
      (h : (Eval.transform (evaluate fuel) x args env macros).outcome s = some (.ok next, t)) :
      HeadStep env macros (s, form) (t, next)

def ExpandsLists (s : State) (env : FrameId) (macros : MacroTableId) (form : Value) : Prop :=
  ∀ p, ReflTransGen (HeadStep env macros) (s, form) p → ¬ p.1.IsVectorCall macros p.2

variable {s t : State} {env : FrameId} {macros : MacroTableId} {form next : Value} {x : Transformer}
  {args : List Value} {fuel : Nat}

/-! ## Calls -/

theorem macroCall?_isSome_iff :
    (s.macroCall? macros form).isSome ↔ s.IsCall macros form ∨ s.IsVectorCall macros form := by
  constructor
  · intro h
    unfold macroCall? at h
    split at h
    next n args hitems =>
      rw [Option.isSome_map] at h
      cases form with
      | list xs => exact .inl ⟨n, args, congrArg Value.list (Option.some.inj hitems), h⟩
      | vector xs => exact .inr ⟨n, args, congrArg Value.vector (Option.some.inj hitems), h⟩
      | _ => exact absurd hitems (by simp [Value.items?])
    next => exact absurd h (by simp)
  · rintro (⟨n, args, rfl, h⟩ | ⟨n, args, rfl, h⟩)
    · exact Option.isSome_map.trans h
    · exact Option.isSome_map.trans h

theorem IsCall.not_isVectorCall (h : s.IsCall macros form) : ¬ s.IsVectorCall macros form := by
  obtain ⟨n, args, rfl, -⟩ := h
  rintro ⟨m, others, hvector, -⟩
  exact absurd hvector (by simp)

/-- The expander takes for a call what the evaluator does exactly on forms that are no vectors with
the name of a macro in front. -/
theorem macroCall?_agrees_iff :
    ((s.macroCall? macros form).isSome ↔ s.IsCall macros form) ↔ ¬ s.IsVectorCall macros form := by
  rw [macroCall?_isSome_iff]
  constructor
  · intro h hvector
    exact (h.1 (.inr hvector)).not_isVectorCall hvector
  · intro hvector
    exact ⟨fun h => h.resolve_right hvector, .inl⟩

theorem IsCall.macroCall? (h : s.IsCall macros form) :
    ∃ x args, s.macroCall? macros form = some (x, args) := by
  obtain ⟨p, hp⟩ := Option.isSome_iff_exists.1 (macroCall?_isSome_iff.2 (.inl h))
  exact ⟨p.1, p.2, hp⟩

/-- A call stays one. -/
theorem IsCall.later (h : s.IsCall macros form) (hkeeps : s.KeepsMacros t) :
    t.IsCall macros form := by
  obtain ⟨n, args, hform, hsome⟩ := h
  exact ⟨n, args, hform, hkeeps macros n hsome⟩

theorem expandsLists_of_none (h : s.macroCall? macros form = none) (env : FrameId) :
    s.ExpandsLists env macros form := by
  intro p hp
  obtain rfl : p = (s, form) := by
    rcases hp.cases_head with rfl | ⟨q, hq, -⟩
    · rfl
    · cases hq with
      | call hcall => exact absurd (h.symm.trans hcall) (by simp)
  intro hvector
  have hsome := macroCall?_isSome_iff.2 (.inr hvector)
  rw [h] at hsome
  exact absurd hsome (by simp)

theorem IsCall.expandsLists (h : s.IsCall macros form)
    (hcall : s.macroCall? macros form = some (x, args))
    (hnext : (Eval.transform (evaluate fuel) x args env macros).outcome s = some (.ok next, t))
    (ht : t.ExpandsLists env macros next) : s.ExpandsLists env macros form := by
  intro p hp
  rcases hp.cases_head with rfl | ⟨q, hq, hp⟩
  · exact h.not_isVectorCall
  · cases hq with
    | call hcall' hnext' =>
        obtain ⟨rfl, rfl⟩ := Prod.mk.inj (Option.some.inj (hcall.symm.trans hcall'))
        -- Whatever fuel a step takes, it leads to the same form.
        have hsame := Eval.outcome_unique
          (fun hle => Eval.transform_extends hle x args env macros) hnext hnext'
        obtain ⟨hform, rfl⟩ := Prod.mk.inj hsame
        obtain rfl := Except.ok.inj hform
        exact ht p hp

theorem ExpandsLists.of_step (h : s.ExpandsLists env macros form)
    (hcall : s.macroCall? macros form = some (x, args))
    (hnext : (Eval.transform (evaluate fuel) x args env macros).outcome s = some (.ok next, t)) :
    t.ExpandsLists env macros next :=
  fun p hp => h p (.head (.call hcall hnext) hp)

end State

namespace Eval

variable {s t : State} {env : FrameId} {macros : MacroTableId} {form : Value} {x : Transformer}
  {args : List Value}

open State

def plainStep (eval : Evaluator) (fuel : Nat) : Evaluator := fun form env macros =>
  match form with
  | .list (.symbol head :: args) =>
    match SpecialForm.ofSymbol? head with
    | some form => special eval fuel form args env macros
    | none => application eval (.symbol head) args env macros
  | form => step eval fuel form env macros

theorem outcome_expandOnce_call (h : s.macroCall? macros form = some (x, args)) (eval : Evaluator)
    (env : FrameId) :
    (expandOnce eval form env macros).outcome s = (transform eval x args env macros).outcome s := by
  rw [expandOnce, outcome_bind_ok (outcome_get s), h]

theorem outcome_expandOnce_other (h : s.macroCall? macros form = none) (eval : Evaluator)
    (env : FrameId) : (expandOnce eval form env macros).outcome s = some (.ok form, s) := by
  rw [expandOnce, outcome_bind_ok (outcome_get s), h]
  rfl

/-! ## One step -/

theorem outcome_evaluate_call (h : s.IsCall macros form) (fuel : Nat) (env : FrameId) :
    (evaluate (fuel + 1) form env macros).outcome s =
      (expandOnce (evaluate fuel) form env macros >>= fun next =>
        evaluate fuel next env macros).outcome s := by
  obtain ⟨n, args, rfl, hsome⟩ := h
  obtain ⟨x, hx⟩ := Option.isSome_iff_exists.1 hsome
  have hcall : s.macroCall? macros (.list (.symbol n :: args)) = some (x, args) := by
    show (s.transformer? macros n).map _ = _
    rw [hx]
    rfl
  show (symbolForm (evaluate fuel) fuel n args env macros).outcome s = _
  rw [symbolForm, outcome_bind_ok (outcome_get s), hx, outcome_bind, outcome_bind,
    outcome_expandOnce_call hcall]

theorem outcome_evaluate_other (h : ¬ s.IsCall macros form) (fuel : Nat) (env : FrameId) :
    (evaluate (fuel + 1) form env macros).outcome s =
      (plainStep (evaluate fuel) fuel form env macros).outcome s := by
  show (step (evaluate fuel) fuel form env macros).outcome s = _
  unfold plainStep
  split
  next head args =>
    have hnone : s.transformer? macros head = none := by
      rw [← Option.not_isSome_iff_eq_none]
      exact fun hsome => h ⟨head, args, rfl, hsome⟩
    show (symbolForm (evaluate fuel) fuel head args env macros).outcome s = _
    refine (outcome_bind_ok (outcome_get s) _).trans ?_
    split
    next x hx => exact absurd (hnone.symm.trans hx) (by simp)
    next => rfl
  next => rfl

/-- A call is evaluated as what its macro makes of it. -/
theorem evaluates_call_iff {next : Value} {n : Nat} (h : s.IsCall macros form)
    (hcall : s.macroCall? macros form = some (x, args))
    (hnext : (transform (evaluate n) x args env macros).outcome s = some (.ok next, t))
    (q : Except Error Value) (u : State) :
    s.Evaluates env macros form q u ↔ t.Evaluates env macros next q u := by
  constructor
  · rintro ⟨_ | fuel, hfuel⟩
    · exact absurd hfuel (by simp [evaluate])
    · rw [outcome_evaluate_call h, outcome_bind, outcome_expandOnce_call hcall] at hfuel
      cases hx : (transform (evaluate fuel) x args env macros).outcome s with
      | none => rw [hx] at hfuel; exact absurd hfuel (by simp)
      | some p =>
          -- What the macro makes of the call does not depend on the fuel.
          obtain rfl := outcome_unique (fun hle => transform_extends hle x args env macros) hx hnext
          rw [hx] at hfuel
          exact ⟨fuel, hfuel⟩
  · rintro ⟨fuel, hfuel⟩
    have hx := transform_extends (Nat.le_max_left n fuel) x args env macros s _ hnext
    have hlast := evaluate_extends (Nat.le_max_right n fuel) next env macros t _ hfuel
    refine ⟨max n fuel + 1, ?_⟩
    rw [outcome_evaluate_call h, outcome_bind, outcome_expandOnce_call hcall, hx]
    exact hlast

/-! ## The whole expansion of a head -/

/-- A step of expansion leaves what is no call as it is, and makes of a call what its macro makes of
it. -/
theorem expandOnce_eq_ok {eval : Evaluator} {next : Value}
    (h : (expandOnce eval form env macros).outcome s = some (.ok next, t)) :
    (s.macroCall? macros form = none ∧ next = form ∧ t = s) ∨
      ∃ x args, s.macroCall? macros form = some (x, args) ∧
        (transform eval x args env macros).outcome s = some (.ok next, t) := by
  cases hcall : s.macroCall? macros form with
  | none =>
      rw [outcome_expandOnce_other hcall] at h
      obtain ⟨hnext, rfl⟩ := Prod.mk.inj (Option.some.inj h)
      exact .inl ⟨rfl, (Except.ok.inj hnext).symm, rfl⟩
  | some p =>
      rw [outcome_expandOnce_call hcall] at h
      exact .inr ⟨p.1, p.2, rfl, h⟩

/-- The expansion of a head takes a step and stops at the form if that is equal to it, or goes
on. -/
theorem expandHead_eq_ok {eval : Evaluator} {n : Nat} {r : Value} {u : State}
    (h : (expandHead eval env macros (n + 1) form).outcome s = some (.ok r, u)) :
    ∃ next t, (expandOnce eval form env macros).outcome s = some (.ok next, t) ∧
      (t.equal next form = true ∧ r = form ∧ u = t ∨
        t.equal next form = false ∧ (expandHead eval env macros n next).outcome t =
          some (.ok r, u)) := by
  rw [expandHead] at h
  obtain ⟨next, t, hnext, h⟩ := outcome_bind_eq_ok h
  refine ⟨next, t, hnext, ?_⟩
  rw [outcome_bind_ok (outcome_get t)] at h
  split at h
  next hequal =>
    obtain ⟨hr, rfl⟩ := Prod.mk.inj (Option.some.inj h)
    exact .inl ⟨hequal, (Except.ok.inj hr).symm, rfl⟩
  next hequal => exact .inr ⟨eq_false_of_ne_true hequal, h⟩

theorem evaluates_expandHead_iff {fuel n : Nat} {r : Value}
    (h : (expandHead (evaluate fuel) env macros n form).outcome s = some (.ok r, t))
    (hr : ¬ t.IsCall macros r) (hlists : s.ExpandsLists env macros form) (q : Except Error Value)
    (u : State) : s.Evaluates env macros form q u ↔ t.Evaluates env macros r q u := by
  induction n generalizing s form with
  | zero => exact absurd h (by simp [expandHead])
  | succ n ih =>
      obtain ⟨next, t', hstep, hrest⟩ := expandHead_eq_ok h
      rcases expandOnce_eq_ok hstep with ⟨hcall, rfl, rfl⟩ | ⟨x, args, hcall, hnext⟩
      · rcases hrest with ⟨-, rfl, rfl⟩ | ⟨-, hrest⟩
        · exact Iff.rfl
        · exact ih hrest hlists
      · have hform : s.IsCall macros form :=
          (macroCall?_isSome_iff.1 (hcall ▸ rfl)).resolve_right (hlists _ .refl)
        rcases hrest with ⟨-, rfl, rfl⟩ | ⟨-, hrest⟩
        · -- A step that leaves a call as it was would make the call the result.
          exact absurd (hform.later (transform_keepsMacros fuel hnext)) hr
        · exact (evaluates_call_iff hform hcall hnext q u).trans
            (ih hrest (hlists.of_step hcall hnext))

end Eval

namespace State

variable {s : State} {macros : MacroTableId}

/-- The expander and the evaluator take the same forms for macro calls, but for vectors that begin
with the name of a macro. A form on which they agree is expanded and evaluated further, or evaluated
without any macro; and evaluating a form whose expansion comes to no such vector comes to the same
end, in the same state, as expanding its head and then evaluating the result. -/
theorem expansion_agrees_iff (env : FrameId) (macros : MacroTableId) (form : Value) :
    (((s.macroCall? macros form).isSome ↔ s.IsCall macros form) ↔ ¬ s.IsVectorCall macros form) ∧
    (∀ fuel, s.IsCall macros form →
      (evaluate (fuel + 1) form env macros).outcome s =
        (Eval.expandOnce (evaluate fuel) form env macros >>= fun next =>
          evaluate fuel next env macros).outcome s) ∧
    (∀ fuel, ¬ s.IsCall macros form →
      (evaluate (fuel + 1) form env macros).outcome s =
        (Eval.plainStep (evaluate fuel) fuel form env macros).outcome s) ∧
    ∀ r t, s.HeadExpands env macros form (.ok r) t → ¬ t.IsCall macros r →
      s.ExpandsLists env macros form →
      ∀ q u, s.Evaluates env macros form q u ↔ t.Evaluates env macros r q u := by
  refine ⟨macroCall?_agrees_iff, fun fuel h => Eval.outcome_evaluate_call h fuel env,
    fun fuel h => Eval.outcome_evaluate_other h fuel env, ?_⟩
  rintro r t ⟨fuel, n, h⟩ hr hlists q u
  exact Eval.evaluates_expandHead_iff h hr hlists q u

/-- The application of a function of nothing to nothing gives the number that the function
answers. -/
theorem evaluates_thunk (h : s.transformer? macros Symbol.lambda = none) (n : Int) (env : FrameId) :
    ∃ u, s.Evaluates env macros (.list [.list [.symbol Symbol.lambda, .list [], .int n]])
      (.ok (.int n)) u := by
  have hlambda :
    (evaluate 3 (.list [.symbol Symbol.lambda, .list [], .int n]) env macros).outcome s =
      some (.ok (.closure s.closures [] (.int n) env), { s with closures := s.closures + 1 }) := by
    show (Eval.symbolForm (evaluate 2) 2 Symbol.lambda _ env macros).outcome s = _
    rw [Eval.symbolForm, Eval.outcome_bind_ok (Eval.outcome_get s), h]
    rfl
  refine ⟨(State.childFrame { s with closures := s.closures + 1 } env).1, 4, ?_⟩
  show (Eval.application (evaluate 3) _ [] env macros).outcome s = _
  rw [Eval.application, Eval.outcome_bind_ok hlambda]
  rfl

/-- A `let` form without bindings is a call that expands to an application, which is no call. -/
theorem expansion_agrees_iff_let :
    let s := (Session.full (State.start Settings.standard) none).1
    let form : Value := .list [.symbol ⟨"let"⟩, .list [], .int 1]
    let r : Value := .list [.list [.symbol Symbol.lambda, .list [], .int 1]]
    s.IsCall 0 form ∧ s.HeadExpands 0 0 form (.ok r) s ∧ ¬ s.IsCall 0 r ∧ s.ExpandsLists 0 0 form ∧
      ∃ u, s.Evaluates 0 0 form (.ok (.int 1)) u := by
  intro s form r
  have hlet : s.transformer? 0 ⟨"let"⟩ = some .letForm := by rfl
  have hlambda : s.transformer? 0 Symbol.lambda = none := by rfl
  clear_value s
  have hform : s.IsCall 0 form := ⟨_, _, rfl, hlet ▸ rfl⟩
  have hr : s.macroCall? 0 r = none := rfl
  have hcall : s.macroCall? 0 form = some (.letForm, [.list [], .int 1]) := by
    show (s.transformer? 0 ⟨"let"⟩).map _ = _
    rw [hlet]
    rfl
  have hnext : (Eval.transform (evaluate 0) .letForm [.list [], .int 1] 0 0).outcome s =
      some (.ok r, s) := rfl
  have hexpands : s.HeadExpands 0 0 form (.ok r) s := by
    refine ⟨0, 2, ?_⟩
    rw [Eval.expandHead, Eval.outcome_bind, Eval.outcome_expandOnce_call hcall, hnext]
    rfl
  have hrcall : ¬ s.IsCall 0 r := fun h => by
    have hsome := macroCall?_isSome_iff.2 (.inl h)
    exact absurd hsome (by simp [hr])
  have hlists := hform.expandsLists hcall hnext (expandsLists_of_none hr 0)
  refine ⟨hform, hexpands, hrcall, hlists, ?_⟩
  obtain ⟨-, -, -, hsame⟩ := expansion_agrees_iff (s := s) 0 0 form
  obtain ⟨u, hu⟩ := evaluates_thunk hlambda 1 0
  exact ⟨u, (hsame r s hexpands hrcall hlists _ _).2 hu⟩

/-- A vector that begins with the name of a macro: it evaluates to itself, but expanding it gives an
application, which is no call and evaluates to something else. -/
theorem expansion_disagrees_vector :
    let s := (Session.full (State.start Settings.standard) none).1
    let form : Value := .vector [.symbol ⟨"let"⟩, .list [], .int 1]
    Session.Reachable Settings.standard none s ∧ (s.macroCall? 0 form).isSome ∧
      (∀ fuel, (evaluate (fuel + 1) form 0 0).outcome s = some (.ok form, s)) ∧
      ∃ r t, s.HeadExpands 0 0 form (.ok r) t ∧ ¬ t.IsCall 0 r ∧
        ¬ ∀ q u, s.Evaluates 0 0 form q u ↔ t.Evaluates 0 0 r q u := by
  intro s form
  have hs : Session.Reachable Settings.standard none s := .start
  have hlet : s.transformer? 0 ⟨"let"⟩ = some .letForm := by rfl
  have hlambda : s.transformer? 0 Symbol.lambda = none := by rfl
  clear_value s
  let r : Value := .list [.list [.symbol Symbol.lambda, .list [], .int 1]]
  have hcall : s.macroCall? 0 form = some (.letForm, [.list [], .int 1]) := by
    show (s.transformer? 0 ⟨"let"⟩).map _ = _
    rw [hlet]
    rfl
  have hexpands : s.HeadExpands 0 0 form (.ok r) s := by
    refine ⟨0, 2, ?_⟩
    rw [Eval.expandHead, Eval.outcome_bind, Eval.outcome_expandOnce_call hcall]
    rfl
  refine ⟨hs, hcall ▸ rfl, fun _ => rfl, r, s, hexpands, ?_, fun hsame => ?_⟩
  · rintro ⟨n, args, hlist, -⟩
    exact absurd hlist (by simp [r])
  · have hform : s.Evaluates 0 0 form (.ok form) s := ⟨1, rfl⟩
    obtain ⟨u, hu⟩ := evaluates_thunk hlambda 1 0
    obtain ⟨hvalue, -⟩ := ((hsame _ _).1 hform).unique hu
    exact absurd hvalue (by simp [form])

end State
end SlotLisp
