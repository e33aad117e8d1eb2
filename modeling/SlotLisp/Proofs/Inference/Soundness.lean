import SlotLisp.Eval.Evaluate
import SlotLisp.Proofs.Evaluation.Outcome

/-!
What the type of a form says about the form's value. Classification looks at the form and evaluation
takes it apart, so the two are compared for every shape that a form can have.
-/

namespace SlotLisp

def quotation (v : Value) : Value := .list [.symbol Symbol.quote, v]

/-- The type `t` is right for the form and its value `v`: it is the general type of the value,
except that a quoted symbol is a symbol and a quoted `nil` is a list. -/
inductive RightType (s : State) : (form v : Value) → (t : Symbol) → Prop
  | symbol (n : Symbol) : RightType s (quotation (.symbol n)) (.symbol n) ⟨"symbol"⟩
  | nil : RightType s (quotation .nil) .nil ⟨"list"⟩
  | general {form v : Value} (hsymbol : ∀ n, form ≠ quotation (.symbol n))
      (hnil : form ≠ quotation .nil) : RightType s form v (s.generalTypeOf v)

/-- The forms that show no type: dotted lists, symbols without a value, and lists that are neither
empty nor a quoted form nor one for a function. -/
inductive Untyped (s : State) (env : Option FrameId) : Value → Prop
  | dotted (xs : List Value) (t : Value) : Untyped s env (.dotted xs t)
  | copies (n : Nat) (xs : List Value) (t : Value) : Untyped s env (.copies n xs t)
  | unbound {n : Symbol} (hself : n.selfEvaluating = false) (h : ∀ f ∈ env, s.lookup? f n = none) :
      Untyped s env (.symbol n)
  | compound {x : Value} {xs : List Value} (hquote : ∀ y, x :: xs ≠ [.symbol Symbol.quote, y])
      (hfunction : ∀ y, x :: xs ≠ [.symbol Symbol.function, y]) : Untyped s env (.list (x :: xs))

theorem quotation_injective {v w : Value} (h : quotation v = quotation w) : v = w := by
  simpa [quotation] using h

namespace State

variable {s : State} {f : FrameId} {macros : MacroTableId}

/-! ## Values of forms that have a type -/

theorem evaluate_quotation (hquote : s.transformer? macros Symbol.quote = none) (v : Value)
    (fuel : Nat) : (evaluate (fuel + 1) (quotation v) f macros).outcome s = some (.ok v, s) := by
  show (Eval.symbolForm (evaluate fuel) fuel Symbol.quote [v] f macros).outcome s = _
  rw [Eval.symbolForm, Eval.outcome_bind_ok (Eval.outcome_get s), hquote]
  rfl

/-! ## Types of quoted forms -/

theorem rightType_quotation_iff {v : Value} {t : Symbol} (hsymbol : ∀ n, v ≠ .symbol n)
    (hnil : v ≠ .nil) : RightType s (quotation v) v t ↔ t = s.generalTypeOf v := by
  constructor
  · intro h
    generalize hq : quotation v = form at h
    cases h with
    | symbol n => exact absurd (quotation_injective hq) (hsymbol n)
    | nil => exact absurd (quotation_injective hq) hnil
    | general _ _ => rfl
  · rintro rfl
    exact .general (fun n hq => hsymbol n (quotation_injective hq))
      (fun hq => hnil (quotation_injective hq))

/-- Only a quoted vector without items has another type than its value. -/
theorem rightType_quotedType (v : Value) :
    RightType s (quotation v) v (s.quotedType v) ↔ quotation v ≠ quotation (.vector []) := by
  have hne : (∀ w, v ≠ .vector w) → quotation v ≠ quotation (.vector []) :=
    fun hv hq => hv [] (quotation_injective hq)
  cases v with
  | nil => exact iff_of_true .nil (hne (by simp))
  | symbol n => exact iff_of_true (.symbol n) (hne (by simp))
  | vector xs =>
      rw [rightType_quotation_iff (by simp) (by simp)]
      cases xs with
      | nil =>
          exact iff_of_false (by show Category.list.symbol ≠ Category.array.symbol; decide)
            (by simp)
      | cons x xs => exact iff_of_true rfl (by simp [quotation])
  | list xs =>
      refine iff_of_true ?_ (hne (by simp))
      rw [rightType_quotation_iff (by simp) (by simp)]
      cases xs <;> rfl
  | _ =>
      refine iff_of_true ?_ (hne (by simp))
      rw [rightType_quotation_iff (by simp) (by simp)]
      rfl

/-! ## Classification and evaluation -/

/-- A list that is not empty shows a type as a quoted form or as one for a function, and else
none. -/
theorem classify_cons (x : Value) (xs : List Value) (env : Option FrameId) :
    (∃ y, x :: xs = [.symbol Symbol.quote, y] ∧
        s.classify (.list (x :: xs)) env = some (s.quotedType y)) ∨
      (∃ y, x :: xs = [.symbol Symbol.function, y] ∧
        s.classify (.list (x :: xs)) env = some Symbol.function) ∨
      ((∀ y, x :: xs ≠ [.symbol Symbol.quote, y]) ∧ (∀ y, x :: xs ≠ [.symbol Symbol.function, y]) ∧
        s.classify (.list (x :: xs)) env = none) := by
  by_cases hx : ∃ head y, x :: xs = [.symbol head, y]
  · obtain ⟨head, y, hx⟩ := hx
    have hc : s.classify (.list (x :: xs)) env =
        if head = Symbol.quote then some (s.quotedType y)
        else if head = Symbol.function then some Symbol.function else none := by
      rw [hx]
      rfl
    by_cases hq : head = Symbol.quote
    · exact .inl ⟨y, by rw [hx, hq], by rw [hc, if_pos hq]⟩
    by_cases hf : head = Symbol.function
    · exact .inr (.inl ⟨y, by rw [hx, hf], by rw [hc, if_neg hq, if_pos hf]⟩)
    refine .inr (.inr ⟨fun z hz => ?_, fun z hz => ?_, by rw [hc, if_neg hq, if_neg hf]⟩)
    · rw [hx] at hz
      exact hq (by simpa using congrArg List.head? hz)
    · rw [hx] at hz
      exact hf (by simpa using congrArg List.head? hz)
  · refine .inr (.inr ⟨fun y hy => hx ⟨_, y, hy⟩, fun y hy => hx ⟨_, y, hy⟩, ?_⟩)
    unfold classify
    split
    next heq => exact absurd heq (by simp)
    next heq => exact absurd heq (by simp)
    next heq => exact absurd heq (by simp)
    next heq => exact absurd ⟨_, _, Value.list.inj heq⟩ hx
    next => rfl
    next heq => exact absurd heq (by simp)
    next hlist _ => exact absurd rfl (hlist x xs)

/-- What shows a type has a value, which evaluation finds without touching the state, and but for a
quoted vector without items the type is right for the value. -/
theorem classify_some {form : Value} {env : Option FrameId} {t : Symbol}
    (henv : ∀ g ∈ env, g = f) (hfunction : ∀ x, form ≠ .list [.symbol Symbol.function, x])
    (hquote : s.transformer? macros Symbol.quote = none) (h : s.classify form env = some t) :
    ∃ v, (∀ fuel, (evaluate (fuel + 1) form f macros).outcome s = some (.ok v, s)) ∧
      (RightType s form v t ↔ form ≠ quotation (.vector [])) := by
  -- Everything but lists and symbols is its own value.
  have hself : (∀ xs, form ≠ .list xs) → (∀ fuel, (evaluate (fuel + 1) form f macros).outcome s =
      some (.ok form, s)) → t = s.generalTypeOf form →
      ∃ v, (∀ fuel, (evaluate (fuel + 1) form f macros).outcome s = some (.ok v, s)) ∧
        (RightType s form v t ↔ form ≠ quotation (.vector [])) := by
    rintro hlist hval rfl
    exact ⟨form, hval, iff_of_true (.general (fun n => hlist _) (hlist _)) (hlist _)⟩
  cases form with
  | dotted xs t => exact absurd h (by simp [classify])
  | copies n xs t => exact absurd h (by simp [classify])
  | symbol n =>
      rw [classify] at h
      cases hn : n.selfEvaluating with
      | true =>
          rw [hn, if_pos rfl] at h
          refine hself (by simp) (fun fuel => ?_) (Option.some.inj h).symm
          show Eval.outcome (if n.selfEvaluating then pure (Value.symbol n) else _) s = _
          rw [hn, if_pos rfl]
          rfl
      | false =>
          rw [hn, if_neg (by simp)] at h
          obtain ⟨v, hv, rfl⟩ := Option.map_eq_some_iff.1 h
          obtain ⟨g, hg, hv⟩ := Option.bind_eq_some_iff.1 hv
          rw [henv g hg] at hv
          exact ⟨v, fun fuel => Eval.outcome_evaluate_symbol hn hv fuel macros,
            iff_of_true (.general (by simp [quotation]) (by simp [quotation]))
            (by simp [quotation])⟩
  | list xs =>
      cases xs with
      | nil =>
          obtain rfl := Option.some.inj h
          exact ⟨.list [], fun fuel => rfl,
            iff_of_true (.general (by simp [quotation]) (by simp [quotation]))
            (by simp [quotation])⟩
      | cons x xs =>
          rcases s.classify_cons x xs env with ⟨y, hxs, hc⟩ | ⟨y, hxs, -⟩ | ⟨-, -, hc⟩
          · rw [hc] at h
            obtain rfl := Option.some.inj h
            rw [hxs]
            exact ⟨y, evaluate_quotation hquote y, rightType_quotedType y⟩
          · exact absurd (congrArg Value.list hxs) (hfunction y)
          · rw [hc] at h
            exact absurd h (by simp)
  | vector xs => exact hself (by simp) (fun fuel => rfl) (Option.some.inj h).symm
  | _ => exact hself (by simp) (fun fuel => rfl) (Option.some.inj h).symm

theorem classify_eq_none_iff {form : Value} {env : Option FrameId} :
    s.classify form env = none ↔ Untyped s env form := by
  constructor
  · intro h
    cases form with
    | dotted xs t => exact .dotted xs t
    | copies n xs t => exact .copies n xs t
    | symbol n =>
        rw [classify] at h
        cases hn : n.selfEvaluating with
        | true => exact absurd h (by simp [hn])
        | false =>
            rw [hn, if_neg (by simp), Option.map_eq_none_iff, Option.bind_eq_none_iff] at h
            exact .unbound hn h
    | list xs =>
        cases xs with
        | nil => exact absurd h (by simp [classify])
        | cons x xs =>
            rcases s.classify_cons x xs env with ⟨y, -, hc⟩ | ⟨y, -, hc⟩ | ⟨hq, hf, -⟩
            · exact absurd (hc.symm.trans h) (by simp)
            · exact absurd (hc.symm.trans h) (by simp)
            · exact .compound hq hf
    | _ => exact absurd h (by simp [classify])
  · intro h
    cases h with
    | dotted xs t => rfl
    | copies n xs t => rfl
    | unbound hself h =>
        rw [classify, hself, if_neg (by simp), Option.map_eq_none_iff, Option.bind_eq_none_iff]
        exact h
    | compound hq hf =>
        rcases s.classify_cons _ _ env with ⟨y, hy, -⟩ | ⟨y, hy, -⟩ | ⟨-, -, hc⟩
        · exact absurd hy (hq y)
        · exact absurd hy (hf y)
        · exact hc

/-- Classification is right about every form but one: a quoted vector without items counts as a
list. -/
theorem classify_right_iff (s : State) (form : Value) (env : Option FrameId) (f : FrameId)
    (macros : MacroTableId) (henv : ∀ g ∈ env, g = f)
    (hfunction : ∀ x, form ≠ .list [.symbol Symbol.function, x])
    (hquote : s.transformer? macros Symbol.quote = none) :
    (∀ t, s.classify form env = some t →
      ∃ v, (∀ fuel, (evaluate (fuel + 1) form f macros).outcome s = some (.ok v, s)) ∧
        (RightType s form v t ↔ form ≠ quotation (.vector []))) ∧
      (s.classify form env = none ↔ Untyped s env form) :=
  ⟨fun _ h => classify_some henv hfunction hquote h, classify_eq_none_iff⟩

theorem classify_right_iff_quotation :
    ∃ v, (∀ fuel, (evaluate (fuel + 1) (quotation (.int 1)) 0 0).outcome default =
        some (.ok v, default)) ∧
      RightType default (quotation (.int 1)) v Category.number.symbol := by
  have hall := classify_right_iff default (quotation (.int 1)) none 0 0 (by simp)
    (by simp [quotation, Symbol.quote, Symbol.function]) rfl
  obtain ⟨v, hv, hright⟩ := hall.1 Category.number.symbol rfl
  exact ⟨v, hv, hright.2 (by simp [quotation])⟩

/-- The value of the quoted empty vector is of the type `array`, as that of every vector. -/
theorem not_rightType_quoted_empty_vector :
    (default : State).classify (quotation (.vector [])) none = some ⟨"list"⟩ ∧
      (default : State).transformer? 0 Symbol.quote = none ∧
      ¬ ∃ v, (∀ fuel, (evaluate (fuel + 1) (quotation (.vector [])) 0 0).outcome default =
          some (.ok v, default)) ∧ RightType default (quotation (.vector [])) v ⟨"list"⟩ := by
  refine ⟨rfl, rfl, ?_⟩
  rintro ⟨v, hv, hright⟩
  have hvec := (evaluate_quotation rfl (.vector []) 0).symm.trans (hv 0)
  obtain rfl : Value.vector [] = v := by simpa using hvec
  exact (rightType_quotedType (.vector [])).1 hright rfl

end State
end SlotLisp
