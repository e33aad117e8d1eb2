import SlotLisp.Proofs.Evaluation.LambdaList
import SlotLisp.Proofs.Macros.OneTable

/-!
What single forms come to, apart from fuel: applications, functions, definitions and bodies of
several forms. Each is put together of what its parts come to, one after the other.
-/

namespace SlotLisp
namespace State

def countFunction (s : State) : State := { s with closures := s.closures + 1 }

theorem lookup?_countFunction (s : State) (f : FrameId) (n : Symbol) :
    s.countFunction.lookup? f n = s.lookup? f n := rfl

theorem transformer?_countFunction (s : State) (m : MacroTableId) (n : Symbol) :
    s.countFunction.transformer? m n = s.transformer? m n := rfl

end State

namespace Eval

variable {s t : State} {env : FrameId} {macros : MacroTableId} {form : Value}
  {forms args : List Value} {r : Except Error Value}

/-! ## One step -/

theorem evaluates_iff_step :
    s.Evaluates env macros form r t ↔
    Ends (fun n => step (evaluate n) n form env macros) s r t := by
  constructor
  · rintro ⟨_ | n, h⟩
    · exact absurd h (by simp [evaluate])
    · exact ⟨n, h⟩
  · rintro ⟨n, h⟩
    exact ⟨n + 1, h⟩

/-- A form with a rule of its own follows it where its head names no macro. -/
theorem evaluates_special_iff {n : Symbol} {rule : SpecialForm}
    (hnone : s.transformer? macros n = none) (hrule : SpecialForm.ofSymbol? n = some rule) :
    s.Evaluates env macros (.list (.symbol n :: args)) r t ↔
      Ends (fun k => special (evaluate k) k rule args env macros) s r t := by
  rw [evaluates_iff_step]
  refine exists_congr fun k => ?_
  show (symbolForm (evaluate k) k n args env macros).outcome s = _ ↔ _
  rw [symbolForm, outcome_bind_ok (outcome_get s), hnone]
  dsimp only
  rw [hrule]

/-! ## Applications -/

theorem apply_extends {m n : Nat} (hle : m ≤ n) (fn : Value) (env : FrameId) (macros : MacroTableId)
    (args : List Value) :
    Extends Value (apply (evaluate m) fn env macros args) (apply (evaluate n) fn env macros args) :=
  congruence_extends.apply (evaluate_extends hle) fn env macros args

theorem evaluateAll_extends {m n : Nat} (hle : m ≤ n) (forms : List Value) (env : FrameId)
    (macros : MacroTableId) :
    Extends (List Value) (forms.mapM fun form => evaluate m form env macros)
      (forms.mapM fun form => evaluate n form env macros) :=
  extends_mapM (fun form _ _ hle => evaluate_extends hle form env macros) hle forms

theorem ends_evaluateAll_iff {q : Except Error (List Value)} :
    Ends (fun n => forms.mapM fun form => evaluate n form env macros) s q t ↔
      s.EvaluatesAll env macros forms q t :=
  ends_mapM_iff (fun form _ _ hle => evaluate_extends hle form env macros) fun _ _ _ _ => Iff.rfl

theorem evaluatesAll_unique {t' : State} {q q' : Except Error (List Value)}
    (h : s.EvaluatesAll env macros forms q t) (h' : s.EvaluatesAll env macros forms q' t') :
    q = q' ∧ t = t' := by
  obtain ⟨m, hm⟩ := ends_evaluateAll_iff.2 h
  obtain ⟨n, hn⟩ := ends_evaluateAll_iff.2 h'
  exact Prod.mk.inj (outcome_unique (evaluateAll_extends · forms env macros) hm hn)

/-- What a value is applied to is evaluated after the value, in order, and the value is called after
that. -/
theorem evaluates_application_iff {f : Value}
    (hf : ∀ n, f = .symbol n → s.transformer? macros n = none ∧ SpecialForm.ofSymbol? n = none) :
    s.Evaluates env macros (.list (f :: args)) r t ↔
      (∃ e, r = .error e ∧ s.Evaluates env macros f (.error e) t) ∨
      ∃ v u, s.Evaluates env macros f (.ok v) u ∧
        ((∃ e, r = .error e ∧ u.EvaluatesAll env macros args (.error e) t) ∨
        ∃ vs w, u.EvaluatesAll env macros args (.ok vs) w ∧
          Ends (fun n => apply (evaluate n) v env macros vs) w r t) := by
  have happlication : s.Evaluates env macros (.list (f :: args)) r t ↔
      Ends (fun n => application (evaluate n) f args env macros) s r t := by
    rw [evaluates_iff_step]
    refine exists_congr fun n => ?_
    show (evaluate (n + 1) (.list (f :: args)) env macros).outcome s = _ ↔ _
    rw [outcome_evaluate_application hf]
  have hargs : ∀ v {m n}, m ≤ n → Extends Value
      ((args.mapM fun a => evaluate m a env macros) >>= apply (evaluate m) v env macros)
      ((args.mapM fun a => evaluate n a env macros) >>= apply (evaluate n) v env macros) :=
    fun v _ _ hle => congruence_extends.bind (evaluateAll_extends hle args env macros)
      fun vs => apply_extends hle v env macros vs
  rw [happlication]
  refine (ends_bind_iff (fun hle => evaluate_extends hle f env macros) hargs).trans ?_
  refine or_congr Iff.rfl (exists_congr fun v => exists_congr fun u => and_congr_right fun _ => ?_)
  refine (ends_bind_iff (evaluateAll_extends · args env macros) fun vs _ _ hle =>
    apply_extends hle v env macros vs).trans ?_
  simp only [ends_evaluateAll_iff]

/-! ## Functions -/

/-- A function is made of its parameters and its body, in the frame around it, and nothing is
evaluated yet. -/
theorem evaluates_lambda_iff {params : Value} {formals : List Value}
    (hnone : s.transformer? macros Symbol.lambda = none)
    (hformals : (listOfNil params).items? = some formals) :
    s.Evaluates env macros (.list (.symbol Symbol.lambda :: params :: forms)) r t ↔
      r = .ok (.closure s.closures formals (bodyForm forms) env) ∧ t = s.countFunction := by
  have hmake : makeLambda (params :: forms) env = closure formals (bodyForm forms) env := by
    rw [makeLambda, hformals]
  rw [evaluates_special_iff hnone
    (show SpecialForm.ofSymbol? Symbol.lambda = some .lambda from rfl)]
  simp only [special, hmake, ends_const_iff]
  show some _ = some (r, t) ↔ _
  rw [Option.some.injEq, Prod.mk.injEq, eq_comm, @eq_comm _ _ t]
  rfl

/-- As many arguments as there are parameters are bound in a new frame, in which nothing else is. -/
theorem outcome_bindParameters_symbols {evalDefault : FrameId → Value → Eval Value}
    {ns : List Symbol} (hnodup : ns.Nodup) (hunmarked : ∀ n ∈ ns, Mode.ofMarker? (.symbol n) = none)
    (hlength : args.length = ns.length) (outer : FrameId) (s : State) :
    (bindParameters evalDefault (ns.map .symbol) args outer).outcome s =
      some (.ok s.frames.size, s.openFrame outer (ns.zip args)) := by
  have hbind :
    (bindIn (evalDefault s.frames.size) s.frames.size .required args (ns.map .symbol ++ [])).outcome
      (s.openFrame outer []) = some (.ok (), s.openFrame outer (ns.zip args)) := by
    rw [outcome_bindIn_required (by simpa using hnodup) hunmarked,
      List.getElem?_eq_none (Nat.le_of_eq hlength.symm),
      List.drop_eq_nil_iff.2 (Nat.le_of_eq hlength)]
    rfl
  rw [List.append_nil] at hbind
  rw [bindParameters, outcome_bind_ok (outcome_create _ s)]
  exact outcome_bind_ok hbind _

/-- A function whose parameters take an argument each evaluates its body in a new frame inside its
own. -/
theorem outcome_applyClosure_symbols {ns : List Symbol} (hnodup : ns.Nodup)
    (hunmarked : ∀ n ∈ ns, Mode.ofMarker? (.symbol n) = none) (hlength : args.length = ns.length)
    (eval : Evaluator) (body : Value) (frame : FrameId) (macros : MacroTableId) (s : State) :
    (applyClosure eval (ns.map .symbol) body frame args macros).outcome s =
      (eval body s.frames.size macros).outcome (s.openFrame frame (ns.zip args)) :=
  outcome_bind_ok (outcome_bindParameters_symbols hnodup hunmarked hlength frame s) _

theorem ends_apply_closure_iff {id : Nat} {ns : List Symbol} {body : Value} {frame : FrameId}
    (hnodup : ns.Nodup) (hunmarked : ∀ n ∈ ns, Mode.ofMarker? (.symbol n) = none)
    (hlength : args.length = ns.length) :
    Ends (fun n => apply (evaluate n) (.closure id (ns.map .symbol) body frame)
      env macros args) s r t ↔
      (s.openFrame frame (ns.zip args)).Evaluates s.frames.size macros body r t := by
  have hcall : ∀ eval, apply eval (.closure id (ns.map .symbol) body frame) env macros args =
      applyClosure eval (ns.map .symbol) body frame args macros := fun _ => by rw [apply.eq_def]
  simp only [Ends, hcall, outcome_applyClosure_symbols hnodup hunmarked hlength]
  rfl

/-! ## Bodies -/

/-- The value of the last of several forms, where `last` is that of no forms. -/
theorem map_getLastD_cons (q : Except Error (List Value)) (v last : Value) :
    (q.map (v :: ·)).map (·.getLastD last) = q.map (·.getLastD v) := by
  cases q with
  | error e => rfl
  | ok vs => exact congrArg Except.ok List.getLastD_cons

theorem ends_sequence_iff (last : Value) :
    Ends (fun n => sequence (fun form => evaluate n form env macros) last forms) s r t ↔
      ∃ q, s.EvaluatesAll env macros forms q t ∧ r = q.map (·.getLastD last) := by
  induction forms generalizing last s with
  | nil =>
      simp only [sequence, ends_const_iff, outcome_pure, inOrder_nil_iff, Option.some.injEq,
        Prod.mk.injEq]
      constructor
      · rintro ⟨rfl, rfl⟩
        exact ⟨_, ⟨rfl, rfl⟩, rfl⟩
      · rintro ⟨_, ⟨rfl, rfl⟩, rfl⟩
        exact ⟨rfl, rfl⟩
  | cons form forms ih =>
      simp only [sequence]
      refine (ends_bind_iff (fun hle => evaluate_extends hle form env macros) fun v _ _ hle =>
        congruence_extends.sequence (fun form => evaluate_extends hle form env macros)
          v forms).trans ?_
      simp only [ih]
      constructor
      · rintro (⟨e, rfl, h⟩ | ⟨v, u, h, q, hq, rfl⟩)
        · exact ⟨.error e, .stops h, rfl⟩
        · exact ⟨q.map (v :: ·), .cons h hq, (map_getLastD_cons q v last).symm⟩
      · rintro ⟨q, hq, rfl⟩
        rcases inOrder_cons_iff.1 hq with ⟨e, rfl, h⟩ | ⟨v, u, q', h, hq', rfl⟩
        · exact .inl ⟨e, rfl, h⟩
        · exact .inr ⟨v, u, h, q', hq', map_getLastD_cons q' v last⟩

/-- A body comes to the value of its last form, after those before it. -/
theorem evaluates_bodyForm_iff {rest : List Value}
    (h : rest = [] ∨ s.transformer? macros Symbol.progn = none) :
    s.Evaluates env macros (bodyForm (form :: rest)) r t ↔
      ∃ q, s.EvaluatesAll env macros (form :: rest) q t ∧ r = q.map (·.getLastD .nil) := by
  cases rest with
  | nil =>
      -- A single form stands for itself: going through it alone is evaluating it.
      show s.Evaluates env macros form r t ↔ _
      rw [← ends_sequence_iff]
      simp only [sequence, bind_pure]
      rfl
  | cons second rest =>
      have hnone := h.resolve_left (by simp)
      exact (evaluates_special_iff hnone
        (show SpecialForm.ofSymbol? Symbol.progn = some .progn from rfl)).trans
        (ends_sequence_iff .nil)

/-! ## Definitions -/

/-- A definition binds its name in the frame itself in which it is evaluated, and answers the
name. -/
theorem evaluates_define_iff {n : Symbol} (hnone : s.transformer? macros Symbol.define = none)
    (hn : n.selfEvaluating = false) :
    s.Evaluates env macros (.list [.symbol Symbol.define, .symbol n, form]) r t ↔
      (∃ e, r = .error e ∧ s.Evaluates env macros form (.error e) t) ∨
        ∃ v u, s.Evaluates env macros form (.ok v) u ∧ r = .ok (.symbol n) ∧
        t = u.define env n v := by
  have hparts : bindingParts Symbol.define [.symbol n, form] = .ok (n, form) := by
    rw [bindingParts, hn]
    rfl
  have hspecial : ∀ k, special (evaluate k) k .define [.symbol n, form] env macros =
      evaluate k form env macros >>= fun v => define env (.symbol n) v >>= fun _ =>
        pure (.symbol n) := fun k => by
    rw [special, hparts]
    rfl
  have hdefine : ∀ (v : Value) (u : State), (define env (.symbol n) v >>= fun _ =>
    pure (Value.symbol n)).outcome u =
      some (.ok (.symbol n), u.define env n v) := fun _ _ => rfl
  rw [evaluates_special_iff hnone
    (show SpecialForm.ofSymbol? Symbol.define = some .define from rfl)]
  simp only [hspecial]
  refine (ends_bind_iff (fun hle => evaluate_extends hle form env macros) fun v _ _ _ =>
    congruence_extends.bind (congruence_extends.define env (.symbol n) v) fun _ =>
      congruence_extends.pure _).trans ?_
  refine or_congr Iff.rfl (exists_congr fun v => exists_congr fun u => and_congr_right fun _ => ?_)
  rw [ends_const_iff, hdefine, Option.some.injEq, Prod.mk.injEq, eq_comm, @eq_comm _ _ t]

/-- A macro definition makes a macro of its name at once, with the frame around it, and answers the
name. -/
theorem evaluates_defineMacro {n : Symbol} {params : Value} {formals : List Value}
    (hnone : s.transformer? macros ⟨"defmacro"⟩ = none) (hn : n.isKeyword = false)
    (hformals : (listOfNil params).items? = some formals) :
    s.Evaluates env macros (.list (.symbol ⟨"defmacro"⟩ :: .symbol n :: params :: form :: forms))
      (.ok (.symbol n)) (s.defineTransformer macros n
        (.closure formals (bodyForm (withoutDescription (form :: forms))) env)) := by
  refine (evaluates_special_iff hnone
    (show SpecialForm.ofSymbol? ⟨"defmacro"⟩ = some .macroDefinition from rfl)).2 ⟨0, ?_⟩
  show (defineMacro (.symbol n :: params :: form :: forms) env macros).outcome s = _
  rw [defineMacro, hn, hformals]
  rfl

end Eval
end SlotLisp
