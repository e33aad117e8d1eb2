import Mathlib.Data.List.Nodup
import SlotLisp.Proofs.Evaluation.Fuel
import SlotLisp.Proofs.Inference.ZeroPolicies
import SlotLisp.Proofs.Session.Atomicity
import SlotLisp.Proofs.Session.Classes

/-!
The empty values that instances get from defaults which a class definition with inference puts in.
An empty container is made anew for each instance, by a call of the function that makes it; this
call is evaluated where the class was defined, so it gives the empty container as long as that
function is seen there under its name. Everything else that a session does before or after the
definition makes no difference.
-/

namespace SlotLisp

open Relation

/-! ## Empty values -/

namespace Category

def zero : Category → Value
  | .string => .str .empty
  | .boolean => .nil
  | .list => .list []
  | .array => .vector []
  | .mapping => .map []
  | .float => .float 0.0
  | .number => .int 0

/-- The function that makes the empty value of a type of containers, with its name. -/
def maker? : Category → Option (Symbol × Builtin)
  | .list => some (⟨"list"⟩, .list)
  | .array => some (⟨"vector"⟩, .vector)
  | .mapping => some (⟨"make-hash-table"⟩, .makeTable)
  | _ => none

theorem zeroValue?_symbol (k : Category) : zeroValue? (.symbol k.symbol) = some k.zeroForm := by
  cases k <;> rfl

theorem marked_zeroForm (k : Category) : k.zeroForm.Marked := by
  cases k with
  | float => rfl
  | list => exact ⟨trivial, trivial⟩
  | array => exact ⟨trivial, trivial⟩
  | mapping => exact ⟨trivial, trivial⟩
  | _ => exact trivial

end Category

/-- Whether the function that makes the empty value of a type is seen under its name from a frame.
Types whose empty value is no container need none. -/
def State.MakesZero (s : State) (env : FrameId) (macros : MacroTableId) (k : Category) : Prop :=
  ∀ n b, k.maker? = some (n, b) →
    s.transformer? macros n = none ∧ s.lookup? env n = some (.function (.builtin b))

namespace Eval

variable {s t : State} {env : FrameId} {macros : MacroTableId} {k : Category}

/-- A call of a builtin function without arguments. -/
theorem outcome_evaluate_builtin {n : Symbol} {b : Builtin} (hself : n.selfEvaluating = false)
    (hspecial : SpecialForm.ofSymbol? n = none) (hcall : s.transformer? macros n = none)
    (hbound : s.lookup? env n = some (.function (.builtin b))) (fuel : Nat) :
    (evaluate (fuel + 2) (.list [.symbol n]) env macros).outcome s =
      (callBuiltin (evaluate (fuel + 1)) b [] env).outcome s := by
  show (symbolForm (evaluate (fuel + 1)) (fuel + 1) n [] env macros).outcome s = _
  rw [symbolForm, outcome_bind_ok (outcome_get s), hcall, hspecial]
  show (application (evaluate (fuel + 1)) (.symbol n) [] env macros).outcome s = _
  rw [application, outcome_bind_ok (outcome_evaluate_symbol hself hbound fuel macros)]
  rfl

theorem outcome_zeroForm (h : s.MakesZero env macros k) (fuel : Nat) :
    (evaluate (fuel + 2) k.zeroForm env macros).outcome s = some (.ok k.zero, s) := by
  cases k with
  | list =>
      obtain ⟨hcall, hbound⟩ := h _ _ rfl
      exact outcome_evaluate_builtin (by decide) (by decide) hcall hbound fuel
  | array =>
      obtain ⟨hcall, hbound⟩ := h _ _ rfl
      exact outcome_evaluate_builtin (by decide) (by decide) hcall hbound fuel
  | mapping =>
      obtain ⟨hcall, hbound⟩ := h _ _ rfl
      exact outcome_evaluate_builtin (by decide) (by decide) hcall hbound fuel
  | _ => rfl

/-- Where the form of an empty value is evaluated at all, it gives that value and changes
nothing. -/
theorem outcome_zeroForm_eq {fuel : Nat} {p : Except Error Value × State}
    (h : s.MakesZero env macros k) (hp : (evaluate fuel k.zeroForm env macros).outcome s = some p) :
    p = (.ok k.zero, s) := by
  have hmore := evaluate_extends (Nat.le_add_right fuel 2) k.zeroForm env macros s p hp
  exact Option.some.inj (hmore.symm.trans (outcome_zeroForm h fuel))

end Eval

/-! ## The slots of a definition -/

namespace Declaration

structure OfType (form : Value) (d : Declaration) (k : Category) : Prop where
  form : ofForm form = .ok d
  default : d.default = none
  type : d.type? = some (.symbol k.symbol)

end Declaration

namespace State

variable {s : State} {ps : Policies} {env : Option FrameId} {form : Value} {d : Declaration}
  {k : Category}

/-- Any of the three policies gives a slot of a general type the form of the empty value. -/
theorem complete_ofType {p : Policy} (hinitform : ps.initform = .policy p) (hp : p.Zero)
    (hd : Declaration.OfType form d k) {v : Value} (h : s.complete ps env form = .ok v) :
    v = (d.withDefault k.zeroForm).toForm := by
  have hinfer : s.infer .initform ps.initform d env = .ok (some k.zeroForm) := by
    have hzero : p.zeroDefault d = .ok (some k.zeroForm) := by
      rw [Policy.zeroDefault, hd.type]
      dsimp only
      rw [k.zeroValue?_symbol]
    rw [hinitform, ← hzero]
    cases hp <;> rfl
  have hgain : s.gain ps env d = .ok (some (d.withDefault k.zeroForm)) := by
    rw [gain, hd.default]
    dsimp only
    rw [hinfer]
    rfl
  obtain ⟨r, hr, h⟩ := bind_eq_ok h
  obtain rfl := Except.ok.inj h
  obtain ⟨d', hd', hr⟩ := bind_eq_ok hr
  obtain rfl := Except.ok.inj (hd.form.symm.trans hd')
  obtain ⟨g, hg, hr⟩ := bind_eq_ok hr
  obtain rfl := Except.ok.inj (hgain.symm.trans hg)
  dsimp only at hr
  split at hr
  next =>
    obtain rfl := Except.ok.inj hr
    rfl
  next => exact absurd hr (by simp [throw, throwThe, MonadExceptOf.throw])

end State

namespace Declaration

theorem markAll_unpairs (os : List (Value × Value)) (m : Nat) :
    ∃ os', ((Value.markAll (unpairs os)).run m).1 = unpairs os' := by
  induction os generalizing m with
  | nil => exact ⟨[], rfl⟩
  | cons o os ih =>
      obtain ⟨os', hos'⟩ := ih ((o.2.mark.run (o.1.mark.run m).2).2)
      exact ⟨((o.1.mark.run m).1, (o.2.mark.run (o.1.mark.run m).2).1) :: os',
        congrArg _ (congrArg _ hos')⟩

/-- Marks leave the name and the default of a slot as they are if these need none. -/
theorem mark_toForm {d : Declaration} {v : Value} (hv : v.Marked) (m : Nat) :
    ∃ e : Declaration, e.name = d.name ∧ e.default = some v ∧
      ((d.withDefault v).toForm.mark.run m).1 = e.toForm := by
  obtain ⟨os, hos⟩ := markAll_unpairs d.options m
  refine ⟨⟨d.name, some v, os⟩, rfl, rfl, ?_⟩
  have hform : (d.withDefault v).toForm = .list (.symbol d.name :: v :: unpairs d.options) := rfl
  rw [hform, Value.mark, Value.markAll, Value.markAll, Value.mark_of_marked hv]
  show Value.list (_ :: v :: ((Value.markAll (unpairs d.options)).run m).1) = _
  rw [hos]
  rfl

end Declaration

theorem mem_markAll {v : Value} {vs : List Value} (hv : v ∈ vs) (m : Nat) :
    ∃ j, (v.mark.run j).1 ∈ ((Value.markAll vs).run m).1 := by
  induction vs generalizing m with
  | nil => exact absurd hv List.not_mem_nil
  | cons w vs ih =>
      rcases List.mem_cons.1 hv with rfl | hv
      · exact ⟨m, List.mem_cons_self⟩
      · obtain ⟨j, hj⟩ := ih hv (w.mark.run m).2
        exact ⟨j, List.mem_cons_of_mem _ hj⟩

namespace Eval

variable {s t : State} {env : FrameId} {macros : MacroTableId}

/-- A class definition that ends well has made the class that it drafts. -/
theorem defineClass_eq_ok {args : List Value} {v : Value}
    (h : (defineClass args env macros).outcome s = some (.ok v, t)) :
    ∃ d, s.draftClass env args = .ok d ∧ v = .ref (.cls s.classes.size) ∧
      t.getClass s.classes.size = s.classOfDraft d env macros := by
  cases hd : s.draftClass env args with
  | error e =>
      rw [outcome_defineClass_error hd] at h
      exact absurd h (by simp)
  | ok d =>
      rcases named_or_refused (d.bindings s.classes.size) with
        ⟨bs, hbs⟩ | ⟨bs, name, w, rest, hbs, hname⟩
      · obtain ⟨hv, rfl⟩ := Prod.mk.inj (Option.some.inj
          (h.symm.trans (outcome_defineClass_named hd hbs macros)))
        exact ⟨d, rfl, Except.ok.inj hv, State.getClass_bindAll s _ env bs⟩
      · rw [outcome_defineClass_refused hd hbs hname] at h
        exact absurd h (by simp)

/-- Marks leave a class definition as it is but for the parts behind the name. -/
theorem mark_definition (s : State) (n : Symbol) (bases : Value) (vs options : List Value) :
    ∃ m j bases' options',
      s.mark (.list (.symbol Symbol.defclass :: .symbol n :: bases :: .list vs :: options)) =
        ({ s with marks := m }, .list (.symbol Symbol.defclass :: .symbol n :: bases' ::
          .list ((Value.markAll vs).run j).1 :: options')) :=
  ⟨_, _, _, _, rfl⟩

/-- A class definition with inference that ends well has made the class that is drafted from the
completed declarations, with what marks they take. -/
theorem inferredClass_eq_ok (hmeaning : s.StandardClassForms macros) {args : List Value}
    {plan : ClassPlan} (hplan : s.planClass args (some env) none = .ok plan)
    {fuel : Nat} {v : Value}
    (h : (evaluate fuel (.list (.symbol Symbol.inferredClass :: args)) env macros).outcome s =
      some (.ok v, t)) :
    ∃ vs j bases options d, s.completeAll plan.policies (some env) plan.slots = .ok vs ∧
      s.draftClass env (.symbol plan.name :: bases :: .list ((Value.markAll vs).run j).1 ::
        options) = .ok d ∧
      v = .ref (.cls s.classes.size) ∧ t.getClass s.classes.size = s.classOfDraft d env macros := by
  cases fuel with
  | zero => exact absurd h (by simp [evaluate])
  | succ fuel =>
      rw [outcome_evaluate_inferred hmeaning.inferred, State.expandClass, hplan] at h
      cases hvs : s.completeAll plan.policies (some env) plan.slots with
      | error e =>
          simp only [bind, Except.bind, hvs] at h
          exact absurd h (by simp)
      | ok vs =>
          simp only [bind, Except.bind, hvs, pure, Except.pure] at h
          obtain ⟨m, j, bases, options, hmark⟩ :=
            mark_definition s plan.name plan.bases vs plan.options
          rw [hmark] at h
          cases fuel with
          | zero => exact absurd h (by simp [evaluate])
          | succ fuel =>
              rw [outcome_evaluate_plain (s := { s with marks := m }) hmeaning.plain] at h
              obtain ⟨d, hd, hv, hclass⟩ := defineClass_eq_ok h
              exact ⟨vs, j, bases, options, d, rfl, hd, hv, hclass⟩

/-- The class that a definition with inference makes has a slot with the form of the empty value as
its default, for each slot of a general type that is declared without one. -/
theorem slot_of_inferredClass (hmeaning : s.StandardClassForms macros) {args : List Value}
    {plan : ClassPlan} (hplan : s.planClass args (some env) none = .ok plan) {p : Policy}
    (hinitform : plan.policies.initform = .policy p) (hp : p.Zero) {fuel : Nat} {v : Value}
    (h : (evaluate fuel (.list (.symbol Symbol.inferredClass :: args)) env macros).outcome s =
      some (.ok v, t)) :
    v = .ref (.cls s.classes.size) ∧ ∀ form d k, form ∈ plan.slots → Declaration.OfType form d k →
      ∃ slot ∈ (t.getClass s.classes.size).slots, slot.name = d.name ∧
      slot.default = some k.zeroForm := by
  obtain ⟨vs, j, bases, options, draft, hvs, hdraft, hv, hclass⟩ :=
    inferredClass_eq_ok hmeaning hplan h
  rw [State.completeAll_eq_mapM] at hvs
  obtain ⟨-, ds, hds, hown⟩ := State.draftClass_eq_ok hdraft
  have hds' : ((Value.markAll vs).run j).1.mapM Declaration.ofForm = .ok ds := hds
  refine ⟨hv, fun form d k hform hd => ?_⟩
  obtain ⟨v, hv, hcomplete⟩ := mem_mapM hvs hform
  obtain rfl := State.complete_ofType hinitform hp hd hcomplete
  obtain ⟨i, hi⟩ := mem_markAll hv j
  obtain ⟨e, hname, hdefault, he⟩ := Declaration.mark_toForm (d := d) k.marked_zeroForm i
  rw [he] at hi
  obtain ⟨e', he', hofForm⟩ := mem_mapM hds' hi
  obtain rfl := Except.ok.inj ((Declaration.ofForm_toForm e).symm.trans hofForm)
  refine ⟨Slot.ofDeclaration plan.name e, ?_, hname, hdefault⟩
  rw [hclass]
  refine List.mem_append_right _ ?_
  rw [hown]
  exact List.mem_map_of_mem he'

/-! ## Making instances -/

section Making

variable {eval : Evaluator} {c : Class} {initargs : Table Value} {slot : Slot} {u w : State}

/-- Making an instance from `u` on comes to a slot in the state `t`: all slots before it have got
their values. -/
def Reaches (eval : Evaluator) (c : Class) (initargs : Table Value) (u : State) (slot : Slot)
    (t : State) : Prop :=
  ∃ before after values, c.slots = before ++ slot :: after ∧
    (initialValues eval c initargs before .empty).outcome u = some (.ok values, t)

/-- How making an instance of a class ends where a slot has to start with `v`: the arguments are
refused, there is an error at another slot, or the slot of the new instance holds `v`. -/
inductive StartsWith (eval : Evaluator) (cls : ClassId) (c : Class)
    (initargs : Table Value) (u : State) (slot : Slot) (v : Value) :
    Except Error Value → State → Prop
  | refused {e : Error} (h : c.checkInitargs initargs = .error e) :
      StartsWith eval cls c initargs u slot v (.error e) u
  | other {d : Slot} {t w : State} {e : Error} (hother : d.name ≠ slot.name)
      (hreached : Reaches eval c initargs u d t)
      (hfails : (initialValue eval c initargs d).outcome t = some (.error e, w)) :
      StartsWith eval cls c initargs u slot v (.error e) w
  | stored {i : InstanceId} {w : State} (hcls : w.classOf i = cls)
      (hv : (w.getInstance i).values.get? slot.name = some v) :
      StartsWith eval cls c initargs u slot v (.ok (.ref (.inst i))) w

/-- The values of the slots go on from those with the value of the first one. -/
theorem initialValues_cons (eval : Evaluator) (c : Class) (initargs : Table Value) (slot : Slot)
    (slots : List Slot) (values : Table Value) :
    initialValues eval c initargs (slot :: slots) values =
      initialValue eval c initargs slot >>= fun r =>
        initialValues eval c initargs slots (r.elim values (values.insert slot.name)) := by
  rw [initialValues]
  refine congrArg _ (funext fun r => ?_)
  cases r <;> rfl

/-- An error while slots get their values is that of a slot, after the ones before it have got
theirs. -/
theorem initialValues_error {slots : List Slot} {values : Table Value} {e : Error}
    (h : (initialValues eval c initargs slots values).outcome u = some (.error e, w)) :
    ∃ before d after values' t, slots = before ++ d :: after ∧
      (initialValues eval c initargs before values).outcome u = some (.ok values', t) ∧
      (initialValue eval c initargs d).outcome t = some (.error e, w) := by
  induction slots generalizing u values with
  | nil => exact absurd h (by simp [initialValues])
  | cons d slots ih =>
      rw [initialValues_cons, outcome_bind] at h
      cases hd : (initialValue eval c initargs d).outcome u with
      | none =>
          rw [hd] at h
          exact absurd h (by simp)
      | some p =>
          obtain ⟨e' | r, t⟩ := p
          · rw [hd] at h
            obtain ⟨he, rfl⟩ := Prod.mk.inj (Option.some.inj h)
            obtain rfl := Except.error.inj he
            exact ⟨[], d, slots, values, u, rfl, rfl, hd⟩
          · rw [hd] at h
            obtain ⟨before, d', after, values', t', rfl, hbefore, hfails⟩ := ih h
            refine ⟨d :: before, d', after, values', t', rfl, ?_, hfails⟩
            rw [initialValues_cons, outcome_bind_ok hd]
            exact hbefore

/-- Slots that get their values leave those of other names as they are. -/
theorem initialValues_other {slots : List Slot} {values vs : Table Value} {n : Symbol}
    (h : (initialValues eval c initargs slots values).outcome u = some (.ok vs, w))
    (hn : n ∉ slots.map Slot.name) : vs.get? n = values.get? n := by
  induction slots generalizing u values with
  | nil =>
      obtain ⟨rfl, -⟩ := outcome_pure_eq_ok h
      rfl
  | cons d slots ih =>
      rw [List.map_cons, List.mem_cons, not_or] at hn
      rw [initialValues_cons] at h
      obtain ⟨r, t, -, h⟩ := outcome_bind_eq_ok h
      rw [ih h hn.2]
      cases r with
      | none => rfl
      | some v =>
          rw [Option.elim_some, Table.get?_insert, if_neg (Ne.symm hn.1)]

/-- Of slots that all get their values, each is come to and starts with what it gets then. -/
theorem initialValues_of_mem {before after : List Slot} {values vs : Table Value}
    (h : (initialValues eval c initargs (before ++ slot :: after) values).outcome u =
      some (.ok vs, w))
    (hafter : slot.name ∉ after.map Slot.name) :
    ∃ values' t r t', (initialValues eval c initargs before values).outcome u =
      some (.ok values', t) ∧
      (initialValue eval c initargs slot).outcome t = some (.ok r, t') ∧
      ∀ v ∈ r, vs.get? slot.name = some v := by
  induction before generalizing u values with
  | nil =>
      rw [List.nil_append, initialValues_cons] at h
      obtain ⟨r, t', hr, h⟩ := outcome_bind_eq_ok h
      refine ⟨values, u, r, t', rfl, hr, fun v hv => ?_⟩
      obtain rfl : r = some v := hv
      rw [initialValues_other h hafter, Option.elim_some, Table.get?_insert_self]
  | cons d before ih =>
      rw [List.cons_append, initialValues_cons] at h
      obtain ⟨r, t, hr, h⟩ := outcome_bind_eq_ok h
      obtain ⟨values', t', r', t'', hbefore, hslot, hvs⟩ := ih h
      refine ⟨values', t', r', t'', ?_, hslot, hvs⟩
      rw [initialValues_cons, outcome_bind_ok hr]
      exact hbefore

/-- Making an instance ends with its arguments refused, with an error of one of its slots, or with
the instance. -/
theorem construct_cases {cls : ClassId} {args : List Value} {r : Except Error Value}
    (hinitargs : initargTable (u.getClass cls).name args = .ok initargs)
    (h : (construct eval cls args).outcome u = some (r, w)) :
    (∃ e, (u.getClass cls).checkInitargs initargs = .error e ∧ r = .error e ∧ w = u) ∨
    (∃ e, (initialValues eval (u.getClass cls) initargs (u.getClass cls).slots .empty).outcome u =
      some (.error e, w) ∧ r = .error e) ∨
    ∃ vs t, (initialValues eval (u.getClass cls) initargs (u.getClass cls).slots .empty).outcome u =
      some (.ok vs, t) ∧ r = .ok (.ref (.inst t.instances.size)) ∧
      w = (t.addInstance ⟨cls, vs⟩).1 := by
  have htable : (ofExcept (initargTable (u.getClass cls).name args)).outcome u =
      some (.ok initargs, u) := by
    rw [outcome_ofExcept, hinitargs]
  rw [construct, outcome_bind_ok (outcome_get u)] at h
  dsimp only at h
  rw [outcome_bind_ok htable, outcome_bind, outcome_ofExcept] at h
  cases hcheck : (u.getClass cls).checkInitargs initargs with
  | error e =>
      rw [hcheck] at h
      obtain ⟨rfl, rfl⟩ := Prod.mk.inj (Option.some.inj h)
      exact .inl ⟨e, rfl, rfl, rfl⟩
  | ok _ =>
      rw [hcheck] at h
      dsimp only at h
      rw [outcome_bind] at h
      cases hvs :
        (initialValues eval (u.getClass cls) initargs (u.getClass cls).slots .empty).outcome u with
      | none =>
          rw [hvs] at h
          exact absurd h (by simp)
      | some p =>
          rw [hvs] at h
          obtain ⟨e | vs, t⟩ := p
          · obtain ⟨rfl, rfl⟩ := Prod.mk.inj (Option.some.inj h)
            exact .inr (.inl ⟨e, rfl, rfl⟩)
          · obtain ⟨rfl, rfl⟩ := Prod.mk.inj (Option.some.inj h)
            exact .inr (.inr ⟨vs, t, rfl, rfl, rfl⟩)

/-- The slot of a new instance holds what it got when it was reached. -/
theorem construct_reaches {cls : ClassId} {args : List Value} {v : Value}
    (hnodup : ((u.getClass cls).slots.map Slot.name).Nodup) (hslot : slot ∈ (u.getClass cls).slots)
    (hinitargs : initargTable (u.getClass cls).name args = .ok initargs)
    (h : (construct eval cls args).outcome u = some (.ok v, w)) :
    ∃ i t r t', v = .ref (.inst i) ∧ w.classOf i = cls ∧
    Reaches eval (u.getClass cls) initargs u slot t ∧
      (initialValue eval (u.getClass cls) initargs slot).outcome t = some (.ok r, t') ∧
      ∀ x ∈ r, (w.getInstance i).values.get? slot.name = some x := by
  rcases construct_cases hinitargs h with ⟨e, -, hr, -⟩ | ⟨e, -, hr⟩ | ⟨vs, t, hvs, hr, rfl⟩
  · exact absurd hr (by simp)
  · exact absurd hr (by simp)
  · obtain ⟨before, after, hslots⟩ := List.append_of_mem hslot
    rw [hslots, List.map_append, List.map_cons] at hnodup
    have hafter := (List.nodup_cons.1 (List.nodup_append.1 hnodup).2.1).1
    rw [hslots] at hvs
    obtain ⟨values, t', r, t'', hbefore, hvalue, hstored⟩ := initialValues_of_mem hvs hafter
    refine ⟨_, t', r, t'', Except.ok.inj hr, ?_,
      ⟨before, after, values, hslots, hbefore⟩, hvalue, ?_⟩
    · rw [State.classOf, State.getInstance_addInstance]
    · rw [State.getInstance_addInstance]
      exact hstored

/-- If a slot gets `v` wherever it is reached, then making an instance ends as it has to. -/
theorem construct_startsWith {cls : ClassId} {args : List Value} {v : Value}
    {r : Except Error Value} (hnodup : ((u.getClass cls).slots.map Slot.name).Nodup)
    (hslot : slot ∈ (u.getClass cls).slots)
    (hinitargs : initargTable (u.getClass cls).name args = .ok initargs)
    (hvalue : ∀ t p, Reaches eval (u.getClass cls) initargs u slot t →
      (initialValue eval (u.getClass cls) initargs slot).outcome t = some p → p.1 = .ok (some v))
    (h : (construct eval cls args).outcome u = some (r, w)) :
    StartsWith eval cls (u.getClass cls) initargs u slot v r w := by
  rcases construct_cases hinitargs h with ⟨e, he, rfl, rfl⟩ | ⟨e, he, rfl⟩ | ⟨vs, t, hvs, rfl, rfl⟩
  · exact .refused he
  · obtain ⟨before, d, after, values, t, hslots, hbefore, hfails⟩ := initialValues_error he
    have hreached : Reaches eval (u.getClass cls) initargs u d t :=
      ⟨before, after, values, hslots, hbefore⟩
    refine .other (fun hname => ?_) hreached hfails
    have hd : d ∈ (u.getClass cls).slots := hslots ▸ List.mem_append_right _ List.mem_cons_self
    obtain rfl := List.inj_on_of_nodup_map hnodup hd hslot hname
    exact absurd (hvalue t _ hreached hfails) (by simp)
  · obtain ⟨i, t', x, t'', hi, hcls, hreached, hx, hstored⟩ :=
      construct_reaches hnodup hslot hinitargs h
    obtain rfl := Except.ok.inj (hvalue t' _ hreached hx)
    obtain rfl := Ref.inst.inj (Value.ref.inj hi)
    exact .stored hcls (hstored v rfl)

/-- What a default comes to is what the slot gets, unless it has to be supplied. -/
theorem outcome_default {form : Value} {r : Option Value} {t : State}
    (hdefault : slot.default = some form) (hgiven : slot.argument? initargs = none)
    (h : (initialValue eval c initargs slot).outcome u = some (.ok r, t)) :
    ∃ v, r = some v ∧ (eval form c.frame c.macros).outcome u = some (.ok v, t) := by
  rw [initialValue, hgiven, hdefault] at h
  dsimp only at h
  obtain ⟨v, t', hv, h⟩ := outcome_bind_eq_ok h
  split at h
  next => exact absurd h (by simp)
  next =>
    obtain ⟨rfl, rfl⟩ := outcome_pure_eq_ok h
    exact ⟨v, rfl, hv⟩

/-- A default that stands for the empty value of a type gives it, where the function that makes it
is seen. -/
theorem outcome_default_zero {fuel : Nat} {k : Category} {p : Except Error (Option Value) × State}
    (hdefault : slot.default = some k.zeroForm) (hgiven : slot.argument? initargs = none)
    (hmakes : u.MakesZero c.frame c.macros k)
    (h : (initialValue (evaluate fuel) c initargs slot).outcome u = some p) :
    p.1 = .ok (some k.zero) := by
  rw [initialValue, hgiven, hdefault] at h
  dsimp only at h
  rw [outcome_bind] at h
  cases hform : (evaluate fuel k.zeroForm c.frame c.macros).outcome u with
  | none =>
      rw [hform] at h
      exact absurd h (by simp)
  | some q =>
      obtain rfl := outcome_zeroForm_eq hmakes hform
      rw [hform] at h
      cases k <;> exact congrArg Prod.fst (Option.some.inj h).symm

/-- With fuel for a call, it comes to an end there. -/
theorem outcome_default_makes {fuel : Nat} {k : Category}
    (hdefault : slot.default = some k.zeroForm) (hgiven : slot.argument? initargs = none)
    (hmakes : u.MakesZero c.frame c.macros k) (hfuel : 2 ≤ fuel) :
    (initialValue (evaluate fuel) c initargs slot).outcome u = some (.ok (some k.zero), u) := by
  obtain ⟨n, rfl⟩ := Nat.exists_eq_add_of_le' hfuel
  rw [initialValue, hgiven, hdefault]
  dsimp only
  rw [outcome_bind_ok (outcome_zeroForm hmakes n)]
  cases k <;> rfl

end Making

end Eval

namespace Session

open Eval

def refOf? : Value → Option Ref
  | .ref r => some r
  | _ => none

/-- The state in which a computation ends, or that in which it starts if it does not end. -/
def endState (x : Eval Value) (s : State) : State := (x.outcome s).elim s Prod.snd

theorem outcome_endState {x : Eval Value} {s : State} (h : (x.outcome s).isSome = true) :
    ∃ r, x.outcome s = some (r, endState x s) := by
  obtain ⟨⟨r, t⟩, hout⟩ := Option.isSome_iff_exists.1 h
  exact ⟨r, by rw [endState, hout]; rfl⟩

theorem outcome_of_ref {x : Eval Value} {s : State} {r : Ref}
    (h : ((x.outcome s).bind fun p => p.1.toOption.bind refOf?) = some r) :
    x.outcome s = some (.ok (.ref r), endState x s) := by
  obtain ⟨⟨a, t⟩, hout, h⟩ := Option.bind_eq_some_iff.1 h
  obtain ⟨v, hv, h⟩ := Option.bind_eq_some_iff.1 h
  rw [endState, hout]
  cases a with
  | error e => exact absurd hv (by simp [Except.toOption])
  | ok w =>
      obtain rfl := Option.some.inj hv
      cases w with
      | ref r' => rw [Option.some.inj h]; rfl
      | _ => exact absurd h (by simp [refOf?])

/-- Over all runs of a session: a class is defined with inference by one of the three policies for
defaults, in any frame, and declares a slot of a general type without a default. At any later time
an instance is made of this class, or of one that has kept the slot, and nothing is given for the
slot. What the slot holds then is what the form of the empty value came to when the slot was
reached. Where the function that makes the empty value is seen under its name, this form gives the
empty value, and so the slot holds that and no error comes from it. -/
theorem Reachable.zero_defaults {settings : Settings} {selection : Option Selection}
    (hfresh : Fresh settings selection) {s : State} (hs : Reachable settings selection s)
    {env : FrameId} {macros : MacroTableId} (hmeaning : s.StandardClassForms macros)
    {args : List Value} (hform : s.Knows (.list (.symbol Symbol.inferredClass :: args)))
    {plan : ClassPlan} (hplan : s.planClass args (some env) none = .ok plan) {p : Policy}
    (hinitform : plan.policies.initform = .policy p) (hp : p.Zero) {fuel : Nat}
    {v : Value} {t : State}
    (h : (evaluate fuel (.list (.symbol Symbol.inferredClass :: args)) env macros).outcome s =
      some (.ok v, t)) :
    let x := (full (State.start settings) selection).2
    ∃ c, v = .ref (.cls c) ∧ ∀ form d k, form ∈ plan.slots → Declaration.OfType form d k →
      ∃ slot : Slot, slot.name = d.name ∧ ∀ u, ReflTransGen (Step x) t u →
        (c < u.classes.size ∧ slot ∈ (u.getClass c).slots) ∧
        ∀ cls < u.classes.size, slot ∈ (u.getClass cls).slots → ∀ fuel args initargs,
          initargTable (u.getClass cls).name args = .ok initargs → slot.argument? initargs = none →
          (∀ u', 2 ≤ fuel → u'.MakesZero (u.getClass cls).frame (u.getClass cls).macros k →
            (initialValue (evaluate fuel) (u.getClass cls) initargs slot).outcome u' =
              some (.ok (some k.zero), u')) ∧
          ∀ r w, (construct (evaluate fuel) cls args).outcome u = some (r, w) →
            (∀ i, r = .ok (.ref (.inst i)) → ∃ u' y w',
              Reaches (evaluate fuel) (u.getClass cls) initargs u slot u' ∧
              (evaluate fuel k.zeroForm (u.getClass cls).frame (u.getClass cls).macros).outcome u' =
                some (.ok y, w') ∧
              (w.getInstance i).values.get? slot.name = some y) ∧
            ((∀ u', Reaches (evaluate fuel) (u.getClass cls) initargs u slot u' →
                u'.MakesZero (u.getClass cls).frame (u.getClass cls).macros k) →
              StartsWith (evaluate fuel) cls (u.getClass cls) initargs u slot k.zero r w) := by
  intro x
  obtain ⟨hlead, hknown⟩ := keeps_evaluate fuel s _ env macros hform (hs.sound hfresh) _ _ h
  obtain ⟨rfl, hslots⟩ := slot_of_inferredClass hmeaning hplan hinitform hp h
  have hclass : s.classes.size < t.classes.size := hknown _ rfl
  refine ⟨s.classes.size, rfl, fun form d k hmem hd => ?_⟩
  obtain ⟨slot, hslot, hname, hdefault⟩ := hslots form d k hmem hd
  refine ⟨slot, hname, fun u hu => ?_⟩
  have hlater := leads_of_steps hlead.sound hu
  have hsame := hlater.grows.getClass hclass
  refine ⟨⟨Nat.lt_of_lt_of_le hclass hlater.grows.classes, hsame ▸ hslot⟩, ?_⟩
  intro cls hcls hkept fuel' args' initargs hinitargs hgiven
  refine ⟨fun u' hfuel hmakes => outcome_default_makes hdefault hgiven hmakes hfuel,
    fun r w hmade => ?_⟩
  have hnodup := (State.getClass_sound hlater.sound hcls).slots_nodup
  refine ⟨fun i hi => ?_, fun hmakes => ?_⟩
  · subst hi
    obtain ⟨i', u', y, w', hi, -, hreached, hvalue, hstored⟩ :=
      construct_reaches hnodup hkept hinitargs hmade
    obtain rfl := Ref.inst.inj (Value.ref.inj hi)
    obtain ⟨y, rfl, hy⟩ := outcome_default hdefault hgiven hvalue
    exact ⟨u', y, w', hreached, hy, hstored y rfl⟩
  · exact construct_startsWith hnodup hkept hinitargs
      (fun u' q hreached hq => outcome_default_zero hdefault hgiven (hmakes u' hreached) hq) hmade

/-- A class with a slot for a list, of which an instance is made at once. -/
theorem Reachable.zero_defaults_list :
    let s := (full (State.start Settings.standard) none).1
    let args : List Value := [.symbol ⟨"p"⟩, .list [],
      .list [.list [.symbol ⟨"x"⟩, .symbol ⟨":type"⟩, .symbol ⟨"list"⟩]],
      .list [.symbol Facet.initform.option, .symbol ⟨":error"⟩],
      .list [.symbol Facet.type.option, .symbol ⟨":general"⟩]]
    let form : Value := .list (.symbol Symbol.inferredClass :: args)
    let d : Declaration := ⟨⟨"x"⟩, none, [(.symbol Declaration.typeKey, .symbol ⟨"list"⟩)]⟩
    Reachable Settings.standard none s ∧ s.StandardClassForms 0 ∧ s.Knows form ∧
      (∃ plan, s.planClass args (some 0) none = .ok plan ∧
        plan.policies.initform = .policy .buildError ∧
        plan.slots = [d.toForm]) ∧
      Declaration.OfType d.toForm d .list ∧
      ∃ t w, (evaluate 3 form 0 0).outcome s = some (.ok (.ref (.cls 0)), t) ∧
      t.MakesZero 0 0 .list ∧
        (construct (evaluate 2) 0 []).outcome t = some (.ok (.ref (.inst 0)), w) ∧
        (w.getInstance 0).values.get? ⟨"x"⟩ = some (.list []) := by
  intro s args form d
  have hs : Reachable Settings.standard none s := .start
  have hmeaning : s.StandardClassForms 0 := standardClassForms_start
  have hknows : s.Knows form := by simp [State.Knows, form, args]
  have hd : Declaration.OfType d.toForm d .list := ⟨Declaration.ofForm_toForm d, rfl, rfl⟩
  obtain ⟨plan, hplan, hinitform, hslots⟩ : ∃ plan, s.planClass args (some 0) none = .ok plan ∧
      plan.policies.initform = .policy .buildError ∧ plan.slots = [d.toForm] := ⟨_, rfl, rfl, rfl⟩
  let t := endState (evaluate 3 form 0 0) s
  let w := endState (construct (evaluate 2) 0 []) t
  have ht : (evaluate 3 form 0 0).outcome s = some (.ok (.ref (.cls 0)), t) :=
    outcome_of_ref (by decide +kernel)
  have hw : (construct (evaluate 2) 0 []).outcome t = some (.ok (.ref (.inst 0)), w) :=
    outcome_of_ref (by decide +kernel)
  have hcall : (t.transformer? 0 ⟨"list"⟩).isNone = true := by decide +kernel
  have hbound : (t.lookup? 0 ⟨"list"⟩).bind Value.isFunction? = some (.builtin .list) := by
    decide +kernel
  have hclass : (t.getClass 0).frame = 0 ∧ (t.getClass 0).macros = 0 ∧
      (t.getClass 0).slots.length = 1 := by
    decide +kernel
  have hmakes : t.MakesZero 0 0 .list := by
    intro n b h
    obtain ⟨rfl, rfl⟩ := Prod.mk.inj (Option.some.inj h)
    obtain ⟨v, hv, hfunction⟩ := Option.bind_eq_some_iff.1 hbound
    obtain rfl := Value.eq_of_isFunction? hfunction
    exact ⟨Option.isNone_iff_eq_none.1 hcall, hv⟩
  obtain ⟨c, hc, hzero⟩ :=
    Reachable.zero_defaults fresh_standard hs hmeaning hknows hplan hinitform .buildError ht
  obtain rfl := Ref.cls.inj (Value.ref.inj hc)
  obtain ⟨slot, hname, hlater⟩ := hzero d.toForm d .list (hslots ▸ List.mem_singleton_self _) hd
  obtain ⟨⟨hsize, hslot⟩, hmade⟩ := hlater t .refl
  have hgiven : slot.argument? (.ofList []) = none := by
    rw [Slot.argument?]
    split <;> rfl
  obtain ⟨-, hends⟩ := (hmade 0 hsize hslot 2 [] (.ofList []) rfl hgiven).2 _ w hw
  refine ⟨hs, hmeaning, hknows, ⟨plan, hplan, hinitform, hslots⟩, hd, t, w, ht, hmakes, hw, ?_⟩
  -- The only slot is reached at once.
  have hstarts := hends fun u hu => by
    obtain ⟨before, after, values, hslots, hbefore⟩ := hu
    have hlength := hclass.2.2
    rw [hslots, List.length_append, List.length_cons] at hlength
    obtain rfl := List.length_eq_zero_iff.1 (show before.length = 0 by omega)
    obtain ⟨-, rfl⟩ := outcome_pure_eq_ok hbefore
    rw [hclass.1, hclass.2.1]
    exact hmakes
  cases hstarts with
  | stored hcls hv =>
      rw [show slot.name = ⟨"x"⟩ from hname] at hv
      exact hv

/-- The same class, after which the name of the function that makes lists is bound to another one:
an instance that is made then does not get the empty list. -/
theorem not_zero_default_list :
    let x := (full (State.start Settings.standard) none).2
    let s := (full (State.start Settings.standard) none).1
    let args : List Value := [.symbol ⟨"p"⟩, .list [],
      .list [.list [.symbol ⟨"x"⟩, .symbol ⟨":type"⟩, .symbol ⟨"list"⟩]],
      .list [.symbol Facet.initform.option, .symbol ⟨":error"⟩],
      .list [.symbol Facet.type.option, .symbol ⟨":general"⟩]]
    let form : Value := .list (.symbol Symbol.inferredClass :: args)
    let d : Declaration := ⟨⟨"x"⟩, none, [(.symbol Declaration.typeKey, .symbol ⟨"list"⟩)]⟩
    Reachable Settings.standard none s ∧ s.StandardClassForms 0 ∧
      (∃ plan, s.planClass args (some 0) none = .ok plan ∧
        plan.policies.initform = .policy .buildError ∧
        plan.slots = [d.toForm]) ∧
      Declaration.OfType d.toForm d .list ∧
      ∃ t u w, (evaluate 3 form 0 0).outcome s = some (.ok (.ref (.cls 0)), t) ∧
        ReflTransGen (Step x) t u ∧
        (construct (evaluate 4) 0 []).outcome u = some (.ok (.ref (.inst 0)), w) ∧
        ((w.getInstance 0).values.get? ⟨"x"⟩).bind Value.factor? = some 7 ∧
        (w.getInstance 0).values.get? ⟨"x"⟩ ≠ some Category.list.zero := by
  intro x s args form d
  let other : Value := .list [.symbol ⟨"define"⟩, .symbol ⟨"list"⟩,
    .list [.symbol ⟨"lambda"⟩, .list [], .int 7]]
  let t := endState (evaluate 3 form 0 0) s
  let u := endState (evaluate 3 other 0 0) t
  let w := endState (construct (evaluate 4) 0 []) u
  have ht : (evaluate 3 form 0 0).outcome s = some (.ok (.ref (.cls 0)), t) :=
    outcome_of_ref (by decide +kernel)
  have hw : (construct (evaluate 4) 0 []).outcome u = some (.ok (.ref (.inst 0)), w) :=
    outcome_of_ref (by decide +kernel)
  obtain ⟨r, hu⟩ : ∃ r, (evaluate 3 other 0 0).outcome t = some (r, u) :=
    outcome_endState (by decide +kernel)
  have hknows : t.Knows other := by simp [State.Knows, other]
  have hvalue : ((w.getInstance 0).values.get? ⟨"x"⟩).bind Value.factor? = some 7 := by
    decide +kernel
  refine ⟨.start, standardClassForms_start, ⟨_, rfl, rfl, rfl⟩,
    ⟨Declaration.ofForm_toForm d, rfl, rfl⟩,
    t, u, w, ht, .single (.evaluation hknows hu), hw, hvalue, fun hzero => ?_⟩
  rw [hzero] at hvalue
  exact absurd hvalue (by simp [Category.zero, Value.factor?])

end Session
end SlotLisp
