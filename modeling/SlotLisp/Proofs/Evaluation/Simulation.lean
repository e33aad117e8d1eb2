import SlotLisp.Proofs.Evaluation.Relation

/-!
Evaluation respects every simulation, as long as the form, the state and the table of macros with
which it is evaluated have their tables in the set. There is one lemma for each kind of computation
that evaluation consists of, for two evaluators that are related on all such forms; the induction
over fuel comes last.
-/

namespace SlotLisp
namespace Eval
namespace Simulation

variable {T : MacroTableId → Prop} {R : ∀ α : Type, (α → Prop) → Eval α → Eval α → Prop}
  (hR : Simulation T R)

include hR

/-! ## Parameters -/

section Parameters

variable {f g : Value → Eval Value}
  (h : ∀ v : Value, v.Within T → R Value (Value.Within T) (f v) (g v))

include h

theorem missingOptional {formal : Value} (hformal : formal.Within T) :
    R Value (Value.Within T) (missingOptional f formal) (missingOptional g formal) := by
  unfold Eval.missingOptional
  split
  next form hform => exact h _ (all_optionalDefault? hform hformal)
  next => exact hR.pure trivial

theorem bindIn (frame : FrameId) (mode : Mode) {args formals : List Value}
    (hargs : ∀ a ∈ args, a.Within T) (hformals : ∀ x ∈ formals, x.Within T) :
    R Unit (fun _ => True) (bindIn f frame mode args formals)
      (bindIn g frame mode args formals) := by
  have hnil : ∀ a ∈ ([] : List Value), a.Within T := fun a ha => absurd ha List.not_mem_nil
  induction formals generalizing mode args with
  | nil =>
      rw [Eval.bindIn, Eval.bindIn]
      split
      · exact hR.pure trivial
      · exact hR.throw _
  | cons formal formals ih =>
      obtain ⟨hformal, hformals⟩ := List.forall_mem_cons.1 hformals
      rw [bindIn.eq_def f, bindIn.eq_def g]
      dsimp only
      split
      next m _ => exact ih m hargs hformals
      next =>
        cases mode with
        | required =>
            cases args with
            | nil => exact hR.throw _
            | cons a as =>
                obtain ⟨ha, has⟩ := List.forall_mem_cons.1 hargs
                exact hR.bind (hR.define _ _ ha) fun _ _ => ih _ has hformals
        | optional =>
            refine hR.bind (P := fun _ => True) (hR.ofFault fun _ _ => trivial) fun name _ => ?_
            cases args with
            | nil =>
                exact hR.bind (hR.missingOptional h hformal) fun v hv =>
                  hR.bind (hR.define _ _ hv) fun _ _ => ih _ hnil hformals
            | cons a as =>
                obtain ⟨ha, has⟩ := List.forall_mem_cons.1 hargs
                exact hR.bind (hR.define _ _ ha) fun _ _ => ih _ has hformals
        | rest =>
            exact hR.bind (hR.define _ _ (Value.all_list.2 hargs)) fun _ _ => ih _ hnil hformals

/-! ## Templates -/

mutual

theorem fill (level : Nat) (v : Value) (hv : v.Within T) :
    R Value (Value.Within T) (fill f level v) (fill g level v) := by
  cases v with
  | list xs =>
      rw [Eval.fill, Eval.fill]
      exact hR.bind (fillItems level xs (Value.all_list.1 hv)) fun _ hys =>
        hR.pure (Value.all_list.2 hys)
  | dotted xs tail =>
      obtain ⟨hxs, htail⟩ := Value.all_dotted.1 hv
      have hjoin : ∀ x y, R Value (Value.Within T) x y →
          R Value (Value.Within T) (x >>= fun t =>
            do return .dotted (← Eval.fillItems f level xs) t)
            (y >>= fun t => do return .dotted (← Eval.fillItems g level xs) t) := fun x y hxy =>
        hR.bind hxy fun _ ht => hR.bind (fillItems level xs hxs) fun _ hys =>
          hR.pure (Value.all_dotted.2 ⟨hys, ht⟩)
      rw [fill.eq_def f, fill.eq_def g]
      dsimp only
      split
      next head args =>
        have hitems := Value.all_list.1 htail
        split
        next =>
          split
          next x r => exact hjoin _ _ (h x (hitems x (by simp)))
          next => exact hjoin _ _ (hR.throw _)
        next =>
          exact hjoin _ _ (hR.map (fillItems level (head :: args) hitems) fun _ => Value.all_list.2)
      next => exact hjoin _ _ (fill level tail htail)
  | _ => exact hR.pure hv
termination_by sizeOf v

theorem fillItems (level : Nat) (vs : List Value) (hvs : ∀ v ∈ vs, v.Within T) :
    R (List Value) (fun ys => ∀ y ∈ ys, y.Within T) (fillItems f level vs)
      (fillItems g level vs) := by
  cases vs with
  | nil => exact hR.pure (by simp)
  | cons v vs =>
      obtain ⟨hv, hvs⟩ := List.forall_mem_cons.1 hvs
      have hjoin : ∀ x y, R (List Value) (fun ys => ∀ y ∈ ys, y.Within T) x y →
          R (List Value) (fun ys => ∀ y ∈ ys, y.Within T)
            (x >>= fun first => do return first ++ (← Eval.fillItems f level vs))
            (y >>= fun first => do return first ++ (← Eval.fillItems g level vs)) := fun x y hxy =>
        hR.bind hxy fun _ hys => hR.bind (fillItems level vs hvs) fun _ hzs =>
          hR.pure (List.forall_mem_append.2 ⟨hys, hzs⟩)
      have hone : ∀ w : Value, w.Within T → ∀ y ∈ [w], y.Within T := fun w hw =>
        List.forall_mem_singleton.2 hw
      rw [fillItems.eq_def f, fillItems.eq_def g]
      dsimp only
      split
      next head args =>
        have hitems := Value.all_list.1 hv
        split
        next =>
          split
          next x r =>
            exact hjoin _ _ (hR.map (fill (level + 1) x (hitems x (by simp))) fun w hw =>
              hone _ (by simpa using hw))
          next => exact hjoin _ _ (hR.throw _)
        next =>
          split
          next x r => exact hjoin _ _ (hR.map (h x (hitems x (by simp))) hone)
          next => exact hjoin _ _ (hR.throw _)
        next =>
          split
          next x r =>
            exact hjoin _ _ (hR.bind (h x (hitems x (by simp))) fun _ hw =>
              hR.ofExcept fun _ hys => all_splicedItems hys hw)
          next => exact hjoin _ _ (hR.pure (by simp))
        next =>
          exact hjoin _ _ (hR.map (fillItems level (head :: args) hitems) fun _ hys =>
            hone _ (Value.all_list.2 hys))
      next => exact hjoin _ _ (hR.map (fill level v hv) hone)
termination_by sizeOf vs

end

theorem sequence {last : Value} {forms : List Value} (hlast : last.Within T)
    (hforms : ∀ x ∈ forms, x.Within T) :
    R Value (Value.Within T) (sequence f last forms) (sequence g last forms) := by
  induction forms generalizing last with
  | nil => exact hR.pure hlast
  | cons form forms ih =>
      obtain ⟨hform, hforms⟩ := List.forall_mem_cons.1 hforms
      exact hR.bind (h form hform) fun v hv => ih hv hforms

end Parameters

/-! ## Functions -/

theorem lookup (f : FrameId) (name : Value) :
    R Value (Value.Within T) (lookup f name) (lookup f name) :=
  hR.ask fun _ hs _ hv => hs.lookup hv

theorem applyPredicate (cls : ClassId) (args : List Value) :
    R Value (Value.Within T) (applyPredicate cls args) (applyPredicate cls args) := by
  refine hR.get fun s _ => ?_
  split
  · exact hR.pure trivial
  · exact hR.throw _

theorem applyReader (cls : ClassId) (name slot : Symbol) (args : List Value) :
    R Value (Value.Within T) (applyReader cls name slot args) (applyReader cls name slot args) := by
  refine hR.get fun s hs => ?_
  split
  · split
    · split
      · exact hR.ofExcept fun _ hv => hs.readSlot hv
      · exact hR.throw _
    · exact hR.throw _
  · exact hR.throw _

theorem mark {v : Value} (hv : v.Within T) :
    R Value (Value.Within T) (Eval.create fun s => s.mark v) (Eval.create fun s => s.mark v) :=
  hR.create fun s hs => ⟨.counters s.closures _, hs.counters _ _, Value.all_mark hv _⟩

theorem arithmetic {x : Except Error Value} (hx : ∀ v, x = .ok v → v.Within T) :
    R Value (Value.Within T) (arithmetic x) (arithmetic x) :=
  hR.bind (hR.ofExcept hx) fun _ hv => hR.mark hv

theorem makeLambda {args : List Value} (hargs : ∀ a ∈ args, a.Within T) (env : FrameId) :
    R Value (Value.Within T) (makeLambda args env) (makeLambda args env) := by
  unfold Eval.makeLambda
  split
  · exact hR.throw _
  next params body =>
    split
    · exact hR.throw _
    next formals hformals =>
      obtain ⟨hparams, hbody⟩ := List.forall_mem_cons.1 hargs
      refine hR.bind (P := fun _ => True)
        (hR.create fun s hs => ⟨.counters _ s.marks, hs.counters _ _, trivial⟩) fun _ _ => ?_
      exact hR.pure (Value.all_closure.2
        ⟨Value.all_of_items? hformals (all_listOfNil hparams), all_bodyForm hbody⟩)

theorem defineMacro {args : List Value} (hargs : ∀ a ∈ args, a.Within T) (env : FrameId)
    (macros : MacroTableId) :
    R Value (Value.Within T) (defineMacro args env macros) (defineMacro args env macros) := by
  unfold Eval.defineMacro
  split
  next name params form body =>
    split
    next n =>
      split
      · exact hR.throw _
      · split
        · exact hR.throw _
        next formals hformals =>
          obtain ⟨hparams, hforms⟩ := List.forall_mem_cons.1 (List.forall_mem_cons.1 hargs).2
          have hclosure :
            (Transformer.closure formals (bodyForm (withoutDescription (form :: body)))
              env).Within T :=
            ⟨Value.all_of_items? hformals (all_listOfNil hparams),
              all_bodyForm (all_withoutDescription hforms)⟩
          exact hR.bind (hR.update fun _ hs =>
            ⟨.defineTransformer _ _ _, hs.defineTransformer _ _ hclosure⟩)
            fun _ _ => hR.pure trivial
    · exact hR.throw _
  · exact hR.throw _

theorem transformClass {args : List Value} (hargs : ∀ a ∈ args, a.Within T) (env : FrameId) :
    R Value (Value.Within T) (transformClass args env) (transformClass args env) :=
  hR.bind (hR.ask fun _ hs _ h => State.all_expandClass h hs.settings hargs) fun _ hform =>
    hR.mark hform

section Evaluation

variable {eval eval' : Evaluator}
  (h : ∀ (form : Value) (env : FrameId) (macros : MacroTableId), form.Within T → T macros →
    R Value (Value.Within T) (eval form env macros) (eval' form env macros))

include h

theorem applyClosure {formals args : List Value} {body : Value} (frame : FrameId)
    {macros : MacroTableId} (hm : T macros) (hformals : ∀ x ∈ formals, x.Within T)
    (hbody : body.Within T) (hargs : ∀ a ∈ args, a.Within T) :
    R Value (Value.Within T) (applyClosure eval formals body frame args macros)
      (applyClosure eval' formals body frame args macros) := by
  refine hR.bind (P := fun _ => True) ?_ fun f _ => h body f macros hbody hm
  refine hR.bind (P := fun _ => True)
    (hR.create fun _ hs => ⟨.childFrame _, hs.childFrame _, trivial⟩) fun f _ => ?_
  exact hR.bind (hR.bindIn (fun v hv => h v f macros hv hm) f .required hargs hformals) fun _ _ =>
    hR.pure trivial

theorem initialValue {c : Class} {initargs : Table Value} {slot : Slot}
    (hinitargs : ∀ e ∈ initargs.entries, e.2.Within T)
    (hslot : ∀ v ∈ slot.default, v.Within T ∧ T c.macros) :
    R (Option Value) (fun r => ∀ v ∈ r, v.Within T) (initialValue eval c initargs slot)
      (initialValue eval' c initargs slot) := by
  have hsome : ∀ v : Value, v.Within T → ∀ w ∈ some v, w.Within T := fun v hv w hw =>
    Option.some.inj hw ▸ hv
  unfold Eval.initialValue
  split
  next v hv =>
    refine hR.pure (hsome v ?_)
    unfold Slot.argument? at hv
    split at hv
    next => exact hinitargs _ (Table.mem_of_get? hv)
    next => exact absurd hv (by simp)
  next =>
    split
    next => exact hR.pure (by simp)
    next form hform =>
      obtain ⟨hwithin, hm⟩ := hslot form hform
      refine hR.bind (h form _ _ hwithin hm) fun v hv => ?_
      split
      · exact hR.throw _
      · exact hR.pure (hsome _ hv)

theorem initialValues {c : Class} {initargs values : Table Value} {slots : List Slot}
    (hinitargs : ∀ e ∈ initargs.entries, e.2.Within T)
    (hslots : ∀ slot ∈ slots, ∀ v ∈ slot.default, v.Within T ∧ T c.macros)
    (hvalues : ∀ e ∈ values.entries, e.2.Within T) :
    R (Table Value) (fun vs => ∀ e ∈ vs.entries, e.2.Within T)
      (initialValues eval c initargs slots values)
      (initialValues eval' c initargs slots values) := by
  induction slots generalizing values with
  | nil => exact hR.pure hvalues
  | cons slot slots ih =>
      obtain ⟨hslot, hslots⟩ := List.forall_mem_cons.1 hslots
      refine hR.bind (hR.initialValue h hinitargs hslot) fun v hv => ?_
      cases v with
      | none => exact ih hslots hvalues
      | some v =>
          refine ih hslots fun e he => ?_
          rcases Table.mem_insert he with rfl | he
          · exact hv v rfl
          · exact hvalues e he

theorem construct (cls : ClassId) {args : List Value} (hargs : ∀ a ∈ args, a.Within T) :
    R Value (Value.Within T) (construct eval cls args) (construct eval' cls args) := by
  refine hR.get fun s hs => ?_
  refine hR.bind (P := fun initargs : Table Value => ∀ e ∈ initargs.entries, e.2.Within T)
    (hR.ofExcept fun _ h => all_initargTable h hargs) fun initargs hinitargs => ?_
  refine hR.bind (P := fun _ => True) (hR.ofExcept fun _ _ => trivial) fun _ _ => ?_
  refine hR.bind (hR.initialValues h hinitargs (fun slot hslot v hv =>
    ⟨(hs.getClass hslot).defaults slot hslot v hv, (hs.getClass hslot).macros⟩)
    fun e he => absurd he List.not_mem_nil) fun values hvalues => ?_
  exact hR.bind (P := fun _ => True)
    (hR.create fun _ ht => ⟨.addInstance _, ht.addInstance hvalues, trivial⟩) fun _ _ =>
      hR.pure trivial

theorem callBuiltin (b : Builtin) {args : List Value} (hargs : ∀ a ∈ args, a.Within T)
    (env : FrameId) :
    R Value (Value.Within T) (callBuiltin eval b args env) (callBuiltin eval' b args env) := by
  unfold Eval.callBuiltin
  cases b with
  | add => exact hR.arithmetic fun _ hv => Arithmetic.all_sum hv hargs
  | sub => exact hR.arithmetic fun _ hv => Arithmetic.all_difference hv hargs
  | mul => exact hR.arithmetic fun _ hv => Arithmetic.all_product hv hargs
  | div => exact hR.arithmetic fun _ hv => Arithmetic.all_quotient hv hargs
  | equals => exact hR.get fun _ _ => hR.pure trivial
  | less =>
      exact hR.get fun _ _ => hR.bind (P := fun _ => True)
          (hR.ofFault fun _ _ => trivial) fun _ _ =>
        hR.pure trivial
  | greater =>
      exact hR.get fun _ _ => hR.bind (P := fun _ => True)
          (hR.ofFault fun _ _ => trivial) fun _ _ =>
        hR.pure trivial
  | not =>
      dsimp only
      split
      · exact hR.pure trivial
      · exact hR.throw _
  | cons =>
      dsimp only
      split
      · exact hR.pure (Value.all_cons (hargs _ (by simp)) (hargs _ (by simp)))
      · exact hR.throw _
  | car =>
      dsimp only
      split
      · exact hR.ofFault fun _ hw => Value.all_car hw (hargs _ (by simp))
      · exact hR.throw _
  | cdr =>
      dsimp only
      split
      · exact hR.ofFault fun _ hw => Value.all_cdr hw (hargs _ (by simp))
      · exact hR.throw _
  | list => exact hR.pure (Value.all_list.2 hargs)
  | vector => exact hR.pure (Value.all_vector.2 hargs)
  | makeTable =>
      dsimp only
      split
      · exact hR.throw _
      · exact hR.ofFault fun _ hv => Value.all_ofPairs hv hargs
  | signal => exact hR.throw _
  | typeOf =>
      dsimp only
      split
      · exact hR.get fun _ _ => hR.pure trivial
      · exact hR.throw _
  | makeInstance =>
      dsimp only
      split
      · exact hR.throw _
      · exact hR.bind (P := fun _ => True) (hR.ask fun _ _ _ _ => trivial) fun c _ =>
          hR.construct h c (List.forall_mem_cons.1 hargs).2
  | slotValue =>
      dsimp only
      split
      · exact hR.bind (P := fun _ => True) (hR.ofExcept fun _ _ => trivial) fun _ _ =>
          hR.ask fun _ hs _ hv => hs.readSlot hv
      · exact hR.throw _
  | setSlotValue =>
      dsimp only
      split
      next v name w =>
        have hw := hargs w (by simp)
        refine hR.bind (P := fun _ => True) (hR.ofExcept fun _ _ => trivial) fun i _ => ?_
        rw [← bind_assoc]
        refine hR.bind (hR.change fun s hs t ht => ?_) fun _ _ => hR.pure hw
        obtain ⟨slot, -, ht⟩ := bind_eq_ok ht
        obtain rfl := Except.ok.inj ht
        exact ⟨.setSlot i slot.name w, hs.setSlot i slot.name hw⟩
      · exact hR.throw _
  | slotBound =>
      dsimp only
      split
      · exact hR.bind (P := fun _ => True) (hR.ofExcept fun _ _ => trivial) fun _ _ =>
          hR.bind (P := fun _ => True) (hR.ask fun _ _ _ _ => trivial) fun _ _ => hR.pure trivial
      · exact hR.throw _
  | classOf =>
      dsimp only
      split
      · exact hR.bind (P := fun _ => True) (hR.ofExcept fun _ _ => trivial) fun _ _ =>
          hR.get fun _ _ => hR.pure trivial
      · exact hR.throw _

/-- A function that calls its first argument goes on with a table of its own, which is one in `T`
too. -/
theorem apply {fn : Value} (hfn : fn.Within T) (env : FrameId) {macros : MacroTableId}
    (hm : T macros) {args : List Value} (hargs : ∀ a ∈ args, a.Within T) :
    R Value (Value.Within T) (apply eval fn env macros args) (apply eval' fn env macros args) := by
  induction args generalizing fn macros with
  | nil =>
      unfold Eval.apply
      split
      next =>
        obtain ⟨hformals, hbody⟩ := Value.all_closure.1 hfn
        exact hR.applyClosure h _ hm hformals hbody hargs
      · exact hR.callBuiltin h _ hargs _
      · exact hR.throw _
      · exact hR.construct h _ hargs
      · exact hR.applyPredicate _ _
      · exact hR.applyReader _ _ _ _
      · exact hR.throw _
      · exact hR.throw _
  | cons a args ih =>
      unfold Eval.apply
      split
      next =>
        obtain ⟨hformals, hbody⟩ := Value.all_closure.1 hfn
        exact hR.applyClosure h _ hm hformals hbody hargs
      · exact hR.callBuiltin h _ hargs _
      next =>
        obtain ⟨ha, hargs⟩ := List.forall_mem_cons.1 hargs
        exact ih ha (Value.all_function.1 hfn) hargs
      · exact hR.construct h _ hargs
      · exact hR.applyPredicate _ _
      · exact hR.applyReader _ _ _ _
      · exact hR.throw _
      · exact hR.throw _

theorem application {head : Value} {args : List Value} (hhead : head.Within T)
    (hargs : ∀ a ∈ args, a.Within T) (env : FrameId) {macros : MacroTableId} (hm : T macros) :
    R Value (Value.Within T) (application eval head args env macros)
      (application eval' head args env macros) :=
  hR.bind (h head env macros hhead hm) fun _ hfn =>
    hR.bind (hR.mapM fun a ha => h a env macros (hargs a ha) hm) fun _ hvs =>
      hR.apply h hfn env hm hvs

/-! ## Macro calls -/

theorem transform {x : Transformer} {args : List Value} (hx : x.Within T)
    (hargs : ∀ a ∈ args, a.Within T) (env : FrameId) {macros : MacroTableId} (hm : T macros) :
    R Value (Value.Within T) (transform eval x args env macros)
      (transform eval' x args env macros) := by
  cases x with
  | closure formals body f => exact hR.applyClosure h _ hm hx.1 hx.2 hargs
  | letForm => exact hR.ofExcept fun _ hform => all_expandLet hform hargs
  | functionForm => exact hR.ofExcept fun _ hform => all_expandDefun hform hargs
  | inferredClassForm => exact hR.transformClass hargs _

theorem expandOnce {form : Value} (hform : form.Within T) (env : FrameId) {macros : MacroTableId}
    (hm : T macros) :
    R Value (Value.Within T) (expandOnce eval form env macros)
      (expandOnce eval' form env macros) := by
  refine hR.get fun s hs => ?_
  split
  next x args hcall =>
    unfold State.macroCall? at hcall
    split at hcall
    next name as hitems =>
      obtain ⟨y, hy, heq⟩ := Option.map_eq_some_iff.1 hcall
      obtain ⟨rfl, rfl⟩ := Prod.mk.inj heq
      exact hR.transform h (hs.transformer? hy)
        (List.forall_mem_cons.1 (Value.all_of_items? hitems hform)).2 _ hm
    next => exact absurd hcall (by simp)
  next => exact hR.pure hform

theorem expandHead (env : FrameId) {macros : MacroTableId} (hm : T macros) {fuel fuel' : Nat}
    (hle : fuel ≤ fuel') {form : Value} (hform : form.Within T) :
    R Value (Value.Within T) (expandHead eval env macros fuel form)
      (expandHead eval' env macros fuel' form) := by
  induction fuel generalizing fuel' form with
  | zero => exact hR.outOfFuel _
  | succ fuel ih =>
      obtain ⟨fuel', rfl⟩ := Nat.exists_eq_add_of_lt hle
      rw [Eval.expandHead, Eval.expandHead]
      refine hR.bind (hR.expandOnce h hform env hm) fun next hnext => hR.get fun s _ => ?_
      split
      · exact hR.pure hform
      · exact ih (Nat.le_add_right _ _) hnext

theorem expandAll (env : FrameId) {macros : MacroTableId} (hm : T macros) {fuel fuel' : Nat}
    (hle : fuel ≤ fuel') {form : Value} (hform : form.Within T) :
    R Value (Value.Within T) (expandAll eval env macros fuel form)
      (expandAll eval' env macros fuel' form) := by
  induction fuel generalizing fuel' form with
  | zero => exact hR.outOfFuel _
  | succ fuel ih =>
      obtain ⟨fuel', rfl⟩ := Nat.exists_eq_add_of_lt hle
      have ih : ∀ v : Value, v.Within T → _ := fun v hv => ih (Nat.le_add_right fuel fuel') hv
      rw [Eval.expandAll, Eval.expandAll]
      refine hR.bind (hR.expandHead h env hm hle hform) fun v hv => ?_
      split
      next items =>
        have hitems := Value.all_list.1 hv
        split
        · exact hR.pure hv
        · exact hR.bind (hR.mapM fun x hx => ih x (hitems x hx)) fun _ hys =>
            hR.pure (Value.all_list.2 hys)
      next items tail =>
        obtain ⟨hitems, htail⟩ := Value.all_dotted.1 hv
        exact hR.bind (hR.mapM fun x hx => ih x (hitems x hx)) fun _ hys => hR.bind (ih tail htail)
          fun _ hr => hR.pure (Value.all_dotted.2 ⟨hys, hr⟩)
      next => exact hR.pure hv

/-! ## Special forms -/

theorem special {fuel fuel' : Nat} (hle : fuel ≤ fuel') (form : SpecialForm) {args : List Value}
    (hargs : ∀ a ∈ args, a.Within T) (env : FrameId) {macros : MacroTableId} (hm : T macros) :
    R Value (Value.Within T) (special eval fuel form args env macros)
      (special eval' fuel' form args env macros) := by
  unfold Eval.special
  cases form with
  | assign =>
      refine hR.bind (P := fun p => p.2.Within T)
        (hR.ofExcept fun _ hp => all_bindingParts hp hargs) fun p hp => ?_
      exact hR.bind (h p.2 env macros hp hm) fun v hv =>
        hR.bind (hR.assign _ _ hv) fun _ _ => hR.pure hv
  | define =>
      refine hR.bind (P := fun p => p.2.Within T)
        (hR.ofExcept fun _ hp => all_bindingParts hp hargs) fun p hp => ?_
      exact hR.bind (h p.2 env macros hp hm) fun v hv =>
        hR.bind (hR.define _ _ hv) fun _ _ => hR.pure trivial
  | progn => exact hR.sequence (fun v hv => h v env macros hv hm) trivial hargs
  | macroDefinition => exact hR.defineMacro hargs _ _
  | classDefinition => exact hR.defineClass hargs _ hm
  | quote =>
      dsimp only
      split
      · exact hR.pure (hargs _ (by simp))
      · exact hR.throw _
  | quasiquote =>
      dsimp only
      split
      · exact hR.fill (fun v hv => h v env macros hv hm) 1 _ (hargs _ (by simp))
      · exact hR.throw _
  | unquote => exact hR.throw _
  | unquoteSplicing => exact hR.throw _
  | function =>
      dsimp only
      split
      · exact hR.lookup _ _
      · exact h _ _ _ (hargs _ (by simp)) hm
      · exact hR.throw _
  | lambda => exact hR.makeLambda hargs _
  | conditional =>
      dsimp only
      split
      next test yes rest =>
        refine hR.bind (h test env macros (hargs _ (by simp)) hm) fun v _ => ?_
        split
        · exact h yes env macros (hargs _ (by simp)) hm
        · split
          · exact h _ env macros (hargs _ (by simp)) hm
          · exact hR.pure trivial
      next => exact hR.throw _
  | expandOnce =>
      exact hR.bind (hR.ofExcept fun _ hform => all_formToExpand hform hargs) fun _ hform =>
        hR.expandOnce h hform env hm
  | expandAll =>
      exact hR.bind (hR.ofExcept fun _ hform => all_formToExpand hform hargs) fun _ hform =>
        hR.expandAll h env hm hle hform

theorem symbolForm {fuel fuel' : Nat} (hle : fuel ≤ fuel') (head : Symbol) {args : List Value}
    (hargs : ∀ a ∈ args, a.Within T) (env : FrameId) {macros : MacroTableId} (hm : T macros) :
    R Value (Value.Within T) (symbolForm eval fuel head args env macros)
      (symbolForm eval' fuel' head args env macros) := by
  refine hR.get fun s hs => ?_
  split
  next x hx =>
    exact hR.bind (hR.transform h (hs.transformer? hx) hargs _ hm) fun form hform =>
      h form env macros hform hm
  next =>
    split
    · exact hR.special h hle _ hargs _ hm
    · exact hR.application h (Value.all_symbol head) hargs _ hm

theorem step {fuel fuel' : Nat} (hle : fuel ≤ fuel') {form : Value} (hform : form.Within T)
    (env : FrameId) {macros : MacroTableId} (hm : T macros) :
    R Value (Value.Within T) (step eval fuel form env macros)
      (step eval' fuel' form env macros) := by
  unfold Eval.step
  split
  next => exact hR.throw _
  next => exact hR.throw _
  next => exact hR.symbolForm h hle _ (List.forall_mem_cons.1 (Value.all_list.1 hform)).2 _ hm
  next =>
    obtain ⟨hhead, hargs⟩ := List.forall_mem_cons.1 (Value.all_list.1 hform)
    exact hR.application h hhead hargs _ hm
  next =>
    split
    · exact hR.pure hform
    · exact hR.lookup _ _
  next => exact hR.pure hform

end Evaluation

/-- Two evaluations of a form are related if the second has at least as much fuel. -/
theorem evaluate {fuel fuel' : Nat} (hle : fuel ≤ fuel') {form : Value} (hform : form.Within T)
    (env : FrameId) {macros : MacroTableId} (hm : T macros) :
    R Value (Value.Within T) (evaluate fuel form env macros) (evaluate fuel' form env macros) := by
  induction fuel generalizing fuel' form env macros with
  | zero => exact hR.outOfFuel _
  | succ fuel ih =>
      obtain ⟨fuel', rfl⟩ := Nat.exists_eq_add_of_lt hle
      have hle' := Nat.le_add_right fuel fuel'
      exact hR.step (fun form env macros hform hm => ih hle' hform env hm) hle' hform env hm

end Simulation
end Eval
end SlotLisp
