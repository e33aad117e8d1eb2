import SlotLisp.Eval.Evaluate
import SlotLisp.Proofs.Classes.Slot
import SlotLisp.Proofs.Evaluation.Binding

/-!
Applying functions keeps states sound, provided that the evaluations this takes do.
-/

namespace SlotLisp

/-! ## Arguments of builtin functions -/

namespace State

variable {s : State}

theorem instanceArgument_lt {function : String} {v : Value} {i : InstanceId}
    (h : instanceArgument function v = .ok i) (hv : s.Knows v) : i < s.instances.size := by
  unfold instanceArgument at h
  split at h
  next j hj => obtain rfl := Except.ok.inj h; exact Knows.isInstance? hv hj
  next => exact absurd h (by simp)

theorem classArgument_lt (hs : s.Sound) {env : FrameId} {v : Value} {c : ClassId}
    (h : s.classArgument env v = .ok c) (hv : s.Knows v) : c < s.classes.size := by
  unfold classArgument at h
  split at h
  next =>
    obtain ⟨w, hw, h⟩ := bind_eq_ok h
    have hknown := knows_lookup hs hw
    dsimp only at h
    split at h
    next d hd => obtain rfl := Except.ok.inj h; exact Knows.isClass? hknown hd
    next => exact absurd h (by simp [throw, throwThe, MonadExceptOf.throw])
  next =>
    obtain ⟨w, hw, h⟩ := bind_eq_ok h
    obtain rfl := Except.ok.inj hw
    dsimp only at h
    split at h
    next d hd => obtain rfl := Except.ok.inj h; exact Knows.isClass? hv hd
    next => exact absurd h (by simp [throw, throwThe, MonadExceptOf.throw])

end State

namespace Eval

variable {s : State} {eval : Evaluator} (heval : Evaluator.Keeps eval)

include heval

/-! ## Closures -/

theorem keeps_bindParameters {formals args : List Value} (outer : FrameId) (macros : MacroTableId)
    (hformals : ∀ x ∈ formals, s.Knows x) (hargs : ∀ a ∈ args, s.Knows a) :
    Keeps s (bindParameters (fun f form => eval form f macros) formals args outer)
      fun _ _ => True := by
  refine keeps_bind (Q := fun _ _ => True)
    (keeps_create fun hs => ⟨State.leads_childFrame hs outer, trivial⟩) fun t f ht _ => ?_
  refine keeps_bind (keeps_bindIn f .required (fun u v _ hv => heval u v f macros hv)
    (fun a ha => ht.grows.knows (hargs a ha)) fun x hx => ht.grows.knows (hformals x hx))
    fun _ _ _ _ => keeps_pure trivial

theorem keeps_applyClosure {formals args : List Value} {body : Value} (frame : FrameId)
    (macros : MacroTableId) (hformals : ∀ x ∈ formals, s.Knows x) (hbody : s.Knows body)
    (hargs : ∀ a ∈ args, s.Knows a) :
    KeepsValue s (applyClosure eval formals body frame args macros) :=
  keeps_bind (keeps_bindParameters heval frame macros hformals hargs) fun t f ht _ =>
    heval t body f macros (ht.grows.knows hbody)

/-! ## Instances -/

theorem keeps_initialValue {c : Class} {initargs : Table Value} {slot : Slot}
    (hinitargs : ∀ e ∈ initargs.entries, s.Knows e.2) (hslot : ∀ v ∈ slot.default, s.Knows v) :
    Keeps s (initialValue eval c initargs slot) fun t r => ∀ v ∈ r, t.Knows v := by
  unfold initialValue
  split
  next v hv =>
    refine keeps_pure fun w hw => ?_
    obtain rfl := Option.some.inj hw
    unfold Slot.argument? at hv
    split at hv
    next => exact hinitargs _ (Table.mem_of_get? hv)
    next => exact absurd hv (by simp)
  next =>
    split
    next => exact keeps_pure (by simp)
    next form hform =>
      refine keeps_bind (heval s form c.frame c.macros (hslot form hform)) fun t v _ hv => ?_
      split
      next => exact keeps_throw _
      next => exact keeps_pure fun w hw => by obtain rfl := Option.some.inj hw; exact hv

theorem keeps_initialValues {c : Class} {initargs values : Table Value} {slots : List Slot}
    {names : List Symbol} (hinitargs : ∀ e ∈ initargs.entries, s.Knows e.2)
    (hslots : ∀ slot ∈ slots, slot.name ∈ names ∧ ∀ v ∈ slot.default, s.Knows v)
    (hvalues : ∀ e ∈ values.entries, e.1 ∈ names ∧ s.Knows e.2) :
    Keeps s (initialValues eval c initargs slots values)
      fun t vs => ∀ e ∈ vs.entries, e.1 ∈ names ∧ t.Knows e.2 := by
  induction slots generalizing s values with
  | nil => exact keeps_pure hvalues
  | cons slot slots ih =>
      rw [initialValues]
      have hslot := hslots slot (by simp)
      refine keeps_bind (keeps_initialValue heval hinitargs hslot.2) fun t r ht hr => ?_
      have hinitargs' : ∀ e ∈ initargs.entries, t.Knows e.2 :=
        fun e he => ht.grows.knows (hinitargs e he)
      have hslots' : ∀ slot ∈ slots, slot.name ∈ names ∧ ∀ v ∈ slot.default, t.Knows v :=
        fun x hx => ⟨(hslots x (by simp [hx])).1,
          fun v hv => ht.grows.knows ((hslots x (by simp [hx])).2 v hv)⟩
      have hvalues' : ∀ e ∈ values.entries, e.1 ∈ names ∧ t.Knows e.2 :=
        fun e he => ⟨(hvalues e he).1, ht.grows.knows (hvalues e he).2⟩
      cases r with
      | none => exact ih hinitargs' hslots' hvalues'
      | some v =>
          refine ih hinitargs' hslots' fun e he => ?_
          rcases Table.mem_insert he with rfl | he
          · exact ⟨hslot.1, hr v rfl⟩
          · exact hvalues' e he

theorem keeps_construct {cls : ClassId} {args : List Value} (hcls : cls < s.classes.size)
    (hargs : ∀ a ∈ args, s.Knows a) : KeepsValue s (construct eval cls args) := by
  intro hs
  have hclass := State.getClass_sound hs hcls
  refine keeps_get (R := fun t v => t.Knows v) ?_ hs
  refine keeps_bind (Q := fun t table => ∀ e ∈ table.entries, t.Knows e.2)
    (keeps_ofExcept fun _ h => all_initargTable h hargs) fun t initargs ht hinitargs => ?_
  refine keeps_bind (Q := fun _ _ => True) (keeps_ofExcept fun _ _ => trivial) fun u _ hu _ => ?_
  have hgrows := (ht.trans hu).grows
  refine keeps_bind (keeps_initialValues heval (fun e he => hu.grows.knows (hinitargs e he))
    (fun slot hslot => ⟨List.mem_map_of_mem hslot,
      fun v hv => hgrows.knows (hclass.defaults slot hslot v hv)⟩)
    (fun e he => absurd he List.not_mem_nil)) fun w values hw hvalues => ?_
  have hgrows' := hgrows.trans hw.grows
  refine keeps_bind (Q := fun x i => i < x.instances.size) (keeps_create fun hsound =>
    ⟨State.leads_addInstance hsound ⟨Nat.lt_of_lt_of_le hcls hgrows'.classes, ?_⟩, ?_⟩)
    fun _ _ _ hi => keeps_pure hi
  · rw [hgrows'.getClass hcls]
    exact hvalues
  · simp [State.addInstance]
/-! ## Builtin functions -/

omit heval in
theorem keeps_mark {v : Value} (hv : s.Knows v) : KeepsValue s (create fun s => s.mark v) :=
  keeps_create fun hs => ⟨State.leads_of_counters hs _ _, Value.all_mark hv _⟩

omit heval in
theorem keeps_arithmetic {x : Except Error Value} (hx : ∀ v, x = .ok v → s.Knows v) :
    KeepsValue s (arithmetic x) :=
  keeps_bind (keeps_ofExcept hx) fun _ _ _ hv => keeps_mark hv

theorem keeps_callBuiltin (b : Builtin) {args : List Value} (env : FrameId)
    (hargs : ∀ a ∈ args, s.Knows a) : KeepsValue s (callBuiltin eval b args env) := by
  unfold callBuiltin
  cases b with
  | add => exact keeps_arithmetic fun v hv => Arithmetic.all_sum hv hargs
  | sub => exact keeps_arithmetic fun v hv => Arithmetic.all_difference hv hargs
  | mul => exact keeps_arithmetic fun v hv => Arithmetic.all_product hv hargs
  | div => exact keeps_arithmetic fun v hv => Arithmetic.all_quotient hv hargs
  | equals => exact keeps_get (keeps_pure trivial)
  | less =>
      exact keeps_get (keeps_bind (Q := fun _ _ => True) (keeps_ofFault fun _ _ => trivial)
        fun _ _ _ _ => keeps_pure trivial)
  | greater =>
      exact keeps_get (keeps_bind (Q := fun _ _ => True) (keeps_ofFault fun _ _ => trivial)
        fun _ _ _ _ => keeps_pure trivial)
  | not =>
      dsimp only
      split
      · exact keeps_pure trivial
      · exact keeps_throw _
  | cons =>
      dsimp only
      split
      · exact keeps_pure (Value.all_cons (hargs _ (by simp)) (hargs _ (by simp)))
      · exact keeps_throw _
  | car =>
      dsimp only
      split
      · exact keeps_ofFault fun w hw => Value.all_car hw (hargs _ (by simp))
      · exact keeps_throw _
  | cdr =>
      dsimp only
      split
      · exact keeps_ofFault fun w hw => Value.all_cdr hw (hargs _ (by simp))
      · exact keeps_throw _
  | list => exact keeps_pure (Value.all_list.2 hargs)
  | vector => exact keeps_pure (Value.all_vector.2 hargs)
  | makeTable =>
      dsimp only
      split
      · exact keeps_throw _
      · exact keeps_ofFault fun v hv => Value.all_ofPairs hv hargs
  | signal => exact keeps_throw _
  | typeOf =>
      dsimp only
      split
      · exact keeps_get (keeps_pure trivial)
      · exact keeps_throw _
  | makeInstance =>
      dsimp only
      split
      · exact keeps_throw _
      next v initargs =>
        have hinitargs : ∀ a ∈ initargs, s.Knows a := fun a ha => hargs a (by simp [ha])
        exact keeps_bind (Q := fun t c => c < t.classes.size)
          (keeps_ask fun hs c hc => State.classArgument_lt hs hc (hargs v (by simp)))
          fun t c ht hc => keeps_construct heval hc fun a ha => ht.grows.knows (hinitargs a ha)
  | slotValue =>
      dsimp only
      split
      · exact keeps_bind (Q := fun _ _ => True) (keeps_ofExcept fun _ _ => trivial) fun _ _ _ _ =>
          keeps_ask fun hs _ h => State.knows_readSlot hs h
      · exact keeps_throw _
  | setSlotValue =>
      dsimp only
      split
      next v name w =>
        have hw := hargs w (by simp)
        refine keeps_bind (Q := fun _ _ => True) (keeps_ofExcept fun _ _ => trivial)
          fun t i ht _ => ?_
        refine keeps_bind (Q := fun u x => u.Sound → u.Leads x)
          (keeps_ask fun _ x hx hs => State.leads_writeSlot hs hx (ht.grows.knows hw))
          fun u x hu hx => ?_
        exact keeps_bind (keeps_set hx) fun _ _ hy _ =>
          keeps_pure ((ht.trans (hu.trans hy)).grows.knows hw)
      · exact keeps_throw _
  | slotBound =>
      dsimp only
      split
      · exact keeps_bind (Q := fun _ _ => True) (keeps_ofExcept fun _ _ => trivial) fun _ _ _ _ =>
          keeps_bind (Q := fun _ _ => True) (keeps_ask fun _ _ _ => trivial) fun _ _ _ _ =>
            keeps_pure trivial
      · exact keeps_throw _
  | classOf =>
      dsimp only
      split
      next v =>
        refine keeps_bind (Q := fun t i => i < t.instances.size)
          (keeps_ofExcept fun i hi => State.instanceArgument_lt hi (hargs v (by simp)))
          fun t i _ hi => ?_
        refine keeps_get fun hs => keeps_pure (Q := fun t v => t.Knows v) ?_ hs
        exact State.classOf_lt hs hi
      · exact keeps_throw _

/-! ## Functions of any kind -/

omit heval in
theorem keeps_applyPredicate (cls : ClassId) (args : List Value) :
    KeepsValue s (applyPredicate cls args) := by
  refine keeps_get ?_
  split
  · exact keeps_pure trivial
  · exact keeps_throw _

omit heval in
theorem keeps_applyReader (cls : ClassId) (name slot : Symbol) (args : List Value) :
    KeepsValue s (applyReader cls name slot args) := by
  intro hs
  refine keeps_get (R := fun t v => t.Knows v) ?_ hs
  split
  · split
    · split
      · exact keeps_ofExcept fun v hv => State.knows_readSlot hs hv
      · exact keeps_throw _
    · exact keeps_throw _
  · exact keeps_throw _

theorem keeps_apply {fn : Value} (env : FrameId) (macros : MacroTableId) {args : List Value}
    (hfn : s.Knows fn) (hargs : ∀ a ∈ args, s.Knows a) :
    KeepsValue s (apply eval fn env macros args) := by
  induction args generalizing fn macros with
  | nil =>
      unfold apply
      split
      next =>
        have hcode := Value.all_closure.1 hfn
        exact keeps_applyClosure heval _ macros hcode.1 hcode.2 hargs
      next b => exact keeps_callBuiltin heval b env hargs
      next => exact keeps_throw _
      next => exact keeps_construct heval hfn hargs
      next => exact keeps_applyPredicate _ _
      next => exact keeps_applyReader _ _ _ _
      next => exact keeps_fault _
      next => exact keeps_throw _
  | cons a args ih =>
      unfold apply
      split
      next =>
        have hcode := Value.all_closure.1 hfn
        exact keeps_applyClosure heval _ macros hcode.1 hcode.2 hargs
      next b => exact keeps_callBuiltin heval b env hargs
      next m => exact ih m (hargs a (by simp)) fun b hb => hargs b (by simp [hb])
      next => exact keeps_construct heval hfn hargs
      next => exact keeps_applyPredicate _ _
      next => exact keeps_applyReader _ _ _ _
      next => exact keeps_fault _
      next => exact keeps_throw _

theorem keeps_application {head : Value} {args : List Value} (env : FrameId) (macros : MacroTableId)
    (hhead : s.Knows head) (hargs : ∀ a ∈ args, s.Knows a) :
    KeepsValue s (application eval head args env macros) := by
  refine keeps_bind (heval s head env macros hhead) fun t fn ht hfn => ?_
  refine keeps_bind (keeps_mapM (fun a ha => ht.grows.knows (hargs a ha)) fun u a _ ha =>
    heval u a env macros ha) fun u vs hu hvs => ?_
  exact keeps_apply heval env macros (hu.grows.knows hfn) hvs

end Eval
end SlotLisp
