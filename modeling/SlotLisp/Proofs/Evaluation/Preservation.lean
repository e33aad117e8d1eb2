import SlotLisp.Proofs.Evaluation.Application
import SlotLisp.Proofs.Evaluation.Template

/-!
Evaluation keeps states sound. There is one lemma for each kind of computation that evaluation
consists of, under the assumption that the evaluations it asks for keep states sound; the induction
over fuel comes last.
-/

namespace SlotLisp
namespace Eval

variable {s : State}

/-! ## Class definitions -/

theorem keeps_defineClass {args : List Value} (env : FrameId) (macros : MacroTableId)
    (hargs : ∀ a ∈ args, s.Knows a) : KeepsValue s (defineClass args env macros) := by
  refine keeps_bind (Q := fun t d => d.Sound t)
    (keeps_ask fun hs d hd => State.draft_sound hs hd hargs) fun t d _ hd => ?_
  refine keeps_bind (Q := fun u c => c < u.classes.size ∧ ∀ b ∈ d.bindings c, u.Knows b.2)
    (keeps_create fun hs =>
      ⟨State.leads_addClass hs (State.classOfDraft_sound hs hd env macros), ?_⟩)
    fun u c _ hc => ?_
  · exact ⟨by simp [State.addClass], State.knows_bindings⟩
  · exact keeps_bind (keeps_defineAll env hc.2) fun v _ hv _ =>
      keeps_pure (Nat.lt_of_lt_of_le hc.1 hv.grows.classes)

/-! ## Macro calls -/

section Evaluation

variable {eval : Evaluator} (heval : Evaluator.Keeps eval)

theorem keeps_transformClass {args : List Value} (env : FrameId) (hargs : ∀ a ∈ args, s.Knows a) :
    KeepsValue s (transformClass args env) :=
  keeps_bind (keeps_ask fun hs _ h => State.all_expandClass h hs.settings hargs)
    fun _ _ _ hform => keeps_mark hform

include heval

theorem keeps_transform {x : Transformer} {args : List Value} (env : FrameId)
    (macros : MacroTableId) (hx : x.Known s) (hargs : ∀ a ∈ args, s.Knows a) :
    KeepsValue s (transform eval x args env macros) := by
  cases x with
  | closure formals body f => exact keeps_applyClosure heval f macros hx.1 hx.2 hargs
  | letForm => exact keeps_ofExcept fun _ h => all_expandLet h hargs
  | functionForm => exact keeps_ofExcept fun _ h => all_expandDefun h hargs
  | inferredClassForm => exact keeps_transformClass env hargs

theorem keeps_expandOnce {form : Value} (env : FrameId) (macros : MacroTableId)
    (hform : s.Knows form) : KeepsValue s (expandOnce eval form env macros) := by
  intro hs
  refine keeps_get (R := fun t v => t.Knows v) ?_ hs
  split
  next x args hcall =>
    unfold State.macroCall? at hcall
    split at hcall
    next name as hitems =>
      obtain ⟨y, hy, heq⟩ := Option.map_eq_some_iff.1 hcall
      obtain ⟨rfl, rfl⟩ := Prod.mk.inj heq
      have hargs := Value.all_of_items? hitems hform
      exact keeps_transform heval env macros (hs.transformers macros _ (Table.mem_of_get? hy))
        fun a ha => hargs a (by simp [ha])
    next => exact absurd hcall (by simp)
  next => exact keeps_pure hform

theorem keeps_expandHead (env : FrameId) (macros : MacroTableId) (fuel : Nat) {form : Value}
    (hform : s.Knows form) : KeepsValue s (expandHead eval env macros fuel form) := by
  induction fuel generalizing s form with
  | zero => exact keeps_outOfFuel
  | succ fuel ih =>
      rw [expandHead]
      refine keeps_bind (keeps_expandOnce heval env macros hform) fun t next ht hnext => ?_
      refine keeps_get ?_
      split
      · exact keeps_pure (ht.grows.knows hform)
      · exact ih hnext

theorem keeps_expandAll (env : FrameId) (macros : MacroTableId) (fuel : Nat) {form : Value}
    (hform : s.Knows form) : KeepsValue s (expandAll eval env macros fuel form) := by
  induction fuel generalizing s form with
  | zero => exact keeps_outOfFuel
  | succ fuel ih =>
      rw [expandAll]
      refine keeps_bind (keeps_expandHead heval env macros (fuel + 1) hform) fun t v ht hv => ?_
      split
      next items =>
        have hitems := Value.all_list.1 hv
        split
        · exact keeps_pure hv
        · exact keeps_bind (keeps_mapM hitems fun _ _ _ hx => ih hx) fun _ _ _ hys =>
            keeps_pure (Value.all_list.2 hys)
      next items tail =>
        obtain ⟨hitems, htail⟩ := Value.all_dotted.1 hv
        refine keeps_bind (keeps_mapM hitems fun _ _ _ hx => ih hx) fun u ys hu hys => ?_
        refine keeps_bind (ih (hu.grows.knows htail)) fun w r hw hr => ?_
        exact keeps_pure (Value.all_dotted.2 ⟨fun y hy => hw.grows.knows (hys y hy), hr⟩)
      next => exact keeps_pure hv

/-! ## Special forms -/

omit heval in
theorem keeps_sequence {f : Value → Eval Value} (hf : ∀ t v, t.Knows v → KeepsValue t (f v))
    {last : Value} {forms : List Value} (hlast : s.Knows last) (hforms : ∀ x ∈ forms, s.Knows x) :
    KeepsValue s (sequence f last forms) := by
  induction forms generalizing s last with
  | nil => exact keeps_pure hlast
  | cons form forms ih =>
      exact keeps_bind (hf s form (hforms form (by simp))) fun t v ht hv =>
        ih hv fun x hx => ht.grows.knows (hforms x (by simp [hx]))

omit heval in
theorem keeps_makeLambda {args : List Value} (env : FrameId) (hargs : ∀ a ∈ args, s.Knows a) :
    KeepsValue s (makeLambda args env) := by
  unfold makeLambda
  split
  · exact keeps_throw _
  next params body =>
    split
    · exact keeps_throw _
    next formals hformals =>
      have hparams := Value.all_of_items? hformals (all_listOfNil (hargs params (by simp)))
      have hbody := all_bodyForm fun x hx => hargs x (List.mem_cons_of_mem params hx)
      refine keeps_bind (Q := fun _ _ => True)
        (keeps_create fun hs => ⟨State.leads_of_counters hs _ _, trivial⟩) fun t _ ht _ => ?_
      exact keeps_pure (Value.all_closure.2
        ⟨fun x hx => ht.grows.knows (hparams x hx), ht.grows.knows hbody⟩)

omit heval in
theorem keeps_defineMacro {args : List Value} (env : FrameId) (macros : MacroTableId)
    (hargs : ∀ a ∈ args, s.Knows a) : KeepsValue s (defineMacro args env macros) := by
  unfold defineMacro
  split
  next name params form body =>
    split
    next n =>
      split
      · exact keeps_throw _
      · split
        · exact keeps_throw _
        next formals hformals =>
          have hparams := Value.all_of_items? hformals (all_listOfNil (hargs params (by simp)))
          have hforms : ∀ x ∈ form :: body, s.Knows x := fun x hx =>
            hargs x (List.mem_cons_of_mem _ (List.mem_cons_of_mem _ hx))
          have hbody := all_bodyForm (all_withoutDescription hforms)
          exact keeps_bind (keeps_update fun hs =>
            State.leads_defineTransformer hs macros n ⟨hparams, hbody⟩) fun _ _ _ _ =>
            keeps_pure trivial
    · exact keeps_throw _
  · exact keeps_throw _

theorem keeps_special (fuel : Nat) (form : SpecialForm) {args : List Value} (env : FrameId)
    (macros : MacroTableId) (hargs : ∀ a ∈ args, s.Knows a) :
    KeepsValue s (special eval fuel form args env macros) := by
  cases form with
  | assign =>
      refine keeps_bind (Q := fun t p => t.Knows p.2)
        (keeps_ofExcept fun p hp => all_bindingParts hp hargs) fun t p _ hform => ?_
      refine keeps_bind (heval t p.2 env macros hform) fun u v _ hv => ?_
      exact keeps_bind (keeps_assign env _ hv) fun _ _ hw _ => keeps_pure (hw.grows.knows hv)
  | define =>
      refine keeps_bind (Q := fun t p => t.Knows p.2)
        (keeps_ofExcept fun p hp => all_bindingParts hp hargs) fun t p _ hform => ?_
      refine keeps_bind (heval t p.2 env macros hform) fun u v _ hv => ?_
      exact keeps_bind (keeps_define env _ hv) fun _ _ _ _ => keeps_pure trivial
  | progn => exact keeps_sequence (fun t v hv => heval t v env macros hv) trivial hargs
  | macroDefinition => exact keeps_defineMacro env macros hargs
  | classDefinition => exact keeps_defineClass env macros hargs
  | quote =>
      unfold special
      dsimp only
      split
      · exact keeps_pure (hargs _ (by simp))
      · exact keeps_throw _
  | quasiquote =>
      unfold special
      dsimp only
      split
      · exact keeps_fill (fun t v hv => heval t v env macros hv) 1 _ (hargs _ (by simp))
      · exact keeps_throw _
  | unquote => exact keeps_throw _
  | unquoteSplicing => exact keeps_throw _
  | function =>
      unfold special
      dsimp only
      split
      · exact keeps_lookup _ _
      · exact heval s _ env macros (hargs _ (by simp))
      · exact keeps_throw _
  | lambda => exact keeps_makeLambda env hargs
  | conditional =>
      unfold special
      dsimp only
      split
      next test yes rest =>
        refine keeps_bind (heval s test env macros (hargs test (by simp))) fun t v ht _ => ?_
        split
        · exact heval t yes env macros (ht.grows.knows (hargs yes (by simp)))
        · split
          next no r => exact heval t no env macros (ht.grows.knows (hargs no (by simp)))
          next => exact keeps_pure trivial
      next => exact keeps_throw _
  | expandOnce =>
      exact keeps_bind (keeps_ofExcept fun _ h => all_formToExpand h hargs) fun _ _ _ hform =>
        keeps_expandOnce heval env macros hform
  | expandAll =>
      exact keeps_bind (keeps_ofExcept fun _ h => all_formToExpand h hargs) fun _ _ _ hform =>
        keeps_expandAll heval env macros fuel hform

/-! ## The evaluator -/

theorem keeps_symbolForm (fuel : Nat) (head : Symbol) {args : List Value} (env : FrameId)
    (macros : MacroTableId) (hargs : ∀ a ∈ args, s.Knows a) :
    KeepsValue s (symbolForm eval fuel head args env macros) := by
  intro hs
  refine keeps_get (R := fun t v => t.Knows v) ?_ hs
  split
  next x hx =>
    refine keeps_bind (keeps_transform heval env macros
      (hs.transformers macros _ (Table.mem_of_get? hx)) hargs) fun t form _ hform => ?_
    exact heval t form env macros hform
  next =>
    split
    next form _ => exact keeps_special heval fuel form env macros hargs
    next => exact keeps_application heval env macros trivial hargs

theorem keeps_step (fuel : Nat) : Evaluator.Keeps (step eval fuel) := by
  intro s form env macros hform
  unfold step
  split
  next => exact keeps_throw _
  next => exact keeps_throw _
  next head args =>
    have hitems := Value.all_list.1 hform
    exact keeps_symbolForm heval fuel head env macros fun a ha => hitems a (by simp [ha])
  next head args _ =>
    have hitems := Value.all_list.1 hform
    exact keeps_application heval env macros (hitems head (by simp)) fun a ha =>
      hitems a (by simp [ha])
  next n =>
    split
    · exact keeps_pure hform
    · exact keeps_lookup env _
  next => exact keeps_pure hform

end Evaluation

end Eval

/-- Evaluation lets a sound state grow and keeps it sound, and what it answers refers to what is
there. -/
theorem keeps_evaluate (fuel : Nat) : Evaluator.Keeps (evaluate fuel) := by
  induction fuel with
  | zero => exact fun _ _ _ _ _ => Eval.keeps_outOfFuel
  | succ fuel ih => exact Eval.keeps_step ih fuel

end SlotLisp
