import Mathlib.Data.List.Forall2
import SlotLisp.Eval.ClassForm
import SlotLisp.Proofs.Inference.Expansion
import SlotLisp.Proofs.Value.Mark

/-!
What completing a declaration adds to it, read back from the form that it becomes. A form is taken
apart, added to, written and taken apart again when the class is defined; that nothing else changes
on this way comes down to `Declaration.ofForm_toForm`.
-/

namespace SlotLisp

/-! ## Declarations -/

namespace Declaration

/-- `e` is `d` with nothing more than what is left out in `d`: a type where there is a default and
no type, or a default where there is none. -/
inductive Gains (d : Declaration) : Declaration → Prop
  | nothing : Gains d d
  | type (hdefault : d.default.isSome) (htype : d.type? = none) (t : Value) : Gains d (d.withType t)
  | default (hdefault : d.default = none) (v : Value) : Gains d (d.withDefault v)

variable {d e : Declaration}

theorem Gains.name (h : d.Gains e) : e.name = d.name := by
  cases h <;> rfl

/-- A type that is added comes behind all options, so that it is found only where there is no type
before it. -/
theorem option?_withType (d : Declaration) (t : Value) (key : Symbol) :
    (d.withType t).option? key = (d.option? key).or (if key = typeKey then some t else none) := by
  have hnew : isKey key (.symbol typeKey) = decide (key = typeKey) := by
    rw [isKey, Bool.beq_eq_decide_eq]
    simp [eq_comm]
  rw [Declaration.option?, withType, List.find?_append, List.find?_singleton, hnew, Option.map_or]
  by_cases h : key = typeKey <;> simp [h, Declaration.option?]

theorem type?_withType (d : Declaration) (t : Value) :
    (d.withType t).type? = some (d.type?.getD t) := by
  rw [type?, option?_withType, if_pos rfl]
  cases h : d.option? typeKey <;> simp [type?, h]

/-- No option but the type is found in another place than before. -/
theorem Gains.option? (h : d.Gains e) {key : Symbol} (hkey : key ≠ typeKey) :
    e.option? key = d.option? key := by
  cases h with
  | nothing => rfl
  | type hdefault htype t => rw [option?_withType, if_neg hkey, Option.or_none]
  | default hdefault v => rfl

theorem unpairs_append (os ps : List (Value × Value)) :
    unpairs (os ++ ps) = unpairs os ++ unpairs ps := by
  induction os with
  | nil => rfl
  | cons o os ih =>
      obtain ⟨k, v⟩ := o
      rw [List.cons_append, unpairs, ih]
      rfl

theorem unpairs_pairs : ∀ {xs : List Value}, xs.length % 2 = 0 → unpairs (pairs xs) = xs
  | [], _ => rfl
  | [_], h => absurd h (by simp)
  | k :: v :: r, h => by
      have hr : r.length % 2 = 0 := by
        rw [List.length_cons, List.length_cons] at h
        omega
      rw [pairs, unpairs, unpairs_pairs hr]

/-- What is read of a list of parts has these parts, whether they begin with a default or not. -/
theorem toForm_ofParts (name : Symbol) (parts : List Value) :
    (ofParts name parts).toForm = .list (.symbol name :: parts) := by
  cases parts with
  | nil => rfl
  | cons v r =>
      rw [ofParts]
      split
      next hodd =>
        have hr : r.length % 2 = 0 := by rw [List.length_cons] at hodd; omega
        rw [toForm, unpairs_pairs hr]
        rfl
      next hodd =>
        have heven : (v :: r).length % 2 = 0 := by omega
        rw [toForm, unpairs_pairs heven]
        rfl

end Declaration

/-! ## Slots -/

namespace Slot

/-- `b` is `a` with at most a type added to its default or a default added to it. -/
structure Gains (a b : Slot) : Prop where
  name : b.name = a.name
  initarg : b.initarg = a.initarg
  accessor : b.accessor = a.accessor
  documentation : b.documentation = a.documentation
  metadata : b.metadata = a.metadata
  completed : (b.default = a.default ∧ b.type = a.type) ∨
    (b.default = a.default ∧ a.default.isSome ∧ a.type = none ∧ b.type.isSome) ∨
    (a.default = none ∧ b.default.isSome ∧ b.type = a.type)

theorem Gains.refl (a : Slot) : a.Gains a := ⟨rfl, rfl, rfl, rfl, rfl, .inl ⟨rfl, rfl⟩⟩

/-- A declaration that gains makes a slot that gains the same. -/
theorem gains_ofDeclaration (cls : Symbol) {d e : Declaration} (h : d.Gains e) :
    (ofDeclaration cls d).Gains (ofDeclaration cls e) := by
  have hinitarg := h.option? (show initargKey ≠ Declaration.typeKey by decide)
  have haccessor := h.option? (show accessorKey ≠ Declaration.typeKey by decide)
  have hdocumentation := h.option? (show documentationKey ≠ Declaration.typeKey by decide)
  refine ⟨h.name, ?_, ?_, hdocumentation, ?_, ?_⟩
  · rw [ofDeclaration, ofDeclaration, hinitarg, h.name]
  · rw [ofDeclaration, ofDeclaration, haccessor, h.name]
  · cases h with
    | nothing => rfl
    | type hdefault htype t =>
        have hknown : isKnownOption (.symbol Declaration.typeKey) = true := by decide
        show (d.options ++ [(Value.symbol Declaration.typeKey, t)]).filter _ = d.options.filter _
        rw [List.filter_append, List.filter_singleton, hknown]
        exact List.append_nil _
    | default hdefault v => rfl
  · cases h with
    | nothing => exact .inl ⟨rfl, rfl⟩
    | type hdefault htype t =>
        refine .inr (.inl ⟨rfl, hdefault, htype, ?_⟩)
        have hkey : Declaration.isKey Declaration.typeKey (.symbol Declaration.typeKey) =
          true := by decide
        show (Option.map Prod.snd
          (List.find? _ (d.options ++ [(Value.symbol Declaration.typeKey, t)]))).isSome
        rw [List.find?_append, List.find?_singleton, hkey]
        simp
    | default hdefault v => exact .inr (.inr ⟨hdefault, rfl, rfl⟩)

end Slot

/-! ## Forms -/

/-- `form'` is what a declaration becomes in a plain definition: the form itself, or that of a
declaration that gains. -/
inductive Completes (form : Value) : Value → Prop
  | same {d : Declaration} (hd : Declaration.ofForm form = .ok d) : Completes form form
  | gained {d e : Declaration} (hd : Declaration.ofForm form = .ok d) (h : d.Gains e) :
      Completes form e.toForm

/-- The declarations of both forms are found again, and the second one gains. -/
theorem Completes.ofForm {form form' : Value} (h : Completes form form') :
    ∃ d e, Declaration.ofForm form = .ok d ∧ Declaration.ofForm form' = .ok e ∧ d.Gains e := by
  cases h with
  | same hd => exact ⟨_, _, hd, hd, .nothing⟩
  | gained hd h => exact ⟨_, _, hd, Declaration.ofForm_toForm _, h⟩

theorem mapM_ofForm_completes {forms vs : List Value} (h : List.Forall₂ Completes forms vs) :
    ∃ ds es, forms.mapM Declaration.ofForm = .ok ds ∧ vs.mapM Declaration.ofForm = .ok es ∧
      List.Forall₂ Declaration.Gains ds es := by
  induction h with
  | nil => exact ⟨[], [], rfl, rfl, .nil⟩
  | cons h _ ih =>
      obtain ⟨d, e, hd, he, hgains⟩ := h.ofForm
      obtain ⟨ds, es, hds, hes, ih⟩ := ih
      refine ⟨d :: ds, e :: es, ?_, ?_, .cons hgains ih⟩
      · rw [List.mapM_cons, hd, hds]
        rfl
      · rw [List.mapM_cons, he, hes]
        rfl

namespace State

variable {s : State} {ps : Policies} {env : Option FrameId}

theorem gains_gain {d e : Declaration} (h : s.gain ps env d = .ok (some e)) : d.Gains e := by
  rcases gain_eq_ok h with ⟨hdefault, htype, t, -, rfl⟩ | ⟨hdefault, v, -, rfl⟩
  · exact .type hdefault htype t
  · exact .default hdefault v

theorem completes_complete {form v : Value} (h : s.complete ps env form = .ok v) :
    Completes form v := by
  obtain ⟨d, hd, rfl | ⟨e, he, rfl⟩⟩ := complete_eq_ok h
  · exact .same hd
  · exact .gained hd (gains_gain he)

theorem completes_completeAll {forms vs : List Value} (h : s.completeAll ps env forms = .ok vs) :
    List.Forall₂ Completes forms vs := by
  induction forms generalizing vs with
  | nil =>
      obtain rfl := Except.ok.inj h
      exact .nil
  | cons form forms ih =>
      obtain ⟨v, hv, h⟩ := bind_eq_ok h
      obtain ⟨ws, hws, h⟩ := bind_eq_ok h
      obtain rfl := Except.ok.inj h
      exact .cons (completes_complete hv) (ih hws)

end State

/-! ## Marks on what is added -/

namespace Declaration

variable {d e : Declaration} {form : Value}

theorem marked_toForm (h : ofForm form = .ok d) (hform : form.Marked) : d.toForm.Marked := by
  unfold ofForm at h
  split at h
  next n =>
    obtain rfl := Except.ok.inj h
    exact ⟨trivial, trivial⟩
  next =>
    split at h
    next n parts hitems =>
      obtain rfl := Except.ok.inj h
      rw [toForm_ofParts]
      exact Value.marked_list.2 (Value.marked_of_items? hitems hform)
    next => exact absurd h (by simp)
    next => exact absurd h (by simp)

/-- Of a declaration that gains, at most what is added takes a mark. -/
theorem Gains.mark (h : d.Gains e) (hd : d.toForm.Marked) (m : Nat) :
    ∃ e', d.Gains e' ∧ (e.toForm.mark.run m).1 = e'.toForm := by
  cases h with
  | nothing => exact ⟨d, .nothing, by rw [Value.mark_of_marked hd]; rfl⟩
  | type hdefault htype t =>
      refine ⟨d.withType (t.mark.run m).1, .type hdefault htype _, ?_⟩
      have hform : ∀ t, (d.withType t).toForm =
          .list ((.symbol d.name :: (d.default.toList ++ unpairs d.options)) ++
            [.symbol typeKey, t]) := by
        intro t
        rw [toForm, withType, unpairs_append, List.cons_append, List.append_assoc]
        rfl
      rw [hform, hform, Value.mark, Value.markAll_append_of_marked (Value.marked_list.1 hd)]
      rfl
  | default hdefault v =>
      refine ⟨d.withDefault (v.mark.run m).1, .default hdefault _, ?_⟩
      rw [toForm, hdefault] at hd
      have hoptions : ∀ x ∈ unpairs d.options, x.Marked := fun x hx =>
        Value.marked_list.1 hd x (List.mem_cons_of_mem _ hx)
      have hform : ∀ v, (d.withDefault v).toForm =
          .list (.symbol d.name :: v :: unpairs d.options) := fun _ => rfl
      rw [hform, hform, Value.mark, Value.markAll, Value.markAll, Value.markAll_of_marked hoptions]
      rfl

end Declaration

theorem Completes.mark {form v : Value} (h : Completes form v) (hform : form.Marked) (m : Nat) :
    Completes form (v.mark.run m).1 := by
  cases h with
  | same hd =>
      rw [Value.mark_of_marked hform]
      exact .same hd
  | gained hd h =>
      obtain ⟨e, he, hmark⟩ := h.mark (Declaration.marked_toForm hd hform) m
      rw [hmark]
      exact .gained hd he

theorem completes_markAll {forms vs : List Value} (h : List.Forall₂ Completes forms vs)
    (hforms : ∀ x ∈ forms, x.Marked) (m : Nat) :
    List.Forall₂ Completes forms ((Value.markAll vs).run m).1 := by
  induction h generalizing m with
  | nil => exact .nil
  | cons h _ ih =>
      obtain ⟨hform, hforms⟩ := List.forall_mem_cons.1 hforms
      exact .cons (h.mark hform m) (ih hforms _)

/-! ## Definitions -/

def plainArguments (args : List Value) : List Value :=
  match args with
  | name :: bases :: slots :: options =>
    name :: bases :: slots :: options.filter fun o => !isInferenceOption o
  | args => args

/-- `nil` has the parts of an empty list. -/
theorem partsOf_listOfNil (v : Value) : partsOf (listOfNil v) = partsOf v := by
  cases v <;> rfl

theorem partsOf_of_items? {v : Value} {xs : List Value} (h : v.items? = some xs) :
    partsOf v = .ok xs := by
  cases v with
  | list ys => obtain rfl := Option.some.inj h; rfl
  | vector ys => obtain rfl := Option.some.inj h; rfl
  | _ => exact absurd h (by simp [Value.items?])

theorem marked_listOfNil {v : Value} (h : v.Marked) : (listOfNil v).Marked := by
  cases v with
  | nil => exact trivial
  | _ => exact h

/-- A definition with inference stands for the plain one with each declaration completed and without
the options that select policies. -/
theorem State.expandClass_eq_ok {s : State} {args : List Value} {scope : Option FrameId}
    {selection : Option Selection} {form : Value}
    (h : s.expandClass args scope selection = .ok form) :
    ∃ name bases slots options forms vs, args = .symbol name :: bases :: slots :: options ∧
      (listOfNil slots).items? = some forms ∧ List.Forall₂ Completes forms vs ∧
      form = .list (.symbol Symbol.defclass :: .symbol name :: listOfNil bases :: .list vs ::
        options.filter fun o => !isInferenceOption o) := by
  obtain ⟨plan, hplan, h⟩ := bind_eq_ok h
  obtain ⟨vs, hvs, h⟩ := bind_eq_ok h
  obtain rfl := Except.ok.inj h
  obtain ⟨bases, slots, options, rfl, hbases, hforms, hoptions, -⟩ := planClass_eq_ok hplan
  refine ⟨plan.name, bases, slots, options, plan.slots, vs, rfl, hforms,
    completes_completeAll hvs, ?_⟩
  rw [hbases, hoptions]

end SlotLisp
