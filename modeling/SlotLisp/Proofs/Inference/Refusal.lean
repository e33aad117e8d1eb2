import SlotLisp.Proofs.Inference.Sources
import SlotLisp.Proofs.Inference.ZeroPolicies
import SlotLisp.Proofs.Reading.Plain
import SlotLisp.Proofs.State.Table

/-!
How a class definition with inference is refused. Whatever data stand in it, and with the policies
of reference, each error has a message that can be written, but for one: the name of an option is
looked up, and a name that cannot be a key ends the expansion with a bare fault.
-/

namespace SlotLisp

/-- Data through and through, in which each integer has a text. -/
structure Value.Literal (v : Value) : Prop where
  plain : v.All fun _ => False
  short : v.Short

inductive Choice.Serves : Facet → Choice → Prop
  | off {facet : Facet} : Serves facet .off
  | zero {p : Policy} (hp : p.Zero) : Serves .initform (.policy p)
  | general : Serves .type (.policy .generalType)

namespace Settings

/-- Nothing but the policies of reference goes by a keyword. -/
def Reference (s : Settings) : Prop :=
  ∀ facet key v, (s.names facet).get? key = some v → (s.choice v).Serves facet

/-- A selector of reference: data that may name a policy, or a policy of reference itself. -/
def Selects (s : Settings) (facet : Facet) (selector : Value) : Prop :=
  selector.Literal ∨
    ∃ id p, selector = .ref (.policy id) ∧ s.policy? id = some p ∧ (Choice.policy p).Serves facet

end Settings

/-- The definition is in order up to an option that is named by what cannot be a key. -/
inductive KeylessOption : List Value → Prop
  | intro {name : Symbol} {bases slots option head : Value} {before after rest : List Value}
      (hbases : (listOfNil bases).items?.isSome) (hslots : (listOfNil slots).items?.isSome)
      (hbefore : ∀ o ∈ before, SelectsOnce o) (hoption : option.items? = some (head :: rest))
      (hhead : head.hashable = false) :
      KeylessOption (.symbol name :: bases :: slots :: (before ++ option :: after))

/-- The error is one of the language, and its message can be written. -/
structure State.Reports (s : State) (e : Error) : Prop where
  language : ∀ f, e ≠ .fault f
  settled : s.settle e = e

/-! ## Data -/

namespace Value

theorem textFault?_of_items? {refs inner : Ref → Option Fault} {v : Value} {xs : List Value}
    (h : v.items? = some xs) :
    v.textFault? refs inner = none ↔ ∀ x ∈ xs, x.textFault? refs inner = none := by
  cases v with
  | list ys =>
      obtain rfl := Option.some.inj h
      exact textFault?_list
  | vector ys =>
      obtain rfl := Option.some.inj h
      exact textFault?_vector
  | _ => exact absurd h (by simp [items?])

variable {v : Value}

theorem Literal.writable (h : v.Literal) (s : State) : s.writable v = true :=
  State.writable_iff_finite.2 ⟨h.short, fun _ ⟨_, _, hshows, _⟩ => (hshows.leaf h.plain).elim⟩

theorem Literal.items {xs : List Value} (h : v.Literal) (hxs : v.items? = some xs) :
    ∀ x ∈ xs, x.Literal :=
  fun x hx => ⟨all_of_items? hxs h.plain x hx, (textFault?_of_items? hxs).1 h.short x hx⟩

theorem Literal.unquoted (h : v.Literal) : (unquoted v).Literal := by
  unfold SlotLisp.unquoted
  split
  next q x hitems =>
    split
    · exact h.items hitems x (by simp)
    · exact h
  next => exact h

theorem Literal.listOfNil (h : v.Literal) : (listOfNil v).Literal := by
  cases v with
  | nil => exact ⟨all_list.2 (by simp), rfl⟩
  | _ => exact h

end Value

/-- What is read of a text is data, so that its integers alone decide. -/
theorem Form.literal_ofText {text : String} {v : Value} (hv : v ∈ (Form.ofText text).1)
    (hshort : v.Short) : v.Literal :=
  ⟨Form.all_ofText text v hv, hshort⟩

/-! ## Policies -/

/-- A process knows the policies of reference from the start. -/
theorem Settings.reference_standard : Settings.standard.Reference := by
  intro facet key v h
  cases facet with
  | initform =>
      have hmem := Table.mem_ofList (Table.mem_of_get? h)
      simp only [List.mem_cons, Prod.mk.injEq, List.not_mem_nil, or_false] at hmem
      rcases hmem with ⟨-, rfl⟩ | ⟨-, rfl⟩ | ⟨-, rfl⟩
      · exact .zero .buildError
      · exact .zero .deferredError
      · exact .zero .nilFallback
  | type =>
      have hmem := Table.mem_ofList (Table.mem_of_get? h)
      simp only [List.mem_cons, Prod.mk.injEq, List.not_mem_nil, or_false] at hmem
      obtain ⟨-, rfl⟩ := hmem
      exact .general

theorem Selection.literal_reference (facet : Facet) : (Selection.reference.get facet).Literal := by
  cases facet <;> exact ⟨trivial, rfl⟩

/-- What the process says names policies by keywords, if it says anything. -/
theorem Selection.literal_ofSettings (settings : Settings) (facet : Facet) :
    ((Selection.ofSettings settings).get facet).Literal := by
  rw [State.ofSettings_get]
  cases settings.variable facet with
  | none => exact Selection.literal_reference facet
  | some raw =>
      rw [Option.map_some, Option.getD_some]
      unfold selectorOfSetting
      dsimp only
      split
      · exact ⟨trivial, rfl⟩
      · exact ⟨trivial, rfl⟩

/-! ## Options -/

theorem overrideOf_eq_error {option : Value} {e : Error} (h : overrideOf option = .error e) :
    (e = .fault .mismatch ∧ ∃ head rest, option.items? = some (head :: rest) ∧
      head.hashable = false) ∨
      ∃ facet : Facet, e = .arity (.inferenceOption facet.option) := by
  unfold overrideOf at h
  split at h
  next head args hitems =>
    split at h
    next hhead => exact .inl ⟨(Except.error.inj h).symm, head, args, hitems, by simpa using hhead⟩
    next =>
      split at h
      next => exact absurd h (by simp)
      next facet _ =>
        split at h
        next => exact absurd h (by simp)
        next => exact .inr ⟨facet, (Except.error.inj h).symm⟩
  next => exact absurd h (by simp)

theorem overrideOf_keyless {option head : Value} {rest : List Value}
    (h : option.items? = some (head :: rest)) (hhead : head.hashable = false) :
    overrideOf option = .error (.fault .mismatch) := by
  rw [overrideOf, h]
  simp [hhead]

/-- Options are gone through up to the first one that is refused. -/
theorem splitOptionsFrom_eq_error_iff {seen : Overrides} {options : List Value} {e : Error} :
    splitOptionsFrom seen options = .error e ↔
      ∃ before option after, options = before ++ option :: after ∧ (∀ o ∈ before, SelectsOnce o) ∧
        overrideOf option = .error e := by
  constructor
  · intro h
    induction options generalizing seen with
    | nil => exact absurd h (by simp [splitOptionsFrom])
    | cons option rest ih =>
        rw [splitOptionsFrom] at h
        rcases bind_eq_error h with herror | ⟨r, hr, h⟩
        · exact ⟨[], option, rest, rfl, by simp, herror⟩
        obtain ⟨honce, -⟩ := selected?_of_overrideOf hr
        have hrest : ∃ seen', splitOptionsFrom seen' rest = .error e := by
          cases r with
          | some o => exact ⟨_, h⟩
          | none =>
              rcases bind_eq_error h with herror | ⟨_, -, h⟩
              · exact ⟨_, herror⟩
              · exact absurd h (by simp [pure, Except.pure])
        obtain ⟨seen', hseen'⟩ := hrest
        obtain ⟨before, refused, after, rfl, hbefore, herror⟩ := ih hseen'
        exact ⟨option :: before, refused, after, rfl,
          List.forall_mem_cons.2 ⟨honce, hbefore⟩, herror⟩
  · rintro ⟨before, option, after, rfl, hbefore, herror⟩
    induction before generalizing seen with
    | nil =>
        rw [List.nil_append, splitOptionsFrom, herror]
        rfl
    | cons o before ih =>
        obtain ⟨honce, hbefore⟩ := List.forall_mem_cons.1 hbefore
        obtain ⟨r, hr⟩ := overrideOf_of_selectsOnce honce
        rw [List.cons_append, splitOptionsFrom, hr]
        cases r with
        | some o => exact ih hbefore
        | none =>
            show (splitOptionsFrom seen (before ++ option :: after) >>= _) = _
            rw [ih hbefore]
            rfl

namespace State

variable {s : State}

/-- An error of the language is reported as it is if all values that its message shows have a
text. -/
theorem reports_of_shown {e : Error} (hlanguage : ∀ f, e ≠ .fault f)
    (h : ∀ style v, Piece.value style v ∈ e.pieces → s.writable v = true) : s.Reports e :=
  ⟨hlanguage, settle_eq_self_iff.2 h⟩

/-! ## Selectors -/

theorem resolve_refuses {facet : Facet} {selector : Value} {e : Error}
    (hselector : s.settings.Selects facet selector) (h : s.resolve facet selector = .error e) :
    s.Reports e := by
  rcases hselector with hliteral | ⟨id, p, rfl, hp, -⟩
  · have hshown : s.Reports (.mismatch (.policy facet selector)) := by
      refine reports_of_shown (by simp) fun style v hv => ?_
      obtain ⟨-, rfl⟩ : style = .inspect ∧ v = selector := by
        simpa [Error.pieces, Mismatch.pieces] using hv
      exact hliteral.writable s
    unfold resolve at h
    split at h
    next => exact absurd h (by simp)
    next => exact absurd h (by simp)
    next n =>
      dsimp only at h
      split at h
      next => exact absurd h (by simp)
      next =>
        split at h
        next => exact absurd h (by simp)
        next =>
          obtain rfl := Except.error.inj h
          exact reports_of_shown (by simp) (by simp [Error.pieces, Piece.symbol])
    next id =>
      exact (Value.all_ref.1 hliteral.plain).elim
    next =>
      obtain rfl := Except.error.inj h
      exact hshown
  · rw [resolve, hp] at h
    exact absurd h (by simp)

theorem resolve_serves {facet : Facet} {selector : Value} {c : Choice}
    (hsettings : s.settings.Reference) (hselector : s.settings.Selects facet selector)
    (h : s.resolve facet selector = .ok c) :
    c.Serves facet := by
  rcases hselector with hliteral | ⟨id, p, rfl, hp, hserves⟩
  · unfold resolve at h
    split at h
    next => exact Except.ok.inj h ▸ .off
    next => exact Except.ok.inj h ▸ .off
    next n =>
      dsimp only at h
      split at h
      next => exact Except.ok.inj h ▸ .off
      next =>
        split at h
        next v hv => exact Except.ok.inj h ▸ hsettings facet _ v hv
        next => exact absurd h (by simp)
    next id => exact (Value.all_ref.1 hliteral.plain).elim
    next => exact absurd h (by simp)
  · rw [resolve, hp] at h
    exact Except.ok.inj h ▸ hserves

/-- What options select is data like the options themselves. -/
theorem selects_decided {env : Option FrameId} {selection : Option Selection} {options : List Value}
    {facet : Facet}
    (hselection : s.settings.Selects facet ((selection.getD (s.selection env)).get facet))
    (hoptions : ∀ o ∈ options, o.Literal) :
    s.settings.Selects facet (s.decided env selection options facet) := by
  rw [← getD_eq_decided]
  cases hlast : (options.filterMap facet.selected?).getLast? with
  | none => exact hselection
  | some v =>
      obtain ⟨option, hoption, hv⟩ := List.mem_filterMap.1 (List.mem_of_getLast? hlast)
      unfold Facet.selected? at hv
      split at hv
      next key x hitems =>
        split at hv
        next =>
          obtain rfl := Option.some.inj hv
          exact .inl ((hoptions option hoption).items hitems x (by simp)).unquoted
        next => exact absurd hv (by simp)
      next => exact absurd hv (by simp)

/-! ## Plans -/

section Plans

variable {args : List Value} {env : Option FrameId} {selection : Option Selection}

theorem planClass_keyless (h : KeylessOption args) :
    s.planClass args env selection = .error (.fault .mismatch) := by
  cases h with
  | @intro name bases slots option head before after rest hbases hslots hbefore hoption hhead =>
      obtain ⟨_, hbases⟩ := Option.isSome_iff_exists.1 hbases
      obtain ⟨_, hslots⟩ := Option.isSome_iff_exists.1 hslots
      have hsplit : splitOptions (before ++ option :: after) = .error (.fault .mismatch) :=
        splitOptionsFrom_eq_error_iff.2 ⟨_, _, _, rfl, hbefore, overrideOf_keyless hoption hhead⟩
      rw [planClass]
      simp only [hbases, hslots, hsplit]
      rfl

theorem policies_refuses {c : Selection} {e : Error}
    (hc : ∀ facet, s.settings.Selects facet (c.get facet)) (h : s.policies c = .error e) :
    s.Reports e := by
  rcases bind_eq_error h with herror | ⟨i, -, h⟩
  · exact resolve_refuses (hc .initform) herror
  rcases bind_eq_error h with herror | ⟨t, -, h⟩
  · exact resolve_refuses (hc .type) herror
  · exact absurd h (by simp [pure, Except.pure])

variable (hselection : ∀ facet, s.settings.Selects facet
  ((selection.getD (s.selection env)).get facet))
  (hargs : ∀ v ∈ args, v.Literal)

include hselection hargs

theorem planClass_refuses {e : Error} (h : s.planClass args env selection = .error e) :
    e = .fault .mismatch ∧ KeylessOption args ∨ s.Reports e := by
  unfold planClass at h
  split at h
  next name bases slots options =>
    have hoptions : ∀ o ∈ options, o.Literal := fun o ho => hargs o (by simp [ho])
    dsimp only at h
    split at h
    next _ _ hbases hslots =>
      rcases bind_eq_error h with hsplit | ⟨⟨os, passed⟩, hsplit, h⟩
      · obtain ⟨before, option, after, rfl, hbefore, herror⟩ :=
          splitOptionsFrom_eq_error_iff.1 hsplit
        rcases overrideOf_eq_error herror with ⟨rfl, head, rest, hoption, hhead⟩ | ⟨facet, rfl⟩
        · exact .inl ⟨rfl, .intro (by rw [hbases]; rfl) (by rw [hslots]; rfl) hbefore hoption hhead⟩
        · exact .inr (reports_of_shown (by simp)
            (by simp [Error.pieces, Arity.pieces, Piece.symbol]))
      rcases bind_eq_error h with herror | ⟨ps, -, h⟩
      · refine .inr (policies_refuses (fun facet => ?_) herror)
        have hselects := selects_decided (hselection facet) hoptions
        rwa [← splitOptions_get hsplit, Overrides.apply] at hselects
      · exact absurd h (by simp [pure, Except.pure])
    next =>
      obtain rfl := Except.error.inj h
      exact .inr (reports_of_shown (by simp) (by simp [Error.pieces, Mismatch.pieces]))
  next name _ _ _ hname =>
    obtain rfl := Except.error.inj h
    refine .inr (reports_of_shown (by simp) fun style v hv => ?_)
    obtain ⟨-, rfl⟩ : style = .source ∧ v = name := by
      simpa [Error.pieces, Mismatch.pieces, Piece.source] using hv
    exact (hargs v (by simp)).writable s
  next =>
    obtain rfl := Except.error.inj h
    exact .inr (reports_of_shown (by simp) (by simp [Error.pieces, Arity.pieces]))

theorem planClass_serves (hsettings : s.settings.Reference) {plan : ClassPlan}
    (h : s.planClass args env selection = .ok plan) :
    plan.policies.initform.Serves .initform ∧ plan.policies.type.Serves .type ∧
      ∀ form ∈ plan.slots, form.Literal := by
  obtain ⟨bases, slots, options, rfl, -, -, hslots, -, -, hinitform, htype⟩ := planClass_iff.1 h
  have hoptions : ∀ o ∈ options, o.Literal := fun o ho => hargs o (by simp [ho])
  exact ⟨resolve_serves hsettings (selects_decided (hselection .initform) hoptions) hinitform,
    resolve_serves hsettings (selects_decided (hselection .type) hoptions) htype,
    (hargs slots (by simp)).listOfNil.items hslots⟩

end Plans

/-! ## Declarations -/

section Declarations

variable {env : Option FrameId} {form : Value} {d : Declaration} {ps : Policies}

theorem ofForm_refuses {e : Error} (hform : s.writable form = true)
    (h : Declaration.ofForm form = .error e) : s.Reports e := by
  unfold Declaration.ofForm at h
  split at h
  next => exact absurd h (by simp)
  next =>
    split at h
    next => exact absurd h (by simp)
    next n rest _ hitems =>
      obtain rfl := Except.error.inj h
      refine reports_of_shown (by simp) fun style v hv => ?_
      obtain ⟨-, rfl⟩ : style = .source ∧ v = n := by
        simpa [Error.pieces, Malformed.pieces, Piece.source] using hv
      exact writable_iff.2 ((Value.textFault?_of_items? hitems).1 (writable_iff.1 hform)
        v (by simp))
    next =>
      obtain rfl := Except.error.inj h
      refine reports_of_shown (by simp) fun style v hv => ?_
      obtain ⟨-, rfl⟩ : style = .source ∧ v = form := by
        simpa [Error.pieces, Malformed.pieces, Piece.source] using hv
      exact hform

/-- A declaration is written with the parts of the form that it is read from. -/
theorem writable_toForm (hd : Declaration.ofForm form = .ok d) (hform : s.writable form = true) :
    s.writable d.toForm = true := by
  unfold Declaration.ofForm at hd
  split at hd
  next n =>
    obtain rfl := Except.ok.inj hd
    rfl
  next =>
    split at hd
    next n parts hitems =>
      obtain rfl := Except.ok.inj hd
      rw [writable_iff, State.textFault?, Value.textFault?_of_items? hitems] at hform
      rw [Declaration.toForm_ofParts, writable_list]
      exact fun x hx => writable_iff.2 (hform x hx)
    next => exact absurd hd (by simp)
    next => exact absurd hd (by simp)

theorem writable_zeroForm (c : Category) : s.writable c.zeroForm = true := by
  have hzero : fitsDigits 0 = true := by decide +kernel
  cases c with
  | number => exact writable_int.2 hzero
  | _ => rfl

theorem writable_zeroDefault {p : Policy} {v : Value} (h : p.zeroDefault d = .ok (some v)) :
    s.writable v = true := by
  unfold Policy.zeroDefault at h
  split at h
  next => exact absurd h (by simp)
  next t _ =>
    split at h
    next form hform =>
      obtain rfl := Option.some.inj (Except.ok.inj h)
      unfold zeroValue? at hform
      split at hform
      next =>
        obtain ⟨c, -, rfl⟩ := Option.map_eq_some_iff.1 hform
        exact writable_zeroForm c
      next => exact absurd hform (by simp)
    next =>
      unfold Policy.unknownType at h
      split at h
      next =>
        obtain rfl := Option.some.inj (Except.ok.inj h)
        rfl
      next => exact absurd h (by simp)
      next => exact absurd h (by simp)

theorem zeroDefault_refuses {p : Policy} {e : Error} (hd : s.writable d.toForm = true)
    (h : p.zeroDefault d = .error e) : s.Reports e := by
  unfold Policy.zeroDefault at h
  split at h
  next => exact absurd h (by simp)
  next t htype =>
    split at h
    next => exact absurd h (by simp)
    next =>
      unfold Policy.unknownType at h
      split at h
      next => exact absurd h (by simp)
      next => exact absurd h (by simp)
      next =>
        obtain rfl := Except.error.inj h
        exact ⟨by simp, settle_noDefault (writable_type htype hd)⟩

theorem infer_refuses {facet : Facet} {c : Choice} {e : Error} (hc : c.Serves facet)
    (hd : s.writable d.toForm = true) (h : s.infer facet c d env = .error e) : s.Reports e := by
  cases hc with
  | off => exact absurd h (by simp [infer])
  | zero hp => exact zeroDefault_refuses hd (infer_zero hp d env ▸ h)
  | general => exact absurd h (by simp [infer, inferBy, inferType])

/-- What is inferred has a text. -/
theorem writable_infer {facet : Facet} {c : Choice} {v : Value} (hc : c.Serves facet)
    (h : s.infer facet c d env = .ok (some v)) : s.writable v = true := by
  cases hc with
  | off => exact absurd h (by simp [infer])
  | zero hp => exact writable_zeroDefault (infer_zero hp d env ▸ h)
  | general =>
      obtain ⟨t, -, rfl⟩ := Option.map_eq_some_iff.1 (Except.ok.inj h)
      rfl

variable (hinitform : ps.initform.Serves .initform) (htype : ps.type.Serves .type)

include hinitform htype

theorem writable_gain {e : Declaration} (hd : s.writable d.toForm = true)
    (h : s.gain ps env d = .ok (some e)) : s.writable e.toForm = true := by
  rw [Declaration.toForm, writable_list] at hd ⊢
  rcases gain_eq_ok h with ⟨-, -, t, ht, rfl⟩ | ⟨hdefault, v, hv, rfl⟩
  · have hwritable := writable_infer htype ht
    intro x hx
    rw [Declaration.withType, Declaration.unpairs_append, ← List.append_assoc, ← List.cons_append,
      List.mem_append] at hx
    rcases hx with hx | hx
    · exact hd x hx
    · rcases List.mem_pair.1 hx with rfl | rfl
      · rfl
      · exact hwritable
  · have hwritable := writable_infer hinitform hv
    intro x hx
    rcases List.mem_cons.1 hx with rfl | hx
    · rfl
    rcases List.mem_cons.1 hx with rfl | hx
    · exact hwritable
    · exact hd x (List.mem_cons_of_mem _ (List.mem_append_right _ hx))

theorem gain_refuses {e : Error} (hd : s.writable d.toForm = true)
    (h : s.gain ps env d = .error e) :
    s.Reports e := by
  unfold gain at h
  split at h
  next => exact absurd h (by simp)
  next =>
    rcases bind_eq_error h with herror | ⟨_, -, h⟩
    · exact infer_refuses htype hd herror
    · exact absurd h (by simp [pure, Except.pure])
  next =>
    rcases bind_eq_error h with herror | ⟨_, -, h⟩
    · exact infer_refuses hinitform hd herror
    · exact absurd h (by simp [pure, Except.pure])

theorem complete_refuses {e : Error} (hform : s.writable form = true)
    (h : s.complete ps env form = .error e) : s.Reports e := by
  rw [complete_eq_changed] at h
  rcases bind_eq_error h with herror | ⟨d, hd, h⟩
  · exact ofForm_refuses hform herror
  have hwritable := writable_toForm hd hform
  rcases bind_eq_error h with herror | ⟨g, hg, h⟩
  · exact gain_refuses hinitform htype hwritable herror
  -- a change can be put on record, since both forms have a text
  cases g with
  | none => exact absurd h (by simp [changed])
  | some e =>
      have hgained := writable_gain hinitform htype hwritable hg
      exact absurd h (by simp [changed_some hform hgained])

theorem completeAll_refuses {forms : List Value} {e : Error}
    (hforms : ∀ form ∈ forms, s.writable form = true) (h : s.completeAll ps env forms = .error e) :
    s.Reports e := by
  induction forms with
  | nil => exact absurd h (by simp [completeAll])
  | cons form forms ih =>
      obtain ⟨hform, hforms⟩ := List.forall_mem_cons.1 hforms
      rcases bind_eq_error h with herror | ⟨v, -, h⟩
      · exact complete_refuses hinitform htype hform herror
      rcases bind_eq_error h with herror | ⟨vs, -, h⟩
      · exact ih hforms herror
      · exact absurd h (by simp [pure, Except.pure])

end Declarations

/-! ## Definitions -/

section Definitions

variable {args : List Value} {env : Option FrameId} {selection : Option Selection}
  (hsettings : s.settings.Reference)
  (hselection : ∀ facet, s.settings.Selects facet ((selection.getD (s.selection env)).get facet))
  (hargs : ∀ v ∈ args, v.Literal)

include hsettings hselection hargs

theorem expandClass_refuses {e : Error} (h : s.expandClass args env selection = .error e) :
    e = .fault .mismatch ∧ KeylessOption args ∨ s.Reports e := by
  rcases bind_eq_error h with herror | ⟨plan, hplan, h⟩
  · exact planClass_refuses hselection hargs herror
  obtain ⟨hinitform, htype, hslots⟩ := planClass_serves hselection hargs hsettings hplan
  rcases bind_eq_error h with herror | ⟨vs, -, h⟩
  · have hforms : ∀ form ∈ plan.slots, s.writable form = true :=
      fun form hform => (hslots form hform).writable s
    exact .inr (completeAll_refuses hinitform htype hforms herror)
  · exact absurd h (by simp [pure, Except.pure])

/-- With policies of reference and data for its parts, a definition with inference stands for a
plain one or is refused with an error of the language, whatever shape the parts have. There is one
exception: an option that is named by what cannot be a key, which ends the expansion with a bare
fault unless an earlier part is refused. -/
theorem expandClass_fault_iff :
    let outcome := (s.expandClass args env selection).mapError s.settle
    (∀ form, outcome = .ok form → ∃ name bases slots options,
      form = .list (.symbol Symbol.defclass :: .symbol name :: bases :: .list slots :: options)) ∧
    ∀ f, outcome = .error (.fault f) ↔ f = .mismatch ∧ KeylessOption args := by
  intro outcome
  constructor
  · intro form houtcome
    cases hresult : s.expandClass args env selection with
    | error e => exact absurd houtcome (by simp [outcome, hresult, Except.mapError])
    | ok v =>
        obtain ⟨name, bases, slots, options, forms, vs, -, -, -, rfl⟩ := expandClass_eq_ok hresult
        simp only [outcome, hresult, Except.mapError] at houtcome
        exact ⟨name, _, vs, _, (Except.ok.inj houtcome).symm⟩
  · intro f
    constructor
    · intro houtcome
      cases hresult : s.expandClass args env selection with
      | ok v => exact absurd houtcome (by simp [outcome, hresult, Except.mapError])
      | error e =>
          simp only [outcome, hresult, Except.mapError] at houtcome
          have hfault := Except.error.inj houtcome
          rcases expandClass_refuses hsettings hselection hargs hresult with
            ⟨rfl, hkeyless⟩ | hreports
          · exact ⟨(Error.fault.inj hfault).symm, hkeyless⟩
          · rw [hreports.settled] at hfault
            exact absurd hfault (hreports.language f)
    · rintro ⟨rfl, hkeyless⟩
      simp only [outcome, expandClass, planClass_keyless hkeyless]
      rfl

end Definitions

/-- A declaration that starts with a number, in a session with the selectors of reference. -/
theorem expandClass_fault_iff_number :
    let s := (Session.full (State.start Settings.standard) none).1
    let args := (Form.ofText "p nil ((1 x))").1
    let selection := some Selection.reference
    let outcome := (s.expandClass args (some 0) selection).mapError s.settle
    s.settings.Reference ∧
      (∀ facet, s.settings.Selects facet ((selection.getD (s.selection (some 0))).get facet)) ∧
      (∀ v ∈ args, v.Literal) ∧
      (∀ form, outcome = .ok form → ∃ name bases slots options,
        form = .list (.symbol Symbol.defclass :: .symbol name :: bases :: .list slots :: options)) ∧
      ∀ f, outcome = .error (.fault f) ↔ f = .mismatch ∧ KeylessOption args := by
  intro s args selection outcome
  have hsettings : s.settings.Reference := Settings.reference_standard
  have hselection : ∀ facet, s.settings.Selects facet
      ((selection.getD (s.selection (some 0))).get facet) :=
    fun facet => .inl (Selection.literal_reference facet)
  have hshort : ∀ v ∈ args, v.Short := by decide +kernel
  have hargs : ∀ v ∈ args, v.Literal := fun v hv => Form.literal_ofText hv (hshort v hv)
  exact ⟨hsettings, hselection, hargs, expandClass_fault_iff hsettings hselection hargs⟩

/-- A list cannot be a key, and so an option that starts with one is not passed on, nor refused with
a message. -/
theorem not_reported_list_option :
    let s := State.start Settings.standard
    let args : List Value := [.symbol ⟨"p"⟩, .nil, .nil, .list [.list [.int 1], .int 2]]
    s.settings.Reference ∧
      (∀ facet, s.settings.Selects facet ((s.selection none).get facet)) ∧ (∀ v ∈ args, v.Literal) ∧
      (s.expandClass args none none).mapError s.settle = .error (.fault .mismatch) := by
  intro s args
  have hselection : ∀ facet, s.settings.Selects facet ((s.selection none).get facet) := by
    intro facet
    rw [selection_get]
    exact .inl (Selection.literal_ofSettings s.settings facet)
  have hargs : ∀ v ∈ args, v.Literal := by
    intro v hv
    simp only [args, List.mem_cons, List.not_mem_nil, or_false] at hv
    rcases hv with rfl | rfl | rfl | rfl
    · exact ⟨trivial, rfl⟩
    · exact ⟨trivial, rfl⟩
    · exact ⟨trivial, rfl⟩
    · exact ⟨by simp, by decide +kernel⟩
  exact ⟨Settings.reference_standard, hselection, hargs, rfl⟩

end State
end SlotLisp
