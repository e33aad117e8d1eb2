import SlotLisp.Inference.Expansion
import SlotLisp.Proofs.Value.Operation

/-!
What a class definition with inference is made into: which declarations gain what, and which options
are passed on. No references are brought in but those that policies answer with.
-/

namespace SlotLisp

variable {p : Leaf → Prop}

def Settings.All (p : Leaf → Prop) (s : Settings) : Prop :=
  ∀ v, Policy.fixed (.ok (some v)) ∈ s.policies → v.All p

namespace Declaration

structure All (p : Leaf → Prop) (d : Declaration) : Prop where
  default : ∀ v ∈ d.default, v.All p
  options : ∀ o ∈ d.options, o.1.All p ∧ o.2.All p

theorem all_pairs {xs : List Value} (h : ∀ x ∈ xs, x.All p) :
    ∀ o ∈ pairs xs, o.1.All p ∧ o.2.All p := by
  fun_induction pairs xs with
  | case1 k v r ih =>
      exact List.forall_mem_cons.2 ⟨⟨h k (by simp), h v (by simp)⟩, ih fun x hx =>
        h x (by simp [hx])⟩
  | case2 xs => simp

theorem all_unpairs {os : List (Value × Value)} (h : ∀ o ∈ os, o.1.All p ∧ o.2.All p) :
    ∀ x ∈ unpairs os, x.All p := by
  induction os with
  | nil => simp [unpairs]
  | cons o os ih =>
      obtain ⟨hk, hv⟩ := h o (by simp)
      have hos := ih fun d hd => h d (by simp [hd])
      exact List.forall_mem_cons.2 ⟨hk, List.forall_mem_cons.2 ⟨hv, hos⟩⟩

theorem all_ofForm {form : Value} {d : Declaration} (h : ofForm form = .ok d) (hform : form.All p) :
    d.All p := by
  unfold ofForm at h
  split at h
  next => obtain rfl := Except.ok.inj h; exact ⟨by simp, by simp⟩
  next =>
    split at h
    next s parts hx =>
      obtain rfl := Except.ok.inj h
      have hparts : ∀ x ∈ parts, x.All p :=
        fun x hx' => Value.all_of_items? hx hform x (by simp [hx'])
      unfold ofParts
      split
      next => exact ⟨by simp, by simp⟩
      next v r =>
        split
        · exact ⟨by simpa using hparts v (by simp), all_pairs fun x hx => hparts x (by simp [hx])⟩
        · exact ⟨by simp, all_pairs hparts⟩
    next => exact absurd h (by simp)
    next => exact absurd h (by simp)

theorem All.toForm {d : Declaration} (h : d.All p) : d.toForm.All p := by
  refine Value.all_list.2 (List.forall_mem_cons.2 ⟨trivial, fun x hx => ?_⟩)
  rw [List.mem_append, Option.mem_toList] at hx
  rcases hx with hx | hx
  · exact h.default x hx
  · exact all_unpairs h.options x hx

theorem All.type? {d : Declaration} (h : d.All p) {t : Value} (ht : d.type? = some t) :
    t.All p := by
  obtain ⟨o, ho, rfl⟩ := Option.map_eq_some_iff.1 ht
  exact (h.options o (List.mem_of_find?_eq_some ho)).2

theorem All.withDefault {d : Declaration} (h : d.All p) {v : Value} (hv : v.All p) :
    (d.withDefault v).All p :=
  ⟨by simpa [Declaration.withDefault] using hv, h.options⟩

theorem All.withType {d : Declaration} (h : d.All p) {t : Value} (ht : t.All p) :
    (d.withType t).All p := by
  refine ⟨h.default, fun o ho => ?_⟩
  rcases List.mem_append.1 ho with ho | ho
  · exact h.options o ho
  · rw [List.mem_singleton] at ho
    subst ho
    exact ⟨trivial, ht⟩

end Declaration

/-! ## Policies -/

def Choice.Known (s : Settings) (c : Choice) : Prop := ∀ q, c = .policy q → q ∈ s.policies

theorem Settings.choice_known (s : Settings) (v : Value) : (s.choice v).Known s := by
  intro q hq
  unfold Settings.choice at hq
  split at hq
  next => exact absurd hq (by simp)
  next id =>
    split at hq
    next r hr =>
      obtain rfl := Choice.policy.inj hq
      exact List.mem_of_getElem? hr
    next => exact absurd hq (by simp)
  next => exact absurd hq (by simp)

namespace State

variable {s : State}

theorem resolve_known {facet : Facet} {v : Value} {c : Choice} (h : s.resolve facet v = .ok c) :
    c.Known s.settings := by
  unfold resolve at h
  split at h
  next => obtain rfl := Except.ok.inj h; intro q hq; exact absurd hq (by simp)
  next => obtain rfl := Except.ok.inj h; intro q hq; exact absurd hq (by simp)
  next n =>
    dsimp only at h
    split at h
    next => obtain rfl := Except.ok.inj h; intro q hq; exact absurd hq (by simp)
    next =>
      split at h
      next w _ => obtain rfl := Except.ok.inj h; exact s.settings.choice_known w
      next => exact absurd h (by simp)
  next id =>
    split at h
    next r hr =>
      obtain rfl := Except.ok.inj h
      intro q hq
      obtain rfl := Choice.policy.inj hq
      exact List.mem_of_getElem? hr
    next => exact absurd h (by simp)
  next => exact absurd h (by simp)

theorem all_zeroForm (c : Category) : c.zeroForm.All p := by
  cases c <;> simp [Category.zeroForm]

theorem all_zeroDefault {q : Policy} {d : Declaration} {v : Value}
    (h : q.zeroDefault d = .ok (some v)) (hd : d.All p) : v.All p := by
  unfold Policy.zeroDefault at h
  split at h
  next => exact absurd h (by simp)
  next t ht =>
    split at h
    next form hform =>
      obtain rfl := Option.some.inj (Except.ok.inj h)
      unfold zeroValue? at hform
      split at hform
      next =>
        obtain ⟨c, -, rfl⟩ := Option.map_eq_some_iff.1 hform
        exact all_zeroForm c
      next => exact absurd hform (by simp)
    next =>
      unfold Policy.unknownType at h
      split at h
      next =>
        obtain rfl := Option.some.inj (Except.ok.inj h)
        exact Value.all_unsupplied.2 (hd.type? ht)
      next => exact absurd h (by simp)
      next => exact absurd h (by simp)

theorem all_infer {facet : Facet} {c : Choice} {d : Declaration} {env : Option FrameId} {v : Value}
    (h : s.infer facet c d env = .ok (some v)) (hc : c.Known s.settings)
    (hset : s.settings.All p) (hd : d.All p) : v.All p := by
  cases c with
  | off => exact absurd h (by simp [infer])
  | stray w => exact absurd h (by simp [infer])
  | policy q =>
      have hq := hc q rfl
      cases facet with
      | initform =>
          cases q with
          | fixed answer =>
              obtain rfl : answer = .ok (some v) := h
              exact hset v hq
          | generalType =>
              obtain ⟨t, -, rfl⟩ := Option.map_eq_some_iff.1 (Except.ok.inj h)
              exact trivial
          | _ => exact all_zeroDefault h hd
      | type =>
          cases q with
          | fixed answer =>
              obtain rfl : answer = .ok (some v) := h
              exact hset v hq
          | generalType =>
              obtain ⟨t, -, rfl⟩ := Option.map_eq_some_iff.1 (Except.ok.inj h)
              exact trivial
          | _ => exact absurd h (by simp [infer, inferBy, inferType])

/-! ## Declarations that gain what they leave out -/

structure KnownPolicies (s : State) (ps : Policies) : Prop where
  initform : ps.initform.Known s.settings
  type : ps.type.Known s.settings

section Completion

variable {ps : Policies} {env : Option FrameId}

theorem gain_eq_ok {d e : Declaration} (h : s.gain ps env d = .ok (some e)) :
    (d.default.isSome ∧ d.type? = none ∧
      ∃ t, s.infer .type ps.type d env = .ok (some t) ∧ e = d.withType t) ∨
    (d.default = none ∧
      ∃ v, s.infer .initform ps.initform d env = .ok (some v) ∧ e = d.withDefault v) := by
  unfold gain at h
  split at h
  next => exact absurd h (by simp)
  next v hdefault htype =>
    obtain ⟨t, ht, h⟩ := bind_eq_ok h
    obtain ⟨t, rfl, rfl⟩ := Option.map_eq_some_iff.1 (Except.ok.inj h)
    exact .inl ⟨by rw [hdefault]; rfl, htype, t, ht, rfl⟩
  next hdefault =>
    obtain ⟨v, hv, h⟩ := bind_eq_ok h
    obtain ⟨v, rfl, rfl⟩ := Option.map_eq_some_iff.1 (Except.ok.inj h)
    exact .inr ⟨hdefault, v, hv, rfl⟩

theorem complete_eq_ok {form v : Value} (h : s.complete ps env form = .ok v) :
    ∃ d, Declaration.ofForm form = .ok d ∧
      (v = form ∨ ∃ e, s.gain ps env d = .ok (some e) ∧ v = e.toForm) := by
  obtain ⟨r, hr, h⟩ := bind_eq_ok h
  obtain rfl := Except.ok.inj h
  obtain ⟨d, hd, hr⟩ := bind_eq_ok hr
  obtain ⟨g, hg, hr⟩ := bind_eq_ok hr
  cases g with
  | none =>
      obtain rfl := Except.ok.inj hr
      exact ⟨d, hd, .inl rfl⟩
  | some e =>
      dsimp only at hr
      split at hr
      next =>
        obtain rfl := Except.ok.inj hr
        exact ⟨d, hd, .inr ⟨e, hg, rfl⟩⟩
      next => exact absurd hr (by simp [throw, throwThe, MonadExceptOf.throw])

variable (hset : s.settings.All p) (hps : s.KnownPolicies ps)

include hset hps

theorem all_gain {d e : Declaration} (h : s.gain ps env d = .ok (some e)) (hd : d.All p) :
    e.All p := by
  rcases gain_eq_ok h with ⟨-, -, t, ht, rfl⟩ | ⟨-, v, hv, rfl⟩
  · exact hd.withType (all_infer ht hps.type hset hd)
  · exact hd.withDefault (all_infer hv hps.initform hset hd)

theorem all_complete {form v : Value} (h : s.complete ps env form = .ok v) (hform : form.All p) :
    v.All p := by
  obtain ⟨d, hd, rfl | ⟨e, he, rfl⟩⟩ := complete_eq_ok h
  · exact hform
  · exact (all_gain hset hps he (Declaration.all_ofForm hd hform)).toForm

theorem all_completeAll {forms vs : List Value} (h : s.completeAll ps env forms = .ok vs)
    (hforms : ∀ x ∈ forms, x.All p) : ∀ v ∈ vs, v.All p := by
  induction forms generalizing vs with
  | nil => obtain rfl := Except.ok.inj h; simp
  | cons form forms ih =>
      obtain ⟨v, hv, h⟩ := bind_eq_ok h
      obtain ⟨ws, hws, h⟩ := bind_eq_ok h
      obtain rfl := Except.ok.inj h
      exact List.forall_mem_cons.2 ⟨all_complete hset hps hv (hforms form (by simp)),
        ih hws fun x hx => hforms x (by simp [hx])⟩

end Completion

end State

/-! ## Options that select policies -/

def isInferenceOption (option : Value) : Bool :=
  match option.items? with
  | some (head :: _) => (Facet.ofOption? head).isSome
  | _ => false

theorem isInferenceOption_of_overrideOf {option : Value} {r : Option (Facet × Value)}
    (h : overrideOf option = .ok r) : isInferenceOption option = r.isSome := by
  unfold overrideOf at h
  unfold isInferenceOption
  generalize option.items? = items at h ⊢
  rcases items with _ | _ | ⟨head, args⟩
  · exact congrArg Option.isSome (Except.ok.inj h)
  · exact congrArg Option.isSome (Except.ok.inj h)
  · dsimp only at h ⊢
    split at h
    next => exact absurd h (by simp)
    next =>
      cases hfacet : Facet.ofOption? head with
      | none =>
          rw [hfacet] at h
          exact congrArg Option.isSome (Except.ok.inj h)
      | some facet =>
          rw [hfacet] at h
          dsimp only at h
          split at h
          next => exact congrArg Option.isSome (Except.ok.inj h)
          next => exact absurd h (by simp)

theorem splitOptionsFrom_passed {seen o : Overrides} {options passed : List Value}
    (h : splitOptionsFrom seen options = .ok (o, passed)) :
    passed = options.filter fun o => !isInferenceOption o := by
  induction options generalizing seen o passed with
  | nil => exact ((Prod.mk.inj (Except.ok.inj h)).2).symm
  | cons option rest ih =>
      rw [splitOptionsFrom] at h
      obtain ⟨r, hr, h⟩ := bind_eq_ok h
      have hoption := isInferenceOption_of_overrideOf hr
      cases r with
      | some r => rw [List.filter_cons_of_neg (by rw [hoption]; simp), ih h]
      | none =>
          obtain ⟨⟨o', passed'⟩, hrest, h⟩ := bind_eq_ok h
          obtain ⟨-, rfl⟩ := Prod.mk.inj (Except.ok.inj h)
          rw [List.filter_cons_of_pos (by rw [hoption]; rfl), ih hrest]

namespace State

variable {s : State}

/-! ## Expansion -/

theorem policies_known {c : Selection} {ps : Policies} (h : s.policies c = .ok ps) :
    s.KnownPolicies ps := by
  obtain ⟨i, hi, h⟩ := bind_eq_ok h
  obtain ⟨t, ht, h⟩ := bind_eq_ok h
  obtain rfl := Except.ok.inj h
  exact ⟨resolve_known hi, resolve_known ht⟩

/-- What a definition has to be like in order to be planned, and what the plan takes from it. -/
theorem planClass_eq_ok {args : List Value} {env : Option FrameId} {selection : Option Selection}
    {plan : ClassPlan} (h : s.planClass args env selection = .ok plan) :
    ∃ bases slots options, args = .symbol plan.name :: bases :: slots :: options ∧
      plan.bases = listOfNil bases ∧ (listOfNil slots).items? = some plan.slots ∧
      plan.options = options.filter (fun o => !isInferenceOption o) ∧
      s.KnownPolicies plan.policies := by
  unfold planClass at h
  split at h
  next name bases slots options =>
    dsimp only at h
    split at h
    next _ _ _ hslots =>
      obtain ⟨⟨overrides, passed⟩, hsplit, h⟩ := bind_eq_ok h
      obtain ⟨ps, hps, h⟩ := bind_eq_ok h
      obtain rfl := Except.ok.inj h
      exact ⟨bases, slots, options, rfl, rfl, hslots, splitOptionsFrom_passed hsplit,
        policies_known hps⟩
    next => exact absurd h (by simp [throw, throwThe, MonadExceptOf.throw])
  next => exact absurd h (by simp)
  next => exact absurd h (by simp)

/-- The plain definition holds no references but those of the definition with inference and of what
policies answer. -/
theorem all_expandClass {args : List Value} {env : Option FrameId} {selection : Option Selection}
    {form : Value} (h : s.expandClass args env selection = .ok form) (hset : s.settings.All p)
    (hargs : ∀ a ∈ args, a.All p) : form.All p := by
  obtain ⟨plan, hplan, h⟩ := bind_eq_ok h
  obtain ⟨vs, hvs, h⟩ := bind_eq_ok h
  obtain rfl := Except.ok.inj h
  obtain ⟨bases, slots, options, rfl, hbases, hslots, hoptions, hps⟩ := planClass_eq_ok hplan
  have hbases' : plan.bases.All p := hbases ▸ all_listOfNil (hargs bases (by simp))
  have hslots' := Value.all_of_items? hslots (all_listOfNil (hargs slots (by simp)))
  have hvs' := all_completeAll hset hps hvs hslots'
  have hoptions' : ∀ o ∈ plan.options, o.All p := by
    rw [hoptions]
    exact fun o ho => hargs o (by simp [(List.mem_filter.1 ho).1])
  simpa using ⟨hbases', hvs', hoptions'⟩

end State
end SlotLisp
