import SlotLisp.Proofs.Inference.Independence

/-!
Completing a declaration once is enough. A declaration that gains a type has a default already, and
one that gains a default from the empty value of its type has that type. So whatever is gained,
nothing is missing any more, and the form of the new declaration is read back as that declaration.
-/

namespace SlotLisp

/-! ## By any answers -/

section Answers

variable {infer : Facet → Declaration → Except Error (Option Value)} {d e : Declaration}

theorem gainBy_eq_none (hdefault : d.default.isSome) (htype : d.type?.isSome) :
    gainBy infer d = .ok none := by
  obtain ⟨v, hv⟩ := Option.isSome_iff_exists.1 hdefault
  obtain ⟨t, ht⟩ := Option.isSome_iff_exists.1 htype
  rw [gainBy, hv, ht]

def DefaultsTyped (infer : Facet → Declaration → Except Error (Option Value)) : Prop :=
  ∀ d v, infer .initform d = .ok (some v) → d.type?.isSome

theorem gainBy_gained (hinfer : DefaultsTyped infer) (h : gainBy infer d = .ok (some e)) :
    gainBy infer e = .ok none := by
  rw [gainBy] at h
  cases hdefault : d.default with
  | none =>
      rw [hdefault] at h
      obtain ⟨answer, hanswer, hgain⟩ := bind_eq_ok h
      obtain ⟨v, rfl, rfl⟩ := Option.map_eq_some_iff.1 (Except.ok.inj hgain)
      exact gainBy_eq_none rfl (hinfer d v hanswer)
  | some v =>
      rw [hdefault] at h
      cases htype : d.type? with
      | some t =>
          rw [htype] at h
          exact absurd h (by simp)
      | none =>
          rw [htype] at h
          obtain ⟨answer, hanswer, hgain⟩ := bind_eq_ok h
          obtain ⟨t, rfl, rfl⟩ := Option.map_eq_some_iff.1 (Except.ok.inj hgain)
          refine gainBy_eq_none ?_ (by rw [Declaration.type?_withType]; rfl)
          rw [Declaration.withType, hdefault]
          rfl

/-- A form that has been completed is one of a declaration that gains nothing. -/
theorem State.completeBy_gained {s : State} (hinfer : DefaultsTyped infer) {form v : Value}
    (h : s.completeBy infer form = .ok v) :
    ∃ d, Declaration.ofForm v = .ok d ∧ gainBy infer d = .ok none := by
  obtain ⟨d, hd, h⟩ := bind_eq_ok h
  obtain ⟨gain, hgain, h⟩ := bind_eq_ok h
  cases gain with
  | none =>
      obtain rfl := Except.ok.inj h
      exact ⟨d, hd, hgain⟩
  | some e =>
      rw [changed] at h
      split at h
      next =>
        obtain rfl := Except.ok.inj h
        exact ⟨e, Declaration.ofForm_toForm e, gainBy_gained hinfer hgain⟩
      next => exact absurd h (by simp)

theorem State.completeBy_eq_self {s : State} {v : Value} (hd : Declaration.ofForm v = .ok d)
    (hgain : gainBy infer d = .ok none) : s.completeBy infer v = .ok v := by
  rw [completeBy, hd]
  simp only [bind, Except.bind, hgain, changed]

end Answers

/-! ## By the policies for defaults -/

/-- One of the policies for defaults that look at the type of a slot, or none. -/
inductive Choice.Zero : Choice → Prop
  | off : Zero .off
  | policy {p : Policy} (hp : p.Zero) : Zero (.policy p)

namespace State

/-- What is answered where defaults are left to a choice and types to any function of the slot and
the frame. -/
def answers (s : State) (c : Choice)
    (type : Declaration → Option FrameId → Except Error (Option Value)) (env : Option FrameId) :
    Facet → Declaration → Except Error (Option Value)
  | .initform, d => s.infer .initform c d env
  | .type, d => type d env

theorem defaultsTyped_answers (s : State) {c : Choice} (hc : c.Zero)
    (type : Declaration → Option FrameId → Except Error (Option Value)) (env : Option FrameId) :
    DefaultsTyped (s.answers c type env) := by
  intro d v h
  cases hc with
  | off => exact absurd h (by simp [answers, infer])
  | @policy p hp =>
      have hzero : p.zeroDefault d = .ok (some v) := by cases hp <;> exact h
      cases htype : d.type? with
      | some t => rfl
      | none =>
          rw [Policy.zeroDefault, htype] at hzero
          exact absurd hzero (by simp)

/-- Completion by policies is a case of completion by answers. -/
theorem complete_eq_answers (s : State) (c type : Choice) (env : Option FrameId) (form : Value) :
    s.complete ⟨c, type⟩ env form = s.completeBy (s.answers c (s.infer .type type) env) form := by
  have hanswers : s.answers c (s.infer .type type) env =
      fun facet d => s.infer facet (Policies.get ⟨c, type⟩ facet) d env := by
    funext facet
    cases facet <;> rfl
  rw [complete_eq_completeBy, hanswers]

/-- A declaration that has been completed is not changed by completing it again. This is so for
defaults by the types of slots, or none, and for types by any function of the slot and the frame;
and with a policy for types, or none, such a declaration is the very one that it was. -/
theorem complete_idempotent (s : State) {c : Choice} (hc : c.Zero) (env : Option FrameId) :
    (∀ (type : Declaration → Option FrameId → Except Error (Option Value)) (form v : Value),
      s.completeBy (s.answers c type env) form = .ok v →
      s.completeBy (s.answers c type env) v = .ok v ∧
        ∃ d, Declaration.ofForm v = .ok d ∧ gainBy (s.answers c type env) d = .ok none) ∧
    ∀ (type : Choice) (form v : Value), s.complete ⟨c, type⟩ env form = .ok v →
      s.complete ⟨c, type⟩ env v = .ok v ∧ s.completion ⟨c, type⟩ env v = .ok none := by
  have hagain : ∀ (type : Declaration → Option FrameId → Except Error (Option Value))
    (form v : Value),
      s.completeBy (s.answers c type env) form = .ok v →
      s.completeBy (s.answers c type env) v = .ok v ∧
        ∃ d, Declaration.ofForm v = .ok d ∧ gainBy (s.answers c type env) d = .ok none := by
    intro type form v h
    obtain ⟨d, hd, hgain⟩ := completeBy_gained (defaultsTyped_answers s hc type env) h
    exact ⟨completeBy_eq_self hd hgain, d, hd, hgain⟩
  refine ⟨hagain, fun type form v h => ?_⟩
  rw [complete_eq_answers] at h ⊢
  obtain ⟨hv, d, hd, hgain⟩ := hagain _ form v h
  have hgain' : s.gain ⟨c, type⟩ env d = .ok none := hgain
  refine ⟨hv, ?_⟩
  rw [completion, hd]
  simp only [bind, Except.bind, hgain', pure, Except.pure]

/-- A slot that gains a type from a function that answers the same for all slots, and one that gains
a default from the empty value of its type. -/
theorem complete_idempotent_gained :
    let s := State.start Settings.standard
    let type : Declaration → Option FrameId → Except Error (Option Value) :=
      fun _ _ => .ok (some (.symbol ⟨"t"⟩))
    let x : Declaration := ⟨⟨"x"⟩, some (.bool true), []⟩
    let y : Declaration := ⟨⟨"y"⟩, none, [(.symbol Declaration.typeKey, .symbol ⟨"string"⟩)]⟩
    let x' := (x.withType (.symbol ⟨"t"⟩)).toForm
    let y' := (y.withDefault (.str .empty)).toForm
    (Choice.policy .buildError).Zero ∧
      s.completeBy (s.answers (.policy .buildError) type none) x.toForm = .ok x' ∧
      s.completeBy (s.answers (.policy .buildError) type none) x' = .ok x' ∧
      s.complete ⟨.policy .buildError, .off⟩ none y.toForm = .ok y' ∧
      s.complete ⟨.policy .buildError, .off⟩ none y' = .ok y' ∧
      s.completion ⟨.policy .buildError, .off⟩ none y' = .ok none := by
  intro s type x y x' y'
  have hc : (Choice.policy .buildError).Zero := .policy .buildError
  have hx : s.completeBy (s.answers (.policy .buildError) type none) x.toForm = .ok x' := rfl
  have hy : s.complete ⟨.policy .buildError, .off⟩ none y.toForm = .ok y' := by
    have hd : Declaration.ofForm y.toForm = .ok y := Declaration.ofForm_toForm y
    have hgain : s.gain ⟨.policy .buildError, .off⟩ none y =
      .ok (some (y.withDefault (.str .empty))) := rfl
    rw [complete, completion, hd]
    simp only [bind, Except.bind, hgain]
    rfl
  obtain ⟨hby, hpolicies⟩ := complete_idempotent s hc none
  obtain ⟨hx', -⟩ := hby type x.toForm x' hx
  obtain ⟨hy', hnone⟩ := hpolicies .off y.toForm y' hy
  exact ⟨hc, hx, hx', hy, hy', hnone⟩

end State
end SlotLisp
