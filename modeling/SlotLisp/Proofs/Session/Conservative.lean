import SlotLisp.Proofs.Inference.Completion
import SlotLisp.Proofs.Session.Atomicity

/-!
A class definition with inference ends as the plain definition with the same parts does. Both bind
the same names or come to the same error, and the two classes differ in nothing but in slots to
which a type or a default has been added.
-/

namespace SlotLisp

/-- `b` is `a` with slots that gain a type or a default. -/
structure Class.Gains (a b : Class) : Prop where
  name : b.name = a.name
  bases : b.bases = a.bases
  options : b.options = a.options
  frame : b.frame = a.frame
  macros : b.macros = a.macros
  lineage : b.lineage = a.lineage
  slots : List.Forall₂ Slot.Gains a.slots b.slots

structure ClassDraft.Gains (d e : ClassDraft) : Prop where
  name : e.name = d.name
  bases : e.bases = d.bases
  options : e.options = d.options
  own : List.Forall₂ Slot.Gains d.own e.own

/-- `t` and `u`, which a class definition has come to from `s`, differ in nothing but the class that
is defined, and in that only as far as slots gain. Marks, which tell values apart and are no part of
any, are left out. -/
structure State.DefinedAlike (s t u : State) : Prop where
  settings : u.settings = t.settings
  frames : u.frames = t.frames
  instances : u.instances = t.instances
  macroTables : u.macroTables = t.macroTables
  closures : u.closures = t.closures
  count : u.classes.size = t.classes.size
  others : ∀ c, c ≠ s.classes.size → u.classes[c]? = t.classes[c]?
  defined : (t.getClass s.classes.size).Gains (u.getClass s.classes.size)

/-- From `s` two computations come to the same error or to the same new class, in states in which it
is defined alike. -/
def State.EndAlike (s : State) (x y : Eval Value) : Prop :=
  ∃ r t u, x.outcome s = some (r, t) ∧ y.outcome s = some (r, u) ∧ s.DefinedAlike t u ∧
    ∀ v, r = .ok v → v = .ref (.cls s.classes.size)

/-- What is the same for related items is the same in lists of them. -/
theorem map_eq_of_forall₂ {α β γ : Type} {R : α → β → Prop} {f : α → γ} {g : β → γ} {xs : List α}
    {ys : List β} (h : List.Forall₂ R xs ys) (hfg : ∀ a b, R a b → g b = f a) :
    ys.map g = xs.map f := by
  induction h with
  | nil => rfl
  | cons h _ ih => rw [List.map_cons, List.map_cons, hfg _ _ h, ih]

theorem Class.Gains.refl (c : Class) : c.Gains c :=
  ⟨rfl, rfl, rfl, rfl, rfl, rfl, List.forall₂_same.2 fun a _ => .refl a⟩

/-! ## Drafts -/

/-- Readers are bound to the same names and read slots of the same names. -/
theorem ClassDraft.Gains.bindings {d e : ClassDraft} (h : d.Gains e) (c : ClassId) :
    e.bindings c = d.bindings c := by
  rw [ClassDraft.bindings, ClassDraft.bindings, h.name]
  congr 3
  refine map_eq_of_forall₂ h.own fun a b hab => ?_
  rw [hab.name, hab.accessor]

namespace State

variable {s : State} {d e : ClassDraft}

theorem classOfDraft_gains (h : d.Gains e) (env : FrameId) (macros : MacroTableId) :
    (s.classOfDraft d env macros).Gains (s.classOfDraft e env macros) := by
  have hnames : e.own.map Slot.name = d.own.map Slot.name :=
    map_eq_of_forall₂ h.own fun _ _ hab => hab.name
  refine ⟨h.name, h.bases, h.options, rfl, rfl, ?_, ?_⟩
  · rw [classOfDraft, classOfDraft, h.bases]
  · -- Inherited slots are chosen by the names of the own ones alone.
    show List.Forall₂ Slot.Gains (s.effectiveSlots d.bases d.own) (s.effectiveSlots e.bases e.own)
    rw [effectiveSlots, effectiveSlots, h.bases, hnames]
    exact List.rel_append (List.forall₂_same.2 fun a _ => .refl a) h.own

/-- A definition with completed declarations has the same fault as the one without, or drafts a
class with slots that gain. -/
theorem draftClass_completed {bases bases' slots : Value} {forms vs : List Value}
    (hbases : partsOf bases' = partsOf bases) (hslots : partsOf slots = .ok forms)
    (h : List.Forall₂ Completes forms vs) (env : FrameId) (n : Symbol) (options : List Value) :
    (∃ err, s.draftClass env (.symbol n :: bases :: slots :: options) = .error err ∧
      s.draftClass env (.symbol n :: bases' :: .list vs :: options) = .error err) ∨
    ∃ d e, s.draftClass env (.symbol n :: bases :: slots :: options) = .ok d ∧
      s.draftClass env (.symbol n :: bases' :: .list vs :: options) = .ok e ∧ d.Gains e := by
  obtain ⟨ds, es, hds, hes, hgains⟩ := mapM_ofForm_completes h
  have hdecls : declarationsOf slots = .ok ds := by rw [declarationsOf, hslots]; exact hds
  have hdecls' : declarationsOf (.list vs) = .ok es := hes
  have hnames : es.map Declaration.name = ds.map Declaration.name :=
    map_eq_of_forall₂ hgains fun _ _ hde => hde.name
  rw [draftClass_eq, draftClass_eq, hbases, hdecls, hdecls']
  cases hparts : partsOf bases with
  | error err => exact .inl ⟨err, rfl, rfl⟩
  | ok names =>
      dsimp only [bind, Except.bind]
      cases hclasses : names.mapM (s.baseClass env) with
      | error err => exact .inl ⟨err, rfl, rfl⟩
      | ok bs =>
          dsimp only
          rw [hnames]
          split
          next => exact .inl ⟨_, rfl, rfl⟩
          next =>
            cases hoptions : options.mapM classOption with
            | error err => exact .inl ⟨err, rfl, rfl⟩
            | ok os =>
                refine .inr ⟨_, _, rfl, rfl, rfl, rfl, rfl, ?_⟩
                rw [List.forall₂_map_left_iff, List.forall₂_map_right_iff]
                exact hgains.imp fun _ _ hde => Slot.gains_ofDeclaration n hde

/-! ## States -/

/-- What is bound in a frame does not depend on anything but frames. -/
theorem bindAll_frames {t u : State} (h : u.frames = t.frames) (f : FrameId)
    (bs : List (Symbol × Value)) :
    (u.bindAll f bs).frames = (t.bindAll f bs).frames := by
  induction bs generalizing t u with
  | nil => exact h
  | cons b bs ih =>
      refine ih ?_
      rw [define, define, h]

/-- Two classes of which the second has slots that gain leave states alike if the same names are
bound. -/
theorem definedAlike_addClass {j k : Class} (h : j.Gains k) (m : Nat) (f : FrameId)
    (bs : List (Symbol × Value)) :
    s.DefinedAlike ((s.addClass j).1.bindAll f bs)
      ((({ s with marks := m } : State).addClass k).1.bindAll f bs) := by
  have hsame : (({ s with marks := m } : State).addClass k).1.frames =
    (s.addClass j).1.frames := rfl
  have hj := getClass_bindAll s j f bs
  have hk :
      ((({ s with marks := m } : State).addClass k).1.bindAll f bs).getClass s.classes.size = k :=
    getClass_bindAll { s with marks := m } k f bs
  refine ⟨?_, bindAll_frames hsame f bs, ?_, ?_, ?_, ?_, fun c hc => ?_, ?_⟩
  · rw [bindAll_eq, bindAll_eq (s.addClass j).1]; rfl
  · rw [bindAll_eq, bindAll_eq (s.addClass j).1]; rfl
  · rw [bindAll_eq, bindAll_eq (s.addClass j).1]; rfl
  · rw [bindAll_eq, bindAll_eq (s.addClass j).1]; rfl
  · rw [bindAll_eq, bindAll_eq (s.addClass j).1]
    exact (Array.size_push k).trans (Array.size_push j).symm
  · rw [bindAll_eq, bindAll_eq (s.addClass j).1]
    show (s.classes.push k)[c]? = (s.classes.push j)[c]?
    rw [Array.getElem?_push, Array.getElem?_push, if_neg hc, if_neg hc]
  · rw [hj, hk]
    exact h

end State

namespace Eval

open State

/-- Completed declarations do not change how a class definition ends. -/
theorem defineClass_completed {s : State} {bases bases' slots : Value} {forms vs : List Value}
    (hbases : partsOf bases' = partsOf bases) (hslots : partsOf slots = .ok forms)
    (h : List.Forall₂ Completes forms vs) (n : Symbol) (options : List Value) (env : FrameId)
    (macros : MacroTableId) (m : Nat) :
    ∃ r t u, (defineClass (.symbol n :: bases :: slots :: options) env macros).outcome s =
      some (r, t) ∧
      (defineClass (.symbol n :: bases' :: .list vs :: options) env macros).outcome
        { s with marks := m } = some (r, u) ∧ s.DefinedAlike t u := by
  have hmarks : ∀ args, ({ s with marks := m } : State).draftClass env args =
      s.draftClass env args :=
    fun _ => rfl
  rcases s.draftClass_completed hbases hslots h env n options with
    ⟨e, hd, he⟩ | ⟨d, e, hd, he, hgains⟩
  · refine ⟨.error e, s, { s with marks := m }, outcome_defineClass_error hd macros,
      outcome_defineClass_error ((hmarks _).trans he) macros, ?_⟩
    exact ⟨rfl, rfl, rfl, rfl, rfl, rfl, fun _ _ => rfl, .refl _⟩
  · have hclass := s.classOfDraft_gains hgains env macros
    have hbindings := hgains.bindings s.classes.size
    rcases named_or_refused (d.bindings s.classes.size) with ⟨bs, hbs⟩ | ⟨bs, _, _, _, hbs, hname⟩
    · exact ⟨_, _, _, outcome_defineClass_named hd hbs macros,
        outcome_defineClass_named ((hmarks _).trans he) (hbindings.trans hbs) macros,
        definedAlike_addClass hclass m env bs⟩
    · exact ⟨_, _, _, outcome_defineClass_refused hd hbs hname macros,
        outcome_defineClass_refused ((hmarks _).trans he) (hbindings.trans hbs) hname macros,
        definedAlike_addClass hclass m env bs⟩

end Eval

namespace State

/-- As a part of the state, an expansion of marked parts is one with declarations that are completed
in the same places. -/
theorem mark_expansion {s : State} {n : Symbol} {bases : Value} {forms vs options : List Value}
    (h : List.Forall₂ Completes forms vs) (hbases : bases.Marked) (hforms : ∀ x ∈ forms, x.Marked)
    (hoptions : ∀ o ∈ options, o.Marked) :
    ∃ ws m, List.Forall₂ Completes forms ws ∧
      s.mark (.list (.symbol Symbol.defclass :: .symbol n :: bases :: .list vs :: options)) =
        ({ s with marks := m },
          .list (.symbol Symbol.defclass :: .symbol n :: bases :: .list ws :: options)) := by
  have hmark :
    (Value.list (.symbol Symbol.defclass :: .symbol n :: bases :: .list vs :: options)).mark =
      (fun ws => .list (.symbol Symbol.defclass :: .symbol n :: bases :: .list ws :: options)) <$>
        Value.markAll vs := by
    rw [Value.mark, Value.markAll, Value.markAll, Value.markAll, Value.markAll,
      Value.mark_of_marked hbases, Value.markAll_of_marked hoptions]
    rfl
  refine ⟨_, ((Value.markAll vs).run s.marks).2, completes_markAll h hforms s.marks, ?_⟩
  rw [mark, hmark]
  rfl

/-- In every state and by whatever policies, the plain definition that one with inference stands for
ends as the definition does that has the same parts and leaves the options for inference out. So do
the forms for them where their heads have the meaning that they have in a new session. -/
theorem expandClass_conservative {s : State} {args : List Value} {scope : Option FrameId}
    {selection : Option Selection} {form : Value}
    (h : s.expandClass args scope selection = .ok form) (env : FrameId) (macros : MacroTableId) :
    let plain : Value := .list (.symbol Symbol.defclass :: plainArguments args)
    (∃ parts, form = .list (.symbol Symbol.defclass :: parts) ∧
      s.EndAlike (Eval.defineClass (plainArguments args) env macros)
        (Eval.defineClass parts env macros)) ∧
    (s.transformer? macros Symbol.defclass = none → ∀ fuel,
      s.EndAlike (evaluate (fuel + 1) plain env macros) (evaluate (fuel + 1) form env macros)) ∧
    (s.StandardClassForms macros → scope = some env → selection = none →
      (∀ a ∈ args, a.Marked) → ∀ fuel,
      s.EndAlike (evaluate (fuel + 1) plain env macros)
        (evaluate (fuel + 2) (.list (.symbol Symbol.inferredClass :: args)) env macros)) := by
  obtain ⟨n, bases, slots, options, forms, vs, rfl, hforms, hvs, rfl⟩ := expandClass_eq_ok h
  have hslots : partsOf slots = .ok forms :=
    (partsOf_listOfNil slots).symm.trans (partsOf_of_items? hforms)
  have hends := fun {ws} (hws : List.Forall₂ Completes forms ws) => Eval.defineClass_completed
    (s := s) (partsOf_listOfNil bases) hslots hws n
    (options.filter fun o => !isInferenceOption o) env macros
  obtain ⟨r, t, u, hplain, hparts, halike⟩ := hends hvs s.marks
  have hnew : ∀ v, r = .ok v → v = .ref (.cls s.classes.size) := by
    rintro v rfl
    exact Eval.defineClass_new hplain
  refine ⟨⟨_, rfl, r, t, u, hplain, hparts, halike, hnew⟩, fun hmacro fuel => ?_, ?_⟩
  · refine ⟨r, t, u, ?_, ?_, halike, hnew⟩
    · exact (Eval.outcome_evaluate_plain hmacro fuel).trans hplain
    · exact (Eval.outcome_evaluate_plain hmacro fuel).trans hparts
  · rintro hmeaning rfl rfl hmarked fuel
    have hbases : (listOfNil bases).Marked := marked_listOfNil (hmarked bases (by simp))
    have hmarkedForms : ∀ x ∈ forms, x.Marked :=
      Value.marked_of_items? hforms (marked_listOfNil (hmarked slots (by simp)))
    have hoptions : ∀ o ∈ options.filter (fun o => !isInferenceOption o), o.Marked := fun o ho =>
      hmarked o (by simp [(List.mem_filter.1 ho).1])
    obtain ⟨ws, m, hws, hmark⟩ := mark_expansion (s := s) (n := n) hvs hbases hmarkedForms hoptions
    obtain ⟨r', t', w, hplain', hparts', halike'⟩ := hends hws m
    obtain ⟨rfl, rfl⟩ := Prod.mk.inj (Option.some.inj (hplain.symm.trans hplain'))
    refine ⟨r, t, w, ?_, ?_, halike', hnew⟩
    · exact (Eval.outcome_evaluate_plain hmeaning.plain fuel).trans hplain
    · rw [Eval.outcome_evaluate_inferred hmeaning.inferred, h]
      dsimp only
      rw [hmark]
      exact (Eval.outcome_evaluate_plain (s := { s with marks := m })
        hmeaning.plain fuel).trans hparts'

/-- A class with one slot that gains a type and one that gains a default, and with options that are
left out. -/
theorem expandClass_conservative_point :
    let s := (Session.full (State.start Settings.standard) none).1
    let args : List Value := [.symbol ⟨"point"⟩, .nil,
      .list [.list [.symbol ⟨"x"⟩, .str (.ofString "a")],
        .list [.symbol ⟨"label"⟩, .symbol ⟨":type"⟩, .symbol ⟨"string"⟩]],
      .list [.symbol Facet.initform.option, .symbol ⟨":error"⟩],
      .list [.symbol Facet.type.option, .symbol ⟨":general"⟩]]
    let form : Value := .list [.symbol Symbol.defclass, .symbol ⟨"point"⟩, .list [],
      .list [.list [.symbol ⟨"x"⟩, .str (.ofString "a"), .symbol ⟨":type"⟩, .symbol ⟨"string"⟩],
        .list [.symbol ⟨"label"⟩, .str .empty, .symbol ⟨":type"⟩, .symbol ⟨"string"⟩]]]
    let plain : Value := .list (.symbol Symbol.defclass :: plainArguments args)
    s.expandClass args (some 0) none = .ok form ∧ s.transformer? 0 Symbol.defclass = none ∧
      s.StandardClassForms 0 ∧ (∀ a ∈ args, a.Marked) ∧
      s.EndAlike (evaluate 1 plain 0 0) (evaluate 1 form 0 0) ∧
      s.EndAlike (evaluate 1 plain 0 0)
        (evaluate 2 (.list (.symbol Symbol.inferredClass :: args)) 0 0) ∧
      ∃ u, (evaluate 1 form 0 0).outcome s = some (.ok (.ref (.cls s.classes.size)), u) ∧
        (u.getClass s.classes.size).slots.map (fun slot => (slot.default, slot.type)) =
          [(some (.str (.ofString "a")), some (.symbol ⟨"string"⟩)),
            (some (.str .empty), some (.symbol ⟨"string"⟩))] := by
  intro s args form plain
  have h : s.expandClass args (some 0) none = .ok form := by rfl
  have hmeaning : s.StandardClassForms 0 := Session.standardClassForms_start
  have hmarked : ∀ a ∈ args, a.Marked := by
    simp [args, Value.Marked, Value.MarkedItems]
  obtain ⟨-, hplain, hinferred⟩ := expandClass_conservative h 0 0
  exact ⟨h, hmeaning.plain, hmeaning, hmarked, hplain hmeaning.plain 0,
    hinferred hmeaning rfl rfl hmarked 0, _, rfl, rfl⟩

end State

end SlotLisp
