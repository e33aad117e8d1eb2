import SlotLisp.Proofs.Classes.Definition
import SlotLisp.Proofs.Session.Reachable

/-!
Whether a class definition happens as a whole or not at all. It does, unless a reader of its own
slots is to be bound to something that is no symbol: that is found out after the class and its
constructor have been bound.
-/

namespace SlotLisp

def Symbol.inferredClass : Symbol := ⟨"defclass*"⟩

inductive ClassForm : Value → Prop
  | plain (args : List Value) : ClassForm (.list (.symbol Symbol.defclass :: args))
  | inferred (args : List Value) : ClassForm (.list (.symbol Symbol.inferredClass :: args))

/-- Whether all readers of a draft's own slots are to be bound to symbols. -/
def ClassDraft.Nameable (d : ClassDraft) : Prop := ∀ slot ∈ d.own, ∃ n, slot.accessor = .symbol n

namespace State

/-- The draft of the class that a form defines in a frame. A definition with inference is the plain
one that it stands for. -/
inductive Drafts (s : State) (env : FrameId) : Value → ClassDraft → Prop
  | plain {args : List Value} {d : ClassDraft} (h : s.draftClass env args = .ok d) :
      Drafts s env (.list (.symbol Symbol.defclass :: args)) d
  | inferred {args parts : List Value} {form : Value} {d : ClassDraft}
      (hform : s.expandClass args (some env) none = .ok form)
      (hparts : (s.mark form).2 = .list (.symbol Symbol.defclass :: parts))
      (h : s.draftClass env parts = .ok d) :
      Drafts s env (.list (.symbol Symbol.inferredClass :: args)) d

/-- The two class forms mean in a table of macros what they mean in that of a new session. -/
structure StandardClassForms (s : State) (macros : MacroTableId) : Prop where
  plain : s.transformer? macros Symbol.defclass = none
  inferred : s.transformer? macros Symbol.inferredClass = some .inferredClassForm

/-- From `s` to `t` the class of a draft is defined, with all that it binds, and nothing else
happens. -/
structure Defines (s t : State) (d : ClassDraft) (env : FrameId) (macros : MacroTableId) :
    Prop where
  classes : t.classes = s.classes.push (s.classOfDraft d env macros)
  instances : t.instances = s.instances
  macroTables : t.macroTables = s.macroTables
  bindings : ∃ bs, d.bindings s.classes.size = named bs ∧ s.Binds t env bs

structure Untouched (s t : State) : Prop where
  frames : t.frames = s.frames
  classes : ∀ c < s.classes.size, t.classes[c]? = s.classes[c]?
  instances : ∀ i < s.instances.size, t.instances[i]? = s.instances[i]?
  macroTables : t.macroTables = s.macroTables

/-- An end that a class definition may come to: the new class of a draft, with all of its bindings,
or an error that leaves everything as it was. -/
def Atomic (s : State) (env : FrameId) (macros : MacroTableId) (draft : ClassDraft → Prop)
    (r : Except Error Value) (t : State) : Prop :=
  (∃ d, draft d ∧ r = .ok (.ref (.cls s.classes.size)) ∧ s.Defines t d env macros) ∨
    (∃ e, r = .error e ∧ s.Untouched t)

variable {s t : State} {env : FrameId} {macros : MacroTableId} {d : ClassDraft}

theorem Untouched.refl (s : State) : s.Untouched s := ⟨rfl, fun _ _ => rfl, fun _ _ => rfl, rfl⟩

/-! ## Drafts of forms -/

theorem drafts_plain_iff {args : List Value} :
    s.Drafts env (.list (.symbol Symbol.defclass :: args)) d ↔ s.draftClass env args = .ok d := by
  refine ⟨fun h => ?_, .plain⟩
  generalize hform : Value.list (.symbol Symbol.defclass :: args) = form at h
  cases h with
  | plain h =>
      obtain ⟨-, rfl⟩ := List.cons.inj (Value.list.inj hform)
      exact h
  | inferred =>
      have hhead := Value.symbol.inj (List.cons.inj (Value.list.inj hform)).1
      exact absurd hhead (by decide)

theorem drafts_inferred_iff {args : List Value} :
    s.Drafts env (.list (.symbol Symbol.inferredClass :: args)) d ↔
      ∃ form parts, s.expandClass args (some env) none = .ok form ∧
        (s.mark form).2 = .list (.symbol Symbol.defclass :: parts) ∧
        s.draftClass env parts = .ok d := by
  refine ⟨fun h => ?_, fun ⟨_, _, hform, hparts, h⟩ => .inferred hform hparts h⟩
  generalize hsource : Value.list (.symbol Symbol.inferredClass :: args) = source at h
  cases h with
  | plain =>
      have hhead := Value.symbol.inj (List.cons.inj (Value.list.inj hsource)).1
      exact absurd hhead (by decide)
  | inferred hform hparts h =>
      obtain ⟨-, rfl⟩ := List.cons.inj (Value.list.inj hsource)
      exact ⟨_, _, hform, hparts, h⟩

/-- The expansion of a definition with inference, as a part of the state, is a plain definition. -/
theorem mark_expandClass {args : List Value} {form : Value}
    (h : s.expandClass args (some env) none = .ok form) :
    ∃ parts, (s.mark form).2 = .list (.symbol Symbol.defclass :: parts) := by
  obtain ⟨plan, -, h⟩ := bind_eq_ok h
  obtain ⟨slots, -, h⟩ := bind_eq_ok h
  obtain rfl := Except.ok.inj h
  exact ⟨_, rfl⟩

/-- Marks have no part in how a definition ends. -/
theorem Atomic.marks {draft : ClassDraft → Prop} {r : Except Error Value}
    (h : s.Atomic env macros draft r t) (n : Nat) :
    ({ s with marks := n } : State).Atomic env macros draft r t := by
  rcases h with ⟨d, hd, hr, h⟩ | ⟨e, hr, h⟩
  · obtain ⟨bs, hbs, hb⟩ := h.bindings
    exact .inl ⟨d, hd, hr, h.classes, h.instances, h.macroTables, bs, hbs, hb.size, hb.other,
      hb.outers, hb.vars⟩
  · exact .inr ⟨e, hr, h.frames, h.classes, h.instances, h.macroTables⟩

/-! ## The bindings of a draft -/

theorem bindings_named_iff (d : ClassDraft) (c : ClassId) :
    (∃ bs, d.bindings c = named bs) ↔ d.Nameable := by
  rw [named_iff, ClassDraft.bindings]
  constructor
  · intro h slot hslot
    exact h _ (List.mem_cons_of_mem _ (List.mem_cons_of_mem _ (List.mem_cons_of_mem _
      (List.mem_map_of_mem hslot))))
  · intro h b hb
    simp only [List.mem_cons, List.mem_map] at hb
    rcases hb with rfl | rfl | rfl | ⟨slot, hslot, rfl⟩
    · exact ⟨_, rfl⟩
    · exact ⟨_, rfl⟩
    · exact ⟨_, rfl⟩
    · exact h slot hslot

/-- Nothing that a definition binds could have been in the state before. -/
theorem not_knows_bindings (s : State) (d : ClassDraft) :
    ∀ b ∈ d.bindings s.classes.size, ¬ s.Knows b.2 := by
  intro b hb
  simp only [ClassDraft.bindings, List.mem_cons, List.mem_map] at hb
  rcases hb with rfl | rfl | rfl | ⟨slot, hslot, rfl⟩
  · exact Nat.lt_irrefl s.classes.size
  · exact Nat.lt_irrefl s.classes.size
  · exact Nat.lt_irrefl s.classes.size
  · exact fun h => Nat.lt_irrefl s.classes.size h.1

/-- A frame in which some of a definition's bindings have been made is not as it was. -/
theorem frames_ne_of_binds (hs : s.Sound) {bs : List (Symbol × Value)} (hbs : bs ≠ [])
    (hnew : ∀ b ∈ bs, ¬ s.Knows b.2) (h : s.Binds t env bs) : t.frames ≠ s.frames := by
  intro hframes
  obtain ⟨b, hb⟩ := List.exists_mem_of_ne_nil bs hbs
  obtain ⟨v, hv, hmem⟩ := Table.get?_ofList_of_mem hb
  have hget : (s.frame env).vars.get? b.1 = some v := by
    have hvars := h.vars b.1
    rw [hv, frame, hframes] at hvars
    exact hvars
  exact hnew _ hmem (hs.vars env _ (Table.mem_of_get? hget))

theorem binds_addClass (k : Class) (henv : env < s.frames.size) (bs : List (Symbol × Value)) :
    s.Binds ((s.addClass k).1.bindAll env bs) env bs := by
  have h := binds_bindAll (s := (s.addClass k).1) henv bs
  exact ⟨h.size, h.other, h.outers, h.vars⟩

end State

namespace Eval

variable {s : State} {env : FrameId} {macros : MacroTableId} {d : ClassDraft} {args : List Value}

open State

/-! ## Plain definitions -/

theorem defineClass_defines (henv : env < s.frames.size) (h : s.draftClass env args = .ok d)
    (hname : d.Nameable) (macros : MacroTableId) : ∃ t, (defineClass args env macros).outcome s =
      some (.ok (.ref (.cls s.classes.size)), t) ∧ s.Defines t d env macros := by
  obtain ⟨bs, hbs⟩ := (bindings_named_iff d s.classes.size).2 hname
  refine ⟨_, outcome_defineClass_named h hbs macros, ?_⟩
  have hbinds := binds_addClass (s.classOfDraft d env macros) henv bs
  refine ⟨?_, ?_, ?_, bs, hbs, hbinds⟩
  · rw [bindAll_eq]; rfl
  · rw [bindAll_eq]; rfl
  · rw [bindAll_eq]; rfl

/-- The class, its constructor and its predicate are bound before a reader is found to have no
symbol. -/
theorem defineClass_breaks (hs : s.Sound) (henv : env < s.frames.size)
    (h : s.draftClass env args = .ok d) (hname : ¬ d.Nameable) (macros : MacroTableId) :
    ∃ e t, (defineClass args env macros).outcome s = some (.error e, t) ∧ t.frames ≠ s.frames := by
  have hnot : ¬ ∃ bs, d.bindings s.classes.size = named bs :=
    fun h => hname ((bindings_named_iff d s.classes.size).1 h)
  obtain ⟨bs, name, v, rest, hbs, hsymbol⟩ := (named_or_refused _).resolve_left hnot
  refine ⟨_, _, outcome_defineClass_refused h hbs hsymbol macros, ?_⟩
  have hnew : ∀ b ∈ bs, ¬ s.Knows b.2 := by
    intro b hb
    have hmem : (Value.symbol b.1, b.2) ∈ d.bindings s.classes.size := by
      rw [hbs]
      exact List.mem_append_left _ (List.mem_map_of_mem hb)
    exact not_knows_bindings s d _ hmem
  have hne : bs ≠ [] := by
    rintro rfl
    exact hsymbol d.name (congrArg Prod.fst (List.cons.inj hbs).1).symm
  exact frames_ne_of_binds hs hne hnew (binds_addClass _ henv bs)

theorem defineClass_atomic_iff (hs : s.Sound) (henv : env < s.frames.size) (args : List Value)
    (macros : MacroTableId) : ∃ r t, (defineClass args env macros).outcome s = some (r, t) ∧
      (s.Atomic env macros (fun d => s.draftClass env args = .ok d) r t ↔
        ∀ d, s.draftClass env args = .ok d → d.Nameable) := by
  cases hd : s.draftClass env args with
  | error e =>
      refine ⟨.error e, s, outcome_defineClass_error hd macros, ?_⟩
      exact ⟨fun _ _ h => absurd h (by simp), fun _ => .inr ⟨e, rfl, .refl s⟩⟩
  | ok d =>
      by_cases hname : d.Nameable
      · obtain ⟨t, hout, hdefines⟩ := defineClass_defines henv hd hname macros
        refine ⟨_, t, hout, fun _ c hc => ?_, fun _ => .inl ⟨d, rfl, rfl, hdefines⟩⟩
        obtain rfl := Except.ok.inj hc
        exact hname
      · obtain ⟨e, t, hout, hframes⟩ := defineClass_breaks hs henv hd hname macros
        refine ⟨_, t, hout, ?_, fun h => absurd (h d rfl) hname⟩
        rintro (⟨_, -, hok, -⟩ | ⟨_, -, huntouched⟩)
        · exact absurd hok (by simp)
        · exact absurd huntouched.frames hframes

/-! ## Class forms -/

theorem outcome_evaluate_plain (h : s.transformer? macros Symbol.defclass = none) (fuel : Nat) :
    (evaluate (fuel + 1) (.list (.symbol Symbol.defclass :: args)) env macros).outcome s =
      (defineClass args env macros).outcome s := by
  show (symbolForm (evaluate fuel) fuel Symbol.defclass args env macros).outcome s = _
  have hspecial : SpecialForm.ofSymbol? Symbol.defclass = some .classDefinition := by decide
  rw [symbolForm, outcome_bind_ok (outcome_get s), h, hspecial]
  rfl

/-- A definition with inference is evaluated as the plain one that it stands for. -/
theorem outcome_evaluate_inferred
    (h : s.transformer? macros Symbol.inferredClass = some .inferredClassForm) (fuel : Nat)
    (args : List Value) (env : FrameId) :
    (evaluate (fuel + 1) (.list (.symbol Symbol.inferredClass :: args)) env macros).outcome s =
      match s.expandClass args (some env) none with
      | .ok form => (evaluate fuel (s.mark form).2 env macros).outcome (s.mark form).1
      | .error e => some (.error e, s) := by
  show (symbolForm (evaluate fuel) fuel Symbol.inferredClass args env macros).outcome s = _
  rw [symbolForm, outcome_bind_ok (outcome_get s), h]
  show (transformClass args env >>= fun form => evaluate fuel form env macros).outcome s = _
  rw [outcome_bind, transformClass, outcome_bind, outcome_ask]
  cases s.expandClass args (some env) none with
  | ok form => rfl
  | error e => rfl

end Eval

namespace Session

/-- In every state of a session and in every frame of it, a class form ends as a whole or not at all
exactly if the class that it drafts has symbols as the names of its readers. -/
theorem Reachable.classForm_atomic_iff {settings : Settings} {selection : Option Selection}
    (hfresh : Fresh settings selection) {s : State} (hs : Reachable settings selection s)
    {env : FrameId} (henv : env < s.frames.size) {macros : MacroTableId}
    (hmeaning : s.StandardClassForms macros) {form : Value} (hform : ClassForm form) (fuel : Nat) :
    ∃ r t, (evaluate (fuel + 2) form env macros).outcome s = some (r, t) ∧
      (s.Atomic env macros (s.Drafts env form) r t ↔ ∀ d, s.Drafts env form d → d.Nameable) := by
  have hsound := hs.sound hfresh
  cases hform with
  | plain args =>
      have hdraft : s.Drafts env (.list (.symbol Symbol.defclass :: args)) =
          fun d => s.draftClass env args = .ok d :=
        funext fun d => propext State.drafts_plain_iff
      obtain ⟨r, t, hout, hiff⟩ := Eval.defineClass_atomic_iff hsound henv args macros
      refine ⟨r, t, ?_, ?_⟩
      · rw [Eval.outcome_evaluate_plain hmeaning.plain, hout]
      · rw [hdraft]
        exact hiff
  | inferred args =>
      have hout := Eval.outcome_evaluate_inferred hmeaning.inferred (fuel + 1) args env
      cases hexpand : s.expandClass args (some env) none with
      | error e =>
          refine ⟨.error e, s, by rw [hout, hexpand], fun _ d hd => ?_, fun _ => ?_⟩
          · obtain ⟨_, _, hform, -⟩ := State.drafts_inferred_iff.1 hd
            exact absurd (hexpand.symm.trans hform) (by simp)
          · exact .inr ⟨e, rfl, .refl s⟩
      | ok expansion =>
          obtain ⟨parts, hparts⟩ := State.mark_expandClass hexpand
          have hdraft : s.Drafts env (.list (.symbol Symbol.inferredClass :: args)) =
              fun d => s.draftClass env parts = .ok d := by
            funext d
            refine propext (State.drafts_inferred_iff.trans ⟨?_, fun h =>
              ⟨_, _, hexpand, hparts, h⟩⟩)
            rintro ⟨form, others, hform, hothers, h⟩
            obtain rfl := Except.ok.inj (hexpand.symm.trans hform)
            obtain ⟨-, rfl⟩ := List.cons.inj (Value.list.inj (hparts.symm.trans hothers))
            exact h
          -- The expansion is evaluated in a state that differs from `s` in its marks alone.
          have hmarked := (State.leads_of_counters hsound s.closures
            (expansion.mark.run s.marks).2).sound
          obtain ⟨r, t, hplain, hiff⟩ := Eval.defineClass_atomic_iff hmarked henv parts macros
          refine ⟨r, t, ?_, ?_⟩
          · rw [hout, hexpand]
            dsimp only
            rw [hparts, ← hplain]
            exact Eval.outcome_evaluate_plain (s := (s.mark expansion).1) hmeaning.plain fuel
          · rw [hdraft]
            exact ⟨fun h => hiff.1 (h.marks _), fun h => (hiff.2 h).marks s.marks⟩

theorem standardClassForms_start :
    (full (State.start Settings.standard) none).1.StandardClassForms 0 where
  plain := by rfl
  inferred := by rfl

/-- A class with one slot whose reader gets its usual name. -/
theorem Reachable.classForm_atomic_iff_usual :
    let s := (full (State.start Settings.standard) none).1
    let form : Value :=
      .list [.symbol Symbol.defclass, .symbol ⟨"p"⟩, .list [], .list [.symbol ⟨"x"⟩]]
    Fresh Settings.standard none ∧ 0 < s.frames.size ∧ s.StandardClassForms 0 ∧ ClassForm form ∧
      ∃ r t, (evaluate 2 form 0 0).outcome s = some (r, t) ∧
      s.Atomic 0 0 (s.Drafts 0 form) r t := by
  intro s form
  have hs : Reachable Settings.standard none s := .start
  have hframe : 0 < s.frames.size := by decide +kernel
  have hmeaning : s.StandardClassForms 0 := standardClassForms_start
  have hform : ClassForm form := .plain _
  obtain ⟨r, t, hout, hiff⟩ :=
    Reachable.classForm_atomic_iff fresh_standard hs hframe hmeaning hform 0
  refine ⟨fresh_standard, hframe, hmeaning, hform, r, t, hout, hiff.2 fun d hd => ?_⟩
  clear_value s
  obtain rfl := Except.ok.inj (State.drafts_plain_iff.1 hd)
  intro slot hslot
  obtain rfl := List.mem_singleton.1 hslot
  exact ⟨_, rfl⟩

/-- A class whose reader is to be bound to a string: the definition ends in an error and leaves the
class bound. -/
theorem not_atomic_string_accessor :
    let s := (full (State.start Settings.standard) none).1
    let form : Value := .list [.symbol Symbol.defclass, .symbol ⟨"p"⟩, .list [],
      .list [.list [.symbol ⟨"x"⟩, .int 0, .symbol ⟨":accessor"⟩, .str (.ofString "s")]]]
    Reachable Settings.standard none s ∧ 0 < s.frames.size ∧ s.StandardClassForms 0 ∧
    ClassForm form ∧
      ∃ e t, (evaluate 2 form 0 0).outcome s = some (.error e, t) ∧ t.frames ≠ s.frames ∧
        ¬ s.Atomic 0 0 (s.Drafts 0 form) (.error e) t := by
  intro s form
  have hs : Reachable Settings.standard none s := .start
  have hframe : 0 < s.frames.size := by decide +kernel
  have hmeaning : s.StandardClassForms 0 := standardClassForms_start
  refine ⟨hs, hframe, hmeaning, .plain _, ?_⟩
  have hsound := hs.sound fresh_standard
  clear_value s
  obtain ⟨d, hd, hname⟩ : ∃ d, s.Drafts 0 form d ∧ ¬ d.Nameable := by
    refine ⟨_, .plain rfl, fun h => ?_⟩
    obtain ⟨n, hn⟩ := h _ List.mem_cons_self
    have hstring : Value.str (.ofString "s") = .symbol n := hn
    exact absurd hstring (by simp)
  obtain ⟨e, t, hout, hframes⟩ :=
    Eval.defineClass_breaks hsound hframe (State.drafts_plain_iff.1 hd) hname 0
  refine ⟨e, t, ?_, hframes, ?_⟩
  · exact (Eval.outcome_evaluate_plain hmeaning.plain 1).trans hout
  · rintro (⟨_, -, hok, -⟩ | ⟨_, -, huntouched⟩)
    · exact absurd hok (by simp)
    · exact hframes huntouched.frames

end Session
end SlotLisp
