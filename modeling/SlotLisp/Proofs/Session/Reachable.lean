import SlotLisp.Proofs.Evaluation.Preservation
import SlotLisp.Proofs.Reading.Plain
import SlotLisp.Session

/-!
The states that a session comes to, from its start on and by any uses of it. Uses that end in an
error are among them, and a state is sound after each.
-/

namespace SlotLisp
namespace Session

open Eval

/-! ## Uses of a session -/

/-- One use of a session from outside, or of the evaluator in any of its frames, whether it ends in
an answer or in an error. Values that come from outside refer only to what the session has. -/
inductive Step (x : Session) (s : State) : State → Prop
  | text {fuel : Nat} {text : String} {r : Except Error Value} {t : State}
      (h : (x.evalText fuel text).outcome s = some (r, t)) : Step x s t
  | form {fuel : Nat} {form : Value} {r : Except Error Value} {t : State} (hform : s.Knows form)
      (h : (x.evalForm fuel form).outcome s = some (r, t)) : Step x s t
  | evaluation {fuel : Nat} {form : Value} {env : FrameId} {macros : MacroTableId}
      {r : Except Error Value} {t : State} (hform : s.Knows form)
      (h : (evaluate fuel form env macros).outcome s = some (r, t)) : Step x s t
  | defineClass {fuel : Nat} {name bases slots options : Value} {selection : Option Selection}
      {r : Except Error Value} {t : State} (hname : s.Knows name) (hbases : s.Knows bases)
      (hslots : s.Knows slots) (hoptions : s.Knows options)
      (h : (x.defineClass fuel name bases slots options selection).outcome s = some (r, t)) :
      Step x s t

/-- A process whose policies, and a selection whose selectors, refer to no classes and no
instances. -/
structure Fresh (settings : Settings) (selection : Option Selection) : Prop where
  policies : settings.All (State.start settings).Has
  selectors : ∀ c ∈ selection,
    (State.start settings).Knows c.initform ∧ (State.start settings).Knows c.type

inductive Reachable (settings : Settings) (selection : Option Selection) : State → Prop
  | start : Reachable settings selection (full (State.start settings) selection).1
  | step {s t : State} (hs : Reachable settings selection s)
      (h : Step (full (State.start settings) selection).2 s t) : Reachable settings selection t

/-- The state after a text. One whose evaluation does not end within its fuel leaves the state as it
is. -/
def afterText (x : Session) (fuel : Nat) (s : State) (text : String) : State :=
  ((x.evalText fuel text).outcome s).elim s Prod.snd

theorem Reachable.afterText {settings : Settings} {selection : Option Selection} {s : State}
    (hs : Reachable settings selection s) (fuel : Nat) (text : String) :
    Reachable settings selection
      ((full (State.start settings) selection).2.afterText fuel s text) := by
  unfold Session.afterText
  cases h : ((full (State.start settings) selection).2.evalText fuel text).outcome s with
  | none => exact hs
  | some r => exact hs.step (.text h)

theorem fresh_standard : Fresh Settings.standard none :=
  ⟨fun v hv => absurd hv (by simp [Settings.standard]), by simp⟩

/-! ## Soundness -/

variable {s : State}

theorem keeps_evalForm (x : Session) (fuel : Nat) {form : Value} (hform : s.Knows form) :
    KeepsValue s (x.evalForm fuel form) := by
  have htable : Keeps s x.tableForForm fun _ _ => True := by
    unfold tableForForm
    split
    · exact keeps_pure trivial
    · exact keeps_create fun hs => ⟨State.leads_addMacroTable hs, trivial⟩
  refine keeps_bind htable fun t m ht _ => ?_
  refine keeps_bind (keeps_mark (ht.grows.knows hform)) fun u v _ hv => ?_
  exact keeps_evaluate fuel u v x.env m hv

theorem keeps_evalText (x : Session) (fuel : Nat) (text : String) :
    KeepsValue s (x.evalText fuel text) := by
  have hnil : s.Knows .nil := trivial
  have hforms := keeps_sequence (s := s) (fun _ _ hv => keeps_evalForm x fuel hv) hnil
    (Form.all_ofText text)
  refine keeps_bind hforms fun t v _ hv => ?_
  split
  · exact keeps_pure hv
  · exact keeps_throw _

theorem keeps_defineClass (x : Session) (fuel : Nat) {name bases slots options : Value}
    (selection : Option Selection) (hname : s.Knows name) (hbases : s.Knows bases)
    (hslots : s.Knows slots) (hoptions : s.Knows options) :
    KeepsValue s (x.defineClass fuel name bases slots options selection) := by
  have helements : ∀ (t : State) (v : Value), t.Knows v →
      Keeps t (ofFault v.elements) fun u xs => ∀ x ∈ xs, u.Knows x := fun t v hv =>
    keeps_ofFault fun _ h => Value.all_elements h hv
  refine keeps_bind (helements s bases hbases) fun t bs ht hbs => ?_
  refine keeps_bind (helements t slots (ht.grows.knows hslots)) fun u ss hu hss => ?_
  refine keeps_bind (helements u options ((ht.trans hu).grows.knows hoptions)) fun v os hv hos => ?_
  have hbs' : ∀ b ∈ bs, v.Knows b := fun b hb => (hu.trans hv).grows.knows (hbs b hb)
  have hss' : ∀ d ∈ ss, v.Knows d := fun d hd => hv.grows.knows (hss d hd)
  have hname' := (ht.trans (hu.trans hv)).grows.knows hname
  refine keeps_bind (keeps_ask fun hs _ h => State.all_expandClass h hs.settings ?_)
    fun _ _ _ hform => keeps_evalForm x fuel hform
  simp only [List.mem_cons, forall_eq_or_imp, Value.all_list]
  exact ⟨hname', hbs', hss', hos⟩

theorem Step.leads {x : Session} {t : State} (h : Step x s t) (hs : s.Sound) : s.Leads t := by
  cases h with
  | text h => exact (keeps_evalText x _ _ hs _ _ h).1
  | form hform h => exact (keeps_evalForm x _ hform hs _ _ h).1
  | evaluation hform h => exact (keeps_evaluate _ _ _ _ _ hform hs _ _ h).1
  | defineClass hname hbases hslots hoptions h =>
      exact (keeps_defineClass x _ _ hname hbases hslots hoptions hs _ _ h).1

/-! ## The start -/

theorem sound_start {settings : Settings} (h : settings.All (State.start settings).Has) :
    (State.start settings).Sound where
  settings := h
  vars f e he := absurd he List.not_mem_nil
  classes c k hk := absurd hk (by simp [State.start])
  instances i x hx := absurd hx (by simp [State.start])
  transformers m e he := absurd he List.not_mem_nil

/-- Changes one after the other, each of which leads to a sound state. -/
theorem leads_foldl {α : Type} {f : State → α → State} {as : List α}
    (hf : ∀ (t : State) (a : α), a ∈ as → t.Sound → t.Leads (f t a)) (hs : s.Sound) :
    s.Leads (as.foldl f s) := by
  induction as generalizing s with
  | nil => exact .refl hs
  | cons a as ih =>
      have ha := hf s a (by simp) hs
      exact ha.trans (ih (fun t b hb => hf t b (by simp [hb])) ha.sound)

/-- The macros of a full session have no bodies. -/
theorem forall_standardMacros {P : Transformer → Prop} (letForm : P .letForm)
    (functionForm : P .functionForm) (inferredClassForm : P .inferredClassForm) :
    ∀ e ∈ standardMacros.entries, P e.2 := by
  intro e he
  have hmem := Table.mem_ofList he
  simp only [List.mem_cons, List.not_mem_nil, or_false] at hmem
  rcases hmem with rfl | rfl | rfl
  · exact functionForm
  · exact letForm
  · exact inferredClassForm

theorem all_builtinBindings {p : Leaf → Prop} {macros : MacroTableId}
    (builtin : ∀ b, p (.function (.builtin b))) (funcall : p (.function (.funcall macros))) :
    ∀ b ∈ builtinBindings macros, (Value.function b.2).All p := by
  unfold builtinBindings
  repeat refine List.forall_mem_cons.2 ⟨by first | exact builtin _ | exact funcall, ?_⟩
  exact fun _ h => absurd h List.not_mem_nil

theorem leads_addBuiltins (hs : s.Sound) (f : FrameId) (macros : MacroTableId) :
    s.Leads (s.addBuiltins f macros) := by
  have hknown : ∀ t : State, ∀ b ∈ builtinBindings macros, t.Knows (.function b.2) := fun t =>
    all_builtinBindings (fun _ => trivial) trivial
  unfold State.addBuiltins
  generalize builtinBindings macros = bindings at hknown ⊢
  exact leads_foldl (fun t b hb ht => State.leads_define ht f b.1 (hknown t b hb)) hs

/-- What the process says selects by keywords and `nil` alone. -/
theorem all_ofSettings {p : Leaf → Prop} (settings : Settings) :
    (Selection.ofSettings settings).initform.All p ∧
    (Selection.ofSettings settings).type.All p := by
  unfold Selection.ofSettings selectorOfSetting
  generalize settingName (settings.initformVariable.getD _) = initform
  generalize settingName (settings.typeVariable.getD _) = type
  dsimp only
  constructor
  · split <;> exact trivial
  · split <;> exact trivial

theorem leads_install (hs : s.Sound) (f : FrameId) {c : Selection} (hinit : s.Knows c.initform)
    (htype : s.Knows c.type) : s.Leads (s.install f c) := by
  have hfirst := State.leads_define hs f Facet.initform.variable hinit
  exact hfirst.trans (State.leads_define hfirst.sound f _ (hfirst.grows.knows htype))

/-- A full session has a frame of its own with the builtin functions and the selection in it. -/
theorem full_eq (s : State) (selection : Option Selection) :
    full s selection =
      let macros := s.macroTables.size
      let t := (standardMacros.entries.foldl (fun u e => u.defineTransformer macros e.1 e.2)
        s.addMacroTable.1)
      let u := t.rootFrame.1.addBuiltins t.frames.size macros
      (u.install t.frames.size (selection.getD (Selection.ofSettings u.settings)),
        ⟨t.frames.size, some macros⟩) := by
  unfold full State.addMacroTable State.rootFrame
  rfl

theorem leads_standardMacros (hs : s.Sound) :
    s.Leads (standardMacros.entries.foldl
      (fun u e => u.defineTransformer s.macroTables.size e.1 e.2) s.addMacroTable.1) := by
  have htable := State.leads_addMacroTable hs
  have hknown : ∀ u : State, ∀ e ∈ standardMacros.entries, e.2.Known u := fun u =>
    forall_standardMacros trivial trivial trivial
  generalize standardMacros.entries = entries at hknown ⊢
  have hmacros := leads_foldl (f := fun u e => u.defineTransformer s.macroTables.size e.1 e.2)
    (fun u e he hu => State.leads_defineTransformer hu _ _ (hknown u e he)) htable.sound
  exact htable.trans hmacros

theorem knows_chosen {t : State} (h : s.Grows t) {selection : Option Selection}
    (hsel : ∀ c ∈ selection, s.Knows c.initform ∧ s.Knows c.type) (settings : Settings) :
    t.Knows (selection.getD (Selection.ofSettings settings)).initform ∧
      t.Knows (selection.getD (Selection.ofSettings settings)).type := by
  cases selection with
  | none => exact all_ofSettings settings
  | some c => exact ⟨h.knows (hsel c rfl).1, h.knows (hsel c rfl).2⟩

/-- A new frame in which the builtin functions and a selection are bound. -/
theorem leads_rootWith {t : State} (ht : s.Leads t) (macros : MacroTableId)
    {selection : Option Selection}
    (hsel : ∀ c ∈ selection, s.Knows c.initform ∧ s.Knows c.type) :
    let u := t.rootFrame.1.addBuiltins t.frames.size macros
    s.Leads (u.install t.frames.size (selection.getD (Selection.ofSettings u.settings))) := by
  intro u
  have hroot := State.leads_rootFrame ht.sound
  have hu : s.Leads u := (ht.trans hroot).trans (leads_addBuiltins hroot.sound _ _)
  clear_value u
  obtain ⟨hinit, htype⟩ := knows_chosen hu.grows hsel u.settings
  exact hu.trans (leads_install hu.sound _ hinit htype)

theorem leads_full (hs : s.Sound) {selection : Option Selection}
    (hsel : ∀ c ∈ selection, s.Knows c.initform ∧ s.Knows c.type) :
    s.Leads (full s selection).1 := by
  rw [full_eq]
  exact leads_rootWith (leads_standardMacros hs) _ hsel

/-- Every state that a session comes to is sound. -/
theorem Reachable.sound {settings : Settings} {selection : Option Selection}
    (hfresh : Fresh settings selection) (h : Reachable settings selection s) : s.Sound := by
  induction h with
  | start => exact (leads_full (sound_start hfresh.policies) hfresh.selectors).sound
  | step _ hstep ih => exact (hstep.leads ih).sound

end Session
end SlotLisp
