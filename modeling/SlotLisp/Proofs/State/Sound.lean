import SlotLisp.Eval.ClassForm
import SlotLisp.Proofs.Inference.Expansion
import SlotLisp.Proofs.State.Table

/-!
What every state of a session keeps to. All that a state refers to is there; a class comes after its
bases and has their slots; an instance has values for slots of its class only. A state only ever
grows: classes stay as they are and instances stay of their class.
-/

namespace SlotLisp

/-! ## Growth -/

/-- What never changes from a state to a later one. -/
structure State.Grows (s t : State) : Prop where
  settings : t.settings = s.settings
  frames : s.frames.size ≤ t.frames.size
  classes : s.classes.size ≤ t.classes.size
  same_class : ∀ c, c < s.classes.size → t.classes[c]? = s.classes[c]?
  instances : s.instances.size ≤ t.instances.size
  same_classOf : ∀ i, i < s.instances.size → t.classOf i = s.classOf i

namespace State.Grows

variable {s t u : State}

theorem refl (s : State) : s.Grows s :=
  ⟨rfl, Nat.le_refl _, Nat.le_refl _, fun _ _ => rfl, Nat.le_refl _, fun _ _ => rfl⟩

theorem trans (h : s.Grows t) (k : t.Grows u) : s.Grows u where
  settings := k.settings.trans h.settings
  frames := Nat.le_trans h.frames k.frames
  classes := Nat.le_trans h.classes k.classes
  same_class c hc := (k.same_class c (Nat.lt_of_lt_of_le hc h.classes)).trans (h.same_class c hc)
  instances := Nat.le_trans h.instances k.instances
  same_classOf i hi :=
    (k.same_classOf i (Nat.lt_of_lt_of_le hi h.instances)).trans (h.same_classOf i hi)

theorem getClass (h : s.Grows t) {c : ClassId} (hc : c < s.classes.size) :
    t.getClass c = s.getClass c := by
  rw [State.getClass, State.getClass, h.same_class c hc]

end State.Grows

/-! ## What a state refers to -/

namespace State

def Has (s : State) : Leaf → Prop
  | .ref (.cls c) => c < s.classes.size
  | .ref (.inst i) => i < s.instances.size
  | .ref (.policy _) => True
  | .function (.builtin _) => True
  | .function (.funcall _) => True
  | .function (.constructor c) => c < s.classes.size
  | .function (.predicate c) => c < s.classes.size
  | .function (.reader c _ slot) => c < s.classes.size ∧ slot ∈ (s.getClass c).slots.map Slot.name

/-- Whether everything that a value refers to is there. -/
abbrev Knows (s : State) (v : Value) : Prop := v.All s.Has

theorem Knows.isClass? {s : State} {v : Value} (hv : s.Knows v) {c : ClassId}
    (h : v.isClass? = some c) : c < s.classes.size := by
  unfold Value.isClass? at h
  split at h
  next => obtain rfl := Option.some.inj h; exact hv
  next => exact absurd h (by simp)

theorem Knows.isInstance? {s : State} {v : Value} (hv : s.Knows v) {i : InstanceId}
    (h : v.isInstance? = some i) : i < s.instances.size := by
  unfold Value.isInstance? at h
  split at h
  next => obtain rfl := Option.some.inj h; exact hv
  next => exact absurd h (by simp)

theorem Grows.has {s t : State} (h : s.Grows t) : ∀ l, s.Has l → t.Has l := by
  intro l hl
  cases l with
  | ref r =>
      cases r with
      | cls c => exact Nat.lt_of_lt_of_le hl h.classes
      | inst i => exact Nat.lt_of_lt_of_le hl h.instances
      | policy p => exact trivial
  | function f =>
      cases f with
      | builtin b => exact trivial
      | funcall m => exact trivial
      | constructor c => exact Nat.lt_of_lt_of_le hl h.classes
      | predicate c => exact Nat.lt_of_lt_of_le hl h.classes
      | reader c n slot =>
          refine ⟨Nat.lt_of_lt_of_le hl.1 h.classes, ?_⟩
          rw [h.getClass hl.1]
          exact hl.2

theorem Grows.knows {s t : State} (h : s.Grows t) {v : Value} (hv : s.Knows v) : t.Knows v :=
  hv.mono h.has

end State

/-- A class as the one with the number `c`: it comes after its bases, has each slot once and the
slots of its bases among them, and its lineage is itself and the lineages of its bases. -/
structure Class.Sound (s : State) (c : ClassId) (k : Class) : Prop where
  bases : ∀ b ∈ k.bases, b < c
  slots_nodup : (k.slots.map Slot.name).Nodup
  inherits : ∀ b ∈ k.bases, ∀ n ∈ (s.getClass b).slots.map Slot.name, n ∈ k.slots.map Slot.name
  lineage : ∀ d, d ∈ k.lineage ↔ d = c ∨ ∃ b ∈ k.bases, d ∈ (s.getClass b).lineage
  defaults : ∀ slot ∈ k.slots, ∀ v ∈ slot.default, s.Knows v

structure Instance.Sound (s : State) (x : Instance) : Prop where
  cls : x.cls < s.classes.size
  values : ∀ e ∈ x.values.entries, e.1 ∈ (s.getClass x.cls).slots.map Slot.name ∧ s.Knows e.2

def Transformer.Known (s : State) : Transformer → Prop
  | .closure formals body _ => (∀ x ∈ formals, s.Knows x) ∧ s.Knows body
  | _ => True

structure State.Sound (s : State) : Prop where
  settings : s.settings.All s.Has
  vars : ∀ f, ∀ e ∈ (s.frame f).vars.entries, s.Knows e.2
  classes : ∀ (c : ClassId) (k : Class), s.classes[c]? = some k → k.Sound s c
  instances : ∀ (i : InstanceId) (x : Instance), s.instances[i]? = some x → x.Sound s
  transformers : ∀ m, ∀ e ∈ (s.macroTable m).transformers.entries, e.2.Known s

/-! ## Soundness in a later state -/

namespace State.Grows

variable {s t : State}

theorem class_sound (h : s.Grows t) {c : ClassId} (hc : c ≤ s.classes.size) {k : Class}
    (hk : k.Sound s c) : k.Sound t c := by
  have hbase : ∀ b ∈ k.bases, t.getClass b = s.getClass b := fun b hb =>
    h.getClass (Nat.lt_of_lt_of_le (hk.bases b hb) hc)
  refine ⟨hk.bases, hk.slots_nodup, fun b hb => ?_, fun d => ?_,
    fun slot hslot v hv => h.knows (hk.defaults slot hslot v hv)⟩
  · rw [hbase b hb]
    exact hk.inherits b hb
  · rw [hk.lineage d]
    refine or_congr_right (exists_congr fun b => and_congr_right fun hb => ?_)
    rw [hbase b hb]

theorem instance_sound (h : s.Grows t) {x : Instance} (hx : x.Sound s) : x.Sound t := by
  refine ⟨Nat.lt_of_lt_of_le hx.cls h.classes, fun e he => ?_⟩
  rw [h.getClass hx.cls]
  exact ⟨(hx.values e he).1, h.knows (hx.values e he).2⟩

theorem transformer_known (h : s.Grows t) {x : Transformer} (hx : x.Known s) : x.Known t := by
  cases x with
  | closure formals body f => exact ⟨fun y hy => h.knows (hx.1 y hy), h.knows hx.2⟩
  | _ => exact trivial

/-- A later state is sound if what is new in it is. -/
theorem sound (h : s.Grows t) (hs : s.Sound)
    (hvars : ∀ f, ∀ e ∈ (t.frame f).vars.entries,
      (∃ g, e ∈ (s.frame g).vars.entries) ∨ t.Knows e.2)
    (hclasses : ∀ (c : ClassId) (k : Class), t.classes[c]? = some k →
      s.classes[c]? = some k ∨ k.Sound t c)
    (hinstances : ∀ (i : InstanceId) (x : Instance), t.instances[i]? = some x →
      s.instances[i]? = some x ∨ x.Sound t)
    (htransformers : ∀ m, ∀ e ∈ (t.macroTable m).transformers.entries,
      (∃ n, e ∈ (s.macroTable n).transformers.entries) ∨ e.2.Known t) : t.Sound where
  settings v hv := by
    rw [h.settings] at hv
    exact h.knows (hs.settings v hv)
  vars f e he := by
    rcases hvars f e he with ⟨g, hg⟩ | hnew
    · exact h.knows (hs.vars g e hg)
    · exact hnew
  classes c k hk := by
    rcases hclasses c k hk with hold | hnew
    · obtain ⟨hc, -⟩ := Array.getElem?_eq_some_iff.1 hold
      exact h.class_sound (Nat.le_of_lt hc) (hs.classes c k hold)
    · exact hnew
  instances i x hx := by
    rcases hinstances i x hx with hold | hnew
    · exact h.instance_sound (hs.instances i x hold)
    · exact hnew
  transformers m e he := by
    rcases htransformers m e he with ⟨n, hn⟩ | hnew
    · exact h.transformer_known (hs.transformers n e hn)
    · exact hnew

end State.Grows

end SlotLisp
