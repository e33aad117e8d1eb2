import SlotLisp.Proofs.Classes.Slot
import SlotLisp.Proofs.Inference.Expansion

/-!
Tables of macros in a state. A function that calls its first argument expands with a table of its
own, and so does a class that evaluates its defaults. A state in which all of these are tables of
one kind stays so under every change that puts in nothing else.
-/

namespace SlotLisp

/-- A function that calls its first argument does so with a table in `T`. -/
def Leaf.Within (T : MacroTableId → Prop) : Leaf → Prop
  | .function (.funcall m) => T m
  | _ => True

abbrev Value.Within (T : MacroTableId → Prop) (v : Value) : Prop := v.All (Leaf.Within T)

structure Class.Within (T : MacroTableId → Prop) (k : Class) : Prop where
  macros : T k.macros
  defaults : ∀ slot ∈ k.slots, ∀ v ∈ slot.default, v.Within T

def Transformer.Within (T : MacroTableId → Prop) : Transformer → Prop
  | .closure formals body _ => (∀ x ∈ formals, x.Within T) ∧ body.Within T
  | _ => True

structure State.Within (T : MacroTableId → Prop) (s : State) : Prop where
  settings : s.settings.All (Leaf.Within T)
  vars : ∀ f, ∀ e ∈ (s.frame f).vars.entries, e.2.Within T
  classes : ∀ (c : ClassId) (k : Class), s.classes[c]? = some k → k.Within T
  instances : ∀ (i : InstanceId) (x : Instance), s.instances[i]? = some x →
    ∀ e ∈ x.values.entries, e.2.Within T
  transformers : ∀ m, ∀ e ∈ (s.macroTable m).transformers.entries, e.2.Within T

variable {T : MacroTableId → Prop}

theorem Leaf.within_of_forall (h : ∀ m, T m) (l : Leaf) : l.Within T := by
  unfold Leaf.Within
  split
  · exact h _
  · trivial

theorem Value.within_of_forall (h : ∀ m, T m) (v : Value) : v.Within T :=
  all_of_forall (Leaf.within_of_forall h) v

theorem Transformer.within_of_forall (h : ∀ m, T m) (x : Transformer) : x.Within T := by
  cases x with
  | closure formals body f => exact ⟨fun x _ => x.within_of_forall h, body.within_of_forall h⟩
  | _ => trivial

namespace State

variable {s t : State}

theorem within_of_forall (h : ∀ m, T m) (s : State) : s.Within T where
  settings v _ := v.within_of_forall h
  vars _ e _ := e.2.within_of_forall h
  classes _ k _ := ⟨h k.macros, fun _ _ v _ => v.within_of_forall h⟩
  instances _ _ _ e _ := e.2.within_of_forall h
  transformers _ e _ := e.2.within_of_forall h

namespace Within

variable (h : s.Within T)

include h

/-! ## What is read from a state -/

theorem lookup? {f : FrameId} {n : Symbol} {v : Value} (hv : s.lookup? f n = some v) :
    v.Within T := by
  obtain ⟨g, hg⟩ := mem_of_lookup? hv
  exact h.vars g _ hg

theorem lookup {f : FrameId} {name v : Value} (hv : s.lookup f name = .ok v) : v.Within T := by
  obtain ⟨g, n, hg⟩ := mem_of_lookup hv
  exact h.vars g _ hg

theorem readSlot {i : InstanceId} {name v : Value} (hv : s.readSlot i name = .ok v) :
    v.Within T := by
  obtain ⟨x, n, hx, hmem⟩ := mem_of_readSlot hv
  exact h.instances i x hx _ hmem

theorem transformer? {m : MacroTableId} {n : Symbol} {x : Transformer}
    (hx : s.transformer? m n = some x) :
    x.Within T :=
  h.transformers m _ (Table.mem_of_get? hx)

/-- What a class says of a default is said of a class of the state. -/
theorem getClass {c : ClassId} {slot : Slot} (hslot : slot ∈ (s.getClass c).slots) :
    (s.getClass c).Within T := by
  rw [State.getClass] at hslot ⊢
  cases hc : s.classes[c]? with
  | none =>
      rw [hc] at hslot
      exact absurd hslot List.not_mem_nil
  | some k => exact h.classes c k hc

/-! ## Changes -/

/-- What is kept in the later state was kept before, or is of the kind itself. -/
theorem of_new (hset : t.settings = s.settings)
    (hvars : ∀ f, ∀ e ∈ (t.frame f).vars.entries, (∃ g, e ∈ (s.frame g).vars.entries) ∨
      e.2.Within T)
    (hclasses : ∀ (c : ClassId) (k : Class), t.classes[c]? = some k →
      s.classes[c]? = some k ∨ k.Within T)
    (hinstances : ∀ (i : InstanceId) (x : Instance), t.instances[i]? = some x →
      s.instances[i]? = some x ∨ ∀ e ∈ x.values.entries, e.2.Within T)
    (htransformers : ∀ m, ∀ e ∈ (t.macroTable m).transformers.entries,
      (∃ n, e ∈ (s.macroTable n).transformers.entries) ∨ e.2.Within T) : t.Within T where
  settings := hset ▸ h.settings
  vars f e he := (hvars f e he).elim (fun ⟨g, hg⟩ => h.vars g e hg) id
  classes c k hk := (hclasses c k hk).elim (h.classes c k) id
  instances i x hx := (hinstances i x hx).elim (h.instances i x) id
  transformers m e he := (htransformers m e he).elim (fun ⟨n, hn⟩ => h.transformers n e hn) id

theorem define (f : FrameId) (n : Symbol) {v : Value} (hv : v.Within T) :
    (s.define f n v).Within T := by
  refine h.of_new rfl (fun g e he => ?_) (fun _ _ => .inl) (fun _ _ => .inl) fun m _ he =>
    .inl ⟨m, he⟩
  rcases mem_define he with rfl | he
  · exact .inr hv
  · exact .inl ⟨g, he⟩

theorem childFrame (f : FrameId) : (s.childFrame f).1.Within T :=
  h.of_new rfl (fun g _ he => .inl ⟨g, frame_push rfl he⟩) (fun _ _ => .inl) (fun _ _ => .inl)
    fun m _ he => .inl ⟨m, he⟩

theorem rootFrame : s.rootFrame.1.Within T :=
  h.of_new rfl (fun g _ he => .inl ⟨g, frame_push rfl he⟩) (fun _ _ => .inl) (fun _ _ => .inl)
    fun m _ he => .inl ⟨m, he⟩

theorem addMacroTable : s.addMacroTable.1.Within T :=
  h.of_new rfl (fun f _ he => .inl ⟨f, he⟩) (fun _ _ => .inl) (fun _ _ => .inl)
    fun m _ he => .inl ⟨m, mem_addMacroTable he⟩

theorem defineTransformer (m : MacroTableId) (n : Symbol) {x : Transformer} (hx : x.Within T) :
    (s.defineTransformer m n x).Within T := by
  refine h.of_new rfl (fun f _ he => .inl ⟨f, he⟩)
    (fun _ _ => .inl) (fun _ _ => .inl) fun k e he => ?_
  rcases mem_defineTransformer he with rfl | he
  · exact .inr hx
  · exact .inl ⟨k, he⟩

theorem addClass {k : Class} (hk : k.Within T) : (s.addClass k).1.Within T := by
  refine h.of_new rfl (fun f _ he => .inl ⟨f, he⟩) (fun c j hj => ?_) (fun _ _ => .inl)
    fun m _ he => .inl ⟨m, he⟩
  rcases class_addClass hj with ⟨-, rfl⟩ | hj
  · exact .inr hk
  · exact .inl hj

theorem addInstance {x : Instance} (hx : ∀ e ∈ x.values.entries, e.2.Within T) :
    (s.addInstance x).1.Within T := by
  refine h.of_new rfl (fun f _ he => .inl ⟨f, he⟩) (fun _ _ => .inl) (fun i y hy => ?_)
    fun m _ he => .inl ⟨m, he⟩
  rcases instance_addInstance hy with rfl | hy
  · exact .inr hx
  · exact .inl hy

theorem setSlot (i : InstanceId) (n : Symbol) {v : Value} (hv : v.Within T) :
    (s.setSlot i n v).Within T := by
  refine h.of_new rfl (fun f _ he => .inl ⟨f, he⟩) (fun _ _ => .inl) (fun j y hy => ?_)
    fun m _ he => .inl ⟨m, he⟩
  rcases instance_setSlot hy with ⟨x, hx, rfl⟩ | hy
  · refine .inr fun e he => ?_
    rcases Table.mem_insert he with rfl | he
    · exact hv
    · exact h.instances i x hx e he
  · exact .inl hy

theorem counters (closures marks : Nat) :
    ({ s with closures := closures, marks := marks } : State).Within T :=
  h.of_new rfl (fun f _ he => .inl ⟨f, he⟩) (fun _ _ => .inl) (fun _ _ => .inl) fun m _ he =>
    .inl ⟨m, he⟩

/-- The class of a definition evaluates its defaults with the table of the definition, and the
defaults that it inherits are those of its bases. -/
theorem classOfDraft {d : ClassDraft} (hd : ∀ slot ∈ d.own, ∀ v ∈ slot.default, v.Within T)
    (env : FrameId) {macros : MacroTableId} (hm : T macros) :
    (s.classOfDraft d env macros).Within T := by
  refine ⟨hm, fun slot hslot v hv => ?_⟩
  rcases List.mem_append.1 hslot with hslot | hslot
  · obtain ⟨b, -, hslot⟩ := List.mem_flatMap.1 (firstByName_subset _ _ slot hslot)
    exact (h.getClass hslot).defaults slot hslot v hv
  · exact hd slot hslot v hv

end Within
end State

/-- What a class definition binds are functions that have no table. -/
theorem ClassDraft.within_bindings (d : ClassDraft) (c : ClassId) :
    ∀ b ∈ d.bindings c, b.2.Within T := by
  intro b hb
  simp only [ClassDraft.bindings, List.mem_cons, List.mem_map] at hb
  rcases hb with rfl | rfl | rfl | ⟨slot, -, rfl⟩ <;> exact trivial

end SlotLisp
