import SlotLisp.Proofs.State.Sound

/-!
The changes that computations make to a state. Each lets the state grow, and keeps it sound if what
it puts in refers to nothing that is not there.
-/

namespace SlotLisp
namespace State

variable {s t : State}

/-- A change for which the state only grows and stays sound. -/
structure Leads (s t : State) : Prop where
  grows : s.Grows t
  sound : t.Sound

theorem Leads.refl (h : s.Sound) : s.Leads s := ⟨.refl s, h⟩

theorem Leads.trans {u : State} (h : s.Leads t) (k : t.Leads u) : s.Leads u :=
  ⟨h.grows.trans k.grows, k.sound⟩

/-- A change of frames and macros alone. -/
theorem leads_of_same (h : s.Sound) (hset : t.settings = s.settings)
    (hframes : s.frames.size ≤ t.frames.size) (hclasses : t.classes = s.classes)
    (hinstances : t.instances = s.instances)
    (hvars : ∀ f, ∀ e ∈ (t.frame f).vars.entries, (∃ g, e ∈ (s.frame g).vars.entries) ∨ s.Knows e.2)
    (htransformers : ∀ m, ∀ e ∈ (t.macroTable m).transformers.entries,
      (∃ n, e ∈ (s.macroTable n).transformers.entries) ∨ e.2.Known s) : s.Leads t := by
  have hg : s.Grows t := by
    refine ⟨hset, hframes, Nat.le_of_eq (by rw [hclasses]), fun c _ => by rw [hclasses],
      Nat.le_of_eq (by rw [hinstances]), fun i _ => ?_⟩
    rw [classOf, classOf, getInstance, getInstance, hinstances]
  refine ⟨hg, hg.sound h (fun f e he => (hvars f e he).imp_right hg.knows)
    (fun c k hk => .inl (by rw [← hclasses]; exact hk))
    (fun i x hx => .inl (by rw [← hinstances]; exact hx))
    (fun m e he => (htransformers m e he).imp_right hg.transformer_known)⟩

/-- A change of counters alone. -/
theorem leads_of_counters (h : s.Sound) (closures marks : Nat) :
    s.Leads { s with closures := closures, marks := marks } :=
  leads_of_same h rfl (Nat.le_refl _) rfl rfl (fun f _ he => .inl ⟨f, he⟩)
    (fun m _ he => .inl ⟨m, he⟩)

/-! ## Frames -/

theorem mem_define {f g : FrameId} {n : Symbol} {v : Value} {e : Symbol × Value}
    (he : e ∈ ((s.define f n v).frame g).vars.entries) :
    e = (n, v) ∨ e ∈ (s.frame g).vars.entries := by
  rw [frame, define, Array.getElem?_modify] at he
  split at he
  next hfg =>
    rw [frame]
    cases hg : s.frames[g]? with
    | none => rw [hg] at he; exact .inr he
    | some fr => rw [hg] at he; exact Table.mem_insert he
  next => exact .inr he

theorem leads_define (h : s.Sound) (f : FrameId) (n : Symbol) {v : Value} (hv : s.Knows v) :
    s.Leads (s.define f n v) := by
  refine leads_of_same h rfl (by simp [define]) rfl rfl (fun g e he => ?_)
    (fun m _ he => .inl ⟨m, he⟩)
  rcases mem_define he with rfl | he
  · exact .inr hv
  · exact .inl ⟨g, he⟩

theorem frame_push {fr : Frame} {g : FrameId} {e : Symbol × Value} (hfr : fr.vars.entries = [])
    (he : e ∈ (({ s with frames := s.frames.push fr } : State).frame g).vars.entries) :
    e ∈ (s.frame g).vars.entries := by
  rw [frame, Array.getElem?_push] at he
  split at he
  next => exact absurd he (by simp [hfr])
  next => exact he

theorem leads_childFrame (h : s.Sound) (f : FrameId) : s.Leads (s.childFrame f).1 :=
  leads_of_same h rfl (by simp [childFrame]) rfl rfl (fun g _ he => .inl ⟨g, frame_push rfl he⟩)
    (fun m _ he => .inl ⟨m, he⟩)

theorem leads_rootFrame (h : s.Sound) : s.Leads s.rootFrame.1 :=
  leads_of_same h rfl (by simp [rootFrame]) rfl rfl (fun g _ he => .inl ⟨g, frame_push rfl he⟩)
    (fun m _ he => .inl ⟨m, he⟩)

/-! ## Macros -/

theorem mem_addMacroTable {m : MacroTableId} {e : Symbol × Transformer}
    (he : e ∈ (s.addMacroTable.1.macroTable m).transformers.entries) :
    e ∈ (s.macroTable m).transformers.entries := by
  rw [macroTable, addMacroTable, Array.getElem?_push] at he
  split at he
  next => exact absurd he List.not_mem_nil
  next => exact he

theorem mem_defineTransformer {m k : MacroTableId} {n : Symbol} {x : Transformer}
    {e : Symbol × Transformer}
    (he : e ∈ ((s.defineTransformer m n x).macroTable k).transformers.entries) :
    e = (n, x) ∨ e ∈ (s.macroTable k).transformers.entries := by
  rw [macroTable, defineTransformer, Array.getElem?_modify] at he
  split at he
  next =>
    rw [macroTable]
    cases hk : s.macroTables[k]? with
    | none => rw [hk] at he; exact .inr he
    | some mt => rw [hk] at he; exact Table.mem_insert he
  next => exact .inr he

theorem leads_addMacroTable (h : s.Sound) : s.Leads s.addMacroTable.1 :=
  leads_of_same h rfl (Nat.le_refl _) rfl rfl (fun f _ he => .inl ⟨f, he⟩)
    (fun m _ he => .inl ⟨m, mem_addMacroTable he⟩)

theorem leads_defineTransformer (h : s.Sound) (m : MacroTableId) (n : Symbol) {x : Transformer}
    (hx : x.Known s) : s.Leads (s.defineTransformer m n x) := by
  refine leads_of_same h rfl (Nat.le_refl _) rfl rfl (fun f _ he => .inl ⟨f, he⟩) (fun k e he => ?_)
  rcases mem_defineTransformer he with rfl | he
  · exact .inr hx
  · exact .inl ⟨k, he⟩

/-! ## Classes and instances -/

theorem class_addClass {k j : Class} {c : ClassId} (hj : (s.addClass k).1.classes[c]? = some j) :
    c = s.classes.size ∧ j = k ∨ s.classes[c]? = some j := by
  rw [addClass, Array.getElem?_push] at hj
  split at hj
  next hc => exact .inl ⟨hc, (Option.some.inj hj).symm⟩
  next => exact .inr hj

theorem instance_addInstance {x y : Instance} {i : InstanceId}
    (hy : (s.addInstance x).1.instances[i]? = some y) : y = x ∨ s.instances[i]? = some y := by
  rw [addInstance, Array.getElem?_push] at hy
  split at hy
  next => exact .inl (Option.some.inj hy).symm
  next => exact .inr hy

theorem instance_setSlot {i j : InstanceId} {n : Symbol} {v : Value} {y : Instance}
    (hy : (s.setSlot i n v).instances[j]? = some y) :
    (∃ x, s.instances[i]? = some x ∧ y = { x with values := x.values.insert n v }) ∨
      s.instances[j]? = some y := by
  rw [setSlot, Array.getElem?_modify] at hy
  split at hy
  next hij =>
    subst hij
    obtain ⟨x, hx, hy⟩ := Option.map_eq_some_iff.1 hy
    exact .inl ⟨x, hx, hy.symm⟩
  next => exact .inr hy

theorem leads_addClass (h : s.Sound) {k : Class} (hk : k.Sound s s.classes.size) :
    s.Leads (s.addClass k).1 := by
  have hg : s.Grows (s.addClass k).1 := by
    refine ⟨rfl, Nat.le_refl _, by simp [addClass], fun c hc => ?_, Nat.le_refl _, fun _ _ => rfl⟩
    rw [addClass, Array.getElem?_push_lt hc, Array.getElem?_eq_getElem hc]
  refine ⟨hg, hg.sound h (fun f _ he => .inl ⟨f, he⟩) (fun c j hj => ?_) (fun _ _ hx => .inl hx)
    (fun m _ he => .inl ⟨m, he⟩)⟩
  rcases class_addClass hj with ⟨rfl, rfl⟩ | hj
  · exact .inr (hg.class_sound (Nat.le_refl _) hk)
  · exact .inl hj

theorem getInstance_addInstance (s : State) (x : Instance) :
    (s.addInstance x).1.getInstance s.instances.size = x := by
  rw [getInstance, addInstance, Array.getElem?_push_size]
  rfl

theorem leads_addInstance (h : s.Sound) {x : Instance} (hx : x.Sound s) :
    s.Leads (s.addInstance x).1 := by
  have hg : s.Grows (s.addInstance x).1 := by
    refine ⟨rfl, Nat.le_refl _, Nat.le_refl _,
      fun _ _ => rfl, by simp [addInstance], fun i hi => ?_⟩
    rw [classOf, classOf, getInstance, getInstance, addInstance, Array.getElem?_push_lt hi,
      Array.getElem?_eq_getElem hi]
  refine ⟨hg, hg.sound h (fun f _ he => .inl ⟨f, he⟩) (fun _ _ hk => .inl hk) (fun i y hy => ?_)
    (fun m _ he => .inl ⟨m, he⟩)⟩
  rcases instance_addInstance hy with rfl | hy
  · exact .inr (hg.instance_sound hx)
  · exact .inl hy

theorem classOf_setSlot (s : State) (i : InstanceId) (n : Symbol) (v : Value) (j : InstanceId) :
    (s.setSlot i n v).classOf j = s.classOf j := by
  rw [classOf, classOf, getInstance, getInstance, setSlot, Array.getElem?_modify]
  split
  next => cases s.instances[j]? <;> rfl
  next => rfl

theorem leads_setSlot (h : s.Sound) (i : InstanceId) {n : Symbol} {v : Value}
    (hn : n ∈ (s.getClass (s.classOf i)).slots.map Slot.name) (hv : s.Knows v) :
    s.Leads (s.setSlot i n v) := by
  have hg : s.Grows (s.setSlot i n v) :=
    ⟨rfl, Nat.le_refl _, Nat.le_refl _,
      fun _ _ => rfl, by simp [setSlot], fun j _ => classOf_setSlot s i n v j⟩
  refine ⟨hg, hg.sound h (fun f _ he => .inl ⟨f, he⟩) (fun _ _ hk => .inl hk) (fun j y hy => ?_)
    (fun m _ he => .inl ⟨m, he⟩)⟩
  rcases instance_setSlot hy with ⟨x, hx, rfl⟩ | hy
  · have hsound := h.instances i x hx
    have hclass : s.classOf i = x.cls := by rw [classOf, getInstance, hx]; rfl
    refine .inr (hg.instance_sound ⟨hsound.cls, fun e he => ?_⟩)
    rcases Table.mem_insert he with rfl | he
    · exact ⟨hclass ▸ hn, hv⟩
    · exact hsound.values e he
  · exact .inl hy

end State
end SlotLisp
