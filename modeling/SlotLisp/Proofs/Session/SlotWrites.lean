import SlotLisp.Proofs.Evaluation.Fuel
import SlotLisp.Proofs.Inference.ZeroPolicies
import SlotLisp.Proofs.Session.Classes
import SlotLisp.Proofs.Session.Uses

/-!
Setting a slot of an instance. The instance is the same one wherever it is met, so that its new
value is found from all these places, and nothing else about it, about other instances or about
variables is different. No use of a session takes the value of a slot away.
-/

namespace SlotLisp

inductive Part
  | item (k : Nat)
  | tail
  | key (k : Nat)
  | entry (k : Nat)
  | slot (n : Symbol)

theorem Value.eq_of_isInstance? {v : Value} {i : InstanceId} (h : v.isInstance? = some i) :
    v = .ref (.inst i) := by
  unfold isInstance? at h
  split at h
  · rw [Option.some.inj h]
  · exact absurd h (by simp)

/-! ## The functions for slots -/

namespace Eval

variable {s : State} (eval : Evaluator) (env : FrameId) (macros : MacroTableId) (i : InstanceId)
  (name v : Value)

theorem outcome_slotValue :
    (apply eval (.function (.builtin .slotValue)) env macros [.ref (.inst i), name]).outcome s =
      some (s.readSlot i name, s) := by
  show (ask fun s => s.readSlot i name).outcome s = _
  rw [outcome_ask]

theorem outcome_slotBound :
    (apply eval (.function (.builtin .slotBound)) env macros [.ref (.inst i), name]).outcome s =
      some (Value.ofBool <$> s.slotBound i name, s) := by
  show (ask (fun s => s.slotBound i name) >>= fun b => pure (Value.ofBool b)).outcome s = _
  rw [outcome_bind, outcome_ask]
  cases s.slotBound i name with
  | ok b => rfl
  | error e => rfl

theorem outcome_setSlotValue :
    (apply eval (.function (.builtin .setSlotValue)) env macros
      [.ref (.inst i), name, v]).outcome s =
      match s.writeSlot i name v with
      | .ok t => some (.ok v, t)
      | .error e => some (.error e, s) := by
  show (ask (fun s => s.writeSlot i name v) >>= fun t => set t >>= fun _ => pure v).outcome s = _
  rw [outcome_bind, outcome_ask]
  cases s.writeSlot i name v with
  | ok t => rfl
  | error e => rfl

end Eval

namespace State

variable {s t : State} {i j : InstanceId} {n m : Symbol} {v name : Value}

/-! ## Places -/

def part? (s : State) (v : Value) : Part → Option Value
  | .item k =>
    match v with
    | .list xs => xs[k]?
    | .vector xs => xs[k]?
    | .dotted xs _ => xs[k]?
    | .copies _ xs _ => xs[k]?
    | _ => none
  | .tail =>
    match v with
    | .dotted _ tail => some tail
    | .copies _ _ tail => some tail
    | _ => none
  | .key k =>
    match v with
    | .map es => es[k]?.map Prod.fst
    | _ => none
  | .entry k =>
    match v with
    | .map es => es[k]?.map Prod.snd
    | _ => none
  | .slot n => v.isInstance?.bind fun i => (s.getInstance i).values.get? n

def follow? (s : State) : List Part → Value → Option Value
  | [], v => some v
  | p :: path, v => (s.part? v p).bind (s.follow? path)

def at? (s : State) (f : FrameId) (x : Symbol) (path : List Part) : Option Value :=
  (s.lookup? f x).bind (s.follow? path)

/-- The path from a variable on goes through the slot `n` of the instance `i`. -/
def Crosses (s : State) (f : FrameId) (x : Symbol) (i : InstanceId) (n : Symbol)
    (path : List Part) : Prop :=
  ∃ before after, path = before ++ .slot n :: after ∧ s.at? f x before = some (.ref (.inst i))

/-! ## The values of instances -/

theorem values_setSlot_self (hi : i < s.instances.size) :
    ((s.setSlot i n v).getInstance i).values.get? n = some v := by
  rw [getInstance, setSlot, Array.getElem?_modify, if_pos rfl, Array.getElem?_eq_getElem hi]
  exact Table.get?_insert_self _ n v

theorem values_setSlot_of_ne (h : ¬ (j = i ∧ m = n)) :
    ((s.setSlot i n v).getInstance j).values.get? m = (s.getInstance j).values.get? m := by
  rw [getInstance, getInstance, setSlot, Array.getElem?_modify]
  split
  next hij =>
    have hnm : ¬ n = m := fun hnm => h ⟨hij.symm, hnm.symm⟩
    cases s.instances[j]? with
    | none => rfl
    | some x => exact (Table.get?_insert x.values n m v).trans (if_neg hnm)
  next => rfl

theorem namedSlot_setSlot : (s.setSlot i n v).namedSlot j name = s.namedSlot j name := by
  rw [namedSlot, namedSlot, classOf_setSlot]
  rfl

/-- Only a symbol names a slot. -/
theorem name_of_namedSlot {slot : Slot} (h : s.namedSlot j name = .ok slot) :
    name = .symbol slot.name := by
  rw [namedSlot] at h
  split at h
  next x hx =>
    obtain rfl := Except.ok.inj h
    have hkey := List.find?_some hx
    cases name with
    | symbol m => rw [eq_of_beq hkey]
    | _ => exact absurd hkey (by simp [Declaration.isKey])
  next => exact absurd h (by simp)

theorem namedSlot_of_not_mem (h : ∀ m ∈ s.slotNames (s.classOf j), name ≠ .symbol m) :
    s.namedSlot j name = .error (.arity (.noSlot (s.getClass (s.classOf j)).name name)) := by
  cases hslot : s.namedSlot j name with
  | ok slot =>
      have hmem : slot.name ∈ s.slotNames (s.classOf j) := List.mem_map_of_mem (namedSlot_mem hslot)
      exact absurd (name_of_namedSlot hslot) (h _ hmem)
  | error e =>
      rw [namedSlot] at hslot
      split at hslot
      next => exact absurd hslot (by simp)
      next => exact hslot.symm

/-- A slot that is named otherwise than by `n`, or belongs to another instance, is another slot. -/
theorem not_same_slot {slot : Slot} (h : ¬ (j = i ∧ name = .symbol n))
    (hslot : s.namedSlot j name = .ok slot) :
    ¬ (j = i ∧ slot.name = n) := fun hsame =>
  h ⟨hsame.1, hsame.2 ▸ name_of_namedSlot hslot⟩

theorem readSlot_setSlot (h : ¬ (j = i ∧ name = .symbol n)) :
    (s.setSlot i n v).readSlot j name = s.readSlot j name := by
  rw [readSlot, readSlot, namedSlot_setSlot, classOf_setSlot]
  cases hslot : s.namedSlot j name with
  | error e => rfl
  | ok slot =>
      dsimp only [bind, Except.bind]
      rw [values_setSlot_of_ne (not_same_slot h hslot)]
      rfl

theorem slotBound_setSlot (h : ¬ (j = i ∧ name = .symbol n)) :
    (s.setSlot i n v).slotBound j name = s.slotBound j name := by
  rw [slotBound, slotBound, namedSlot_setSlot]
  cases hslot : s.namedSlot j name with
  | error e => rfl
  | ok slot =>
      show Except.ok (((s.setSlot i n v).getInstance j).values.contains slot.name) = _
      rw [Table.contains_eq_isSome, values_setSlot_of_ne (not_same_slot h hslot),
        ← Table.contains_eq_isSome]
      rfl

/-- The slot that was set, with an instance that has it. -/
theorem readSlot_setSlot_self (hi : i < s.instances.size) (hn : n ∈ s.slotNames (s.classOf i)) :
    (s.setSlot i n v).readSlot i (.symbol n) = .ok v := by
  have hmem : n ∈ (s.setSlot i n v).slotNames ((s.setSlot i n v).classOf i) := by
    rw [classOf_setSlot]
    exact hn
  rw [readSlot_of_mem hmem, slotAnswer, values_setSlot_self hi]

theorem slotBound_setSlot_self (hi : i < s.instances.size) (hn : n ∈ s.slotNames (s.classOf i)) :
    (s.setSlot i n v).slotBound i (.symbol n) = .ok true := by
  obtain ⟨slot, hslot, rfl⟩ := namedSlot_of_mem hn
  rw [slotBound, namedSlot_setSlot, hslot]
  show Except.ok (((s.setSlot i slot.name v).getInstance i).values.contains slot.name) = _
  rw [Table.contains_eq_isSome, values_setSlot_self hi]
  rfl

/-- An instance that is put into a slot of its own, by itself or in lists, has no text any more. -/
theorem not_writable_setSlot_self (hi : i < s.instances.size) (hn : n ∈ s.slotNames (s.classOf i))
    (hv : v.Shows false (.inst i)) : (s.setSlot i n v).writable (.ref (.inst i)) = false := by
  obtain ⟨slot, hslot, rfl⟩ := List.mem_map.1 hn
  refine not_writable_of_showsAt ⟨v, ⟨slot, ?_, values_setSlot_self hi⟩, hv⟩
  rw [← classOf, classOf_setSlot]
  exact hslot

/-- A way that does not go through the slot comes to the same value. -/
theorem follow?_setSlot (path : List Part) (w : Value)
    (h : ∀ before after, path = before ++ .slot n :: after →
      s.follow? before w ≠ some (.ref (.inst i))) :
    (s.setSlot i n v).follow? path w = s.follow? path w := by
  induction path generalizing w with
  | nil => rfl
  | cons p path ih =>
      have hpart : (s.setSlot i n v).part? w p = s.part? w p := by
        cases p with
        | slot m =>
            cases hw : w.isInstance? with
            | none => simp only [part?, hw, Option.bind_none]
            | some k =>
                simp only [part?, hw, Option.bind_some]
                refine values_setSlot_of_ne fun ⟨hk, hm⟩ => h [] path (by rw [hm]; rfl) ?_
                rw [follow?, Value.eq_of_isInstance? hw, hk]
        | _ => rfl
      rw [follow?, follow?, hpart]
      cases hp : s.part? w p with
      | none => rfl
      | some u =>
          refine ih u fun before after hpath hfollow =>
            h (p :: before) after (by rw [hpath]; rfl) ?_
          rw [follow?, hp]
          exact hfollow

theorem at?_setSlot {f : FrameId} {x : Symbol} {path : List Part} (h : ¬ s.Crosses f x i n path) :
    (s.setSlot i n v).at? f x path = s.at? f x path := by
  have hlookup : (s.setSlot i n v).lookup? f x = s.lookup? f x := rfl
  rw [at?, at?, hlookup]
  cases hx : s.lookup? f x with
  | none => rfl
  | some w =>
      refine follow?_setSlot path w fun before after hpath hbefore => h ⟨before, after, hpath, ?_⟩
      rw [at?, hx]
      exact hbefore

/-- What a slot of a class is after `v` has been written into it, and what has stayed. -/
structure SlotWritten (s t : State) (i : InstanceId) (n : Symbol) (v : Value) : Prop where
  /-- However the instance is referred to, its slot has the value. -/
  value (w : Value) : w.isInstance? = some i → ∀ eval env macros,
    (Eval.apply eval (.function (.builtin .slotValue)) env macros [w, .symbol n]).outcome t =
      some (.ok v, t)
  bound (w : Value) : w.isInstance? = some i → ∀ eval env macros,
    (Eval.apply eval (.function (.builtin .slotBound)) env macros [w, .symbol n]).outcome t =
      some (.ok (.ofBool true), t)
  /-- Every reader of the slot that takes the instance, be it of an inherited class. -/
  readers (c : ClassId) (name : Symbol) : t.descends (t.classOf i) c = true →
    ∀ w, w.isInstance? = some i → ∀ eval env macros,
      (Eval.apply eval (.function (.reader c name n)) env macros [w]).outcome t = some (.ok v, t)
  /-- What referred to something, this instance among others, refers to it as before, but for what
  was kept in the slot itself. -/
  places (f : FrameId) (x : Symbol) (path : List Part) :
    ¬ s.Crosses f x i n path → t.at? f x path = s.at? f x path
  others (j : InstanceId) (name : Value) : ¬ (j = i ∧ name = .symbol n) →
    t.readSlot j name = s.readSlot j name ∧ t.slotBound j name = s.slotBound j name
  frames : t.frames = s.frames
  classes : t.classes = s.classes ∧ t.classOf = s.classOf

theorem slotWritten_setSlot (hi : i < s.instances.size) (hn : n ∈ s.slotNames (s.classOf i))
    (v : Value) :
    s.SlotWritten (s.setSlot i n v) i n v := by
  have hread := readSlot_setSlot_self (v := v) hi hn
  have hbound := slotBound_setSlot_self (v := v) hi hn
  generalize ht : s.setSlot i n v = t at hread hbound
  refine ⟨fun w hw eval env macros => ?_, fun w hw eval env macros => ?_,
    fun c name hc w hw eval env macros => ?_,
    fun f x path h => ht ▸ at?_setSlot h, fun j name h => ?_, ht ▸ rfl, ht ▸ rfl, ?_⟩
  · obtain rfl := Value.eq_of_isInstance? hw
    rw [Eval.outcome_slotValue, hread]
  · obtain rfl := Value.eq_of_isInstance? hw
    rw [Eval.outcome_slotBound, hbound]
    rfl
  · obtain rfl := Value.eq_of_isInstance? hw
    rw [Eval.apply, Eval.applyReader, Eval.outcome_bind_ok (Eval.outcome_get t)]
    simp only [Value.isInstance?, hc, if_true, hread, Eval.outcome_ofExcept]
  · rw [← ht]
    exact ⟨readSlot_setSlot h, slotBound_setSlot h⟩
  · rw [← ht]
    exact funext fun j => classOf_setSlot s i n v j

/-! ## What keeps its value -/

def KeepsValues (s t : State) : Prop :=
  ∀ i n, (s.getInstance i).values.contains n = true → (t.getInstance i).values.contains n = true

theorem lt_of_contains (h : (s.getInstance i).values.contains n = true) : i < s.instances.size := by
  rw [← Nat.not_le]
  intro hle
  rw [getInstance, Array.getElem?_eq_none hle] at h
  exact Bool.noConfusion h

theorem Change.keepsValues (h : s.Change t) : s.KeepsValues t := by
  cases h with
  | addInstance x =>
      intro i n hn
      rwa [getInstance, State.addInstance, Array.getElem?_push_lt (lt_of_contains hn),
        ← Array.getElem?_eq_getElem (lt_of_contains hn)]
  | setSlot i n v =>
      intro j m hm
      by_cases hjm : j = i ∧ m = n
      · obtain ⟨rfl, rfl⟩ := hjm
        rw [Table.contains_eq_isSome, values_setSlot_self (lt_of_contains hm)]
        rfl
      · rw [Table.contains_eq_isSome] at hm ⊢
        rwa [values_setSlot_of_ne hjm]
  | _ => exact fun _ _ h => h

/-- What is bound stays bound where classes and instances stay what they are. -/
theorem slotBound_of_keeps (hs : s.Sound) (hgrows : s.Grows t) (hvalues : s.KeepsValues t)
    (h : s.slotBound j name = .ok true) : t.slotBound j name = .ok true := by
  obtain ⟨slot, hslot, h⟩ := bind_eq_ok h
  have hbound : (s.getInstance j).values.contains slot.name = true := Except.ok.inj h
  have hj := lt_of_contains hbound
  have hslot' : t.namedSlot j name = .ok slot := by
    rw [← hslot, namedSlot, namedSlot, hgrows.same_classOf j hj, hgrows.getClass (classOf_lt hs hj)]
  rw [slotBound, hslot']
  exact congrArg Except.ok (hvalues j slot.name hbound)

end State

namespace Session

open Eval

theorem Step.keepsValues {x : Session} {s t : State} (h : Step x s t) : s.KeepsValues t :=
  h.preserves (fun hst htu i n hn => htu i n (hst i n hn)) State.Change.keepsValues
    fun _ _ _ hn => hn

structure SlotWrites (x : Session) (s : State) (i : InstanceId) : Prop where
  /-- A slot of its class, inherited or not, is set and has the value from then on. -/
  written (n : Symbol) (v : Value) : n ∈ s.slotNames (s.classOf i) → ∃ t, s.SlotWritten t i n v ∧
    ∀ w, w.isInstance? = some i → ∀ eval env macros,
      (Eval.apply eval (.function (.builtin .setSlotValue)) env macros
        [w, .symbol n, v]).outcome s = some (.ok v, t)
  /-- Anything else is refused as naming no slot, and is reported so where it is a name at all. -/
  refused (name v : Value) : (∀ n ∈ s.slotNames (s.classOf i), name ≠ .symbol n) →
    let e := .arity (.noSlot (s.getClass (s.classOf i)).name name)
    (∀ w, w.isInstance? = some i → ∀ eval env macros,
      (Eval.apply eval (.function (.builtin .setSlotValue)) env macros [w, name, v]).outcome s =
        some (.error e, s)) ∧
    ∀ n, name = .symbol n → s.settle e = e
  /-- No use of the session, however it ends, leaves a slot without a value that had one. -/
  kept (t : State) : Step x s t → ∀ j name, s.slotBound j name = .ok true →
    t.slotBound j name = .ok true

/-- In every state of a session, setting a slot of an instance succeeds if its class has the slot,
and then changes that slot alone, as seen through each reference to the instance; it does nothing
otherwise. Slots that have values keep having them. -/
theorem Reachable.slotWrites {settings : Settings} {selection : Option Selection}
    (hfresh : Fresh settings selection) {s : State} (hs : Reachable settings selection s)
    {i : InstanceId} (hi : i < s.instances.size) :
    SlotWrites (full (State.start settings) selection).2 s i where
  written n v hn := by
    refine ⟨s.setSlot i n v, State.slotWritten_setSlot hi hn v, fun w hw eval env macros => ?_⟩
    obtain rfl := Value.eq_of_isInstance? hw
    obtain ⟨slot, hslot, rfl⟩ := State.namedSlot_of_mem hn
    rw [outcome_setSlotValue, State.writeSlot, hslot]
    rfl
  refused name v hname := by
    refine ⟨fun w hw eval env macros => ?_, fun n hn => ?_⟩
    · obtain rfl := Value.eq_of_isInstance? hw
      rw [outcome_setSlotValue, State.writeSlot, State.namedSlot_of_not_mem hname]
      rfl
    · subst hn
      rw [State.settle_eq_self_iff]
      simp [Error.pieces, Arity.pieces, Piece.symbol, Piece.display]
  kept t ht j name hbound :=
    State.slotBound_of_keeps (hs.sound hfresh)
      (ht.leads (hs.sound hfresh)).grows ht.keepsValues hbound

/-- An instance that is kept in a variable and in a list, with an inherited slot that has no
value. -/
theorem Reachable.slotWrites_inherited :
    let x := (full (State.start Settings.standard) none).2
    let s := x.afterText 4 (full (State.start Settings.standard) none).1
      "(defclass a () (x y)) (defclass b (a) ()) (define p (make-b :x 1)) (define q (list p))"
    Fresh Settings.standard none ∧ Reachable Settings.standard none s ∧ 0 < s.instances.size ∧
      ⟨"y"⟩ ∈ s.slotNames (s.classOf 0) ∧ (s.slotBound 0 (.symbol ⟨"y"⟩)).toOption = some false ∧
      ((s.at? x.env ⟨"q"⟩ [.item 0]).bind Value.isInstance?) = some 0 ∧ SlotWrites x s 0 := by
  intro x s
  have hs : Reachable Settings.standard none s := Reachable.start.afterText 4 _
  have hshape : 0 < s.instances.size ∧ ⟨"y"⟩ ∈ s.slotNames (s.classOf 0) ∧
      (s.slotBound 0 (.symbol ⟨"y"⟩)).toOption = some false ∧
      ((s.at? x.env ⟨"q"⟩ [.item 0]).bind Value.isInstance?) = some 0 := by
    decide +kernel
  obtain ⟨hi, hslot, hbound, hplace⟩ := hshape
  exact ⟨fresh_standard, hs, hi, hslot, hbound, hplace, Reachable.slotWrites fresh_standard hs hi⟩

end Session
end SlotLisp
