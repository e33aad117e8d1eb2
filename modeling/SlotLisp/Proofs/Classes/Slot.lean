import SlotLisp.Eval.Construct
import SlotLisp.Proofs.Classes.Draft

/-!
Reading and writing the slots of instances in a sound state, and what initial arguments bring in.
-/

namespace SlotLisp

theorem all_initargTable {p : Leaf → Prop} {cls : Symbol} {args : List Value}
    {initargs : Table Value} (h : initargTable cls args = .ok initargs)
    (hargs : ∀ a ∈ args, a.All p) :
    ∀ e ∈ initargs.entries, e.2.All p := by
  unfold initargTable at h
  split at h
  next => exact absurd h (by simp)
  next =>
    obtain ⟨entries, hentries, h⟩ := bind_eq_ok h
    obtain rfl := Except.ok.inj h
    have hpairs := Declaration.all_pairs hargs
    have hall : ∀ e ∈ entries, e.2.All p := by
      refine forall_mapM hentries fun d hd e he => ?_
      obtain ⟨k, v⟩ := d
      cases k with
      | symbol n =>
          dsimp only at he
          split at he
          next => obtain rfl := Except.ok.inj he; exact (hpairs _ hd).2
          next => exact absurd he (by simp)
      | _ => exact absurd he (by simp)
    exact fun e he => hall e (Table.mem_ofList he)

namespace State

variable {s : State} {i : InstanceId}

theorem getInstance_sound (hs : s.Sound) (hi : i < s.instances.size) :
    (s.getInstance i).Sound s := by
  have hx := Array.getElem?_eq_getElem hi
  rw [getInstance, hx]
  exact hs.instances i _ hx

theorem classOf_lt (hs : s.Sound) (hi : i < s.instances.size) : s.classOf i < s.classes.size :=
  (getInstance_sound hs hi).cls

/-- A value that is read from a slot is kept in the instance. -/
theorem mem_of_readSlot {name v : Value} (h : s.readSlot i name = .ok v) :
    ∃ x n, s.instances[i]? = some x ∧ (n, v) ∈ x.values.entries := by
  obtain ⟨slot, -, h⟩ := bind_eq_ok h
  split at h
  next w hw =>
    obtain rfl := Except.ok.inj h
    cases hi : s.instances[i]? with
    | none =>
        rw [getInstance, hi] at hw
        have hnone : (default : Instance).values.get? slot.name = none := rfl
        exact absurd (hnone.symm.trans hw) (by simp)
    | some x =>
        rw [getInstance, hi] at hw
        exact ⟨x, slot.name, rfl, Table.mem_of_get? hw⟩
  next => exact absurd h (by simp [throw, throwThe, MonadExceptOf.throw])

theorem knows_readSlot (hs : s.Sound) {name v : Value}
    (h : s.readSlot i name = .ok v) : s.Knows v := by
  obtain ⟨x, n, hx, hmem⟩ := mem_of_readSlot h
  exact ((hs.instances i x hx).values _ hmem).2

theorem namedSlot_mem {name : Value} {slot : Slot}
    (h : s.namedSlot i name = .ok slot) : slot ∈ (s.getClass (s.classOf i)).slots := by
  unfold namedSlot at h
  dsimp only at h
  split at h
  next x hx => obtain rfl := Except.ok.inj h; exact List.mem_of_find?_eq_some hx
  next => exact absurd h (by simp)

theorem leads_writeSlot (hs : s.Sound) {name v : Value} {t : State}
    (h : s.writeSlot i name v = .ok t) (hv : s.Knows v) : s.Leads t := by
  obtain ⟨slot, hslot, h⟩ := bind_eq_ok h
  obtain rfl := Except.ok.inj h
  exact leads_setSlot hs i (List.mem_map_of_mem (namedSlot_mem hslot)) hv

end State
end SlotLisp
