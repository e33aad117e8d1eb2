import SlotLisp.Proofs.State.Update

/-!
What is written in a class definition and the class that it makes.
-/

namespace SlotLisp

/-! ## Slots by the first mention of their names -/

theorem mem_firstByName_names (seen : List Symbol) (slots : List Slot) (n : Symbol) :
    n ∈ (firstByName seen slots).map Slot.name ↔ n ∈ slots.map Slot.name ∧ n ∉ seen := by
  induction slots generalizing seen with
  | nil => simp [firstByName]
  | cons slot slots ih =>
      rw [firstByName]
      split
      next hseen =>
        have hmem : slot.name ∈ seen := by simpa using hseen
        rw [ih, List.map_cons, List.mem_cons]
        constructor
        · rintro ⟨hn, hns⟩
          exact ⟨.inr hn, hns⟩
        · rintro ⟨rfl | hn, hns⟩
          · exact absurd hmem hns
          · exact ⟨hn, hns⟩
      next hseen =>
        have hmem : slot.name ∉ seen := by simpa using hseen
        rw [List.map_cons, List.mem_cons, ih, List.map_cons, List.mem_cons, List.mem_cons, not_or]
        constructor
        · rintro (rfl | ⟨hn, hne, hns⟩)
          · exact ⟨.inl rfl, hmem⟩
          · exact ⟨.inr hn, hns⟩
        · rintro ⟨rfl | hn, hns⟩
          · exact .inl rfl
          · by_cases hne : n = slot.name
            · exact .inl hne
            · exact .inr ⟨hn, hne, hns⟩

theorem nodup_firstByName (seen : List Symbol) (slots : List Slot) :
    ((firstByName seen slots).map Slot.name).Nodup := by
  induction slots generalizing seen with
  | nil => simp [firstByName]
  | cons slot slots ih =>
      rw [firstByName]
      split
      next => exact ih seen
      next =>
        rw [List.map_cons, List.nodup_cons, mem_firstByName_names]
        refine ⟨fun h => h.2 ?_, ih _⟩
        exact List.mem_cons_self

theorem firstByName_subset (seen : List Symbol) (slots : List Slot) :
    ∀ slot ∈ firstByName seen slots, slot ∈ slots := by
  induction slots generalizing seen with
  | nil => simp [firstByName]
  | cons slot slots ih =>
      rw [firstByName]
      split
      next => exact fun x hx => List.mem_cons_of_mem _ (ih _ x hx)
      next =>
        intro x hx
        rw [List.mem_cons] at hx ⊢
        exact hx.imp_right (ih _ x)

/-! ## Drafts -/

def declarationsOf (slots : Value) : Except Error (List Declaration) := do
  (← partsOf slots).mapM Declaration.ofForm

theorem mapM_map {ε α β γ : Type} (f : α → Except ε β) (g : β → γ) (xs : List α) :
    (xs.mapM fun x => do return g (← f x)) = (fun ys => ys.map g) <$> xs.mapM f := by
  induction xs with
  | nil => rfl
  | cons x xs ih =>
      rw [List.mapM_cons, List.mapM_cons, ih]
      cases f x with
      | error e => rfl
      | ok y => cases xs.mapM f <;> rfl

/-- A draft is made of the bases, the declarations and the options of a definition, in this
order. -/
theorem State.draftClass_eq (s : State) (env : FrameId) (n : Symbol) (bases slots : Value)
    (options : List Value) :
    s.draftClass env (.symbol n :: bases :: slots :: options) = (do
      let bs ← (← partsOf bases).mapM (s.baseClass env)
      let ds ← declarationsOf slots
      if !decide (ds.map Declaration.name).Nodup then throw (.arity (.repeatedSlot n))
      let os ← options.mapM classOption
      return ⟨n, bs, ds.map (Slot.ofDeclaration n), .ofList os⟩) := by
  have hnames : ∀ ds : List Declaration,
      (ds.map (Slot.ofDeclaration n)).map Slot.name = ds.map Declaration.name := fun ds =>
    List.map_map
  rw [draftClass, declarationsOf]
  cases hbases : partsOf bases with
  | error e => rfl
  | ok bs =>
      show (bs.mapM (s.baseClass env) >>= _) = (bs.mapM (s.baseClass env) >>= _)
      congr 1
      funext bs
      cases hslots : partsOf slots with
      | error e => rfl
      | ok ss =>
          show ((ss.mapM fun d => do return Slot.ofDeclaration n (← Declaration.ofForm d)) >>= _) =
            (ss.mapM Declaration.ofForm >>= _)
          rw [mapM_map]
          cases ss.mapM Declaration.ofForm with
          | error e => rfl
          | ok ds =>
              dsimp only [Functor.map, Except.map, bind, Except.bind]
              rw [hnames]

theorem State.draftClass_eq_ok {s : State} {env : FrameId} {n : Symbol} {bases slots : Value}
    {options : List Value} {d : ClassDraft}
    (h : s.draftClass env (.symbol n :: bases :: slots :: options) = .ok d) :
    d.name = n ∧ ∃ ds, declarationsOf slots = .ok ds ∧ d.own = ds.map (Slot.ofDeclaration n) := by
  rw [draftClass_eq] at h
  obtain ⟨_, -, h⟩ := bind_eq_ok h
  obtain ⟨_, -, h⟩ := bind_eq_ok h
  obtain ⟨ds, hds, h⟩ := bind_eq_ok h
  split at h
  next => exact absurd h (by simp [throw, throwThe, MonadExceptOf.throw, bind, Except.bind])
  next =>
    obtain ⟨_, -, h⟩ := bind_eq_ok h
    obtain rfl := Except.ok.inj h
    exact ⟨rfl, ds, hds, rfl⟩

/-- A draft whose bases are classes of the state and whose own slots have distinct names and known
defaults. -/
structure ClassDraft.Sound (s : State) (d : ClassDraft) : Prop where
  bases : ∀ b ∈ d.bases, b < s.classes.size
  own_nodup : (d.own.map Slot.name).Nodup
  defaults : ∀ slot ∈ d.own, ∀ v ∈ slot.default, s.Knows v

namespace State

variable {s : State}

/-- A value that is looked up is kept in some frame. -/
theorem mem_of_lookup? {f : FrameId} {n : Symbol} {v : Value} (hv : s.lookup? f n = some v) :
    ∃ g, (n, v) ∈ (s.frame g).vars.entries := by
  obtain ⟨g, -, hg⟩ := Option.bind_eq_some_iff.1 hv
  exact ⟨g, Table.mem_of_get? hg⟩

theorem mem_of_lookup {f : FrameId} {name v : Value} (hv : s.lookup f name = .ok v) :
    ∃ g n, (n, v) ∈ (s.frame g).vars.entries := by
  obtain ⟨n, -, hv⟩ := bind_eq_ok hv
  split at hv
  next w hw =>
    obtain rfl := Except.ok.inj hv
    obtain ⟨m, -, hm⟩ := Option.bind_eq_some_iff.1 hw
    obtain ⟨g, hg⟩ := mem_of_lookup? hm
    exact ⟨g, m, hg⟩
  next => exact absurd hv (by simp [throw, throwThe, MonadExceptOf.throw])

theorem knows_lookup? (h : s.Sound) {f : FrameId} {n : Symbol} {v : Value}
    (hv : s.lookup? f n = some v) : s.Knows v := by
  obtain ⟨g, hg⟩ := mem_of_lookup? hv
  exact h.vars g _ hg

theorem knows_lookup (h : s.Sound) {f : FrameId} {name v : Value} (hv : s.lookup f name = .ok v) :
    s.Knows v := by
  obtain ⟨g, n, hg⟩ := mem_of_lookup hv
  exact h.vars g _ hg

theorem baseClass_lt (h : s.Sound) {env : FrameId} {name : Value} {c : ClassId}
    (hc : s.baseClass env name = .ok c) : c < s.classes.size := by
  obtain ⟨v, hv, hc⟩ := bind_eq_ok hc
  have hknows := knows_lookup h hv
  split at hc
  next d hd =>
    obtain rfl := Except.ok.inj hc
    exact Knows.isClass? hknows hd
  next => exact absurd hc (by simp [throw, throwThe, MonadExceptOf.throw])

theorem all_partsOf {p : Leaf → Prop} {v : Value} {xs : List Value} (h : partsOf v = .ok xs)
    (hv : v.All p) : ∀ x ∈ xs, x.All p := by
  unfold partsOf at h
  split at h
  next ys hys => obtain rfl := Except.ok.inj h; exact Value.all_elements hys hv
  next => exact absurd h (by simp)

/-- The defaults of a class's own slots are parts of its definition. -/
theorem all_draftClass {p : Leaf → Prop} {env : FrameId} {args : List Value} {d : ClassDraft}
    (hd : s.draftClass env args = .ok d) (hargs : ∀ a ∈ args, a.All p) :
    ∀ slot ∈ d.own, ∀ v ∈ slot.default, v.All p := by
  unfold draftClass at hd
  split at hd
  next name bases slots options =>
    have hdraft : s.draftClass env (.symbol name :: bases :: slots :: options) = .ok d := hd
    obtain ⟨-, ds, hds, hown⟩ := draftClass_eq_ok hdraft
    obtain ⟨ss, hss, hds⟩ := bind_eq_ok hds
    have hparts := all_partsOf hss (hargs slots (by simp))
    intro slot hslot
    rw [hown] at hslot
    obtain ⟨decl, hdecl, rfl⟩ := List.mem_map.1 hslot
    exact forall_mapM hds (fun x hx y hy => (Declaration.all_ofForm hy (hparts x hx)).default)
      decl hdecl
  next => exact absurd hd (by simp)
  next => exact absurd hd (by simp)

theorem draft_sound (h : s.Sound) {env : FrameId} {args : List Value} {d : ClassDraft}
    (hd : s.draftClass env args = .ok d) (hargs : ∀ a ∈ args, s.Knows a) : d.Sound s := by
  have hdefaults := all_draftClass hd hargs
  unfold draftClass at hd
  split at hd
  next name bases slots options =>
    obtain ⟨bs, hbs, hd⟩ := bind_eq_ok hd
    obtain ⟨bases', hbases', hd⟩ := bind_eq_ok hd
    obtain ⟨ss, hss, hd⟩ := bind_eq_ok hd
    obtain ⟨own, hown, hd⟩ := bind_eq_ok hd
    split at hd
    next => exact absurd hd (by simp [throw, throwThe, MonadExceptOf.throw, bind, Except.bind])
    next hnodup =>
      obtain ⟨os, -, hd⟩ := bind_eq_ok hd
      obtain rfl := Except.ok.inj hd
      refine ⟨?_, by simpa using hnodup, ?_⟩
      · exact forall_mapM hbases' fun _ _ _ hc => baseClass_lt h hc
      · exact hdefaults
  next => exact absurd hd (by simp)
  next => exact absurd hd (by simp)

theorem getClass_sound (h : s.Sound) {c : ClassId} (hc : c < s.classes.size) :
    (s.getClass c).Sound s c := by
  have hk := Array.getElem?_eq_getElem hc
  rw [getClass, hk]
  exact h.classes c _ hk

/-- The class of a draft has every own slot and every slot of its bases, each name once. -/
theorem classOfDraft_sound (h : s.Sound) {d : ClassDraft} (hd : d.Sound s) (env : FrameId)
    (macros : MacroTableId) : (s.classOfDraft d env macros).Sound s s.classes.size := by
  have hinherited := mem_firstByName_names (d.own.map Slot.name)
    (d.bases.flatMap fun b => (s.getClass b).slots)
  have hnames : ((s.classOfDraft d env macros).slots.map Slot.name) =
      (firstByName (d.own.map Slot.name) (d.bases.flatMap fun b => (s.getClass b).slots)).map
      Slot.name ++
        d.own.map Slot.name := List.map_append
  refine ⟨hd.bases, ?_, fun b hb n hn => ?_, fun c => ?_, fun slot hslot v hv => ?_⟩
  · rw [hnames, List.nodup_append]
    refine ⟨nodup_firstByName _ _, hd.own_nodup, fun n hn m hm => ?_⟩
    rintro rfl
    exact ((hinherited n).1 hn).2 hm
  · rw [hnames, List.mem_append]
    by_cases hown : n ∈ d.own.map Slot.name
    · exact .inr hown
    · refine .inl ((hinherited n).2 ⟨?_, hown⟩)
      obtain ⟨slot, hslot, rfl⟩ := List.mem_map.1 hn
      exact List.mem_map_of_mem (List.mem_flatMap.2 ⟨b, hb, hslot⟩)
  · show c ∈ s.classes.size :: (d.bases.flatMap fun b => (s.getClass b).lineage).eraseDups ↔ _
    rw [List.mem_cons, List.mem_eraseDups, List.mem_flatMap]
    rfl
  · rcases List.mem_append.1 hslot with hslot | hslot
    · obtain ⟨b, hb, hslot⟩ := List.mem_flatMap.1 (firstByName_subset _ _ slot hslot)
      exact (getClass_sound h (hd.bases b hb)).defaults slot hslot v hv
    · exact hd.defaults slot hslot v hv

/-- What a definition binds refers to the new class, and its readers to own slots of it. -/
theorem knows_bindings {d : ClassDraft} {env : FrameId} {macros : MacroTableId} :
    ∀ b ∈ d.bindings s.classes.size, (s.addClass (s.classOfDraft d env macros)).1.Knows b.2 := by
  have hclass : (s.addClass (s.classOfDraft d env macros)).1.getClass s.classes.size =
      s.classOfDraft d env macros := by
    rw [getClass, addClass, Array.getElem?_push_size]
    rfl
  have hsize : s.classes.size < (s.addClass (s.classOfDraft d env macros)).1.classes.size := by
    simp [addClass]
  intro b hb
  simp only [ClassDraft.bindings, List.mem_cons, List.mem_map] at hb
  rcases hb with rfl | rfl | rfl | ⟨slot, hslot, rfl⟩
  · exact hsize
  · exact hsize
  · exact hsize
  · refine ⟨hsize, ?_⟩
    rw [hclass]
    exact List.mem_map_of_mem (List.mem_append_right _ hslot)

end State
end SlotLisp
