import SlotLisp.Proofs.Reading.RoundTrip
import SlotLisp.Session
import Mathlib.Data.List.Forall2
import Mathlib.Data.List.Nodup
import Mathlib.Data.List.Perm.Subperm

/-!
Equality of plain data: names, integers, strings, and what lists, vectors, dotted lists and mappings
make of them. On them it is an equivalence, although a list may equal a vector and mappings are
compared without regard to the order of their entries. A row of them is therefore equal throughout
as soon as neighbours are.
-/

namespace SlotLisp
namespace Value

/-- Data without numbers other than integers and without anything that refers to a state. What can
be a key of a mapping is itself no sequence and no mapping. -/
inductive Plain : Value → Prop
  | atom {v : Value} (h : IsKey v) : Plain v
  | items {v : Value} {xs : List Value} (hv : v.items? = some xs) (h : ∀ x ∈ xs, Plain x) : Plain v
  | dotted {xs : List Value} {t : Value} (h : ∀ x ∈ xs, Plain x) (ht : Plain t) :
      Plain (.dotted xs t)
  | map {es : List (Value × Value)} (hkey : ∀ e ∈ es, IsKey e.1)
      (hdistinct : (es.map Prod.fst).Nodup) (h : ∀ e ∈ es, Plain e.2) : Plain (.map es)

variable {same : Ref → Ref → Bool} {v w : Value} {xs ys : List Value} {es fs : List (Value × Value)}

/-! ## The parts of plain data -/

theorem IsKey.items?_eq_none (h : IsKey v) : v.items? = none := by
  rcases h with rfl | ⟨s, rfl⟩ | ⟨n, rfl⟩ | ⟨t, rfl⟩ <;> rfl

theorem Plain.of_items (h : Plain v) (hv : v.items? = some xs) : ∀ x ∈ xs, Plain x := by
  cases h with
  | atom hkey => exact absurd hv (by simp [hkey.items?_eq_none])
  | items hys h => exact Option.some.inj (hys.symm.trans hv) ▸ h
  | dotted _ _ => exact absurd hv (by simp [items?])
  | map _ _ _ => exact absurd hv (by simp [items?])

@[simp] theorem plain_nil : Plain .nil := .atom (by simp [IsKey])

@[simp] theorem plain_symbol (n : Symbol) : Plain (.symbol n) := .atom (by simp [IsKey])

@[simp] theorem plain_int (n : Int) : Plain (.int n) := .atom (by simp [IsKey])

@[simp] theorem plain_str (t : Text) : Plain (.str t) := .atom (by simp [IsKey])

@[simp] theorem plain_list_iff : Plain (.list xs) ↔ ∀ x ∈ xs, Plain x :=
  ⟨fun h => h.of_items rfl, .items rfl⟩

@[simp] theorem plain_vector_iff : Plain (.vector xs) ↔ ∀ x ∈ xs, Plain x :=
  ⟨fun h => h.of_items rfl, .items rfl⟩

@[simp] theorem plain_dotted_iff {t : Value} :
    Plain (.dotted xs t) ↔ (∀ x ∈ xs, Plain x) ∧ Plain t := by
  refine ⟨fun h => ?_, fun h => .dotted h.1 h.2⟩
  cases h with
  | atom hkey => simp [IsKey] at hkey
  | items hv _ => simp [items?] at hv
  | dotted h ht => exact ⟨h, ht⟩

theorem plain_map_iff :
    Plain (.map es) ↔ (∀ e ∈ es, IsKey e.1) ∧ (es.map Prod.fst).Nodup ∧ ∀ e ∈ es, Plain e.2 := by
  refine ⟨fun h => ?_, fun h => .map h.1 h.2.1 h.2.2⟩
  cases h with
  | atom hkey => simp [IsKey] at hkey
  | items hv _ => simp [items?] at hv
  | map hkey hdistinct h => exact ⟨hkey, hdistinct, h⟩

/-- Whatever can be a key of a mapping is an atom. -/
theorem Plain.isKey (h : Plain v) (hv : v.hashable = true) : IsKey v := by
  cases h with
  | atom hkey => exact hkey
  | items hxs _ => cases v <;> simp_all [items?, hashable]
  | dotted _ _ => simp [hashable] at hv
  | map _ _ _ => simp [hashable] at hv

/-- Plain data have no marks. -/
theorem Plain.sameMark_eq_false (h : Plain v) (w : Value) : sameMark v w = false := by
  cases h with
  | atom hkey => rcases hkey with rfl | ⟨s, rfl⟩ | ⟨n, rfl⟩ | ⟨t, rfl⟩ <;> simp [sameMark]
  | items hv _ => cases v <;> simp_all [items?, sameMark]
  | dotted _ _ => simp [sameMark]
  | map _ _ _ => simp [sameMark]

/-! ## Mappings that are made of plain data -/

theorem IsKey.sameKey_iff (hv : IsKey v) (hw : IsKey w) : sameKey v w = true ↔ v = w := by
  refine ⟨hv.eq_of_sameKey hw, ?_⟩
  rintro rfl
  rcases hv with rfl | ⟨s, rfl⟩ | ⟨n, rfl⟩ | ⟨t, rfl⟩ <;>
    simp [sameKey, sameMark, equalBy, number?, Number.equal]

/-- A known key stays in its place, and a new one is added at the end. -/
theorem keys_insertEntry (hv : IsKey v) (hkey : ∀ e ∈ es, IsKey e.1) (w : Value) :
    (insertEntry v w es).map Prod.fst = es.map Prod.fst ∨
      v ∉ es.map Prod.fst ∧ (insertEntry v w es).map Prod.fst = es.map Prod.fst ++ [v] := by
  induction es with
  | nil => exact .inr ⟨by simp, rfl⟩
  | cons e es ih =>
      obtain ⟨he, hes⟩ := List.forall_mem_cons.1 hkey
      rw [insertEntry]
      split
      next => exact .inl rfl
      next hnew =>
        rw [hv.sameKey_iff he] at hnew
        obtain hkeys | ⟨hnone, hkeys⟩ := ih hes
        · exact .inl (by rw [List.map_cons, hkeys, List.map_cons])
        · exact .inr ⟨by simpa [hnew] using hnone, by
            rw [List.map_cons, hkeys, List.map_cons, List.cons_append]⟩

theorem mem_insertEntry {e : Value × Value} (h : e ∈ insertEntry v w es) :
    e ∈ es ∨ (e.1 = v ∨ e.1 ∈ es.map Prod.fst) ∧ e.2 = w := by
  induction es with
  | nil => exact .inr (by simp_all [insertEntry])
  | cons d es ih =>
      rw [insertEntry] at h
      split at h
      · obtain rfl | he := List.mem_cons.1 h
        · exact .inr ⟨.inr List.mem_cons_self, rfl⟩
        · exact .inl (List.mem_cons_of_mem d he)
      · obtain rfl | he := List.mem_cons.1 h
        · exact .inl List.mem_cons_self
        · exact (ih he).imp (List.mem_cons_of_mem d) fun he =>
            ⟨he.1.imp_right (List.mem_cons_of_mem d.1), he.2⟩

theorem plain_insertEntry (h : Plain (.map es)) (hv : IsKey v) (hw : Plain w) :
    Plain (.map (insertEntry v w es)) := by
  obtain ⟨hkey, hdistinct, hes⟩ := plain_map_iff.1 h
  refine .map (fun e he => ?_) ?_ fun e he => ?_
  · obtain he | ⟨rfl | he, -⟩ := mem_insertEntry he
    · exact hkey e he
    · exact hv
    · obtain ⟨d, hd, hde⟩ := List.mem_map.1 he
      exact hde ▸ hkey d hd
  · obtain hkeys | ⟨hnew, hkeys⟩ := keys_insertEntry hv hkey w
    · exact hkeys ▸ hdistinct
    · rw [hkeys, ← List.concat_eq_append]
      exact List.Nodup.concat hnew hdistinct
  · obtain he | ⟨-, rfl⟩ := mem_insertEntry he
    · exact hes e he
    · exact hw

theorem plain_mapOfPairs (h : Plain (.map es)) (hxs : ∀ x ∈ xs, Plain x)
    (hv : mapOfPairs es xs = .ok v) :
    Plain v := by
  fun_induction mapOfPairs es xs with
  | case1 es => exact Except.ok.inj hv ▸ h
  | case2 es x => exact Except.ok.inj hv ▸ h
  | case3 es k w r hk ih =>
      obtain ⟨hkey, hw, hr⟩ : Plain k ∧ Plain w ∧ ∀ x ∈ r, Plain x := by simpa using hxs
      exact ih (plain_insertEntry h (hkey.isKey hk) hw) hr hv
  | case4 es k w r hk => exact absurd hv (by simp)

/-- A mapping that is made of plain data is plain, and so is what it has under its keys. -/
theorem plain_ofPairs (hxs : ∀ x ∈ xs, Plain x) (hv : ofPairs xs = .ok v) : Plain v :=
  plain_mapOfPairs (.map (by simp) (by simp) (by simp)) hxs hv

/-! ## What equality of plain data comes down to -/

theorem equalBy_atom_iff (hv : IsKey v) (hw : Plain w) : v.equalBy same w = true ↔ v = w := by
  cases hw with
  | atom hkey =>
      rcases hv with rfl | ⟨s, rfl⟩ | ⟨n, rfl⟩ | ⟨t, rfl⟩ <;>
        rcases hkey with rfl | ⟨s', rfl⟩ | ⟨n', rfl⟩ | ⟨t', rfl⟩ <;>
        simp [equalBy, number?, Number.equal]
  | items hxs _ =>
      rcases hv with rfl | ⟨s, rfl⟩ | ⟨n, rfl⟩ | ⟨t, rfl⟩ <;> cases w <;>
        simp_all [items?, equalBy, number?]
  | dotted _ _ => rcases hv with rfl | ⟨s, rfl⟩ | ⟨n, rfl⟩ | ⟨t, rfl⟩ <;> simp [equalBy, number?]
  | map _ _ _ => rcases hv with rfl | ⟨s, rfl⟩ | ⟨n, rfl⟩ | ⟨t, rfl⟩ <;> simp [equalBy, number?]

/-- Rows of plain data are equal place by place. -/
theorem itemsEqualBy_iff (h : ∀ x ∈ xs, Plain x) :
    itemsEqualBy same xs ys = true ↔ List.Forall₂ (fun x y => x.equalBy same y = true) xs ys := by
  induction xs generalizing ys with
  | nil => simp [itemsEqualBy]
  | cons x xs ih =>
      obtain ⟨hx, hxs⟩ := List.forall_mem_cons.1 h
      cases ys with
      | nil => simp [itemsEqualBy]
      | cons y ys => simp [itemsEqualBy, hx.sameMark_eq_false, ih hxs]

theorem equalBy_items_iff (h : ∀ x ∈ xs, Plain x) (hv : v.items? = some xs) :
    v.equalBy same w = true ↔
      ∃ ys, w.items? = some ys ∧ List.Forall₂ (fun x y => x.equalBy same y = true) xs ys := by
  have hitems : v.equalBy same w = (w.items?.elim false (itemsEqualBy same xs)) := by
    cases v with
    | list zs => obtain rfl := Option.some.inj hv; cases hw : w.items? <;> simp [equalBy, hw]
    | vector zs => obtain rfl := Option.some.inj hv; cases hw : w.items? <;> simp [equalBy, hw]
    | _ => exact absurd hv (by simp [items?])
  rw [hitems]
  cases w.items? with
  | none => simp
  | some ys => simp [itemsEqualBy_iff h]

theorem equalBy_dotted_iff {t : Value} (h : Plain (.dotted xs t)) :
    (Value.dotted xs t).equalBy same w = true ↔
      ∃ ys u, w = .dotted ys u ∧ List.Forall₂ (fun x y => x.equalBy same y = true) xs ys ∧
        t.equalBy same u = true := by
  obtain ⟨hxs, ht⟩ := plain_dotted_iff.1 h
  cases w with
  | dotted ys u => simp [equalBy, ht.sameMark_eq_false, itemsEqualBy_iff hxs]
  | _ => simp [equalBy]

/-- Entries of plain data are equal if their keys are the same and their values equal. -/
theorem entriesEqualBy_iff (hkey : ∀ e ∈ es, IsKey e.1) (h : ∀ e ∈ es, Plain e.2)
    (hfs : ∀ f ∈ fs, IsKey f.1) :
    entriesEqualBy same es fs = true ↔
      ∀ e ∈ es, ∃ f ∈ fs, e.1 = f.1 ∧ e.2.equalBy same f.2 = true := by
  induction es with
  | nil => simp [entriesEqualBy]
  | cons e es ih =>
      obtain ⟨k, v⟩ := e
      obtain ⟨hk, hkeys⟩ := List.forall_mem_cons.1 hkey
      obtain ⟨hv, hvs⟩ := List.forall_mem_cons.1 h
      have hentry : ∀ f ∈ fs, (sameMark k f.1 || k.equalBy same f.1) = true ↔ k = f.1 :=
          fun f hf => by
        rw [(Plain.atom hk).sameMark_eq_false, Bool.false_or,
          equalBy_atom_iff hk (.atom (hfs f hf))]
      simp only [entriesEqualBy, Bool.and_eq_true, List.any_eq_true, hv.sameMark_eq_false,
        Bool.false_or,
        ih hkeys hvs, List.forall_mem_cons]
      refine and_congr_left fun _ => exists_congr fun f => and_congr_right fun hf =>
        and_congr_left fun _ => ?_
      simpa using hentry f hf

/-- Mappings are equal if there are as many entries in both, and for each of one an equal one in the
other. -/
theorem equalBy_map_iff (h : Plain (.map es)) (hw : Plain w) :
    (Value.map es).equalBy same w = true ↔
      ∃ fs, w = .map fs ∧ es.length = fs.length ∧
        ∀ e ∈ es, ∃ f ∈ fs, e.1 = f.1 ∧ e.2.equalBy same f.2 = true := by
  obtain ⟨hkey, -, hes⟩ := plain_map_iff.1 h
  cases w with
  | map fs => simp [equalBy, entriesEqualBy_iff hkey hes (plain_map_iff.1 hw).1]
  | _ => simp [equalBy]

/-! ## An equivalence -/

theorem Plain.equalBy_refl (h : Plain v) : v.equalBy same v = true := by
  induction h with
  | atom hkey => exact (equalBy_atom_iff hkey (.atom hkey)).2 rfl
  | items hv h ih => exact (equalBy_items_iff h hv).2 ⟨_, hv, List.forall₂_same.2 ih⟩
  | dotted h ht ih iht =>
      exact (equalBy_dotted_iff (.dotted h ht)).2 ⟨_, _, rfl, List.forall₂_same.2 ih, iht⟩
  | map hkey hdistinct h ih =>
      have hmap := Plain.map hkey hdistinct h
      exact (equalBy_map_iff hmap hmap).2 ⟨_, rfl, rfl, fun e he => ⟨e, he, rfl, ih e he⟩⟩

/-- Equality of rows can be turned around where equality of their members can. -/
theorem itemsEqual_symm {R : Value → Value → Prop} (hsymm : ∀ x ∈ xs, ∀ y, Plain y → R x y → R y x)
    (hys : ∀ y ∈ ys, Plain y) (h : List.Forall₂ R xs ys) : List.Forall₂ R ys xs := by
  induction h with
  | nil => exact .nil
  | cons hxy _ ih =>
      obtain ⟨hx, hxs⟩ := List.forall_mem_cons.1 hsymm
      obtain ⟨hy, hys⟩ := List.forall_mem_cons.1 hys
      exact .cons (hx _ hy hxy) (ih hxs hys)

/-- If all keys of one mapping are keys of another with as many entries, all keys of the other are
keys of the one. -/
theorem exists_entry_of_length_eq (hes : (es.map Prod.fst).Nodup) (hlength : es.length = fs.length)
    (h : ∀ e ∈ es, ∃ f ∈ fs, e.1 = f.1) : ∀ f ∈ fs, ∃ e ∈ es, e.1 = f.1 := by
  have hsub : es.map Prod.fst ⊆ fs.map Prod.fst := by
    intro k hk
    obtain ⟨e, he, rfl⟩ := List.mem_map.1 hk
    obtain ⟨f, hf, hef⟩ := h e he
    exact List.mem_map.2 ⟨f, hf, hef.symm⟩
  have hperm := (hes.subperm hsub).perm_of_length_le (by simp [hlength])
  exact fun f hf => List.mem_map.1 (hperm.mem_iff.2 (List.mem_map_of_mem hf))

/-- Equality of mappings can be turned around where equality of what they have under their keys
can. -/
theorem entriesEqual_symm {R : Value → Value → Prop}
    (hsymm : ∀ e ∈ es, ∀ w, Plain w → R e.2 w → R w e.2) (hes : (es.map Prod.fst).Nodup)
    (hfs : Plain (.map fs)) (hlength : es.length = fs.length)
    (h : ∀ e ∈ es, ∃ f ∈ fs, e.1 = f.1 ∧ R e.2 f.2) :
    ∀ f ∈ fs, ∃ e ∈ es, f.1 = e.1 ∧ R f.2 e.2 := by
  obtain ⟨-, hdistinct, hplain⟩ := plain_map_iff.1 hfs
  intro f hf
  have hkeys : ∀ e ∈ es, ∃ f ∈ fs, e.1 = f.1 := fun e he => (h e he).imp fun f hf => ⟨hf.1, hf.2.1⟩
  obtain ⟨e, he, hkey⟩ := exists_entry_of_length_eq hes hlength hkeys f hf
  obtain ⟨g, hg, heg, hval⟩ := h e he
  -- The entry that is equal to `e` has the key of `f`, so it is `f`.
  obtain rfl : g = f := List.inj_on_of_nodup_map hdistinct hg hf (heg.symm.trans hkey)
  exact ⟨e, he, hkey.symm, hsymm e he g.2 (hplain g hg) hval⟩

theorem Plain.equalBy_symm (h : Plain v) (hw : Plain w) (heq : v.equalBy same w = true) :
    w.equalBy same v = true := by
  induction h generalizing w with
  | atom hkey =>
      obtain rfl := (equalBy_atom_iff hkey hw).1 heq
      exact heq
  | items hv h ih =>
      obtain ⟨ys, hys, heq⟩ := (equalBy_items_iff h hv).1 heq
      exact (equalBy_items_iff (hw.of_items hys) hys).2
        ⟨_, hv, itemsEqual_symm (fun x hx _ hy => ih x hx hy) (hw.of_items hys) heq⟩
  | dotted h ht ih iht =>
      obtain ⟨ys, u, rfl, heq, htail⟩ := (equalBy_dotted_iff (.dotted h ht)).1 heq
      obtain ⟨hys, hu⟩ := plain_dotted_iff.1 hw
      exact (equalBy_dotted_iff hw).2
        ⟨_, _, rfl, itemsEqual_symm (fun x hx _ hy => ih x hx hy) hys heq, iht hu htail⟩
  | map hkey hdistinct h ih =>
      have hmap := Plain.map hkey hdistinct h
      obtain ⟨fs, rfl, hlength, heq⟩ := (equalBy_map_iff hmap hw).1 heq
      have hsymm := entriesEqual_symm (R := fun x y => x.equalBy same y = true)
        (fun e he _ hx => ih e he hx)
        hdistinct hw hlength heq
      exact (equalBy_map_iff hw hmap).2 ⟨_, rfl, hlength.symm, hsymm⟩

/-- Equalities of rows can be put together where those of their members can. -/
theorem itemsEqual_trans {R : Value → Value → Prop} {zs : List Value}
    (htrans : ∀ x ∈ xs, ∀ y, Plain y → ∀ z, Plain z → R x y → R y z → R x z)
    (hys : ∀ y ∈ ys, Plain y) (hzs : ∀ z ∈ zs, Plain z) (hxy : List.Forall₂ R xs ys)
    (hyz : List.Forall₂ R ys zs) :
    List.Forall₂ R xs zs := by
  induction hxy generalizing zs with
  | nil => exact hyz
  | cons hxy _ ih =>
      cases hyz with
      | cons hyz hyzs =>
          obtain ⟨hx, hxs⟩ := List.forall_mem_cons.1 htrans
          obtain ⟨hy, hys⟩ := List.forall_mem_cons.1 hys
          obtain ⟨hz, hzs⟩ := List.forall_mem_cons.1 hzs
          exact .cons (hx _ hy _ hz hxy hyz) (ih hxs hys hzs hyzs)

theorem Plain.equalBy_trans {u : Value} (h : Plain v) (hw : Plain w) (hu : Plain u)
    (hvw : v.equalBy same w = true) (hwu : w.equalBy same u = true) : v.equalBy same u = true := by
  induction h generalizing w u with
  | atom hkey =>
      obtain rfl := (equalBy_atom_iff hkey hw).1 hvw
      exact hwu
  | items hv h ih =>
      obtain ⟨ys, hys, hxy⟩ := (equalBy_items_iff h hv).1 hvw
      obtain ⟨zs, hzs, hyz⟩ := (equalBy_items_iff (hw.of_items hys) hys).1 hwu
      exact (equalBy_items_iff h hv).2 ⟨zs, hzs, itemsEqual_trans
        (fun x hx _ hy _ hz => ih x hx hy hz) (hw.of_items hys) (hu.of_items hzs) hxy hyz⟩
  | dotted h ht ih iht =>
      have hdotted := Plain.dotted h ht
      obtain ⟨ys, tail, rfl, hxy, htail⟩ := (equalBy_dotted_iff hdotted).1 hvw
      obtain ⟨zs, tail', rfl, hyz, htail'⟩ := (equalBy_dotted_iff hw).1 hwu
      obtain ⟨hys, hplain⟩ := plain_dotted_iff.1 hw
      obtain ⟨hzs, hplain'⟩ := plain_dotted_iff.1 hu
      exact (equalBy_dotted_iff hdotted).2 ⟨zs, tail', rfl, itemsEqual_trans
        (fun x hx _ hy _ hz => ih x hx hy hz) hys hzs hxy hyz, iht hplain hplain' htail htail'⟩
  | map hkey hdistinct h ih =>
      have hmap := Plain.map hkey hdistinct h
      obtain ⟨fs, rfl, hlength, hef⟩ := (equalBy_map_iff hmap hw).1 hvw
      obtain ⟨gs, rfl, hlength', hfg⟩ := (equalBy_map_iff hw hu).1 hwu
      refine (equalBy_map_iff hmap hu).2 ⟨gs, rfl, hlength.trans hlength', fun e he => ?_⟩
      obtain ⟨f, hf, hkey, hval⟩ := hef e he
      obtain ⟨g, hg, hkey', hval'⟩ := hfg f hf
      have hplain := (plain_map_iff.1 hw).2.2 f hf
      have hplain' := (plain_map_iff.1 hu).2.2 g hg
      exact ⟨g, hg, hkey.trans hkey', ih e he hplain hplain' hval hval'⟩

end Value

namespace State

variable {s : State} {args : List Value}

/-- Where each of a row of plain data is equal to the one behind it, the first is equal to all the
others. -/
theorem allEqual_cons_iff {v : Value} (hv : v.Plain) (h : ∀ w ∈ args, w.Plain) :
    s.allEqual (v :: args) = true ↔ ∀ w ∈ args, s.equal v w = true := by
  induction args generalizing v with
  | nil => simp [allEqual]
  | cons w args ih =>
      obtain ⟨hw, hargs⟩ := List.forall_mem_cons.1 h
      have hcons : s.allEqual (v :: w :: args) = (s.equal v w && s.allEqual (w :: args)) := rfl
      rw [hcons, Bool.and_eq_true, ih hw hargs, List.forall_mem_cons]
      refine and_congr_right fun hvw => forall₂_congr fun u hu => ?_
      exact ⟨hv.equalBy_trans hw (hargs u hu) hvw,
        hw.equalBy_trans hv (hargs u hu) (hv.equalBy_symm hw hvw)⟩

theorem allEqual_iff (h : ∀ v ∈ args, v.Plain) :
    s.allEqual args = true ↔ ∀ v ∈ args, ∀ w ∈ args, s.equal v w = true := by
  cases args with
  | nil => simp [allEqual]
  | cons v args =>
      obtain ⟨hv, hargs⟩ := List.forall_mem_cons.1 h
      rw [allEqual_cons_iff hv hargs]
      constructor
      · intro hall x hx y hy
        have hfirst : ∀ w ∈ v :: args, s.equal v w = true :=
          List.forall_mem_cons.2 ⟨hv.equalBy_refl, hall⟩
        exact (h x hx).equalBy_trans hv (h y hy) (hv.equalBy_symm (h x hx) (hfirst x hx))
          (hfirst y hy)
      · exact fun hall w hw => hall v List.mem_cons_self w (List.mem_cons_of_mem v hw)

theorem allEqual_perm {others : List Value} (h : ∀ v ∈ args, v.Plain) (horder : others.Perm args) :
    s.allEqual others = s.allEqual args := by
  have hothers : ∀ v ∈ others, v.Plain := fun v hv => h v (horder.mem_iff.1 hv)
  rw [Bool.eq_iff_iff, allEqual_iff h, allEqual_iff hothers]
  simp only [horder.mem_iff]

/-- Equality is an equivalence on plain data. The builtin function under either of its names answers
whether all such data that it is called with are equal to one another, in whatever order they come,
and changes nothing. -/
theorem equality_of_plain (s : State) {k : MacroTableId} {n : Symbol} {f : Function}
    (hf : (n, f) ∈ builtinBindings k) (hn : n = ⟨"="⟩ ∨ n = ⟨"eq"⟩) :
    (Equivalence fun v w : {v : Value // v.Plain} => s.equal v w = true) ∧
    ∀ (eval : Evaluator) (env : FrameId) (macros : MacroTableId)
      (args : List Value), (∀ v ∈ args, v.Plain) →
      ∃ b, (b = true ↔ ∀ v ∈ args, ∀ w ∈ args, s.equal v w = true) ∧
        ∀ others, others.Perm args →
          (Eval.apply eval (.function f) env macros others).outcome s =
            some (.ok (.ofBool b), s) := by
  refine ⟨⟨fun v => v.2.equalBy_refl, fun {v w} => v.2.equalBy_symm w.2, fun {u v w} =>
    u.2.equalBy_trans v.2 w.2⟩,
    fun eval env macros args hargs =>
      ⟨s.allEqual args, allEqual_iff hargs, fun others horder => ?_⟩⟩
  obtain rfl : f = .builtin .equals := by
    rcases hn with rfl | rfl <;> simpa [builtinBindings] using hf
  rw [← allEqual_perm hargs horder, Eval.apply]
  rfl

/-- A list and a vector of equal items, among them mappings with their entries in different
orders. -/
theorem equality_of_nested :
    let s := (Session.full (State.start Settings.standard) none).1
    let a : Value × Value := (.symbol ⟨"a"⟩, .list [.int 1, .nil])
    let b : Value × Value := (.int 2, .dotted [.int 3] (.str ⟨[]⟩))
    let v : Value := .list [.symbol ⟨"p"⟩, .map [a, b]]
    let w : Value := .vector [.symbol ⟨"p"⟩, .map [b, a]]
    let answer (args : List Value) :=
      (Eval.apply (evaluate 0) (.function (.builtin .equals)) 0 0 args).outcome s
    answer [v, w, v] = some (.ok (.symbol .yes), s) ∧
    answer [w, v, v] = some (.ok (.symbol .yes), s) := by
  intro s a b v w answer
  have hab : Value.ofPairs [a.1, a.2, b.1, b.2] = .ok (.map [a, b]) := rfl
  have hba : Value.ofPairs [b.1, b.2, a.1, a.2] = .ok (.map [b, a]) := rfl
  have hab := Value.plain_ofPairs (by simp [a, b]) hab
  have hba := Value.plain_ofPairs (by simp [a, b]) hba
  have hargs : ∀ x ∈ [v, w, v], x.Plain := by simp [v, w, hab, hba]
  have hf : ((⟨"="⟩ : Symbol), Function.builtin .equals) ∈ builtinBindings 0 := by decide
  obtain ⟨c, hc, happly⟩ := (equality_of_plain s hf (.inl rfl)).2 (evaluate 0) 0 0 [v, w, v] hargs
  obtain rfl : c = true := hc.2 ((allEqual_iff hargs).1 rfl)
  exact ⟨happly _ (.refl _), happly _ (.swap v w [v])⟩

end State
end SlotLisp
