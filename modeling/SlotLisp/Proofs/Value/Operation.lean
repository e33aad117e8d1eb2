import SlotLisp.Eval.Builtin
import SlotLisp.Eval.MacroCall
import SlotLisp.Eval.Parameters
import SlotLisp.Eval.SpecialForm
import SlotLisp.Eval.Template
import SlotLisp.Proofs.Value.Leaf

/-!
Operations on values and forms bring in no references: whatever holds for the references of what
they are given holds for those of what they answer.
-/

namespace SlotLisp

variable {p : Leaf → Prop}

/-! ## Answers of computations without a state -/

theorem bind_eq_ok {ε α β : Type} {x : Except ε α} {f : α → Except ε β} {b : β}
    (h : (x >>= f) = .ok b) : ∃ a, x = .ok a ∧ f a = .ok b := by
  cases x with
  | error e => exact absurd h (by simp [bind, Except.bind])
  | ok a => exact ⟨a, rfl, h⟩

theorem bind_eq_error {ε α β : Type} {x : Except ε α} {f : α → Except ε β} {e : ε}
    (h : (x >>= f) = .error e) : x = .error e ∨ ∃ a, x = .ok a ∧ f a = .error e := by
  cases x with
  | error e' => exact .inl (congrArg Except.error (Except.error.inj h))
  | ok a => exact .inr ⟨a, rfl, h⟩

theorem map_eq_ok {ε α β : Type} {x : Except ε α} {f : α → β} {b : β}
    (h : (f <$> x) = .ok b) : ∃ a, x = .ok a ∧ f a = b := by
  cases x with
  | error e => exact absurd h (by simp [Functor.map, Except.map])
  | ok a => exact ⟨a, rfl, Except.ok.inj h⟩

/-- What holds for every answer of `f` holds for all answers together. -/
theorem forall_mapM {ε α β : Type} {P : β → Prop} {f : α → Except ε β} {xs : List α} {ys : List β}
    (h : xs.mapM f = .ok ys) (hf : ∀ x ∈ xs, ∀ y, f x = .ok y → P y) : ∀ y ∈ ys, P y := by
  induction xs generalizing ys with
  | nil =>
      obtain rfl : [] = ys := Except.ok.inj h
      simp
  | cons x xs ih =>
      rw [List.mapM_cons] at h
      obtain ⟨y, hy, h⟩ := bind_eq_ok h
      obtain ⟨zs, hzs, h⟩ := bind_eq_ok h
      obtain rfl := Except.ok.inj h
      exact List.forall_mem_cons.2 ⟨hf x (by simp) y hy, ih hzs fun z hz => hf z (by simp [hz])⟩

namespace Value

/-! ## Parts -/

theorem all_of_items? {v : Value} {xs : List Value} (h : v.items? = some xs) (hv : v.All p) :
    ∀ x ∈ xs, x.All p := by
  cases v with
  | list ys => obtain rfl := Option.some.inj h; exact all_list.1 hv
  | vector ys => obtain rfl := Option.some.inj h; exact all_vector.1 hv
  | _ => exact absurd h (by simp [items?])

theorem all_elements {v : Value} {xs : List Value} (h : v.elements = .ok xs) (hv : v.All p) :
    ∀ x ∈ xs, x.All p := by
  cases v with
  | nil => obtain rfl := Except.ok.inj h; simp
  | str t => obtain rfl := Except.ok.inj h; simp
  | bytes g d => obtain rfl := Except.ok.inj h; simp
  | list ys => obtain rfl := Except.ok.inj h; exact all_list.1 hv
  | vector ys => obtain rfl := Except.ok.inj h; exact all_vector.1 hv
  | dotted ys t =>
      obtain rfl := Except.ok.inj h
      simpa using hv
  | copies n ys t =>
      obtain rfl := Except.ok.inj h
      intro x hx
      obtain ⟨l, hl, hx⟩ := List.mem_flatten.1 hx
      obtain rfl := List.eq_of_mem_replicate hl
      simp only [List.mem_cons, List.not_mem_nil, or_false] at hx
      rcases hx with rfl | rfl
      · exact all_list.2 (all_copies.1 hv).1
      · exact (all_copies.1 hv).2
  | map es =>
      obtain rfl := Except.ok.inj h
      intro x hx
      obtain ⟨e, he, rfl⟩ := List.mem_map.1 hx
      exact (all_map.1 hv e he).1
  | _ => exact absurd h (by simp [elements])

/-! ## Lists -/

theorem all_cons {v w : Value} (hv : v.All p) (hw : w.All p) : (v.cons w).All p := by
  unfold cons
  split <;> simp_all

theorem all_car {v w : Value} (h : v.car = .ok w) (hv : v.All p) : w.All p := by
  unfold car at h
  split at h
  next x xs => obtain rfl := Except.ok.inj h; exact all_list.1 hv _ (by simp)
  next x xs => obtain rfl := Except.ok.inj h; exact all_vector.1 hv _ (by simp)
  next x xs t => obtain rfl := Except.ok.inj h; exact (all_dotted.1 hv).1 _ (by simp)
  next n xs t =>
    split at h
    next => exact absurd h (by simp)
    next =>
      obtain rfl := Except.ok.inj h
      cases xs with
      | nil => exact trivial
      | cons x xs => exact (all_copies.1 hv).1 _ (by simp)
  next => obtain rfl := Except.ok.inj h; exact trivial

theorem all_cdr {v w : Value} (h : v.cdr = .ok w) (hv : v.All p) : w.All p := by
  unfold cdr at h
  split at h
  next => obtain rfl := Except.ok.inj h; simp_all
  next => obtain rfl := Except.ok.inj h; simp_all
  next => obtain rfl := Except.ok.inj h; simp_all
  next => obtain rfl := Except.ok.inj h; exact (all_dotted.1 hv).2
  next => exact absurd h (by simp)
  next => obtain rfl := Except.ok.inj h; exact trivial

/-! ## Mappings -/

theorem all_insertEntry {k v : Value} {es : List (Value × Value)} (hk : k.All p) (hv : v.All p)
    (hes : ∀ e ∈ es, e.1.All p ∧ e.2.All p) :
    ∀ e ∈ Value.insertEntry k v es, e.1.All p ∧ e.2.All p := by
  induction es with
  | nil => simp [Value.insertEntry, hk, hv]
  | cons d ds ih =>
      have hd := hes d (by simp)
      have hds := ih fun e he => hes e (by simp [he])
      rw [Value.insertEntry]
      split
      · exact List.forall_mem_cons.2 ⟨⟨hd.1, hv⟩, fun e he => hes e (by simp [he])⟩
      · exact List.forall_mem_cons.2 ⟨hd, hds⟩

theorem all_mapOfPairs {es : List (Value × Value)} {xs : List Value} {v : Value}
    (h : mapOfPairs es xs = .ok v) (hes : ∀ e ∈ es, e.1.All p ∧ e.2.All p)
    (hxs : ∀ x ∈ xs, x.All p) : v.All p := by
  fun_induction mapOfPairs es xs with
  | case1 es => obtain rfl := Except.ok.inj h; exact all_map.2 hes
  | case2 es x => obtain rfl := Except.ok.inj h; exact all_map.2 hes
  | case3 es k w r hk ih =>
      exact ih h (all_insertEntry (hxs k (by simp)) (hxs w (by simp)) hes)
        (fun x hx => hxs x (by simp [hx]))
  | case4 es k w r hk => exact absurd h (by simp)

theorem all_ofPairs {xs : List Value} {v : Value} (h : ofPairs xs = .ok v)
    (hxs : ∀ x ∈ xs, x.All p) :
    v.All p :=
  all_mapOfPairs h (by simp) hxs

/-! ## Products -/

theorem all_replicate_flatten {n : Nat} {xs : List Value} (h : ∀ x ∈ xs, x.All p) :
    ∀ x ∈ (List.replicate n xs).flatten, x.All p := by
  intro x hx
  obtain ⟨l, hl, hx⟩ := List.mem_flatten.1 hx
  rw [List.eq_of_mem_replicate hl] at hx
  exact h x hx

theorem all_pairCopies {n : Nat} {xs : List Value} {t : Value} (hxs : ∀ x ∈ xs, x.All p)
    (ht : t.All p) : (pairCopies n xs t).All p := by
  unfold pairCopies
  split
  · simp
  split
  · exact all_dotted.2 ⟨hxs, ht⟩
  · exact all_copies.2 ⟨hxs, ht⟩

theorem all_timesSequence? {v w : Value} {n : Int} (h : v.timesSequence? n = some (.ok w))
    (hv : v.All p) : w.All p := by
  cases v with
  | str t =>
      obtain ⟨k, -, hk⟩ := bind_eq_ok (Option.some.inj h)
      obtain rfl := Except.ok.inj hk
      exact trivial
  | bytes g d =>
      obtain ⟨k, -, hk⟩ := bind_eq_ok (Option.some.inj h)
      obtain rfl := Except.ok.inj hk
      exact trivial
  | list xs =>
      obtain ⟨k, -, hk⟩ := bind_eq_ok (Option.some.inj h)
      obtain rfl := Except.ok.inj hk
      exact all_list.2 (all_replicate_flatten (all_list.1 hv))
  | vector xs =>
      obtain ⟨k, -, hk⟩ := bind_eq_ok (Option.some.inj h)
      obtain rfl := Except.ok.inj hk
      exact all_list.2 (all_replicate_flatten (all_vector.1 hv))
  | dotted xs t =>
      obtain ⟨k, -, hk⟩ := bind_eq_ok (Option.some.inj h)
      obtain rfl := Except.ok.inj hk
      exact all_pairCopies (all_dotted.1 hv).1 (all_dotted.1 hv).2
  | copies m xs t =>
      obtain ⟨k, -, hk⟩ := bind_eq_ok (Option.some.inj h)
      obtain rfl := Except.ok.inj hk
      exact all_pairCopies (all_copies.1 hv).1 (all_copies.1 hv).2
  | _ => exact absurd h (by simp [timesSequence?])

theorem all_product? {v w r : Value} (h : v.product? w = some (.ok r)) (hv : v.All p)
    (hw : w.All p) :
    r.All p := by
  unfold product? at h
  split at h
  next a b _ _ =>
    obtain ⟨n, -, rfl⟩ := map_eq_ok (Option.some.inj h)
    exact all_ofNumber n
  next =>
    split at h
    next => exact all_timesSequence? h hw
    next =>
      obtain ⟨n, -, h⟩ := Option.bind_eq_some_iff.1 h
      exact all_timesSequence? h hv

end Value

namespace Arithmetic

open Value

theorem all_settle {x : Except Fault Value} {v : Value} (h : settle x = .ok v)
    (hx : ∀ w, x = .ok w → w.All p) : v.All p := by
  cases x with
  | error f => exact absurd h (by simp [settle])
  | ok w =>
      obtain rfl := Except.ok.inj h
      exact hx _ rfl

theorem all_step {operator : String} {op : Number → Number → Except Fault Number} {v w r : Value}
    (h : step operator op v w = .ok r) : r.All p := by
  unfold step at h
  split at h
  next =>
    refine all_settle h fun x hx => ?_
    obtain ⟨n, -, rfl⟩ := map_eq_ok hx
    exact all_ofNumber n
  next => exact absurd h (by simp [notNumbers])

theorem all_foldlM {f : Value → Value → Except Error Value} {v r : Value} {ws : List Value}
    (h : ws.foldlM f v = .ok r) (hv : v.All p) (hws : ∀ w ∈ ws, w.All p)
    (hf : ∀ x y z, f x y = .ok z → x.All p → y.All p → z.All p) : r.All p := by
  induction ws generalizing v with
  | nil => obtain rfl := Except.ok.inj h; exact hv
  | cons w ws ih =>
      rw [List.foldlM_cons] at h
      obtain ⟨x, hx, h⟩ := bind_eq_ok h
      exact ih h (hf v w x hx hv (hws w (by simp))) (fun y hy => hws y (by simp [hy]))

theorem all_sum {args : List Value} {v : Value} (h : sum args = .ok v)
    (hargs : ∀ a ∈ args, a.All p) :
    v.All p :=
  all_foldlM h trivial hargs fun _ _ _ h _ _ => all_step h

theorem all_difference {args : List Value} {v : Value} (h : difference args = .ok v)
    (hargs : ∀ a ∈ args, a.All p) : v.All p := by
  unfold difference at h
  split at h
  next => exact absurd h (by simp)
  next w =>
    split at h
    next a _ => obtain rfl := Except.ok.inj h; exact all_ofNumber _
    next => exact absurd h (by simp [notNumbers])
  next w ws _ =>
    exact all_foldlM h (hargs w (by simp)) (fun x hx => hargs x (by simp [hx]))
      fun _ _ _ h _ _ => all_step h

theorem all_product {args : List Value} {v : Value} (h : product args = .ok v)
    (hargs : ∀ a ∈ args, a.All p) : v.All p := by
  refine all_foldlM h trivial hargs fun x y z h hx hy => ?_
  split at h
  next r hr => exact all_settle h fun w hw => all_product? (hw ▸ hr) hx hy
  next => exact absurd h (by simp [notNumbers])

theorem all_quotient {args : List Value} {v : Value} (h : quotient args = .ok v)
    (hargs : ∀ a ∈ args, a.All p) : v.All p := by
  unfold quotient at h
  split at h
  next => exact absurd h (by simp)
  next => exact all_step h
  next w ws _ =>
    exact all_foldlM h (hargs w (by simp)) (fun x hx => hargs x (by simp [hx]))
      fun _ _ _ h _ _ => all_step h

end Arithmetic

/-! ## Forms taken apart -/

open Value

theorem all_splicedItems {v : Value} {xs : List Value} (h : splicedItems v = .ok xs)
    (hv : v.All p) :
    ∀ x ∈ xs, x.All p := by
  unfold splicedItems at h
  split at h
  next => obtain rfl := Except.ok.inj h; simp
  next =>
    split at h
    next ys hys => obtain rfl := Except.ok.inj h; exact all_of_items? hys hv
    next => exact absurd h (by simp)

theorem all_optionalDefault? {v form : Value} (h : optionalDefault? v = some form) (hv : v.All p) :
    form.All p := by
  unfold optionalDefault? at h
  split at h
  next x w ws hx => obtain rfl := Option.some.inj h; exact all_of_items? hx hv w (by simp)
  next => exact absurd h (by simp)

theorem all_bodyForm {forms : List Value} (h : ∀ x ∈ forms, x.All p) : (bodyForm forms).All p := by
  unfold bodyForm
  split
  next => exact trivial
  next form => exact h form (by simp)
  next => exact all_list.2 (List.forall_mem_cons.2 ⟨trivial, h⟩)

theorem all_withoutDescription {body : List Value} (h : ∀ x ∈ body, x.All p) :
    ∀ x ∈ withoutDescription body, x.All p := by
  unfold withoutDescription
  split
  next => exact fun x hx => h x (List.mem_cons_of_mem _ hx)
  next => exact h

theorem all_formToExpand {name : String} {args : List Value} {form : Value}
    (h : formToExpand name args = .ok form) (hargs : ∀ a ∈ args, a.All p) : form.All p := by
  unfold formToExpand at h
  split at h
  next v =>
    have hv := hargs v (by simp)
    split at h
    next q x r hx =>
      obtain rfl := Except.ok.inj h
      split
      · exact all_of_items? hx hv x (by simp)
      · exact hv
    next => obtain rfl := Except.ok.inj h; exact hv
  next => exact absurd h (by simp)

theorem all_bindingParts {head name : Symbol} {args : List Value} {form : Value}
    (h : bindingParts head args = .ok (name, form)) (hargs : ∀ a ∈ args, a.All p) : form.All p := by
  unfold bindingParts at h
  split at h
  next n v =>
    split at h
    next => exact absurd h (by simp)
    next =>
      obtain ⟨-, rfl⟩ := Prod.mk.inj (Except.ok.inj h)
      exact hargs _ (by simp)
  next => exact absurd h (by simp)
  next => exact absurd h (by simp)

theorem all_listOfNil {v : Value} (hv : v.All p) : (listOfNil v).All p := by
  unfold listOfNil
  split
  next => simp
  next => exact hv

/-! ## Macros of every session -/

theorem all_expandLet {args : List Value} {form : Value} (h : expandLet args = .ok form)
    (hargs : ∀ a ∈ args, a.All p) : form.All p := by
  unfold expandLet at h
  split at h
  next bindings body forms =>
    split at h
    next => exact absurd h (by simp)
    next bs hbs =>
      obtain ⟨pairs, hpairs, h⟩ := bind_eq_ok h
      obtain rfl := Except.ok.inj h
      have hvalues : ∀ b ∈ pairs, b.2.All p := by
        have hbindings := all_of_items? hbs (hargs bindings (by simp))
        refine forall_mapM hpairs fun b hmem r hb => ?_
        unfold letBinding at hb
        split at hb
        next name v hx =>
          obtain rfl := Except.ok.inj hb
          exact all_of_items? hx (hbindings b hmem) v (by simp)
        next => exact absurd hb (by simp)
      have hbody := hargs body (by simp)
      have hforms : ∀ x ∈ forms, x.All p := fun x hx => hargs x (by simp [hx])
      simp only [all_list, List.mem_cons, List.mem_map, forall_eq_or_imp, all_symbol, true_and,
        forall_exists_index, and_imp, forall_apply_eq_imp_iff₂]
      exact ⟨⟨fun _ _ => trivial, hbody, hforms⟩, hvalues⟩
  next => exact absurd h (by simp)

theorem all_expandDefun {args : List Value} {form : Value} (h : expandDefun args = .ok form)
    (hargs : ∀ a ∈ args, a.All p) : form.All p := by
  unfold expandDefun at h
  split at h
  next name params body forms =>
    obtain rfl := Except.ok.inj h
    simp_all
  next => exact absurd h (by simp)

end SlotLisp
