import SlotLisp.Proofs.Value.Leaf

/-!
Values in which everything that may differ from itself has its mark. Marking one again changes
nothing, so a form that comes in marked is the same wherever its parts are used.
-/

namespace SlotLisp
namespace Value

mutual

/-- Whether every part that may differ from itself has a mark. The code of a closure was marked as a
part of the form that made it, and the type of a marked default with that default. -/
def Marked : Value → Prop
  | .float x => (Number.float x).isNaN = false
  | .complex re im => (Number.complex re im).isNaN = false
  | .list xs => MarkedItems xs
  | .vector xs => MarkedItems xs
  | .dotted xs t => MarkedItems xs ∧ Marked t
  | .copies _ xs t => MarkedItems xs ∧ Marked t
  | .map es => MarkedEntries es
  | .unsupplied none _ _ => False
  | _ => True
termination_by structural v => v

def MarkedItems : List Value → Prop
  | [] => True
  | v :: vs => Marked v ∧ MarkedItems vs

def MarkedEntries : List (Value × Value) → Prop
  | [] => True
  | (k, v) :: es => (Marked k ∧ Marked v) ∧ MarkedEntries es

end

theorem markedItems_iff {xs : List Value} : MarkedItems xs ↔ ∀ x ∈ xs, x.Marked := by
  induction xs with
  | nil => simp [MarkedItems]
  | cons x xs ih => rw [MarkedItems, ih, List.forall_mem_cons]

theorem markedEntries_iff {es : List (Value × Value)} :
    MarkedEntries es ↔ ∀ e ∈ es, e.1.Marked ∧ e.2.Marked := by
  induction es with
  | nil => simp [MarkedEntries]
  | cons e es ih =>
      obtain ⟨k, v⟩ := e
      rw [MarkedEntries, ih, List.forall_mem_cons]

@[simp] theorem marked_symbol (s : Symbol) : (symbol s).Marked := trivial

@[simp] theorem marked_list {xs : List Value} : (list xs).Marked ↔ ∀ x ∈ xs, x.Marked :=
  markedItems_iff

theorem marked_of_items? {v : Value} {xs : List Value} (h : v.items? = some xs) (hv : v.Marked) :
    ∀ x ∈ xs, x.Marked := by
  cases v with
  | list ys => obtain rfl := Option.some.inj h; exact markedItems_iff.1 hv
  | vector ys => obtain rfl := Option.some.inj h; exact markedItems_iff.1 hv
  | _ => exact absurd h (by simp [items?])

theorem markNumber_of_not_isNaN {n : Number} (h : n.isNaN = false) :
    markNumber n = pure (ofNumber n) := by
  rw [markNumber, h]
  rfl

theorem markAll_of_forall {xs : List Value} (h : ∀ x ∈ xs, x.mark = pure x) :
    markAll xs = pure xs := by
  induction xs with
  | nil => rfl
  | cons x xs ih =>
      obtain ⟨hx, hxs⟩ := List.forall_mem_cons.1 h
      rw [markAll, hx, ih hxs]
      rfl

theorem markEntries_of_forall {es : List (Value × Value)}
    (h : ∀ e ∈ es, e.1.mark = pure e.1 ∧ e.2.mark = pure e.2) : markEntries es = pure es := by
  induction es with
  | nil => rfl
  | cons e es ih =>
      obtain ⟨⟨hk, hv⟩, hes⟩ := List.forall_mem_cons.1 h
      obtain ⟨k, v⟩ := e
      rw [markEntries, hk, hv, ih hes]
      rfl

/-- A marked value keeps its marks and takes no new ones. -/
theorem mark_of_marked {v : Value} (hv : v.Marked) : v.mark = pure v := by
  induction v using induction_parts with
  | float x => exact markNumber_of_not_isNaN hv
  | complex re im => exact markNumber_of_not_isNaN hv
  | list xs ih =>
      rw [mark, markAll_of_forall fun x hx => ih x hx (markedItems_iff.1 hv x hx)]
      rfl
  | vector xs ih =>
      rw [mark, markAll_of_forall fun x hx => ih x hx (markedItems_iff.1 hv x hx)]
      rfl
  | dotted xs t ih iht =>
      obtain ⟨hxs, ht⟩ := hv
      rw [mark, markAll_of_forall fun x hx => ih x hx (markedItems_iff.1 hxs x hx), iht ht]
      rfl
  | copies n xs t ih iht =>
      obtain ⟨hxs, ht⟩ := hv
      rw [mark, markAll_of_forall fun x hx => ih x hx (markedItems_iff.1 hxs x hx), iht ht]
      rfl
  | map es ih =>
      have hes := markedEntries_iff.1 hv
      rw [mark, markEntries_of_forall fun e he =>
        ⟨(ih e he).1 (hes e he).1, (ih e he).2 (hes e he).2⟩]
      rfl
  | unsupplied m s t ih =>
      cases m with
      | none => exact absurd hv not_false
      | some i => rfl
  | _ => rfl

theorem markAll_of_marked {xs : List Value} (h : ∀ x ∈ xs, x.Marked) : markAll xs = pure xs :=
  markAll_of_forall fun x hx => mark_of_marked (h x hx)

/-- Behind items that are marked only the others take marks. -/
theorem markAll_append_of_marked {xs : List Value} (h : ∀ x ∈ xs, x.Marked) (ys : List Value) :
    markAll (xs ++ ys) = (fun zs => xs ++ zs) <$> markAll ys := by
  induction xs with
  | nil => rfl
  | cons x xs ih =>
      obtain ⟨hx, hxs⟩ := List.forall_mem_cons.1 h
      rw [List.cons_append, markAll, mark_of_marked hx, ih hxs]
      rfl

end Value
end SlotLisp
