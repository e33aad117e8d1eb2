import SlotLisp.Proofs.Inference.Completion

/-!
Declarations and the lists that they are written as. Nothing in such a list marks a default: that
there is one shows in the number of items alone. Yet no two declarations are written as the same
list, and every list that is read as a declaration is the one that this is written as. So what is
added to a declaration is read back beside all that was there before.
-/

namespace SlotLisp
namespace Declaration

variable {d : Declaration} {xs : List Value}

/-- A list is read as the one declaration that is written as it. -/
theorem ofForm_list_iff : ofForm (.list xs) = .ok d ↔ d.toForm = .list xs := by
  constructor
  · intro h
    cases xs with
    | nil => exact absurd h (by simp [ofForm, Value.items?])
    | cons head parts =>
        cases head with
        | symbol s =>
            obtain rfl := Except.ok.inj h
            exact toForm_ofParts s parts
        | _ => exact absurd h (by simp [ofForm, Value.items?])
  · intro h
    rw [← h]
    exact ofForm_toForm d

/-- Options come in twos, so that a default makes the number of items behind the name odd. -/
theorem default_isSome_iff (h : d.toForm = .list xs) : d.default.isSome ↔ xs.length % 2 = 0 := by
  obtain rfl := Value.list.inj h
  rw [List.length_cons, List.length_append, length_unpairs]
  cases d.default with
  | none => simp
  | some v => simp; omega

/-- A list that is read as a declaration is what the declaration is written as, and it has a default
if and only if the number of items is even. With another default, with a type that is added, or with
both, the declaration is read back with just these changes: all options stay in their places, and
each still has the value that it had, so that a type that is added counts only where there was
none. -/
theorem reads_as_written (d : Declaration) :
    (∀ xs, ofForm (.list xs) = .ok d ↔ d.toForm = .list xs) ∧
    (∃ xs, d.toForm = .list xs ∧ (d.default.isSome ↔ xs.length % 2 = 0)) ∧
    (∀ v t, let typed := d.options ++ [(.symbol typeKey, t)]
      ofForm d.toForm = .ok d ∧
      ofForm (d.withDefault v).toForm = .ok ⟨d.name, some v, d.options⟩ ∧
      ofForm (d.withType t).toForm = .ok ⟨d.name, d.default, typed⟩ ∧
      ofForm ((d.withDefault v).withType t).toForm = .ok ⟨d.name, some v, typed⟩) ∧
    (∀ v key, (d.withDefault v).option? key = d.option? key) ∧
    (∀ t key, (d.withType t).option? key =
      (d.option? key).or (if key = typeKey then some t else none)) ∧
    ∀ t, (d.withType t).type? = some (d.type?.getD t) := by
  refine ⟨fun xs => ofForm_list_iff, ⟨_, rfl, default_isSome_iff rfl⟩, fun v t => ?_,
    fun v key => rfl,
    fun t => d.option?_withType t, d.type?_withType⟩
  exact ⟨ofForm_toForm d, ofForm_toForm _, ofForm_toForm _, ofForm_toForm _⟩

end Declaration
end SlotLisp
