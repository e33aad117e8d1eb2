import SlotLisp.Proofs.Classes.Definition

/-!
The names that a class definition makes up: one for the constructor, one for the predicate and one
for the reader of each slot. They are bound in one frame one after the other, and a later one takes
the place of an earlier one that it equals. A reader's name equals the predicate's if its slot is
`p`, and the constructor's if its slot is `make` and the class is `make`, `make-make` and so on; no
other two names are equal.
-/

namespace SlotLisp

def constructorName (n : Symbol) : Symbol := ⟨"make-" ++ n.name⟩

def predicateName (n : Symbol) : Symbol := ⟨n.name ++ "-p"⟩

def readerName (n slot : Symbol) : Symbol := ⟨n.name ++ "-" ++ slot.name⟩

/-- The names that begin again, with a hyphen in between, as those of constructors do: `make`,
`make-make`, … -/
def makes : Nat → Symbol
  | 0 => ⟨"make"⟩
  | k + 1 => constructorName (makes k)

variable {n a b : Symbol}

/-! ## Names that are equal -/

theorem Symbol.eq_iff_toList : a = b ↔ a.name.toList = b.name.toList := by
  cases a
  cases b
  rw [Symbol.mk.injEq, String.toList_inj]

theorem constructorName_toList :
    (constructorName n).name.toList = "make-".toList ++ n.name.toList :=
  String.toList_append

theorem predicateName_toList : (predicateName n).name.toList = n.name.toList ++ ['-', 'p'] :=
  String.toList_append

theorem readerName_toList :
    (readerName n a).name.toList = n.name.toList ++ '-' :: a.name.toList := by
  rw [readerName, String.toList_append, String.toList_append, List.append_assoc]
  rfl

theorem readerName_inj : readerName n a = readerName n b ↔ a = b := by
  rw [Symbol.eq_iff_toList, readerName_toList, readerName_toList, List.append_cancel_left_eq,
    List.cons.injEq, and_iff_right rfl, Symbol.eq_iff_toList]

/-- Names of different lengths differ. -/
theorem Symbol.ne_of_length (h : a.name.toList.length ≠ b.name.toList.length) : a ≠ b := by
  rintro rfl
  exact h rfl

theorem constructorName_ne : constructorName n ≠ n := by
  refine Symbol.ne_of_length ?_
  rw [constructorName_toList, List.length_append]
  have hmake : "make-".toList.length = 5 := rfl
  omega

theorem predicateName_ne : predicateName n ≠ n := by
  refine Symbol.ne_of_length ?_
  rw [predicateName_toList, List.length_append, List.length_cons]
  omega

theorem readerName_ne : readerName n a ≠ n := by
  refine Symbol.ne_of_length ?_
  rw [readerName_toList, List.length_append, List.length_cons]
  omega

theorem constructorName_ne_predicateName : constructorName n ≠ predicateName n := by
  refine Symbol.ne_of_length ?_
  rw [constructorName_toList, predicateName_toList, List.length_append, List.length_append]
  have hmake : "make-".toList.length = 5 := rfl
  have hp : ['-', 'p'].length = 2 := rfl
  omega

theorem predicateName_eq_readerName_iff : predicateName n = readerName n a ↔ a = ⟨"p"⟩ := by
  have hp : predicateName n = readerName n ⟨"p"⟩ := by
    rw [Symbol.eq_iff_toList, predicateName_toList, readerName_toList]
    rfl
  rw [hp, readerName_inj, eq_comm]

/-- By recursion on the name of the class, of which each step takes one `make-` away. -/
theorem eq_make_of_append {t : List Char} : ∀ {l : List Char},
    'm' :: 'a' :: 'k' :: 'e' :: '-' :: l = l ++ '-' :: t →
      t = "make".toList ∧ ∃ k, l = (makes k).name.toList
  | [], h => absurd (List.cons.inj h).1 (by decide)
  | [c₁], h => by
      simp only [List.cons_append, List.nil_append, List.cons.injEq] at h
      exact absurd h.2.1 (by decide)
  | [c₁, c₂], h => by
      simp only [List.cons_append, List.nil_append, List.cons.injEq] at h
      exact absurd h.2.2.1 (by decide)
  | [c₁, c₂, c₃], h => by
      simp only [List.cons_append, List.nil_append, List.cons.injEq] at h
      exact absurd h.2.2.2.1 (by decide)
  | [c₁, c₂, c₃, c₄], h => by
      simp only [List.cons_append, List.nil_append, List.cons.injEq] at h
      obtain ⟨rfl, rfl, rfl, rfl, -, rfl⟩ := h
      exact ⟨rfl, 0, rfl⟩
  | c₁ :: c₂ :: c₃ :: c₄ :: c₅ :: l, h => by
      simp only [List.cons_append, List.cons.injEq] at h
      obtain ⟨rfl, rfl, rfl, rfl, rfl, h⟩ := h
      obtain ⟨ht, k, rfl⟩ := eq_make_of_append h
      exact ⟨ht, k + 1, constructorName_toList.symm⟩

theorem constructorName_eq_readerName_iff :
    constructorName n = readerName n a ↔ a = ⟨"make"⟩ ∧ ∃ k, n = makes k := by
  rw [Symbol.eq_iff_toList, constructorName_toList, readerName_toList]
  constructor
  · intro h
    obtain ⟨ha, k, hn⟩ := eq_make_of_append h
    exact ⟨Symbol.eq_iff_toList.2 ha, k, Symbol.eq_iff_toList.2 hn⟩
  · rintro ⟨rfl, k, rfl⟩
    induction k with
    | zero => rfl
    | succ k ih =>
        rw [makes, constructorName_toList, List.append_assoc, ← ih]

/-! ## What a definition binds -/

/-- What the definition of a class binds whose readers all have their usual names. -/
def usualBindings (n : Symbol) (c : ClassId) (slots : List Symbol) : List (Symbol × Value) :=
  [(n, .ref (.cls c)), (constructorName n, .function (.constructor c)),
    (predicateName n, .function (.predicate c))] ++
  slots.map fun a => (readerName n a, .function (.reader c (readerName n a) a))

theorem bindings_usual {d : ClassDraft} {ds : List Declaration}
    (hown : d.own = ds.map (Slot.ofDeclaration d.name))
    (husual : ∀ e ∈ ds, e.option? Slot.accessorKey = none) (c : ClassId) :
    d.bindings c = named (usualBindings d.name c (ds.map Declaration.name)) := by
  rw [ClassDraft.bindings, hown, usualBindings, named, List.map_append, List.map_map, List.map_map,
    List.map_map]
  refine congrArg (_ :: _ :: _ :: ·) (List.map_congr_left fun e he => ?_)
  have hname : (Slot.ofDeclaration d.name e).accessor = .symbol (readerName d.name e.name) := by
    rw [Slot.ofDeclaration, husual e he]
    rfl
  simp only [Function.comp_apply, hname]
  rfl

section Lookup

variable {c : ClassId} {slots : List Symbol}

/-- The readers are bound last, and each has a name of its own. -/
theorem get?_usualBindings_reader (ha : a ∈ slots) :
    (Table.ofList (usualBindings n c slots)).get? (readerName n a) =
      some (.function (.reader c (readerName n a) a)) := by
  have hmem : (readerName n a, Value.function (.reader c (readerName n a) a)) ∈
      slots.map fun b => (readerName n b, Value.function (.reader c (readerName n b) b)) :=
    List.mem_map.2 ⟨a, ha, rfl⟩
  obtain ⟨v, hv, hentry⟩ := Table.get?_ofList_of_mem hmem
  obtain ⟨b, -, hb⟩ := List.mem_map.1 hentry
  obtain ⟨hname, rfl⟩ := Prod.mk.inj hb
  obtain rfl := readerName_inj.1 hname
  rw [usualBindings, Table.get?_ofList_append, hv, Option.some_or]

/-- Any other name that is bound has what it was bound to first. -/
theorem get?_usualBindings_of_ne {k : Symbol} (h : ∀ a ∈ slots, k ≠ readerName n a) :
    (Table.ofList (usualBindings n c slots)).get? k =
      (Table.ofList [(n, .ref (.cls c)), (constructorName n, .function (.constructor c)),
        (predicateName n, .function (.predicate c))]).get? k := by
  have hnone : (Table.ofList (slots.map fun a =>
      (readerName n a, Value.function (.reader c (readerName n a) a)))).get? k = none := by
    rw [← Option.not_isSome_iff_eq_none]
    intro hsome
    obtain ⟨v, hv⟩ := Option.isSome_iff_exists.1 hsome
    obtain ⟨a, ha, heq⟩ := List.mem_map.1 (Table.mem_ofList (Table.mem_of_get? hv))
    exact h a ha (Prod.mk.inj heq).1.symm
  rw [usualBindings, Table.get?_ofList_append, hnone, Option.none_or]

theorem get?_usualBindings_class :
    (Table.ofList (usualBindings n c slots)).get? n = some (.ref (.cls c)) := by
  rw [get?_usualBindings_of_ne fun a _ => readerName_ne.symm, Table.get?_ofList]
  simp [constructorName_ne, predicateName_ne]

theorem get?_usualBindings_constructor_iff :
    (Table.ofList (usualBindings n c slots)).get? (constructorName n) =
        some (.function (.constructor c)) ↔ ¬ (⟨"make"⟩ ∈ slots ∧ ∃ k, n = makes k) := by
  constructor
  · rintro h ⟨hmem, hn⟩
    have hname := constructorName_eq_readerName_iff.2 ⟨rfl, hn⟩
    rw [hname, get?_usualBindings_reader hmem] at h
    exact absurd h (by simp)
  · intro h
    have hne : ∀ a ∈ slots, constructorName n ≠ readerName n a := by
      intro a ha hname
      obtain ⟨rfl, hn⟩ := constructorName_eq_readerName_iff.1 hname
      exact h ⟨ha, hn⟩
    rw [get?_usualBindings_of_ne hne, Table.get?_ofList]
    simp [constructorName_ne_predicateName.symm]

theorem get?_usualBindings_predicate_iff :
    (Table.ofList (usualBindings n c slots)).get? (predicateName n) =
        some (.function (.predicate c)) ↔ ⟨"p"⟩ ∉ slots := by
  constructor
  · intro h hmem
    rw [predicateName_eq_readerName_iff.2 rfl, get?_usualBindings_reader hmem] at h
    exact absurd h (by simp)
  · intro h
    have hne : ∀ a ∈ slots, predicateName n ≠ readerName n a := by
      intro a ha hname
      obtain rfl := predicateName_eq_readerName_iff.1 hname
      exact h ha
    rw [get?_usualBindings_of_ne hne, Table.get?_ofList]
    simp

end Lookup

/-- A name that is bound in a frame is seen from there. -/
theorem State.Binds.lookup?_eq {s t : State} {f : FrameId} {bs : List (Symbol × Value)}
    {b : Symbol × Value} (h : s.Binds t f bs) (hb : b ∈ bs) :
    t.lookup? f b.1 = (Table.ofList bs).get? b.1 := by
  obtain ⟨v, hv, -⟩ := Table.get?_ofList_of_mem hb
  have hget : (t.frame f).vars.get? b.1 = some v := by
    rw [h.vars, hv, Option.some_or]
  have hfind : t.find? f b.1 = some f := by
    have hcontains : (t.frame f).vars.contains b.1 = true := by
      rw [Table.contains_eq_isSome, hget, Option.isSome_some]
    rw [find?, chain]
    exact List.find?_cons_of_pos hcontains
  rw [State.lookup?, hfind, Option.bind_some, hget, hv]

namespace State.Binds

variable {s t : State} {f : FrameId} {c : ClassId} {slots : List Symbol}
  (h : s.Binds t f (usualBindings n c slots))

include h

theorem lookup?_class : t.lookup? f n = some (.ref (.cls c)) := by
  have hmem : (n, Value.ref (.cls c)) ∈ usualBindings n c slots := List.mem_cons_self
  rw [h.lookup?_eq hmem, get?_usualBindings_class]

theorem lookup?_constructor_iff :
    t.lookup? f (constructorName n) = some (.function (.constructor c)) ↔
    ¬ (⟨"make"⟩ ∈ slots ∧ ∃ k, n = makes k) := by
  have hmem : (constructorName n, Value.function (.constructor c)) ∈ usualBindings n c slots :=
    List.mem_cons_of_mem _ List.mem_cons_self
  rw [h.lookup?_eq hmem, get?_usualBindings_constructor_iff]

theorem lookup?_predicate_iff : t.lookup? f (predicateName n) = some (.function (.predicate c)) ↔
    ⟨"p"⟩ ∉ slots := by
  have hmem : (predicateName n, Value.function (.predicate c)) ∈ usualBindings n c slots :=
    List.mem_cons_of_mem _ (List.mem_cons_of_mem _ List.mem_cons_self)
  rw [h.lookup?_eq hmem, get?_usualBindings_predicate_iff]

theorem lookup?_reader (ha : a ∈ slots) :
    t.lookup? f (readerName n a) = some (.function (.reader c (readerName n a) a)) := by
  have hmem : (readerName n a, Value.function (.reader c (readerName n a) a)) ∈
      usualBindings n c slots := List.mem_append_right _ (List.mem_map.2 ⟨a, ha, rfl⟩)
  rw [h.lookup?_eq hmem, get?_usualBindings_reader ha]

end State.Binds
end SlotLisp
