import SlotLisp.Proofs.Session.Initargs
import SlotLisp.Proofs.Session.ZeroDefaults

/-!
Making an instance, slot by slot and apart from fuel. Arguments are refused before anything is
evaluated. After that each slot in order comes to the last value that is given for it, to what its
default comes to in the frame of the class, or to nothing, and the first error ends it.
-/

namespace SlotLisp

/-! ## What the slots come to -/

/-- What a slot of a new instance comes to, from the state `u` on. A default is evaluated only if
nothing is given for the slot, and a trap that it comes to is an error. -/
inductive Fills (c : Class) (entries : List (Symbol × Value)) (slot : Slot) (u : State) :
    Except Error (Option Value) → State → Prop
  | given {v : Value} (hgiven : slot.Given entries v) : Fills c entries slot u (.ok (some v)) u
  | supplied {form v : Value} {t : State} (hmissing : slot.Missing entries)
      (hdefault : slot.default = some form) (hvalue : u.Evaluates c.frame c.macros form (.ok v) t)
      (hsupplied : ∀ mark name type, v ≠ .unsupplied mark name type) :
        Fills c entries slot u (.ok (some v)) t
  | trapped {form : Value} {mark : Option Nat} {name : Symbol} {type : Value} {t : State}
      (hmissing : slot.Missing entries) (hdefault : slot.default = some form)
      (hvalue : u.Evaluates c.frame c.macros form (.ok (.unsupplied mark name type)) t) :
      Fills c entries slot u (.error (.emptySlot (.unsupplied name type))) t
  | failed {form : Value} {e : Error} {t : State} (hmissing : slot.Missing entries)
      (hdefault : slot.default = some form)
      (hvalue : u.Evaluates c.frame c.macros form (.error e) t) :
      Fills c entries slot u (.error e) t
  | unbound (hmissing : slot.Missing entries) (hdefault : slot.default = none) :
      Fills c entries slot u (.ok none) u

/-- What slots come to, each in the state in which the one before has left off, up to the first
error. -/
inductive FillsInOrder (c : Class) (entries : List (Symbol × Value)) :
    List Slot → State → Except Error (List (Option Value)) → State → Prop
  | nil {u : State} : FillsInOrder c entries [] u (.ok []) u
  | stops {slot : Slot} {slots : List Slot} {u t : State} {e : Error}
      (h : Fills c entries slot u (.error e) t) :
      FillsInOrder c entries (slot :: slots) u (.error e) t
  | cons {slot : Slot} {slots : List Slot} {u w t : State} {r : Option Value}
      {q : Except Error (List (Option Value))} (h : Fills c entries slot u (.ok r) w)
      (hrest : FillsInOrder c entries slots w q t) :
      FillsInOrder c entries (slot :: slots) u (q.map (r :: ·)) t

/-- The values of slots under their names, without the slots that have come to nothing. -/
def held (slots : List Slot) (rs : List (Option Value)) : List (Symbol × Value) :=
  (slots.zip rs).filterMap fun p => p.2.map fun v => (p.1.name, v)

/-- How making an instance ends: with a reason to refuse the arguments, with the error of a slot, or
with a new instance of what the slots have come to. -/
inductive State.Constructs (u : State) (cls : ClassId) :
    List Value → Except Error Value → State → Prop
  | refused {args : List Value} {e : Error} (h : (u.getClass cls).Refuses args e) :
      Constructs u cls args (.error e) u
  | stopped {entries : List (Symbol × Value)} {e : Error} {t : State}
      (htakes : ∀ a ∈ entries, (u.getClass cls).Takes a.1)
      (hslots : FillsInOrder (u.getClass cls) entries (u.getClass cls).slots u (.error e) t) :
      Constructs u cls (keywordArguments entries) (.error e) t
  | made {entries : List (Symbol × Value)} {rs : List (Option Value)} {w : State}
      (htakes : ∀ a ∈ entries, (u.getClass cls).Takes a.1)
      (hslots : FillsInOrder (u.getClass cls) entries (u.getClass cls).slots u (.ok rs) w) :
      Constructs u cls (keywordArguments entries) (.ok (.ref (.inst w.instances.size)))
        (w.addInstance ⟨cls, .ofList (held (u.getClass cls).slots rs)⟩).1

/-! ## What is held -/

section Held

variable {c : Class} {entries : List (Symbol × Value)} {slot : Slot} {slots : List Slot}

/-- Storing what slots hold starts with the first of them. -/
theorem foldl_held_cons (slot : Slot) (slots : List Slot) (r : Option Value)
    (rs : List (Option Value)) (values : Table Value) :
    (held (slot :: slots) (r :: rs)).foldl (fun t e => t.insert e.1 e.2) values =
      (held slots rs).foldl (fun t e => t.insert e.1 e.2)
      (r.elim values (values.insert slot.name)) := by
  cases r <;> rfl

theorem FillsInOrder.length_eq {u t : State} {q : Except Error (List (Option Value))}
    (h : FillsInOrder c entries slots u q t) : ∀ rs, q = .ok rs → rs.length = slots.length := by
  induction h with
  | nil =>
      intro rs hrs
      rw [← Except.ok.inj hrs]
      rfl
  | stops h => exact fun rs hrs => absurd hrs (by simp)
  | @cons _ _ _ _ _ r q _ _ ih =>
      intro rs hrs
      cases q with
      | error e => exact absurd hrs (by simp [Except.map])
      | ok qs =>
          rw [← Except.ok.inj hrs, List.length_cons, List.length_cons, ih qs rfl]

theorem mem_held {rs : List (Option Value)} {e : Symbol × Value} (he : e ∈ held slots rs) :
    e.1 ∈ slots.map Slot.name := by
  obtain ⟨⟨slot, r⟩, hmem, hr⟩ := List.mem_filterMap.1 he
  obtain ⟨v, -, rfl⟩ := Option.map_eq_some_iff.1 hr
  exact List.mem_map_of_mem (List.of_mem_zip hmem).1

/-- Slots of different names hold what each of them has come to. -/
theorem get?_held {rs : List (Option Value)} (hnodup : (slots.map Slot.name).Nodup)
    (hlength : rs.length = slots.length) :
    slots.map (fun slot => (Table.ofList (held slots rs)).get? slot.name) = rs := by
  induction slots generalizing rs with
  | nil => exact (List.length_eq_zero_iff.1 hlength).symm
  | cons slot slots ih =>
      cases rs with
      | nil => exact absurd hlength (by simp)
      | cons r rs =>
          rw [List.map_cons, List.nodup_cons] at hnodup
          have hget : ∀ n, (Table.ofList (held (slot :: slots) (r :: rs))).get? n =
              ((Table.ofList (held slots rs)).get? n).or (if slot.name = n then r else none) := by
            intro n
            rw [Table.ofList, foldl_held_cons, Table.get?_foldl_insert, ← Table.get?_ofList]
            cases r with
            | none => simp
            | some v => rw [Option.elim_some, Table.get?_insert, Table.get?_empty]
          rw [List.map_cons]
          congr 1
          · have hnone : (Table.ofList (held slots rs)).get? slot.name = none :=
              Table.get?_ofList_eq_none_iff.2 fun e he hname => hnodup.1 (hname ▸ mem_held he)
            rw [hget, hnone, if_pos rfl, Option.none_or]
          · refine Eq.trans (List.map_congr_left fun d hd => ?_)
              (ih hnodup.2 (by simpa using hlength))
            have hne : slot.name ≠ d.name := fun h => hnodup.1 (h ▸ List.mem_map_of_mem hd)
            rw [hget, if_neg hne, Option.or_none]

/-- Filling slots leads from a sound state to a sound one, in which all that was there is kept. -/
theorem Fills.leads {u t : State} {r : Except Error (Option Value)} (h : Fills c entries slot u r t)
    (hu : u.Sound) (hdefault : ∀ form ∈ slot.default, u.Knows form) : u.Leads t := by
  -- Whatever a default comes to, its evaluation leads on.
  have hevaluates : ∀ {form : Value} {q : Except Error Value}, slot.default = some form →
      u.Evaluates c.frame c.macros form q t → u.Leads t := fun hform ⟨fuel, hq⟩ =>
    (keeps_evaluate fuel u _ _ _ (hdefault _ hform) hu _ _ hq).1
  cases h with
  | given => exact .refl hu
  | supplied _ hform hvalue => exact hevaluates hform hvalue
  | trapped _ hform hvalue => exact hevaluates hform hvalue
  | failed _ hform hvalue => exact hevaluates hform hvalue
  | unbound => exact .refl hu

theorem FillsInOrder.leads {u t : State} {q : Except Error (List (Option Value))}
    (h : FillsInOrder c entries slots u q t) (hu : u.Sound)
    (hdefaults : ∀ slot ∈ slots, ∀ form ∈ slot.default, u.Knows form) : u.Leads t := by
  induction h with
  | nil => exact .refl hu
  | stops h => exact h.leads hu (hdefaults _ List.mem_cons_self)
  | cons h _ ih =>
      have hfirst := h.leads hu (hdefaults _ List.mem_cons_self)
      refine hfirst.trans (ih hfirst.sound fun slot hslot form hform => ?_)
      exact hfirst.grows.knows (hdefaults slot (List.mem_cons_of_mem _ hslot) form hform)

/-- What is made is an instance of the class that holds in every slot what the slot has come to. -/
theorem FillsInOrder.holds {u w : State} {rs : List (Option Value)}
    (h : FillsInOrder c entries slots u (.ok rs) w) (hnodup : (slots.map Slot.name).Nodup)
    (cls : ClassId) :
    let t := (w.addInstance ⟨cls, .ofList (held slots rs)⟩).1
    t.classOf w.instances.size = cls ∧
      slots.map (fun slot => (t.getInstance w.instances.size).values.get? slot.name) = rs := by
  refine ⟨by rw [State.classOf, State.getInstance_addInstance], ?_⟩
  rw [State.getInstance_addInstance]
  exact get?_held hnodup (h.length_eq rs rfl)

end Held

/-! ## The evaluator fills slots -/

namespace Eval

section Filling

variable {eval : Evaluator} {c : Class} {entries : List (Symbol × Value)} {slot : Slot}
  {u t : State}

def supplied (v : Value) : Eval (Option Value) :=
  match v with
  | .unsupplied _ name type => throw (.emptySlot (.unsupplied name type))
  | v => pure (some v)

theorem supplied_eq_pure {v : Value} (h : ∀ mark name type, v ≠ .unsupplied mark name type) :
    supplied v = pure (some v) := by
  cases v with
  | unsupplied mark name type => exact absurd rfl (h mark name type)
  | _ => rfl

theorem initialValue_given {v : Value} (hgiven : slot.Given entries v) :
    initialValue eval c (.ofList entries) slot = pure (some v) := by
  rw [initialValue, Slot.argument?_eq_some_iff.2 hgiven]

theorem initialValue_unbound (hmissing : slot.Missing entries) (hdefault : slot.default = none) :
    initialValue eval c (.ofList entries) slot = pure none := by
  rw [initialValue, Slot.argument?_eq_none_iff.2 hmissing, hdefault]

theorem initialValue_default {form : Value} (hmissing : slot.Missing entries)
    (hdefault : slot.default = some form) :
    initialValue eval c (.ofList entries) slot = eval form c.frame c.macros >>= supplied := by
  rw [initialValue, Slot.argument?_eq_none_iff.2 hmissing, hdefault]
  rfl

theorem ends_default_iff {form : Value} {r : Except Error (Option Value)} :
    Ends (fun n => evaluate n form c.frame c.macros >>= supplied) u r t ↔
      (∃ e, r = .error e ∧ u.Evaluates c.frame c.macros form (.error e) t) ∨
        ∃ v, u.Evaluates c.frame c.macros form (.ok v) t ∧
        (supplied v).outcome t = some (r, t) := by
  refine (ends_bind_iff (f := fun _ => supplied)
    (fun hle => evaluate_extends hle form c.frame c.macros)
    fun _ _ _ _ _ _ h => h).trans (or_congr Iff.rfl ⟨?_, ?_⟩)
  · rintro ⟨v, w, hv, hr⟩
    rw [ends_const_iff] at hr
    have hsame : w = t := by
      cases v <;> exact (Prod.mk.inj (Option.some.inj hr)).2
    subst hsame
    exact ⟨v, hv, hr⟩
  · rintro ⟨v, hv, hr⟩
    exact ⟨v, t, hv, ends_const_iff.2 hr⟩

/-- The value that a slot starts with is what the slot comes to. -/
theorem ends_initialValue_iff {r : Except Error (Option Value)} :
    Ends (fun n => initialValue (evaluate n) c (.ofList entries) slot) u r t ↔
    Fills c entries slot u r t := by
  constructor
  · intro h
    cases hgiven : slot.argument? (.ofList entries) with
    | some v =>
        rw [Slot.argument?_eq_some_iff] at hgiven
        simp only [initialValue_given hgiven, ends_const_iff] at h
        obtain ⟨rfl, rfl⟩ := Prod.mk.inj (Option.some.inj h)
        exact .given hgiven
    | none =>
        rw [Slot.argument?_eq_none_iff] at hgiven
        cases hdefault : slot.default with
        | none =>
            simp only [initialValue_unbound hgiven hdefault, ends_const_iff] at h
            obtain ⟨rfl, rfl⟩ := Prod.mk.inj (Option.some.inj h)
            exact .unbound hgiven hdefault
        | some form =>
            simp only [initialValue_default hgiven hdefault] at h
            rcases ends_default_iff.1 h with ⟨e, rfl, he⟩ | ⟨v, hv, hr⟩
            · exact .failed hgiven hdefault he
            · by_cases htrap : ∃ mark name type, v = .unsupplied mark name type
              · obtain ⟨mark, name, type, rfl⟩ := htrap
                obtain ⟨rfl, -⟩ := Prod.mk.inj (Option.some.inj hr)
                exact .trapped hgiven hdefault hv
              · have hsupplied : ∀ mark name type, v ≠ .unsupplied mark name type :=
                  fun mark name type hv => htrap ⟨mark, name, type, hv⟩
                rw [supplied_eq_pure hsupplied] at hr
                obtain ⟨rfl, -⟩ := Prod.mk.inj (Option.some.inj hr)
                exact .supplied hgiven hdefault hv hsupplied
  · intro h
    cases h with
    | given hgiven =>
        simp only [initialValue_given hgiven, ends_const_iff]
        rfl
    | unbound hmissing hdefault =>
        simp only [initialValue_unbound hmissing hdefault, ends_const_iff]
        rfl
    | supplied hmissing hdefault hvalue hsupplied =>
        simp only [initialValue_default hmissing hdefault]
        exact ends_default_iff.2 (.inr ⟨_, hvalue, by rw [supplied_eq_pure hsupplied]; rfl⟩)
    | trapped hmissing hdefault hvalue =>
        simp only [initialValue_default hmissing hdefault]
        exact ends_default_iff.2 (.inr ⟨_, hvalue, rfl⟩)
    | failed hmissing hdefault hvalue =>
        simp only [initialValue_default hmissing hdefault]
        exact ends_default_iff.2 (.inl ⟨_, rfl, hvalue⟩)

theorem initialValue_extends (c : Class) (initargs : Table Value) (slot : Slot) {m n : Nat}
    (hle : m ≤ n) :
    Extends (Option Value) (initialValue (evaluate m) c initargs slot)
      (initialValue (evaluate n) c initargs slot) :=
  congruence_extends.initialValue (evaluate_extends hle) c initargs slot

theorem initialValues_extends (c : Class) (initargs : Table Value) (slots : List Slot)
    (values : Table Value) {m n : Nat} (hle : m ≤ n) :
    Extends (Table Value) (initialValues (evaluate m) c initargs slots values)
      (initialValues (evaluate n) c initargs slots values) :=
  congruence_extends.initialValues (evaluate_extends hle) c initargs slots values

/-- By induction on the slots: they get their values in order, and these are stored under their
names. -/
theorem ends_initialValues_iff {slots : List Slot} {values : Table Value}
    {r : Except Error (Table Value)} :
    Ends (fun n => initialValues (evaluate n) c (.ofList entries) slots values) u r t ↔
      ∃ q, FillsInOrder c entries slots u q t ∧
        r = q.map fun rs => (held slots rs).foldl (fun t e => t.insert e.1 e.2) values := by
  induction slots generalizing u values r with
  | nil =>
      simp only [initialValues, ends_const_iff]
      constructor
      · intro h
        obtain ⟨rfl, rfl⟩ := Prod.mk.inj (Option.some.inj h)
        exact ⟨_, .nil, rfl⟩
      · rintro ⟨q, hq, rfl⟩
        cases hq
        rfl
  | cons slot slots ih =>
      simp only [initialValues_cons]
      refine (ends_bind_iff
        (f := fun n a => initialValues (evaluate n) c _ slots
          (a.elim values (values.insert slot.name)))
        (initialValue_extends c _ slot) fun a => initialValues_extends c _ slots _).trans ?_
      constructor
      · rintro (⟨e, rfl, he⟩ | ⟨a, w, ha, hr⟩)
        · exact ⟨_, .stops (ends_initialValue_iff.1 he), rfl⟩
        · obtain ⟨q, hq, rfl⟩ := ih.1 hr
          refine ⟨_, .cons (ends_initialValue_iff.1 ha) hq, ?_⟩
          cases q with
          | error e => rfl
          | ok rs => exact congrArg _ (foldl_held_cons slot slots a rs values).symm
      · rintro ⟨q, hq, rfl⟩
        cases hq with
        | stops he => exact .inl ⟨_, rfl, ends_initialValue_iff.2 he⟩
        | @cons _ _ _ w _ a q ha hq =>
            refine .inr ⟨a, w, ends_initialValue_iff.2 ha, ih.2 ⟨q, hq, ?_⟩⟩
            cases q with
            | error e => rfl
            | ok rs => exact congrArg _ (foldl_held_cons slot slots a rs values)

end Filling

/-! ## The evaluator makes instances -/

section Making

variable {cls : ClassId} {args : List Value} {u t : State}

/-- What refuses arguments refuses them for every evaluator, and so before anything is evaluated. -/
theorem outcome_construct_refused (hc : (u.getClass cls).Constructible) {e : Error}
    (h : (u.getClass cls).Refuses args e) (eval : Evaluator) :
    (construct eval cls args).outcome u = some (.error e, u) := by
  rw [construct, outcome_bind_ok (outcome_get u)]
  dsimp only
  rcases h.check hc with htable | ⟨initargs, htable, hcheck⟩
  · exact outcome_bind_error (by rw [outcome_ofExcept, htable]) _
  · have hinitargs : (ofExcept (initargTable (u.getClass cls).name args)).outcome u =
        some (.ok initargs, u) := by
      rw [outcome_ofExcept, htable]
    rw [outcome_bind_ok hinitargs]
    exact outcome_bind_error (by rw [outcome_ofExcept, hcheck]) _

/-- Keywords of slots are no reason not to make an instance. -/
theorem outcome_construct_keywords {entries : List (Symbol × Value)}
    (hc : (u.getClass cls).Constructible) (htakes : ∀ a ∈ entries, (u.getClass cls).Takes a.1)
    (eval : Evaluator) :
    (construct eval cls (keywordArguments entries)).outcome u =
      (initialValues eval (u.getClass cls) (.ofList entries) (u.getClass cls).slots .empty >>=
        fun vs => do
        let i ← create fun s => s.addInstance ⟨cls, vs⟩
        return .ref (.inst i)).outcome u := by
  have htable :
    (ofExcept (initargTable (u.getClass cls).name (keywordArguments entries))).outcome u =
      some (.ok (.ofList entries), u) := by
    rw [outcome_ofExcept, Class.initargTable_keywords _ fun a ha => (htakes a ha).1]
  have hcheck : (ofExcept ((u.getClass cls).checkInitargs (.ofList entries))).outcome u =
      some (.ok (), u) := by
    rw [outcome_ofExcept, Class.checkInitargs_keywords hc htakes]
  rw [construct, outcome_bind_ok (outcome_get u)]
  dsimp only
  rw [outcome_bind_ok htable, outcome_bind_ok hcheck]

/-- A class with a slot whose key can be no key of a mapping makes no instance from any
arguments. -/
theorem outcome_construct_unusable (hc : ¬ (u.getClass cls).Constructible) (eval : Evaluator)
    (args : List Value) : ∃ e, (construct eval cls args).outcome u = some (.error e, u) := by
  obtain ⟨slot, hslot, hkey⟩ : ∃ slot ∈ (u.getClass cls).slots, ¬ slot.initarg.hashable = true := by
    simpa [Class.Constructible] using hc
  have hcheck : ∀ initargs, (u.getClass cls).checkInitargs initargs =
      .error (.fault .mismatch) := by
    intro initargs
    have hany : ((u.getClass cls).slots.any fun slot => !slot.initarg.hashable) = true :=
      List.any_eq_true.2 ⟨slot, hslot, by simpa using hkey⟩
    rw [Class.checkInitargs, if_pos hany]
  rw [construct, outcome_bind_ok (outcome_get u)]
  dsimp only
  cases htable : initargTable (u.getClass cls).name args with
  | error e => exact ⟨e, outcome_bind_error (by rw [outcome_ofExcept]) _⟩
  | ok initargs =>
      have hinitargs : (ofExcept (.ok initargs)).outcome u = some (.ok initargs, u) :=
        outcome_ofExcept ..
      rw [outcome_bind_ok hinitargs]
      exact ⟨_, outcome_bind_error (by rw [outcome_ofExcept, hcheck]) _⟩

/-- Making an instance ends as it is said to, and with enough fuel it comes to every end that is
said. -/
theorem ends_construct_iff (hc : (u.getClass cls).Constructible) {r : Except Error Value} :
    Ends (fun n => construct (evaluate n) cls args) u r t ↔ u.Constructs cls args r t := by
  constructor
  · rintro ⟨fuel, h⟩
    rcases (u.getClass cls).refuses_or_takes args with ⟨e, he⟩ | ⟨entries, rfl, htakes⟩
    · rw [outcome_construct_refused hc he] at h
      obtain ⟨rfl, rfl⟩ := Prod.mk.inj (Option.some.inj h)
      exact .refused he
    · have htable := Class.initargTable_keywords (u.getClass cls).name fun a ha => (htakes a ha).1
      have hcheck := Class.checkInitargs_keywords hc htakes
      rcases construct_cases htable h with ⟨e, he, -, -⟩ | ⟨e, hvs, rfl⟩ | ⟨vs, w, hvs, rfl, rfl⟩
      · exact absurd (he.symm.trans hcheck) (by simp)
      · obtain ⟨q, hq, hr⟩ := ends_initialValues_iff.1 ⟨fuel, hvs⟩
        cases q with
        | error e' =>
            obtain rfl := Except.error.inj hr
            exact .stopped htakes hq
        | ok rs => exact absurd hr (by simp [Except.map])
      · obtain ⟨q, hq, hr⟩ := ends_initialValues_iff.1 ⟨fuel, hvs⟩
        cases q with
        | error e => exact absurd hr (by simp [Except.map])
        | ok rs =>
            obtain rfl := Except.ok.inj hr
            exact .made htakes hq
  · intro h
    cases h with
    | refused he => exact ⟨0, outcome_construct_refused hc he _⟩
    | stopped htakes hslots =>
        obtain ⟨fuel, hvs⟩ := ends_initialValues_iff.2 ⟨_, hslots, rfl⟩
        refine ⟨fuel, ?_⟩
        rw [outcome_construct_keywords hc htakes]
        exact outcome_bind_error hvs _
    | made htakes hslots =>
        obtain ⟨fuel, hvs⟩ := ends_initialValues_iff.2 ⟨_, hslots, rfl⟩
        refine ⟨fuel, ?_⟩
        rw [outcome_construct_keywords hc htakes]
        exact outcome_bind_ok hvs _

end Making
end Eval

end SlotLisp
