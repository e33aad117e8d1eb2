import SlotLisp.Proofs.Classes.Names
import SlotLisp.Proofs.Session.Filling

/-!
What the names that a class definition makes up stand for, over all runs of a session. The class,
its constructor, its predicate and its readers do what their names say at any later time. They are
all to be found under their names unless a slot is called `p`, whose reader takes the place of the
predicate, or `make` in a class called `make` or the like, whose reader takes the place of the
constructor.
-/

namespace SlotLisp

open Relation

namespace Session

variable {u : State}

/-! ## Making instances -/

/-- An instance that is new since `u` and holds in every slot what the slot comes to from there. -/
structure NewInstance (u : State) (c : ClassId) (entries : List (Symbol × Value)) (i : InstanceId)
    (t : State) : Prop where
  new : u.instances.size ≤ i
  made : i < t.instances.size
  cls : t.classOf i = c
  slots : ∃ w, FillsInOrder (u.getClass c) entries (u.getClass c).slots u
    (.ok ((u.getClass c).slots.map fun slot => (t.getInstance i).values.get? slot.name)) w

/-- If making an instance ends in a value, the arguments are keywords of slots and the value is a
new instance. -/
theorem newInstance_of_constructs (hu : u.Sound) {c : ClassId} (hc : c < u.classes.size)
    {args : List Value} {v : Value} {t : State} (h : u.Constructs c args (.ok v) t) :
    ∃ entries i, args = keywordArguments entries ∧ (∀ a ∈ entries, (u.getClass c).Takes a.1) ∧
      v = .ref (.inst i) ∧ NewInstance u c entries i t := by
  have hclass := State.getClass_sound hu hc
  cases h with
  | @made entries rs w htakes hslots =>
      obtain ⟨hcls, hholds⟩ := hslots.holds hclass.slots_nodup c
      refine ⟨entries, w.instances.size, rfl, htakes, rfl, ?_, ?_, hcls, w, ?_⟩
      · exact (hslots.leads hu hclass.defaults).grows.instances
      · rw [State.addInstance, Array.size_push]
        exact Nat.lt_succ_self _
      · rw [hholds]
        exact hslots

/-! ## Recognizing instances -/

/-- The predicate of a class says whether its argument is an instance that descends from the
class. -/
theorem outcome_predicate (hu : u.Sound) {v : Value} (hv : u.Knows v) (c : ClassId)
    (eval : Evaluator) (env : FrameId) (macros : MacroTableId) :
    ∃ b, (Eval.apply eval (.function (.predicate c)) env macros [v]).outcome u =
      some (.ok (.ofBool b), u) ∧
      (b = true ↔ ∃ i, v = .ref (.inst i) ∧ ReflTransGen u.DirectBase (u.classOf i) c) := by
  refine ⟨v.isInstance?.any fun i => u.descends (u.classOf i) c, ?_, ?_⟩
  · rw [Eval.apply, Eval.applyPredicate, Eval.outcome_bind_ok (Eval.outcome_get u)]
    rfl
  · rw [Option.any_eq_true]
    constructor
    · rintro ⟨i, hi, hdescends⟩
      have hsize := State.Knows.isInstance? hv hi
      refine ⟨i, ?_, (State.descends_iff hu (State.classOf_lt hu hsize)).1 hdescends⟩
      unfold Value.isInstance? at hi
      split at hi
      next j => rw [Option.some.inj hi]
      next => exact absurd hi (by simp)
    · rintro ⟨i, rfl, hbase⟩
      have hsize : i < u.instances.size := hv
      exact ⟨i, rfl, (State.descends_iff hu (State.classOf_lt hu hsize)).2 hbase⟩

/-! ## The roles of the names -/

/-- What the functions of a class do in a state, wherever they are called from: the constructor ends
as making an instance ends, and with a value only if this is a new instance; the predicate
recognizes the instances of the class, and the readers give the values of their slots. -/
structure PlaysRoles (u : State) (c : ClassId) (slots : List Symbol) : Prop where
  constructs (hmade : (u.getClass c).Constructible) (env : FrameId) (macros : MacroTableId)
    (args : List Value) (r : Except Error Value) (t : State) :
    (∃ fuel, (Eval.apply (evaluate fuel) (.function (.constructor c)) env macros args).outcome u =
      some (r, t)) ↔ u.Constructs c args r t
  /-- Exactly the keywords of slots with values are taken. -/
  takes (hmade : (u.getClass c).Constructible) (args : List Value) :
    (¬ ∃ e, (u.getClass c).Refuses args e) ↔
      ∃ entries, args = keywordArguments entries ∧ ∀ a ∈ entries, (u.getClass c).Takes a.1
  makes (args : List Value) (v : Value) (t : State) (h : u.Constructs c args (.ok v) t) :
    ∃ entries i, args = keywordArguments entries ∧ (∀ a ∈ entries, (u.getClass c).Takes a.1) ∧
      v = .ref (.inst i) ∧ NewInstance u c entries i t
  /-- A key that can be no key of a mapping leaves the class without instances. -/
  unusable (hmade : ¬ (u.getClass c).Constructible) (eval : Evaluator) (env : FrameId)
    (macros : MacroTableId) (args : List Value) :
    ∃ e, (Eval.apply eval (.function (.constructor c)) env macros args).outcome u =
      some (.error e, u)
  recognizes (eval : Evaluator) (env : FrameId) (macros : MacroTableId) (v : Value)
    (hv : u.Knows v) :
    ∃ b, (Eval.apply eval (.function (.predicate c)) env macros [v]).outcome u =
        some (.ok (.ofBool b), u) ∧
      (b = true ↔ ∃ i, v = .ref (.inst i) ∧ ReflTransGen u.DirectBase (u.classOf i) c)
  reads (eval : Evaluator) (env : FrameId) (macros : MacroTableId) (name a : Symbol)
    (ha : a ∈ slots) (i : InstanceId) (hi : i < u.instances.size)
    (hbase : ReflTransGen u.DirectBase (u.classOf i) c) :
    (Eval.apply eval (.function (.reader c name a)) env macros [.ref (.inst i)]).outcome u =
      some (u.slotAnswer i a, u)

theorem playsRoles (hu : u.Sound) {c : ClassId} (hc : c < u.classes.size) {slots : List Symbol}
    (hslots : ∀ a ∈ slots, a ∈ u.slotNames c) : PlaysRoles u c slots where
  constructs hmade env macros args r t := by
    simp only [Eval.apply]
    exact Eval.ends_construct_iff hmade
  takes hmade _ := Class.not_refuses_iff hmade
  makes _ _ _ h := newInstance_of_constructs hu hc h
  unusable hmade eval env macros args := by
    rw [Eval.apply]
    exact Eval.outcome_construct_unusable hmade eval args
  recognizes eval env macros _ hv := outcome_predicate hu hv c eval env macros
  reads eval env macros name a ha _ hi hbase :=
    Eval.outcome_reader hu (hslots a ha) hi hbase eval name env macros

/-- A class form that leaves the names of its readers as they are usual, and that is evaluated to a
class: the class is bound to its name and each reader to its own. The constructor is bound to its
name exactly if no slot is called `make` in a class called `make` or the like, and the predicate to
its name exactly if no slot is called `p`. At any later time each of these functions plays its
role. -/
theorem Reachable.names_play_roles_iff {settings : Settings} {selection : Option Selection}
    (hfresh : Fresh settings selection) {s : State} (hs : Reachable settings selection s)
    {env : FrameId} (henv : env < s.frames.size) {macros : MacroTableId}
    (hplain : s.transformer? macros Symbol.defclass = none) {n : Symbol} {bases slots : Value}
    {options : List Value}
    (hform : s.Knows (.list (.symbol Symbol.defclass :: .symbol n :: bases :: slots :: options)))
    (husual : ∀ ds, declarationsOf slots = .ok ds → ∀ d ∈ ds, d.option? Slot.accessorKey = none)
    {fuel : Nat} {v : Value} {t : State}
    (h : (evaluate fuel (.list (.symbol Symbol.defclass :: .symbol n :: bases :: slots :: options))
      env macros).outcome s = some (.ok v, t)) :
    let x := (full (State.start settings) selection).2
    ∃ c ds, v = .ref (.cls c) ∧ (t.getClass c).name = n ∧ declarationsOf slots = .ok ds ∧
      t.lookup? env n = some v ∧
      (t.lookup? env (constructorName n) = some (.function (.constructor c)) ↔
        ¬ (⟨"make"⟩ ∈ ds.map Declaration.name ∧ ∃ k, n = makes k)) ∧
      (t.lookup? env (predicateName n) = some (.function (.predicate c)) ↔
        ⟨"p"⟩ ∉ ds.map Declaration.name) ∧
      (∀ a ∈ ds.map Declaration.name, t.lookup? env (readerName n a) =
        some (.function (.reader c (readerName n a) a))) ∧
      ∀ u, ReflTransGen (Step x) t u → PlaysRoles u c (ds.map Declaration.name) := by
  intro x
  have hsound := hs.sound hfresh
  obtain ⟨hlead, -⟩ := keeps_evaluate fuel s _ env macros hform hsound _ _ h
  cases fuel with
  | zero => exact absurd h (by simp [evaluate])
  | succ fuel =>
      rw [Eval.outcome_evaluate_plain hplain] at h
      cases hdraft : s.draftClass env (.symbol n :: bases :: slots :: options) with
      | error e =>
          rw [Eval.outcome_defineClass_error hdraft] at h
          exact absurd h (by simp)
      | ok d =>
          obtain ⟨rfl, ds, hds, hown⟩ := State.draftClass_eq_ok hdraft
          have hbindings := bindings_usual hown (husual ds hds) s.classes.size
          obtain ⟨hv, rfl⟩ := Prod.mk.inj (Option.some.inj
            (h.symm.trans (Eval.outcome_defineClass_named hdraft hbindings macros)))
          obtain rfl := Except.ok.inj hv
          have hbinds := State.binds_addClass (s.classOfDraft d env macros) henv
            (usualBindings d.name s.classes.size (ds.map Declaration.name))
          have hclass := State.getClass_bindAll s (s.classOfDraft d env macros) env
            (usualBindings d.name s.classes.size (ds.map Declaration.name))
          refine ⟨s.classes.size, ds, rfl, congrArg Class.name hclass, hds, hbinds.lookup?_class,
            hbinds.lookup?_constructor_iff, hbinds.lookup?_predicate_iff,
            fun a ha => hbinds.lookup?_reader ha, fun u hu => ?_⟩
          -- What is bound in a sound state refers to what is there, and stays there.
          have hlater := leads_of_steps hlead.sound hu
          have hc : s.classes.size < u.classes.size :=
            hlater.grows.has _ (State.knows_lookup? hlead.sound hbinds.lookup?_class)
          refine playsRoles hlater.sound hc fun a ha => ?_
          exact (hlater.grows.has _ (State.knows_lookup? hlead.sound (hbinds.lookup?_reader ha))).2

/-- A class of points with two slots, none of which takes a name away. -/
theorem Reachable.names_play_roles_iff_point :
    let x := (full (State.start Settings.standard) none).2
    let s := (full (State.start Settings.standard) none).1
    let n : Symbol := ⟨"point"⟩
    let slots : Value := .list [.list [.symbol ⟨"x"⟩, .int 0], .symbol ⟨"y"⟩]
    let form : Value := .list [.symbol Symbol.defclass, .symbol n, .list [], slots]
    Reachable Settings.standard none s ∧ 0 < s.frames.size ∧
      s.transformer? 0 Symbol.defclass = none ∧ s.Knows form ∧
      (∀ ds, declarationsOf slots = .ok ds → ∀ d ∈ ds, d.option? Slot.accessorKey = none) ∧
      ∃ c t, (evaluate 1 form 0 0).outcome s = some (.ok (.ref (.cls c)), t) ∧
        t.lookup? 0 n = some (.ref (.cls c)) ∧
        t.lookup? 0 (constructorName n) = some (.function (.constructor c)) ∧
        t.lookup? 0 (predicateName n) = some (.function (.predicate c)) ∧
        t.lookup? 0 (readerName n ⟨"y"⟩) = some (.function (.reader c (readerName n ⟨"y"⟩) ⟨"y"⟩)) ∧
        ∀ u, ReflTransGen (Step x) t u → PlaysRoles u c [⟨"x"⟩, ⟨"y"⟩] := by
  intro x s n slots form
  have hs : Reachable Settings.standard none s := .start
  have hframe : 0 < s.frames.size := by decide +kernel
  have hplain : s.transformer? 0 Symbol.defclass = none := standardClassForms_start.plain
  have hknows : s.Knows form := by simp [State.Knows, form, slots]
  have hds : declarationsOf slots = .ok [⟨⟨"x"⟩, some (.int 0), []⟩, ⟨⟨"y"⟩, none, []⟩] := rfl
  have husual : ∀ ds, declarationsOf slots = .ok ds →
      ∀ d ∈ ds, d.option? Slot.accessorKey = none := by
    intro ds h
    obtain rfl := Except.ok.inj (hds.symm.trans h)
    simp [Declaration.option?]
  obtain ⟨v, t, ht⟩ : ∃ v t, (evaluate 1 form 0 0).outcome s = some (.ok v, t) := ⟨_, _, rfl⟩
  obtain ⟨c, ds, rfl, -, hds', hclass, hconstructor, hpredicate, hreaders, hroles⟩ :=
    Reachable.names_play_roles_iff fresh_standard hs hframe hplain hknows husual ht
  obtain rfl := Except.ok.inj (hds.symm.trans hds')
  refine ⟨hs, hframe, hplain, hknows, husual, c, t, ht, hclass, hconstructor.2 ?_, hpredicate.2 ?_,
    hreaders _ ?_, hroles⟩
  · simp
  · simp
  · simp

/-- A class of points with a slot called `p`: its reader is what the name of the predicate is bound
to, and ends in an error for an argument of which the predicate says that it is no point. -/
theorem predicate_replaced_by_reader :
    let s := (full (State.start Settings.standard) none).1
    let n : Symbol := ⟨"point"⟩
    let slots : Value := .list [.list [.symbol ⟨"p"⟩, .int 0]]
    let form : Value := .list [.symbol Symbol.defclass, .symbol n, .list [], slots]
    Reachable Settings.standard none s ∧
      (∃ ds, declarationsOf slots = .ok ds ∧ ∀ d ∈ ds, d.option? Slot.accessorKey = none) ∧
      ∃ c t, (evaluate 1 form 0 0).outcome s = some (.ok (.ref (.cls c)), t) ∧
        ∃ f, t.lookup? 0 (predicateName n) = some f ∧
          ∀ eval, ∃ e, (Eval.apply eval f 0 0 [.int 5]).outcome t = some (.error e, t) := by
  intro s n slots form
  have hs : Reachable Settings.standard none s := .start
  have hframe : 0 < s.frames.size := by decide +kernel
  have hplain : s.transformer? 0 Symbol.defclass = none := standardClassForms_start.plain
  clear_value s
  let e : Declaration := ⟨⟨"p"⟩, some (.int 0), []⟩
  let d : ClassDraft := ⟨n, [], [Slot.ofDeclaration n e], .ofList []⟩
  have hds : declarationsOf slots = .ok [e] := rfl
  have husual : ∀ d ∈ [e], d.option? Slot.accessorKey = none := by simp [Declaration.option?, e]
  have hdraft : s.draftClass 0 [.symbol n, .list [], slots] = .ok d := rfl
  have hout := (Eval.outcome_evaluate_plain hplain 0).trans
    (Eval.outcome_defineClass_named hdraft (bindings_usual rfl husual _) 0)
  have hbinds := State.binds_addClass (s.classOfDraft d 0 0) hframe
    (usualBindings n s.classes.size [⟨"p"⟩])
  have hname : predicateName n = readerName n ⟨"p"⟩ := predicateName_eq_readerName_iff.2 rfl
  refine ⟨hs, ⟨_, hds, husual⟩, s.classes.size, _, hout,
    .function (.reader s.classes.size (readerName n ⟨"p"⟩) ⟨"p"⟩), ?_, fun eval => ?_⟩
  · rw [hname]
    exact hbinds.lookup?_reader List.mem_cons_self
  · rw [Eval.apply, Eval.applyReader, Eval.outcome_bind_ok (Eval.outcome_get _)]
    exact ⟨_, rfl⟩

end Session
end SlotLisp
