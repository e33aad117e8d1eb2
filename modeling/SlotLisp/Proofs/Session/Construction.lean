import SlotLisp.Proofs.Classes.Names
import SlotLisp.Proofs.Session.Filling

/-!
The instances that a session makes of a class whose slots are set by symbols. Neither the frame from
which an instance is asked for nor the function that is called makes a difference, and what refuses
arguments is reported unless it has no text.
-/

namespace SlotLisp

open Relation

/-! ## What is reported -/

namespace State

variable {s : State}

theorem settle_initargKey_iff {cls : Symbol} {k : Value} :
    s.settle (.mismatch (.initargKey cls k)) = .mismatch (.initargKey cls k) ↔
    s.writable k = true := by
  rw [settle_eq_self_iff]
  simp [Error.pieces, Mismatch.pieces, Piece.symbol, Piece.display]

theorem settle_unsupplied_iff {slot : Symbol} {type : Value} :
    s.settle (.emptySlot (.unsupplied slot type)) = .emptySlot (.unsupplied slot type) ↔
      s.writable type = true := by
  rw [settle_eq_self_iff]
  simp [Error.pieces, EmptySlot.pieces, Piece.symbol, Piece.source]

/-- The reason to refuse arguments is reported, unless it is a key without a text. -/
theorem settle_refused_iff {c : Class} {args : List Value} {e : Error} (h : c.Refuses args e) :
    s.settle e = e ↔ ∀ k, e = .mismatch (.initargKey c.name k) → s.writable k = true := by
  cases h with
  | odd hodd =>
      rw [settle_eq_self_iff]
      simp [Error.pieces, Arity.pieces, Piece.symbol]
  | @key _ k _ _ _ _ hk =>
      rw [settle_initargKey_iff]
      refine ⟨fun hw j hj => ?_, fun hw => hw k rfl⟩
      obtain ⟨-, rfl⟩ := Mismatch.initargKey.inj (Error.mismatch.inj hj)
      exact hw
  | unknown hkeys hunknown =>
      rw [settle_eq_self_iff]
      simp [Error.pieces, Arity.pieces, Piece.symbol]

end State

namespace Session

open Eval

/-! ## Making instances in a session -/

/-- What holds of making an instance of a class from some arguments, in the state `s`. -/
structure MakesInstances (s : State) (cls : ClassId) (args : List Value) : Prop where
  /-- It makes no difference whether the constructor or `make-instance` is called, nor from
  where. -/
  alike (eval : Evaluator) (env env' : FrameId) (macros macros' : MacroTableId) (v : Value)
    (hv : s.classArgument env' v = .ok cls) :
    (apply eval (.function (.builtin .makeInstance)) env' macros' (v :: args)).outcome s =
      (apply eval (.function (.constructor cls)) env macros args).outcome s
  ends (env : FrameId) (macros : MacroTableId) (r : Except Error Value) (t : State) :
    (∃ fuel, (apply (evaluate fuel) (.function (.constructor cls)) env macros args).outcome s =
      some (r, t)) ↔
      s.Constructs cls args r t
  /-- Arguments are refused by themselves, whatever the evaluator would do. -/
  refused (e : Error) (h : (s.getClass cls).Refuses args e) (eval : Evaluator) (env : FrameId)
    (macros : MacroTableId) :
    (apply eval (.function (.constructor cls)) env macros args).outcome s = some (.error e, s)
  accepted : (¬ ∃ e, (s.getClass cls).Refuses args e) ↔
    ∃ entries, args = keywordArguments entries ∧ ∀ a ∈ entries, (s.getClass cls).Takes a.1
  /-- The new instance is one of the class and holds in every slot what the slot has come to. -/
  holds (entries : List (Symbol × Value)) (rs : List (Option Value)) (w : State)
    (h : FillsInOrder (s.getClass cls) entries (s.getClass cls).slots s (.ok rs) w) :
    let t := (w.addInstance ⟨cls, .ofList (held (s.getClass cls).slots rs)⟩).1
    t.classOf w.instances.size = cls ∧
      (s.getClass cls).slots.map (fun slot =>
        (t.getInstance w.instances.size).values.get? slot.name) = rs
  reported (e : Error) (h : (s.getClass cls).Refuses args e) :
    s.settle e = e ↔ ∀ k, e = .mismatch (.initargKey (s.getClass cls).name k) → s.writable k = true
  trapped (name : Symbol) (type : Value) (t : State)
    (h : s.Constructs cls args (.error (.emptySlot (.unsupplied name type))) t) :
    t.settle (.emptySlot (.unsupplied name type)) = .emptySlot (.unsupplied name type) ↔
      t.writable type = true

theorem makesInstances {s : State} (hs : s.Sound) {cls : ClassId} (hcls : cls < s.classes.size)
    (hc : (s.getClass cls).SetBySymbols) (args : List Value) : MakesInstances s cls args where
  alike eval env env' macros macros' v hv := by
    have hask : (ask fun s => s.classArgument env' v).outcome s = some (.ok cls, s) := by
      rw [outcome_ask, hv]
    have hcall :
      (apply eval (.function (.builtin .makeInstance)) env' macros' (v :: args)).outcome s =
        ((ask fun s => s.classArgument env' v) >>= fun c => construct eval c args).outcome s := by
      rw [apply]
      rfl
    rw [hcall, outcome_bind_ok hask, apply]
  ends env macros r t := by
    simp only [apply]
    exact ends_construct_iff hc.constructible
  refused e h eval env macros := by
    rw [apply]
    exact outcome_construct_refused hc.constructible h eval
  accepted := Class.not_refuses_iff hc.constructible
  holds _ _ _ h := h.holds (State.getClass_sound hs hcls).slots_nodup cls
  reported _ h := State.settle_refused_iff h
  trapped _ _ _ _ := State.settle_unsupplied_iff

theorem getClass_of_defines {s t : State} {d : ClassDraft} {env : FrameId} {macros : MacroTableId}
    (h : s.Defines t d env macros) : t.getClass s.classes.size = s.classOfDraft d env macros := by
  rw [State.getClass, h.classes, Array.getElem?_push_size]
  rfl

/-- A class definition that is evaluated to a class has defined it. -/
theorem defines_of_evaluate {s t : State} (hs : s.Sound) {env : FrameId}
    (henv : env < s.frames.size) {macros : MacroTableId}
    (hplain : s.transformer? macros Symbol.defclass = none) {args : List Value}
    {fuel : Nat} {v : Value}
    (h : (evaluate fuel (.list (.symbol Symbol.defclass :: args)) env macros).outcome s =
      some (.ok v, t)) :
    ∃ d, s.draftClass env args = .ok d ∧ s.Defines t d env macros ∧
    v = .ref (.cls s.classes.size) := by
  cases fuel with
  | zero => exact absurd h (by simp [evaluate])
  | succ fuel =>
      rw [outcome_evaluate_plain hplain] at h
      obtain ⟨d, hd, rfl, -⟩ := defineClass_eq_ok h
      refine ⟨d, hd, ?_, rfl⟩
      by_cases hname : d.Nameable
      · obtain ⟨t', ht', hdefines⟩ := defineClass_defines henv hd hname macros
        obtain ⟨-, rfl⟩ := Prod.mk.inj (Option.some.inj (h.symm.trans ht'))
        exact hdefines
      · obtain ⟨e, t', ht', -⟩ := defineClass_breaks hs henv hd hname macros
        exact absurd (h.symm.trans ht') (by simp)

/-- Over all runs of a session. A class definition binds the constructor of the class that it
defines, and this class stays one of the frame and the macros of the definition. Any class whose
slots are set by symbols makes instances from any arguments as `MakesInstances` says: what is wrong
with the arguments is found before anything is evaluated, and then every slot in order comes to the
last value that is given for it, to what its default comes to in the frame of the class, or to
nothing. -/
theorem Reachable.makes_instances {settings : Settings} {selection : Option Selection}
    (hfresh : Fresh settings selection) {s : State} (hs : Reachable settings selection s) :
    let x := (full (State.start settings) selection).2
    (∀ env < s.frames.size, ∀ macros, s.transformer? macros Symbol.defclass = none →
      ∀ args fuel v t,
      s.Knows (.list (.symbol Symbol.defclass :: args)) →
      (evaluate fuel (.list (.symbol Symbol.defclass :: args)) env macros).outcome s =
        some (.ok v, t) →
      ∃ c d, v = .ref (.cls c) ∧ s.draftClass env args = .ok d ∧ s.Defines t d env macros ∧
        (.symbol (constructorName d.name), .function (.constructor c)) ∈ d.bindings c ∧
        ∀ u, ReflTransGen (Step x) t u → c < u.classes.size ∧
        u.getClass c = s.classOfDraft d env macros ∧
          (u.getClass c).frame = env ∧ (u.getClass c).macros = macros) ∧
    ∀ cls < s.classes.size, (s.getClass cls).SetBySymbols → ∀ args, MakesInstances s cls args := by
  intro x
  have hsound := hs.sound hfresh
  refine ⟨fun env henv macros hplain args fuel v t hform h => ?_,
    fun cls hcls hc args => makesInstances hsound hcls hc args⟩
  obtain ⟨d, hd, hdefines, rfl⟩ := defines_of_evaluate hsound henv hplain h
  obtain ⟨hlead, -⟩ := keeps_evaluate fuel s _ env macros hform hsound _ _ h
  refine ⟨_, d, rfl, hd, hdefines, .tail _ (.head _), fun u hu => ?_⟩
  have hlater := leads_of_steps hlead.sound hu
  have hsize : s.classes.size < t.classes.size := by
    rw [hdefines.classes, Array.size_push]
    omega
  have hclass : u.getClass s.classes.size = s.classOfDraft d env macros := by
    rw [hlater.grows.getClass hsize, getClass_of_defines hdefines]
  exact ⟨Nat.lt_of_lt_of_le hsize hlater.grows.classes,
    hclass, by rw [hclass]; rfl, by rw [hclass]; rfl⟩

/-- A class with a slot that has a default and two that have none, from which an instance is made
with the second slot given twice. -/
theorem Reachable.makes_instances_repeated :
    let s := (full (State.start Settings.standard) none).1
    let args : List Value := [.symbol ⟨"p"⟩, .list [],
      .list [.list [.symbol ⟨"x"⟩, .int 1], .symbol ⟨"y"⟩, .symbol ⟨"z"⟩]]
    let form : Value := .list (.symbol Symbol.defclass :: args)
    let given : List Value := [.symbol ⟨":y"⟩, .int 5, .symbol ⟨":y"⟩, .int 6]
    Fresh Settings.standard none ∧ Reachable Settings.standard none s ∧ 0 < s.frames.size ∧
      s.transformer? 0 Symbol.defclass = none ∧ s.Knows form ∧
      ∃ c t, (evaluate 1 form 0 0).outcome s = some (.ok (.ref (.cls c)), t) ∧
        Reachable Settings.standard none t ∧ c < t.classes.size ∧ (t.getClass c).SetBySymbols ∧
        MakesInstances t c given ∧
        ∃ fuel i w, (apply (evaluate fuel) (.function (.constructor c)) 0 0 given).outcome t =
            some (.ok (.ref (.inst i)), w) ∧
          w.classOf i = c ∧
          (t.getClass c).slots.map (fun slot => (w.getInstance i).values.get? slot.name) =
            [some (.int 1), some (.int 6), none] := by
  intro s args form given
  have hs : Reachable Settings.standard none s := .start
  have hframe : 0 < s.frames.size := by decide +kernel
  have hplain : s.transformer? 0 Symbol.defclass = none := standardClassForms_start.plain
  have hknows : s.Knows form := by simp [State.Knows, form, args]
  obtain ⟨v, t, ht⟩ : ∃ v t, (evaluate 1 form 0 0).outcome s = some (.ok v, t) := ⟨_, _, rfl⟩
  let x : Slot := Slot.ofDeclaration ⟨"p"⟩ ⟨⟨"x"⟩, some (.int 1), []⟩
  let y : Slot := Slot.ofDeclaration ⟨"p"⟩ ⟨⟨"y"⟩, none, []⟩
  let z : Slot := Slot.ofDeclaration ⟨"p"⟩ ⟨⟨"z"⟩, none, []⟩
  have hdraft : s.draftClass 0 args = .ok ⟨⟨"p"⟩, [], [x, y, z], .ofList []⟩ := rfl
  obtain ⟨hdefined, -⟩ := Reachable.makes_instances fresh_standard hs
  obtain ⟨c, d, rfl, hd, -, -, hlater⟩ := hdefined 0 hframe 0 hplain args 1 v t hknows ht
  obtain rfl := Except.ok.inj (hdraft.symm.trans hd)
  obtain ⟨hsize, hclass, -, -⟩ := hlater t .refl
  have hreached : Reachable Settings.standard none t := hs.step (.evaluation hknows ht)
  have hslots : (t.getClass c).slots = [x, y, z] := by rw [hclass]; rfl
  have hsymbols : (t.getClass c).SetBySymbols := by
    rw [Class.SetBySymbols, hslots]
    refine List.forall_mem_cons.2 ⟨⟨_, rfl⟩, List.forall_mem_cons.2 ⟨⟨_, rfl⟩, ?_⟩⟩
    exact List.forall_mem_singleton.2 ⟨_, rfl⟩
  obtain ⟨-, hmakes⟩ := Reachable.makes_instances fresh_standard hreached
  have hmade := hmakes c hsize hsymbols given
  let entries : List (Symbol × Value) := [(⟨":y"⟩, .int 5), (⟨":y"⟩, .int 6)]
  have htakes : ∀ e ∈ entries, (t.getClass c).Takes e.1 := by
    have hy : (t.getClass c).Takes ⟨":y"⟩ := ⟨by decide, y, by rw [hslots]; simp, rfl⟩
    exact List.forall_mem_cons.2 ⟨hy, List.forall_mem_singleton.2 hy⟩
  -- Only the first slot has a default that is evaluated.
  have hx : Fills (t.getClass c) entries x t (.ok (some (.int 1))) t :=
    .supplied (Slot.argument?_eq_none_iff.1 rfl) rfl ⟨1, rfl⟩ (by simp)
  have hy : Fills (t.getClass c) entries y t (.ok (some (.int 6))) t :=
    .given ⟨⟨":y"⟩, [(⟨":y"⟩, .int 5)], [], rfl, rfl, by simp⟩
  have hz : Fills (t.getClass c) entries z t (.ok none) t :=
    .unbound (Slot.argument?_eq_none_iff.1 rfl) rfl
  have hfilled : FillsInOrder (t.getClass c) entries (t.getClass c).slots t
      (.ok [some (.int 1), some (.int 6), none]) t := by
    rw [hslots]
    exact .cons (q := .ok [some (.int 6), none]) hx
      (.cons (q := .ok [none]) hy (.cons (q := .ok []) hz .nil))
  obtain ⟨fuel, hout⟩ := (hmade.ends 0 0 _ _).2 (.made htakes hfilled)
  obtain ⟨hcls, hheld⟩ := hmade.holds entries _ t hfilled
  exact ⟨fresh_standard, hs, hframe, hplain, hknows, c, t, ht, hreached, hsize, hsymbols, hmade,
    fuel, _, _, hout,
    hcls, hheld⟩

/-- A key that is a number with too many digits for a text: it is no keyword, but what is reported
is no error of its kind. -/
theorem not_reported_huge_key :
    let s := (full (State.start Settings.standard) none).1
    let args : List Value := [.symbol ⟨"p"⟩, .list [], .list [.list [.symbol ⟨"x"⟩, .int 0]]]
    let form : Value := .list (.symbol Symbol.defclass :: args)
    let key : Value := .int (Nat.pow 10 maxDigits)
    Reachable Settings.standard none s ∧ ¬ key.IsKeyword ∧
      ∃ c t, (evaluate 1 form 0 0).outcome s = some (.ok (.ref (.cls c)), t) ∧
        Reachable Settings.standard none t ∧ (t.getClass c).SetBySymbols ∧
        ∀ eval, ∃ e, (apply eval (.function (.constructor c)) 0 0 [key, .int 1]).outcome t =
          some (.error e, t) ∧
          t.settle e = .fault .badValue ∧ ∀ why, t.settle e ≠ .mismatch why := by
  intro s args form key
  have hs : Reachable Settings.standard none s := .start
  have hframe : 0 < s.frames.size := by decide +kernel
  have hplain : s.transformer? 0 Symbol.defclass = none := standardClassForms_start.plain
  have hknows : s.Knows form := by simp [State.Knows, form, args]
  have hkey : ¬ key.IsKeyword := by
    rintro ⟨k, hk, -⟩
    exact Value.noConfusion hk
  obtain ⟨v, t, ht⟩ : ∃ v t, (evaluate 1 form 0 0).outcome s = some (.ok v, t) := ⟨_, _, rfl⟩
  let x : Slot := Slot.ofDeclaration ⟨"p"⟩ ⟨⟨"x"⟩, some (.int 0), []⟩
  have hdraft : s.draftClass 0 args = .ok ⟨⟨"p"⟩, [], [x], .ofList []⟩ := rfl
  obtain ⟨d, hd, hdefines, rfl⟩ := defines_of_evaluate (hs.sound fresh_standard) hframe hplain ht
  obtain rfl := Except.ok.inj (hdraft.symm.trans hd)
  have hsymbols : (t.getClass s.classes.size).SetBySymbols := by
    rw [getClass_of_defines hdefines]
    exact List.forall_mem_singleton.2 ⟨_, rfl⟩
  have hrefused : (t.getClass s.classes.size).Refuses [key, .int 1]
      (.mismatch (.initargKey (t.getClass s.classes.size).name key)) :=
    @Class.Refuses.key _ [] key (.int 1) [] (by simp [keywordArguments, named, Declaration.unpairs])
      (by simp) hkey
  have hsettle : t.settle (.mismatch (.initargKey (t.getClass s.classes.size).name key)) =
      .fault .badValue := by
    have hfault : t.textFault? key = some .badValue :=
      State.textFault?_int_of_long (by decide +kernel)
    refine State.settle_of_fault ?_
    simp [Error.pieces, Mismatch.pieces, Piece.symbol, Piece.display, Piece.textFault?, hfault,
      List.findSome?_cons]
  refine ⟨hs, hkey, _, t, ht, hs.step (.evaluation hknows ht), hsymbols, fun eval =>
    ⟨_, ?_, hsettle, ?_⟩⟩
  · rw [apply]
    exact outcome_construct_refused hsymbols.constructible hrefused eval
  · rw [hsettle]
    simp

end Session
end SlotLisp
