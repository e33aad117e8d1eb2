import SlotLisp.Proofs.Macros.Agreement
import SlotLisp.Proofs.Session.Atomicity
import Mathlib.Data.List.Forall2

/-!
Full expansion. Where the macros of a table are pure functions that never give their own call back,
the result of a full expansion holds no macro call outside quoted data, and to expand it again
changes nothing. The items of a list are expanded after its head, though, and nothing looks at the
list again: an item in front that becomes the bare name of a macro makes a call of it. That is the
one thing to be ruled out.
-/

namespace SlotLisp

/-- `w` is `v` or stands in it at a place that full expansion comes to: through lists and dotted
lists, but not into quoted data. -/
inductive Value.Exposes : Value → Value → Prop
  | self (v : Value) : Exposes v v
  | item {items : List Value} {x w : Value} (hquoted : Eval.isQuotedData items = false)
      (hx : x ∈ items) (h : Exposes x w) : Exposes (.list items) w
  | dottedItem {items : List Value} {tail x w : Value} (hx : x ∈ items) (h : Exposes x w) :
      Exposes (.dotted items tail) w
  | tail {items : List Value} {tail w : Value} (h : Exposes tail w) : Exposes (.dotted items tail) w

namespace State

/-- What there was in `s` is in `t` as it was: only frames and counters may be new. -/
structure Undisturbed (s t : State) : Prop where
  settings : t.settings = s.settings
  frames : ∀ f < s.frames.size, t.frames[f]? = s.frames[f]?
  classes : t.classes = s.classes
  instances : t.instances = s.instances
  macroTables : t.macroTables = s.macroTables

/-- The macros of a table are pure functions: from `s` on they disturb nothing, and none gives back
a form equal to the call that it was given. -/
structure PureMacros (s : State) (eval : Evaluator) (env : FrameId) (macros : MacroTableId) :
    Prop where
  undisturbed {t u : State} {n : Symbol} {x : Transformer} {args : List Value}
    {r : Except Error Value} (ht : s.Undisturbed t) (hx : s.transformer? macros n = some x)
    (h : (Eval.transform eval x args env macros).outcome t = some (r, u)) : t.Undisturbed u
  progress {t u : State} {n : Symbol} {x : Transformer} {args : List Value} {v : Value}
    (ht : s.Undisturbed t) (hx : s.transformer? macros n = some x)
    (h : (Eval.transform eval x args env macros).outcome t = some (.ok v, u)) :
    u.equal v (.list (.symbol n :: args)) = false

section Expansion

variable (s : State) (eval : Evaluator) (env : FrameId) (macros : MacroTableId)

def HeadTo (form v : Value) : Prop :=
  ∃ t u n, s.Undisturbed t ∧ (Eval.expandHead eval env macros n form).outcome t = some (.ok v, u)

/-- The full expansion of a form can come to expanding another one, outside quoted data. -/
inductive Meets : Value → Value → Prop
  | self (form : Value) : Meets form form
  | item {form x y : Value} {items : List Value} (h : s.HeadTo eval env macros form (.list items))
      (hquoted : Eval.isQuotedData items = false) (hx : x ∈ items) (hy : Meets x y) : Meets form y
  | dottedItem {form tail x y : Value} {items : List Value}
      (h : s.HeadTo eval env macros form (.dotted items tail)) (hx : x ∈ items) (hy : Meets x y) :
      Meets form y
  | tail {form tail y : Value} {items : List Value}
      (h : s.HeadTo eval env macros form (.dotted items tail)) (hy : Meets tail y) : Meets form y

/-- The full expansion of a form can come to a list, outside quoted data, whose first item expands
to the bare name of a macro. -/
def Clashes (form : Value) : Prop :=
  ∃ y head rest n, s.Meets eval env macros form y ∧
    s.HeadTo eval env macros y (.list (head :: rest)) ∧
    Eval.isQuotedData (head :: rest) = false ∧ s.HeadTo eval env macros head (.symbol n) ∧
    (s.transformer? macros n).isSome

end Expansion

variable {s t u : State} {eval : Evaluator} {env : FrameId} {macros : MacroTableId} {form v : Value}

/-! ## States in which nothing is disturbed -/

theorem Undisturbed.refl (s : State) : s.Undisturbed s := ⟨rfl, fun _ _ => rfl, rfl, rfl, rfl⟩

theorem Undisturbed.trans (hst : s.Undisturbed t) (htu : t.Undisturbed u) : s.Undisturbed u where
  settings := htu.settings.trans hst.settings
  frames f hf := by
    have hs := hst.frames f hf
    have hsize : f < t.frames.size := by
      rw [Array.getElem?_eq_getElem hf] at hs
      exact (Array.getElem?_eq_some_iff.1 hs).1
    exact (htu.frames f hsize).trans hs
  classes := htu.classes.trans hst.classes
  instances := htu.instances.trans hst.instances
  macroTables := htu.macroTables.trans hst.macroTables

theorem Undisturbed.childFrame (s : State) (f : FrameId) : s.Undisturbed (s.childFrame f).1 :=
  ⟨rfl, fun _ hg => Array.getElem?_push_lt hg |>.trans (Array.getElem?_eq_getElem hg).symm,
    rfl, rfl, rfl⟩

theorem Undisturbed.transformer?_eq (h : s.Undisturbed t) (n : Symbol) :
    t.transformer? macros n = s.transformer? macros n := by
  rw [transformer?, transformer?, macroTable, macroTable, h.macroTables]

theorem Undisturbed.macroCall?_eq (h : s.Undisturbed t) (form : Value) :
    t.macroCall? macros form = s.macroCall? macros form := by
  unfold macroCall?
  split
  · rw [h.transformer?_eq]
  · rfl

theorem Undisturbed.equal_eq (h : s.Undisturbed t) (v w : Value) : t.equal v w = s.equal v w := by
  have hsame : ∀ depth r q, t.sameRef depth r q = s.sameRef depth r q := by
    intro depth
    induction depth with
    | zero => exact fun _ _ => rfl
    | succ depth ih =>
        have ih : t.sameRef depth = s.sameRef depth := funext fun r => funext fun q => ih r q
        intro r q
        unfold sameRef
        simp only [ih, classOf, getInstance, getClass, h.classes, h.instances]
  have hfun : t.same = s.same := by
    funext r q
    rw [same, same, h.classes, h.instances, hsame]
  rw [equal, equal, hfun]

theorem HeadTo.intro {w : Value} {n : Nat} (h : s.Undisturbed t)
    (hout : (Eval.expandHead eval env macros n v).outcome t = some (.ok w, u)) :
    s.HeadTo eval env macros v w :=
  ⟨t, u, n, h, hout⟩

theorem Clashes.of_meets {w : Value} (h : s.Clashes eval env macros w)
    (hmeets : ∀ y, s.Meets eval env macros w y → s.Meets eval env macros v y) :
    s.Clashes eval env macros v := by
  obtain ⟨y, head, rest, n, hy, hclash⟩ := h
  exact ⟨y, head, rest, n, hmeets y hy, hclash⟩

end State

theorem Value.equalBy_vector (same : Ref → Ref → Bool) (v : Value) (xs : List Value) :
    v.equalBy same (.vector xs) = v.equalBy same (.list xs) := by
  cases v with
  | _ => rfl

theorem Value.sameMark_symbol (v : Value) (n : Symbol) : v.sameMark (.symbol n) = false := by
  simp [sameMark]

/-- A list equals itself if its items do. -/
theorem Value.itemsEqualBy_self {same : Ref → Ref → Bool} {xs : List Value}
    (h : ∀ x ∈ xs, x.equalBy same x = true) : itemsEqualBy same xs xs = true := by
  induction xs with
  | nil => rfl
  | cons x xs ih =>
      have hx := h x List.mem_cons_self
      have hxs := ih fun y hy => h y (List.mem_cons_of_mem x hy)
      simp only [itemsEqualBy, hx, hxs, Bool.or_true, Bool.and_true]

namespace Eval

variable {s t u : State} {eval : Evaluator} {env : FrameId} {macros : MacroTableId} {form v : Value}

open State

/-! ## The head -/

/-- A form that is no call and equals itself is its own expansion. -/
theorem outcome_expandHead_self (hcall : s.macroCall? macros form = none)
    (hself : s.equal form form = true) (n : Nat) :
    (expandHead eval env macros (n + 1) form).outcome s = some (.ok form, s) := by
  rw [expandHead, outcome_bind_ok (outcome_expandOnce_other hcall eval env),
    outcome_bind_ok (outcome_get s), hself]
  rfl

theorem transformer?_of_macroCall? {x : Transformer} {args : List Value}
    (h : s.macroCall? macros form = some (x, args)) :
    ∃ n, s.transformer? macros n = some x ∧
      ∀ v, s.equal v form = s.equal v (.list (.symbol n :: args)) := by
  unfold macroCall? at h
  split at h
  next n others hitems =>
    obtain ⟨y, hy, hpair⟩ := Option.map_eq_some_iff.1 h
    obtain ⟨rfl, rfl⟩ := Prod.mk.inj hpair
    refine ⟨n, hy, fun v => ?_⟩
    cases form with
    | list xs =>
        obtain rfl := Option.some.inj hitems
        rfl
    | vector xs =>
        obtain rfl := Option.some.inj hitems
        exact Value.equalBy_vector s.same v _
    | _ => exact absurd hitems (by simp [Value.items?])
  next => exact absurd h (by simp)

/-- The expansion of a head ends in a form that is no call and equals itself. -/
theorem expandHead_stops (hpure : s.PureMacros eval env macros) {n : Nat} (ht : s.Undisturbed t)
    (h : (expandHead eval env macros n form).outcome t = some (.ok v, u)) :
    t.Undisturbed u ∧ u.macroCall? macros v = none ∧ u.equal v v = true := by
  induction n generalizing t form with
  | zero => exact absurd h (by simp [expandHead])
  | succ n ih =>
      obtain ⟨next, t', hstep, hrest⟩ := expandHead_eq_ok h
      rcases expandOnce_eq_ok hstep with ⟨hcall, rfl, rfl⟩ | ⟨x, args, hcall, hnext⟩
      · rcases hrest with ⟨hself, rfl, rfl⟩ | ⟨-, hrest⟩
        · exact ⟨.refl _, hcall, hself⟩
        · exact ih ht hrest
      · obtain ⟨m, hx, hform⟩ := transformer?_of_macroCall? hcall
        rw [ht.transformer?_eq] at hx
        have ht' := hpure.undisturbed ht hx hnext
        have hnew := hpure.progress ht hx hnext
        rw [ht'.equal_eq, ← hform, ← ht'.equal_eq] at hnew
        rcases hrest with ⟨hequal, -, -⟩ | ⟨-, hrest⟩
        · exact absurd (hequal.symm.trans hnew) (by simp)
        · obtain ⟨hu, hv⟩ := ih (ht.trans ht') hrest
          exact ⟨ht'.trans hu, hv⟩

/-! ## All of a form -/

/-- A form with nothing left to expand: it equals itself, exposes no call, and expanding it again at
any later time changes neither it nor the state. -/
structure Settled (eval : Evaluator) (env : FrameId) (macros : MacroTableId)
    (fuel : Nat) (s : State) (v : Value) : Prop where
  self : s.equal v v = true
  calls : ∀ w, v.Exposes w → s.macroCall? macros w = none
  again : ∀ t, s.Undisturbed t → (expandAll eval env macros fuel v).outcome t = some (.ok v, t)

/-- What full expansion made of `form` is settled, and a bare name only if the head of `form`
expands to it. -/
structure Expanded (s : State) (eval : Evaluator) (env : FrameId) (macros : MacroTableId)
    (fuel : Nat) (form : Value) (t : State) (v : Value) : Prop where
  settled : Settled eval env macros fuel t v
  name : ∀ n, v = .symbol n → s.HeadTo eval env macros form (.symbol n)

theorem Settled.later {fuel : Nat} (h : Settled eval env macros fuel s v) (ht : s.Undisturbed t) :
    Settled eval env macros fuel t v where
  self := (ht.equal_eq v v).trans h.self
  calls w hw := (ht.macroCall?_eq w).trans (h.calls w hw)
  again u hu := h.again u (ht.trans hu)

theorem outcome_mapM_self {f : Value → Eval Value} {xs : List Value}
    (h : ∀ x ∈ xs, (f x).outcome s = some (.ok x, s)) :
    (xs.mapM f).outcome s = some (.ok xs, s) := by
  induction xs with
  | nil => rfl
  | cons x xs ih =>
      have hxs := ih fun y hy => h y (List.mem_cons_of_mem x hy)
      rw [List.mapM_cons, outcome_bind_ok (h x List.mem_cons_self), outcome_bind_ok hxs]
      rfl

/-- Items that are expanded one after the other are settled once all of them are. -/
theorem expanded_mapM {fuel : Nat} {xs ys : List Value} (ht : s.Undisturbed t)
    (hitem : ∀ x ∈ xs, ∀ t y u, s.Undisturbed t →
      (expandAll eval env macros fuel x).outcome t = some (.ok y, u) →
      t.Undisturbed u ∧ Expanded s eval env macros fuel x u y)
    (h : (xs.mapM (expandAll eval env macros fuel)).outcome t = some (.ok ys, u)) :
    t.Undisturbed u ∧ List.Forall₂ (fun x y => Expanded s eval env macros fuel x u y) xs ys := by
  induction xs generalizing t ys with
  | nil =>
      obtain ⟨rfl, rfl⟩ := outcome_pure_eq_ok h
      exact ⟨.refl _, .nil⟩
  | cons x xs ih =>
      rw [List.mapM_cons] at h
      obtain ⟨y, t', hy, h⟩ := outcome_bind_eq_ok h
      obtain ⟨ys', u', hys, h⟩ := outcome_bind_eq_ok h
      obtain ⟨rfl, rfl⟩ := outcome_pure_eq_ok h
      obtain ⟨ht', hx⟩ := hitem x List.mem_cons_self t y t' ht hy
      obtain ⟨hu, hxs⟩ := ih (ht.trans ht') (fun x hx => hitem x (List.mem_cons_of_mem _ hx)) hys
      exact ⟨ht'.trans hu, .cons ⟨hx.settled.later hu, hx.name⟩ hxs⟩

theorem settled_of_forall₂ {fuel : Nat} {xs ys : List Value}
    (h : List.Forall₂ (fun x y => Expanded s eval env macros fuel x u y) xs ys) :
    ∀ y ∈ ys, Settled eval env macros fuel u y := by
  induction h with
  | nil => exact fun _ hy => absurd hy List.not_mem_nil
  | cons hx _ ih => exact List.forall_mem_cons.2 ⟨hx.settled, ih⟩

def expandInside (eval : Evaluator) (env : FrameId) (macros : MacroTableId) (fuel : Nat) :
    Value → Eval Value
  | .list items =>
    if isQuotedData items then return .list items
    else return .list (← items.mapM (expandAll eval env macros fuel))
  | .dotted items tail => do
    let items ← items.mapM (expandAll eval env macros fuel)
    return .dotted items (← expandAll eval env macros fuel tail)
  | v => return v

theorem expandAll_succ (eval : Evaluator) (env : FrameId) (macros : MacroTableId) (fuel : Nat)
    (form : Value) : expandAll eval env macros (fuel + 1) form =
      expandHead eval env macros (fuel + 1) form >>= expandInside eval env macros fuel := rfl

theorem outcome_expandInside_list {fuel : Nat} {xs : List Value}
    (h : isQuotedData xs = false → ∀ x ∈ xs, (expandAll eval env macros fuel x).outcome s =
      some (.ok x, s)) :
    (expandInside eval env macros fuel (.list xs)).outcome s = some (.ok (.list xs), s) := by
  rw [expandInside]
  cases hquoted : isQuotedData xs with
  | true => rfl
  | false =>
      rw [if_neg (by simp), outcome_bind_ok (outcome_mapM_self (h hquoted))]
      rfl

/-- A form is settled if its head is and, at any later time, expanding what is inside changes
nothing. -/
theorem settled_of_inside {fuel : Nat} (hcall : u.macroCall? macros v = none)
    (hself : u.equal v v = true) (hcalls : ∀ w, v.Exposes w → w = v ∨ u.macroCall? macros w = none)
    (hinside : ∀ t, u.Undisturbed t → (expandInside eval env macros fuel v).outcome t =
      some (.ok v, t)) :
    Settled eval env macros (fuel + 1) u v where
  self := hself
  calls w hw := (hcalls w hw).elim (fun h => h ▸ hcall) id
  again t ht := by
    have hhead : (expandHead eval env macros (fuel + 1) v).outcome t = some (.ok v, t) :=
      outcome_expandHead_self ((ht.macroCall?_eq v).trans hcall)
        ((ht.equal_eq v v).trans hself) fuel
    rw [expandAll_succ, outcome_bind_ok hhead]
    exact hinside t ht

theorem settled_list {fuel : Nat} {xs : List Value} (hcall : u.macroCall? macros (.list xs) = none)
    (hself : u.equal (.list xs) (.list xs) = true)
    (hitems : isQuotedData xs = false → ∀ x ∈ xs, Settled eval env macros fuel u x) :
    Settled eval env macros (fuel + 1) u (.list xs) := by
  refine settled_of_inside hcall hself (fun w hw => ?_) fun t ht => ?_
  · cases hw with
    | self => exact .inl rfl
    | item hquoted hx hw => exact .inr ((hitems hquoted _ hx).calls w hw)
  · exact outcome_expandInside_list fun hquoted x hx => (hitems hquoted x hx).again t ht

theorem settled_dotted {fuel : Nat} {xs : List Value} {tail : Value}
    (hitems : ∀ x ∈ xs, Settled eval env macros fuel u x)
    (htail : Settled eval env macros fuel u tail) :
    Settled eval env macros (fuel + 1) u (.dotted xs tail) := by
  have hself : u.equal (.dotted xs tail) (.dotted xs tail) = true := by
    have hxs := Value.itemsEqualBy_self fun x hx => (hitems x hx).self
    have ht : tail.equalBy u.same tail = true := htail.self
    show (Value.itemsEqualBy u.same xs xs &&
      (Value.sameMark tail tail || tail.equalBy u.same tail)) = true
    rw [hxs, ht, Bool.or_true, Bool.and_true]
  refine settled_of_inside rfl hself (fun w hw => ?_) fun t ht => ?_
  · cases hw with
    | self => exact .inl rfl
    | dottedItem hx hw => exact .inr ((hitems _ hx).calls w hw)
    | tail hw => exact .inr (htail.calls w hw)
  · rw [expandInside, outcome_bind_ok (outcome_mapM_self fun x hx => (hitems x hx).again t ht),
      outcome_bind_ok (htail.again t ht)]
    rfl

/-- The items of a list without a clash, each of them expanded, make no call. -/
theorem macroCall?_expanded {fuel : Nat} {xs ys : List Value} (hu : s.Undisturbed u)
    (hclear : ¬ s.Clashes eval env macros form) (hhead : s.HeadTo eval env macros form (.list xs))
    (hquoted : isQuotedData xs = false)
    (h : List.Forall₂ (fun x y => Expanded s eval env macros fuel x u y) xs ys) :
    u.macroCall? macros (.list ys) = none := by
  rw [Option.eq_none_iff_forall_not_mem]
  intro p hp
  obtain ⟨n, args, hlist, hsome⟩ | ⟨n, args, hvector, -⟩ :=
    macroCall?_isSome_iff.1 (Option.isSome_of_mem hp)
  · obtain rfl := Value.list.inj hlist
    cases h with
    | cons hx hrest =>
        rw [hu.transformer?_eq] at hsome
        exact hclear ⟨form, _, _, n, .self form, hhead, hquoted, hx.name n rfl, hsome⟩
  · exact absurd hvector (by simp)

/-! ## The induction -/

/-- By induction on the fuel: what full expansion makes of a form without clashes is settled. -/
theorem expanded_expandAll (hpure : s.PureMacros eval env macros) {fuel : Nat} {r : Value}
    (ht : s.Undisturbed t) (hclear : ¬ s.Clashes eval env macros form)
    (h : (expandAll eval env macros fuel form).outcome t = some (.ok r, u)) :
    t.Undisturbed u ∧ Expanded s eval env macros fuel form u r := by
  induction fuel generalizing t u form r with
  | zero => exact absurd h (by simp [expandAll])
  | succ fuel ih =>
      rw [expandAll_succ] at h
      obtain ⟨v, t', hv, h⟩ := outcome_bind_eq_ok h
      obtain ⟨ht', hcall, hself⟩ := expandHead_stops hpure ht hv
      have hs := ht.trans ht'
      have hhead : s.HeadTo eval env macros form v := .intro ht hv
      cases v with
      | list xs =>
          rw [expandInside] at h
          cases hquoted : isQuotedData xs with
          | true =>
              rw [hquoted, if_pos rfl] at h
              obtain ⟨rfl, rfl⟩ := outcome_pure_eq_ok h
              refine ⟨ht', settled_list hcall hself fun hnot => ?_, fun n hn => absurd hn (by simp)⟩
              exact absurd (hquoted.symm.trans hnot) (by simp)
          | false =>
              rw [hquoted, if_neg (by simp)] at h
              obtain ⟨ys, u', hys, h⟩ := outcome_bind_eq_ok h
              obtain ⟨rfl, rfl⟩ := outcome_pure_eq_ok h
              obtain ⟨hu, hxs⟩ := expanded_mapM hs (fun x hx t y u ht hy =>
                ih ht (fun hx' => hclear (hx'.of_meets fun _ => .item hhead hquoted hx)) hy) hys
              have hsettled := settled_of_forall₂ hxs
              have hself := Value.itemsEqualBy_self fun y hy => (hsettled y hy).self
              have hcall := macroCall?_expanded (hs.trans hu) hclear hhead hquoted hxs
              exact ⟨ht'.trans hu, settled_list hcall hself fun _ => hsettled,
                fun n hn => absurd hn (by simp)⟩
      | dotted xs tail =>
          rw [expandInside] at h
          obtain ⟨ys, u₁, hys, h⟩ := outcome_bind_eq_ok h
          obtain ⟨tail', u₂, htail, h⟩ := outcome_bind_eq_ok h
          obtain ⟨rfl, rfl⟩ := outcome_pure_eq_ok h
          obtain ⟨hu₁, hxs⟩ := expanded_mapM hs (fun x hx t y u ht hy =>
            ih ht (fun hx' => hclear (hx'.of_meets fun _ => .dottedItem hhead hx)) hy) hys
          obtain ⟨hu₂, htail⟩ := ih (hs.trans hu₁)
            (fun h => hclear (h.of_meets fun _ => .tail hhead)) htail
          have hsettled := fun y hy => (settled_of_forall₂ hxs y hy).later hu₂
          exact ⟨ht'.trans (hu₁.trans hu₂), settled_dotted hsettled htail.settled,
            fun n hn => absurd hn (by simp)⟩
      | _ =>
          obtain ⟨rfl, rfl⟩ := outcome_pure_eq_ok h
          refine ⟨ht', settled_of_inside hcall hself (fun w hw => ?_) fun _ _ => rfl,
            fun n hn => hn ▸ hhead⟩
          cases hw with
          | self => exact .inl rfl

/-! ## Forms without clashes -/

/-- Where no macro makes a bare name of a call, only a name expands to a name. -/
theorem eq_of_expandHead_symbol {n : Nat} {m : Symbol} (hpure : s.PureMacros eval env macros)
    (hbare : ∀ t u k x args m, s.Undisturbed t → s.transformer? macros k = some x →
      (transform eval x args env macros).outcome t ≠ some (.ok (.symbol m), u))
    (ht : s.Undisturbed t)
    (h : (expandHead eval env macros n form).outcome t = some (.ok (.symbol m), u)) :
    form = .symbol m := by
  induction n generalizing t form with
  | zero => exact absurd h (by simp [expandHead])
  | succ n ih =>
      obtain ⟨next, t', hstep, hrest⟩ := expandHead_eq_ok h
      rcases expandOnce_eq_ok hstep with ⟨-, rfl, rfl⟩ | ⟨x, args, hcall, hnext⟩
      · rcases hrest with ⟨-, hform, -⟩ | ⟨-, hrest⟩
        · exact hform.symm
        · exact ih ht hrest
      · obtain ⟨k, hx, -⟩ := transformer?_of_macroCall? hcall
        rw [ht.transformer?_eq] at hx
        rcases hrest with ⟨-, hform, -⟩ | ⟨-, hrest⟩
        · exact hform.symm
        · obtain rfl := ih (ht.trans (hpure.undisturbed ht hx hnext)) hrest
          exact absurd hnext (hbare t t' k x args m ht hx)

theorem not_clashes (hpure : s.PureMacros eval env macros)
    (hbare : ∀ t u k x args m, s.Undisturbed t → s.transformer? macros k = some x →
      (transform eval x args env macros).outcome t ≠ some (.ok (.symbol m), u)) (form : Value) :
    ¬ s.Clashes eval env macros form := by
  rintro ⟨y, head, rest, n, -, ⟨t, u, k, ht, hlist⟩, -, ⟨t', u', k', ht', hname⟩, hsome⟩
  obtain rfl := eq_of_expandHead_symbol hpure hbare ht' hname
  obtain ⟨hu, hcall, -⟩ := expandHead_stops hpure ht hlist
  rw [(ht.trans hu).macroCall?_eq] at hcall
  have hcalled := macroCall?_isSome_iff.2 (.inl ⟨n, rest, rfl, hsome⟩)
  rw [hcall] at hcalled
  exact absurd hcalled (by simp)

/-! ## The macros of a new session -/

theorem undisturbed_standard {n : Symbol} {x : Transformer} {args : List Value}
    {r : Except Error Value} (hx : (n, x) ∈ standardMacros.entries)
    (h : (transform eval x args env macros).outcome t = some (r, u)) : t.Undisturbed u := by
  have hmem := Table.mem_ofList hx
  simp only [List.mem_cons, List.not_mem_nil, or_false, Prod.mk.injEq] at hmem
  rcases hmem with ⟨-, rfl⟩ | ⟨-, rfl⟩ | ⟨-, rfl⟩
  · obtain ⟨-, rfl⟩ := Prod.mk.inj (Option.some.inj ((outcome_ofExcept _ t).symm.trans h))
    exact .refl _
  · obtain ⟨-, rfl⟩ := Prod.mk.inj (Option.some.inj ((outcome_ofExcept _ t).symm.trans h))
    exact .refl _
  · rw [transform, transformClass, outcome_bind, outcome_ask] at h
    cases hform : t.expandClass args (some env) none with
    | error e =>
        rw [hform] at h
        obtain ⟨-, rfl⟩ := Prod.mk.inj (Option.some.inj h)
        exact .refl _
    | ok form =>
        rw [hform] at h
        obtain ⟨-, rfl⟩ := Prod.mk.inj (Option.some.inj h)
        exact ⟨rfl, fun _ _ => rfl, rfl, rfl, rfl⟩

/-- What a standard macro makes of a call is a list that begins otherwise. -/
theorem standard_eq_list {n : Symbol} {x : Transformer} {args : List Value} {v : Value}
    (hx : (n, x) ∈ standardMacros.entries)
    (h : (transform eval x args env macros).outcome t = some (.ok v, u)) :
    ∃ head rest, v = .list (head :: rest) ∧ ∀ same, head.equalBy same (.symbol n) = false := by
  have hdefine : (Symbol.define == ⟨"defun"⟩) = false := by decide
  have hdefclass : (Symbol.defclass == ⟨"defclass*"⟩) = false := by decide
  have hmem := Table.mem_ofList hx
  simp only [List.mem_cons, List.not_mem_nil, or_false, Prod.mk.injEq] at hmem
  rcases hmem with ⟨rfl, rfl⟩ | ⟨rfl, rfl⟩ | ⟨rfl, rfl⟩
  · obtain ⟨hv, -⟩ := Prod.mk.inj (Option.some.inj ((outcome_ofExcept _ t).symm.trans h))
    unfold expandDefun at hv
    split at hv
    · obtain rfl := Except.ok.inj hv
      exact ⟨_, _, rfl, fun _ => hdefine⟩
    · exact absurd hv (by simp)
  · obtain ⟨hv, -⟩ := Prod.mk.inj (Option.some.inj ((outcome_ofExcept _ t).symm.trans h))
    unfold expandLet at hv
    split at hv
    · split at hv
      · exact absurd hv (by simp)
      · obtain ⟨pairs, -, hv⟩ := bind_eq_ok hv
        obtain rfl := Except.ok.inj hv
        exact ⟨_, _, rfl, fun _ => rfl⟩
    · exact absurd hv (by simp)
  · rw [transform, transformClass, outcome_bind, outcome_ask] at h
    cases hform : t.expandClass args (some env) none with
    | error e => rw [hform] at h; exact absurd h (by simp)
    | ok form =>
        rw [hform] at h
        obtain ⟨hv, -⟩ := Prod.mk.inj (Option.some.inj h)
        obtain ⟨parts, hparts⟩ := mark_expandClass hform
        obtain rfl := (Except.ok.inj hv).symm.trans hparts
        exact ⟨_, _, rfl, fun _ => hdefclass⟩

theorem not_equal_standard {n : Symbol} {x : Transformer} {args : List Value} {v : Value}
    (hx : (n, x) ∈ standardMacros.entries)
    (h : (transform eval x args env macros).outcome t = some (.ok v, u)) :
    u.equal v (.list (.symbol n :: args)) = false := by
  obtain ⟨head, rest, rfl, hhead⟩ := standard_eq_list hx h
  show ((Value.sameMark head (.symbol n) || head.equalBy u.same (.symbol n)) &&
    Value.itemsEqualBy u.same rest args) = false
  rw [Value.sameMark_symbol, hhead, Bool.or_self, Bool.false_and]

/-- The macros of a new session are pure functions, whatever evaluates the forms. -/
theorem pureMacros_standard
    (h : ∀ n x, s.transformer? macros n = some x → (n, x) ∈ standardMacros.entries)
    (eval : Evaluator) (env : FrameId) : s.PureMacros eval env macros where
  undisturbed _ hx hout := undisturbed_standard (h _ _ hx) hout
  progress _ hx hout := not_equal_standard (h _ _ hx) hout

end Eval

namespace State

/-- Where the macros are pure functions and a form comes to no clash, its full expansion shows no
macro call at any place outside quoted data, is equal to itself, and is what expanding it again
gives. -/
theorem PureMacros.expandAll_full {s t : State} {eval : Evaluator} {env : FrameId}
    {macros : MacroTableId} {fuel : Nat} {form r : Value} (hpure : s.PureMacros eval env macros)
    (hclear : ¬ s.Clashes eval env macros form)
    (h : (Eval.expandAll eval env macros fuel form).outcome s = some (.ok r, t)) :
    (∀ w, r.Exposes w → ¬ t.IsCall macros w) ∧ t.equal r r = true ∧
      (Eval.expandAll eval env macros fuel r).outcome t = some (.ok r, t) := by
  obtain ⟨-, hr, -⟩ := Eval.expanded_expandAll hpure (.refl s) hclear h
  refine ⟨fun w hw hcall => ?_, hr.self, hr.again t (.refl t)⟩
  have hsome := macroCall?_isSome_iff.2 (.inl hcall)
  rw [hr.calls w hw] at hsome
  exact absurd hsome (by simp)

end State

namespace Session

open Eval State

/-- A new session has the standard macros and no others. -/
theorem standardMacros_start :
    (full (State.start Settings.standard) none).1.macroTable 0 = ⟨standardMacros, 0⟩ := by rfl

theorem mem_standardMacros {n : Symbol} {x : Transformer}
    (h : (full (State.start Settings.standard) none).1.transformer? 0 n = some x) :
    (n, x) ∈ standardMacros.entries := by
  rw [transformer?, standardMacros_start] at h
  exact Table.mem_of_get? h

/-- No form of a new session clashes, since its macros make lists of their calls. A call among the
items of a list is expanded, and one inside a quotation is left alone. -/
theorem expandAll_full_quoted :
    let s := (full (State.start Settings.standard) none).1
    let call : Value := .list [.symbol ⟨"let"⟩, .list [], .int 1]
    let form : Value := .list [.symbol ⟨"list"⟩, call, .list [.symbol Symbol.quote, call]]
    let r : Value :=
      .list [.symbol ⟨"list"⟩, .list [.list [.symbol Symbol.lambda, .list [], .int 1]],
      .list [.symbol Symbol.quote, call]]
    s.PureMacros (evaluate 4) 0 0 ∧ ¬ s.Clashes (evaluate 4) 0 0 form ∧
      (expandAll (evaluate 4) 0 0 4 form).outcome s = some (.ok r, s) ∧
      (∀ w, r.Exposes w → ¬ s.IsCall 0 w) ∧ s.equal r r = true ∧
      (expandAll (evaluate 4) 0 0 4 r).outcome s = some (.ok r, s) := by
  intro s call form r
  have hstandard : ∀ n x, s.transformer? 0 n = some x → (n, x) ∈ standardMacros.entries :=
    fun _ _ => mem_standardMacros
  have hpure : s.PureMacros (evaluate 4) 0 0 := pureMacros_standard hstandard _ _
  have hclear := not_clashes hpure (fun t u k x args m _ hx hname => by
    obtain ⟨head, rest, hlist, -⟩ := standard_eq_list (hstandard k x hx) hname
    exact absurd hlist (by simp)) form
  have hout : (expandAll (evaluate 4) 0 0 4 form).outcome s = some (.ok r, s) := by rfl
  exact ⟨hpure, hclear, hout, hpure.expandAll_full hclear hout⟩

def bareName : Value := .list [.symbol Symbol.quote, .symbol ⟨"let"⟩]

/-- The macro of that body is a pure function, beside the standard ones. -/
theorem pureMacros_bareName {s : State}
    (h : ∀ n x, s.transformer? 0 n = some x →
      (n, x) ∈ standardMacros.entries ∨ x = .closure [] bareName 0)
    (hquote : s.transformer? 0 Symbol.quote = none) (fuel : Nat) :
    s.PureMacros (evaluate (fuel + 1)) 0 0 := by
  have hbody : ∀ t : State, s.Undisturbed t → ∀ args,
      (transform (evaluate (fuel + 1)) (.closure [] bareName 0) args 0 0).outcome t =
        some (if args.isEmpty then .ok (.symbol ⟨"let"⟩)
          else .error (.arity (.extraArguments args)), (t.childFrame 0).1) := by
    intro t ht args
    have hnone : (t.childFrame 0).1.transformer? 0 Symbol.quote = none :=
      (ht.transformer?_eq _).trans hquote
    cases args with
    | nil =>
        show (symbolForm (evaluate fuel) fuel Symbol.quote [.symbol ⟨"let"⟩] _ 0).outcome
          (t.childFrame 0).1 = _
        rw [symbolForm, outcome_bind_ok (outcome_get _), hnone]
        rfl
    | cons a args => rfl
  constructor
  case undisturbed =>
    intro t u n x args r ht hx hout
    rcases h n x hx with hstandard | rfl
    · exact undisturbed_standard hstandard hout
    · obtain ⟨-, rfl⟩ := Prod.mk.inj (Option.some.inj ((hbody t ht args).symm.trans hout))
      exact .childFrame t 0
  case progress =>
    intro t u n x args v ht hx hout
    rcases h n x hx with hstandard | rfl
    · exact not_equal_standard hstandard hout
    · obtain ⟨hv, -⟩ := Prod.mk.inj (Option.some.inj ((hbody t ht args).symm.trans hout))
      split at hv
      · obtain rfl := Except.ok.inj hv
        rfl
      · exact absurd hv (by simp)

/-- A pure macro that answers the bare name of another one: a call of it in front of a list is
expanded after the list, which is left as a call that expands further. -/
theorem not_full_bareName :
    let s := (full (State.start Settings.standard) none).1.defineTransformer 0 ⟨"foo"⟩
      (.closure [] bareName 0)
    let form : Value := .list [.list [.symbol ⟨"foo"⟩], .list [], .int 1]
    let r : Value := .list [.symbol ⟨"let"⟩, .list [], .int 1]
    Reachable Settings.standard none s ∧ s.PureMacros (evaluate 4) 0 0 ∧
      ∃ t, (expandAll (evaluate 4) 0 0 4 form).outcome s = some (.ok r, t) ∧
        r.Exposes r ∧ t.IsCall 0 r ∧
        ∃ q, (expandAll (evaluate 4) 0 0 4 r).outcome t = some (.ok q, t) ∧
        t.equal q r = false := by
  intro s form r
  have hknows : (full (State.start Settings.standard) none).1.Knows
      (.list [.symbol ⟨"defmacro"⟩, .symbol ⟨"foo"⟩, .list [], bareName]) := by
    simp [State.Knows, bareName]
  have hdefinition : (evaluate 1 (.list [.symbol ⟨"defmacro"⟩, .symbol ⟨"foo"⟩, .list [], bareName])
      0 0).outcome (full (State.start Settings.standard) none).1 =
        some (.ok (.symbol ⟨"foo"⟩), s) := rfl
  have hs : Reachable Settings.standard none s :=
    Reachable.start.step (.evaluation hknows hdefinition)
  have hpure : s.PureMacros (evaluate 4) 0 0 := by
    refine pureMacros_bareName (fun n x hx => ?_) rfl 3
    rw [transformer?_defineTransformer] at hx
    split at hx
    · exact .inr (Option.some.inj hx).symm
    · exact .inl (mem_standardMacros hx)
  refine ⟨hs, hpure, (s.childFrame 0).1, rfl, .self r, ⟨_, _, rfl, rfl⟩, _, rfl, rfl⟩

end Session
end SlotLisp
