import SlotLisp.Proofs.Evaluation.Holes

/-!
Templates without templates inside. Such a template evaluates to itself with values in place of its
holes: each form is evaluated once, in the frame and with the macros around, and an item that is
spliced in gives way to the items of its value. The first error is the error of the whole.
-/

namespace SlotLisp

namespace Value

mutual

/-- The holes of a template in the order in which they are evaluated, each with its form and whether
the value is spliced in. Templates inside the template have none. -/
def holes : Value → List (Bool × Value)
  | .list xs => holesItems xs
  | .dotted xs t =>
    (match t.nesting with
      | .hole false form => [(false, form)]
      | _ => t.holes) ++ holesItems xs
  | _ => []
termination_by structural v => v

def holesItems : List Value → List (Bool × Value)
  | [] => []
  | v :: vs =>
    (match v.nesting with
      | .plain => v.holes
      | .template => []
      | .hole splice form => [(splice, form)]) ++ holesItems vs

end

mutual

/-- A template with values in its holes, which are given in the order of the holes. -/
def plug : Value → List Value → Value
  | .list xs, ws => .list (plugItems xs ws)
  | .dotted xs t, ws =>
    match t.nesting with
    | .hole false _ => .dotted (plugItems xs ws.tail) (ws.headD .nil)
    | _ => .dotted (plugItems xs (ws.drop t.holes.length)) (t.plug (ws.take t.holes.length))
  | v, _ => v
termination_by structural v => v

def plugItems : List Value → List Value → List Value
  | [], _ => []
  | v :: vs, ws =>
    match v.nesting with
    | .plain => v.plug (ws.take v.holes.length) :: plugItems vs (ws.drop v.holes.length)
    | .template => v :: plugItems vs ws
    | .hole false _ => ws.headD .nil :: plugItems vs ws.tail
    | .hole true _ => (ws.headD .nil).spliced ++ plugItems vs ws.tail

end

theorem holes_dotted {t : Value} (h : ∀ form, t.nesting ≠ .hole false form) (xs : List Value) :
    (Value.dotted xs t).holes = t.holes ++ holesItems xs := by
  rw [holes]
  split
  next form hform => exact absurd hform (h form)
  next => rfl

theorem plug_dotted {t : Value} (h : ∀ form, t.nesting ≠ .hole false form) (xs ws : List Value) :
    (Value.dotted xs t).plug ws =
      .dotted (plugItems xs (ws.drop t.holes.length)) (t.plug (ws.take t.holes.length)) := by
  rw [plug.eq_def]
  dsimp only
  split
  next form hform => exact absurd hform (h form)
  next => rfl

/-- Whether a list is neither a template nor a hole, however many arguments these have. -/
def Ordinary (xs : List Value) : Prop :=
  match xs with
  | .symbol s :: _ => s ≠ Symbol.quasiquote ∧ s ≠ Symbol.unquote ∧ s ≠ Symbol.unquoteSplicing
  | _ => True

mutual

/-- Whether a template has no templates inside, and holes with one argument only where a value can
be put: as an item, or as the tail of a dotted list if it is not spliced in. -/
def Flat : Value → Prop
  | .list xs => Ordinary xs ∧ FlatItems xs
  | .dotted xs t =>
    FlatItems xs ∧
      match t.nesting with
      | .hole false _ => True
      | _ => Flat t
  | _ => True
termination_by structural v => v

def FlatItems : List Value → Prop
  | [] => True
  | v :: vs =>
    (match v.nesting with
      | .hole _ _ => True
      | _ => Flat v) ∧ FlatItems vs

end

def Spliceable (v : Value) : Prop := v = .nil ∨ v.items?.isSome

theorem Spliceable.not_refused {v : Value} (h : v.Spliceable) : v.refused = false := by
  rcases h with rfl | h
  · rfl
  · rw [refused, Option.isNone_eq_false_iff.2 h, Bool.and_false]

theorem Ordinary.ofHead {head : Value} {args : List Value} (h : Ordinary (head :: args))
    (level : Nat) :
    Hole.ofHead level head = .plain := by
  cases head with
  | symbol s =>
      obtain ⟨hq, hu, hs⟩ := h
      simp [Hole.ofHead, hq, hu, hs]
  | _ => rfl

theorem Ordinary.nesting {xs : List Value} (h : Ordinary xs) :
    (Value.list xs).nesting = .plain := by
  rw [Value.nesting.eq_def]
  split
  next s x heq =>
    obtain rfl := Value.list.inj heq
    obtain ⟨hq, hu, hs⟩ := h
    rw [if_neg hq, if_neg hu, if_neg hs]
  next => rfl

theorem Flat.nesting {v : Value} (h : v.Flat) : v.nesting = .plain := by
  cases v with
  | list xs => exact h.1.nesting
  | _ => rfl

/-- The first values are for the holes of the first item. -/
theorem planItems_of_flatItems {xs : List Value}
    (h : ∀ x ∈ xs, x.Flat → x.plan 1 = ⟨x.holes.map some, x.plug⟩) (hxs : FlatItems xs) :
    planItems 1 xs = ⟨(holesItems xs).map some, plugItems xs⟩ := by
  induction xs with
  | nil => rfl
  | cons x xs ih =>
      obtain ⟨hx, hrest⟩ := List.forall_mem_cons.1 h
      have hflat := hxs.1
      have hitems := ih hrest hxs.2
      cases hnesting : x.nesting with
      | plain =>
          rw [hnesting] at hflat
          have hhead : ∀ head args, x = .list (head :: args) → Hole.ofHead 1 head = .plain := by
            rintro head args rfl
            exact hflat.1.ofHead 1
          rw [planItems_plain hhead, hx hflat, hitems]
          simp only [Plan.both, Plan.map, holesItems, hnesting, List.map_append,
            Plan.mk.injEq, true_and]
          funext vs
          rw [plugItems, hnesting, List.length_map]
          rfl
      | template =>
          rw [hnesting] at hflat
          exact absurd hflat.nesting (by rw [hnesting]; exact Nesting.noConfusion)
      | hole splice form =>
          obtain rfl := Eval.hole_of_nesting hnesting
          rw [planItems_hole, hitems]
          simp only [Plan.both, Plan.map, Plan.ofHole, holesItems, hnesting, List.map_append,
            Plan.mk.injEq]
          refine ⟨rfl, funext fun vs => ?_⟩
          cases splice <;> cases vs <;> simp [plugItems, hnesting]

theorem Flat.plan {v : Value} (h : v.Flat) : v.plan 1 = ⟨v.holes.map some, v.plug⟩ := by
  induction v using induction_parts with
  | list xs ih =>
      rw [Value.plan, planItems_of_flatItems ih h.2]
      rfl
  | dotted xs t ih iht =>
      obtain ⟨hxs, ht⟩ := h
      have hitems := planItems_of_flatItems ih hxs
      by_cases hhole : ∃ form, t.nesting = .hole false form
      · obtain ⟨form, hform⟩ := hhole
        obtain rfl := Eval.hole_of_nesting hform
        refine (plan_dotted_value xs form).trans ?_
        rw [hitems]
        simp only [Plan.both, Plan.ofHole, holes, hform, List.map_append, Plan.mk.injEq]
        refine ⟨rfl, funext fun vs => ?_⟩
        cases vs <;> simp [plug, hform]
      · have hnot : ∀ form, t.nesting ≠ .hole false form := fun form hform => hhole ⟨form, hform⟩
        have hflat : t.Flat := by
          split at ht
          next form hform => exact absurd hform (hnot form)
          next => exact ht
        have hhead : ∀ head args, t = .list (head :: args) → Hole.ofHead 1 head ≠ .value := by
          rintro head args rfl
          rw [hflat.1.ofHead 1]
          decide
        rw [plan_dotted hhead, iht hflat, hitems]
        simp only [Plan.both, holes_dotted hnot, List.map_append, Plan.mk.injEq, true_and]
        funext vs
        rw [plug_dotted hnot, List.length_map]
  | _ => rfl

end Value

namespace State

def SplicesLists (s : State) (env : FrameId) (macros : MacroTableId) (holes : List (Bool × Value)) :
    Prop :=
  ∀ before form after vs u v w, holes = before ++ (true, form) :: after →
    s.EvaluatesAll env macros (before.map Prod.snd) (.ok vs) u →
    u.Evaluates env macros form (.ok v) w → v.Spliceable

variable {s t : State} {env : FrameId} {macros : MacroTableId}

/-- Where all that is spliced in has items, holes come to the values of their forms. -/
theorem fillsHoles_iff_evaluatesAll {holes : List (Bool × Value)}
    (h : s.SplicesLists env macros holes) {q : Except Error (List Value)} :
    s.FillsHoles env macros (holes.map some) q t ↔
    s.EvaluatesAll env macros (holes.map Prod.snd) q t := by
  induction holes generalizing s q with
  | nil =>
      rw [FillsHoles, EvaluatesAll, List.map_nil, List.map_nil, inOrder_nil_iff, inOrder_nil_iff]
  | cons hole holes ih =>
      obtain ⟨splice, form⟩ := hole
      have hfirst : ∀ v u, s.Evaluates env macros form (.ok v) u → splice = true →
          v.refused = false := by
        rintro v u hv rfl
        exact (h [] form holes [] s v u rfl .nil hv).not_refused
      have hrest : ∀ v u, s.Evaluates env macros form (.ok v) u →
          u.SplicesLists env macros holes := by
        intro v u hv before x after vs w y z hholes hvs hy
        exact h ((splice, form) :: before) x after (v :: vs) w y z (by rw [hholes]; rfl)
          (.cons hv hvs) hy
      rw [FillsHoles, EvaluatesAll, List.map_cons, List.map_cons, inOrder_cons_iff,
        inOrder_cons_iff]
      refine or_congr (exists_congr fun e => and_congr_right fun _ => ⟨fun he => ?_, .raised⟩) ?_
      · cases he with
        | refused hv hrefused => exact absurd hrefused (by rw [hfirst _ _ hv rfl]; simp)
        | raised he => exact he
      · refine exists_congr fun v => exists_congr fun u => exists_congr fun p => ⟨?_, ?_⟩
        · rintro ⟨hv, hp, hq⟩
          cases hv with
          | value hv hfits => exact ⟨hv, (ih (hrest v u hv)).1 hp, hq⟩
        · rintro ⟨hv, hp, hq⟩
          exact ⟨.value hv (hfirst v u hv), (ih (hrest v u hv)).2 hp, hq⟩

/-- A template without templates inside evaluates to the template with the values of its forms in
place, which are evaluated in order, each once, and to the first error that one of them ends in. -/
theorem evaluate_flat_template {v : Value} (hv : v.Flat)
    (hquasi : s.transformer? macros Symbol.quasiquote = none)
    (hsplices : s.SplicesLists env macros v.holes) (r : Except Error Value) :
    s.Evaluates env macros (.list [.symbol Symbol.quasiquote, v]) r t ↔
      ∃ q, s.EvaluatesAll env macros (v.holes.map Prod.snd) q t ∧ r = q.map v.plug := by
  rw [Eval.evaluates_template_iff hquasi, hv.plan]
  exact exists_congr fun q => and_congr_left fun _ => fillsHoles_iff_evaluatesAll hsplices

end State

namespace Session

/-- A dotted list with a hole as its tail, a vector that is spliced in, and a list with a hole
inside in which `nil` is spliced. -/
theorem evaluate_flat_template_usual :
    let s := (full (State.start Settings.standard) none).1
    let hole (splice : Bool) (x : Value) : Value := .list [.symbol (holeHead splice), x]
    let v : Value := .dotted [.symbol ⟨"a"⟩, hole true (.vector [.int 1, .int 2]),
      .list [.symbol ⟨"b"⟩, hole true .nil, hole false (.int 5)]] (hole false (.int 7))
    v.Flat ∧ s.transformer? 0 Symbol.quasiquote = none ∧ s.SplicesLists 0 0 v.holes ∧
      (∀ r t, s.Evaluates 0 0 (.list [.symbol Symbol.quasiquote, v]) r t ↔
        ∃ q, s.EvaluatesAll 0 0 [.int 7, .vector [.int 1, .int 2], .nil, .int 5] q t ∧
        r = q.map v.plug) ∧
      s.Evaluates 0 0 (.list [.symbol Symbol.quasiquote, v])
        (.ok (.dotted [.symbol ⟨"a"⟩, .int 1, .int 2, .list [.symbol ⟨"b"⟩, .int 5]] (.int 7)))
          s := by
  intro s hole v
  have hordinary : Symbol.mk "b" ≠ Symbol.quasiquote ∧ Symbol.mk "b" ≠ Symbol.unquote ∧
      Symbol.mk "b" ≠ Symbol.unquoteSplicing := by decide
  have hflat : v.Flat :=
    ⟨⟨trivial, trivial, ⟨hordinary, trivial, trivial, trivial, trivial⟩, trivial⟩, trivial⟩
  have hforms : v.holes = [(false, .int 7), (true, .vector [.int 1, .int 2]),
    (true, .nil), (false, .int 5)] := rfl
  have hquasi : s.transformer? 0 Symbol.quasiquote = none := by rfl
  have hsplices : s.SplicesLists 0 0 v.holes := by
    intro before form after vs u w t hholes hvs hw
    have hmem : (true, form) ∈ v.holes := by rw [hholes]; simp
    have hform : form = .vector [.int 1, .int 2] ∨ form = .nil := by simpa [hforms] using hmem
    rcases hform with rfl | rfl
    · obtain ⟨hw, -⟩ := hw.unique ⟨1, rfl⟩
      rw [Except.ok.inj hw]
      exact .inr rfl
    · obtain ⟨hw, -⟩ := hw.unique ⟨1, rfl⟩
      exact .inl (Except.ok.inj hw)
  have hiff := fun r t => State.evaluate_flat_template (t := t) hflat hquasi hsplices r
  refine ⟨hflat, hquasi, hsplices, hiff,
    (hiff _ _).2 ⟨.ok [.int 7, .vector [.int 1, .int 2], .nil, .int 5], ?_, rfl⟩⟩
  exact .cons (q := .ok [.vector [.int 1, .int 2], .nil, .int 5]) ⟨1, rfl⟩
    (.cons (q := .ok [.nil, .int 5]) ⟨1, rfl⟩ (.cons (q := .ok [.int 5]) ⟨1, rfl⟩
      (.cons (q := .ok []) ⟨1, rfl⟩ .nil)))

end Session
end SlotLisp
