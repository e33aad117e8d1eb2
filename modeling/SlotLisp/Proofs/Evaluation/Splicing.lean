import SlotLisp.Proofs.Evaluation.Substitution

/-!
What is spliced into a template. A value without items is refused as the error of the whole
template, whatever comes behind it, unless it is empty or zero: then nothing is spliced in and
filling in goes on. This is so of every hole that is evaluated, and in a template that follows the
levels these are the holes at level one.
-/

namespace SlotLisp

namespace Value

mutual

/-- The holes at level one by the rule on levels, in order. A hole that is an item can be spliced
in. -/
def openHoles (level : Nat) : Value → List (Bool × Value)
  | .list xs =>
    match openHole? level (.list xs) with
    | some (_, form) => [(false, form)]
    | none => openHolesItems (innerLevel level (.list xs)) xs
  | .dotted xs t => openHoles level t ++ openHolesItems level xs
  | _ => []
termination_by structural v => v

def openHolesItems (level : Nat) : List Value → List (Bool × Value)
  | [] => []
  | v :: vs =>
    (match v.openHole? level with
      | some hole => [hole]
      | none => openHoles level v) ++ openHolesItems level vs

end

theorem openHolesItems_of_inert {level : Nat} {xs : List Value}
    (h : ∀ x ∈ xs, x.Inert level → x.openHoles level = []) (hxs : InertItems level xs) :
    openHolesItems level xs = [] := by
  induction xs with
  | nil => rfl
  | cons x xs ih =>
      obtain ⟨hx, hrest⟩ := List.forall_mem_cons.1 h
      rw [openHolesItems, Eval.openHole?_of_inert hxs.1, ih hrest hxs.2, List.append_nil]
      exact hx hxs.1

theorem openHoles_of_inert {v : Value} {level : Nat} (h : v.Inert level) :
    v.openHoles level = [] := by
  induction v using induction_parts generalizing level with
  | list xs ih =>
      rw [openHoles, h.1]
      exact openHolesItems_of_inert (fun x hx => ih x hx) h.2
  | dotted xs t ih iht =>
      rw [openHoles, iht h.2, List.nil_append]
      exact openHolesItems_of_inert (fun x hx => ih x hx) h.1
  | _ => rfl

/-- Below the outermost level nothing is evaluated. -/
theorem plan_deep {v : Value} (hv : v.Unary) (level : Nat) : (v.plan (level + 2)).holes = [] := by
  -- With an evaluator that refuses everything a template is filled in only if it has no hole.
  let refuse : Value → Eval Value := fun _ => Eval.fault .mismatch
  have hfill : Eval.runPlan refuse (v.plan (level + 2)) = pure v := by
    rw [← Eval.fill_eq_runPlan, (Eval.fill_deep refuse hv level).1]
  have hout : (Eval.runPlan refuse (v.plan (level + 2))).outcome default =
    some (.ok v, default) := by rw [hfill]; rfl
  have hfails : ∀ hole, ∃ e, (Eval.fillHole refuse hole).outcome default =
      some (.error e, default) := by
    intro hole
    cases hole <;> exact ⟨_, rfl⟩
  cases hholes : (v.plan (level + 2)).holes with
  | nil => rfl
  | cons hole holes =>
      obtain ⟨e, he⟩ := hfails hole
      rw [Eval.runPlan, hholes, List.mapM_cons, map_bind, Eval.outcome_bind_error he] at hout
      exact absurd hout (by simp)

theorem holesItems_of_followsLevels {level : Nat} {xs : List Value}
    (h : ∀ x ∈ xs, x.Unary ∧
      (x.FollowsLevels level → (x.plan 1).holes = (x.openHoles level).map some))
    (hxs : FollowsLevelsItems level xs) :
    (planItems 1 xs).holes = (openHolesItems level xs).map some := by
  induction xs with
  | nil => rfl
  | cons x xs ih =>
      obtain ⟨⟨hunary, hx⟩, hrest⟩ := List.forall_mem_cons.1 h
      have hfollows := hxs.1
      have hitems := ih hrest hxs.2
      rw [openHolesItems, List.map_append, ← hitems]
      rcases Eval.unary_cases hunary with ⟨y, hy, rfl⟩ | ⟨splice, form, rfl⟩ | ⟨hnesting, hplain⟩
      · have hinert : Value.Inert level (.list [.symbol Symbol.quasiquote, y]) := hfollows
        rw [planItems_template, Eval.openHole?_of_inert hinert, openHoles_of_inert hinert]
        simp [Plan.both, Plan.map, plan_deep hy 0]
      · have hlevel : level = 1 := by cases splice <;> exact hfollows
        rw [planItems_hole, Eval.openHole?_hole, if_pos hlevel]
        rfl
      · rw [hnesting] at hfollows
        rw [planItems_plain (hplain 1), Eval.openHole?_of_plain hnesting level, ← hx hfollows]
        rfl

/-- In a template that follows the levels the holes that are evaluated are those at level one. -/
theorem holes_of_followsLevels {v : Value} {level : Nat} (hv : v.Unary)
    (h : v.FollowsLevels level) :
    (v.plan 1).holes = (v.openHoles level).map some := by
  induction v using induction_parts generalizing level with
  | list xs ih =>
      have hunary := Eval.unaryItems_iff.1 hv.2
      rw [plan, openHoles, h.1]
      exact holesItems_of_followsLevels (fun x hx => ⟨hunary x hx, ih x hx (hunary x hx)⟩) h.2
  | dotted xs t ih iht =>
      obtain ⟨hxs, ht⟩ := h
      have hunary := Eval.unaryItems_iff.1 hv.1
      have hitems :=
        holesItems_of_followsLevels (fun x hx => ⟨hunary x hx, ih x hx (hunary x hx)⟩) hxs
      rw [openHoles, List.map_append, ← hitems]
      by_cases hhole : ∃ form, t = .list [.symbol Symbol.unquote, form]
      · obtain ⟨form, rfl⟩ := hhole
        obtain rfl : level = 1 := ht
        rw [plan_dotted_value]
        rfl
      · have htail : t.FollowsLevels level := by
          split at ht
          next form hform => exact absurd ⟨form, Eval.hole_of_nesting hform⟩ hhole
          next => exact ht
        rw [plan_dotted (Eval.ofHead_ne_value hv.2 hhole), ← iht hv.2 htail]
        rfl
  | _ => rfl

theorem refused_eq {v : Value} (h : ¬ v.Spliceable) : v.refused = !v.isVoid := by
  have hitems : v.items?.isNone = true := by
    rw [Option.isNone_iff_eq_none]
    exact Option.not_isSome_iff_eq_none.1 fun hsome => h (.inr hsome)
  rw [refused, hitems, Bool.and_true]

end Value

namespace State

variable {env : FrameId} {macros : MacroTableId}

/-- What becomes of a template at a hole whose value is to be spliced in. An error of a hole before
it is the error of the template; a value that is neither `nil` nor a list nor a vector is refused if
there is anything to it, and else counts for no items while the holes behind are filled. In a
template that follows the levels the holes are those at level one. -/
theorem splice_refused_unless_void (T : Value) {before after : List HoleForm} {form : Value}
    (hholes : (T.plan 1).holes = before ++ some (true, form) :: after) {s : State}
    (hquasi : s.transformer? macros Symbol.quasiquote = none) :
    (T.Unary → T.FollowsLevels 1 → (T.plan 1).holes = (T.openHoles 1).map some) ∧
      (∀ e t, s.FillsHoles env macros before (.error e) t →
        s.Evaluates env macros (.list [.symbol Symbol.quasiquote, T]) (.error e) t) ∧
      ∀ vs u v w, s.FillsHoles env macros before (.ok vs) u →
      u.Evaluates env macros form (.ok v) w →
        ¬ v.Spliceable →
          (v.isVoid = false → s.Evaluates env macros (.list [.symbol Symbol.quasiquote, T])
            (.error (.mismatch .notAList)) w) ∧
          (v.isVoid = true → v.spliced = [] ∧ ∀ r t,
            s.Evaluates env macros (.list [.symbol Symbol.quasiquote, T]) r t ↔
              ∃ q, w.FillsHoles env macros after q t ∧
              r = q.map fun us => (T.plan 1).build (vs ++ v :: us)) := by
  have hall : ∀ r t, s.Evaluates env macros (.list [.symbol Symbol.quasiquote, T]) r t ↔
      ∃ q, s.FillsHoles env macros (before ++ some (true, form) :: after) q t ∧
        r = q.map (T.plan 1).build := by
    intro r t
    rw [← hholes]
    exact Eval.evaluates_template_iff hquasi
  refine ⟨Value.holes_of_followsLevels, fun e t he => ?_,
    fun vs u v w hvs hv hnot => ⟨fun hvoid => ?_, fun hvoid => ?_⟩⟩
  · exact (hall _ _).2 ⟨.error e, inOrder_append_iff.2 (.inl ⟨e, rfl, he⟩), rfl⟩
  · have hrefused : v.refused = true := by rw [Value.refused_eq hnot, hvoid]; rfl
    have hhere : u.FillsHoles env macros (some (true, form) :: after)
        (.error (.mismatch .notAList)) w :=
      .stops (.refused hv hrefused)
    exact (hall _ _).2 ⟨_, inOrder_append_iff.2 (.inr ⟨vs, u, _, hvs, hhere, rfl⟩), rfl⟩
  · have hfits : v.refused = false := by rw [Value.refused_eq hnot, hvoid]; rfl
    have hhere : s.FillsHoles env macros (before ++ [some (true, form)]) (.ok (vs ++ [v])) w :=
      inOrder_append_iff.2
        (.inr ⟨vs, u, .ok [v], hvs, .cons (q := .ok []) (.value hv fun _ => hfits) .nil, rfl⟩)
    have hspliced : v.spliced = [] := by
      rw [Value.spliced, Option.not_isSome_iff_eq_none.1 fun hsome => hnot (.inr hsome)]
      rfl
    have hbuild : ∀ p : Except Error (List Value), (p.map ((vs ++ [v]) ++ ·)).map (T.plan 1).build =
        p.map fun us => (T.plan 1).build (vs ++ v :: us) := by
      intro p
      cases p <;> simp [Except.map]
    refine ⟨hspliced, fun r t => ?_⟩
    rw [hall, List.append_cons]
    constructor
    · rintro ⟨q, hq, rfl⟩
      rcases inOrder_append_iff.1 hq with ⟨e, -, he⟩ | ⟨us, y, p, hus, hp, rfl⟩
      · exact absurd (State.FillsHoles.unique he hhere).1 (by simp)
      · obtain ⟨hus, rfl⟩ := State.FillsHoles.unique hus hhere
        obtain rfl := Except.ok.inj hus
        exact ⟨p, hp, hbuild p⟩
    · rintro ⟨p, hp, rfl⟩
      exact ⟨_, inOrder_append_iff.2 (.inr ⟨_, _, p, hhere, hp, rfl⟩), (hbuild p).symm⟩

end State

namespace Session

/-- A number that is not zero is refused, and the hole behind is not evaluated. -/
theorem splice_refused_number :
    let s := (full (State.start Settings.standard) none).1
    let hole (splice : Bool) (x : Value) : Value := .list [.symbol (holeHead splice), x]
    let T : Value := .list [.symbol ⟨"a"⟩, hole true (.int 5), hole false (.symbol ⟨"b"⟩)]
    (T.plan 1).holes = [] ++ some (true, .int 5) :: [some (false, .symbol ⟨"b"⟩)] ∧
      s.transformer? 0 Symbol.quasiquote = none ∧ s.FillsHoles 0 0 [] (.ok []) s ∧
      s.Evaluates 0 0 (.int 5) (.ok (.int 5)) s ∧ ¬ (Value.int 5).Spliceable ∧
      (Value.int 5).isVoid = false ∧
      s.Evaluates 0 0 (.list [.symbol Symbol.quasiquote, T]) (.error (.mismatch .notAList)) s := by
  intro s hole T
  have hholes : (T.plan 1).holes = [] ++ some (true, .int 5) :: [some (false, .symbol ⟨"b"⟩)] := rfl
  have hquasi : s.transformer? 0 Symbol.quasiquote = none := by rfl
  have hvalue : s.Evaluates 0 0 (.int 5) (.ok (.int 5)) s := ⟨1, rfl⟩
  have hnot : ¬ (Value.int 5).Spliceable := by
    rintro (h | h) <;> exact absurd h (by simp [Value.items?])
  refine ⟨hholes, hquasi, .nil, hvalue, hnot, rfl, ?_⟩
  obtain ⟨-, -, hrefused⟩ := State.splice_refused_unless_void T hholes hquasi
  exact (hrefused [] s (.int 5) s .nil hvalue hnot).1 rfl

/-- Zero is neither `nil` nor a list nor a vector, and is dropped where it is to be spliced in. -/
theorem not_refused_zero :
    let s := (full (State.start Settings.standard) none).1
    let T : Value := .list [.symbol ⟨"a"⟩, .list [.symbol Symbol.unquoteSplicing, .int 0]]
    T.Unary ∧ T.FollowsLevels 1 ∧ T.openHoles 1 = [(true, .int 0)] ∧
      s.Evaluates 0 0 (.int 0) (.ok (.int 0)) s ∧ ¬ (Value.int 0).Spliceable ∧
      s.Evaluates 0 0 (.list [.symbol Symbol.quasiquote, T]) (.ok (.list [.symbol ⟨"a"⟩])) s ∧
      ¬ ∃ e t, s.Evaluates 0 0 (.list [.symbol Symbol.quasiquote, T]) (.error e) t := by
  intro s T
  have hquasi : s.transformer? 0 Symbol.quasiquote = none := by rfl
  have hvalue : s.Evaluates 0 0 (.int 0) (.ok (.int 0)) s := ⟨1, rfl⟩
  have hanswer : s.Evaluates 0 0 (.list [.symbol Symbol.quasiquote, T])
      (.ok (.list [.symbol ⟨"a"⟩])) s :=
    (Eval.evaluates_template_iff hquasi).2
      ⟨.ok [.int 0], .cons (q := .ok []) (.value hvalue fun _ => rfl) .nil, rfl⟩
  refine ⟨?_, ⟨rfl, trivial, rfl, trivial⟩, rfl, hvalue, ?_, hanswer, ?_⟩
  · simp [T, Value.Unary, Value.UnaryItems, Value.OneArgument]
  · rintro (h | h) <;> exact absurd h (by simp [Value.items?])
  · rintro ⟨e, t, h⟩
    exact absurd (h.unique hanswer).1 (by simp)

end Session
end SlotLisp
