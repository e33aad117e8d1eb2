import SlotLisp.Session
import SlotLisp.Proofs.Evaluation.Levels

/-!
When evaluating a template keeps to the levels. The condition of the module before is necessary as
well: holes whose value is a list of one item show up in whatever is filled in, because a hole is a
list of two. So no template that breaks the condition is filled in by the rule for every meaning of
its holes.
-/

namespace SlotLisp
namespace Eval

/-! ## A value for all holes -/

def probe : Value → Eval Value := fun _ => pure (.list [.nil])

theorem openHole?_eq_some {v form : Value} {level : Nat} {splice : Bool}
    (h : v.openHole? level = some (splice, form)) :
    level = 1 ∧ v = .list [.symbol (holeHead splice), form] := by
  rw [Value.openHole?] at h
  split at h
  next hnesting =>
    split at h
    next hlevel =>
      obtain ⟨rfl, rfl⟩ := Prod.mk.inj (Option.some.inj h)
      exact ⟨hlevel, hole_of_nesting hnesting⟩
    next => exact absurd h (by simp)
  next => exact absurd h (by simp)

/-- An item that is a hole at level one is replaced by one item, which is not a list of two. -/
theorem probe_open {v form : Value} {level : Nat} {splice : Bool}
    (h : v.openHole? level = some (splice, form)) :
    ∃ w, fillItemsByLevel probe level [v] = pure [w] ∧
      fillItems probe 1 [v] = pure [w] ∧ ∀ a b, w ≠ .list [a, b] := by
  obtain ⟨rfl, rfl⟩ := openHole?_eq_some h
  cases splice with
  | false =>
      exact ⟨.list [.nil], fillItemsByLevel_value form, fillItems_value form, by simp⟩
  | true =>
      exact ⟨.nil, fillItemsByLevel_splice form, fillItems_splice form, by simp⟩

/-- By the rule there are as many items as before, and the same ones only without open holes. -/
theorem probe_items {xs : List Value} {level : Nat}
    (h : ∀ x ∈ xs, ∃ w, fillByLevel probe level x = pure w ∧ (w = x → x.Inert level)) :
    ∃ ws, fillItemsByLevel probe level xs = pure ws ∧ ws.length = xs.length ∧
      (ws = xs → Value.InertItems level xs) := by
  induction xs with
  | nil => exact ⟨[], by rw [fillItemsByLevel], rfl, fun _ => trivial⟩
  | cons x xs ih =>
      obtain ⟨⟨w, hw, hinert⟩, hxs⟩ := List.forall_mem_cons.1 h
      obtain ⟨ws, hws, hlength, hinerts⟩ := ih hxs
      cases hopen : x.openHole? level with
      | none =>
          refine ⟨w :: ws, ?_, by simp [hlength], fun heq => ?_⟩
          · rw [fillItemsByLevel_cons, fillItemsByLevel_single hopen, hw, hws]
            rfl
          · obtain ⟨hx, hxs⟩ := List.cons.inj heq
            exact ⟨hinert hx, hinerts hxs⟩
      | some hole =>
          obtain ⟨u, hu, -, hne⟩ := probe_open hopen
          refine ⟨u :: ws, ?_, by simp [hlength], fun heq => ?_⟩
          · rw [fillItemsByLevel_cons, hu, hws]
            rfl
          · obtain ⟨hx, -⟩ := List.cons.inj heq
            exact absurd (hx.trans (openHole?_eq_some hopen).2) (hne _ _)

theorem probe_fillByLevel (v : Value) (level : Nat) :
    ∃ w, fillByLevel probe level v = pure w ∧ (w = v → v.Inert level) := by
  induction v using Value.induction_parts generalizing level with
  | list xs ih =>
      cases hopen : Value.openHole? level (.list xs) with
      | none =>
          obtain ⟨ws, hws, -, hinerts⟩ :=
            probe_items fun x hx => ih x hx (Value.innerLevel level (.list xs))
          refine ⟨.list ws, by rw [fillByLevel_list hopen, hws]; rfl, fun heq => ⟨hopen, ?_⟩⟩
          exact hinerts (Value.list.inj heq)
      | some hole =>
          refine ⟨.list [.nil], fillByLevel_open hopen, fun heq => ?_⟩
          exact absurd (heq.trans (openHole?_eq_some hopen).2) (by simp)
  | dotted xs t ih iht =>
      obtain ⟨ws, hws, -, hinerts⟩ := probe_items fun x hx => ih x hx level
      obtain ⟨w, hw, hinert⟩ := iht level
      refine ⟨.dotted ws w, by rw [fillByLevel, hw, hws]; rfl, fun heq => ?_⟩
      obtain ⟨hxs, ht⟩ := Value.dotted.inj heq
      exact ⟨hinerts hxs, hinert ht⟩
  | _ => exact ⟨_, rfl, fun _ => trivial⟩

theorem probe_closedHole (splice : Bool) (x : Value) {level : Nat} (hlevel : level ≠ 1) :
    ∃ a b, fillByLevel probe level (.list [.symbol (holeHead splice), x]) =
      pure (.list [a, b]) := by
  have hclosed := (openHole?_hole splice x level).trans (if_neg hlevel)
  have hparts : ∀ y ∈ [.symbol (holeHead splice), x], ∃ w,
      fillByLevel probe (Value.innerLevel level (.list [.symbol (holeHead splice), x])) y = pure w ∧
        (w = y → y.Inert _) := fun y _ => probe_fillByLevel y _
  obtain ⟨ws, hws, hlength, -⟩ := probe_items hparts
  match ws, hlength with
  | [a, b], _ => exact ⟨a, b, by rw [fillByLevel_list hclosed, hws]; rfl⟩

/-- Where both ways of filling in an item agree, the item follows the rule. -/
theorem probe_followsItem {v : Value} {level : Nat} (hv : v.Unary)
    (hown : ∃ w w', fill probe 1 v = pure w ∧ fillByLevel probe level v = pure w' ∧
      (w = w' → v.FollowsLevels level)) :
    ∃ w w', fillItems probe 1 [v] = pure [w] ∧ fillItemsByLevel probe level [v] = pure [w'] ∧
      (w = w' → Value.FollowsLevelsItems level [v]) := by
  obtain ⟨w, w', hw, hw', hfollows⟩ := hown
  rcases unary_cases hv with ⟨x, hx, rfl⟩ | ⟨splice, x, rfl⟩ | ⟨hnesting, hplain⟩
  · obtain ⟨u, hu, hinert⟩ := probe_fillByLevel (.list [.symbol Symbol.quasiquote, x]) level
    refine ⟨.list [.symbol Symbol.quasiquote, x], u, ?_, ?_, fun heq => ⟨hinert heq.symm, trivial⟩⟩
    · rw [fillItems_template, (fill_deep probe hx 0).1]
      rfl
    · rw [fillItemsByLevel_single rfl, hu]
      rfl
  · have hopen := openHole?_hole splice x
    by_cases hlevel : level = 1
    · subst hlevel
      obtain ⟨u, hu, hu', -⟩ := probe_open (hopen 1)
      refine ⟨u, u, hu', hu, fun _ => ⟨?_, trivial⟩⟩
      cases splice <;> rfl
    · have hclosed := (hopen level).trans (if_neg hlevel)
      obtain ⟨u, -, hu, hne⟩ := probe_open (hopen 1)
      obtain ⟨a, b, hab⟩ := probe_closedHole splice x hlevel
      refine ⟨u, .list [a, b], hu, ?_, fun heq => absurd heq (hne a b)⟩
      rw [fillItemsByLevel_single hclosed, hab]
      rfl
  · refine ⟨w, w', ?_, ?_, fun heq => ⟨?_, trivial⟩⟩
    · rw [fillItems_plain (hplain 1), hw]
      rfl
    · rw [fillItemsByLevel_single (openHole?_of_plain hnesting level), hw']
      rfl
    · rw [hnesting]
      exact hfollows heq

theorem probe_followsItems {xs : List Value} {level : Nat}
    (h : ∀ x ∈ xs, x.Unary ∧ ∃ w w', fill probe 1 x = pure w ∧ fillByLevel probe level x = pure w' ∧
      (w = w' → x.FollowsLevels level)) :
    ∃ ws ws', fillItems probe 1 xs = pure ws ∧ fillItemsByLevel probe level xs = pure ws' ∧
      ws.length = xs.length ∧ (ws = ws' → Value.FollowsLevelsItems level xs) := by
  induction xs with
  | nil => exact ⟨[], [], rfl, rfl, rfl, fun _ => trivial⟩
  | cons x xs ih =>
      obtain ⟨⟨hunary, hown⟩, hxs⟩ := List.forall_mem_cons.1 h
      obtain ⟨w, w', hw, hw', hfollows⟩ := probe_followsItem hunary hown
      obtain ⟨ws, ws', hws, hws', hlength, hrest⟩ := ih hxs
      refine ⟨w :: ws, w' :: ws', ?_, ?_, by simp [hlength], fun heq => ?_⟩
      · rw [fillItems_cons, hw, hws]
        rfl
      · rw [fillItemsByLevel_cons, hw', hws']
        rfl
      · obtain ⟨hx, hxs⟩ := List.cons.inj heq
        exact ⟨(hfollows hx).1, hrest hxs⟩

theorem probe_followsLevels {v : Value} (hv : v.Unary) (level : Nat) :
    ∃ w w', fill probe 1 v = pure w ∧ fillByLevel probe level v = pure w' ∧
      (w = w' → v.FollowsLevels level) := by
  induction v using Value.induction_parts generalizing level with
  | list xs ih =>
      have hunary := unaryItems_iff.1 hv.2
      obtain ⟨ws, ws', hws, hws', hlength, hrest⟩ := probe_followsItems
        fun x hx => ⟨hunary x hx, ih x hx (hunary x hx) (Value.innerLevel level (.list xs))⟩
      have hcode : fill probe 1 (.list xs) = pure (.list ws) := by
        rw [fill_list, hws]
        rfl
      cases hopen : Value.openHole? level (.list xs) with
      | none =>
          refine ⟨_, .list ws', hcode, by rw [fillByLevel_list hopen, hws']; rfl, fun heq => ?_⟩
          exact ⟨hopen, hrest (Value.list.inj heq)⟩
      | some hole =>
          refine ⟨_, .list [.nil], hcode, fillByLevel_open hopen, fun heq => ?_⟩
          obtain rfl := Value.list.inj heq
          obtain rfl := Value.list.inj (openHole?_eq_some hopen).2
          exact absurd hlength (by simp)
  | dotted xs t ih iht =>
      have hunary := unaryItems_iff.1 hv.1
      obtain ⟨ws, ws', hws, hws', -, hrest⟩ := probe_followsItems
        fun x hx => ⟨hunary x hx, ih x hx (hunary x hx) level⟩
      by_cases hhole : ∃ x, t = .list [.symbol Symbol.unquote, x]
      · obtain ⟨x, rfl⟩ := hhole
        have hcode : fill probe 1 (.dotted xs (.list [.symbol Symbol.unquote, x])) =
            pure (.dotted ws (.list [.nil])) := by
          rw [fill_dotted_value, hws]
          rfl
        by_cases hlevel : level = 1
        · subst hlevel
          refine ⟨_, .dotted ws' (.list [.nil]), hcode, ?_, fun heq => ⟨?_, rfl⟩⟩
          · rw [fillByLevel, fillByLevel_unquote, hws']
            rfl
          · exact hrest (Value.dotted.inj heq).1
        · obtain ⟨a, b, hab⟩ := probe_closedHole false x hlevel
          have hab' : fillByLevel probe level (.list [.symbol Symbol.unquote, x]) =
            pure (.list [a, b]) := hab
          refine ⟨_, .dotted ws' (.list [a, b]), hcode, by rw [fillByLevel, hab', hws']; rfl,
            fun heq => ?_⟩
          exact absurd (Value.dotted.inj heq).2 (by simp)
      · obtain ⟨w, w', hw, hw', hfollows⟩ := iht hv.2 level
        refine ⟨.dotted ws w, .dotted ws' w',
          ?_, by rw [fillByLevel, hw', hws']; rfl, fun heq => ?_⟩
        · rw [fill_dotted (ofHead_ne_value hv.2 hhole), hw, hws]
          rfl
        · obtain ⟨hxs, ht⟩ := Value.dotted.inj heq
          refine ⟨hrest hxs, ?_⟩
          split
          next hnesting => exact absurd ⟨_, hole_of_nesting hnesting⟩ hhole
          next => exact hfollows ht
  | _ => exact ⟨_, _, rfl, rfl, fun _ => trivial⟩

/-! ## Evaluating templates -/

theorem outcome_step_quasiquote (eval : Evaluator) (fuel : Nat) (v : Value) (env : FrameId)
    {macros : MacroTableId} {s : State} (h : s.transformer? macros Symbol.quasiquote = none) :
    (step eval fuel (.list [.symbol Symbol.quasiquote, v]) env macros).outcome s =
      (fill (fun form => eval form env macros) 1 v).outcome s := by
  show (symbolForm eval fuel Symbol.quasiquote [v] env macros).outcome s = _
  have hspecial : SpecialForm.ofSymbol? Symbol.quasiquote = some .quasiquote := by decide
  rw [symbolForm, outcome_bind_ok (outcome_get s), h, hspecial]
  rfl

/-- A template evaluates to what the rule on levels makes of it, whatever the forms in its holes
evaluate to, exactly if it follows the levels; then it does so in every evaluation. -/
theorem evaluate_template_by_level_iff {v : Value} (hv : v.Unary) :
    ((∀ (eval : Evaluator) (fuel : Nat) (env : FrameId) (macros : MacroTableId) (s : State),
        s.transformer? macros Symbol.quasiquote = none →
        (step eval fuel (.list [.symbol Symbol.quasiquote, v]) env macros).outcome s =
          (fillByLevel (fun form => eval form env macros) 1 v).outcome s) ↔ v.FollowsLevels 1) ∧
      (v.FollowsLevels 1 →
        ∀ (fuel : Nat) (env : FrameId) (macros : MacroTableId) (s : State),
          s.transformer? macros Symbol.quasiquote = none →
          (evaluate (fuel + 1) (.list [.symbol Symbol.quasiquote, v]) env macros).outcome s =
            (fillByLevel (fun form => evaluate fuel form env macros) 1 v).outcome s) := by
  have hstep : v.FollowsLevels 1 → ∀ (eval : Evaluator) (fuel : Nat) (env : FrameId)
      (macros : MacroTableId) (s : State), s.transformer? macros Symbol.quasiquote = none →
      (step eval fuel (.list [.symbol Symbol.quasiquote, v]) env macros).outcome s =
        (fillByLevel (fun form => eval form env macros) 1 v).outcome s := by
    intro h eval fuel env macros s hs
    rw [outcome_step_quasiquote eval fuel v env hs, fill_eq_of_followsLevels _ hv h]
  refine ⟨⟨fun h => ?_, hstep⟩, fun h fuel => hstep h (evaluate fuel) fuel⟩
  obtain ⟨w, w', hw, hw', hfollows⟩ := probe_followsLevels hv 1
  have hs : (default : State).transformer? 0 Symbol.quasiquote = none := rfl
  have hout := h (fun form _ _ => probe form) 0 0 0 default hs
  rw [outcome_step_quasiquote _ 0 v 0 hs] at hout
  have hpure : (pure w : Eval Value).outcome default = (pure w' : Eval Value).outcome default := by
    rw [← hw, ← hw']
    exact hout
  exact hfollows (outcome_pure_eq_ok hpure).1

end Eval

namespace Session

/-- A template with a template inside, a hole of each kind and another as its tail. -/
theorem evaluate_template_by_level_usual :
    let s := (full (State.start Settings.standard) none).1
    let inner : Value := .list [.symbol Symbol.quasiquote,
      .list [.symbol ⟨"b"⟩, .list [.symbol Symbol.unquote, .symbol ⟨"c"⟩]]]
    let v : Value := .dotted [inner, .list [.symbol Symbol.unquoteSplicing, .nil]]
      (.list [.symbol Symbol.unquote, .int 5])
    v.Unary ∧ v.FollowsLevels 1 ∧ s.transformer? 0 Symbol.quasiquote = none ∧
      (evaluate 2 (.list [.symbol Symbol.quasiquote, v]) 0 0).outcome s =
        (Eval.fillByLevel (fun form => evaluate 1 form 0 0) 1 v).outcome s ∧
      (evaluate 2 (.list [.symbol Symbol.quasiquote, v]) 0 0).outcome s =
        some (.ok (.dotted [inner] (.int 5)), s) := by
  intro s inner v
  have hunary : v.Unary := by
    simp [v, inner, Value.Unary, Value.UnaryItems, Value.OneArgument]
  have hfollows : v.FollowsLevels 1 :=
    ⟨⟨⟨rfl, trivial, ⟨rfl, trivial, ⟨rfl, trivial, trivial, trivial⟩,
    trivial⟩, trivial⟩, rfl, trivial⟩, rfl⟩
  have hmacro : s.transformer? 0 Symbol.quasiquote = none := by rfl
  have hby := (Eval.evaluate_template_by_level_iff hunary).2 hfollows 1 0 0 s hmacro
  refine ⟨hunary, hfollows, hmacro, hby, hby.trans ?_⟩
  clear_value s
  rfl

/-- A hole inside the hole of an inner template is at level one and is copied all the same. -/
theorem not_by_level_inner_hole :
    let s := (full (State.start Settings.standard) none).1
    let hole (x : Value) : Value := .list [.symbol Symbol.unquote, x]
    let v (x : Value) : Value := .list [.symbol ⟨"a"⟩,
      .list [.symbol Symbol.quasiquote, .list [.symbol ⟨"b"⟩, hole (.list [.symbol ⟨"c"⟩, x])]]]
    (v (hole (.int 5))).Unary ∧ ¬ (v (hole (.int 5))).FollowsLevels 1 ∧
      s.transformer? 0 Symbol.quasiquote = none ∧
      (Eval.fillByLevel (fun form => evaluate 1 form 0 0) 1 (v (hole (.int 5)))).outcome s =
        some (.ok (v (.int 5)), s) ∧
      (evaluate 2 (.list [.symbol Symbol.quasiquote, v (hole (.int 5))]) 0 0).outcome s =
        some (.ok (v (hole (.int 5))), s) ∧
      v (hole (.int 5)) ≠ v (.int 5) := by
  intro s hole v
  have hmacro : s.transformer? 0 Symbol.quasiquote = none := by rfl
  refine ⟨?_, ?_, hmacro, ?_, ?_, ?_⟩
  · simp [v, hole, Value.Unary, Value.UnaryItems, Value.OneArgument]
  · rintro ⟨-, -, ⟨-, -, ⟨-, -, ⟨-, -, ⟨-, -, ⟨hopen, -⟩, -⟩, -⟩, -⟩, -⟩, -⟩
    have hsome : some (false, Value.int 5) = none := hopen
    exact absurd hsome (by simp)
  · clear_value s
    rfl
  · clear_value s
    exact (Eval.outcome_step_quasiquote _ 1 _ 0 hmacro).trans rfl
  · simp [v, hole]

end Session
end SlotLisp
