import SlotLisp.Proofs.Evaluation.Order
import SlotLisp.Proofs.Evaluation.Nesting

/-!
What filling in a template comes down to. The forms in its holes are evaluated one after the other,
the tail of a dotted list before its items, and nothing else is; and what is made of the template
depends on the values alone. So a template is a plan: the list of its holes, and what is built of
their values. The main statement is that the evaluator goes through the one and answers the other.
-/

namespace SlotLisp

namespace Value

/-- The items that a value gives where it is spliced in; `nil` gives none. -/
def spliced (v : Value) : List Value := v.items?.getD []

/-- Whether a value is refused where it is spliced in: there is something to it and it has no
items. -/
def refused (v : Value) : Bool := !v.isVoid && v.items?.isNone

theorem splicedItems_eq (v : Value) :
    splicedItems v = if v.refused then .error (.mismatch .notAList) else .ok v.spliced := by
  cases hvoid : v.isVoid with
  | true =>
      have hnone : v.spliced = [] := by
        cases v with
        | list xs => exact List.isEmpty_iff.1 hvoid
        | vector xs => exact List.isEmpty_iff.1 hvoid
        | _ => rfl
      rw [splicedItems, if_pos hvoid, refused, hvoid, hnone]
      rfl
  | false =>
      rw [splicedItems, hvoid, refused, hvoid, spliced]
      cases v.items? <;> rfl

end Value

/-- Whether the value of a hole is spliced in, and the form of the hole. A hole or a template that
has no form is `none`. -/
abbrev HoleForm := Option (Bool × Value)

/-- Holes in the order in which they are evaluated, and what is built of their values. -/
structure Plan (α : Type) where
  holes : List HoleForm
  build : List Value → α

namespace Plan

variable {α β γ : Type}

def copy (a : α) : Plan α := ⟨[], fun _ => a⟩

def ofHole (hole : HoleForm) : Plan Value := ⟨[hole], fun vs => vs.headD .nil⟩

def map (g : α → β) (p : Plan α) : Plan β := ⟨p.holes, fun vs => g (p.build vs)⟩

/-- One plan before another. The first values are for the holes of the first one. -/
def both (k : α → β → γ) (p : Plan α) (q : Plan β) : Plan γ :=
  ⟨p.holes ++ q.holes, fun vs =>
    k (p.build (vs.take p.holes.length)) (q.build (vs.drop p.holes.length))⟩

end Plan

namespace Value

mutual

def plan (level : Nat) : Value → Plan Value
  | .list xs => (planItems level xs).map .list
  | .dotted xs t =>
    .both (fun t xs => .dotted xs t)
      (match t with
        | .list (h :: args) =>
          if Hole.ofHead level h = .value then .ofHole (args.head?.map (false, ·))
          else (planItems level (h :: args)).map .list
        | t => plan level t)
      (planItems level xs)
  | v => .copy v
termination_by structural v => v

def planItems (level : Nat) : List Value → Plan (List Value)
  | [] => .copy []
  | v :: vs =>
    .both (· ++ ·)
      (match v with
        | .list (h :: args) =>
          match Hole.ofHead level h with
          | .inner =>
            match args with
            | x :: _ => (plan (level + 1) x).map fun t => [.list [.symbol Symbol.quasiquote, t]]
            | [] => (Plan.ofHole none).map List.singleton
          | .value => (Plan.ofHole (args.head?.map (false, ·))).map List.singleton
          | .splice =>
            match args with
            | x :: _ => (Plan.ofHole (some (true, x))).map spliced
            | [] => .copy []
          | .plain => (planItems level (h :: args)).map fun ts => [.list ts]
        | v => (plan level v).map List.singleton)
      (planItems level vs)

end

/-- The head of a list that stands by itself is of no account. -/
theorem planItems_plain {level : Nat} {v : Value}
    (h : ∀ head args, v = .list (head :: args) → Hole.ofHead level head = .plain)
    (vs : List Value) :
    planItems level (v :: vs) =
      .both (· ++ ·) ((v.plan level).map List.singleton) (planItems level vs) := by
  rw [planItems.eq_def]
  dsimp only
  split
  next head args =>
    rw [h head args rfl, plan]
    rfl
  next => rfl

theorem planItems_template (level : Nat) (x : Value) (vs : List Value) :
    planItems level (.list [.symbol Symbol.quasiquote, x] :: vs) =
      .both (· ++ ·) ((x.plan (level + 1)).map fun t => [.list [.symbol Symbol.quasiquote, t]])
        (planItems level vs) := by
  rw [planItems]
  simp [Hole.ofHead]

theorem planItems_hole (splice : Bool) (form : Value) (vs : List Value) :
    planItems 1 (.list [.symbol (holeHead splice), form] :: vs) =
      .both (· ++ ·) ((Plan.ofHole (some (splice, form))).map fun v =>
        if splice then v.spliced else [v])
        (planItems 1 vs) := by
  have hhead : Hole.ofHead 1 (.symbol (holeHead splice)) = if splice then .splice else .value := by
    cases splice <;> decide
  rw [planItems, hhead]
  cases splice <;> rfl

theorem plan_dotted {level : Nat} {t : Value}
    (h : ∀ head args, t = .list (head :: args) → Hole.ofHead level head ≠ .value)
    (xs : List Value) :
    (Value.dotted xs t).plan level = .both (fun t xs => .dotted xs t) (t.plan level)
    (planItems level xs) := by
  rw [plan.eq_def]
  dsimp only
  split
  next head args => rw [if_neg (h head args rfl), plan]
  next => rfl

theorem plan_dotted_value (xs : List Value) (form : Value) :
    (Value.dotted xs (.list [.symbol Symbol.unquote, form])).plan 1 =
      .both (fun t xs => .dotted xs t) (.ofHole (some (false, form))) (planItems 1 xs) := by
  have hhead : Hole.ofHead 1 (.symbol Symbol.unquote) = .value := by decide
  rw [plan, if_pos hhead]
  rfl

end Value

namespace Eval

def fitted (splice : Bool) (v : Value) : Eval Value :=
  if splice && v.refused then throw (.mismatch .notAList) else pure v

@[simp] theorem fitted_false : fitted false = pure := by
  funext v
  simp [fitted]

def fillHole (eval : Value → Eval Value) : HoleForm → Eval Value
  | some (splice, form) => eval form >>= fitted splice
  | none => fault .noSuchIndex

variable {eval : Value → Eval Value}

/-! ## Running a plan -/

section Plans

variable {α β γ : Type} {f : HoleForm → Eval Value}

def runPlan (eval : Value → Eval Value) (p : Plan α) : Eval α :=
  p.build <$> p.holes.mapM (fillHole eval)

/-- What is done with the results of a pass over a list matters only for as many results as there
are items. -/
theorem bind_mapM_congr {g g' : List Value → Eval α} (holes : List HoleForm)
    (h : ∀ vs : List Value, vs.length = holes.length → g vs = g' vs) :
    holes.mapM f >>= g = holes.mapM f >>= g' := by
  induction holes generalizing g g' with
  | nil => simpa using h [] rfl
  | cons hole holes ih =>
      simp only [List.mapM_cons, bind_assoc, pure_bind]
      congr 1
      funext v
      exact ih fun vs hvs => h (v :: vs) (by simp [hvs])

@[simp] theorem runPlan_copy (a : α) : runPlan eval (.copy a) = pure a := by
  simp [runPlan, Plan.copy]

@[simp] theorem runPlan_map (g : α → β) (p : Plan α) :
    runPlan eval (p.map g) = g <$> runPlan eval p := by
  rw [runPlan, runPlan, Functor.map_map]
  rfl

@[simp] theorem runPlan_ofHole (hole : HoleForm) :
    runPlan eval (.ofHole hole) = fillHole eval hole := by
  simp [runPlan, Plan.ofHole]

theorem runPlan_both (k : α → β → γ) (p : Plan α) (q : Plan β) : runPlan eval (.both k p q) = do
    let a ← runPlan eval p
    let b ← runPlan eval q
    return k a b := by
  simp only [runPlan, Plan.both, List.mapM_append, map_eq_pure_bind, bind_assoc, pure_bind]
  refine bind_mapM_congr p.holes fun us hus => ?_
  congr 1
  funext vs
  rw [← hus, List.take_left, List.drop_left]

end Plans

/-! ## Filling in by a plan -/

theorem fillHole_value (args : List Value) : fillHole eval (args.head?.map (false, ·)) =
    match args with
    | x :: _ => eval x
    | [] => fault .noSuchIndex := by
  cases args <;> simp [fillHole]

theorem fillHole_splice (x : Value) : Value.spliced <$> fillHole eval (some (true, x)) =
    eval x >>= fun t => ofExcept (splicedItems t) := by
  rw [fillHole, map_bind]
  congr 1
  funext v
  rw [Value.splicedItems_eq, fitted]
  cases v.refused <;> simp [ofExcept]

theorem fillHole_missing {α : Type} (g : Value → α) :
    g <$> fillHole eval none = fault .noSuchIndex := rfl

mutual

/-- Filling in a template is evaluating the holes of its plan in order and building the answer of
their values. -/
theorem fill_eq_runPlan (eval : Value → Eval Value) (level : Nat) (v : Value) :
    fill eval level v = runPlan eval (v.plan level) := by
  cases v with
  | list xs =>
      rw [fill_list, Value.plan, runPlan_map, ← fillItems_eq_runPlan eval level xs]
  | dotted xs t =>
      have hitems := fillItems_eq_runPlan eval level xs
      by_cases hvalue : ∃ head args, t = .list (head :: args) ∧ Hole.ofHead level head = .value
      · obtain ⟨head, args, rfl, hhead⟩ := hvalue
        rw [Value.plan, if_pos hhead, runPlan_both, runPlan_ofHole, fillHole_value, ← hitems,
          fill.eq_def]
        dsimp only
        rw [if_pos hhead]
        cases args <;> rfl
      · have hnot : ∀ head args, t = .list (head :: args) → Hole.ofHead level head ≠ .value :=
          fun head args heq hhead => hvalue ⟨head, args, heq, hhead⟩
        rw [fill_dotted hnot, Value.plan_dotted hnot, runPlan_both, ← hitems,
          ← fill_eq_runPlan eval level t]
  | _ => rfl

theorem fillItems_eq_runPlan (eval : Value → Eval Value) (level : Nat) (vs : List Value) :
    fillItems eval level vs = runPlan eval (Value.planItems level vs) := by
  cases vs with
  | nil => rw [fillItems_nil, Value.planItems, runPlan_copy]
  | cons v vs =>
      have hrest := fillItems_eq_runPlan eval level vs
      -- An item that is neither a template nor a hole is filled in as if it stood alone.
      by_cases hhead : ∃ head args, v = .list (head :: args) ∧ Hole.ofHead level head ≠ .plain
      · obtain ⟨head, args, rfl, hhead⟩ := hhead
        rw [fillItems_cons, Value.planItems.eq_def]
        dsimp only
        rw [runPlan_both, ← hrest]
        congr 1
        rw [fillItems.eq_def]
        simp only [fillItems_nil, pure_bind, List.append_nil, bind_pure]
        cases hhole : Hole.ofHead level head with
        | inner =>
            cases args with
            | nil =>
                exact (fillHole_missing List.singleton).symm.trans
                  (by rw [runPlan_map, runPlan_ofHole])
            | cons x args =>
                dsimp only
                rw [runPlan_map, ← fill_eq_runPlan eval (level + 1) x]
        | value =>
            dsimp only
            rw [runPlan_map, runPlan_ofHole, fillHole_value]
            cases args <;> rfl
        | splice =>
            cases args with
            | nil => exact (runPlan_copy []).symm
            | cons x args =>
                dsimp only
                rw [runPlan_map, runPlan_ofHole, fillHole_splice]
        | plain => exact absurd hhole hhead
      · have hplain : ∀ head args, v = .list (head :: args) → Hole.ofHead level head = .plain :=
          fun head args heq => Decidable.of_not_not fun hne => hhead ⟨head, args, heq, hne⟩
        rw [fillItems_cons, fillItems_plain hplain, Value.planItems_plain hplain, runPlan_both,
          runPlan_map, ← hrest, ← fill_eq_runPlan eval level v]

end

theorem fillHole_extends {f g : Value → Eval Value} (h : ∀ v, Extends Value (f v) (g v))
    (hole : HoleForm) :
    Extends Value (fillHole f hole) (fillHole g hole) := by
  cases hole with
  | none => exact congruence_extends.throw _
  | some hole =>
      refine congruence_extends.bind (h hole.2) fun v => ?_
      unfold fitted
      split
      · exact congruence_extends.throw _
      · exact congruence_extends.pure v

end Eval

/-! ## Templates apart from fuel -/

namespace State

/-- What a hole comes to. A value that is to be spliced in and cannot be is an error. -/
inductive FillsHole (env : FrameId) (macros : MacroTableId) (s : State) :
    HoleForm → Except Error Value → State → Prop
  | value {splice : Bool} {form v : Value} {t : State} (h : s.Evaluates env macros form (.ok v) t)
      (hfits : splice = true → v.refused = false) :
      FillsHole env macros s (some (splice, form)) (.ok v) t
  | refused {form v : Value} {t : State} (h : s.Evaluates env macros form (.ok v) t)
      (hrefused : v.refused = true) :
      FillsHole env macros s (some (true, form)) (.error (.mismatch .notAList)) t
  | raised {splice : Bool} {form : Value} {e : Error} {t : State}
      (h : s.Evaluates env macros form (.error e) t) :
      FillsHole env macros s (some (splice, form)) (.error e) t
  | missing : FillsHole env macros s none (.error (.fault .noSuchIndex)) s

abbrev FillsHoles (s : State) (env : FrameId) (macros : MacroTableId) (holes : List HoleForm)
    (r : Except Error (List Value)) (t : State) : Prop :=
  InOrder (fun s hole r t => s.FillsHole env macros hole r t) s holes r t

end State

namespace Eval

variable {env : FrameId} {macros : MacroTableId} {s t : State}

theorem ends_fillHole_iff {hole : HoleForm} {r : Except Error Value} :
    Ends (fun n => fillHole (fun form => evaluate n form env macros) hole) s r t ↔
      s.FillsHole env macros hole r t := by
  cases hole with
  | none =>
      simp only [fillHole, ends_const_iff, outcome_fault, Option.some.injEq, Prod.mk.injEq]
      constructor
      · rintro ⟨rfl, rfl⟩
        exact .missing
      · rintro ⟨⟩
        exact ⟨rfl, rfl⟩
  | some hole =>
      obtain ⟨splice, form⟩ := hole
      refine (ends_bind_iff (f := fun _ => fitted splice)
        (fun hle => evaluate_extends hle form env macros)
        fun _ _ _ _ _ _ h => h).trans ?_
      simp only [ends_const_iff, fitted]
      constructor
      · rintro (⟨e, rfl, h⟩ | ⟨v, u, h, hr⟩)
        · exact .raised h
        · by_cases hv : (splice && v.refused) = true
          · rw [if_pos hv] at hr
            obtain ⟨rfl, rfl⟩ := Prod.mk.inj (Option.some.inj hr)
            obtain ⟨rfl, hrefused⟩ := Bool.and_eq_true_iff.1 hv
            exact .refused h hrefused
          · rw [if_neg hv] at hr
            obtain ⟨rfl, rfl⟩ := Prod.mk.inj (Option.some.inj hr)
            exact .value h fun hsplice => by simpa [hsplice] using hv
      · intro h
        cases h with
        | value h hfits =>
            refine .inr ⟨_, t, h, ?_⟩
            rw [if_neg fun hv => ?_]
            · rfl
            · obtain ⟨hsplice, hrefused⟩ := Bool.and_eq_true_iff.1 hv
              rw [hfits hsplice] at hrefused
              exact absurd hrefused (by simp)
        | refused h hrefused =>
            refine .inr ⟨_, t, h, ?_⟩
            rw [if_pos (by simp [hrefused])]
            rfl
        | raised h => exact .inl ⟨_, rfl, h⟩

theorem ends_fillHoles_iff {holes : List HoleForm} {r : Except Error (List Value)} :
    Ends (fun n => holes.mapM (fillHole fun form => evaluate n form env macros)) s r t ↔
      s.FillsHoles env macros holes r t :=
  ends_mapM_iff
    (fun hole _ _ hle => fillHole_extends (fun form => evaluate_extends hle form env macros) hole)
    fun _ _ _ _ => ends_fillHole_iff

/-- A template evaluates to what is built of what its holes come to in order. -/
theorem evaluates_template_iff {v : Value} (hquasi : s.transformer? macros Symbol.quasiquote = none)
    {r : Except Error Value} : s.Evaluates env macros (.list [.symbol Symbol.quasiquote, v]) r t ↔
      ∃ q, s.FillsHoles env macros (v.plan 1).holes q t ∧ r = q.map (v.plan 1).build := by
  have hstep : ∀ n, (evaluate (n + 1) (.list [.symbol Symbol.quasiquote, v]) env macros).outcome s =
      (runPlan (fun form => evaluate n form env macros) (v.plan 1)).outcome s := by
    intro n
    rw [← fill_eq_runPlan, ← outcome_step_quasiquote _ n v env hquasi]
    rfl
  have hfuel : s.Evaluates env macros (.list [.symbol Symbol.quasiquote, v]) r t ↔
      Ends (fun n => runPlan (fun form => evaluate n form env macros) (v.plan 1)) s r t := by
    constructor
    · rintro ⟨n, h⟩
      cases n with
      | zero => exact absurd h (by simp [evaluate])
      | succ n => exact ⟨n, (hstep n).symm.trans h⟩
    · rintro ⟨n, h⟩
      exact ⟨n + 1, (hstep n).trans h⟩
  simp only [hfuel, runPlan, ends_map_iff, ends_fillHoles_iff]

end Eval

theorem State.FillsHoles.unique {s t t' : State} {env : FrameId} {macros : MacroTableId}
    {holes : List HoleForm} {r r' : Except Error (List Value)}
    (h : s.FillsHoles env macros holes r t) (h' : s.FillsHoles env macros holes r' t') :
    r = r' ∧ t = t' := by
  let fillAll (n : Nat) : Eval (List Value) :=
    holes.mapM (Eval.fillHole fun form => evaluate n form env macros)
  have hmono : ∀ {m n}, m ≤ n → Eval.Extends (List Value) (fillAll m) (fillAll n) := fun hle =>
    Eval.extends_mapM (fun hole _ _ hle => Eval.fillHole_extends
      (fun form => Eval.evaluate_extends hle form env macros) hole) hle holes
  obtain ⟨m, hm⟩ := Eval.ends_fillHoles_iff.2 h
  obtain ⟨n, hn⟩ := Eval.ends_fillHoles_iff.2 h'
  exact Prod.mk.inj (Eval.outcome_unique (x := fillAll) hmono hm hn)

end SlotLisp
