import SlotLisp.Proofs.Evaluation.Congruence

/-!
Evaluation apart from fuel. What has come to an end comes to the same end with more fuel, so that a
form has at most one outcome in a state; and whatever every single change keeps is kept by
evaluation as a whole.
-/

namespace SlotLisp
namespace Eval

/-! ## More fuel -/

/-- `y` ends as `x` does, from every state from which `x` comes to an end. -/
def Extends (α : Type) (x y : Eval α) : Prop := ∀ s p, x.outcome s = some p → y.outcome s = some p

theorem congruence_extends : Congruence Extends where
  outOfFuel y s p h := absurd h (by simp)
  single _ s p h := h
  bind {_ _ x y f g} h k s p hp := by
    rw [outcome_bind] at hp ⊢
    cases hx : outcome x s with
    | none => rw [hx] at hp; exact absurd hp (by simp)
    | some q =>
        obtain ⟨r, t⟩ := q
        rw [hx] at hp
        rw [h s _ hx]
        cases r with
        | ok a => exact k a t p hp
        | error e => exact hp

theorem evaluate_extends {fuel fuel' : Nat} (hle : fuel ≤ fuel') (form : Value) (env : FrameId)
    (macros : MacroTableId) :
    Extends Value (evaluate fuel form env macros) (evaluate fuel' form env macros) :=
  congruence_extends.evaluate hle form env macros

/-- Of computations that more fuel only extends, no two come to different ends. -/
theorem outcome_unique {α : Type} {x : Nat → Eval α}
    (hx : ∀ {m n}, m ≤ n → Extends α (x m) (x n)) {m n : Nat} {s : State}
    {p q : Except Error α × State} (hp : (x m).outcome s = some p) (hq : (x n).outcome s = some q) :
    p = q := by
  have hp' := hx (Nat.le_max_left m n) s p hp
  have hq' := hx (Nat.le_max_right m n) s q hq
  exact Option.some.inj (hp'.symm.trans hq')

theorem transform_extends {fuel fuel' : Nat} (hle : fuel ≤ fuel') (x : Transformer)
    (args : List Value) (env : FrameId) (macros : MacroTableId) :
    Extends Value (transform (evaluate fuel) x args env macros)
      (transform (evaluate fuel') x args env macros) :=
  congruence_extends.transform (evaluate_extends hle) x args env macros

/-- From the state `s`, with enough fuel, a computation comes to the end `r` in the state `t`. -/
def Ends {α : Type} (x : Nat → Eval α) (s : State) (r : Except Error α) (t : State) : Prop :=
  ∃ fuel, (x fuel).outcome s = some (r, t)

/-- A computation that takes no fuel ends at once. -/
theorem ends_const_iff {α : Type} {x : Eval α} {s t : State} {r : Except Error α} :
    Ends (fun _ => x) s r t ↔ x.outcome s = some (r, t) :=
  ⟨fun ⟨_, h⟩ => h, fun h => ⟨0, h⟩⟩

/-- A computation in two parts ends with an error of the first one, or as the second one does. The
larger of two amounts of fuel is enough for both. -/
theorem ends_bind_iff {α β : Type} {x : Nat → Eval α} {f : Nat → α → Eval β} {s t : State}
    {r : Except Error β} (hx : ∀ {m n}, m ≤ n → Extends α (x m) (x n))
    (hf : ∀ a {m n}, m ≤ n → Extends β (f m a) (f n a)) :
    Ends (fun n => x n >>= f n) s r t ↔
      (∃ e, r = .error e ∧ Ends x s (.error e) t) ∨
        ∃ a u, Ends x s (.ok a) u ∧ Ends (fun n => f n a) u r t := by
  constructor
  · rintro ⟨n, h⟩
    rw [outcome_bind] at h
    cases hn : (x n).outcome s with
    | none => rw [hn] at h; exact absurd h (by simp)
    | some p =>
        obtain ⟨e | a, u⟩ := p
        · rw [hn] at h
          obtain ⟨rfl, rfl⟩ := Prod.mk.inj (Option.some.inj h)
          exact .inl ⟨e, rfl, n, hn⟩
        · rw [hn] at h
          exact .inr ⟨a, u, ⟨n, hn⟩, n, h⟩
  · rintro (⟨e, rfl, n, hn⟩ | ⟨a, u, ⟨m, hm⟩, n, hn⟩)
    · exact ⟨n, outcome_bind_error hn _⟩
    · have hm' := hx (Nat.le_max_left m n) s _ hm
      exact ⟨max m n, (outcome_bind_ok hm' _).trans (hf a (Nat.le_max_right m n) u _ hn)⟩

/-! ## What every change keeps -/

/-- Wherever `x` ends, its last state is to the first one as `P` says. -/
def Preserves (P : State → State → Prop) (α : Type) (x _y : Eval α) : Prop :=
  ∀ s r t, x.outcome s = some (r, t) → P s t

theorem congruence_preserves {P : State → State → Prop} (htrans : ∀ {s t u}, P s t → P t u → P s u)
    (hchange : ∀ {s t : State}, s.Change t → P s t) : Congruence (Preserves P) where
  outOfFuel y s r t h := absurd h (by simp)
  single h s r t hr := hchange (h s r t hr)
  bind {_ _ x y f g} h k s r t hr := by
    rw [outcome_bind] at hr
    cases hx : outcome x s with
    | none => rw [hx] at hr; exact absurd hr (by simp)
    | some q =>
        obtain ⟨r', t'⟩ := q
        rw [hx] at hr
        have hfirst := h s r' t' hx
        cases r' with
        | ok a => exact htrans hfirst (k a t' r t hr)
        | error e =>
            obtain rfl := (Prod.mk.inj (Option.some.inj hr)).2
            exact hfirst

end Eval

/-! ## The outcome of a form -/

namespace State

def Evaluates (s : State) (env : FrameId) (macros : MacroTableId) (form : Value)
    (r : Except Error Value) (t : State) : Prop :=
  ∃ fuel, (evaluate fuel form env macros).outcome s = some (r, t)

theorem Evaluates.unique {s t t' : State} {env : FrameId} {macros : MacroTableId} {form : Value}
    {r r' : Except Error Value} (h : s.Evaluates env macros form r t)
    (h' : s.Evaluates env macros form r' t') : r = r' ∧ t = t' := by
  obtain ⟨m, hm⟩ := h
  obtain ⟨n, hn⟩ := h'
  exact Prod.mk.inj
    (Eval.outcome_unique (fun hle => Eval.evaluate_extends hle form env macros) hm hn)

/-! ## Macros stay defined -/

def KeepsMacros (s t : State) : Prop :=
  ∀ m n, (s.transformer? m n).isSome → (t.transformer? m n).isSome

theorem transformer?_defineTransformer (s : State) (k m : MacroTableId) (n j : Symbol)
    (x : Transformer) : (s.defineTransformer k n x).transformer? m j =
      if k = m ∧ m < s.macroTables.size ∧ n = j then some x else s.transformer? m j := by
  rw [transformer?, transformer?, macroTable, macroTable, defineTransformer, Array.getElem?_modify]
  by_cases hk : k = m
  · by_cases hm : m < s.macroTables.size
    · rw [if_pos hk, Array.getElem?_eq_getElem hm]
      by_cases hn : n = j
      · rw [if_pos ⟨hk, hm, hn⟩]
        exact hn ▸ Table.get?_insert_self _ _ _
      · rw [if_neg fun h => hn h.2.2]
        exact (Table.get?_insert _ _ _ _).trans (if_neg hn)
    · rw [if_pos hk, if_neg fun h => hm h.2.1, Array.getElem?_eq_none (Nat.le_of_not_lt hm)]
      rfl
  · rw [if_neg hk, if_neg fun h => hk h.1]

theorem Change.keepsMacros {s t : State} (h : s.Change t) : s.KeepsMacros t := by
  intro m n hn
  cases h with
  | defineTransformer k j x =>
      rw [transformer?_defineTransformer]
      split
      · rfl
      · exact hn
  | _ => exact hn

end State

/-- No macro is ever removed. -/
theorem Eval.transform_keepsMacros (fuel : Nat) {x : Transformer} {args : List Value}
    {env : FrameId} {macros : MacroTableId} {s t : State} {r : Except Error Value}
    (h : (transform (evaluate fuel) x args env macros).outcome s = some (r, t)) :
    s.KeepsMacros t := by
  have hcongr := congruence_preserves (P := State.KeepsMacros)
    (fun hst htu m n hn => htu m n (hst m n hn)) State.Change.keepsMacros
  exact hcongr.transform (hcongr.evaluate (Nat.le_refl fuel)) x args env macros s r t h

end SlotLisp
