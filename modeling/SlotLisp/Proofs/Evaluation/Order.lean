import SlotLisp.Proofs.Evaluation.Fuel

/-!
Several computations one after the other, apart from fuel. Each starts in the state in which the one
before has left off, and the first error ends them all.
-/

namespace SlotLisp

variable {α : Type}

inductive InOrder (P : State → α → Except Error Value → State → Prop) :
    State → List α → Except Error (List Value) → State → Prop
  | nil {s : State} : InOrder P s [] (.ok []) s
  | stops {s t : State} {a : α} {as : List α} {e : Error} (h : P s a (.error e) t) :
      InOrder P s (a :: as) (.error e) t
  | cons {s u t : State} {a : α} {as : List α} {v : Value} {q : Except Error (List Value)}
      (h : P s a (.ok v) u) (hrest : InOrder P u as q t) : InOrder P s (a :: as) (q.map (v :: ·)) t

abbrev State.EvaluatesAll (s : State) (env : FrameId) (macros : MacroTableId) (forms : List Value)
    (r : Except Error (List Value)) (t : State) : Prop :=
  InOrder (fun s form r t => s.Evaluates env macros form r t) s forms r t

section

variable {P : State → α → Except Error Value → State → Prop} {s t : State} {a : α} {as bs : List α}
  {r : Except Error (List Value)}

theorem inOrder_nil_iff : InOrder P s [] r t ↔ r = .ok [] ∧ t = s := by
  constructor
  · rintro ⟨⟩
    exact ⟨rfl, rfl⟩
  · rintro ⟨rfl, rfl⟩
    exact .nil

theorem inOrder_cons_iff : InOrder P s (a :: as) r t ↔
    (∃ e, r = .error e ∧ P s a (.error e) t) ∨
      ∃ v u q, P s a (.ok v) u ∧ InOrder P u as q t ∧ r = q.map (v :: ·) := by
  constructor
  · intro h
    cases h with
    | stops h => exact .inl ⟨_, rfl, h⟩
    | cons h hrest => exact .inr ⟨_, _, _, h, hrest, rfl⟩
  · rintro (⟨e, rfl, h⟩ | ⟨v, u, q, h, hrest, rfl⟩)
    · exact .stops h
    · exact .cons h hrest

/-- There is a value for each of the things. -/
theorem InOrder.length_eq {vs : List Value} (h : InOrder P s as (.ok vs) t) :
    vs.length = as.length := by
  induction as generalizing s vs with
  | nil =>
      obtain ⟨hvs, -⟩ := inOrder_nil_iff.1 h
      rw [Except.ok.inj hvs]
      rfl
  | cons a as ih =>
      rcases inOrder_cons_iff.1 h with ⟨e, he, -⟩ | ⟨v, u, q, -, hq, hvs⟩
      · exact absurd he (by simp)
      · cases q with
        | error e => exact absurd hvs (by simp [Except.map])
        | ok ws =>
            rw [Except.ok.inj hvs, List.length_cons, List.length_cons, ih hq]

theorem inOrder_append_iff : InOrder P s (as ++ bs) r t ↔
    (∃ e, r = .error e ∧ InOrder P s as (.error e) t) ∨
      ∃ vs u q, InOrder P s as (.ok vs) u ∧ InOrder P u bs q t ∧ r = q.map (vs ++ ·) := by
  induction as generalizing s r with
  | nil =>
      simp only [List.nil_append, inOrder_nil_iff]
      constructor
      · intro h
        exact .inr ⟨[], s, r, ⟨rfl, rfl⟩, h, by cases r <;> rfl⟩
      · rintro (⟨e, -, he, -⟩ | ⟨vs, u, q, ⟨hvs, rfl⟩, h, rfl⟩)
        · exact absurd he (by simp)
        · obtain rfl := Except.ok.inj hvs
          cases q <;> exact h
  | cons a as ih =>
      rw [List.cons_append, inOrder_cons_iff]
      constructor
      · rintro (⟨e, rfl, h⟩ | ⟨v, w, q, hv, hrest, rfl⟩)
        · exact .inl ⟨e, rfl, .stops h⟩
        · rcases ih.1 hrest with ⟨e, rfl, h⟩ | ⟨vs, u, q, hvs, hq, rfl⟩
          · exact .inl ⟨e, rfl, .cons hv h⟩
          · exact .inr ⟨v :: vs, u, q, .cons hv hvs, hq, by cases q <;> rfl⟩
      · rintro (⟨e, rfl, h⟩ | ⟨vs, u, q, hvs, hq, rfl⟩)
        · rcases inOrder_cons_iff.1 h with ⟨e', he, h⟩ | ⟨v, w, q, hv, hrest, hq⟩
          · exact .inl ⟨e', he, h⟩
          · cases q with
            | ok ws => exact absurd hq (by simp [Except.map])
            | error e' =>
                obtain rfl := Except.error.inj hq
                exact .inr ⟨v, w, .error e, hv, ih.2 (.inl ⟨e, rfl, hrest⟩), rfl⟩
        · rcases inOrder_cons_iff.1 hvs with ⟨e, he, -⟩ | ⟨v, w, q', hv, hrest, hq'⟩
          · exact absurd he (by simp)
          · cases q' with
            | error e => exact absurd hq' (by simp [Except.map])
            | ok ws =>
                obtain rfl := Except.ok.inj hq'
                refine .inr ⟨v, w, q.map (ws ++ ·), hv, ih.2 (.inr ⟨ws, u, q, hrest, hq, rfl⟩), ?_⟩
                cases q <;> rfl

end

namespace Eval

/-- What is made of an answer takes no fuel. -/
theorem ends_map_iff {β : Type} {x : Nat → Eval α} {g : α → β} {s t : State} {r : Except Error β} :
    Ends (fun n => g <$> x n) s r t ↔ ∃ q, Ends x s q t ∧ r = q.map g := by
  have hmap : ∀ n, (g <$> x n).outcome s = ((x n).outcome s).map fun p => (p.1.map g, p.2) := by
    intro n
    rw [map_eq_pure_bind, outcome_bind]
    cases (x n).outcome s with
    | none => rfl
    | some p => obtain ⟨_ | _, _⟩ := p <;> rfl
  constructor
  · rintro ⟨n, h⟩
    rw [hmap] at h
    obtain ⟨p, hp, hr⟩ := Option.map_eq_some_iff.1 h
    obtain ⟨rfl, rfl⟩ := Prod.mk.inj hr
    exact ⟨p.1, ⟨n, hp⟩, rfl⟩
  · rintro ⟨q, ⟨n, h⟩, rfl⟩
    exact ⟨n, by rw [hmap, h]; rfl⟩

variable {f : Nat → α → Eval Value}

theorem extends_mapM (hf : ∀ a {m n}, m ≤ n → Extends Value (f m a) (f n a)) {m n : Nat}
    (hle : m ≤ n) (as : List α) : Extends (List Value) (as.mapM (f m)) (as.mapM (f n)) := by
  induction as with
  | nil => exact congruence_extends.pure []
  | cons a as ih =>
      rw [List.mapM_cons, List.mapM_cons]
      exact congruence_extends.bind (hf a hle) fun v =>
        congruence_extends.bind ih fun vs => congruence_extends.pure (v :: vs)

/-- A pass over a list goes through its items in order. -/
theorem ends_mapM_iff {P : State → α → Except Error Value → State → Prop}
    (hf : ∀ a {m n}, m ≤ n → Extends Value (f m a) (f n a))
    (hP : ∀ s a r t, Ends (fun n => f n a) s r t ↔ P s a r t) {s t : State} {as : List α}
    {r : Except Error (List Value)} : Ends (fun n => as.mapM (f n)) s r t ↔ InOrder P s as r t := by
  induction as generalizing s r with
  | nil =>
      simp only [List.mapM_nil, ends_const_iff, outcome_pure, inOrder_nil_iff, Option.some.injEq,
        Prod.mk.injEq]
      exact and_congr eq_comm eq_comm
  | cons a as ih =>
      simp only [List.mapM_cons, inOrder_cons_iff]
      refine (ends_bind_iff (hf a) fun v _ _ hle => ?_).trans (or_congr ?_ ?_)
      · exact congruence_extends.bind (extends_mapM hf hle as) fun vs =>
          congruence_extends.pure (v :: vs)
      · simp only [hP]
      · simp only [bind_pure_comp, ends_map_iff, ih, hP, exists_and_left]

end Eval
end SlotLisp
