import SlotLisp.Proofs.Evaluation.Outcome
import SlotLisp.Proofs.State.Within

/-!
Relations between computations that evaluation respects. Evaluation consists of single changes to
the state, one after the other. A relation that holds between each of these and itself, and that
passes through `>>=`, holds between two evaluations of a form of which the second has at least as
much fuel. That more fuel gives the same outcome is one case of this, and that evaluation keeps a
property of states is another.

A relation may also say something of the answers. What comes second in `>>=` is then related for the
answers that the first can give, which is enough as long as all that evaluation works on has its
tables of macros in one set.
-/

namespace SlotLisp

inductive State.Change (s : State) : State → Prop
  | none : Change s s
  | define (f : FrameId) (n : Symbol) (v : Value) : Change s (s.define f n v)
  | childFrame (f : FrameId) : Change s (s.childFrame f).1
  | addClass (c : Class) : Change s (s.addClass c).1
  | addInstance (x : Instance) : Change s (s.addInstance x).1
  | setSlot (i : InstanceId) (n : Symbol) (v : Value) : Change s (s.setSlot i n v)
  | defineTransformer (m : MacroTableId) (n : Symbol) (x : Transformer) :
      Change s (s.defineTransformer m n x)
  | counters (closures marks : Nat) : Change s { s with closures := closures, marks := marks }

theorem State.define_of_assign {s t : State} {f : FrameId} {name v : Value}
    (h : s.assign f name v = .ok t) : ∃ g m, t = s.define g m v := by
  obtain ⟨n, -, h⟩ := bind_eq_ok h
  split at h
  next u hu =>
    obtain rfl := Except.ok.inj h
    obtain ⟨m, -, hm⟩ := Option.bind_eq_some_iff.1 hu
    obtain ⟨g, -, rfl⟩ := Option.map_eq_some_iff.1 hm
    exact ⟨g, m, rfl⟩
  next => exact absurd h (by simp [throw, throwThe, MonadExceptOf.throw])

namespace Eval

/-- A relation that holds between every computation of a single change and itself, and passes
through `>>=`. A computation without fuel is related to all others. -/
structure Congruence (R : ∀ α : Type, Eval α → Eval α → Prop) : Prop where
  outOfFuel {α : Type} (y : Eval α) : R α outOfFuel y
  single {α : Type} {x : Eval α}
    (h : ∀ s r t, x.outcome s = some (r, t) → s.Change t) : R α x x
  bind {α β : Type} {x y : Eval α} {f g : α → Eval β} (h : R α x y)
    (k : ∀ a, R β (f a) (g a)) : R β (x >>= f) (y >>= g)

/-- A relation of the same kind between computations whose answers are as a property says. It need
hold only for single changes that keep a state within the tables in `T`. -/
structure Simulation (T : MacroTableId → Prop)
    (R : ∀ α : Type, (α → Prop) → Eval α → Eval α → Prop) : Prop where
  outOfFuel {α : Type} {Q : α → Prop} (y : Eval α) : R α Q outOfFuel y
  single {α : Type} {Q : α → Prop} {x : Eval α}
    (h : ∀ s, s.Within T → ∀ r t, x.outcome s = some (r, t) →
      s.Change t ∧ t.Within T ∧ ∀ a, r = .ok a → Q a) : R α Q x x
  bind {α β : Type} {P : α → Prop} {Q : β → Prop} {x y : Eval α} {f g : α → Eval β} (h : R α P x y)
    (k : ∀ a, P a → R β Q (f a) (g a)) : R β Q (x >>= f) (y >>= g)

def Answering (R : ∀ α : Type, Eval α → Eval α → Prop) (α : Type) (Q : α → Prop) (x y : Eval α) :
    Prop :=
  R α x y ∧ ∀ s a t, x.outcome s = some (.ok a, t) → Q a

theorem Congruence.simulation {R : ∀ α : Type, Eval α → Eval α → Prop} (hR : Congruence R) :
    Simulation (fun _ => True) (Answering R) where
  outOfFuel y := ⟨hR.outOfFuel y, fun s a t h => absurd h (by simp)⟩
  single h := by
    have hwithin : ∀ s : State, s.Within fun _ => True := State.within_of_forall fun _ => trivial
    exact ⟨hR.single fun s r t hx => (h s (hwithin s) r t hx).1,
      fun s a t hx => (h s (hwithin s) _ t hx).2.2 a rfl⟩
  bind {_ _ P Q x y f g} h k := by
    classical
    -- What comes second matters for possible answers only, and may be cut off for all others.
    have hcut : (x >>= f) = x >>= fun a => if P a then f a else Eval.outOfFuel := by
      refine funext fun s => ?_
      show (x >>= f).outcome s = (x >>= _).outcome s
      rw [outcome_bind, outcome_bind]
      cases hx : x.outcome s with
      | none => rfl
      | some p =>
          obtain ⟨e | a, t⟩ := p
          · rfl
          · dsimp only
            rw [if_pos (h.2 s a t hx)]
    refine ⟨?_, fun s b u hb => ?_⟩
    · rw [hcut]
      refine hR.bind h.1 fun a => ?_
      split
      next ha => exact (k a ha).1
      next => exact hR.outOfFuel _
    · obtain ⟨a, t, ha, hb⟩ := outcome_bind_eq_ok hb
      exact (k a (h.2 s a t ha)).2 t b u hb

namespace Simulation

variable {T : MacroTableId → Prop} {R : ∀ α : Type, (α → Prop) → Eval α → Eval α → Prop}
  (hR : Simulation T R) {α β : Type} {P : α → Prop} {Q : β → Prop}

include hR

/-! ## Computations that do not evaluate -/

theorem of_outcome {x : Eval α} {f : State → Except Error α × State}
    (hx : ∀ s, x.outcome s = some (f s))
    (h : ∀ s : State, s.Within T → s.Change (f s).2 ∧ (f s).2.Within T ∧
      ∀ a, (f s).1 = .ok a → P a) :
    R α P x x := by
  refine hR.single fun s hs r t hst => ?_
  rw [hx] at hst
  have heq := Option.some.inj hst
  have hfs := h s hs
  rw [heq] at hfs
  exact hfs

theorem pure {a : α} (h : P a) : R α P (pure a) (pure a) :=
  hR.of_outcome (outcome_pure a) fun _ hs => ⟨.none, hs, fun _ hb => Except.ok.inj hb ▸ h⟩

theorem throw (e : Error) : R α P (throw e) (throw e) :=
  hR.of_outcome (outcome_throw e) fun _ hs => ⟨.none, hs, fun _ h => absurd h (by simp)⟩

theorem ofExcept {x : Except Error α} (h : ∀ a, x = .ok a → P a) :
    R α P (ofExcept x) (ofExcept x) :=
  hR.of_outcome (outcome_ofExcept x) fun _ hs => ⟨.none, hs, h⟩

theorem ofFault {x : Except Fault α} (h : ∀ a, x = .ok a → P a) :
    R α P (ofFault x) (ofFault x) := by
  cases x with
  | ok a => exact hR.pure (h a rfl)
  | error f => exact hR.throw _

theorem ask {f : State → Except Error α} (h : ∀ s, s.Within T → ∀ a, f s = .ok a → P a) :
    R α P (ask f) (ask f) :=
  hR.of_outcome (outcome_ask f) fun s hs => ⟨.none, hs, h s hs⟩

theorem create {f : State → State × α}
    (h : ∀ s, s.Within T → s.Change (f s).1 ∧ (f s).1.Within T ∧ P (f s).2) :
    R α P (create f) (create f) :=
  hR.of_outcome (outcome_create f) fun s hs =>
    ⟨(h s hs).1, (h s hs).2.1, fun _ ha => Except.ok.inj ha ▸ (h s hs).2.2⟩

theorem update {f : State → State} (h : ∀ s, s.Within T → s.Change (f s) ∧ (f s).Within T) :
    R Unit (fun _ => True) (Eval.update f) (Eval.update f) :=
  hR.of_outcome (outcome_update f) fun s hs => ⟨(h s hs).1, (h s hs).2, fun _ _ => trivial⟩

theorem get {f g : State → Eval β} (h : ∀ s, s.Within T → R β Q (f s) (g s)) :
    R β Q (get >>= f) (get >>= g) :=
  hR.bind (hR.of_outcome outcome_get fun _ hs => ⟨.none, hs, fun _ ht => Except.ok.inj ht ▸ hs⟩) h

theorem map {x y : Eval α} (h : R α P x y) {f : α → β} (hf : ∀ a, P a → Q (f a)) :
    R β Q (f <$> x) (f <$> y) := by
  rw [map_eq_pure_bind, map_eq_pure_bind]
  exact hR.bind h fun a ha => hR.pure (hf a ha)

theorem mapM {f g : Value → Eval Value} {xs : List Value}
    (h : ∀ x ∈ xs, R Value (Value.Within T) (f x) (g x)) :
    R (List Value) (fun ys => ∀ y ∈ ys, y.Within T) (xs.mapM f) (xs.mapM g) := by
  induction xs with
  | nil => exact hR.pure (by simp)
  | cons x xs ih =>
      rw [List.mapM_cons, List.mapM_cons]
      refine hR.bind (h x (by simp)) fun y hy => ?_
      exact hR.bind (ih fun z hz => h z (by simp [hz])) fun ys hys =>
        hR.pure (List.forall_mem_cons.2 ⟨hy, hys⟩)

/-! ## Variables and classes -/

theorem define (f : FrameId) (name : Value) {v : Value} (hv : v.Within T) :
    R Unit (fun _ => True) (define f name v) (define f name v) :=
  hR.bind (P := fun _ => True) (hR.ofExcept fun _ _ => trivial) fun n _ =>
    hR.update fun _ hs => ⟨.define f n v, hs.define f n hv⟩

/-- A state that is found from the one before takes its place. -/
theorem change {g : State → Except Error State}
    (h : ∀ s, s.Within T → ∀ t, g s = .ok t → s.Change t ∧ t.Within T) :
    R PUnit (fun _ => True) (Eval.ask g >>= set) (Eval.ask g >>= set) := by
  refine hR.of_outcome (f := fun s => match g s with
    | .ok t => (.ok ⟨⟩, t)
    | .error e => (.error e, s)) (fun s => ?_) fun s hs => ?_
  · rw [outcome_bind, outcome_ask]
    cases g s with
    | ok t => rfl
    | error e => rfl
  · cases hgs : g s with
    | ok t => exact ⟨(h s hs t hgs).1, (h s hs t hgs).2, fun _ _ => trivial⟩
    | error e => exact ⟨.none, hs, fun _ _ => trivial⟩

theorem assign (f : FrameId) (name : Value) {v : Value} (hv : v.Within T) :
    R Unit (fun _ => True) (assign f name v) (assign f name v) := by
  refine hR.change fun s hs t h => ?_
  obtain ⟨g, n, rfl⟩ := State.define_of_assign h
  exact ⟨.define g n v, hs.define g n hv⟩

theorem defineAll (f : FrameId) {bs : List (Value × Value)} (hbs : ∀ b ∈ bs, b.2.Within T) :
    R Unit (fun _ => True) (defineAll f bs) (defineAll f bs) := by
  induction bs with
  | nil => exact hR.pure trivial
  | cons b bs ih =>
      exact hR.bind (hR.define f b.1 (hbs b (by simp))) fun _ _ => ih fun c hc =>
        hbs c (by simp [hc])

theorem defineClass {args : List Value} (hargs : ∀ a ∈ args, a.Within T) (env : FrameId)
    {macros : MacroTableId} (hm : T macros) :
    R Value (Value.Within T) (defineClass args env macros) (defineClass args env macros) := by
  refine hR.bind (P := fun d : ClassDraft => ∀ slot ∈ d.own, ∀ v ∈ slot.default, v.Within T)
    (hR.ask fun _ _ _ hd => State.all_draftClass hd hargs) fun d hd => ?_
  refine hR.bind (P := fun _ => True)
    (hR.create fun s hs => ⟨.addClass _, hs.addClass (hs.classOfDraft hd env hm), trivial⟩)
    fun c _ => ?_
  exact hR.bind (hR.defineAll env (d.within_bindings c)) fun _ _ => hR.pure trivial

end Simulation
end Eval
end SlotLisp
