import SlotLisp.Proofs.Classes.Draft
import SlotLisp.Proofs.Evaluation.Outcome

/-!
Computations that keep a state sound, whether they end in an answer or in an error. What is said of
an answer is said of the state in which it is given.
-/

namespace SlotLisp
namespace Eval

variable {α β : Type}

/-- From the state `s`, if it is sound, `x` leads to sound states only, and its answers are as `Q`
says. -/
def Keeps (s : State) (x : Eval α) (Q : State → α → Prop) : Prop :=
  s.Sound → ∀ r t, x.outcome s = some (r, t) → s.Leads t ∧ ∀ a, r = .ok a → Q t a

abbrev KeepsValue (s : State) (x : Eval Value) : Prop := Keeps s x fun t v => t.Knows v

variable {s : State} {Q : State → α → Prop} {R : State → β → Prop}

theorem keeps_of_outcome {x : Eval α} {r : Except Error α} {t : State}
    (hx : x.outcome s = some (r, t)) (h : s.Sound → s.Leads t ∧ ∀ a, r = .ok a → Q t a) :
    Keeps s x Q := by
  intro hs r' t' h'
  rw [hx] at h'
  obtain ⟨rfl, rfl⟩ := Prod.mk.inj (Option.some.inj h')
  exact h hs

theorem keeps_pure {a : α} (h : Q s a) : Keeps s (pure a) Q :=
  keeps_of_outcome (outcome_pure a s) fun hs =>
    ⟨.refl hs, fun b hb => by obtain rfl := Except.ok.inj hb; exact h⟩

theorem keeps_throw (e : Error) : Keeps s (throw e) Q :=
  keeps_of_outcome (outcome_throw e s) fun hs => ⟨.refl hs, fun _ h => absurd h (by simp)⟩

theorem keeps_fault (f : Fault) : Keeps s (fault f) Q := keeps_throw _

theorem keeps_outOfFuel : Keeps s outOfFuel Q := by
  intro _ r t h
  exact absurd h (by simp)

theorem keeps_ofExcept {x : Except Error α} (h : ∀ a, x = .ok a → Q s a) :
    Keeps s (ofExcept x) Q :=
  keeps_of_outcome (outcome_ofExcept x s) fun hs => ⟨.refl hs, h⟩

theorem keeps_ofFault {x : Except Fault α} (h : ∀ a, x = .ok a → Q s a) :
    Keeps s (ofFault x) Q := by
  cases x with
  | ok a => exact keeps_pure (h a rfl)
  | error f => exact keeps_fault f

theorem keeps_ask {f : State → Except Error α} (h : s.Sound → ∀ a, f s = .ok a → Q s a) :
    Keeps s (ask f) Q :=
  keeps_of_outcome (outcome_ask f s) fun hs => ⟨.refl hs, h hs⟩

theorem keeps_create {f : State → State × α} (h : s.Sound → s.Leads (f s).1 ∧ Q (f s).1 (f s).2) :
    Keeps s (create f) Q :=
  keeps_of_outcome (outcome_create f s) fun hs =>
    ⟨(h hs).1, fun a ha => by obtain rfl := Except.ok.inj ha; exact (h hs).2⟩

theorem keeps_update {f : State → State} (h : s.Sound → s.Leads (f s)) :
    Keeps s (update f) fun _ _ => True :=
  keeps_of_outcome (outcome_update f s) fun hs => ⟨h hs, fun _ _ => trivial⟩

theorem keeps_set {t : State} (h : s.Sound → s.Leads t) :
    Keeps s (set t : Eval PUnit) fun _ _ => True :=
  keeps_of_outcome (outcome_set t s) fun hs => ⟨h hs, fun _ _ => trivial⟩

/-- What comes second starts in the state to which the first has led. -/
theorem keeps_bind {x : Eval α} {f : α → Eval β} (hx : Keeps s x Q)
    (hf : ∀ t a, s.Leads t → Q t a → Keeps t (f a) R) : Keeps s (x >>= f) R := by
  intro hs r u h
  rw [outcome_bind] at h
  cases hxs : outcome x s with
  | none => rw [hxs] at h; exact absurd h (by simp)
  | some p =>
      obtain ⟨q, t⟩ := p
      rw [hxs] at h
      obtain ⟨hlead, hq⟩ := hx hs q t hxs
      cases q with
      | error e =>
          obtain ⟨rfl, rfl⟩ := Prod.mk.inj (Option.some.inj h)
          exact ⟨hlead, fun _ h => absurd h (by simp)⟩
      | ok a =>
          obtain ⟨hlead', hr⟩ := hf t a hlead (hq a rfl) hlead.sound r u h
          exact ⟨hlead.trans hlead', hr⟩

theorem keeps_get {f : State → Eval β} (h : Keeps s (f s) R) : Keeps s (get >>= f) R := by
  intro hs r t hr
  rw [outcome_bind_ok (outcome_get s)] at hr
  exact h hs r t hr

theorem keeps_map {x : Eval α} {f : α → β} (hx : Keeps s x Q)
    (hf : ∀ t a, s.Leads t → Q t a → R t (f a)) : Keeps s (f <$> x) R := by
  rw [map_eq_pure_bind]
  exact keeps_bind hx fun t a ht ha => keeps_pure (hf t a ht ha)

/-- Values that are computed one after the other all refer to what is there in the end. -/
theorem keeps_mapM {f : Value → Eval Value} {xs : List Value} (hxs : ∀ x ∈ xs, s.Knows x)
    (hf : ∀ t x, s.Leads t → t.Knows x → KeepsValue t (f x)) :
    Keeps s (xs.mapM f) fun t ys => ∀ y ∈ ys, t.Knows y := by
  induction xs generalizing s with
  | nil => exact keeps_pure (by simp)
  | cons x xs ih =>
      rw [List.mapM_cons]
      intro hs
      refine keeps_bind (hf s x (.refl hs) (hxs x (by simp))) (fun t y ht hy => ?_) hs
      refine keeps_bind (ih (fun z hz => ht.grows.knows (hxs z (by simp [hz])))
        fun u z hu hz => hf u z (ht.trans hu) hz) fun u ys hu hys => ?_
      exact keeps_pure (List.forall_mem_cons.2 ⟨hu.grows.knows hy, hys⟩)

end Eval

def Evaluator.Keeps (eval : Evaluator) : Prop :=
  ∀ s form env macros, s.Knows form → Eval.KeepsValue s (eval form env macros)

end SlotLisp
