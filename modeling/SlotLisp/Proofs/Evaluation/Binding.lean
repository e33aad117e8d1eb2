import SlotLisp.Eval.Parameters
import SlotLisp.Proofs.Evaluation.Keeps

/-!
Binding names and parameters keeps states sound.
-/

namespace SlotLisp
namespace Eval

variable {s : State}

/-! ## Variables -/

theorem keeps_lookup (f : FrameId) (name : Value) : KeepsValue s (lookup f name) :=
  keeps_ask fun hs _ h => State.knows_lookup hs h

theorem keeps_define (f : FrameId) (name : Value) {v : Value} (hv : s.Knows v) :
    Keeps s (define f name v) fun _ _ => True :=
  keeps_bind (Q := fun _ _ => True) (keeps_ofExcept fun _ _ => trivial) fun _ n ht _ =>
    keeps_update fun hsound => State.leads_define hsound f n (ht.grows.knows hv)

theorem keeps_assign (f : FrameId) (name : Value) {v : Value} (hv : s.Knows v) :
    Keeps s (assign f name v) fun _ _ => True := by
  refine keeps_bind (Q := fun t u => t.Sound → t.Leads u) (keeps_ask fun _ u hu hs => ?_)
    fun t u _ hu => keeps_set hu
  obtain ⟨n, -, hu⟩ := bind_eq_ok hu
  split at hu
  next w hw =>
    obtain rfl := Except.ok.inj hu
    obtain ⟨m, -, hm⟩ := Option.bind_eq_some_iff.1 hw
    obtain ⟨g, -, rfl⟩ := Option.map_eq_some_iff.1 hm
    exact State.leads_define hs g m hv
  next => exact absurd hu (by simp [throw, throwThe, MonadExceptOf.throw])

theorem keeps_defineAll (f : FrameId) {bs : List (Value × Value)} (h : ∀ b ∈ bs, s.Knows b.2) :
    Keeps s (defineAll f bs) fun _ _ => True := by
  induction bs generalizing s with
  | nil => exact keeps_pure trivial
  | cons b bs ih =>
      obtain ⟨name, v⟩ := b
      exact keeps_bind (keeps_define f name (h (name, v) (by simp))) fun t _ ht _ =>
        ih fun c hc => ht.grows.knows (h c (by simp [hc]))

/-! ## Parameters -/

section Parameters

variable {evalDefault : Value → Eval Value}

theorem keeps_missingOptional {formal : Value} (h : ∀ v, s.Knows v → KeepsValue s (evalDefault v))
    (hformal : s.Knows formal) : KeepsValue s (missingOptional evalDefault formal) := by
  unfold missingOptional
  split
  next form hform => exact h form (all_optionalDefault? hform hformal)
  next => exact keeps_pure trivial

theorem keeps_bindIn (f : FrameId) (mode : Mode) {args formals : List Value}
    (h : ∀ t v, s.Leads t → t.Knows v → KeepsValue t (evalDefault v))
    (hargs : ∀ a ∈ args, s.Knows a) (hformals : ∀ x ∈ formals, s.Knows x) :
    Keeps s (bindIn evalDefault f mode args formals) fun _ _ => True := by
  intro hs
  induction formals generalizing s mode args with
  | nil =>
      rw [bindIn]
      split
      · exact keeps_pure trivial hs
      · exact keeps_throw _ hs
  | cons formal formals ih =>
      have hformal := hformals formal (by simp)
      have hrest : ∀ x ∈ formals, s.Knows x := fun x hx => hformals x (by simp [hx])
      -- What is left to bind is bound in the same way in every later state.
      have hnext : ∀ t (as : List Value) (m : Mode), s.Leads t → (∀ a ∈ as, a ∈ args) →
          Keeps t (bindIn evalDefault f m as formals) fun _ _ => True := by
        intro t as m ht has
        refine fun hsound => ih m (fun u v hu hv => h u v (ht.trans hu) hv)
          (fun a ha => ht.grows.knows (hargs a (has a ha)))
          (fun x hx => ht.grows.knows (hrest x hx)) hsound
      rw [bindIn.eq_def]
      dsimp only
      split
      next m _ => exact hnext s args m (.refl hs) (fun _ ha => ha) hs
      next =>
        cases mode with
        | required =>
            cases args with
            | nil => exact keeps_throw _ hs
            | cons a as =>
                exact keeps_bind (keeps_define f formal (hargs a (by simp)))
                  (fun t _ ht _ => hnext t as .required ht fun b hb => by simp [hb]) hs
        | optional =>
            refine keeps_bind (Q := fun _ _ => True) (keeps_ofFault fun _ _ => trivial)
              (fun t name ht _ => ?_) hs
            cases args with
            | nil =>
                refine keeps_bind (keeps_missingOptional (fun v hv => h t v ht hv)
                  (ht.grows.knows hformal)) fun u v hu hv => ?_
                exact keeps_bind (keeps_define f name hv) fun w _ hw _ =>
                  hnext w [] .optional (ht.trans (hu.trans hw)) (by simp)
            | cons a as =>
                exact keeps_bind (keeps_define f name (ht.grows.knows (hargs a (by simp))))
                  fun u _ hu _ => hnext u as .optional (ht.trans hu) fun b hb => by simp [hb]
        | rest =>
            exact keeps_bind (keeps_define f formal (Value.all_list.2 hargs))
              (fun t _ ht _ => hnext t [] .rest ht (by simp)) hs

end Parameters

end Eval
end SlotLisp
