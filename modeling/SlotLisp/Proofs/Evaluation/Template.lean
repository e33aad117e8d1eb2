import SlotLisp.Eval.Template
import SlotLisp.Proofs.Evaluation.Keeps

/-!
Filling templates keeps states sound, provided that the evaluations this takes do.
-/

namespace SlotLisp
namespace Eval

variable {eval : Value → Eval Value} (heval : ∀ t v, t.Knows v → KeepsValue t (eval v))

include heval

mutual

theorem keeps_fill {s : State} (level : Nat) (v : Value) (hv : s.Knows v) :
    KeepsValue s (fill eval level v) := by
  cases v with
  | list xs =>
      rw [fill]
      exact keeps_bind (keeps_fillItems level xs (Value.all_list.1 hv)) fun _ _ _ hws =>
        keeps_pure (Value.all_list.2 hws)
  | dotted xs tail =>
      have hxs := (Value.all_dotted.1 hv).1
      have htail := (Value.all_dotted.1 hv).2
      have hjoin : ∀ x, KeepsValue s x → KeepsValue s (x >>= fun t => do
          return .dotted (← fillItems eval level xs) t) := fun x hx =>
        keeps_bind hx fun t w ht hw =>
          keeps_bind (keeps_fillItems level xs fun x hx => ht.grows.knows (hxs x hx))
            fun u ws hu hws => keeps_pure (Value.all_dotted.2 ⟨hws, hu.grows.knows hw⟩)
      rw [fill.eq_def]
      dsimp only
      split
      next h args =>
        have hitems := Value.all_list.1 htail
        split
        next =>
          split
          next x r => exact hjoin _ (heval s x (hitems x (by simp)))
          next => exact hjoin _ (keeps_fault _)
        next =>
          exact hjoin _ (keeps_map (keeps_fillItems level (h :: args) hitems) fun _ _ _ hws =>
            Value.all_list.2 hws)
      next => exact hjoin _ (keeps_fill level tail htail)
  | _ => exact keeps_pure hv
termination_by sizeOf v

theorem keeps_fillItems {s : State} (level : Nat) (vs : List Value) (hvs : ∀ v ∈ vs, s.Knows v) :
    Keeps s (fillItems eval level vs) fun t ws => ∀ w ∈ ws, t.Knows w := by
  cases vs with
  | nil => exact keeps_pure (by simp)
  | cons v vs =>
      have hv := hvs v (by simp)
      have hjoin : ∀ x : Eval (List Value), (Keeps s x fun t ws => ∀ w ∈ ws, t.Knows w) →
          Keeps s (x >>= fun first => do return first ++ (← fillItems eval level vs))
            fun t ws => ∀ w ∈ ws, t.Knows w := by
        intro x hx
        refine keeps_bind hx fun t ws ht hws => ?_
        refine keeps_bind (keeps_fillItems level vs fun x hx =>
          ht.grows.knows (hvs x (by simp [hx])))
          fun u us hu hus => keeps_pure fun w hw => ?_
        rw [List.mem_append] at hw
        exact hw.elim (fun hw => hu.grows.knows (hws w hw)) (hus w)
      rw [fillItems.eq_def]
      dsimp only
      split
      next h args =>
        have hitems := Value.all_list.1 hv
        split
        next =>
          split
          next x r =>
            exact hjoin _ (keeps_map (keeps_fill (level + 1) x (hitems x (by simp)))
              fun _ _ _ hw => by simpa using hw)
          next => exact hjoin _ (keeps_fault _)
        next =>
          split
          next x r =>
            exact hjoin _ (keeps_map (heval s x (hitems x (by simp)))
              fun _ _ _ hw => by simpa [List.singleton] using hw)
          next => exact hjoin _ (keeps_fault _)
        next =>
          split
          next x r =>
            exact hjoin _ (keeps_bind (heval s x (hitems x (by simp))) fun _ _ _ hw =>
              keeps_ofExcept fun _ h => all_splicedItems h hw)
          next => exact hjoin _ (keeps_pure (by simp))
        next =>
          exact hjoin _ (keeps_map (keeps_fillItems level (h :: args) hitems)
            fun _ _ _ hws => by simpa using hws)
      next =>
        exact hjoin _ (keeps_map (keeps_fill level v hv) fun _ _ _ hw => by
          simpa [List.singleton] using hw)
termination_by sizeOf vs

end

end Eval
end SlotLisp
