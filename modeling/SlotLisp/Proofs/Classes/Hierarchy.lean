import Mathlib.Logic.Relation
import SlotLisp.Proofs.Classes.Slot

/-!
The hierarchy of classes in a sound state. A class is made after its bases, so that the way up from
a class comes to an end, and the lineage kept with a class is what a search of its bases would find.
-/

namespace SlotLisp
namespace State

open Relation

def DirectBase (s : State) (c b : ClassId) : Prop := b ∈ (s.getClass c).bases

def slotNames (s : State) (c : ClassId) : List Symbol := (s.getClass c).slots.map Slot.name

/-- Whether `c` is `d` or a base of `c` is found to descend from `d`, asking the bases in order and
no more of them once one does. There is no answer where this would go deeper than `depth`. -/
def searchBases (s : State) (d : ClassId) : Nat → ClassId → Option Bool
  | 0, _ => none
  | depth + 1, c => if c = d then some true else (s.getClass c).bases.anyM (s.searchBases d depth)

structure WellClassed (s : State) : Prop where
  acyclic : ∀ c, ¬ TransGen s.DirectBase c c
  slots_nodup : ∀ c, (s.slotNames c).Nodup
  inherits : ∀ c b, TransGen s.DirectBase c b → ∀ n ∈ s.slotNames b, n ∈ s.slotNames c
  bound : ∀ i < s.instances.size, ∀ n,
    (s.getInstance i).values.contains n = true → n ∈ s.slotNames (s.classOf i)
  search : ∀ c < s.classes.size, ∀ d depth, c < depth →
    s.searchBases d depth c = some (s.descends c d)
  descends_iff : ∀ c < s.classes.size, ∀ d, s.descends c d = true ↔ ReflTransGen s.DirectBase c d

variable {s : State} {b c d : ClassId}

/-! ## The way up -/

theorem DirectBase.valid (h : s.DirectBase c b) : c < s.classes.size := by
  refine Nat.lt_of_not_le fun hc => ?_
  rw [DirectBase, getClass, Array.getElem?_eq_none hc] at h
  exact absurd h List.not_mem_nil

theorem DirectBase.lt (hs : s.Sound) (h : s.DirectBase c b) : b < c :=
  (getClass_sound hs h.valid).bases b h

theorem lt_of_transGen (hs : s.Sound) (h : TransGen s.DirectBase c b) : b < c := by
  induction h with
  | single h => exact h.lt hs
  | tail _ h ih => exact Nat.lt_trans (h.lt hs) ih

theorem DirectBase.slotNames (hs : s.Sound) (h : s.DirectBase c b) :
    ∀ n ∈ s.slotNames b, n ∈ s.slotNames c :=
  (getClass_sound hs h.valid).inherits b h

theorem slotNames_of_transGen (hs : s.Sound) (h : TransGen s.DirectBase c b) :
    ∀ n ∈ s.slotNames b, n ∈ s.slotNames c := by
  induction h with
  | single h => exact h.slotNames hs
  | tail _ h ih => exact fun n hn => ih n (h.slotNames hs n hn)

theorem nodup_slotNames (hs : s.Sound) (c : ClassId) : (s.slotNames c).Nodup := by
  by_cases hc : c < s.classes.size
  · exact (getClass_sound hs hc).slots_nodup
  · have hnone : s.classes[c]? = none := Array.getElem?_eq_none (Nat.le_of_not_lt hc)
    rw [State.slotNames, getClass, hnone]
    exact List.nodup_nil

/-! ## Lineages -/

theorem descends_eq (hs : s.Sound) (hc : c < s.classes.size) (d : ClassId) :
    s.descends c d = (c == d || (s.getClass c).bases.any fun b => s.descends b d) := by
  have hmem : ∀ b, s.descends b d = true ↔ d ∈ (s.getClass b).lineage := fun b =>
    List.contains_iff_mem
  rw [Bool.eq_iff_iff, Bool.or_eq_true, List.any_eq_true, beq_iff_eq, hmem,
    (getClass_sound hs hc).lineage d, eq_comm]
  simp only [hmem]

/-- A search in which every base has an answer asks as far as the first one that says yes. -/
theorem anyM_eq_any {f : ClassId → Option Bool} {g : ClassId → Bool} {bases : List ClassId}
    (h : ∀ b ∈ bases, f b = some (g b)) : bases.anyM f = some (bases.any g) := by
  induction bases with
  | nil => rfl
  | cons b bases ih =>
      have hb := h b List.mem_cons_self
      have hrest := ih fun x hx => h x (List.mem_cons_of_mem _ hx)
      rw [List.anyM, hb, List.any_cons]
      cases hg : g b with
      | true => rfl
      | false => exact hrest

/-- The search ends, and finds what the lineage says. -/
theorem searchBases_eq (hs : s.Sound) {depth : Nat} (hc : c < s.classes.size) (hdepth : c < depth) :
    s.searchBases d depth c = some (s.descends c d) := by
  induction depth generalizing c with
  | zero => exact absurd hdepth (Nat.not_lt_zero c)
  | succ depth ih =>
      have hbases : ∀ b ∈ (s.getClass c).bases, s.searchBases d depth b =
          some (s.descends b d) := by
        intro b hb
        have hlt := (getClass_sound hs hc).bases b hb
        exact ih (Nat.lt_trans hlt hc) (Nat.lt_of_lt_of_le hlt (Nat.le_of_lt_succ hdepth))
      rw [searchBases, descends_eq hs hc, anyM_eq_any hbases]
      split
      next h => simp [h]
      next h => simp [h]

theorem descends_iff (hs : s.Sound) (hc : c < s.classes.size) :
    s.descends c d = true ↔ ReflTransGen s.DirectBase c d := by
  induction c using Nat.strongRecOn with
  | ind c ih =>
      rw [descends_eq hs hc, Bool.or_eq_true, beq_iff_eq, List.any_eq_true]
      constructor
      · rintro (rfl | ⟨b, hb, hbd⟩)
        · exact .refl
        · have hlt := (getClass_sound hs hc).bases b hb
          exact .head hb ((ih b hlt (Nat.lt_trans hlt hc)).1 hbd)
      · intro h
        rcases ReflTransGen.cases_head h with rfl | ⟨b, hb, hbd⟩
        · exact .inl rfl
        · have hlt := DirectBase.lt hs hb
          exact .inr ⟨b, hb, (ih b hlt (Nat.lt_trans hlt hc)).2 hbd⟩

/-! ## Slots -/

/-- A class that descends from another has its slots. -/
theorem slotNames_of_descends (hs : s.Sound) (hc : c < s.classes.size) (h : s.descends c d = true) :
    ∀ n ∈ s.slotNames d, n ∈ s.slotNames c := by
  rcases reflTransGen_iff_eq_or_transGen.1 ((descends_iff hs hc).1 h) with rfl | h
  · exact fun _ hn => hn
  · exact slotNames_of_transGen hs h

theorem Sound.wellClassed (hs : s.Sound) : s.WellClassed where
  acyclic c h := Nat.lt_irrefl c (lt_of_transGen hs h)
  slots_nodup := nodup_slotNames hs
  inherits _ _ h := slotNames_of_transGen hs h
  bound i hi n hn := by
    obtain ⟨e, he, hkey⟩ := List.any_eq_true.1 hn
    rw [← eq_of_beq hkey]
    exact ((getInstance_sound hs hi).values e he).1
  search _ hc _ _ hdepth := searchBases_eq hs hc hdepth
  descends_iff _ hc _ := State.descends_iff hs hc

end State
end SlotLisp
