import Mathlib.Data.Finset.Card
import Mathlib.Logic.Relation
import Mathlib.Order.Monotone.Basic
import SlotLisp.Proofs.Value.Leaf
import SlotLisp.State.Text

/-!
Which values have a text. All integers that such a value shows have few digits, those in the slots
of the instances that it shows too; and instances that show one another openly come to an end. An
instance may well come again inside of a container that is not written inside of itself. An error is
reported as it is if everything that it shows has a text.
-/

namespace SlotLisp
namespace Value

/-- References that a value shows. The flag tells those inside of a container that is not written
again inside of itself. -/
inductive Shows : Value → Bool → Ref → Prop
  | ref {r : Ref} : Shows (.ref r) false r
  | list {xs : List Value} {x : Value} {inside : Bool} {r : Ref} (hx : x ∈ xs)
      (h : Shows x inside r) : Shows (.list xs) inside r
  | vector {xs : List Value} {x : Value} {inside : Bool} {r : Ref} (hx : x ∈ xs)
      (h : Shows x inside r) : Shows (.vector xs) inside r
  | item {xs : List Value} {x t : Value} {inside : Bool} {r : Ref} (hx : x ∈ xs)
      (h : Shows x inside r) : Shows (.dotted xs t) inside r
  | tail {xs : List Value} {t : Value} {inside : Bool} {r : Ref} (h : Shows t inside r) :
      Shows (.dotted xs t) inside r
  | copiedItem {n : Nat} {xs : List Value} {x t : Value} {inside : Bool} {r : Ref} (hn : n ≠ 0)
      (hx : x ∈ xs) (h : Shows x inside r) : Shows (.copies n xs t) true r
  | copiedTail {n : Nat} {xs : List Value} {t : Value} {inside : Bool} {r : Ref} (hn : n ≠ 0)
      (h : Shows t inside r) : Shows (.copies n xs t) true r
  | key {es : List (Value × Value)} {e : Value × Value} {inside : Bool} {r : Ref} (he : e ∈ es)
      (h : Shows e.1 inside r) : Shows (.map es) inside r
  | entry {es : List (Value × Value)} {e : Value × Value} {inside : Bool} {r : Ref} (he : e ∈ es)
      (h : Shows e.2 inside r) : Shows (.map es) inside r
  | formal {id : Nat} {fs : List Value} {f b : Value} {frame : FrameId} {inside : Bool} {r : Ref}
      (hf : f ∈ fs) (h : Shows f inside r) :
      Shows (.closure id fs b frame) (f.isContainer || inside) r
  | body {id : Nat} {fs : List Value} {b : Value} {frame : FrameId} {inside : Bool} {r : Ref}
      (h : Shows b inside r) : Shows (.closure id fs b frame) inside r

/-- All integers that a value shows itself have a text. -/
def Short (v : Value) : Prop := v.textFault? (fun _ => none) (fun _ => none) = none

instance (v : Value) : Decidable v.Short := inferInstanceAs (Decidable (_ = none))

variable {v : Value} {refs inner refs' inner' : Ref → Option Fault}

theorem textFault?_of_shows (h : v.textFault? refs inner = none)
    (hrefs : ∀ r, v.Shows false r → refs' r = none)
    (hinner : ∀ r, v.Shows true r → inner' r = none) : v.textFault? refs' inner' = none := by
  induction v using induction_parts generalizing refs inner refs' inner' with
  | int n => exact h
  | list xs ih =>
      rw [textFault?_list] at h ⊢
      exact fun x hx => ih x hx (h x hx) (fun r hr => hrefs r (.list hx hr))
        fun r hr => hinner r (.list hx hr)
  | vector xs ih =>
      rw [textFault?_vector] at h ⊢
      exact fun x hx => ih x hx (h x hx) (fun r hr => hrefs r (.vector hx hr))
        fun r hr => hinner r (.vector hx hr)
  | dotted xs t ih iht =>
      rw [textFault?_dotted] at h ⊢
      refine ⟨fun x hx => ih x hx (h.1 x hx) (fun r hr => hrefs r (.item hx hr))
        fun r hr => hinner r (.item hx hr), ?_⟩
      exact iht h.2 (fun r hr => hrefs r (.tail hr)) fun r hr => hinner r (.tail hr)
  | copies n xs t ih iht =>
      rw [textFault?_copies] at h ⊢
      intro hn
      refine ⟨fun x hx => ih x hx ((h hn).1 x hx) (fun r hr => hinner r (.copiedItem hn hx hr))
        fun r hr => hinner r (.copiedItem hn hx hr), ?_⟩
      exact iht (h hn).2 (fun r hr => hinner r (.copiedTail hn hr))
        fun r hr => hinner r (.copiedTail hn hr)
  | map es ih =>
      rw [textFault?_map] at h ⊢
      intro e he
      refine ⟨(ih e he).1 (h e he).1 (fun r hr => hrefs r (.key he hr))
        fun r hr => hinner r (.key he hr), ?_⟩
      exact (ih e he).2 (h e he).2 (fun r hr => hrefs r (.entry he hr))
        fun r hr => hinner r (.entry he hr)
  | closure id fs b f ih ihb =>
      rw [textFault?_closure] at h ⊢
      refine ⟨fun x hx => ?_, ihb h.2 (fun r hr => hrefs r (.body hr)) fun r hr =>
        hinner r (.body hr)⟩
      have hformal : ∀ inside r, x.Shows inside r →
          (closure id fs b f).Shows (x.isContainer || inside) r := fun _ _ hr => .formal hx hr
      refine ih x hx (h.1 x hx) (fun r hr => ?_) fun r hr =>
        hinner r (by simpa using hformal _ r hr)
      have hr := hformal _ r hr
      rw [Bool.or_false] at hr
      split
      next hcontainer => exact hinner r (hcontainer ▸ hr)
      next hplain => exact hrefs r (Bool.eq_false_iff.2 hplain ▸ hr)
  | ref r => exact hrefs r .ref
  | _ => rfl

theorem Shows.textFault? {inside : Bool} {r : Ref} (h : v.Shows inside r)
    (hv : v.textFault? refs inner = none) : (if inside then inner else refs) r = none := by
  induction h generalizing refs with
  | ref => exact hv
  | list hx _ ih => exact ih (textFault?_list.1 hv _ hx)
  | vector hx _ ih => exact ih (textFault?_vector.1 hv _ hx)
  | item hx _ ih => exact ih ((textFault?_dotted.1 hv).1 _ hx)
  | tail _ ih => exact ih (textFault?_dotted.1 hv).2
  | copiedItem hn hx _ ih => simpa using ih ((textFault?_copies.1 hv hn).1 _ hx)
  | copiedTail hn _ ih => simpa using ih (textFault?_copies.1 hv hn).2
  | key he _ ih => exact ih (textFault?_map.1 hv _ he).1
  | entry he _ ih => exact ih (textFault?_map.1 hv _ he).2
  | @formal _ _ f _ _ inside _ hf _ ih =>
      have hr := ih ((textFault?_closure.1 hv).1 _ hf)
      cases hcontainer : f.isContainer <;> cases inside <;> simpa [hcontainer] using hr
  | body _ ih => exact ih (textFault?_closure.1 hv).2

theorem Shows.leaf {inside : Bool} {r : Ref} {p : Leaf → Prop} (h : v.Shows inside r)
    (hv : v.All p) :
    p (.ref r) := by
  induction h with
  | ref => exact hv
  | list hx _ ih => exact ih (all_list.1 hv _ hx)
  | vector hx _ ih => exact ih (all_vector.1 hv _ hx)
  | item hx _ ih => exact ih ((all_dotted.1 hv).1 _ hx)
  | tail _ ih => exact ih (all_dotted.1 hv).2
  | copiedItem _ hx _ ih => exact ih ((all_copies.1 hv).1 _ hx)
  | copiedTail _ _ ih => exact ih (all_copies.1 hv).2
  | key he _ ih => exact ih (all_map.1 hv _ he).1
  | entry he _ ih => exact ih (all_map.1 hv _ he).2
  | formal hf _ ih => exact ih ((all_closure.1 hv).1 _ hf)
  | body _ ih => exact ih (all_closure.1 hv).2

/-- A value has a text if its integers have and the references that it shows. -/
theorem textFault?_eq_none_iff :
    v.textFault? refs inner = none ↔
      v.Short ∧ ∀ inside r, v.Shows inside r → (if inside then inner else refs) r = none := by
  constructor
  · exact fun h => ⟨textFault?_of_shows h (fun _ _ => rfl) fun _ _ => rfl, fun _ _ hr =>
      hr.textFault? h⟩
  · exact fun h => textFault?_of_shows h.1 (fun r hr => h.2 false r hr) fun r hr => h.2 true r hr

end Value

namespace State

variable {s : State} {v t : Value} {i j : InstanceId}

theorem writable_iff : s.writable v = true ↔ s.textFault? v = none := Option.isNone_iff_eq_none

@[simp] theorem writable_symbol {n : Symbol} : s.writable (.symbol n) = true := rfl

@[simp] theorem writable_int {n : Int} : s.writable (.int n) = true ↔ fitsDigits n = true :=
  writable_iff.trans Value.textFault?_int

@[simp] theorem writable_list {xs : List Value} :
    s.writable (.list xs) = true ↔ ∀ x ∈ xs, s.writable x = true := by
  simp only [writable_iff, textFault?, Value.textFault?_list]

theorem textFault?_int_of_long {n : Int} (h : fitsDigits n = false) :
    s.textFault? (.int n) = some .badValue := by
  simp [textFault?, Value.textFault?, h]

/-! ## Instances that show one another -/

def Holds (s : State) (i : InstanceId) (v : Value) : Prop :=
  ∃ slot ∈ (s.getClass (s.getInstance i).cls).slots,
    (s.getInstance i).values.get? slot.name = some v

def ShowsAt (s : State) (inside : Bool) (i j : InstanceId) : Prop :=
  ∃ v, s.Holds i v ∧ v.Shows inside (.inst j)

section Depth

variable {inner inner' : Ref → Option Fault} {depth : Nat}

/-- References to other things than instances have a text. -/
def OnlyInstances (refs : Ref → Option Fault) : Prop := ∀ r f, refs r = some f → ∃ i, r = .inst i

theorem onlyInstances_refFault? : OnlyInstances (s.refFault? inner depth) := by
  rintro (c | i | p) f h
  · cases depth <;> exact absurd h (by simp [refFault?])
  · exact ⟨i, rfl⟩
  · cases depth <;> exact absurd h (by simp [refFault?])

theorem onlyInstances_innerFault? (n : Nat) : OnlyInstances (s.innerFault? n) := by
  cases n with
  | zero => exact fun r f h => absurd h (by simp [innerFault?])
  | succ n => exact onlyInstances_refFault?

/-- An instance has a text to a depth if the integers in its slots have and the instances that it
shows. -/
theorem refFault?_succ_eq_none_iff (hinner : OnlyInstances inner) :
    s.refFault? inner (depth + 1) (.inst i) = none ↔
      (∀ v, s.Holds i v → v.Short) ∧
        ∀ inside j, s.ShowsAt inside i j →
          (if inside then inner else s.refFault? inner depth) (.inst j) = none := by
  have hslots : s.refFault? inner (depth + 1) (.inst i) = none ↔
      ∀ v, s.Holds i v → v.textFault? (s.refFault? inner depth) inner = none := by
    rw [refFault?, List.findSome?_eq_none_iff]
    simp only [Option.bind_eq_none_iff]
    constructor
    · rintro h v ⟨slot, hslot, hv⟩
      exact h slot hslot v hv
    · exact fun h slot hslot v hv => h v ⟨slot, hslot, hv⟩
  rw [hslots]
  constructor
  · intro h
    refine ⟨fun v hv => (Value.textFault?_eq_none_iff.1 (h v hv)).1, ?_⟩
    rintro inside j ⟨v, hv, hshows⟩
    exact (Value.textFault?_eq_none_iff.1 (h v hv)).2 inside _ hshows
  · rintro ⟨hshort, hshows⟩ v hv
    refine Value.textFault?_eq_none_iff.2 ⟨hshort v hv, fun inside r hr => ?_⟩
    by_contra hfault
    obtain ⟨f, hf⟩ := Option.ne_none_iff_exists'.1 hfault
    obtain ⟨j, rfl⟩ : ∃ j, r = .inst j := by
      cases inside
      · exact onlyInstances_refFault? r f hf
      · exact hinner r f hf
    exact hfault (hshows inside j ⟨v, hv, hr⟩)

theorem refFault?_of_inner (hinner : OnlyInstances inner) (hinner' : OnlyInstances inner')
    (h : ∀ j, inner (.inst j) = none → inner' (.inst j) = none)
    (hi : s.refFault? inner depth (.inst i) = none) :
    s.refFault? inner' depth (.inst i) = none := by
  induction depth generalizing i with
  | zero => exact absurd hi (by simp [refFault?])
  | succ depth ih =>
      rw [refFault?_succ_eq_none_iff hinner] at hi
      rw [refFault?_succ_eq_none_iff hinner']
      refine ⟨hi.1, fun inside j hj => ?_⟩
      cases inside with
      | false => exact ih (hi.2 false j hj)
      | true => exact h j (hi.2 true j hj)

theorem refFault?_deeper (hinner : OnlyInstances inner)
    (hi : s.refFault? inner depth (.inst i) = none) :
    s.refFault? inner (depth + 1) (.inst i) = none := by
  induction depth generalizing i with
  | zero => exact absurd hi (by simp [refFault?])
  | succ depth ih =>
      rw [refFault?_succ_eq_none_iff hinner] at hi ⊢
      refine ⟨hi.1, fun inside j hj => ?_⟩
      cases inside with
      | false => exact ih (hi.2 false j hj)
      | true => exact hi.2 true j hj

/-- What is no instance of the state shows nothing. -/
theorem refFault?_of_size_le (hinner : OnlyInstances inner) (hi : s.instances.size ≤ i)
    (depth : Nat) :
    s.refFault? inner (depth + 1) (.inst i) = none := by
  have hholds : ∀ v, ¬ s.Holds i v := by
    rintro v ⟨slot, -, hv⟩
    have hnone : (s.getInstance i).values.get? slot.name = none := by
      rw [getInstance, Array.getElem?_eq_none hi]
      rfl
    exact absurd (hnone.symm.trans hv) (by simp)
  rw [refFault?_succ_eq_none_iff hinner]
  exact ⟨fun v hv => absurd hv (hholds v), fun _ _ ⟨v, hv, _⟩ => absurd hv (hholds v)⟩

end Depth

/-! ## How deep it is enough to look -/

/-- A property of finitely many numbers that only ever comes to hold of more of them, and rests once
it does not, has come to rest after as many steps as there are numbers. -/
theorem stable_of_chain {n : Nat} {p : Nat → Nat → Prop} (hmono : ∀ d i, p d i → p (d + 1) i)
    (hstep : ∀ d, (∀ i < n, p (d + 1) i → p d i) → ∀ i < n, p (d + 2) i → p (d + 1) i) {d : Nat}
    (hd : n ≤ d) : ∀ i < n, p (d + 1) i → p d i := by
  classical
  let holding (d : Nat) : Finset Nat := (Finset.range n).filter (p d)
  have hsub : ∀ d, holding d ⊆ holding (d + 1) := fun d =>
    Finset.monotone_filter_right _ fun i _ => hmono d i
  have hback : ∀ d, (holding d).card = (holding (d + 1)).card → ∀ i < n, p (d + 1) i → p d i := by
    intro d hcard i hi hp
    have heq := Finset.eq_of_subset_of_card_le (hsub d) hcard.ge
    have hmem : i ∈ holding (d + 1) := Finset.mem_filter.2 ⟨Finset.mem_range.2 hi, hp⟩
    rw [← heq] at hmem
    exact (Finset.mem_filter.1 hmem).2
  have hrest : ∀ d, (holding d).card = (holding (d + 1)).card →
      (holding (d + 1)).card = (holding (d + 2)).card := by
    intro d hcard
    have hnext := hstep d (hback d hcard)
    refine congrArg _ (Finset.Subset.antisymm (hsub (d + 1)) fun i hi => ?_)
    obtain ⟨hi, hp⟩ := Finset.mem_filter.1 hi
    exact Finset.mem_filter.2 ⟨hi, hnext i (Finset.mem_range.1 hi) hp⟩
  have hbound : ∀ d, (holding d).card ≤ n := fun d =>
    (Finset.card_filter_le _ _).trans (Finset.card_range n).le
  have hmonotone : Monotone fun d => (holding d).card :=
    monotone_nat_of_le_succ fun d => Finset.card_le_card (hsub d)
  refine hback d ?_
  exact (Nat.stabilises_of_monotone hmonotone hbound hrest hd).trans
    (Nat.stabilises_of_monotone hmonotone hbound hrest (hd.trans d.le_succ)).symm

theorem refFault?_of_deeper {inner : Ref → Option Fault} (hinner : OnlyInstances inner)
    (hi : s.refFault? inner (s.depthBound + 1) (.inst i) = none) :
    s.refFault? inner s.depthBound (.inst i) = none := by
  by_cases hsize : i < s.instances.size
  · refine stable_of_chain (p := fun d i => s.refFault? inner (d + 1) (.inst i) = none)
      (fun d i => refFault?_deeper hinner) (fun d hd i hi h => ?_) (Nat.le_refl _) i hsize hi
    rw [refFault?_succ_eq_none_iff hinner] at h ⊢
    refine ⟨h.1, fun inside j hj => ?_⟩
    cases inside with
    | true => exact h.2 true j hj
    | false =>
        by_cases hj' : j < s.instances.size
        · exact hd j hj' (h.2 false j hj)
        · exact refFault?_of_size_le hinner (Nat.le_of_not_lt hj') d
  · exact refFault?_of_size_le hinner (Nat.le_of_not_lt hsize) _

theorem innerFault?_of_succ {n : Nat} (hi : s.innerFault? (n + 1) (.inst i) = none) :
    s.innerFault? n (.inst i) = none := by
  induction n generalizing i with
  | zero => rfl
  | succ n ih =>
      exact refFault?_of_inner (onlyInstances_innerFault? _) (onlyInstances_innerFault? _)
        (fun j => ih) hi

theorem innerFault?_of_size_le (hi : s.instances.size ≤ i) (n : Nat) :
    s.innerFault? n (.inst i) = none := by
  cases n with
  | zero => rfl
  | succ n => exact refFault?_of_size_le (onlyInstances_innerFault? n) hi _

theorem innerFault?_succ (hi : s.innerFault? s.depthBound (.inst i) = none) :
    s.innerFault? (s.depthBound + 1) (.inst i) = none := by
  by_cases hsize : i < s.instances.size
  · by_contra hfault
    refine stable_of_chain (p := fun n i => s.innerFault? n (.inst i) ≠ none)
      (fun n i h hi => h (innerFault?_of_succ hi)) (fun n hn i hi h hsucc => h ?_)
      (Nat.le_succ _) i hsize hfault hi
    refine refFault?_of_inner (onlyInstances_innerFault? n) (onlyInstances_innerFault? _)
      (fun j hj => ?_) hsucc
    by_cases hj' : j < s.instances.size
    · by_contra hfault
      exact hn j hj' hfault hj
    · exact innerFault?_of_size_le (Nat.le_of_not_lt hj') _
  · exact innerFault?_of_size_le (Nat.le_of_not_lt hsize) _

/-! ## Values with a text -/

/-- The instances that the text of a value shows. -/
def Reaches (s : State) (v : Value) (i : InstanceId) : Prop :=
  ∃ inside j, v.Shows inside (.inst j) ∧
    Relation.ReflTransGen (fun i j => ∃ inside, s.ShowsAt inside i j) j i

/-- An instance that holds only integers with a text, and from which instances do not show one
another openly without an end. -/
structure Finite (s : State) (i : InstanceId) : Prop where
  short : ∀ v, s.Holds i v → v.Short
  ends : Acc (fun j i => s.ShowsAt false i j) i

theorem acc_of_refFault? {inner : Ref → Option Fault} (hinner : OnlyInstances inner) {depth : Nat}
    (hi : s.refFault? inner depth (.inst i) = none) : Acc (fun j i => s.ShowsAt false i j) i := by
  induction depth generalizing i with
  | zero => exact absurd hi (by simp [refFault?])
  | succ depth ih =>
      exact ⟨_, fun j hj => ih (((refFault?_succ_eq_none_iff hinner).1 hi).2 false j hj)⟩

theorem refFault?_of_acc {inner : Ref → Option Fault} (hinner : OnlyInstances inner)
    {P : InstanceId → Prop} (hshort : ∀ i, P i → ∀ v, s.Holds i v → v.Short)
    (hshows : ∀ i, P i → ∀ inside j, s.ShowsAt inside i j → P j)
    (hP : ∀ i, P i → inner (.inst i) = none) (hi : P i)
    (hacc : Acc (fun j i => s.ShowsAt false i j) i) :
    s.refFault? inner s.depthBound (.inst i) = none := by
  induction hacc with
  | intro i _ ih =>
      refine refFault?_of_deeper hinner ((refFault?_succ_eq_none_iff hinner).2
        ⟨hshort i hi, fun inside j hj => ?_⟩)
      cases inside with
      | false => exact ih j hj (hshows i hi false j hj)
      | true => exact hP j (hshows i hi true j hj)

theorem innerFault?_of_finite {P : InstanceId → Prop} (hfinite : ∀ i, P i → s.Finite i)
    (hshows : ∀ i, P i → ∀ inside j, s.ShowsAt inside i j → P j) (n : Nat) :
    ∀ i, P i → s.innerFault? n (.inst i) = none := by
  induction n with
  | zero => exact fun _ _ => rfl
  | succ n ih =>
      exact fun i hi => refFault?_of_acc (onlyInstances_innerFault? n)
        (fun i hi => (hfinite i hi).short) hshows ih hi (hfinite i hi).ends

/-- A value has a text if its integers have, and all instances that come into the text are
finite. -/
theorem writable_iff_finite :
    s.writable v = true ↔ v.Short ∧ ∀ i, s.Reaches v i → s.Finite i := by
  rw [writable_iff, textFault?, Value.textFault?_eq_none_iff]
  refine and_congr_right fun _ => ⟨?_, ?_⟩
  · intro h
    have hreached : ∀ i, s.Reaches v i → s.innerFault? (s.depthBound + 1) (.inst i) = none := by
      rintro i ⟨inside, j, hv, hpath⟩
      induction hpath with
      | refl =>
          cases inside with
          | false => exact h false _ hv
          | true => exact innerFault?_succ (h true _ hv)
      | tail _ hstep ih =>
          obtain ⟨inside, hstep⟩ := hstep
          have hshown :=
            ((refFault?_succ_eq_none_iff (onlyInstances_innerFault? _)).1 ih).2 inside _ hstep
          cases inside with
          | false => exact refFault?_deeper (onlyInstances_innerFault? _) hshown
          | true => exact innerFault?_succ hshown
    intro i hi
    have hfault := hreached i hi
    exact ⟨((refFault?_succ_eq_none_iff (onlyInstances_innerFault? _)).1 hfault).1,
      acc_of_refFault? (onlyInstances_innerFault? _) hfault⟩
  · intro h inside r hr
    have hclosed : ∀ i, s.Reaches v i → ∀ inside j, s.ShowsAt inside i j → s.Reaches v j :=
      fun i ⟨inside, k, hv, hpath⟩ inside' j hj => ⟨inside, k, hv, hpath.tail ⟨inside', hj⟩⟩
    have hnone := innerFault?_of_finite h hclosed
    cases r with
    | inst i =>
        have hi : s.Reaches v i := ⟨inside, i, hr, .refl⟩
        cases inside with
        | false => exact hnone _ i hi
        | true => exact hnone _ i hi
    | cls c => cases inside <;> rfl
    | policy p => cases inside <;> rfl

/-- An instance that shows itself openly has no text. -/
theorem not_writable_of_showsAt (h : s.ShowsAt false i i) :
    s.writable (.ref (.inst i)) = false := by
  have hself : ∀ i, Acc (fun j i => s.ShowsAt false i j) i → ¬ s.ShowsAt false i i := by
    intro i hacc
    induction hacc with
    | intro i _ ih => exact fun hi => ih i hi hi
  rw [← Bool.not_eq_true, writable_iff_finite]
  rintro ⟨-, hfinite⟩
  exact hself i (hfinite i ⟨false, i, .ref, .refl⟩).ends h

/-! ## Errors as they are reported -/

variable {e : Error}

theorem settle_of_fault {f : Fault}
    (h : e.pieces.findSome? (Piece.textFault? s.textFault?) = some f) :
    s.settle e = .fault f := by
  rw [settle, Error.settled, h]

theorem settle_eq_self_iff :
    s.settle e = e ↔ ∀ style v, Piece.value style v ∈ e.pieces → s.writable v = true := by
  have hpieces : (∀ style v, Piece.value style v ∈ e.pieces → s.writable v = true) ↔
      e.pieces.findSome? (Piece.textFault? s.textFault?) = none := by
    rw [List.findSome?_eq_none_iff]
    constructor
    · rintro h (_ | ⟨style, v⟩) hp
      · rfl
      · exact writable_iff.1 (h style v hp)
    · exact fun h style v hv => writable_iff.2 (h _ hv)
  rw [hpieces]
  constructor
  · intro h
    cases hfault : e.pieces.findSome? (Piece.textFault? s.textFault?) with
    | none => rfl
    | some f =>
        -- A fault shows nothing.
        rw [settle_of_fault hfault] at h
        rw [← h] at hfault
        exact absurd hfault (by simp [Error.pieces])
  · intro h
    rw [settle, Error.settled, h]

end State
end SlotLisp
