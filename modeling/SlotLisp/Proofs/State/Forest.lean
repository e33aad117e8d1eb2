import Mathlib.Logic.Relation
import SlotLisp.Proofs.State.Frames

/-!
Variables in a forest of frames. Frames are made inside one another, and any frame may be the
surrounding one of many, so a variable that gets a new value has it in every frame from which the
search for its name ends in the same place, and nowhere else.

A frame is written with all the frames around it. Here it has one frame around it, or none, and
searching goes from each frame to that one.
-/

namespace SlotLisp
namespace State

open Relation (ReflTransGen)

variable {s t : State} {f g : FrameId} {n : Symbol} {v : Value}

def outer? (s : State) (f : FrameId) : Option FrameId := (s.frame f).outers.head?

def BoundIn (s : State) (f : FrameId) (n : Symbol) : Prop := (s.frame f).vars.contains n = true

instance (s : State) (f : FrameId) (n : Symbol) : Decidable (s.BoundIn f n) :=
  inferInstanceAs (Decidable (_ = true))

def Around (s : State) : FrameId → FrameId → Prop := ReflTransGen fun f g => s.outer? f = some g

/-- The frame is `g`, or one inside it without a variable `n` in between, be it in the frame
itself. -/
inductive Sees (s : State) (n : Symbol) (g : FrameId) : FrameId → Prop
  | here : Sees s n g g
  | inside {f h : FrameId} (hn : ¬ s.BoundIn f n) (hf : s.outer? f = some h)
      (hsees : Sees s n g h) : Sees s n g f

/-- What can be done with frames. Anything may be given as a name, and what fails has done what it
did. -/
inductive FrameStep (s : State) : State → Prop
  | root : FrameStep s s.rootFrame.1
  | child {f : FrameId} (hf : f < s.frames.size) : FrameStep s (s.childFrame f).1
  | define {f : FrameId} (hf : f < s.frames.size) (name v : Value)
      {r : Except Error Unit} {t : State}
      (h : (Eval.define f name v).outcome s = some (r, t)) : FrameStep s t
  | assign {f : FrameId} (hf : f < s.frames.size) (name v : Value)
      {r : Except Error Unit} {t : State}
      (h : (Eval.assign f name v).outcome s = some (r, t)) : FrameStep s t
  | update {f : FrameId} (hf : f < s.frames.size) (entries : Value)
      {r : Except Error Unit} {t : State}
      (h : (Eval.updateFrame f entries).outcome s = some (r, t)) : FrameStep s t

def Forest (s : State) : Prop := ∃ settings, ReflTransGen FrameStep (start settings) s

/-! ## Frames and the ones around them -/

/-- A frame is younger than the one around it, and what is written with it is the way outwards. -/
structure Linked (s : State) : Prop where
  lt {f g : FrameId} : s.outer? f = some g → g < f
  chain (f : FrameId) : s.chain f = f :: (s.outer? f).elim [] s.chain

theorem boundIn_iff : s.BoundIn f n ↔ ∃ v, (s.frame f).vars.get? n = some v := by
  rw [BoundIn, Table.contains_eq_isSome, Option.isSome_iff_exists]

theorem not_boundIn_iff : ¬ s.BoundIn f n ↔ (s.frame f).vars.get? n = none := by
  rw [BoundIn, Table.contains_eq_isSome, Option.isSome_iff_ne_none, not_not]

theorem frame_of_size_le (hf : s.frames.size ≤ f) : s.frame f = ⟨.empty, []⟩ := by
  rw [frame, Array.getElem?_eq_none hf]
  rfl

theorem BoundIn.lt_size (h : s.BoundIn f n) : f < s.frames.size := by
  rw [← Nat.not_le]
  intro hle
  rw [BoundIn, frame_of_size_le hle] at h
  exact Bool.noConfusion h

theorem define_frame_of_size_le (hf : s.frames.size ≤ f) :
    (s.define f n v).frame g = s.frame g := by
  by_cases hg : g = f
  · rw [hg, frame_of_size_le hf, frame_of_size_le (by rwa [define_size])]
  · exact define_frame_of_ne hg

theorem outers_define (s : State) (f : FrameId) (n : Symbol) (v : Value) (g : FrameId) :
    ((s.define f n v).frame g).outers = (s.frame g).outers := by
  by_cases hg : g = f
  · subst hg
    by_cases hsize : g < s.frames.size
    · rw [define_frame hsize]
    · rw [define_frame_of_size_le (Nat.le_of_not_lt hsize)]
  · rw [define_frame_of_ne hg]

theorem outer?_define (s : State) (f : FrameId) (n : Symbol) (v : Value) :
    (s.define f n v).outer? = s.outer? := by
  funext g
  rw [outer?, outers_define, outer?]

theorem chain_define (s : State) (f : FrameId) (n : Symbol) (v : Value) :
    (s.define f n v).chain = s.chain := by
  funext g
  rw [State.chain, outers_define, State.chain]

theorem Linked.define (h : s.Linked) (f : FrameId) (n : Symbol) (v : Value) :
    (s.define f n v).Linked where
  lt hg := h.lt (by rwa [outer?_define] at hg)
  chain g := by rw [chain_define, outer?_define, h.chain g]

/-- A new frame has the frames around it of one that is there, with that one in front, or none. -/
theorem Linked.push (h : s.Linked) {outers : List FrameId}
    (houters : outers = [] ∨ ∃ f < s.frames.size, outers = s.chain f) :
    ({ s with frames := s.frames.push ⟨.empty, outers⟩ } : State).Linked := by
  generalize ht : ({ s with frames := s.frames.push ⟨.empty, outers⟩ } : State) = t
  have hold : ∀ g, g ≠ s.frames.size → t.frame g = s.frame g := fun g hg => by
    rw [← ht, frame, Array.getElem?_push, if_neg hg, frame]
  have hnew : (t.frame s.frames.size).outers = outers := by
    rw [← ht, frame, Array.getElem?_push_size]
    rfl
  have houter : ∀ g, g ≠ s.frames.size → t.outer? g = s.outer? g := fun g hg => by
    rw [outer?, hold g hg, outer?]
  have hchain : ∀ g, g ≠ s.frames.size → t.chain g = s.chain g := fun g hg => by
    rw [State.chain, hold g hg, State.chain]
  refine ⟨fun {f g} hg => ?_, fun f => ?_⟩
  · by_cases hf : f = s.frames.size
    · subst hf
      rw [outer?, hnew] at hg
      rcases houters with rfl | ⟨f, hf, rfl⟩
      · exact absurd hg (by simp)
      · obtain rfl : f = g := Option.some.inj hg
        exact hf
    · exact h.lt (houter f hf ▸ hg)
  · by_cases hf : f = s.frames.size
    · subst hf
      rw [State.chain, outer?, hnew]
      rcases houters with rfl | ⟨f, hf, rfl⟩
      · rfl
      · rw [← hchain f (Nat.ne_of_lt hf)]
        rfl
    · rw [hchain f hf, houter f hf, h.chain f]
      cases hg : s.outer? f with
      | none => rfl
      | some g =>
          have hne : g ≠ s.frames.size := by
            rintro rfl
            have hsize : s.frames.size ≤ f := Nat.le_of_lt (h.lt hg)
            rw [outer?, frame_of_size_le hsize] at hg
            exact absurd hg (by simp)
          show f :: s.chain g = f :: t.chain g
          rw [hchain g hne]

/-! ## What is done with frames -/

def OnlyDefines : State → State → Prop := ReflTransGen fun s t => ∃ f n v, t = s.define f n v

theorem defines_of_define {name : Value} {r : Except Error Unit}
    (h : (Eval.define f name v).outcome s = some (r, t)) : s.OnlyDefines t := by
  cases name with
  | symbol n =>
      obtain ⟨-, rfl⟩ := Prod.mk.inj (Option.some.inj h)
      exact .single ⟨f, n, v, rfl⟩
  | _ =>
      obtain ⟨-, rfl⟩ := Prod.mk.inj (Option.some.inj h)
      exact .refl

theorem defines_of_defineAll {bs : List (Value × Value)} {r : Except Error Unit}
    (h : (Eval.defineAll f bs).outcome s = some (r, t)) : s.OnlyDefines t := by
  induction bs generalizing s with
  | nil =>
      obtain ⟨-, rfl⟩ := Prod.mk.inj (Option.some.inj h)
      exact .refl
  | cons b bs ih =>
      rw [Eval.defineAll, Eval.outcome_bind] at h
      cases hb : (Eval.define f b.1 b.2).outcome s with
      | none => rw [hb] at h; exact absurd h (by simp)
      | some p =>
          obtain ⟨e | _, u⟩ := p
          · rw [hb] at h
            obtain ⟨-, rfl⟩ := Prod.mk.inj (Option.some.inj h)
            exact defines_of_define hb
          · rw [hb] at h
            exact (defines_of_define hb).trans (ih h)

theorem outcome_assign (s : State) (f : FrameId) (n : Symbol) (v : Value) :
    (Eval.assign f (.symbol n) v).outcome s =
      match s.find? f n with
      | some g => some (.ok ⟨⟩, s.define g n v)
      | none => some (.error (.unbound (.assigned (.symbol n))), s) := by
  have hassign : s.assign f (.symbol n) v =
      match s.find? f n with
      | some g => .ok (s.define g n v)
      | none => .error (.unbound (.assigned (.symbol n))) := by
    have hname : nameToFind (.symbol n) = .ok (some n) := rfl
    rw [State.assign, hname]
    cases hfind : s.find? f n with
    | none => simp [bind, Except.bind, assign?, hfind, throw, throwThe, MonadExceptOf.throw]
    | some g => simp [bind, Except.bind, assign?, hfind, pure, Except.pure]
  rw [Eval.assign, Eval.outcome_bind, Eval.outcome_ask, hassign]
  cases s.find? f n with
  | none => rfl
  | some g => rfl

theorem defines_of_assign {name : Value} {r : Except Error Unit}
    (h : (Eval.assign f name v).outcome s = some (r, t)) : s.OnlyDefines t := by
  rw [Eval.assign, Eval.outcome_bind, Eval.outcome_ask] at h
  cases hassign : s.assign f name v with
  | error e =>
      rw [hassign] at h
      obtain ⟨-, rfl⟩ := Prod.mk.inj (Option.some.inj h)
      exact .refl
  | ok u =>
      rw [hassign] at h
      obtain ⟨-, rfl⟩ := Prod.mk.inj (Option.some.inj h)
      obtain ⟨g, n, rfl⟩ := define_of_assign hassign
      exact .single ⟨g, n, v, rfl⟩

theorem Linked.defines (h : s.Linked) (hdefines : s.OnlyDefines t) : t.Linked := by
  induction hdefines with
  | refl => exact h
  | tail _ hstep ih =>
      obtain ⟨f, n, v, rfl⟩ := hstep
      exact ih.define f n v

theorem FrameStep.linked (h : s.FrameStep t) (hs : s.Linked) : t.Linked := by
  cases h with
  | root => exact hs.push (.inl rfl)
  | @child f hf => exact hs.push (.inr ⟨f, hf, rfl⟩)
  | define _ _ _ h => exact hs.defines (defines_of_define h)
  | assign _ _ _ h => exact hs.defines (defines_of_assign h)
  | update _ entries h =>
      cases entries with
      | map es => exact hs.defines (defines_of_defineAll h)
      | _ =>
          obtain ⟨-, rfl⟩ := Prod.mk.inj (Option.some.inj h)
          exact hs

theorem Forest.linked (h : s.Forest) : s.Linked := by
  obtain ⟨settings, hsteps⟩ := h
  induction hsteps with
  | refl =>
      have hnone (f : FrameId) : (start settings).frame f = ⟨.empty, []⟩ :=
        frame_of_size_le (Nat.zero_le f)
      refine ⟨fun {f g} hg => ?_, fun f => ?_⟩
      · rw [outer?, hnone] at hg
        exact absurd hg (by simp)
      · rw [State.chain, outer?, hnone]
        rfl
  | tail _ hstep ih => exact hstep.linked ih

/-! ## Searching outwards -/

section Linked

variable (h : s.Linked)

include h

theorem Linked.wellFounded : WellFounded fun g f => s.outer? f = some g :=
  Subrelation.wf (fun hg => h.lt hg) Nat.lt_wfRel.wf

theorem Linked.find?_eq (f : FrameId) (n : Symbol) :
    s.find? f n = if s.BoundIn f n then some f else (s.outer? f).bind fun g => s.find? g n := by
  rw [State.find?, h.chain f, List.find?_cons]
  by_cases hn : s.BoundIn f n
  · have hn' : (s.frame f).vars.contains n = true := hn
    rw [if_pos hn, hn']
  · have hn' : (s.frame f).vars.contains n = false := Bool.eq_false_iff.2 hn
    rw [if_neg hn, hn']
    cases s.outer? f with
    | none => rfl
    | some g => rfl

theorem Linked.lookup?_eq (f : FrameId) (n : Symbol) :
    s.lookup? f n = ((s.frame f).vars.get? n).or ((s.outer? f).bind fun g => s.lookup? g n) := by
  rw [State.lookup?, h.find?_eq]
  by_cases hn : s.BoundIn f n
  · obtain ⟨v, hv⟩ := boundIn_iff.1 hn
    rw [if_pos hn, hv]
    exact hv
  · rw [if_neg hn, not_boundIn_iff.1 hn, Option.none_or]
    cases s.outer? f with
    | none => rfl
    | some g => rfl

theorem Linked.mem_chain_iff : g ∈ s.chain f ↔ s.Around f g := by
  induction f using h.wellFounded.induction with
  | _ f ih =>
      rw [h.chain f, List.mem_cons]
      constructor
      · rintro (rfl | hg)
        · exact .refl
        · cases ho : s.outer? f with
          | none => rw [ho] at hg; exact absurd hg (by simp)
          | some k =>
              rw [ho] at hg
              exact .head ho ((ih k ho).1 hg)
      · intro hg
        rcases hg.cases_head with rfl | ⟨k, hk, hg⟩
        · exact .inl rfl
        · rw [hk]
          exact .inr ((ih k hk).2 hg)

/-- The search for a name ends in a frame with the name from which on no nearer one has it. -/
theorem Linked.find?_eq_some_iff : s.find? f n = some g ↔ s.Sees n g f ∧ s.BoundIn g n := by
  induction f using h.wellFounded.induction with
  | _ f ih =>
      rw [h.find?_eq]
      constructor
      · intro hg
        by_cases hn : s.BoundIn f n
        · rw [if_pos hn] at hg
          obtain rfl := Option.some.inj hg
          exact ⟨.here, hn⟩
        · rw [if_neg hn] at hg
          obtain ⟨k, hk, hg⟩ := Option.bind_eq_some_iff.1 hg
          obtain ⟨hsees, hbound⟩ := (ih k hk).1 hg
          exact ⟨.inside hn hk hsees, hbound⟩
      · rintro ⟨hsees, hbound⟩
        cases hsees with
        | here => rw [if_pos hbound]
        | @inside _ k hn hk hsees =>
            rw [if_neg hn, hk]
            exact (ih k hk).2 ⟨hsees, hbound⟩

end Linked

/-! ## Binding a name in a frame -/

/-- In `t` the variable `n` has the value `v` from the frames in question. Any other variable, and
`n` from any other frame, is what it is in `s`, be it unbound. -/
structure Rebinds (s t : State) (n : Symbol) (v : Value) (seen : FrameId → Prop) : Prop where
  value (g : FrameId) : seen g → t.lookup g (.symbol n) = .ok v
  other (g : FrameId) (m : Symbol) : ¬ (m = n ∧ seen g) →
    t.lookup g (.symbol m) = s.lookup g (.symbol m)

theorem get?_define_self (hf : f < s.frames.size) :
    ((s.define f n v).frame f).vars.get? n = some v := by
  rw [define_frame hf]
  exact Table.get?_insert_self _ n v

theorem get?_define_of_ne {m : Symbol} (h : ¬ (m = n ∧ g = f)) :
    ((s.define f n v).frame g).vars.get? m = (s.frame g).vars.get? m := by
  by_cases hg : g = f
  · subst hg
    have hm : n ≠ m := fun hnm => h ⟨hnm.symm, rfl⟩
    by_cases hsize : g < s.frames.size
    · rw [define_frame hsize, Table.get?_insert, if_neg hm]
    · rw [define_frame_of_size_le (Nat.le_of_not_lt hsize)]
  · rw [define_frame_of_ne hg]

theorem Linked.lookup?_define_of_sees (h : s.Linked) (hf : f < s.frames.size)
    (hsees : s.Sees n f g) :
    (s.define f n v).lookup? g n = some v := by
  induction hsees with
  | here => rw [(h.define f n v).lookup?_eq, get?_define_self hf, Option.some_or]
  | @inside g k hn hk hsees ih =>
      rw [(h.define f n v).lookup?_eq]
      by_cases hg : g = f
      · rw [hg, get?_define_self hf, Option.some_or]
      · rw [get?_define_of_ne fun hne => hg hne.2, not_boundIn_iff.1 hn, Option.none_or,
          outer?_define, hk]
        exact ih

theorem Linked.lookup?_define_of_not_sees (h : s.Linked) {m : Symbol}
    (hsees : ¬ (m = n ∧ s.Sees n f g)) :
    (s.define f n v).lookup? g m = s.lookup? g m := by
  induction g using h.wellFounded.induction with
  | _ g ih =>
      have hne : ¬ (m = n ∧ g = f) := fun ⟨hmn, hg⟩ => hsees ⟨hmn, hg ▸ .here⟩
      rw [(h.define f n v).lookup?_eq, h.lookup?_eq, outer?_define, get?_define_of_ne hne]
      cases hm : (s.frame g).vars.get? m with
      | some w => rfl
      | none =>
          have hbound : ¬ s.BoundIn g m := not_boundIn_iff.2 hm
          cases hk : s.outer? g with
          | none => rfl
          | some k => exact ih k hk fun ⟨hmn, hk'⟩ => hsees ⟨hmn, .inside (hmn ▸ hbound) hk hk'⟩

theorem lookup_congr {m : Symbol} (h : t.lookup? g m = s.lookup? g m) :
    t.lookup g (.symbol m) = s.lookup g (.symbol m) := by
  have hname : nameToFind (.symbol m) = .ok (some m) := rfl
  rw [State.lookup, State.lookup, hname]
  simp only [bind, Except.bind, Option.bind_some, h]

theorem Linked.rebinds_define (h : s.Linked) (hf : f < s.frames.size) (n : Symbol) (v : Value) :
    s.Rebinds (s.define f n v) n v (s.Sees n f) where
  value _ hsees := lookup_of_bound (h.lookup?_define_of_sees hf hsees)
  other _ _ hsees := lookup_congr (h.lookup?_define_of_not_sees hsees)

/-! ## What binding and assigning do -/

structure Scoping (s : State) (f : FrameId) (n : Symbol) (v : Value) : Prop where
  /-- No frame has infinitely many around it. -/
  finite : WellFounded fun g f => s.outer? f = some g
  /-- The search for a name goes from each frame to the one around it. -/
  search (g : FrameId) (m : Symbol) :
    s.find? g m = if s.BoundIn g m then some g else (s.outer? g).bind fun k => s.find? k m
  assign_iff : (∃ t, (Eval.assign f (.symbol n) v).outcome s = some (.ok ⟨⟩, t)) ↔
    ∃ g, s.Around f g ∧ s.BoundIn g n
  assigned {t : State} : (Eval.assign f (.symbol n) v).outcome s = some (.ok ⟨⟩, t) →
    s.Rebinds t n v fun g => s.find? g n = s.find? f n
  refused : (¬ ∃ g, s.Around f g ∧ s.BoundIn g n) →
    (Eval.assign f (.symbol n) v).outcome s = some (.error (.unbound (.assigned (.symbol n))), s)
  defined : ∃ t, (Eval.define f (.symbol n) v).outcome s = some (.ok ⟨⟩, t) ∧
    s.Rebinds t n v (s.Sees n f)

theorem Linked.find?_isSome_iff (h : s.Linked) :
    (s.find? f n).isSome ↔ ∃ g, s.Around f g ∧ s.BoundIn g n := by
  rw [State.find?, List.find?_isSome]
  exact exists_congr fun g => and_congr_left fun _ => h.mem_chain_iff

/-- Of any forest of frames: a variable is assigned exactly if a frame around binds it, and then it
has its new value from the frames whose search for it ends in the same frame, and no other variable
changes. Otherwise nothing changes. A variable that is bound has its value from the frame and those
inside it that have no nearer one of that name, and no other variable changes. -/
theorem Forest.scoping (h : s.Forest) (hf : f < s.frames.size) (n : Symbol) (v : Value) :
    s.Scoping f n v := by
  have hlinked := h.linked
  have hiff := hlinked.find?_isSome_iff (f := f) (n := n)
  refine ⟨hlinked.wellFounded, hlinked.find?_eq, ?_, fun {t} ht => ?_, fun hnone => ?_, _,
    Eval.outcome_define f n v s, hlinked.rebinds_define hf n v⟩
  · rw [← hiff, outcome_assign]
    cases s.find? f n with
    | none => simp
    | some g => simp
  · rw [outcome_assign] at ht
    cases hfind : s.find? f n with
    | none =>
        rw [hfind] at ht
        exact absurd ht (by simp)
    | some g =>
        rw [hfind] at ht
        obtain ⟨-, rfl⟩ := Prod.mk.inj (Option.some.inj ht)
        obtain ⟨-, hbound⟩ := hlinked.find?_eq_some_iff.1 hfind
        have hseen : (fun k => s.find? k n = some g) = s.Sees n g :=
          funext fun k => propext (hlinked.find?_eq_some_iff.trans (and_iff_left hbound))
        rw [hseen]
        exact hlinked.rebinds_define hbound.lt_size n v
  · rw [← hiff, Bool.not_eq_true, Option.isSome_eq_false_iff, Option.isNone_iff_eq_none] at hnone
    rw [outcome_assign, hnone]

/-- Two frames inside one that binds a variable. What is assigned in one of them is seen in the
other; what is bound in it is not. -/
theorem Forest.scoping_siblings :
    let x : Symbol := ⟨"x"⟩
    let s :=
      ((((start Settings.standard).rootFrame.1.define 0 x (.int 1)).childFrame 0).1.childFrame 0).1
    s.Forest ∧ 1 < s.frames.size ∧ s.Scoping 1 x (.int 2) ∧
      (∃ t, (Eval.assign 1 (.symbol x) (.int 2)).outcome s = some (.ok ⟨⟩, t) ∧
        t.lookup 2 (.symbol x) = .ok (.int 2)) ∧
      ∃ t, (Eval.define 1 (.symbol x) (.int 2)).outcome s = some (.ok ⟨⟩, t) ∧
        t.lookup 1 (.symbol x) = .ok (.int 2) ∧ t.lookup 2 (.symbol x) = .ok (.int 1) := by
  intro x s
  have hforest : s.Forest := by
    refine ⟨Settings.standard, .tail (.tail (.tail (.tail .refl .root) ?_) (.child (by decide)))
      (.child (by decide))⟩
    exact .define (by decide) (.symbol x) (.int 1) rfl
  have hf : 1 < s.frames.size := by decide
  exact ⟨hforest, hf, hforest.scoping hf x (.int 2), ⟨_, rfl, rfl⟩, _, rfl, rfl, rfl⟩

end State
end SlotLisp
