import SlotLisp.Proofs.Evaluation.Fuel
import SlotLisp.Proofs.Classes.Definition

/-!
Frames in the course of evaluation. A frame that is new binds what is bound in it in the order in
which it was, and no frame ever loses a variable.
-/

namespace SlotLisp
namespace State

variable {s t : State} {f : FrameId} {n : Symbol} {v : Value}

/-! ## New frames -/

def openFrame (s : State) (outer : FrameId) (bs : List (Symbol × Value)) : State :=
  { s with frames := s.frames.push ⟨⟨bs⟩, s.chain outer⟩ }

/-- A name that the new frame does not bind is bound behind all others. -/
theorem define_openFrame {outer : FrameId} {bs : List (Symbol × Value)}
    (hnew : n ∉ bs.map Prod.fst) :
    (s.openFrame outer bs).define s.frames.size n v = s.openFrame outer (bs ++ [(n, v)]) := by
  have hinsert : (⟨bs⟩ : Table Value).insert n v = ⟨bs ++ [(n, v)]⟩ := Table.insert_of_new hnew v
  have hframes : (s.frames.push ⟨⟨bs⟩, s.chain outer⟩).modify s.frames.size
      (fun fr => { fr with vars := fr.vars.insert n v }) =
        s.frames.push ⟨⟨bs ++ [(n, v)]⟩, s.chain outer⟩ := by
    refine Array.ext_getElem? fun i => ?_
    rw [Array.getElem?_modify, Array.getElem?_push, Array.getElem?_push, ← hinsert]
    by_cases hi : i = s.frames.size
    · rw [if_pos hi.symm, if_pos hi, if_pos hi]
      rfl
    · rw [if_neg (Ne.symm hi), if_neg hi, if_neg hi]
  exact congrArg (fun fs => { s with frames := fs }) hframes

theorem openFrame_frame (s : State) (outer : FrameId) (bs : List (Symbol × Value)) :
    (s.openFrame outer bs).frame s.frames.size = ⟨⟨bs⟩, s.chain outer⟩ := by
  rw [frame, openFrame, Array.getElem?_push_size]
  rfl

theorem openFrame_frame_of_ne {outer g : FrameId} {bs : List (Symbol × Value)}
    (hg : g ≠ s.frames.size) :
    (s.openFrame outer bs).frame g = s.frame g := by
  rw [frame, openFrame, Array.getElem?_push, if_neg hg, frame]

theorem transformer?_openFrame (s : State) (outer : FrameId) (bs : List (Symbol × Value))
    (m : MacroTableId) (n : Symbol) :
    (s.openFrame outer bs).transformer? m n = s.transformer? m n := rfl

/-- A name that the new frame does not bind is seen in it as in the frame around it. -/
theorem lookup?_openFrame (s : State) (outer : FrameId) (bs : List (Symbol × Value)) (n : Symbol) :
    (s.openFrame outer bs).lookup? s.frames.size n =
      ((⟨bs⟩ : Table Value).get? n).or (s.lookup? outer n) := by
  have hchain : (s.openFrame outer bs).chain s.frames.size = s.frames.size :: s.chain outer := by
    rw [chain, openFrame_frame]
  rw [lookup?, find?, hchain, List.find?_cons, openFrame_frame, Table.contains_eq_isSome]
  cases hget : (⟨bs⟩ : Table Value).get? n with
  | some v =>
      show ((s.openFrame outer bs).frame s.frames.size).vars.get? n = some v
      rw [openFrame_frame, hget]
  | none =>
      -- Where the new frame is not asked, all frames are as they were.
      have hsame : ∀ g, ((s.openFrame outer bs).frame g).vars.get? n = (s.frame g).vars.get? n := by
        intro g
        by_cases hg : g = s.frames.size
        · rw [hg, openFrame_frame, hget, frame, Array.getElem?_eq_none (Nat.le_refl _)]
          rfl
        · rw [openFrame_frame_of_ne hg]
      simp only [Table.contains_eq_isSome, hsame, lookup?, find?, Option.isSome_none,
        Option.none_or]

/-- The new frame binds as many names as there are values. -/
theorem contains_openFrame {outer : FrameId} {names : List Symbol} {vs : List Value}
    (hn : n ∈ names.take vs.length) :
    ((s.openFrame outer (names.zip vs)).frame s.frames.size).vars.contains n = true := by
  have hnames : (names.zip vs).map Prod.fst = names.take vs.length := by
    rw [List.zip_eq_zip_take_min, List.map_fst_zip (by simp), Nat.min_comm, ← List.take_eq_take_min]
  rw [← hnames] at hn
  obtain ⟨b, hb, rfl⟩ := List.mem_map.1 hn
  rw [openFrame_frame]
  exact List.any_eq_true.2 ⟨b, hb, beq_self_eq_true b.1⟩

/-! ## What frames keep -/

structure KeepsFrames (s t : State) : Prop where
  size : s.frames.size ≤ t.frames.size
  bound (f : FrameId) (n : Symbol) : (s.frame f).vars.contains n = true →
    (t.frame f).vars.contains n = true

theorem KeepsFrames.trans {u : State} (h : s.KeepsFrames t) (h' : t.KeepsFrames u) :
    s.KeepsFrames u :=
  ⟨Nat.le_trans h.size h'.size, fun f n hn => h'.bound f n (h.bound f n hn)⟩

theorem contains_define (hf : f < s.frames.size) (m : Symbol) :
    ((s.define f n v).frame f).vars.contains m =
      (decide (n = m) || (s.frame f).vars.contains m) := by
  rw [define_frame hf, Table.contains_eq_isSome, Table.contains_eq_isSome, Table.get?_insert]
  by_cases h : n = m <;> simp [h]

/-- What is bound in a frame itself is seen from there. -/
theorem lookup?_define_self (hf : f < s.frames.size) : (s.define f n v).lookup? f n = some v := by
  have hget : ((s.define f n v).frame f).vars.get? n = some v := by
    rw [define_frame hf]
    exact Table.get?_insert_self _ n v
  rw [lookup?, find?, chain, List.find?_cons, Table.contains_eq_isSome, hget]
  exact hget

theorem keepsFrames_define (s : State) (f : FrameId) (n : Symbol) (v : Value) :
    s.KeepsFrames (s.define f n v) := by
  refine ⟨Nat.le_of_eq define_size.symm, fun g m hm => ?_⟩
  by_cases hg : g = f
  · subst hg
    by_cases hf : g < s.frames.size
    · rw [contains_define hf, hm, Bool.or_true]
    · have hnone : s.frames[g]? = none := Array.getElem?_eq_none (Nat.le_of_not_lt hf)
      rw [frame, hnone] at hm
      exact Bool.noConfusion hm
  · rwa [define_frame_of_ne hg]

theorem Change.keepsFrames (h : s.Change t) : s.KeepsFrames t := by
  cases h with
  | define f n v => exact keepsFrames_define s f n v
  | childFrame f =>
      refine ⟨by simp [State.childFrame], fun g m hm => ?_⟩
      by_cases hg : g < s.frames.size
      · rwa [frame, State.childFrame, Array.getElem?_push_lt hg, ← Array.getElem?_eq_getElem hg]
      · rw [frame, Array.getElem?_eq_none (Nat.le_of_not_lt hg)] at hm
        exact Bool.noConfusion hm
  | _ => exact ⟨Nat.le_refl _, fun _ _ h => h⟩

theorem Evaluates.keepsFrames {macros : MacroTableId} {form : Value} {r : Except Error Value}
    (h : s.Evaluates f macros form r t) : s.KeepsFrames t := by
  obtain ⟨fuel, hfuel⟩ := h
  have hcongr := Eval.congruence_preserves (P := KeepsFrames) KeepsFrames.trans Change.keepsFrames
  exact hcongr.evaluate (Nat.le_refl fuel) form f macros s r t hfuel

end State
end SlotLisp
