import SlotLisp.Proofs.Evaluation.Outcome
import SlotLisp.Proofs.State.Sound

/-!
What evaluating a class definition does to a state. Everything that can be wrong is found before the
class is made, but for one thing: that the name of a binding is no symbol comes out when its turn
comes.
-/

namespace SlotLisp

/-! ## Binding names in a frame -/

def named (bs : List (Symbol × Value)) : List (Value × Value) := bs.map fun b => (.symbol b.1, b.2)

/-- Bindings are all of symbols, or there is a first that is not. -/
theorem named_or_refused (bs : List (Value × Value)) :
    (∃ cs, bs = named cs) ∨
      ∃ cs name v rest, bs = named cs ++ (name, v) :: rest ∧ ∀ n, name ≠ .symbol n := by
  induction bs with
  | nil => exact .inl ⟨[], rfl⟩
  | cons b bs ih =>
      obtain ⟨name, v⟩ := b
      by_cases hname : ∃ n, name = .symbol n
      · obtain ⟨n, rfl⟩ := hname
        rcases ih with ⟨cs, rfl⟩ | ⟨cs, m, w, rest, rfl, hm⟩
        · exact .inl ⟨(n, v) :: cs, rfl⟩
        · exact .inr ⟨(n, v) :: cs, m, w, rest, rfl, hm⟩
      · exact .inr ⟨[], name, v, bs, rfl, fun n hn => hname ⟨n, hn⟩⟩

theorem named_iff {bs : List (Value × Value)} :
    (∃ cs, bs = named cs) ↔ ∀ b ∈ bs, ∃ n, b.1 = .symbol n := by
  constructor
  · rintro ⟨cs, rfl⟩ b hb
    obtain ⟨c, -, rfl⟩ := List.mem_map.1 hb
    exact ⟨c.1, rfl⟩
  · intro h
    refine (named_or_refused bs).resolve_right ?_
    rintro ⟨cs, name, v, rest, rfl, hname⟩
    obtain ⟨n, hn⟩ := h (name, v) (by simp)
    exact hname n hn

namespace State

def bindAll (s : State) (f : FrameId) : List (Symbol × Value) → State
  | [] => s
  | b :: r => (s.define f b.1 b.2).bindAll f r

/-- Whether `t` has the variables of `s`, but for those that are bound in the frame `f` as a list of
bindings says. Where a symbol is bound repeatedly the last binding counts. -/
structure Binds (s t : State) (f : FrameId) (bs : List (Symbol × Value)) : Prop where
  size : t.frames.size = s.frames.size
  other : ∀ g, g ≠ f → t.frame g = s.frame g
  outers : (t.frame f).outers = (s.frame f).outers
  vars : ∀ n, (t.frame f).vars.get? n = ((Table.ofList bs).get? n).or ((s.frame f).vars.get? n)

variable {s : State} {f : FrameId} {n : Symbol} {v : Value}

@[simp] theorem define_size : (s.define f n v).frames.size = s.frames.size := by simp [define]

theorem define_frame_of_ne {g : FrameId} (h : g ≠ f) : (s.define f n v).frame g = s.frame g := by
  rw [frame, frame, define, Array.getElem?_modify, if_neg (Ne.symm h)]

theorem define_frame (h : f < s.frames.size) :
    (s.define f n v).frame f = { s.frame f with vars := (s.frame f).vars.insert n v } := by
  rw [frame, frame, define, Array.getElem?_modify, if_pos rfl, Array.getElem?_eq_getElem h]
  rfl

/-- Binding in a frame leaves everything but frames alone. -/
theorem bindAll_eq (s : State) (f : FrameId) (bs : List (Symbol × Value)) :
    s.bindAll f bs = { s with frames := (s.bindAll f bs).frames } := by
  induction bs generalizing s with
  | nil => rfl
  | cons b bs ih =>
      rw [bindAll, ih (s.define f b.1 b.2)]
      rfl

theorem binds_bindAll (hf : f < s.frames.size) (bs : List (Symbol × Value)) :
    s.Binds (s.bindAll f bs) f bs := by
  have hframe : (s.bindAll f bs).frames.size = s.frames.size ∧
      (∀ g, g ≠ f → (s.bindAll f bs).frame g = s.frame g) ∧
      (s.bindAll f bs).frame f =
        { s.frame f with vars := bs.foldl (fun t b => t.insert b.1 b.2) (s.frame f).vars } := by
    induction bs generalizing s with
    | nil => exact ⟨rfl, fun _ _ => rfl, rfl⟩
    | cons b bs ih =>
        obtain ⟨hsize, hother, hvars⟩ := ih (s := s.define f b.1 b.2) (by simpa using hf)
        refine ⟨by rw [bindAll, hsize, define_size], fun g hg => ?_, ?_⟩
        · rw [bindAll, hother g hg, define_frame_of_ne hg]
        · rw [bindAll, hvars, define_frame hf]
          rfl
  obtain ⟨hsize, hother, hvars⟩ := hframe
  refine ⟨hsize, hother, by rw [hvars], fun n => ?_⟩
  rw [hvars, Table.get?_foldl_insert, Table.get?_ofList]

/-- A class that is added is there after any bindings. -/
theorem getClass_bindAll (s : State) (k : Class) (f : FrameId) (bs : List (Symbol × Value)) :
    ((s.addClass k).1.bindAll f bs).getClass s.classes.size = k := by
  rw [bindAll_eq]
  show ((s.classes.push k)[s.classes.size]?).getD default = k
  rw [Array.getElem?_push_size]
  rfl

end State

namespace Eval

theorem outcome_defineAll (f : FrameId) (bs : List (Symbol × Value)) (s : State) :
    (defineAll f (named bs)).outcome s = some (.ok ⟨⟩, s.bindAll f bs) := by
  induction bs generalizing s with
  | nil => rfl
  | cons b bs ih =>
      show (define f (.symbol b.1) b.2 >>= fun _ => defineAll f (named bs)).outcome s = _
      rw [outcome_bind_ok (outcome_define f b.1 b.2 s), ih]
      rfl

/-- Names are bound up to the first that is no symbol. -/
theorem outcome_defineAll_refused (f : FrameId) (bs : List (Symbol × Value)) {name : Value}
    (hname : ∀ n, name ≠ .symbol n) (v : Value) (rest : List (Value × Value)) (s : State) :
    (defineAll f (named bs ++ (name, v) :: rest)).outcome s =
      some (.error (.badName (.notASymbol name)), s.bindAll f bs) := by
  induction bs generalizing s with
  | nil =>
      have hbind : nameToBind name = .error (.badName (.notASymbol name)) := by
        cases name with
        | symbol n => exact absurd rfl (hname n)
        | _ => rfl
      have hdefine : (define f name v).outcome s =
          some (.error (.badName (.notASymbol name)), s) := by
        rw [define, hbind]
        rfl
      exact outcome_bind_error hdefine _
  | cons b bs ih =>
      show (define f (.symbol b.1) b.2 >>= fun _ =>
        defineAll f (named bs ++ (name, v) :: rest)).outcome s = _
      rw [outcome_bind_ok (outcome_define f b.1 b.2 s), ih]
      rfl

/-! ## Class definitions -/

variable {s : State} {env : FrameId} {args : List Value} {d : ClassDraft}

theorem outcome_defineClass_error {e : Error} (h : s.draftClass env args = .error e)
    (macros : MacroTableId) : (defineClass args env macros).outcome s = some (.error e, s) := by
  have hask : (ask fun s => s.draftClass env args).outcome s = some (.error e, s) := by
    rw [outcome_ask, h]
  exact outcome_bind_error hask _

/-- Once there is a draft, the class is made and its bindings follow. -/
theorem outcome_defineClass (h : s.draftClass env args = .ok d) (macros : MacroTableId) :
    (defineClass args env macros).outcome s =
      (do
        defineAll env (d.bindings s.classes.size)
        return .ref (.cls s.classes.size) : Eval Value).outcome
          (s.addClass (s.classOfDraft d env macros)).1 := by
  have hask : (ask fun s => s.draftClass env args).outcome s = some (.ok d, s) := by
    rw [outcome_ask, h]
  rw [defineClass, outcome_bind_ok hask, outcome_bind_ok (outcome_create _ s)]
  rfl

theorem outcome_defineClass_named (h : s.draftClass env args = .ok d) {bs : List (Symbol × Value)}
    (hbs : d.bindings s.classes.size = named bs) (macros : MacroTableId) :
    (defineClass args env macros).outcome s = some (.ok (.ref (.cls s.classes.size)),
      (s.addClass (s.classOfDraft d env macros)).1.bindAll env bs) := by
  rw [outcome_defineClass h, hbs, outcome_bind_ok (outcome_defineAll _ _ _)]
  rfl

theorem outcome_defineClass_refused (h : s.draftClass env args = .ok d)
    {bs : List (Symbol × Value)} {name v : Value} {rest : List (Value × Value)}
    (hbs : d.bindings s.classes.size = named bs ++ (name, v) :: rest)
    (hname : ∀ n, name ≠ .symbol n) (macros : MacroTableId) :
    (defineClass args env macros).outcome s = some (.error (.badName (.notASymbol name)),
      (s.addClass (s.classOfDraft d env macros)).1.bindAll env bs) := by
  rw [outcome_defineClass h, hbs,
    outcome_bind_error (outcome_defineAll_refused env bs hname v rest _)]

/-- A class that a definition answers was not there before. -/
theorem defineClass_new {t : State} {macros : MacroTableId} {v : Value}
    (h : (defineClass args env macros).outcome s = some (.ok v, t)) :
    v = .ref (.cls s.classes.size) := by
  cases hd : s.draftClass env args with
  | error e =>
      rw [outcome_defineClass_error hd] at h
      exact absurd h (by simp)
  | ok d =>
      rcases named_or_refused (d.bindings s.classes.size) with ⟨bs, hbs⟩ | ⟨bs, _, _, _, hbs, hname⟩
      · rw [outcome_defineClass_named hd hbs] at h
        exact (Except.ok.inj (Prod.mk.inj (Option.some.inj h)).1).symm
      · rw [outcome_defineClass_refused hd hbs hname] at h
        exact absurd h (by simp)

end Eval
end SlotLisp
