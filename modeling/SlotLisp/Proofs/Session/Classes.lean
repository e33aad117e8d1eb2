import SlotLisp.Proofs.Classes.Definition
import SlotLisp.Proofs.Classes.Hierarchy
import SlotLisp.Proofs.Session.Reachable

/-!
The classes of a session over all its runs. Whatever is evaluated, and however it ends, the classes
that are there stay as they are and keep a hierarchy, and a reader reads a slot of every instance
that descends from its class.
-/

namespace SlotLisp

open Relation

/-! ## Reading slots -/

namespace State

variable {s : State} {i : InstanceId} {slot : Symbol}

/-- What reading a slot answers: its value, or the error of a slot without one. -/
def slotAnswer (s : State) (i : InstanceId) (slot : Symbol) : Except Error Value :=
  match (s.getInstance i).values.get? slot with
  | some v => .ok v
  | none => .error (.emptySlot (.unset slot (s.getClass (s.classOf i)).name))

theorem namedSlot_of_mem (h : slot ∈ s.slotNames (s.classOf i)) :
    ∃ x, s.namedSlot i (.symbol slot) = .ok x ∧ x.name = slot := by
  have hsome : ((s.getClass (s.classOf i)).slots.find? fun x =>
      Declaration.isKey x.name (.symbol slot)).isSome := by
    obtain ⟨x, hx, rfl⟩ := List.mem_map.1 h
    exact List.find?_isSome.2 ⟨x, hx, beq_self_eq_true _⟩
  obtain ⟨x, hx⟩ := Option.isSome_iff_exists.1 hsome
  have hkey := List.find?_some hx
  have hname : slot = x.name := eq_of_beq hkey
  refine ⟨x, ?_, hname.symm⟩
  rw [namedSlot, hx]

theorem readSlot_of_mem (h : slot ∈ s.slotNames (s.classOf i)) :
    s.readSlot i (.symbol slot) = s.slotAnswer i slot := by
  obtain ⟨x, hx, rfl⟩ := namedSlot_of_mem h
  rw [readSlot, hx, slotAnswer]
  rfl

end State

namespace Eval

/-- A reader applied to an instance that descends from its class reads the slot. -/
theorem outcome_reader {s : State} (hs : s.Sound) {c : ClassId} {slot : Symbol}
    (hslot : slot ∈ s.slotNames c) {i : InstanceId} (hi : i < s.instances.size)
    (hdesc : ReflTransGen s.DirectBase (s.classOf i) c) (eval : Evaluator) (name : Symbol)
    (env : FrameId) (macros : MacroTableId) :
    (apply eval (.function (.reader c name slot)) env macros [.ref (.inst i)]).outcome s =
      some (s.slotAnswer i slot, s) := by
  have hcls := State.classOf_lt hs hi
  have hdescends := (State.descends_iff hs hcls).2 hdesc
  have hmem := State.slotNames_of_descends hs hcls hdescends slot hslot
  have hread := State.readSlot_of_mem hmem
  rw [apply, applyReader, outcome_bind_ok (outcome_get s)]
  simp only [Value.isInstance?, hdescends, if_true, hread, outcome_ofExcept]

end Eval

def Value.isFunction? : Value → Option Function
  | .function f => some f
  | _ => none

theorem Value.eq_of_isFunction? {v : Value} {f : Function} (h : v.isFunction? = some f) :
    v = .function f := by
  cases v with
  | function g => rw [Option.some.inj h]
  | _ => exact absurd h (by simp [isFunction?])

namespace Session

theorem leads_of_steps {x : Session} {s t : State} (hs : s.Sound) (h : ReflTransGen (Step x) s t) :
    s.Leads t := by
  induction h with
  | refl => exact .refl hs
  | tail _ hstep ih => exact ih.trans (hstep.leads ih.sound)

/-- Over all runs of a session: its classes and instances are as `WellClassed` says. Each further
use, however it ends, leaves the classes that are there as they are, and a class that is defined is
a new one. A reader that an evaluation comes to, applied at any later time to an instance of its
class or of a class that descends from it, gives the value of the slot or the error of a slot
without one. -/
theorem Reachable.classes_hold {settings : Settings} {selection : Option Selection}
    (hfresh : Fresh settings selection) {s : State} (hs : Reachable settings selection s) :
    let x := (full (State.start settings) selection).2
    s.WellClassed ∧
    (∀ t, Step x s t → ∀ c < s.classes.size, t.classes[c]? = s.classes[c]?) ∧
    (∀ args env macros v t, (Eval.defineClass args env macros).outcome s = some (.ok v, t) →
      v = .ref (.cls s.classes.size)) ∧
    (∀ fuel form env macros c name slot t, s.Knows form →
      (evaluate fuel form env macros).outcome s = some (.ok (.function (.reader c name slot)), t) →
      ∀ u, ReflTransGen (Step x) t u →
        ∀ i < u.instances.size, ReflTransGen u.DirectBase (u.classOf i) c →
          ∀ eval env macros,
            (Eval.apply eval (.function (.reader c name slot)) env macros
              [.ref (.inst i)]).outcome u =
              some (u.slotAnswer i slot, u)) := by
  intro x
  have hsound := hs.sound hfresh
  refine ⟨hsound.wellClassed, fun t ht => (ht.leads hsound).grows.same_class,
    fun _ _ _ _ _ h => Eval.defineClass_new h, ?_⟩
  intro fuel form env macros c name slot t hform h u hu i hi hdesc eval env' macros'
  obtain ⟨hlead, hreader⟩ := keeps_evaluate fuel s form env macros hform hsound _ _ h
  have hlater := leads_of_steps hlead.sound hu
  have hknown : u.Has (.function (.reader c name slot)) := hlater.grows.has _ (hreader _ rfl)
  exact Eval.outcome_reader hlater.sound hknown.2 hi hdesc eval name env' macros'

/-- A class with a slot, a class that inherits it, and an instance of that. -/
theorem Reachable.classes_hold_inherited :
    let x := (full (State.start Settings.standard) none).2
    let s := x.afterText 4 (full (State.start Settings.standard) none).1
      "(defclass a () (x)) (defclass b (a) ()) (define p (make-b :x 1))"
    Fresh Settings.standard none ∧ Reachable Settings.standard none s ∧ s.WellClassed ∧
      s.classes.size = 2 ∧ s.instances.size = 1 ∧ s.slotNames 1 = [⟨"x"⟩] ∧
      ∀ eval env macros,
        (Eval.apply eval (.function (.reader 0 ⟨"a-x"⟩ ⟨"x"⟩)) env macros
          [.ref (.inst 0)]).outcome s =
          some (s.slotAnswer 0 ⟨"x"⟩, s) := by
  intro x s
  have hs : Reachable Settings.standard none s := Reachable.start.afterText 4 _
  have hsizes : s.classes.size = 2 ∧ s.instances.size = 1 ∧ s.slotNames 1 = [⟨"x"⟩] := by
    decide +kernel
  have hbase : 0 ∈ (s.getClass (s.classOf 0)).bases := by decide +kernel
  have hreader : ((s.lookup? x.env ⟨"a-x"⟩).bind Value.isFunction?) =
      some (.reader 0 ⟨"a-x"⟩ ⟨"x"⟩) := by decide +kernel
  obtain ⟨hwell, -, -, hreads⟩ := Reachable.classes_hold fresh_standard hs
  clear_value s
  obtain ⟨v, hv, hfunction⟩ := Option.bind_eq_some_iff.1 hreader
  obtain rfl := Value.eq_of_isFunction? hfunction
  have hevaluate := Eval.outcome_evaluate_symbol (by decide) hv 0 0
  refine ⟨fresh_standard, hs, hwell, hsizes.1, hsizes.2.1, hsizes.2.2, ?_⟩
  exact hreads _ _ _ _ _ _ _ _ (Value.all_symbol _) hevaluate s .refl 0
    (by rw [hsizes.2.1]; exact Nat.one_pos)
    (.single hbase)

end Session
end SlotLisp
