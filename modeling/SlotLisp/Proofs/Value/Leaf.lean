import SlotLisp.Value.Map
import SlotLisp.Value.Mark

/-!
What a value holds besides data: references to things in the state and functions made for them. A
property of all of these passes from a value to its parts and from parts to the values made of them,
so that no operation on values brings in a reference that was not there.
-/

namespace SlotLisp

inductive Leaf
  | ref (r : Ref)
  | function (f : Function)

namespace Value

mutual

/-- Whether `p` holds for all references and functions in a value, those in the code of closures
too. -/
def All (p : Leaf → Prop) : Value → Prop
  | .list xs => AllItems p xs
  | .vector xs => AllItems p xs
  | .dotted xs t => AllItems p xs ∧ All p t
  | .copies _ xs t => AllItems p xs ∧ All p t
  | .map es => AllEntries p es
  | .closure _ fs b _ => AllItems p fs ∧ All p b
  | .function f => p (.function f)
  | .unsupplied _ _ t => All p t
  | .ref r => p (.ref r)
  | _ => True
termination_by structural v => v

def AllItems (p : Leaf → Prop) : List Value → Prop
  | [] => True
  | v :: vs => All p v ∧ AllItems p vs

def AllEntries (p : Leaf → Prop) : List (Value × Value) → Prop
  | [] => True
  | (k, v) :: es => (All p k ∧ All p v) ∧ AllEntries p es

end

variable {p q : Leaf → Prop}

theorem allItems_iff {xs : List Value} : AllItems p xs ↔ ∀ x ∈ xs, x.All p := by
  induction xs with
  | nil => simp [AllItems]
  | cons x xs ih => simp [AllItems, ih]

theorem allEntries_iff {es : List (Value × Value)} :
    AllEntries p es ↔ ∀ e ∈ es, e.1.All p ∧ e.2.All p := by
  induction es with
  | nil => simp [AllEntries]
  | cons e es ih =>
      obtain ⟨k, v⟩ := e
      rw [AllEntries, ih, List.forall_mem_cons]

/-! ## The property by the shape of a value -/

@[simp] theorem all_absent : absent.All p := trivial
@[simp] theorem all_nil : nil.All p := trivial
@[simp] theorem all_bool (b : Bool) : (bool b).All p := trivial
@[simp] theorem all_symbol (s : Symbol) : (symbol s).All p := trivial
@[simp] theorem all_int (n : Int) : (int n).All p := trivial
@[simp] theorem all_float (x : Float) : (float x).All p := trivial
@[simp] theorem all_complex (re im : Float) : (complex re im).All p := trivial
@[simp] theorem all_nan (mark : Nat) (n : Number) : (nan mark n).All p := trivial
@[simp] theorem all_str (t : Text) : (str t).All p := trivial
@[simp] theorem all_bytes (growing : Bool) (d : List UInt8) : (bytes growing d).All p := trivial

@[simp] theorem all_list {xs : List Value} : (list xs).All p ↔ ∀ x ∈ xs, x.All p := allItems_iff

@[simp] theorem all_vector {xs : List Value} : (vector xs).All p ↔ ∀ x ∈ xs, x.All p := allItems_iff

@[simp] theorem all_dotted {xs : List Value} {t : Value} :
    (dotted xs t).All p ↔ (∀ x ∈ xs, x.All p) ∧ t.All p :=
  and_congr_left' allItems_iff

@[simp] theorem all_copies {n : Nat} {xs : List Value} {t : Value} :
    (copies n xs t).All p ↔ (∀ x ∈ xs, x.All p) ∧ t.All p :=
  and_congr_left' allItems_iff

@[simp] theorem all_map {es : List (Value × Value)} :
    (map es).All p ↔ ∀ e ∈ es, e.1.All p ∧ e.2.All p := allEntries_iff

@[simp] theorem all_closure {id : Nat} {fs : List Value} {b : Value} {f : FrameId} :
    (closure id fs b f).All p ↔ (∀ x ∈ fs, x.All p) ∧ b.All p :=
  and_congr_left' allItems_iff

@[simp] theorem all_function {f : Function} : (function f).All p ↔ p (.function f) := Iff.rfl

@[simp] theorem all_unsupplied {m : Option Nat} {s : Symbol} {t : Value} :
    (unsupplied m s t).All p ↔ t.All p := Iff.rfl

@[simp] theorem all_ref {r : Ref} : (ref r).All p ↔ p (.ref r) := Iff.rfl

theorem all_ofNumber (n : Number) : (ofNumber n).All p := by
  cases n <;> exact trivial

@[simp] theorem all_ofBool (b : Bool) : (ofBool b).All p := trivial

/-! ## Induction over the parts of a value -/

/-- A property of values that passes from the parts of a value to the value. -/
theorem induction_parts {P : Value → Prop} (absent : P .absent) (nil : P .nil)
    (bool : ∀ b, P (.bool b)) (symbol : ∀ s, P (.symbol s)) (int : ∀ n, P (.int n))
    (float : ∀ x, P (.float x)) (complex : ∀ re im, P (.complex re im))
    (nan : ∀ m n, P (.nan m n)) (str : ∀ t, P (.str t)) (bytes : ∀ g d, P (.bytes g d))
    (list : ∀ xs, (∀ x ∈ xs, P x) → P (.list xs)) (vector : ∀ xs, (∀ x ∈ xs, P x) → P (.vector xs))
    (dotted : ∀ xs t, (∀ x ∈ xs, P x) → P t → P (.dotted xs t))
    (copies : ∀ n xs t, (∀ x ∈ xs, P x) → P t → P (.copies n xs t))
    (map : ∀ es, (∀ e ∈ es, P e.1 ∧ P e.2) → P (.map es))
    (closure : ∀ id fs b f, (∀ x ∈ fs, P x) → P b → P (.closure id fs b f))
    (function : ∀ f, P (.function f)) (unsupplied : ∀ m s t, P t → P (.unsupplied m s t))
    (ref : ∀ r, P (.ref r)) (v : Value) : P v :=
  @Value.rec P (fun xs => ∀ x ∈ xs, P x) (fun es => ∀ e ∈ es, P e.1 ∧ P e.2)
    (fun e => P e.1 ∧ P e.2) absent nil bool symbol int float complex nan str bytes list
    vector dotted
    copies map closure function unsupplied ref (by simp)
    (fun _ _ hx hxs => List.forall_mem_cons.2 ⟨hx, hxs⟩) (by simp)
    (fun _ _ he hes => List.forall_mem_cons.2 ⟨he, hes⟩) (fun _ _ hk hv => ⟨hk, hv⟩) v

theorem All.mono (h : ∀ l, p l → q l) {v : Value} (hv : v.All p) : v.All q := by
  induction v using induction_parts with
  | list xs ih => exact all_list.2 fun x hx => ih x hx (all_list.1 hv x hx)
  | vector xs ih => exact all_vector.2 fun x hx => ih x hx (all_vector.1 hv x hx)
  | dotted xs t ih iht =>
      obtain ⟨hxs, ht⟩ := all_dotted.1 hv
      exact all_dotted.2 ⟨fun x hx => ih x hx (hxs x hx), iht ht⟩
  | copies n xs t ih iht =>
      obtain ⟨hxs, ht⟩ := all_copies.1 hv
      exact all_copies.2 ⟨fun x hx => ih x hx (hxs x hx), iht ht⟩
  | map es ih =>
      refine all_map.2 fun e he => ?_
      obtain ⟨hk, hv⟩ := all_map.1 hv e he
      exact ⟨(ih e he).1 hk, (ih e he).2 hv⟩
  | closure id fs b f ih ihb =>
      obtain ⟨hfs, hb⟩ := all_closure.1 hv
      exact all_closure.2 ⟨fun x hx => ih x hx (hfs x hx), ihb hb⟩
  | function f => exact h _ hv
  | unsupplied m s t ih => exact ih hv
  | ref r => exact h _ hv
  | _ => trivial

/-- What holds for everything that a value can hold, holds in every value. -/
theorem all_of_forall (h : ∀ l, p l) (v : Value) : v.All p := by
  induction v using induction_parts with
  | list xs ih => exact all_list.2 ih
  | vector xs ih => exact all_vector.2 ih
  | dotted xs t ih iht => exact all_dotted.2 ⟨ih, iht⟩
  | copies n xs t ih iht => exact all_copies.2 ⟨ih, iht⟩
  | map es ih => exact all_map.2 ih
  | closure id fs b f ih ihb => exact all_closure.2 ⟨ih, ihb⟩
  | function f => exact h _
  | unsupplied m s t ih => exact ih
  | ref r => exact h _
  | _ => trivial

/-! ## Marks -/

theorem all_markNumber (n : Number) (m : Nat) : ((markNumber n).run m).1.All p := by
  simp only [markNumber]
  split
  · exact trivial
  · exact all_ofNumber n

theorem all_markAll {xs : List Value}
    (h : ∀ x ∈ xs, x.All p → ∀ m, ((mark x).run m).1.All p) (hxs : ∀ x ∈ xs, x.All p) (m : Nat) :
    ∀ x ∈ ((markAll xs).run m).1, x.All p := by
  induction xs generalizing m with
  | nil => intro x hx; exact absurd hx List.not_mem_nil
  | cons y ys ih =>
      intro x hx
      have hx' : x ∈ ((mark y).run m).1 :: ((markAll ys).run ((mark y).run m).2).1 := hx
      rw [List.mem_cons] at hx'
      rcases hx' with rfl | hx'
      · exact h y (by simp) (hxs y (by simp)) m
      · exact ih (fun z hz => h z (by simp [hz])) (fun z hz => hxs z (by simp [hz])) _ x hx'

theorem all_markEntries {es : List (Value × Value)}
    (h : ∀ e ∈ es, (e.1.All p → ∀ m, ((mark e.1).run m).1.All p) ∧
      (e.2.All p → ∀ m, ((mark e.2).run m).1.All p))
    (hes : ∀ e ∈ es, e.1.All p ∧ e.2.All p) (m : Nat) :
    ∀ e ∈ ((markEntries es).run m).1, e.1.All p ∧ e.2.All p := by
  induction es generalizing m with
  | nil => intro e he; exact absurd he List.not_mem_nil
  | cons d ds ih =>
      obtain ⟨k, v⟩ := d
      intro e he
      have he' : e ∈ (((mark k).run m).1, ((mark v).run ((mark k).run m).2).1) ::
          ((markEntries ds).run ((mark v).run ((mark k).run m).2).2).1 := he
      rw [List.mem_cons] at he'
      rcases he' with rfl | he'
      · have hd := h (k, v) (by simp)
        have hkv := hes (k, v) (by simp)
        exact ⟨hd.1 hkv.1 _, hd.2 hkv.2 _⟩
      · exact ih (fun f hf => h f (by simp [hf])) (fun f hf => hes f (by simp [hf])) _ e he'

/-- Marks change no references. -/
theorem all_mark {v : Value} (hv : v.All p) (m : Nat) : ((mark v).run m).1.All p := by
  induction v using induction_parts generalizing m with
  | float x => exact all_markNumber _ m
  | complex re im => exact all_markNumber _ m
  | list xs ih => exact all_list.2 (all_markAll ih (all_list.1 hv) m)
  | vector xs ih => exact all_vector.2 (all_markAll ih (all_vector.1 hv) m)
  | dotted xs t ih iht =>
      obtain ⟨hxs, ht⟩ := all_dotted.1 hv
      exact all_dotted.2 ⟨all_markAll ih hxs m, iht ht _⟩
  | copies n xs t ih iht =>
      obtain ⟨hxs, ht⟩ := all_copies.1 hv
      exact all_copies.2 ⟨all_markAll ih hxs m, iht ht _⟩
  | map es ih => exact all_map.2 (all_markEntries ih (all_map.1 hv) m)
  | unsupplied mark s t ih =>
      cases mark with
      | none => exact ih hv _
      | some i => exact hv
  | _ => exact hv

end Value
end SlotLisp
