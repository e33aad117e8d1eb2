import SlotLisp.Form.Read
import SlotLisp.Proofs.Value.Operation

/-!
What is read holds no references and no functions: it is data through and through.
-/

namespace SlotLisp
namespace Form

variable {p : Leaf → Prop}

def Open.All (p : Leaf → Prop) : Open → Prop
  | .marked _ => True
  | .list items => ∀ x ∈ items, x.All p
  | .tail items => ∀ x ∈ items, x.All p
  | .vector items => ∀ x ∈ items, x.All p
  | .mapping items => ∀ x ∈ items, x.All p
  | .realPart => True
  | .imaginaryPart _ => True

def Expected.All (p : Leaf → Prop) : Expected → Prop
  | .form => True
  | .listEnd items tail => (∀ x ∈ items, x.All p) ∧ tail.All p
  | .complexStart => True
  | .complexEnd _ _ => True

def Step.All (p : Leaf → Prop) : Step → Prop
  | .more expected stack => expected.All p ∧ ∀ o ∈ stack, o.All p
  | .complete v => v.All p
  | .refuse _ => True
  | .fail _ => True

theorem all_deliver {v : Value} {stack : List Open} (hv : v.All p) (hstack : ∀ o ∈ stack, o.All p) :
    (deliver v stack).All p := by
  induction stack generalizing v with
  | nil => exact hv
  | cons o stack ih =>
      obtain ⟨ho, hrest⟩ := List.forall_mem_cons.1 hstack
      cases o with
      | marked head => exact ih (by simpa using hv) hrest
      | list items =>
          exact ⟨trivial, List.forall_mem_cons.2 ⟨List.forall_mem_cons.2 ⟨hv, ho⟩, hrest⟩⟩
      | tail items => exact ⟨⟨ho, hv⟩, hrest⟩
      | vector items =>
          exact ⟨trivial, List.forall_mem_cons.2 ⟨List.forall_mem_cons.2 ⟨hv, ho⟩, hrest⟩⟩
      | mapping items =>
          exact ⟨trivial, List.forall_mem_cons.2 ⟨List.forall_mem_cons.2 ⟨hv, ho⟩, hrest⟩⟩
      | realPart => exact ⟨trivial, List.forall_mem_cons.2 ⟨trivial, hrest⟩⟩
      | imaginaryPart re => exact ⟨trivial, hrest⟩

theorem all_deliverOrFail {x : Except Fault Value} {stack : List Open}
    (hx : ∀ v, x = .ok v → v.All p) (hstack : ∀ o ∈ stack, o.All p) :
    (deliverOrFail x stack).All p := by
  cases x with
  | ok v => exact all_deliver (hx v rfl) hstack
  | error f => exact trivial

/-! ## Tokens -/

theorem all_ofName {cs : List Char} {v : Value} (h : ofName cs = .ok v) : v.All p := by
  unfold ofName at h
  split at h
  next => obtain rfl := Except.ok.inj h; exact trivial
  next =>
    split at h
    next => obtain ⟨n, -, rfl⟩ := map_eq_ok h; exact trivial
    next =>
      split at h
      next => obtain rfl := Except.ok.inj h; exact trivial
      next => obtain rfl := Except.ok.inj h; exact trivial

theorem all_ofCharLiteral (text : List Char) : (ofCharLiteral text).All p := by
  unfold ofCharLiteral
  dsimp only
  split <;> exact trivial

theorem all_ofRadixLiteral (text : List Char) : (ofRadixLiteral text).All p := by
  unfold ofRadixLiteral
  split <;> exact trivial

theorem all_complexOf {re im v : Value} (h : complexOf re im = .ok v) : v.All p := by
  unfold complexOf at h
  split at h
  next => obtain ⟨n, -, rfl⟩ := map_eq_ok h; exact Value.all_ofNumber n
  next => exact absurd h (by simp)

theorem all_nameToken {text : List Char} {stack : List Open} (hstack : ∀ o ∈ stack, o.All p) :
    (nameToken text stack).All p := by
  unfold nameToken
  split
  next items rest =>
    split
    · obtain ⟨ho, hrest⟩ := List.forall_mem_cons.1 hstack
      exact ⟨trivial, List.forall_mem_cons.2 ⟨ho, hrest⟩⟩
    · exact all_deliverOrFail (fun _ h => all_ofName h) hstack
  next => exact all_deliverOrFail (fun _ h => all_ofName h) hstack

theorem all_closeParen {stack : List Open} (hstack : ∀ o ∈ stack, o.All p) :
    (closeParen stack).All p := by
  unfold closeParen
  split
  next items rest =>
    obtain ⟨ho, hrest⟩ := List.forall_mem_cons.1 hstack
    exact all_deliver (Value.all_list.2 fun x hx => ho x (List.mem_reverse.1 hx)) hrest
  next items rest =>
    obtain ⟨ho, hrest⟩ := List.forall_mem_cons.1 hstack
    exact all_deliver (Value.all_vector.2 fun x hx => ho x (List.mem_reverse.1 hx)) hrest
  next => exact trivial

theorem all_closeBrace {stack : List Open} (hstack : ∀ o ∈ stack, o.All p) :
    (closeBrace stack).All p := by
  unfold closeBrace
  split
  next items rest =>
    obtain ⟨ho, hrest⟩ := List.forall_mem_cons.1 hstack
    split
    · exact trivial
    · exact all_deliverOrFail (fun v hv => Value.all_ofPairs hv fun x hx =>
        ho x (List.mem_reverse.1 hx))
        hrest
  next => exact trivial

theorem all_feed {expected : Expected} {stack : List Open} (t : Token) (hexpected : expected.All p)
    (hstack : ∀ o ∈ stack, o.All p) : (feed expected stack t).All p := by
  have hopen : ∀ o : Open, o.All p → (Step.more .form (o :: stack)).All p := fun o ho =>
    ⟨trivial, List.forall_mem_cons.2 ⟨ho, hstack⟩⟩
  cases expected with
  | form =>
      show (formToken stack t).All p
      unfold formToken
      cases t.kind with
      | symbol => exact all_nameToken hstack
      | quote => exact hopen _ trivial
      | unquote => exact hopen _ trivial
      | function => exact hopen _ trivial
      | leftParen => exact hopen _ (fun _ h => absurd h List.not_mem_nil)
      | rightParen => exact all_closeParen hstack
      | leftBrace => exact hopen _ (fun _ h => absurd h List.not_mem_nil)
      | rightBrace => exact all_closeBrace hstack
      | vector => exact hopen _ (fun _ h => absurd h List.not_mem_nil)
      | char => exact all_deliver (all_ofCharLiteral _) hstack
      | string =>
          refine all_deliverOrFail (fun v hv => ?_) hstack
          obtain ⟨text, -, rfl⟩ := map_eq_ok hv
          exact trivial
      | radix => exact all_deliver (all_ofRadixLiteral _) hstack
      | complex => exact ⟨trivial, hstack⟩
  | listEnd items tail =>
      obtain ⟨hitems, htail⟩ := hexpected
      unfold feed
      dsimp only
      split
      · exact all_deliver
          (Value.all_dotted.2 ⟨fun x hx => hitems x (List.mem_reverse.1 hx), htail⟩) hstack
      · exact trivial
  | complexStart =>
      unfold feed
      dsimp only
      split
      · exact hopen _ trivial
      · exact trivial
  | complexEnd re im =>
      unfold feed
      dsimp only
      split
      · exact all_deliverOrFail (fun _ h => all_complexOf h) hstack
      · exact trivial

/-! ## Forms -/

theorem all_atEnd {v : Option Value} {stack : List Open} {w : Value}
    (h : atEnd v stack = .ok (some w)) (hv : ∀ x ∈ v, x.All p) : w.All p := by
  induction stack generalizing v with
  | nil => obtain rfl := Except.ok.inj h; exact hv w rfl
  | cons o stack ih =>
      cases o with
      | marked head =>
          refine ih h fun x hx => ?_
          obtain rfl := Option.some.inj hx
          cases v with
          | none => simp
          | some y => simpa using hv y rfl
      | _ => exact absurd h (by simp [atEnd])

theorem all_readFrom {fault : Option Malformed} {expected : Expected} {stack : List Open}
    {ts : List Token} {rest : TokenStream} {v : Value}
    (h : readFrom fault expected stack ts = (.ok (some v), rest)) (hexpected : expected.All p)
    (hstack : ∀ o ∈ stack, o.All p) : v.All p := by
  induction ts generalizing expected stack with
  | nil =>
      unfold readFrom at h
      split at h
      next => exact absurd h (by simp)
      next =>
        have hend := congrArg Prod.fst h
        cases expected with
        | form => exact all_atEnd hend (by simp)
        | _ => exact absurd hend (by simp [endOf])
  | cons t ts ih =>
      have hstep := all_feed t hexpected hstack
      unfold readFrom at h
      split at h
      next e st hfeed =>
        rw [hfeed] at hstep
        exact ih h hstep.1 hstep.2
      next w hfeed =>
        rw [hfeed] at hstep
        obtain rfl := Option.some.inj (Except.ok.inj (congrArg Prod.fst h))
        exact hstep
      next => exact absurd h (by simp)
      next => exact absurd h (by simp)

theorem all_readAll (fuel : Nat) (s : TokenStream) : ∀ v ∈ (readAll fuel s).1, v.All p := by
  induction fuel generalizing s with
  | zero => simp [readAll]
  | succ fuel ih =>
      rw [readAll]
      split
      next => simp
      next => simp
      next v rest hnext =>
        exact List.forall_mem_cons.2 ⟨all_readFrom hnext trivial (by simp), ih rest⟩

/-- The forms of a text are data. -/
theorem all_ofText (text : String) : ∀ v ∈ (ofText text).1, v.All p := by
  have hall : (ofText text).1 = (all (TokenStream.ofString text)).1 := rfl
  rw [hall]
  exact all_readAll _ _

end Form
end SlotLisp
