import SlotLisp.Proofs.Reading.Valueless

/-!
The reader takes in nothing that is not in the grammar. At each token, what it has on its stack is
the beginning of an expression that follows the rules so far, so a form that is given out is one
whose tokens are an expression. Where reading fails, nothing that follows the forms before is an
expression, and either no rule fits or a piece that fits has no value.
-/

namespace SlotLisp
namespace Form

/-! ## What the open forms have taken in -/

/-- The tokens with which an open form has begun. -/
inductive Begun : Open → List Token → Prop
  | marked {mark : Token} (hmark : mark.IsMark) : Begun (.marked mark.markHead) [mark]
  | list {opening : Token} {items : List (List Token × Value)}
      (hopening : opening.kind = .leftParen)
      (hdot : ∀ p ∈ items, p.1 ≠ [dot]) (h : ∀ p ∈ items, Expr p.1 p.2) :
      Begun (.list (items.map Prod.snd).reverse) (opening :: items.flatMap Prod.fst)
  | tail {opening : Token} {items : List (List Token × Value)}
      (hopening : opening.kind = .leftParen)
      (hdot : ∀ p ∈ items, p.1 ≠ [dot]) (h : ∀ p ∈ items, Expr p.1 p.2) :
      Begun (.tail (items.map Prod.snd).reverse) (opening :: (items.flatMap Prod.fst ++ [dot]))
  | vector {opening : Token} {items : List (List Token × Value)} (hopening : opening.kind = .vector)
      (h : ∀ p ∈ items, Expr p.1 p.2) :
      Begun (.vector (items.map Prod.snd).reverse) (opening :: items.flatMap Prod.fst)
  | mapping {opening : Token} {items : List (List Token × Value)}
      (hopening : opening.kind = .leftBrace) (h : ∀ p ∈ items, Expr p.1 p.2) :
      Begun (.mapping (items.map Prod.snd).reverse) (opening :: items.flatMap Prod.fst)
  | realPart {sign opening : Token}
      (hsign : sign.kind = .complex) (hopening : opening.kind = .leftParen) :
      Begun .realPart [sign, opening]
  | imaginaryPart {sign opening : Token} {re : List Token} {a : Value}
      (hsign : sign.kind = .complex) (hopening : opening.kind = .leftParen) (hre : Expr re a) :
      Begun (.imaginaryPart a) (sign :: opening :: re)

/-- The tokens of all open forms, of which the first is the innermost one. -/
inductive Opened : List Open → List Token → Prop
  | nil : Opened [] []
  | cons {o : Open} {stack : List Open} {below here : List Token} (hbelow : Opened stack below)
      (ho : Begun o here) : Opened (o :: stack) (below ++ here)

/-- The tokens of a form that is open, and not on the stack, because its next token is settled. -/
inductive Awaits : Expected → List Token → Prop
  | form : Awaits .form []
  | listEnd {opening : Token} {items : List (List Token × Value)} {ts : List Token} {v : Value}
      (hopening : opening.kind = .leftParen) (hdot : ∀ p ∈ items, p.1 ≠ [dot])
      (h : ∀ p ∈ items, Expr p.1 p.2) (htail : Expr ts v) :
      Awaits (.listEnd (items.map Prod.snd).reverse v)
        (opening :: (items.flatMap Prod.fst ++ dot :: ts))
  | complexStart {sign : Token} (hsign : sign.kind = .complex) : Awaits .complexStart [sign]
  | complexEnd {sign opening : Token} {re im : List Token} {a b : Value}
      (hsign : sign.kind = .complex)
      (hopening : opening.kind = .leftParen) (hre : Expr re a) (him : Expr im b) :
      Awaits (.complexEnd a b) (sign :: opening :: (re ++ im))

def Consumed (expected : Expected) (stack : List Open) (ts : List Token) : Prop :=
  ∃ below here, ts = below ++ here ∧ Opened stack below ∧ Awaits expected here

theorem Opened.consumed {stack : List Open} {ts : List Token} (h : Opened stack ts) :
    Consumed .form stack ts := ⟨ts, [], (List.append_nil ts).symm, h, .form⟩

def Ends (ts : List Token) : Option Value → Prop
  | none => ts = []
  | some v => Dangling ts v

theorem Dangling.mark_first {t : Token} {ts : List Token} {v : Value} (h : Dangling (t :: ts) v) :
    t.IsMark ∧ (ts = [] ∨ ∃ w, Dangling ts w) := by
  cases h with
  | missing hmark => exact ⟨hmark, .inl rfl⟩
  | marked hmark h => exact ⟨hmark, .inr ⟨_, h⟩⟩

theorem Dangling.not_first {t : Token} {ts : List Token} {v : Value} (kind : TokenKind)
    (ht : t.kind = kind) (hkind : kind ∉ [TokenKind.quote, .unquote, .function]) :
    ¬ Dangling (t :: ts) v := by
  intro h
  rcases h.mark_first.1 with hmark | hmark | hmark <;> exact hkind (by simp [← ht, hmark])

/-- An expression does not end with a mark. -/
theorem Expr.not_dangling {ts : List Token} {v : Value} (h : Expr ts v) : ∀ w, ¬ Dangling ts w := by
  induction h with
  | marked hmark h ih =>
      intro w hw
      rcases hw.mark_first.2 with hts | ⟨w, hw⟩
      · exact h.ne_nil hts
      · exact ih w hw
  | name => exact fun w => Dangling.not_first .symbol rfl (by decide)
  | char => exact fun w => Dangling.not_first .char rfl (by decide)
  | string => exact fun w => Dangling.not_first .string rfl (by decide)
  | radix => exact fun w => Dangling.not_first .radix rfl (by decide)
  | list hkind => exact fun w => Dangling.not_first _ hkind (by decide)
  | dotted hkind => exact fun w => Dangling.not_first _ hkind (by decide)
  | vector hkind => exact fun w => Dangling.not_first _ hkind (by decide)
  | mapping hkind => exact fun w => Dangling.not_first _ hkind (by decide)
  | complex hkind => exact fun w => Dangling.not_first _ hkind (by decide)

/-- No expression is the beginning of marks that are left over. -/
theorem Expr.not_prefix_dangling {first rest : List Token} {v w : Value} (h : Expr first v) :
    ¬ Dangling (first ++ rest) w := by
  intro hw
  have hnext := h.next rest none
  rw [hw.next] at hnext
  have hrest : [] = rest := (TokenStream.mk.inj (congrArg Prod.snd hnext)).1
  subst hrest
  rw [List.append_nil] at hw
  exact h.not_dangling w hw

theorem Dangling.ne_nil {ts : List Token} {v : Value} (h : Dangling ts v) : ts ≠ [] := by
  cases h <;> simp

theorem Dangling.unique {ts : List Token} {v w : Value} (hv : Dangling ts v) (hw : Dangling ts w) :
    v = w := by
  have hnext := hv.next
  rw [hw.next] at hnext
  exact (Option.some.inj (Except.ok.inj (congrArg Prod.fst hnext))).symm

/-- Tokens are expressions in a row in one way at most. -/
theorem Sentence.unique {tss tss' : List (List Token)} {vs vs' : List Value} (h : Sentence tss vs)
    (h' : Sentence tss' vs') (heq : tss.flatten = tss'.flatten) : tss = tss' ∧ vs = vs' := by
  induction h generalizing tss' vs' with
  | nil =>
      cases h' with
      | nil => exact ⟨rfl, rfl⟩
      | cons h hrest => exact absurd (List.append_eq_nil_iff.1 heq.symm).1 h.ne_nil
      | dangling h => exact absurd (List.append_eq_nil_iff.1 heq.symm).1 h.ne_nil
  | @cons ts v tss vs h hrest ih =>
      cases h' with
      | nil => exact absurd (List.append_eq_nil_iff.1 heq).1 h.ne_nil
      | cons h' hrest' =>
          obtain ⟨rfl, rfl, hflatten⟩ := h.unique h' heq
          obtain ⟨rfl, rfl⟩ := ih hrest' hflatten
          exact ⟨rfl, rfl⟩
      | dangling h' =>
          rw [List.flatten_cons, List.flatten_cons, List.flatten_nil, List.append_nil] at heq
          exact absurd (heq ▸ h') h.not_prefix_dangling
  | @dangling ts v h =>
      rw [List.flatten_cons, List.flatten_nil, List.append_nil] at heq
      cases h' with
      | nil => exact absurd heq h.ne_nil
      | cons h' hrest' => exact absurd (heq ▸ h) h'.not_prefix_dangling
      | dangling h' =>
          rw [List.flatten_cons, List.flatten_nil, List.append_nil] at heq
          obtain rfl := heq
          exact ⟨rfl, by rw [h.unique h']⟩

end Form
end SlotLisp
