import SlotLisp.Proofs.Reading.Datum
import SlotLisp.Proofs.Reading.Pieces

/-!
The expressions of the language as a grammar of tokens, each with its value. A rule says what an
expression is made of and nothing about the order in which its tokens come in; that the reader
follows the rules, and takes in nothing else, is then a matter of two inductions. The first one is
here: wherever a form may start, the tokens of an expression are read as its value.
-/

namespace SlotLisp

/-- What a mark in front of an expression abbreviates. -/
def Token.markHead (t : Token) : Symbol :=
  if t.kind = .function then Symbol.function else Form.quoteHead t.text

namespace Form

def dot : Token := ⟨.symbol, ['.']⟩

/-- The tokens `ts` are an expression with the value `v`. An expression that has no value, such as a
string literal with a bad escape, is none. -/
inductive Expr : List Token → Value → Prop
  | name {text : List Char} {v : Value} (hv : ofName text = .ok v) : Expr [⟨.symbol, text⟩] v
  | char (text : List Char) : Expr [⟨.char, text⟩] (ofCharLiteral text)
  | string {text : List Char} {v : Value} (hv : ofStringLiteral text = .ok v) :
      Expr [⟨.string, text⟩] v
  | radix (text : List Char) : Expr [⟨.radix, text⟩] (ofRadixLiteral text)
  | marked {mark : Token} {ts : List Token} {v : Value} (hmark : mark.IsMark) (h : Expr ts v) :
      Expr (mark :: ts) (.list [.symbol mark.markHead, v])
  | list {opening closing : Token} {items : List (List Token × Value)}
      (hopening : opening.kind = .leftParen) (hclosing : closing.kind = .rightParen)
      (hdot : ∀ p ∈ items, p.1 ≠ [dot]) (h : ∀ p ∈ items, Expr p.1 p.2) :
      Expr (opening :: (items.flatMap Prod.fst ++ [closing])) (.list (items.map Prod.snd))
  | dotted {opening closing : Token} {items : List (List Token × Value)}
      {ts : List Token} {v : Value}
      (hopening : opening.kind = .leftParen) (hclosing : closing.kind = .rightParen)
      (hdot : ∀ p ∈ items, p.1 ≠ [dot]) (h : ∀ p ∈ items, Expr p.1 p.2) (htail : Expr ts v) :
      Expr (opening :: (items.flatMap Prod.fst ++ (dot :: (ts ++ [closing]))))
        (.dotted (items.map Prod.snd) v)
  | vector {opening closing : Token} {items : List (List Token × Value)}
      (hopening : opening.kind = .vector) (hclosing : closing.kind = .rightParen)
      (h : ∀ p ∈ items, Expr p.1 p.2) :
      Expr (opening :: (items.flatMap Prod.fst ++ [closing])) (.vector (items.map Prod.snd))
  | mapping {opening closing : Token} {items : List (List Token × Value)} {v : Value}
      (hopening : opening.kind = .leftBrace) (hclosing : closing.kind = .rightBrace)
      (heven : items.length % 2 = 0) (h : ∀ p ∈ items, Expr p.1 p.2)
      (hv : Value.ofPairs (items.map Prod.snd) = .ok v) :
      Expr (opening :: (items.flatMap Prod.fst ++ [closing])) v
  | complex {sign opening closing : Token} {re im : List Token} {a b v : Value}
      (hsign : sign.kind = .complex) (hopening : opening.kind = .leftParen)
      (hclosing : closing.kind = .rightParen) (hre : Expr re a) (him : Expr im b)
      (hv : complexOf a b = .ok v) :
      Expr (sign :: opening :: (re ++ (im ++ [closing]))) v

/-- Marks at the end of the tokens, with the value that they have for want of an expression. -/
inductive Dangling : List Token → Value → Prop
  | missing {mark : Token} (hmark : mark.IsMark) :
      Dangling [mark] (.list [.symbol mark.markHead, .absent])
  | marked {mark : Token} {ts : List Token} {v : Value} (hmark : mark.IsMark) (h : Dangling ts v) :
      Dangling (mark :: ts) (.list [.symbol mark.markHead, v])

/-- Expressions in a row, each with its value. Only the last one may be missing behind its marks. -/
inductive Sentence : List (List Token) → List Value → Prop
  | nil : Sentence [] []
  | cons {ts : List Token} {v : Value} {tss : List (List Token)} {vs : List Value} (h : Expr ts v)
      (hrest : Sentence tss vs) : Sentence (ts :: tss) (v :: vs)
  | dangling {ts : List Token} {v : Value} (h : Dangling ts v) : Sentence [ts] [v]

/-! ## Single tokens -/

theorem feed_mark {t : Token} (h : t.IsMark) (stack : List Open) :
    feed .form stack t = .more .form (.marked t.markHead :: stack) := by
  rcases h with h | h | h <;> simp [feed, formToken, Token.markHead, h]

theorem feed_leftParen {t : Token} (h : t.kind = .leftParen) (stack : List Open) :
    feed .form stack t = .more .form (.list [] :: stack) := by
  simp [feed, formToken, h]

theorem feed_vector {t : Token} (h : t.kind = .vector) (stack : List Open) :
    feed .form stack t = .more .form (.vector [] :: stack) := by
  simp [feed, formToken, h]

theorem feed_leftBrace {t : Token} (h : t.kind = .leftBrace) (stack : List Open) :
    feed .form stack t = .more .form (.mapping [] :: stack) := by
  simp [feed, formToken, h]

theorem feed_complex {t : Token} (h : t.kind = .complex) (stack : List Open) :
    feed .form stack t = .more .complexStart stack := by
  simp [feed, formToken, h]

theorem feed_rightParen {t : Token} (h : t.kind = .rightParen) (stack : List Open) :
    feed .form stack t = closeParen stack := by
  simp [feed, formToken, h]

theorem feed_rightBrace {t : Token} (h : t.kind = .rightBrace) (stack : List Open) :
    feed .form stack t = closeBrace stack := by
  simp [feed, formToken, h]

/-- A dot is announced only to a list. -/
theorem nameToken_eq {text : List Char} {stack : List Open}
    (h : text = ['.'] → ∀ items below, stack ≠ .list items :: below) :
    nameToken text stack = deliverOrFail (ofName text) stack := by
  unfold nameToken
  split
  next items below =>
    have hne : ¬ (text == ['.']) = true := fun htext => h (beq_iff_eq.1 htext) items below rfl
    rw [if_neg hne]
  next => rfl

/-! ## Expressions -/

theorem readFrom_of_more {fault : Option Malformed} {expected expected' : Expected}
    {stack stack' : List Open} {t : Token} (h : feed expected stack t = .more expected' stack')
    (ts : List Token) :
    readFrom fault expected stack (t :: ts) = readFrom fault expected' stack' ts := by
  rw [readFrom_cons, h]

theorem readFrom_of_feed_fault {fault : Option Malformed} {expected : Expected}
    {stack stack' : List Open} {t : Token} {x : Except Fault Value}
    (h : feed expected stack t = deliverOrFail x stack') (ts : List Token) :
    readFrom fault expected stack (t :: ts) = resume fault (deliverOrFail x stack') ts := by
  cases x with
  | ok v => exact readFrom_of_feed h ts
  | error f => rw [readFrom_cons, h]; rfl

/-- A complex number is read from what is read as its parts, if they have one. -/
theorem readFrom_complex {sign opening closing : Token} {re im : List Token} {a b : Value}
    {fault : Option Malformed} {stack : List Open} (hsign : sign.kind = .complex)
    (hopening : opening.kind = .leftParen) (hclosing : closing.kind = .rightParen)
    (hre : ∀ rest, readFrom fault .form (.realPart :: stack) (re ++ rest) =
      resume fault (deliver a (.realPart :: stack)) rest)
    (him : ∀ rest, readFrom fault .form (.imaginaryPart a :: stack) (im ++ rest) =
      resume fault (deliver b (.imaginaryPart a :: stack)) rest) (rest : List Token) :
    readFrom fault .form stack (sign :: opening :: (re ++ (im ++ [closing])) ++ rest) =
      resume fault (deliverOrFail (complexOf a b) stack) rest := by
  have hstart : feed .complexStart stack opening = .more .form (.realPart :: stack) := by
    simp [feed, hopening]
  rw [List.cons_append, List.cons_append, List.append_assoc, List.append_assoc,
    readFrom_of_more (feed_complex hsign stack), readFrom_of_more hstart, hre]
  show readFrom fault .form (.imaginaryPart a :: stack) (im ++ _) = _
  rw [him]
  have hend : feed (.complexEnd a b) stack closing = deliverOrFail (complexOf a b) stack := by
    simp [feed, hclosing]
  exact readFrom_of_feed_fault hend rest

/-- The tokens of an expression are read as its value. Only a dot is something else directly inside
a list. -/
theorem Expr.read {ts : List Token} {v : Value} (h : Expr ts v) (fault : Option Malformed)
    (stack : List Open) (hdot : ts = [dot] → ∀ items below, stack ≠ .list items :: below)
    (rest : List Token) :
    readFrom fault .form stack (ts ++ rest) = resume fault (deliver v stack) rest := by
  induction h generalizing stack rest with
  | @name text v hv =>
      refine readFrom_of_feed ?_ rest
      show nameToken text stack = _
      rw [nameToken_eq fun htext => hdot (by rw [htext]; rfl), hv]
      rfl
  | char text => exact readFrom_of_feed rfl rest
  | @string text v hv =>
      refine readFrom_of_feed ?_ rest
      show deliverOrFail (ofStringLiteral text) stack = _
      rw [hv]
      rfl
  | radix text => exact readFrom_of_feed rfl rest
  | @marked mark ts v hmark h ih =>
      rw [List.cons_append, readFrom_of_more (feed_mark hmark stack), ih _ (by simp)]
      rfl
  | @list opening closing items hopening hclosing hitems h ih =>
      rw [List.cons_append, List.append_assoc, readFrom_of_more (feed_leftParen hopening stack),
        readFrom_pieces .list (fun _ _ _ => rfl) fault stack
          fun p hp items rest => ih p hp _ (fun hpdot => absurd hpdot (hitems p hp)) rest]
      refine readFrom_of_feed ?_ rest
      rw [feed_rightParen hclosing, closeParen, List.append_nil, List.reverse_reverse]
  | @dotted opening closing items ts v hopening hclosing hitems h htail ih ihtail =>
      rw [List.cons_append, List.append_assoc, readFrom_of_more (feed_leftParen hopening stack),
        readFrom_pieces .list (fun _ _ _ => rfl) fault stack
          fun p hp items rest => ih p hp _ (fun hpdot => absurd hpdot (hitems p hp)) rest,
        List.cons_append, List.append_assoc, List.append_nil]
      show readFrom fault .form (.tail (items.map Prod.snd).reverse :: stack) (ts ++ _) = _
      rw [ihtail _ (by simp)]
      have hend : feed (.listEnd (items.map Prod.snd).reverse v) stack closing =
          deliver (.dotted (items.map Prod.snd) v) stack := by
        simp [feed, hclosing]
      exact readFrom_of_feed hend rest
  | @vector opening closing items hopening hclosing h ih =>
      rw [List.cons_append, List.append_assoc, readFrom_of_more (feed_vector hopening stack),
        readFrom_pieces .vector (fun _ _ _ => rfl) fault stack
          fun p hp items rest => ih p hp _ (by simp) rest]
      refine readFrom_of_feed ?_ rest
      rw [feed_rightParen hclosing, closeParen, List.append_nil, List.reverse_reverse]
  | @mapping opening closing items v hopening hclosing heven h hv ih =>
      rw [List.cons_append, List.append_assoc, readFrom_of_more (feed_leftBrace hopening stack),
        readFrom_pieces .mapping (fun _ _ _ => rfl) fault stack
          fun p hp items rest => ih p hp _ (by simp) rest]
      refine readFrom_of_feed ?_ rest
      have hlength : ¬ ((items.map Prod.snd).reverse.length % 2 = 1) := by
        rw [List.length_reverse, List.length_map]
        omega
      rw [feed_rightBrace hclosing, List.append_nil, closeBrace, if_neg hlength,
        List.reverse_reverse, hv]
      rfl
  | @complex sign opening closing re im a b v hsign hopening hclosing hre him hv ihre ihim =>
      have hread := readFrom_complex hsign hopening hclosing
        (ihre (.realPart :: stack) (by simp)) (ihim (.imaginaryPart a :: stack) (by simp)) rest
      rw [hv] at hread
      exact hread

/-- An expression at the front is the next form, and what follows it is left. -/
theorem Expr.next {ts : List Token} {v : Value} (h : Expr ts v) (rest : List Token)
    (fault : Option Malformed) : next ⟨ts ++ rest, fault⟩ = (.ok (some v), ⟨rest, fault⟩) :=
  h.read fault [] (fun _ _ _ => by simp) rest

theorem Expr.unique {ts ts' rest rest' : List Token} {v v' : Value} (h : Expr ts v)
    (h' : Expr ts' v') (heq : ts ++ rest = ts' ++ rest') : ts = ts' ∧ v = v' ∧ rest = rest' := by
  have hnext := h.next rest none
  rw [heq, h'.next rest' none] at hnext
  obtain ⟨hv, hrest⟩ := Prod.mk.inj hnext
  obtain rfl := Option.some.inj (Except.ok.inj hv)
  obtain rfl := (TokenStream.mk.inj hrest).1
  exact ⟨List.append_cancel_right heq, rfl, rfl⟩

theorem Expr.ne_nil {ts : List Token} {v : Value} (h : Expr ts v) : ts ≠ [] := by
  cases h <;> simp

/-! ## Dangling marks -/

/-- What the marks that are open at the end come to. -/
theorem Dangling.readFrom {ts : List Token} {v : Value} (h : Dangling ts v) (stack : List Open) :
    readFrom none .form stack ts = (atEnd (some v) stack, TokenStream.finished) := by
  induction h generalizing stack with
  | missing hmark => rw [readFrom_of_more (feed_mark hmark stack)]; rfl
  | @marked mark ts v hmark h ih =>
      rw [readFrom_of_more (feed_mark hmark stack), ih]
      rfl

theorem Dangling.next {ts : List Token} {v : Value} (h : Dangling ts v) :
    next ⟨ts, none⟩ = (.ok (some v), TokenStream.finished) := h.readFrom []

/-! ## Rows of expressions -/

theorem all_nil : all ⟨[], none⟩ = ([], none, TokenStream.finished) := rfl

theorem Sentence.all {tss : List (List Token)} {vs : List Value} (h : Sentence tss vs) :
    all ⟨tss.flatten, none⟩ = (vs, none, TokenStream.finished) := by
  induction h with
  | nil => rfl
  | @cons ts v tss vs h hrest ih => rw [List.flatten_cons, all_of_next (h.next _ none), ih]
  | @dangling ts v h =>
      rw [List.flatten_cons, List.flatten_nil, List.append_nil, all_of_next h.next]
      exact congrArg (fun r => (v :: r.1, r.2)) all_nil

end Form
end SlotLisp
