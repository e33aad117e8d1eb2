import SlotLisp.Proofs.Reading.Quoted
import SlotLisp.Token.Scan

/-!
Texts that keep their tokens wherever they stand. A symbol reaches as far as it can, so what follows
a datum decides whether the datum is read apart from it; a blank or a closing mark always is.
-/

namespace SlotLisp

/-- The beginnings that make a token, or a comment, something else than a symbol. -/
inductive Reserved : List Char → Prop
  | quasiquote (r : List Char) : Reserved ('\x60' :: r)
  | comment (r : List Char) : Reserved ('#' :: '|' :: r)
  | char (r : List Char) : Reserved ('#' :: '\\' :: r)
  | complex (r : List Char) : Reserved ('#' :: 'C' :: r)
  | binary {d : Char} (r : List Char) (h : d = '0' ∨ d = '1') : Reserved ('#' :: 'b' :: d :: r)
  | octal {d : Char} (r : List Char) (h : '0' ≤ d ∧ d ≤ '7') : Reserved ('#' :: 'o' :: d :: r)
  | hex {d : Char} (r : List Char)
      (h : ('0' ≤ d ∧ d ≤ '9') ∨ ('a' ≤ d ∧ d ≤ 'f') ∨ ('A' ≤ d ∧ d ≤ 'F')) :
      Reserved ('#' :: 'x' :: d :: r)

theorem Reserved.head {cs : List Char} (h : Reserved cs) : '\x60' ∈ cs ∨ '#' ∈ cs := by
  cases h with
  | quasiquote r => exact .inl (by simp)
  | _ => exact .inr (by simp)

theorem Reserved.second {c : Char} {cs : List Char} (h : Reserved ('#' :: c :: cs)) :
    c ∈ ['|', '\\', 'C', 'b', 'o', 'x'] := by
  generalize hname : '#' :: c :: cs = name at h
  cases h with
  | quasiquote r => exact absurd (List.cons.inj hname).1 (by decide)
  | _ =>
      obtain ⟨rfl, -⟩ := List.cons.inj (List.cons.inj hname).2
      simp

namespace TokenStream

def prepend (ts : List Token) (s : TokenStream) : TokenStream := ⟨ts ++ s.tokens, s.fault⟩

theorem cons_eq_prepend (t : Token) (s : TokenStream) : cons t s = prepend [t] s := rfl

theorem prepend_append (ts us : List Token) (s : TokenStream) :
    prepend (ts ++ us) s = prepend ts (prepend us s) := by
  simp [prepend]

/-- Whether `rest` cannot become a part of the datum in front of it. -/
def Closes (rest : List Char) : Prop :=
  ∀ c ∈ rest.head?, isBlank c = true ∨ c = ')' ∨ c = '\x7d'

theorem closes_nil : Closes [] := by
  intro c hc
  exact absurd hc (by simp)

theorem closes_blank {c : Char} (hc : isBlank c = true) (rest : List Char) :
    Closes (c :: rest) := by
  intro d hd
  obtain rfl := Option.some.inj hd
  exact .inl hc

theorem Closes.not_isSymbolChar {c : Char} {rest : List Char} (h : Closes (c :: rest)) :
    Token.isSymbolChar c = false := by
  rcases h c rfl with h | rfl | rfl
  · simp [Token.isSymbolChar, h]
  · decide
  · decide

theorem Closes.ne {c d : Char} {rest : List Char} (h : Closes (c :: rest))
    (hd : isBlank d = false ∧ d ≠ ')' ∧ d ≠ '\x7d') : c ≠ d := by
  rintro rfl
  rcases h c rfl with h | h | h
  · rw [hd.1] at h; exact absurd h (by decide)
  · exact hd.2.1 h
  · exact hd.2.2 h

/-- The text `cs` has the tokens `ts` wherever it stands at the start of a token and is closed. -/
def Scans (cs : List Char) (ts : List Token) : Prop :=
  ∀ rest position, Closes rest →
    scan (.token 0) position (cs ++ rest) =
      prepend ts (scan (.token 0) (position + cs.length) rest)

/-! ## One step of the scan -/

theorem scan_blank {c : Char} (h : isBlank c = true) (position : Nat) (cs : List Char) :
    scan (.token 0) position (c :: cs) = scan (.token 0) (position + 1) cs := by
  rw [scan.eq_def]
  simp [h]

theorem scan_reach {c : Char} {cs : List Char} {kind : TokenKind} {n : Nat} (position : Nat)
    (hb : isBlank c = false) (hs : c ≠ ';') (hc : ¬ (c = '#' ∧ cs.head? = some '|'))
    (h : Token.reach? c cs = some (kind, n)) :
    scan (.token 0) position (c :: cs) =
      cons ⟨kind, c :: cs.take n⟩ (scan (.token n) (position + 1) cs) := by
  have hc' : (c == '#' && cs.head? == some '|') = false := by simpa using hc
  rw [scan.eq_def]
  simp [hb, hs, hc', h]

theorem scan_token (cs rest : List Char) (position : Nat) :
    scan (.token cs.length) position (cs ++ rest) =
      scan (.token 0) (position + cs.length) rest := by
  induction cs generalizing position with
  | nil => rfl
  | cons c cs ih =>
      rw [List.length_cons, List.cons_append, scan, ih]
      congr 1
      omega

/-- A token whose reach is its whole text. -/
theorem scans_of_reach {c : Char} {cs : List Char} {kind : TokenKind} (hb : isBlank c = false)
    (hs : c ≠ ';') (hc : ∀ rest, Closes rest → ¬ (c = '#' ∧ (cs ++ rest).head? = some '|'))
    (h : ∀ rest, Closes rest → Token.reach? c (cs ++ rest) = some (kind, cs.length)) :
    Scans (c :: cs) [⟨kind, c :: cs⟩] := by
  intro rest position hrest
  rw [List.cons_append, scan_reach position hb hs (hc rest hrest) (h rest hrest), scan_token,
    List.take_left, cons_eq_prepend, List.length_cons]
  congr 2
  omega

/-! ## Putting texts together -/

theorem Scans.nil : Scans [] [] := by
  intro rest position _
  rfl

theorem Scans.append {cs ds : List Char} {ts us : List Token} (hc : Scans cs ts) (hd : Scans ds us)
    (hclose : ∀ rest, Closes rest → Closes (ds ++ rest)) : Scans (cs ++ ds) (ts ++ us) := by
  intro rest position hrest
  rw [List.append_assoc, hc _ _ (hclose rest hrest), hd _ _ hrest, prepend_append,
    List.length_append, Nat.add_assoc]

theorem Scans.space {cs : List Char} {ts : List Token} (h : Scans cs ts) :
    Scans (' ' :: cs) ts := by
  intro rest position hrest
  rw [List.cons_append, scan_blank (by decide), h _ _ hrest, List.length_cons]
  congr 2
  omega

/-- Two texts are put together with a blank between them. -/
theorem Scans.join {cs ds : List Char} {ts us : List Token} (hc : Scans cs ts) (hd : Scans ds us) :
    Scans (cs ++ ' ' :: ds) (ts ++ us) := by
  refine hc.append hd.space fun rest _ c hmem => ?_
  rw [List.cons_append, List.head?_cons, Option.mem_some_iff] at hmem
  subst hmem
  exact .inl (by decide)

theorem Scans.intercalate {α : Type} {text : α → List Char} {tokens : α → List Token} {xs : List α}
    (h : ∀ x ∈ xs, Scans (text x) (tokens x)) :
    Scans ([' '].intercalate (xs.map text)) (xs.flatMap tokens) := by
  induction xs with
  | nil => exact Scans.nil
  | cons x xs ih =>
      have hx := h x (by simp)
      have hxs := ih fun y hy => h y (by simp [hy])
      cases xs with
      | nil => simpa using hx
      | cons y ys =>
          rw [List.map_cons, List.map_cons, List.intercalate_cons_cons, List.flatMap_cons]
          rw [List.map_cons] at hxs
          simpa using hx.join hxs

/-! ## Marks -/

/-- A mark that opens ends by itself, whatever stands behind it. -/
theorem Scans.mark (c : Char) (ds : List Char) {cs : List Char} {kind : TokenKind} {ts : List Token}
    (hb : isBlank c = false) (hs : c ≠ ';') (hc : ∀ r, ¬ (c = '#' ∧ (ds ++ r).head? = some '|'))
    (hr : ∀ r, Token.reach? c (ds ++ r) = some (kind, ds.length)) (h : Scans cs ts) :
    Scans (c :: (ds ++ cs)) (⟨kind, c :: ds⟩ :: ts) := by
  intro rest position hrest
  rw [List.cons_append, List.append_assoc, scan_reach position hb hs (hc _) (hr _), scan_token,
    List.take_left, h _ _ hrest, List.length_cons, List.length_append]
  have hp : position + 1 + ds.length + cs.length = position + (ds.length + cs.length + 1) := by
    omega
  rw [hp]
  rfl

theorem Scans.leftParen {cs : List Char} {ts : List Token} (h : Scans cs ts) :
    Scans ('(' :: cs) (⟨.leftParen, ['(']⟩ :: ts) :=
  Scans.mark '(' [] (by decide) (by decide) (by simp) (fun _ => rfl) h

theorem Scans.leftBrace {cs : List Char} {ts : List Token} (h : Scans cs ts) :
    Scans ('\x7b' :: cs) (⟨.leftBrace, ['\x7b']⟩ :: ts) :=
  Scans.mark '\x7b' [] (by decide) (by decide) (by simp) (fun _ => rfl) h

theorem Scans.vectorParen {cs : List Char} {ts : List Token} (h : Scans cs ts) :
    Scans ('#' :: '(' :: cs) (⟨.vector, ['#', '(']⟩ :: ts) :=
  Scans.mark '#' ['('] (by decide) (by decide) (by simp) (fun _ => rfl) h

theorem scans_rightParen : Scans [')'] [⟨.rightParen, [')']⟩] :=
  scans_of_reach (by decide) (by decide) (by simp) (fun _ _ => rfl)

theorem scans_rightBrace : Scans ['\x7d'] [⟨.rightBrace, ['\x7d']⟩] :=
  scans_of_reach (by decide) (by decide) (by simp) (fun _ _ => rfl)

/-- A closing mark ends what stands in front of it. -/
theorem Scans.rightParen {cs : List Char} {ts : List Token} (h : Scans cs ts) :
    Scans (cs ++ [')']) (ts ++ [⟨.rightParen, [')']⟩]) := by
  refine h.append scans_rightParen fun rest _ c hmem => ?_
  rw [List.cons_append, List.head?_cons, Option.mem_some_iff] at hmem
  exact .inr (.inl hmem.symm)

theorem Scans.rightBrace {cs : List Char} {ts : List Token} (h : Scans cs ts) :
    Scans (cs ++ ['\x7d']) (ts ++ [⟨.rightBrace, ['\x7d']⟩]) := by
  refine h.append scans_rightBrace fun rest _ c hmem => ?_
  rw [List.cons_append, List.head?_cons, Option.mem_some_iff] at hmem
  exact .inr (.inr hmem.symm)

/-! ## Strings -/

theorem scans_encode {codes : List Nat} (h : ∀ n ∈ codes, n < 0x10000) :
    Scans (Quoted.encode codes) [⟨.string, Quoted.encode codes⟩] := by
  refine scans_of_reach (by decide) (by decide) (by simp) fun rest _ => ?_
  have hclose := Quoted.closingQuote?_flatMap_escape h rest
  rw [List.append_eq, List.append_assoc, List.length_append]
  show (Token.closingQuote? (codes.flatMap Quoted.escape ++ '"' :: rest)).map _ = _
  rw [hclose]
  rfl

/-! ## Symbols -/

theorem takeWhile_append_closed {p : Char → Bool} {cs rest : List Char}
    (hcs : ∀ c ∈ cs, p c = true) (hrest : ∀ c ∈ rest.head?, p c = false) :
    (cs ++ rest).takeWhile p = cs := by
  rw [List.takeWhile_append_of_pos hcs]
  cases rest with
  | nil => simp
  | cons c rest => simp [hrest c rfl]

theorem symbolReach_append {cs rest : List Char} (hcs : ∀ c ∈ cs, Token.isSymbolChar c = true)
    (hrest : Closes rest) : Token.symbolReach (cs ++ rest) = (.symbol, cs.length) := by
  rw [Token.symbolReach, takeWhile_append_closed hcs]
  intro c hc
  cases rest with
  | nil => exact absurd hc (by simp)
  | cons d rest =>
      rw [List.head?_cons, Option.mem_some_iff] at hc
      subst hc
      exact hrest.not_isSymbolChar

theorem isHexDigit_iff {c : Char} : Token.isHexDigit c = true ↔
    ('0' ≤ c ∧ c ≤ '9') ∨ ('a' ≤ c ∧ c ≤ 'f') ∨ ('A' ≤ c ∧ c ≤ 'F') := by
  have hdigit : c.isDigit = true ↔ '0' ≤ c ∧ c ≤ '9' := by
    simp only [Char.isDigit, Bool.and_eq_true, decide_eq_true_eq]
    exact Iff.rfl
  rw [Token.isHexDigit, hexValue?, ← hdigit]
  split
  next h => simp [h]
  next h =>
    split
    next ha =>
      simp only [Bool.and_eq_true, decide_eq_true_eq] at ha
      simp [ha]
    next ha =>
      simp only [Bool.and_eq_true, decide_eq_true_eq] at ha
      split
      next hA =>
        simp only [Bool.and_eq_true, decide_eq_true_eq] at hA
        simp [hA]
      next hA =>
        simp only [Bool.and_eq_true, decide_eq_true_eq] at hA
        simp [h, ha, hA]

/-- The digits that a letter announces are the ones that a symbol must not go on with. -/
theorem reserved_of_radix? {c d : Char} {base : Nat} {isDigit : Char → Bool} (r : List Char)
    (h : Token.radix? c = some (base, isDigit)) (hd : isDigit d = true) :
    Reserved ('#' :: c :: d :: r) := by
  unfold Token.radix? at h
  split at h
  · obtain ⟨-, rfl⟩ := Prod.mk.inj (Option.some.inj h)
    exact .binary r (by simpa [Token.isBinaryDigit] using hd)
  · obtain ⟨-, rfl⟩ := Prod.mk.inj (Option.some.inj h)
    exact .octal r (by simpa [Token.isOctalDigit] using hd)
  · obtain ⟨-, rfl⟩ := Prod.mk.inj (Option.some.inj h)
    exact .hex r (isHexDigit_iff.1 hd)
  · exact absurd h (by simp)

theorem isHexDigit_of_radix? {c d : Char} {base : Nat} {isDigit : Char → Bool}
    (h : Token.radix? c = some (base, isDigit)) (hd : isDigit d = true) :
    Token.isHexDigit d = true := by
  unfold Token.radix? at h
  split at h
  · obtain ⟨-, rfl⟩ := Prod.mk.inj (Option.some.inj h)
    simp only [Token.isBinaryDigit, Bool.or_eq_true, beq_iff_eq] at hd
    rcases hd with rfl | rfl <;> decide
  · obtain ⟨-, rfl⟩ := Prod.mk.inj (Option.some.inj h)
    simp only [Token.isOctalDigit, Bool.and_eq_true, decide_eq_true_eq] at hd
    exact isHexDigit_iff.2 (.inl ⟨hd.1, Char.le_trans hd.2 (by decide)⟩)
  · obtain ⟨-, rfl⟩ := Prod.mk.inj (Option.some.inj h)
    exact hd
  · exact absurd h (by simp)

theorem isSymbolChar_of_isHexDigit {c : Char} (h : Token.isHexDigit c = true) :
    Token.isSymbolChar c = true := by
  have hrange : (48 ≤ c.toNat ∧ c.toNat ≤ 57) ∨ (97 ≤ c.toNat ∧ c.toNat ≤ 102) ∨
    (65 ≤ c.toNat ∧ c.toNat ≤ 70) := isHexDigit_iff.1 h
  have hblank : isBlank c = false := by
    rw [Bool.eq_false_iff]
    intro hb
    simp only [isBlank, Ranges.contains, blankRanges, List.any_cons, List.any_nil, Bool.or_false,
      Bool.or_eq_true, Bool.and_eq_true, decide_eq_true_eq] at hb
    omega
  have hne : ∀ d, Token.isHexDigit d = false → c ≠ d := by
    rintro d hd rfl
    rw [h] at hd
    exact absurd hd (by decide)
  simp [Token.isSymbolChar, Token.isDelimiter, hblank, hne '(' rfl, hne ')' rfl, hne '\x7b' rfl,
    hne '\x7d' rfl, hne '\'' rfl, hne '"' rfl, hne ',' rfl, hne ';' rfl]

/-- A digit is a part of the symbol in front of it. -/
theorem Closes.not_isHexDigit {d : Char} {rest : List Char} (h : Closes (d :: rest)) :
    Token.isHexDigit d = false := by
  rw [Bool.eq_false_iff]
  intro hd
  have hsym := isSymbolChar_of_isHexDigit hd
  rw [h.not_isSymbolChar] at hsym
  exact absurd hsym (by decide)

theorem Closes.radix?_eq_none {d : Char} {rest : List Char} (h : Closes (d :: rest)) :
    Token.radix? d = none := by
  have hb : d ≠ 'b' := h.ne (by decide)
  have ho : d ≠ 'o' := h.ne (by decide)
  have hx : d ≠ 'x' := h.ne (by decide)
  unfold Token.radix?
  split
  · exact absurd rfl hb
  · exact absurd rfl ho
  · exact absurd rfl hx
  · rfl

/-- Behind a number sign, what is not reserved goes on as a symbol. -/
theorem hashReach_append {cs rest : List Char} (hcs : ∀ c ∈ cs, Token.isSymbolChar c = true)
    (hres : ¬ Reserved ('#' :: cs)) (hrest : Closes rest) :
    Token.hashReach (cs ++ rest) = (.symbol, cs.length) := by
  have hsym := symbolReach_append hcs hrest
  cases cs with
  | nil =>
      cases rest with
      | nil => exact hsym
      | cons d rest =>
          have hb : d ≠ '\\' := hrest.ne (by decide)
          have hp : d ≠ '(' := hrest.ne (by decide)
          have hq : d ≠ '\'' := hrest.ne (by decide)
          have hC : d ≠ 'C' := hrest.ne (by decide)
          rw [List.nil_append] at hsym ⊢
          simp [Token.hashReach, hb, hp, hq, hC, hrest.radix?_eq_none, hsym]
  | cons d cs =>
      have hd := hcs d (by simp)
      have hb : d ≠ '\\' := by rintro rfl; exact hres (.char cs)
      have hp : d ≠ '(' := by rintro rfl; exact absurd hd (by decide)
      have hq : d ≠ '\'' := by rintro rfl; exact absurd hd (by decide)
      have hC : d ≠ 'C' := by rintro rfl; exact hres (.complex cs)
      rw [List.cons_append] at hsym ⊢
      cases hr : Token.radix? d with
      | none => simp [Token.hashReach, hb, hp, hq, hC, hr, hsym]
      | some r =>
          obtain ⟨base, isDigit⟩ := r
          -- The letter announces digits, but none of them follows.
          have hnone : (cs ++ rest).takeWhile isDigit = [] := by
            cases cs with
            | nil =>
                cases rest with
                | nil => rfl
                | cons e rest =>
                    rw [List.nil_append, List.takeWhile_cons_of_neg]
                    intro he
                    have := isHexDigit_of_radix? hr he
                    rw [hrest.not_isHexDigit] at this
                    exact absurd this (by decide)
            | cons e cs =>
                rw [List.cons_append, List.takeWhile_cons_of_neg]
                exact fun he => hres (reserved_of_radix? cs hr he)
          simp [Token.hashReach, hb, hp, hq, hC, hr, hnone, hsym]

/-- A symbol that is not reserved is scanned as a whole. -/
theorem scans_symbol {cs : List Char} (hne : cs ≠ []) (hcs : ∀ c ∈ cs, Token.isSymbolChar c = true)
    (hres : ¬ Reserved cs) : Scans cs [⟨.symbol, cs⟩] := by
  cases cs with
  | nil => exact absurd rfl hne
  | cons c cs =>
      have hc := hcs c (by simp)
      have hcs' : ∀ d ∈ cs, Token.isSymbolChar d = true := fun d hd => hcs d (by simp [hd])
      have hc' := hc
      simp only [Token.isSymbolChar, Token.isDelimiter, Bool.and_eq_true, Bool.not_eq_true',
        Bool.or_eq_false_iff, beq_eq_false_iff_ne] at hc'
      obtain ⟨hb, ⟨⟨⟨⟨⟨⟨⟨hlp, hrp⟩, hlb⟩, hrb⟩, hq⟩, hdq⟩, hcomma⟩, hsemi⟩⟩ := hc'
      have hbq : c ≠ '\x60' := by rintro rfl; exact hres (.quasiquote cs)
      refine scans_of_reach hb hsemi ?_ ?_
      · rintro rest hrest ⟨rfl, hhead⟩
        cases cs with
        | nil =>
            cases rest with
            | nil => exact absurd hhead (by simp)
            | cons d rest => exact hrest.ne (by decide) (Option.some.inj hhead)
        | cons d cs =>
            have hd : d = '|' := Option.some.inj hhead
            exact hres (hd ▸ .comment cs)
      · intro rest hrest
        by_cases hhash : c = '#'
        · subst hhash
          simp [Token.reach?, hashReach_append hcs' hres hrest]
        · simp [Token.reach?, hlp, hrp, hlb, hrb, hq, hdq, hcomma, hbq, hhash,
            symbolReach_append hcs' hrest]

end TokenStream
end SlotLisp
