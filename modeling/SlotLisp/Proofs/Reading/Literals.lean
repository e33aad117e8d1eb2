import SlotLisp.Form.Read
import SlotLisp.Proofs.Reading.Layout

/-!
Where literals for characters and for numbers of another base end. A literal reaches as far as it is
spelled, and what stands behind it is scanned by itself, be it a delimiter or not. So a literal is
followed by a delimiter exactly if everything up to the next delimiter belongs to its spelling;
otherwise the rest is a token of its own.
-/

namespace SlotLisp

namespace Token

/-- A blank, a delimiter or the end of the text comes next. -/
def Ends (after : List Char) : Prop := ∀ c ∈ after.head?, isSymbolChar c = false

/-- How literals are spelled. A character may have a name, and a number has the letter of its base
in front. -/
inductive Spells : TokenKind → List Char → Prop
  | char (c : Char) : Spells .char ['#', '\\', c]
  | name {n : List Char × Char} (hn : n ∈ charNames) : Spells .char ('#' :: '\\' :: n.1)
  | radix {letter : Char} {base : Nat} {isDigit : Char → Bool} {digits : List Char}
      (hletter : radix? letter = some (base, isDigit)) (hne : digits ≠ [])
      (hdigits : ∀ d ∈ digits, isDigit d = true) : Spells .radix ('#' :: letter :: digits)

def Leads (t : Token) (after : List Char) : Prop :=
  ∃ c cs, t.text = c :: cs ∧ reach? c (cs ++ after) = some (t.kind, cs.length)

/-- The token ends as its kind has it: a symbol in front of a delimiter, a literal with its
spelling. -/
structure EndsAsSpelled (t : Token) (after : List Char) : Prop where
  symbol : t.kind = .symbol → Ends after
  spells : t.kind = .char ∨ t.kind = .radix → Spells t.kind t.text
  literal : t.kind = .char ∨ t.kind = .radix →
    (Ends after ↔ Spells t.kind (t.text ++ after.takeWhile isSymbolChar))

theorem ends_iff {after : List Char} : Ends after ↔ after.takeWhile isSymbolChar = [] := by
  cases after with
  | nil => simp [Ends]
  | cons c after => by_cases hc : isSymbolChar c = true <;> simp [Ends, hc]

/-! ## What a token reaches -/

/-- What is as long as the first characters with a property, and stands in front, is these
characters. -/
theorem takeWhile_of_length {p : Char → Bool} {cs after : List Char}
    (h : ((cs ++ after).takeWhile p).length = cs.length) :
    (∀ c ∈ cs, p c = true) ∧ ∀ c ∈ after.head?, p c = false := by
  have hcs : (cs ++ after).takeWhile p = cs := by
    have hfront := List.takeWhile_prefix (l := cs ++ after) p
    rw [List.prefix_iff_eq_take, h, List.take_left] at hfront
    exact hfront
  have hafter : (cs ++ after).dropWhile p = after := by
    have hall := List.takeWhile_append_dropWhile (p := p) (l := cs ++ after)
    rw [hcs] at hall
    exact List.append_cancel_left hall
  refine ⟨fun c hc => ?_, fun c hc => ?_⟩
  · rw [← hcs] at hc
    exact List.all_eq_true.1 List.all_takeWhile c hc
  · have hhead := List.head?_dropWhile_not p (cs ++ after)
    rw [hafter, Option.mem_def.1 hc] at hhead
    simpa using hhead

/-- What a number sign starts. -/
theorem hashReach_cases (cs : List Char) :
    (∃ r, cs = '\\' :: r ∧ hashReach cs = (.char, charNameLength r + 1)) ∨
    (∃ letter r base isDigit, cs = letter :: r ∧ radix? letter = some (base, isDigit) ∧
      (r.takeWhile isDigit).length ≠ 0 ∧
      hashReach cs = (.radix, (r.takeWhile isDigit).length + 1)) ∨
    hashReach cs = symbolReach cs ∨
    hashReach cs ∈ [(TokenKind.vector, 1), (TokenKind.function, 1), (TokenKind.complex, 1)] := by
  cases cs with
  | nil => exact .inr (.inr (.inl rfl))
  | cons c r =>
      by_cases hb : c = '\\' ∧ r ≠ []
      · obtain ⟨rfl, hr⟩ := hb
        exact .inl ⟨r, rfl, by simp [hashReach, hr]⟩
      have hb' : (c == '\\' && !r.isEmpty) = false := by simpa using hb
      by_cases hp : c = '('
      · exact .inr (.inr (.inr (by simp [hashReach, hp])))
      by_cases hq : c = '\''
      · exact .inr (.inr (.inr (by simp [hashReach, hq])))
      by_cases hC : c = 'C'
      · exact .inr (.inr (.inr (by simp [hashReach, hC])))
      cases hradix : radix? c with
      | none => exact .inr (.inr (.inl (by simp [hashReach, hb', hp, hq, hC, hradix])))
      | some base =>
          by_cases hzero : (r.takeWhile base.2).length = 0
          · exact .inr (.inr (.inl (by simp [hashReach, hb', hp, hq, hC, hradix, hzero])))
          · exact .inr (.inl ⟨c, r, base.1, base.2, rfl, hradix, hzero,
              by simp [hashReach, hb', hp, hq, hC, hradix, hzero]⟩)

section Hash

variable {cs : List Char} {n : Nat}

theorem hashReach_eq_char (h : hashReach cs = (.char, n)) :
    ∃ r, cs = '\\' :: r ∧ n = charNameLength r + 1 := by
  rcases hashReach_cases cs with ⟨r, hr, hc⟩ | ⟨_, _, _, _, -, -, -, hc⟩ | hc | hc
  · exact ⟨r, hr, (Prod.mk.inj (h.symm.trans hc)).2⟩
  · exact absurd (Prod.mk.inj (h.symm.trans hc)).1 (by decide)
  · exact absurd (Prod.mk.inj (h.symm.trans hc)).1 (by decide)
  · rw [h] at hc
    exact absurd hc (by simp)

theorem hashReach_eq_radix (h : hashReach cs = (.radix, n)) :
    ∃ letter r base isDigit, cs = letter :: r ∧ radix? letter = some (base, isDigit) ∧
      (r.takeWhile isDigit).length ≠ 0 ∧ n = (r.takeWhile isDigit).length + 1 := by
  rcases hashReach_cases cs with ⟨_, -, hc⟩ | ⟨letter, r, base, isDigit, hr, hl, hne, hc⟩ | hc | hc
  · exact absurd (Prod.mk.inj (h.symm.trans hc)).1 (by decide)
  · exact ⟨letter, r, base, isDigit, hr, hl, hne, (Prod.mk.inj (h.symm.trans hc)).2⟩
  · exact absurd (Prod.mk.inj (h.symm.trans hc)).1 (by decide)
  · rw [h] at hc
    exact absurd hc (by simp)

theorem hashReach_eq_symbol (h : hashReach cs = (.symbol, n)) :
    n = (cs.takeWhile isSymbolChar).length := by
  rcases hashReach_cases cs with ⟨_, -, hc⟩ | ⟨_, _, _, _, -, -, -, hc⟩ | hc | hc
  · exact absurd (Prod.mk.inj (h.symm.trans hc)).1 (by decide)
  · exact absurd (Prod.mk.inj (h.symm.trans hc)).1 (by decide)
  · exact (Prod.mk.inj (h.symm.trans hc)).2
  · rw [h] at hc
    exact absurd hc (by simp)

end Hash

/-- Only a number sign starts a literal. -/
theorem reach?_literal {c : Char} {cs : List Char} {kind : TokenKind} {n : Nat}
    (h : reach? c cs = some (kind, n)) (hkind : kind = .char ∨ kind = .radix) :
    c = '#' ∧ hashReach cs = (kind, n) := by
  by_cases hhash : c = '#'
  · subst hhash
    exact ⟨rfl, Option.some.inj h⟩
  by_cases hstring : c = '"'
  · subst hstring
    obtain ⟨m, -, hm⟩ := Option.map_eq_some_iff.1 h
    rcases hkind with rfl | rfl <;> exact absurd (Prod.mk.inj hm).1 (by decide)
  simp only [reach?, beq_iff_eq, hhash, hstring, if_false] at h
  repeat' split at h
  all_goals
    obtain ⟨rfl, -⟩ := Prod.mk.inj (Option.some.inj h)
    exact absurd hkind (by decide)

theorem reach?_symbol {c : Char} {cs : List Char} {n : Nat} (h : reach? c cs = some (.symbol, n)) :
    n = (cs.takeWhile isSymbolChar).length := by
  by_cases hhash : c = '#'
  · subst hhash
    exact hashReach_eq_symbol (Option.some.inj h)
  by_cases hstring : c = '"'
  · subst hstring
    obtain ⟨m, -, hm⟩ := Option.map_eq_some_iff.1 h
    exact absurd (Prod.mk.inj hm).1 (by decide)
  simp only [reach?, beq_iff_eq, hhash, hstring, if_false] at h
  repeat' split at h
  all_goals first
    | exact absurd (Prod.mk.inj (Option.some.inj h)).1 (by decide)
    | exact (Prod.mk.inj (Option.some.inj h)).2.symm

/-! ## The names of characters -/

/-- No name goes on with what could be the rest of another one. -/
theorem charNames_prefixFree : ∀ n ∈ charNames, ∀ m ∈ charNames,
    n.1.isPrefixOf m.1 = true → n.1.length = m.1.length := by decide

theorem charNameLength_of_name {n : List Char × Char} {cs : List Char} (hn : n ∈ charNames)
    (hfront : n.1 <+: cs) : charNameLength cs = n.1.length := by
  rw [charNameLength]
  split
  next m hm =>
    have hmem := List.mem_of_find?_eq_some hm
    have hm' : m.1 <+: cs := List.isPrefixOf_iff_prefix.1 (by simpa using List.find?_some hm)
    rcases List.prefix_or_prefix_of_prefix hm' hfront with h | h
    · exact charNames_prefixFree m hmem n hn (List.isPrefixOf_iff_prefix.2 h)
    · exact (charNames_prefixFree n hn m hmem (List.isPrefixOf_iff_prefix.2 h)).symm
  next hnone =>
    exact absurd (List.isPrefixOf_iff_prefix.2 hfront) (List.find?_eq_none.1 hnone n hn)

theorem charNameLength_cases (cs : List Char) :
    (∃ n ∈ charNames, n.1 <+: cs ∧ charNameLength cs = n.1.length) ∨ charNameLength cs = 1 := by
  rw [charNameLength]
  split
  next n hn =>
    exact .inl ⟨n, List.mem_of_find?_eq_some hn,
      List.isPrefixOf_iff_prefix.1 (by simpa using List.find?_some hn), rfl⟩
  next => exact .inr rfl

/-! ## Where a literal ends -/

theorem spells_char {name : List Char} :
    Spells .char ('#' :: '\\' :: name) ↔ name.length = 1 ∨ ∃ n ∈ charNames, n.1 = name := by
  constructor
  · intro h
    cases h with
    | char c => exact .inl rfl
    | @name n hn => exact .inr ⟨n, hn, rfl⟩
  · rintro (hone | ⟨n, hn, rfl⟩)
    · obtain ⟨c, rfl⟩ := List.length_eq_one_iff.1 hone
      exact .char c
    · exact .name hn

theorem spells_radix {letter : Char} {base : Nat} {isDigit : Char → Bool} {digits : List Char}
    (hletter : radix? letter = some (base, isDigit)) :
    Spells .radix ('#' :: letter :: digits) ↔ digits ≠ [] ∧ ∀ d ∈ digits, isDigit d = true := by
  constructor
  · intro h
    cases h with
    | radix hletter' hne hdigits =>
        obtain ⟨-, rfl⟩ := Prod.mk.inj (Option.some.inj (hletter.symm.trans hletter'))
        exact ⟨hne, hdigits⟩
  · rintro ⟨hne, hdigits⟩
    exact .radix hletter hne hdigits

/-- A character literal: behind the backslash stands a name, or one character where no name does. -/
theorem char_ends {cs after : List Char} (h : hashReach (cs ++ after) = (.char, cs.length)) :
    Spells .char ('#' :: cs) ∧
      (Ends after ↔ Spells .char ('#' :: (cs ++ after.takeWhile isSymbolChar))) := by
  obtain ⟨name, rfl, hlength⟩ :
      ∃ name, cs = '\\' :: name ∧ charNameLength (name ++ after) = name.length := by
    obtain ⟨r, hr, hn⟩ := hashReach_eq_char h
    cases cs with
    | nil => exact absurd hn (by simp)
    | cons d name =>
        obtain ⟨rfl, rfl⟩ := List.cons.inj hr
        exact ⟨name, rfl, by simpa using hn.symm⟩
  have hspells : name.length = 1 ∨ ∃ n ∈ charNames, n.1 = name := by
    rcases charNameLength_cases (name ++ after) with ⟨n, hn, hfront, hname⟩ | hone
    · rw [List.prefix_iff_eq_take, ← hname, hlength, List.take_left] at hfront
      exact .inr ⟨n, hn, hfront⟩
    · exact .inl (hlength.symm.trans hone)
  rw [List.cons_append, spells_char, spells_char]
  refine ⟨hspells, fun hends => ?_, fun hlong => ?_⟩
  · rwa [ends_iff.1 hends, List.append_nil]
  · -- a spelling that went on would be the longer name
    have hle : (name ++ after.takeWhile isSymbolChar).length ≤ name.length := by
      rcases hlong with hone | ⟨n, hn, hname⟩
      · have hpos : name.length ≠ 0 := by
          rcases hspells with hone | ⟨m, hm, rfl⟩
          · omega
          · exact (by decide : ∀ m ∈ charNames, m.1.length ≠ 0) m hm
        omega
      · have hfront : n.1 <+: name ++ after := by
          rw [hname]
          exact List.prefix_append_right_inj name |>.2 (List.takeWhile_prefix _)
        rw [← hname, ← charNameLength_of_name hn hfront, hlength]
    rw [ends_iff, ← List.length_eq_zero_iff]
    rw [List.length_append] at hle
    omega

/-- A number with a base: its digits are as many as there are. -/
theorem radix_ends {cs after : List Char} (h : hashReach (cs ++ after) = (.radix, cs.length)) :
    Spells .radix ('#' :: cs) ∧
      (Ends after ↔ Spells .radix ('#' :: (cs ++ after.takeWhile isSymbolChar))) := by
  obtain ⟨letter, digits, base, isDigit, rfl, hletter, hne, hlength⟩ :
      ∃ letter digits base isDigit, cs = letter :: digits ∧ radix? letter = some (base, isDigit) ∧
        digits ≠ [] ∧ ((digits ++ after).takeWhile isDigit).length = digits.length := by
    obtain ⟨letter, r, base, isDigit, hr, hl, hne, hn⟩ := hashReach_eq_radix h
    cases cs with
    | nil => exact absurd hn (by simp)
    | cons d digits =>
        obtain ⟨rfl, rfl⟩ := List.cons.inj hr
        have hlength : ((digits ++ after).takeWhile isDigit).length = digits.length := by
          simpa using hn.symm
        refine ⟨d, digits, base, isDigit, rfl, hl, fun hnil => hne ?_, hlength⟩
        rw [← List.length_eq_zero_iff, ← hlength] at hnil
        exact hnil
  obtain ⟨hdigits, hafter⟩ := takeWhile_of_length hlength
  rw [List.cons_append, spells_radix hletter, spells_radix hletter]
  refine ⟨⟨hne, hdigits⟩, fun hends => ?_, fun hlong c hc => ?_⟩
  · rw [ends_iff.1 hends, List.append_nil]
    exact ⟨hne, hdigits⟩
  · -- a character that could go on with a symbol would be one more digit
    obtain ⟨after, rfl⟩ := List.head?_eq_some_iff.1 (Option.mem_def.1 hc)
    rw [Bool.eq_false_iff]
    intro hsymbol
    have hdigit : isDigit c = true := hlong.2 c (by simp [hsymbol])
    rw [hafter c rfl] at hdigit
    exact absurd hdigit (by decide)

theorem Leads.endsAsSpelled {t : Token} {after : List Char} (h : t.Leads after) :
    t.EndsAsSpelled after := by
  obtain ⟨kind, text⟩ := t
  obtain ⟨c, cs, rfl, hreach⟩ := h
  have hliteral (hkind : kind = .char ∨ kind = .radix) : Spells kind (c :: cs) ∧
      (Ends after ↔ Spells kind (c :: cs ++ after.takeWhile isSymbolChar)) := by
    obtain ⟨rfl, hhash⟩ := reach?_literal hreach hkind
    rcases hkind with rfl | rfl
    · exact char_ends hhash
    · exact radix_ends hhash
  refine ⟨fun hkind => ?_, fun hkind => (hliteral hkind).1, fun hkind => (hliteral hkind).2⟩
  obtain rfl : kind = .symbol := hkind
  exact (takeWhile_of_length (reach?_symbol hreach).symm).2

end Token

/-! ## Where a token stands -/

namespace TokenStream

theorem scan_gap {rest gap : List Char} (h : Gap rest gap) (position : Nat) :
    scan (.token 0) position (gap ++ rest) = scan (.token 0) (position + gap.length) rest := by
  induction h generalizing position with
  | nil => rfl
  | blank hc hgap ih =>
      rw [List.cons_append, scan_blank hc, ih, List.length_cons, Nat.add_right_comm, Nat.add_assoc]
  | line hbody hend hgap ih =>
      rw [List.cons_append, List.append_assoc, scan_semicolon, scan_line_body hbody hend, ih]
      congr 1
      simp only [List.length_cons, List.length_append]
      omega
  | @block body gap hbody hgap ih =>
      rw [List.cons_append, List.cons_append, List.append_assoc]
      have hopen (cs : List Char) :
          scan (.token 0) position ('#' :: '|' :: cs) = scan (.block 1) (position + 2) cs := rfl
      rw [hopen, scan_comment hbody, if_pos rfl, ih]
      congr 1
      simp only [List.length_cons, List.length_append]
      omega

/-- Where no gap stands, the scan makes a token of what comes first, or stops. -/
theorem scan_solid {cs : List Char} (hsolid : Solid cs) {position : Nat} {t : Token}
    {us : List Token} {fault : Option Malformed}
    (h : scan (.token 0) position cs = ⟨t :: us, fault⟩) :
    ∃ after, cs = t.text ++ after ∧ t.Leads after ∧
      scan (.token 0) (position + t.text.length) after = ⟨us, fault⟩ := by
  cases cs with
  | nil => exact absurd (TokenStream.mk.inj h).1 (by simp)
  | cons c r =>
      obtain ⟨hhead, hmark⟩ := hsolid
      obtain ⟨hblank, hsemi⟩ := hhead c rfl
      have hcomment : ¬ (c = '#' ∧ r.head? = some '|') := by
        rintro ⟨rfl, hbar⟩
        obtain ⟨r, rfl⟩ := List.head?_eq_some_iff.1 hbar
        exact hmark ⟨r, rfl⟩
      cases hreach : Token.reach? c r with
      | none =>
          rw [scan.eq_def] at h
          simp [hblank, hsemi, hcomment, hreach, failed] at h
      | some found =>
          obtain ⟨kind, n⟩ := found
          have hlength : (r.take n).length = n := by
            rw [List.length_take, Nat.min_eq_left (Token.reach?_le hreach)]
          have hscan := scan_token (r.take n) (r.drop n) (position + 1)
          rw [List.take_append_drop, hlength] at hscan
          rw [scan_reach position hblank hsemi hcomment hreach, hscan] at h
          obtain ⟨htokens, rfl⟩ := TokenStream.mk.inj h
          obtain ⟨rfl, rfl⟩ := List.cons.inj htokens
          refine ⟨r.drop n, by simp, ⟨c, r.take n, rfl, ?_⟩, ?_⟩
          · rw [List.take_append_drop, hlength]
            exact hreach
          · rw [List.length_cons, hlength, Nat.add_comm n 1, ← Nat.add_assoc]

/-- Each token of a text leads what follows it. -/
theorem leads_of_laid {ts : List Token} {rest cs : List Char} {t : Token} {us : List Token}
    (hlaid : Laid rest (ts ++ t :: us) cs) {position : Nat} {fault : Option Malformed}
    (h : scan (.token 0) position (cs ++ rest) = ⟨ts ++ t :: us, fault⟩) :
    ∃ before after, cs ++ rest = before ++ (t.text ++ after) ∧ Laid (t.text ++ after) ts before ∧
      t.Leads after ∧ scan (.token 0) (position + (before ++ t.text).length) after =
        ⟨us, fault⟩ := by
  induction ts generalizing cs position with
  | nil =>
      cases hlaid with
      | @token _ _ gap cs hgap hne hsolid hcs =>
          rw [List.append_assoc, List.append_assoc] at h ⊢
          rw [scan_gap hgap] at h
          obtain ⟨after, htext, hleads, hscan⟩ := scan_solid hsolid h
          obtain rfl := List.append_cancel_left htext
          refine ⟨gap, cs ++ rest, rfl, .gap hgap, hleads, ?_⟩
          rwa [List.length_append, ← Nat.add_assoc]
  | cons s ts ih =>
      cases hlaid with
      | @token _ _ gap cs hgap hne hsolid hcs =>
          rw [List.append_assoc, List.append_assoc] at h ⊢
          rw [scan_gap hgap] at h
          obtain ⟨after, htext, hleads, hscan⟩ := scan_solid hsolid h
          obtain rfl := List.append_cancel_left htext
          obtain ⟨before, after, hcut, hbefore, hleads, hscan⟩ := ih hcs hscan
          rw [hcut] at hgap hsolid ⊢
          refine ⟨gap ++ (s.text ++ before),
            after, by simp, .token hgap hne hsolid hbefore, hleads, ?_⟩
          rw [← hscan]
          congr 1
          simp only [List.length_append]
          omega

/-- What could go on with a symbol starts a token, unless it opens a comment. -/
theorem scan_not_ends {after : List Char} (hends : ¬ Token.Ends after)
    (hcomment : ¬ ['#', '|'] <+: after)
    (position : Nat) : ∃ u us, (scan (.token 0) position after).tokens = u :: us ∧
    u.text <+: after := by
  cases after with
  | nil => exact absurd (by simp [Token.Ends]) hends
  | cons c r =>
      have hsymbol : Token.isSymbolChar c = true := by simpa [Token.Ends] using hends
      obtain ⟨hblank, hdelimiter⟩ : isBlank c = false ∧ Token.isDelimiter c = false := by
        simpa [Token.isSymbolChar] using hsymbol
      have hsemi : c ≠ ';' := by
        rintro rfl
        exact absurd hdelimiter (by decide)
      have hcomment' : ¬ (c = '#' ∧ r.head? = some '|') := by
        rintro ⟨rfl, hbar⟩
        obtain ⟨r, rfl⟩ := List.head?_eq_some_iff.1 hbar
        exact hcomment ⟨r, rfl⟩
      cases hreach : Token.reach? c r with
      | none =>
          obtain ⟨rfl, -⟩ := Token.reach?_eq_none hreach
          exact absurd hdelimiter (by decide)
      | some found =>
          rw [scan_reach position hblank hsemi hcomment' hreach]
          exact ⟨_, _, rfl, List.cons_prefix_cons.2 ⟨rfl, List.take_prefix _ r⟩⟩

/-- Where the tokens of a text end. A literal is followed by a delimiter exactly if everything up to
the next delimiter belongs to its spelling. If it is not, and no comment starts there, the rest
makes a token of its own. -/
theorem ofString_literal_ends {source : String} {ts us : List Token} {t : Token}
    (h : (ofString source).tokens = ts ++ t :: us) :
    ∃ before after, source.toList = before ++ (t.text ++ after) ∧ Laid (t.text ++ after) ts before ∧
      scan (.token 0) (before ++ t.text).length after = ⟨us, (ofString source).fault⟩ ∧
      t.EndsAsSpelled after ∧
      (¬ Token.Ends after → ¬ ['#', '|'] <+: after → ∃ u us', us = u :: us' ∧
        u.text <+: after) := by
  obtain ⟨cs, rest, hsource, hlaid, -⟩ := ofString_layout source
  rw [h] at hlaid
  have hscan : scan (.token 0) 0 (cs ++ rest) = ⟨ts ++ t :: us, (ofString source).fault⟩ := by
    rw [← hsource, ← h]
    rfl
  obtain ⟨before, after, hcut, hbefore, hleads, hafter⟩ := leads_of_laid hlaid hscan
  rw [Nat.zero_add] at hafter
  refine ⟨before, after, hsource.trans hcut, hbefore, hafter, hleads.endsAsSpelled,
    fun hends hcomment => ?_⟩
  obtain ⟨u, us', hu, hfront⟩ := scan_not_ends hends hcomment (before ++ t.text).length
  rw [hafter] at hu
  exact ⟨u, us', hu, hfront⟩

theorem ofString_literal_ends_binary :
    let s := ofString "#b102"
    let t : Token := ⟨.radix, ['#', 'b', '1', '0']⟩
    let us : List Token := [⟨.symbol, ['2']⟩]
    s.tokens = [] ++ t :: us ∧
      ∃ before after, "#b102".toList = before ++ (t.text ++ after) ∧
      Laid (t.text ++ after) [] before ∧
        scan (.token 0) (before ++ t.text).length after = ⟨us, s.fault⟩ ∧
        t.EndsAsSpelled after ∧
        (¬ Token.Ends after → ¬ ['#', '|'] <+: after → ∃ u us', us = u :: us' ∧
          u.text <+: after) := by
  intro s t us
  have htokens : s.tokens = [] ++ t :: us := by decide +kernel
  exact ⟨htokens, ofString_literal_ends htokens⟩

/-- A name with a capital letter is none, so that its first letter is the literal, and the rest
makes a second form. Nothing is reported. -/
theorem not_ends_capital_name :
    let s := ofString "#\\Space"
    let t : Token := ⟨.char, ['#', '\\', 'S']⟩
    s.tokens = [t, ⟨.symbol, "pace".toList⟩] ∧ s.fault = none ∧
      "#\\Space".toList = t.text ++ "pace".toList ∧ ¬ Token.Ends "pace".toList ∧
      (Form.all s).1.length = 2 := by
  intro s t
  have htokens : s.tokens = [t, ⟨.symbol, "pace".toList⟩] := by decide +kernel
  refine ⟨htokens, by decide +kernel, by decide +kernel, ?_, by decide +kernel⟩
  exact fun hends => absurd (hends 'p' rfl) (by decide)

end TokenStream
end SlotLisp
