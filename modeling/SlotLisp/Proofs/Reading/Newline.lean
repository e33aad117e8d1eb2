import SlotLisp.Proofs.Reading.Lexeme

/-!
Two texts with a newline between them. No token, string or comment of the first one reaches across
the newline, so that it has the tokens that it has by itself and those of the second one follow.
Only what is said of the second text's faults counts their places from the beginning of the first.
-/

namespace SlotLisp

/-- The same fault of a text in front of which so many other characters stand. -/
def Malformed.moved (n : Nat) : Malformed → Malformed
  | .strayQuote p => .strayQuote (p + n)
  | why => why

namespace Token

open TokenStream (Closes)

variable {rest : List Char}

/-! ## The reach of a token in front of what closes it -/

theorem takeWhile_closed {p : Char → Bool} (hp : ∀ c ∈ rest.head?, p c = false) (cs : List Char) :
    (cs ++ rest).takeWhile p = cs.takeWhile p := by
  induction cs with
  | nil =>
      cases rest with
      | nil => rfl
      | cons d rest => simp [hp d rfl]
  | cons c cs ih =>
      rw [List.cons_append, List.takeWhile_cons, List.takeWhile_cons, ih]

theorem length_takeWhile_le (p : Char → Bool) (cs : List Char) :
    (cs.takeWhile p).length ≤ cs.length :=
  (List.takeWhile_prefix p).length_le

/-- What closes a datum starts with no character of a symbol. -/
theorem not_isSymbolChar_closed (hrest : Closes rest) :
    ∀ c ∈ rest.head?, isSymbolChar c = false := by
  intro c hc
  obtain ⟨r, rfl⟩ := List.head?_eq_some_iff.1 (Option.mem_def.1 hc)
  exact hrest.not_isSymbolChar

theorem symbolReach_closed (hrest : Closes rest) (cs : List Char) :
    symbolReach (cs ++ rest) = symbolReach cs ∧ (symbolReach cs).2 ≤ cs.length := by
  refine ⟨?_, length_takeWhile_le isSymbolChar cs⟩
  rw [symbolReach, takeWhile_closed (not_isSymbolChar_closed hrest), symbolReach]

theorem closingQuote?_quote (rest : List Char) : closingQuote? ('"' :: rest) = some 1 := by
  cases rest <;> rfl

/-- A string that is closed does not go on. -/
theorem closingQuote?_mono {cs : List Char} {n : Nat} (h : closingQuote? cs = some n)
    (rest : List Char) : closingQuote? (cs ++ rest) = some n ∧ n ≤ cs.length := by
  induction cs using closingQuote?.induct generalizing n with
  | case1 => exact absurd h (by simp [closingQuote?])
  | case2 c hc =>
      obtain rfl := beq_iff_eq.1 hc
      obtain rfl := Option.some.inj ((closingQuote?_quote []).symm.trans h)
      exact ⟨closingQuote?_quote rest, Nat.le_refl 1⟩
  | case3 c hc => exact absurd h (by simp [closingQuote?, hc])
  | case4 c d r hc =>
      obtain rfl := beq_iff_eq.1 hc
      obtain rfl := Option.some.inj ((closingQuote?_quote (d :: r)).symm.trans h)
      exact ⟨closingQuote?_quote _, by simp⟩
  | case5 c d r hc hb ih =>
      rw [closingQuote?, if_neg hc, if_pos hb] at h
      obtain ⟨m, hm, rfl⟩ := Option.map_eq_some_iff.1 h
      obtain ⟨hrest, hle⟩ := ih hm
      refine ⟨?_, by simpa using hle⟩
      rw [List.cons_append, List.cons_append, closingQuote?, if_neg hc, if_pos hb, hrest]
      rfl
  | case6 c d r hc hb ih =>
      rw [closingQuote?, if_neg hc, if_neg hb] at h
      obtain ⟨m, hm, rfl⟩ := Option.map_eq_some_iff.1 h
      obtain ⟨hrest, hle⟩ := ih hm
      refine ⟨?_, Nat.succ_le_succ hle⟩
      rw [List.cons_append, List.cons_append, closingQuote?, if_neg hc, if_neg hb,
        ← List.cons_append, hrest]
      rfl

theorem isPrefixOf_closed {name : List Char} (hname : ∀ c ∈ rest.head?, c ∉ name) (cs : List Char) :
    name.isPrefixOf (cs ++ rest) = name.isPrefixOf cs := by
  induction cs generalizing name with
  | nil =>
      cases name with
      | nil => rfl
      | cons c name =>
          cases rest with
          | nil => rfl
          | cons d rest =>
              have hc : c ≠ d := fun h => hname d rfl (by simp [h])
              simp [List.isPrefixOf, hc]
  | cons d cs ih =>
      cases name with
      | nil => rfl
      | cons c name =>
          rw [List.cons_append, List.isPrefixOf_cons_cons, List.isPrefixOf_cons_cons,
            ih fun e he hmem => hname e he (List.mem_cons_of_mem c hmem)]

/-- A character is named by what stands in front of the end. -/
theorem find?_closed {names : List (List Char × Char)}
    (hnames : ∀ n ∈ names, ∀ c ∈ rest.head?, c ∉ n.1) (cs : List Char) :
    names.find? (fun n => n.1.isPrefixOf (cs ++ rest)) = names.find? fun n =>
      n.1.isPrefixOf cs := by
  induction names with
  | nil => rfl
  | cons n names ih =>
      obtain ⟨hn, hnames⟩ := List.forall_mem_cons.1 hnames
      rw [List.find?_cons, List.find?_cons, isPrefixOf_closed hn, ih hnames]

theorem charNames_isSymbolChar : ∀ n ∈ charNames, ∀ c ∈ n.1, isSymbolChar c = true := by
  have hall : (charNames.all fun n => n.1.all isSymbolChar) = true := by decide
  simpa only [List.all_eq_true] using hall

theorem charNameLength_closed (hrest : Closes rest) {cs : List Char} (hne : cs ≠ []) :
    charNameLength (cs ++ rest) = charNameLength cs ∧ charNameLength cs ≤ cs.length := by
  have hnames : ∀ n ∈ charNames, ∀ c ∈ rest.head?, c ∉ n.1 := fun n hn c hc hmem => by
    have hsymbol := charNames_isSymbolChar n hn c hmem
    rw [not_isSymbolChar_closed hrest c hc] at hsymbol
    exact absurd hsymbol (by decide)
  refine ⟨by rw [charNameLength, find?_closed hnames, charNameLength], ?_⟩
  rw [charNameLength]
  split
  next n hn =>
    have hprefix : n.1.isPrefixOf cs = true := by simpa using List.find?_some hn
    exact (List.isPrefixOf_iff_prefix.1 hprefix).length_le
  next => exact List.length_pos_iff.2 hne

theorem not_isDigit_closed (hrest : Closes rest) {c : Char} {base : Nat} {isDigit : Char → Bool}
    (h : radix? c = some (base, isDigit)) : ∀ d ∈ rest.head?, isDigit d = false := by
  intro d hd
  rw [Bool.eq_false_iff]
  intro hdigit
  have hsymbol := TokenStream.isSymbolChar_of_isHexDigit (TokenStream.isHexDigit_of_radix? h hdigit)
  rw [not_isSymbolChar_closed hrest d hd] at hsymbol
  exact absurd hsymbol (by decide)

/-- Only a number sign with a backslash that ends the text would take a blank as its character. -/
theorem hashReach_closed (hrest : Closes rest) {cs : List Char} (h : cs ≠ ['\\']) :
    hashReach (cs ++ rest) = hashReach cs ∧ (hashReach cs).2 ≤ cs.length := by
  cases cs with
  | nil => exact ⟨TokenStream.hashReach_append (by simp) (by nofun) hrest, Nat.le_refl 0⟩
  | cons c r =>
      have hsymbol := symbolReach_closed hrest (c :: r)
      rw [List.cons_append] at hsymbol ⊢
      by_cases hb : c = '\\'
      · subst hb
        have hr : r ≠ [] := fun hr => h (by rw [hr])
        have hname := charNameLength_closed hrest hr
        simp [hashReach, hr, hname]
      by_cases hp : c = '('
      · simp [hashReach, hp]
      by_cases hq : c = '\''
      · simp [hashReach, hq]
      by_cases hC : c = 'C'
      · simp [hashReach, hC]
      cases hradix : radix? c with
      | none => simpa [hashReach, hb, hp, hq, hC, hradix, hsymbol.1] using hsymbol.2
      | some base =>
          have htake := takeWhile_closed (not_isDigit_closed hrest hradix) r
          have hle := length_takeWhile_le base.2 r
          by_cases hzero : (r.takeWhile base.2).length = 0
          · simpa [hashReach, hb, hp, hq, hC, hradix, htake, hzero, hsymbol.1] using hsymbol.2
          · simp [hashReach, hb, hp, hq, hC, hradix, htake, hzero, hle]

/-- A mark of one character, or a symbol. -/
theorem reach?_other {c : Char} (hstring : c ≠ '"') (hhash : c ≠ '#') (hcomma : c ≠ ',') :
    (∃ kind, ∀ cs, reach? c cs = some (kind, 0)) ∨ ∀ cs, reach? c cs = some (symbolReach cs) := by
  simp only [reach?, beq_iff_eq, hstring, hhash, hcomma, if_false]
  split_ifs
  all_goals first
    | exact .inl ⟨_, fun _ => rfl⟩
    | exact .inr fun _ => rfl

/-- A token in front of what closes it is the one that it is at the end of the text. -/
theorem reach?_closed (hrest : Closes rest) {c : Char} {cs : List Char} {kind : TokenKind} {n : Nat}
    (h : reach? c cs = some (kind, n)) (hchar : ¬ (c = '#' ∧ cs = ['\\'])) :
    reach? c (cs ++ rest) = some (kind, n) ∧ n ≤ cs.length := by
  by_cases hstring : c = '"'
  · subst hstring
    obtain ⟨m, hm, hkind⟩ := Option.map_eq_some_iff.1 h
    obtain ⟨rfl, rfl⟩ := Prod.mk.inj hkind
    obtain ⟨hclose, hle⟩ := closingQuote?_mono hm rest
    exact ⟨congrArg (Option.map _) hclose, hle⟩
  by_cases hhash : c = '#'
  · subst hhash
    obtain ⟨hreach, hle⟩ := hashReach_closed hrest fun hcs => hchar ⟨rfl, hcs⟩
    have hkind : hashReach cs = (kind, n) := Option.some.inj h
    rw [hkind] at hreach hle
    exact ⟨congrArg some hreach, hle⟩
  by_cases hcomma : c = ','
  · subst hcomma
    obtain ⟨rfl, rfl⟩ := Prod.mk.inj (Option.some.inj h)
    cases cs with
    | nil =>
        refine ⟨?_, Nat.le_refl 0⟩
        cases rest with
        | nil => rfl
        | cons d rest =>
            have hd : d ≠ '@' := hrest.ne (by decide)
            simp [reach?, hd]
    | cons d cs =>
        refine ⟨rfl, ?_⟩
        split <;> simp
  rcases reach?_other hstring hhash hcomma with ⟨mark, hmark⟩ | hsymbol
  · obtain ⟨rfl, rfl⟩ := Prod.mk.inj (Option.some.inj ((hmark cs).symm.trans h))
    exact ⟨hmark _, Nat.zero_le _⟩
  · obtain ⟨hreach, hle⟩ := symbolReach_closed hrest cs
    obtain ⟨rfl, rfl⟩ := Prod.mk.inj (Option.some.inj ((hsymbol cs).symm.trans h))
    exact ⟨(hsymbol _).trans (congrArg some hreach), hle⟩

end Token

namespace TokenStream

/-! ## Scanning up to a newline and on -/

/-- The only token that a newline behind it would change. -/
def openChar : Token := ⟨.symbol, ['#', '\\']⟩

/-- Where the scan comes to the end of a text, it passes in the same way up to a newline, behind
which it starts anew. -/
def Resumes (bs : List Char) (passing : Passing) (position : Nat) (cs : List Char) : Prop :=
  (scan passing position cs).fault = none → openChar ∉ (scan passing position cs).tokens.getLast? →
    scan passing position (cs ++ '\n' :: bs) =
      prepend (scan passing position cs).tokens (scan (.token 0) (position + cs.length + 1) bs)

/-- What the scan does with the first characters, it does whatever follows. -/
theorem Resumes.step {bs : List Char} {passing passing' : Passing} {position : Nat}
    {cs : List Char} (first : List Char) (ts : List Token)
    (h : ∀ rest ∈ [cs, cs ++ '\n' :: bs], scan passing position (first ++ rest) =
      prepend ts (scan passing' (position + first.length) rest))
    (hcs : Resumes bs passing' (position + first.length) cs) :
    Resumes bs passing position (first ++ cs) := by
  intro hfault hlast
  have hfirst := h cs (by simp)
  rw [hfirst] at hfault hlast ⊢
  have hlast' : openChar ∉ (scan passing' (position + first.length) cs).tokens.getLast? := by
    intro hmem
    refine hlast ?_
    rw [prepend, List.getLast?_append, Option.mem_def.1 hmem]
    rfl
  rw [List.append_assoc, h _ (by simp), hcs hfault hlast', ← prepend_append]
  congr 2
  rw [List.length_append]
  omega

theorem scan_line (position : Nat) (c : Char) (cs : List Char) :
    scan .line position (c :: cs) =
      scan (if c == '\n' then .token 0 else .line) (position + 1) cs := by
  rw [scan]

theorem scan_semicolon (position : Nat) (cs : List Char) :
    scan (.token 0) position (';' :: cs) = scan .line (position + 1) cs := by
  have hblank : isBlank ';' = false := by decide
  rw [scan.eq_def]
  simp [hblank]

def moved (n : Nat) (s : TokenStream) : TokenStream := ⟨s.tokens, s.fault.map (Malformed.moved n)⟩

end TokenStream
end SlotLisp
