import Mathlib.Data.List.TakeWhile
import SlotLisp.Proofs.Reading.Literals

/-!
The tokens of a text, written one after the other with a single blank between them. What stood
between them before, be it comments, blanks or nothing at all, tells nothing that their texts do not
tell.

A token is decided with what follows it in place, so its text is first cut off from that, and then
put in front of the blank.
-/

namespace SlotLisp

namespace Token

/-! ## A token cut off from what follows it -/

theorem closingQuote?_length {cs : List Char} (h : StringRest cs) :
    closingQuote? cs = some cs.length := by
  induction h with
  | close => rfl
  | escaped c hrest ih =>
      rw [closingQuote?, if_neg (by decide), if_pos (by decide), ih]
      rfl
  | @plain c cs hquote hbackslash hrest ih =>
      cases cs with
      | nil => cases hrest
      | cons d cs =>
          rw [closingQuote?, if_neg (by simpa using hquote), if_neg (by simpa using hbackslash), ih]
          rfl

theorem takeWhile_cut {p : Char → Bool} {cs after : List Char}
    (h : ((cs ++ after).takeWhile p).length = cs.length) : cs.takeWhile p = cs :=
  List.takeWhile_eq_self_iff.2 (takeWhile_of_length h).1

theorem symbolReach_cut {kind : TokenKind} {cs after : List Char}
    (h : symbolReach (cs ++ after) = (kind, cs.length)) : symbolReach cs = (kind, cs.length) := by
  obtain ⟨rfl, hlength⟩ := Prod.mk.inj h
  rw [symbolReach, takeWhile_cut hlength]

theorem charNameLength_cut {name after : List Char}
    (h : charNameLength (name ++ after) = name.length) : charNameLength name = name.length := by
  rcases charNameLength_cases (name ++ after) with ⟨n, hn, hfront, hlength⟩ | hone
  · rw [List.prefix_iff_eq_take, ← hlength, h, List.take_left] at hfront
    rw [← hfront]
    exact charNameLength_of_name hn List.prefix_rfl
  · rcases charNameLength_cases name with ⟨n, hn, hfront, hlength⟩ | hone'
    · -- no name of a character is a single character
      have hlong : ∀ n ∈ charNames, 1 < n.1.length := by decide
      have hle := hfront.length_le
      have hn := hlong n hn
      omega
    · omega

theorem hashReach_cut {kind : TokenKind} {cs after : List Char}
    (h : hashReach (cs ++ after) = (kind, cs.length)) : hashReach cs = (kind, cs.length) := by
  cases cs with
  | nil =>
      -- whatever a number sign starts but a symbol takes at least one more character
      rcases hashReach_cases after with ⟨r, -, hc⟩ | ⟨_, r, _, _, -, -, -, hc⟩ | hc | hc
      · exact absurd (Prod.mk.inj (h.symm.trans hc)).2 (by simp)
      · exact absurd (Prod.mk.inj (h.symm.trans hc)).2 (by simp)
      · have hsymbol : symbolReach ([] ++ after) = (kind, ([] : List Char).length) :=
          hc.symm.trans h
        exact symbolReach_cut hsymbol
      · rw [List.nil_append] at h
        rw [h] at hc
        exact absurd hc (by simp)
  | cons c r =>
      by_cases hb : c = '\\'
      · subst hb
        by_cases hr : r ++ after = []
        · obtain ⟨rfl, rfl⟩ := List.append_eq_nil_iff.1 hr
          exact h
        · obtain ⟨rfl, hlength⟩ : TokenKind.char = kind ∧
              charNameLength (r ++ after) = r.length := by
            simpa [hashReach, hr] using h
          have hname := charNameLength_cut hlength
          have hne : r ≠ [] := by
            rintro rfl
            exact absurd hname (by decide)
          simp [hashReach, hne, hname]
      by_cases hp : c = '('
      · rw [← h]
        simp [hashReach, hp]
      by_cases hq : c = '\''
      · rw [← h]
        simp [hashReach, hq]
      by_cases hC : c = 'C'
      · rw [← h]
        simp [hashReach, hC]
      cases hradix : radix? c with
      | none =>
          have hsymbol : symbolReach (c :: r ++ after) = (kind, (c :: r).length) := by
            simpa [hashReach, hb, hp, hq, hC, hradix] using h
          simpa [hashReach, hb, hp, hq, hC, hradix] using symbolReach_cut hsymbol
      | some base =>
          by_cases hzero : ((r ++ after).takeWhile base.2).length = 0
          · have hsymbol : symbolReach (c :: r ++ after) = (kind, (c :: r).length) := by
              simpa [hashReach, hb, hp, hq, hC, hradix, hzero] using h
            have hnone : (r.takeWhile base.2).length = 0 := by
              rw [List.takeWhile_append] at hzero
              split at hzero
              · rw [List.length_append] at hzero
                omega
              · exact hzero
            simpa [hashReach, hb, hp, hq, hC, hradix, hnone] using symbolReach_cut hsymbol
          · obtain ⟨rfl, hlength⟩ : TokenKind.radix = kind ∧
                ((r ++ after).takeWhile base.2).length = r.length := by
              simpa [hashReach, hb, hp, hq, hC, hradix, hzero] using h
            rw [hlength] at hzero
            simp [hashReach, hb, hp, hq, hC, hradix, takeWhile_cut hlength, hzero]

/-- A token is the same with nothing behind it. -/
theorem Leads.cut {t : Token} {after : List Char} (h : t.Leads after) : t.Leads [] := by
  obtain ⟨c, cs, htext, h⟩ := h
  refine ⟨c, cs, htext, ?_⟩
  rw [List.append_nil]
  by_cases hstring : c = '"'
  · subst hstring
    obtain ⟨n, hn, hkind⟩ := Option.map_eq_some_iff.1 h
    obtain ⟨hkind, rfl⟩ := Prod.mk.inj hkind
    have hrest := closingQuote?_eq_some hn
    rw [List.take_left] at hrest
    rw [← hkind]
    exact congrArg (Option.map _) (closingQuote?_length hrest)
  by_cases hhash : c = '#'
  · subst hhash
    exact congrArg some (hashReach_cut (Option.some.inj h))
  by_cases hcomma : c = ','
  · subst hcomma
    cases cs with
    | nil =>
        obtain ⟨hkind, -⟩ := Prod.mk.inj (Option.some.inj h)
        rw [← hkind]
        rfl
    | cons d cs => exact h
  rcases reach?_other hstring hhash hcomma with ⟨mark, hmark⟩ | hsymbol
  · rw [hmark] at h ⊢
    exact h
  · rw [hsymbol] at h ⊢
    exact congrArg some (symbolReach_cut (Option.some.inj h))

end Token

namespace TokenStream

/-! ## Tokens with a blank between them -/

/-- A token by itself, in front of whatever closes it. -/
theorem scans_of_leads {t : Token} {after : List Char} (hsolid : Solid (t.text ++ after))
    (h : t.Leads after) (ht : t ≠ openChar) : Scans t.text [t] := by
  obtain ⟨c, cs, htext, hreach⟩ := h.cut
  obtain ⟨kind, text⟩ := t
  obtain rfl : text = c :: cs := htext
  rw [List.append_nil] at hreach
  obtain ⟨hhead, hmark⟩ := hsolid
  obtain ⟨hblank, hsemi⟩ := hhead c rfl
  refine scans_of_reach hblank hsemi (fun rest hrest => ?_) fun rest hrest => ?_
  · rintro ⟨rfl, hbar⟩
    cases cs with
    | nil =>
        obtain ⟨r, rfl⟩ := List.head?_eq_some_iff.1 hbar
        exact hrest.ne (by decide) rfl
    | cons d cs =>
        obtain rfl : d = '|' := Option.some.inj hbar
        exact hmark ⟨cs ++ after, rfl⟩
  · refine (Token.reach?_closed hrest hreach ?_).1
    rintro ⟨rfl, rfl⟩
    obtain rfl : TokenKind.symbol = kind := (Prod.mk.inj (Option.some.inj hreach)).1
    exact ht rfl

/-- A number sign with a backslash is a token only at the very end of a text. -/
theorem openChar_last {after : List Char} (h : openChar.Leads after) : after = [] := by
  obtain ⟨c, cs, htext, hreach⟩ := h
  obtain ⟨rfl, rfl⟩ := List.cons.inj htext
  cases after with
  | nil => rfl
  | cons d after =>
      have hkind : TokenKind.char = .symbol := (Prod.mk.inj (Option.some.inj hreach)).1
      exact absurd hkind (by decide)

def spaced (ts : List Token) : List Char := [' '].intercalate (ts.map Token.text)

theorem scan_spaced {ts : List Token} {rest cs : List Char} (hlaid : Laid rest ts cs)
    {position : Nat} {fault : Option Malformed}
    (h : scan (.token 0) position (cs ++ rest) = ⟨ts, fault⟩) (place : Nat) :
    scan (.token 0) place (spaced ts) = ⟨ts, none⟩ := by
  induction ts generalizing cs position place with
  | nil => rfl
  | cons t us ih =>
      cases hlaid with
      | @token _ _ gap cs hgap hne hsolid hcs =>
          rw [List.append_assoc, List.append_assoc, scan_gap hgap] at h
          obtain ⟨after, htext, hleads, hscan⟩ := scan_solid hsolid h
          obtain rfl := List.append_cancel_left htext
          have hus := ih hcs hscan
          by_cases ht : t = openChar
          · subst ht
            rw [openChar_last hleads] at hscan
            obtain rfl : [] = us := (TokenStream.mk.inj hscan).1
            rfl
          have ht := scans_of_leads hsolid hleads ht
          cases us with
          | nil =>
              have hend := ht [] place closes_nil
              rw [List.append_nil] at hend
              rw [spaced, List.map_singleton, List.intercalate_singleton, hend]
              rfl
          | cons u us =>
              have hblank : isBlank ' ' = true := by decide
              have htext : spaced (t :: u :: us) = t.text ++ ' ' :: spaced (u :: us) := by
                simp [spaced]
              rw [htext, ht _ _ (closes_blank hblank _), scan_blank hblank, hus]
              rfl

/-- What stands between tokens tells nothing. Whatever a text is, the texts of its tokens with
single blanks between them make the same tokens again, each of its kind, and no fault. -/
theorem ofString_spaced (source : String) :
    ofString (" ".intercalate ((ofString source).tokens.map fun t => String.ofList t.text)) =
      ⟨(ofString source).tokens, none⟩ := by
  obtain ⟨cs, rest, hsource, hlaid, -⟩ := ofString_layout source
  have hscan : scan (.token 0) 0 (cs ++ rest) =
      ⟨(ofString source).tokens, (ofString source).fault⟩ := by
    rw [← hsource]
    rfl
  have htext :
    (" ".intercalate ((ofString source).tokens.map fun t => String.ofList t.text)).toList =
      spaced (ofString source).tokens := by
    rw [String.toList_intercalate, List.map_map, spaced]
    congr 2
    funext t
    exact String.toList_ofList
  rw [ofString, htext]
  exact scan_spaced hlaid hscan 0

end TokenStream
end SlotLisp
