import SlotLisp.Proofs.Reading.Newline

/-!
What the scan makes of a whole text. Up to where the scan stops, the text is its tokens with gaps
between them, and nothing else: a gap is blanks and comments, in any number. The scan stops at the
end of the text, or where a string or a comment starts that is nowhere closed.

Gaps, strings and nested comments are described here by what they look like, without regard to the
states that the scan goes through.
-/

namespace SlotLisp

/-! ## The pieces of a text -/

/-- What stands behind the mark that opens a comment, up to the one that closes it. Comments in it
are closed in the same way. -/
inductive CommentRest : List Char → Prop
  | close : CommentRest ['|', '#']
  | nested {inner rest : List Char} (hinner : CommentRest inner) (hrest : CommentRest rest) :
      CommentRest ('#' :: '|' :: (inner ++ rest))
  | char {c : Char} {rest : List Char} (hopen : ¬ ['#', '|'] <+: c :: rest)
      (hclose : ¬ ['|', '#'] <+: c :: rest) (hrest : CommentRest rest) : CommentRest (c :: rest)

inductive StringRest : List Char → Prop
  | close : StringRest ['"']
  | escaped (c : Char) {rest : List Char} (hrest : StringRest rest) : StringRest ('\\' :: c :: rest)
  | plain {c : Char} {rest : List Char} (hquote : c ≠ '"') (hbackslash : c ≠ '\\')
      (hrest : StringRest rest) : StringRest (c :: rest)

/-- What may stand between tokens, in front of `rest`. A comment to the end of a line leaves the
newline to what follows it. -/
inductive Gap (rest : List Char) : List Char → Prop
  | nil : Gap rest []
  | blank {c : Char} {gap : List Char} (hc : isBlank c = true) (hgap : Gap rest gap) :
      Gap rest (c :: gap)
  | line {body gap : List Char} (hbody : '\n' ∉ body) (hend : ∀ c ∈ (gap ++ rest).head?, c = '\n')
      (hgap : Gap rest gap) : Gap rest (';' :: (body ++ gap))
  | block {body gap : List Char} (hbody : CommentRest body) (hgap : Gap rest gap) :
      Gap rest ('#' :: '|' :: (body ++ gap))

def Solid (cs : List Char) : Prop :=
  (∀ c ∈ cs.head?, isBlank c = false ∧ c ≠ ';') ∧ ¬ ['#', '|'] <+: cs

/-- The tokens in their order, each where its text stands, with gaps in front, between and
behind. -/
inductive Laid (rest : List Char) : List Token → List Char → Prop
  | gap {gap : List Char} (hgap : Gap rest gap) : Laid rest [] gap
  | token {t : Token} {ts : List Token} {gap cs : List Char}
      (hgap : Gap (t.text ++ (cs ++ rest)) gap)
      (hne : t.text ≠ []) (hsolid : Solid (t.text ++ (cs ++ rest))) (hcs : Laid rest ts cs) :
      Laid rest (t :: ts) (gap ++ (t.text ++ cs))

inductive Stops (place : Nat) : List Char → Option Malformed → Prop
  | finished : Stops place [] none
  | openString {rest : List Char} (hopen : ∀ s, s <+: rest → ¬ StringRest s) :
      Stops place ('"' :: rest) (some (.strayQuote place))
  | openComment {rest : List Char} (hopen : ∀ s, s <+: rest → ¬ CommentRest s) :
      Stops place ('#' :: '|' :: rest) (some .openComment)

/-- A piece that is a gap in front of every gap is one in front of what is laid out. -/
theorem Laid.skip {rest piece cs : List Char} {ts : List Token}
    (hpiece : ∀ after gap, gap ++ after = cs ++ rest → Gap after gap → Gap after (piece ++ gap))
    (h : Laid rest ts cs) : Laid rest ts (piece ++ cs) := by
  cases h with
  | gap hgap => exact .gap (hpiece rest cs rfl hgap)
  | @token t ts gap cs hgap hne hsolid hcs =>
      rw [← List.append_assoc]
      exact .token (hpiece _ gap (by simp only [List.append_assoc]) hgap) hne hsolid hcs

/-! ## Strings -/

namespace Token

/-- The closing quote is found exactly where a string ends. -/
theorem closingQuote?_eq_some {cs : List Char} {n : Nat} (h : closingQuote? cs = some n) :
    StringRest (cs.take n) := by
  induction cs using closingQuote?.induct generalizing n with
  | case1 => exact absurd h (by simp [closingQuote?])
  | case2 c hc =>
      obtain rfl := beq_iff_eq.1 hc
      obtain rfl := Option.some.inj ((closingQuote?_quote []).symm.trans h)
      exact .close
  | case3 c hc => exact absurd h (by simp [closingQuote?, hc])
  | case4 c d r hc =>
      obtain rfl := beq_iff_eq.1 hc
      obtain rfl := Option.some.inj ((closingQuote?_quote (d :: r)).symm.trans h)
      exact .close
  | case5 c d r hc hb ih =>
      rw [closingQuote?, if_neg hc, if_pos hb] at h
      obtain ⟨m, hm, rfl⟩ := Option.map_eq_some_iff.1 h
      obtain rfl := beq_iff_eq.1 hb
      exact .escaped d (ih hm)
  | case6 c d r hc hb ih =>
      rw [closingQuote?, if_neg hc, if_neg hb] at h
      obtain ⟨m, hm, rfl⟩ := Option.map_eq_some_iff.1 h
      exact .plain (by simpa using hc) (by simpa using hb) (ih hm)

theorem closingQuote?_ne_none {s : List Char} (hs : StringRest s) (rest : List Char) :
    closingQuote? (s ++ rest) ≠ none := by
  induction hs with
  | close => rw [List.singleton_append, closingQuote?_quote]; exact Option.some_ne_none 1
  | escaped c hrest ih =>
      rw [List.cons_append, List.cons_append, closingQuote?, if_neg (by decide), if_pos (by decide)]
      simpa using ih
  | @plain c s hquote hbackslash hrest ih =>
      cases hsr : s ++ rest with
      | nil => rw [hsr] at ih; exact absurd rfl ih
      | cons d r =>
          rw [hsr] at ih
          rw [List.cons_append, hsr, closingQuote?, if_neg (by simpa using hquote),
            if_neg (by simpa using hbackslash)]
          simpa using ih

theorem not_stringRest {cs s : List Char} (h : closingQuote? cs = none) (hs : s <+: cs) :
    ¬ StringRest s := by
  obtain ⟨rest, rfl⟩ := hs
  exact fun hstring => closingQuote?_ne_none hstring rest h

/-! ## The reach of a token -/

theorem reach?_le {c : Char} {cs : List Char} {kind : TokenKind} {n : Nat}
    (h : reach? c cs = some (kind, n)) : n ≤ cs.length := by
  by_cases hchar : c = '#' ∧ cs = ['\\']
  · obtain ⟨rfl, rfl⟩ := hchar
    obtain ⟨-, rfl⟩ := Prod.mk.inj (Option.some.inj h)
    exact Nat.le_refl 1
  · exact (reach?_closed TokenStream.closes_nil h hchar).2

/-- Only a double quote can be a character at which no token starts. -/
theorem reach?_eq_none {c : Char} {cs : List Char} (h : reach? c cs = none) :
    c = '"' ∧ closingQuote? cs = none := by
  by_cases hquote : c = '"'
  · subst hquote
    exact ⟨rfl, Option.map_eq_none_iff.1 h⟩
  · have hquote' : (c == '"') = false := by simpa using hquote
    simp only [reach?, hquote', Bool.false_eq_true, if_false] at h
    repeat' split at h
    all_goals exact absurd h (Option.some_ne_none _)

end Token

/-! ## Comments -/

theorem CommentRest.ne_nil {body : List Char} (h : CommentRest body) : body ≠ [] := by
  cases h <;> simp

/-- Whether a mark stands at the front is seen before the end of what is not empty. -/
theorem mark_prefix_append {a b c : Char} {body : List Char} (hbody : body ≠ [])
    (rest : List Char) :
    [a, b] <+: c :: (body ++ rest) ↔ [a, b] <+: c :: body := by
  cases body with
  | nil => exact absurd rfl hbody
  | cons d body => simp [List.cons_prefix_cons]

namespace TokenStream

theorem scan_open (depth position : Nat) (cs : List Char) :
    scan (.block depth) position ('#' :: '|' :: cs) =
      scan (.block (depth + 1)) (position + 2) cs := by
  rw [scan]
  rfl

theorem scan_close (depth position : Nat) (cs : List Char) :
    scan (.block depth) position ('|' :: '#' :: cs) =
      scan (if depth ≤ 1 then .token 0 else .block (depth - 1)) (position + 2) cs := by
  rw [scan]
  rfl

theorem scan_within {c : Char} {cs : List Char} (hopen : ¬ ['#', '|'] <+: c :: cs)
    (hclose : ¬ ['|', '#'] <+: c :: cs) (hcs : cs ≠ []) (depth position : Nat) :
    scan (.block depth) position (c :: cs) = scan (.block depth) (position + 1) cs := by
  cases cs with
  | nil => exact absurd rfl hcs
  | cons d r =>
      have hopen' : ¬ (c = '#' ∧ d = '|') := fun ⟨hc, hd⟩ => hopen (by rw [hc, hd]; exact ⟨r, rfl⟩)
      have hclose' : ¬ (c = '|' ∧ d = '#') :=
        fun ⟨hc, hd⟩ => hclose (by rw [hc, hd]; exact ⟨r, rfl⟩)
      rw [scan.eq_def]
      simp [hopen', hclose']

/-- The scan leaves a comment behind the mark that closes it. -/
theorem scan_comment {body : List Char} (h : CommentRest body) (depth position : Nat)
    (rest : List Char) :
    scan (.block (depth + 1)) position (body ++ rest) =
      scan (if depth = 0 then .token 0 else .block depth) (position + body.length) rest := by
  induction h generalizing depth position rest with
  | close =>
      rw [List.cons_append, List.singleton_append, scan_close]
      have hdepth : depth + 1 ≤ 1 ↔ depth = 0 := by omega
      simp only [hdepth, Nat.add_sub_cancel]
      rfl
  | @nested inner body hinner hbody ihinner ihbody =>
      rw [List.cons_append, List.cons_append, List.append_assoc, scan_open, ihinner,
        if_neg (by omega),
        ihbody]
      congr 1
      simp only [List.length_cons, List.length_append]
      omega
  | @char c body hopen hclose hbody ih =>
      have hne := hbody.ne_nil
      rw [List.cons_append, scan_within (by rwa [mark_prefix_append hne])
        (by rwa [mark_prefix_append hne]) (by simp [hne]), ih]
      congr 1
      rw [List.length_cons]
      omega

/-- The scan does not leave a comment that nothing closes. -/
theorem scan_comment_open {cs : List Char} (h : ∀ s, s <+: cs → ¬ CommentRest s)
    (depth position : Nat) : scan (.block (depth + 1)) position cs = failed .openComment := by
  induction hlength : cs.length using Nat.strong_induction_on generalizing cs depth position with
  | _ n ih =>
      subst hlength
      cases cs with
      | nil => rfl
      | cons c r =>
          by_cases hopen : ['#', '|'] <+: c :: r
          · obtain ⟨rest, hrest⟩ := hopen
            have hrest : '#' :: '|' :: rest = c :: r := hrest
            obtain ⟨rfl, rfl⟩ := List.cons.inj hrest
            rw [scan_open]
            by_cases hinner : ∃ inner, inner <+: rest ∧ CommentRest inner
            · obtain ⟨inner, ⟨rest, rfl⟩, hinner⟩ := hinner
              rw [scan_comment hinner, if_neg (by omega)]
              refine ih rest.length (by simp; omega) (fun s hs hrest => ?_) depth _ rfl
              refine h ('#' :: '|' :: (inner ++ s)) ?_ (.nested hinner hrest)
              simpa [List.cons_prefix_cons] using hs
            · have hlt : rest.length < ('#' :: '|' :: rest).length := by
                rw [List.length_cons, List.length_cons]
                omega
              exact ih rest.length hlt (fun s hs hrest => hinner ⟨s, hs, hrest⟩) (depth + 1) _ rfl
          by_cases hclose : ['|', '#'] <+: c :: r
          · exact absurd .close (h _ hclose)
          by_cases hr : r = []
          · subst hr
            rw [scan]
          · rw [scan_within hopen hclose hr]
            refine ih r.length (by simp) (fun s hs hrest => ?_) depth _ rfl
            refine h (c :: s) (List.cons_prefix_cons.2 ⟨rfl, hs⟩) (.char ?_ ?_ hrest)
            · exact fun hmark => hopen (hmark.trans (List.cons_prefix_cons.2 ⟨rfl, hs⟩))
            · exact fun hmark => hclose (hmark.trans (List.cons_prefix_cons.2 ⟨rfl, hs⟩))

/-- A comment to the end of a line ends in front of the newline. -/
theorem scan_line_body {body rest : List Char} (hbody : '\n' ∉ body)
    (hrest : ∀ c ∈ rest.head?, c = '\n') (position : Nat) :
    scan .line position (body ++ rest) = scan (.token 0) (position + body.length) rest := by
  induction body generalizing position with
  | nil =>
      cases rest with
      | nil => rfl
      | cons c rest =>
          obtain rfl := hrest c rfl
          rw [List.nil_append, scan_line, scan_blank (by decide)]
          rfl
  | cons c body ih =>
      have hc : c ≠ '\n' := fun hc => hbody (by simp [hc])
      rw [List.cons_append, scan_line, if_neg (by simpa using hc),
        ih fun hmem => hbody (List.mem_cons_of_mem c hmem)]
      congr 1
      rw [List.length_cons]
      omega

/-! ## The whole text -/

/-- The text `cs`, standing at `position`, is laid out as its stream of tokens says. -/
def Describes (position : Nat) (cs : List Char) (stream : TokenStream) : Prop :=
  ∃ consumed rest, cs = consumed ++ rest ∧ Laid rest stream.tokens consumed ∧
    Stops (position + consumed.length) rest stream.fault

/-- A piece that is a gap in front of every gap is one in front of the text. -/
theorem Describes.skip {position : Nat} {cs : List Char} {stream : TokenStream} (piece : List Char)
    (hpiece : ∀ rest gap, gap ++ rest = cs → Gap rest gap → Gap rest (piece ++ gap))
    (h : Describes (position + piece.length) cs stream) :
    Describes position (piece ++ cs) stream := by
  obtain ⟨consumed, rest, rfl, hlaid, hstops⟩ := h
  have hplace : position + piece.length + consumed.length =
      position + (piece ++ consumed).length := by
    rw [List.length_append, Nat.add_assoc]
  exact ⟨piece ++ consumed, rest, (List.append_assoc ..).symm, hlaid.skip hpiece, hplace ▸ hstops⟩

/-- A token in front of what is laid out. -/
theorem Describes.cons {position : Nat} {cs : List Char} {stream : TokenStream} {t : Token}
    (hne : t.text ≠ []) (hsolid : Solid (t.text ++ cs))
    (h : Describes (position + t.text.length) cs stream) :
    Describes position (t.text ++ cs) (cons t stream) := by
  obtain ⟨consumed, rest, rfl, hlaid, hstops⟩ := h
  have hplace : position + t.text.length + consumed.length =
      position + (t.text ++ consumed).length := by
    rw [List.length_append, Nat.add_assoc]
  exact ⟨t.text ++ consumed, rest, (List.append_assoc ..).symm, .token .nil hne hsolid hlaid,
    hplace ▸ hstops⟩

theorem describes_stop {position : Nat} {cs : List Char} {fault : Option Malformed}
    (h : Stops position cs fault) : Describes position cs ⟨[], fault⟩ :=
  ⟨[], cs, rfl, .gap .nil, h⟩

/-- A number sign and a bar open a comment, which is closed somewhere or nowhere. -/
theorem describes_comment {position : Nat} {cs : List Char}
    (ih : ∀ rest, rest.length < cs.length →
      ∀ place, Describes place rest (scan (.token 0) place rest)) :
    Describes position ('#' :: '|' :: cs) (scan (.token 0) position ('#' :: '|' :: cs)) := by
  have hscan : scan (.token 0) position ('#' :: '|' :: cs) =
    scan (.block 1) (position + 2) cs := rfl
  rw [hscan]
  by_cases hbody : ∃ body, body <+: cs ∧ CommentRest body
  · obtain ⟨body, ⟨cs, rfl⟩, hbody⟩ := hbody
    have hlength := List.length_pos_iff.2 hbody.ne_nil
    rw [scan_comment hbody, if_pos rfl]
    refine Describes.skip ('#' :: '|' :: body) (fun rest gap _ hgap => .block hbody hgap) ?_
    have hplace : position + ('#' :: '|' :: body).length = position + 2 + body.length := by
      rw [List.length_cons, List.length_cons]
      omega
    rw [hplace]
    exact ih cs (by rw [List.length_append]; omega) _
  · have hopen : ∀ s, s <+: cs → ¬ CommentRest s := fun s hs hrest => hbody ⟨s, hs, hrest⟩
    rw [scan_comment_open hopen]
    exact describes_stop (.openComment hopen)

theorem describes_line {position : Nat} {cs : List Char}
    (ih : ∀ rest, rest.length ≤ cs.length →
      ∀ place, Describes place rest (scan (.token 0) place rest)) :
    Describes position (';' :: cs) (scan (.token 0) position (';' :: cs)) := by
  obtain ⟨body, rest, rfl, hbody, hend⟩ : ∃ body rest, cs = body ++ rest ∧ '\n' ∉ body ∧
      ∀ c ∈ rest.head?, c = '\n' := by
    refine ⟨cs.takeWhile (· != '\n'), cs.dropWhile (· != '\n'),
      (List.takeWhile_append_dropWhile).symm,
      fun hmem => ?_, fun c hc => ?_⟩
    · exact absurd (List.all_eq_true.1 List.all_takeWhile '\n' hmem) (by decide)
    · have hhead := List.head?_dropWhile_not (· != '\n') cs
      rw [Option.mem_def.1 hc] at hhead
      simpa using hhead
  rw [scan_semicolon, scan_line_body hbody hend]
  refine Describes.skip (';' :: body) (fun after gap hafter hgap => ?_) ?_
  · exact .line hbody (hafter.symm ▸ hend) hgap
  · have hplace : position + (';' :: body).length = position + 1 + body.length := by
      rw [List.length_cons]
      omega
    rw [hplace]
    exact ih rest (by simp) _

theorem describes_scan (position : Nat) (cs : List Char) :
    Describes position cs (scan (.token 0) position cs) := by
  induction hlength : cs.length using Nat.strong_induction_on generalizing cs position with
  | _ n ih =>
      subst hlength
      have ih' : ∀ rest, rest.length < cs.length → ∀ place,
          Describes place rest (scan (.token 0) place rest) :=
        fun rest hrest place => ih rest.length hrest place rest rfl
      cases cs with
      | nil => exact describes_stop .finished
      | cons c r =>
          by_cases hblank : isBlank c = true
          · rw [scan_blank hblank]
            exact Describes.skip [c] (fun rest gap _ hgap => .blank hblank hgap)
              (ih' r (by simp) _)
          by_cases hline : c = ';'
          · subst hline
            exact describes_line fun rest hrest => ih' rest (by rw [List.length_cons]; omega)
          by_cases hcomment : c = '#' ∧ r.head? = some '|'
          · obtain ⟨rfl, hbar⟩ := hcomment
            obtain ⟨r, rfl⟩ := List.head?_eq_some_iff.1 hbar
            exact describes_comment fun rest hrest =>
              ih' rest (by simp only [List.length_cons]; omega)
          cases hreach : Token.reach? c r with
          | none =>
              obtain ⟨rfl, hopen⟩ := Token.reach?_eq_none hreach
              have hscan : scan (.token 0) position ('"' :: r) = failed (.strayQuote position) := by
                rw [scan.eq_def]
                simp [hblank, hreach]
              rw [hscan]
              exact describes_stop (.openString fun s hs => Token.not_stringRest hopen hs)
          | some found =>
              obtain ⟨kind, n⟩ := found
              have hn := Token.reach?_le hreach
              have hlength : (r.take n).length = n := by rw [List.length_take]; omega
              have hscan := scan_token (r.take n) (r.drop n) (position + 1)
              rw [List.take_append_drop, hlength] at hscan
              have htext : c :: r = (c :: r.take n) ++ r.drop n := by
                rw [List.cons_append, List.take_append_drop]
              rw [scan_reach position (by simpa using hblank) hline hcomment hreach, hscan, htext]
              refine Describes.cons (t := ⟨kind, c :: r.take n⟩) (by simp) ?_ ?_
              · rw [← htext]
                refine ⟨fun d hd => ?_, fun hmark => hcomment ?_⟩
                · obtain rfl := Option.mem_some_iff.1 hd
                  exact ⟨by simpa using hblank, hline⟩
                · obtain ⟨rest, hrest⟩ := hmark
                  obtain ⟨rfl, rfl⟩ := List.cons.inj hrest.symm
                  exact ⟨rfl, rfl⟩
              · have hplace : position + (c :: r.take n).length = position + 1 + n := by
                  rw [List.length_cons, hlength]
                  omega
                rw [hplace]
                exact ih' (r.drop n) (by simp only [List.length_drop, List.length_cons]; omega) _

/-- Nothing of a text is lost. Up to the end, or to a string or a comment that is nowhere closed, it
is its tokens with gaps between them, and there is nothing else at which the scan stops. -/
theorem ofString_layout (source : String) :
    ∃ consumed rest, source.toList = consumed ++ rest ∧
      Laid rest (ofString source).tokens consumed ∧
      Stops consumed.length rest (ofString source).fault := by
  obtain ⟨consumed, rest, hsource, hlaid, hstops⟩ := describes_scan 0 source.toList
  rw [Nat.zero_add] at hstops
  exact ⟨consumed, rest, hsource, hlaid, hstops⟩

end TokenStream
end SlotLisp
