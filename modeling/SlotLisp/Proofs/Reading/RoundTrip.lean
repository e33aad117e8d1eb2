import SlotLisp.Proofs.Reading.Datum
import SlotLisp.Proofs.Reading.Lexeme
import SlotLisp.Proofs.Reading.Name
import SlotLisp.Proofs.State.Text
import Mathlib.Tactic.Choose

/-!
Data written as source are read back as they were, one after the other. A symbol is written as its
name stands, so only names that are no other token and no number can be read back.
-/

namespace SlotLisp

structure IsName (name : List Char) : Prop where
  ne_nil : name ≠ []
  plain : ∀ c ∈ name, isBlank c = false ∧ c ∉ ['(', ')', '\x7b', '\x7d', '\'', '"', ',', ';']
  not_reserved : ¬ Reserved name
  not_dot : name ≠ ['.']
  not_nil_word : name.map Char.toLower ≠ ['n', 'i', 'l']
  not_integer : ¬ Decimal.IsInteger name
  not_float : ¬ Decimal.IsFloat name

namespace Value

def IsKey (k : Value) : Prop :=
  k = .nil ∨ (∃ s, k = .symbol s) ∨ (∃ n, k = .int n) ∨ ∃ t, k = .str t

/-- Data that are read back from their source text. -/
inductive Readable : Value → Prop
  | nil : Readable .nil
  | int {n : Int} (h : (Nat.toDigits 10 n.natAbs).length ≤ 4300) : Readable (.int n)
  | str {codes : List Nat} (h : ∀ n ∈ codes, n < 0x10000 ∧ ¬ (0xd800 ≤ n ∧ n ≤ 0xdfff)) :
      Readable (.str ⟨codes⟩)
  | symbol {s : Symbol} (h : IsName s.name.toList) : Readable (.symbol s)
  | list {xs : List Value} (h : ∀ x ∈ xs, Readable x) : Readable (.list xs)
  | vector {xs : List Value} (h : ∀ x ∈ xs, Readable x) : Readable (.vector xs)
  | dotted {xs : List Value} {t : Value} (h : ∀ x ∈ xs, Readable x) (ht : Readable t) :
      Readable (.dotted xs t)
  | map {es : List (Value × Value)} (hkey : ∀ e ∈ es, IsKey e.1)
      (hdistinct : (es.map Prod.fst).Nodup)
      (hk : ∀ e ∈ es, Readable e.1) (hv : ∀ e ∈ es, Readable e.2) : Readable (.map es)

/-! ## Keys -/

theorem IsKey.hashable {k : Value} (h : IsKey k) : k.hashable = true := by
  rcases h with rfl | ⟨s, rfl⟩ | ⟨n, rfl⟩ | ⟨t, rfl⟩ <;> rfl

/-- Keys that count as the same are the same. -/
theorem IsKey.eq_of_sameKey {k j : Value} (hk : IsKey k) (hj : IsKey j) (h : sameKey k j = true) :
    k = j := by
  rcases hk with rfl | ⟨s, rfl⟩ | ⟨n, rfl⟩ | ⟨t, rfl⟩ <;>
    rcases hj with rfl | ⟨s', rfl⟩ | ⟨n', rfl⟩ | ⟨t', rfl⟩ <;>
    simp_all [sameKey, sameMark, equalBy, number?, Number.equal]

theorem pairwise_of_nodup {es : List (Value × Value)} (hkey : ∀ e ∈ es, IsKey e.1)
    (h : (es.map Prod.fst).Nodup) : es.Pairwise fun d e => sameKey e.1 d.1 = false := by
  rw [List.Nodup, List.pairwise_map] at h
  refine h.imp_of_mem fun {d e} hd he hne => ?_
  rw [Bool.eq_false_iff]
  exact fun hsame => hne ((hkey e he).eq_of_sameKey (hkey d hd) hsame).symm

/-! ## Texts -/

/-- Nothing in a readable datum is without a text. -/
theorem Readable.textFault? {v : Value} (h : Readable v) (refs inner : Ref → Option Fault) :
    v.textFault? refs inner = none := by
  induction h with
  | nil => rfl
  | int h => exact textFault?_int.2 (fitsDigits_iff.2 h)
  | str _ => rfl
  | symbol _ => rfl
  | list _ ih => exact textFault?_list.2 ih
  | vector _ ih => exact textFault?_vector.2 ih
  | dotted _ _ ih iht => exact textFault?_dotted.2 ⟨ih, iht⟩
  | map _ _ _ _ ihk ihv => exact textFault?_map.2 fun e he => ⟨ihk e he, ihv e he⟩

/-! ## Written and read -/

/-- The text `cs` is read as `v` in front of whatever closes it, and in whatever form is open. -/
def Prints (cs : List Char) (v : Value) : Prop :=
  ∃ ts, TokenStream.Scans cs ts ∧ Form.Reads ts v

theorem prints_name {name : List Char} {v : Value} (hne : name ≠ [])
    (hplain : ∀ c ∈ name, Token.isSymbolChar c = true) (hres : ¬ Reserved name)
    (hdot : name ≠ ['.']) (h : Form.ofName name = .ok v) : Prints name v :=
  ⟨_, TokenStream.scans_symbol hne hplain hres, Form.reads_name hdot h⟩

theorem prints_symbol {s : Symbol} (h : IsName s.name.toList) :
    Prints s.name.toList (.symbol s) := by
  have hplain : ∀ c ∈ s.name.toList, Token.isSymbolChar c = true := by
    intro c hc
    obtain ⟨hb, hd⟩ := h.plain c hc
    simp only [List.mem_cons, not_or] at hd
    simp [Token.isSymbolChar, Token.isDelimiter, hb, hd]
  exact prints_name h.ne_nil hplain h.not_reserved h.not_dot
    (Form.ofName_symbol h.not_nil_word h.not_integer h.not_float)

/-- The text of an integer is digits, with a sign in front of them or not. -/
theorem intText_toList (n : Int) :
    (intText n).toList = Nat.toDigits 10 n.natAbs ∨
      (intText n).toList = '-' :: Nat.toDigits 10 n.natAbs := by
  cases n with
  | ofNat k => exact .inl (String.toList_ofList)
  | negSucc k => exact .inr (String.toList_ofList)

theorem prints_int {n : Int} (h : fitsDigits n = true) : Prints (intText n).toList (.int n) := by
  obtain ⟨hne, hd⟩ := Decimal.isDigits_toDigits n.natAbs
  have hchar : ∀ c ∈ (intText n).toList, c = '-' ∨ c.isDigit = true := by
    intro c hc
    rcases intText_toList n with ht | ht <;> rw [ht] at hc
    · exact .inr (hd c hc)
    · rw [List.mem_cons] at hc
      exact hc.imp_right (hd c)
  have hplain : ∀ c ∈ (intText n).toList, Token.isSymbolChar c = true := by
    intro c hc
    rcases hchar c hc with rfl | hdigit
    · decide
    · refine TokenStream.isSymbolChar_of_isHexDigit ?_
      rw [Token.isHexDigit, hexValue?, if_pos hdigit]
      rfl
  have hnot : ∀ c : Char, c ≠ '-' → c.isDigit = false → c ∉ (intText n).toList := by
    intro c hc hcd hmem
    rcases hchar c hmem with h | h
    · exact hc h
    · rw [hcd] at h
      exact absurd h (by decide)
  refine prints_name ?_ hplain (fun hres => ?_) (fun hdot => ?_) (Form.ofName_intText h)
  · rcases intText_toList n with ht | ht <;> rw [ht]
    · exact hne
    · exact List.cons_ne_nil _ _
  · rcases hres.head with hmem | hmem
    · exact hnot _ (by decide) (by decide) hmem
    · exact hnot _ (by decide) (by decide) hmem
  · exact hnot '.' (by decide) (by decide) (by rw [hdot]; simp)

theorem prints_string {codes : List Nat} (h : ∀ n ∈ codes, n < 0x10000) :
    Prints (quoted ⟨codes⟩).toList (.str ⟨codes⟩) := by
  rw [quoted, String.toList_ofList]
  exact ⟨_, TokenStream.scans_encode h, Form.reads_string (Form.ofStringLiteral_encode h)⟩

section Containers

variable {refs : Ref → String} {xs : List Value}

def spaced (texts : List String) : List Char := [' '].intercalate (texts.map String.toList)

theorem toList_intercalate_space (texts : List String) :
    (" ".intercalate texts).toList = spaced texts := by
  rw [String.toList_intercalate]
  rfl

theorem exists_tokens (h : ∀ x ∈ xs, Prints (x.write refs .source).toList x) :
    ∃ tokens : Value → List Token,
      TokenStream.Scans (spaced (xs.map (write refs .source))) (xs.flatMap tokens) ∧
        ∀ x ∈ xs, Form.Reads (tokens x) x := by
  choose! tokens hscan hread using h
  refine ⟨tokens, ?_, hread⟩
  rw [spaced, List.map_map]
  exact TokenStream.Scans.intercalate hscan

theorem prints_list (h : ∀ x ∈ xs, Prints (x.write refs .source).toList x) :
    Prints ((Value.list xs).write refs .source).toList (.list xs) := by
  obtain ⟨tokens, hscan, hread⟩ := exists_tokens h
  have htext : ((Value.list xs).write refs .source).toList =
      '(' :: (spaced (xs.map (write refs .source)) ++ [')']) := by
    simp only [write_list, listText, Style.inner, String.toList_append, toList_intercalate_space]
    simp
  rw [htext]
  exact ⟨_, hscan.rightParen.leftParen, Form.Reads.list hread⟩

theorem prints_vector (h : ∀ x ∈ xs, Prints (x.write refs .source).toList x) :
    Prints ((Value.vector xs).write refs .source).toList (.vector xs) := by
  obtain ⟨tokens, hscan, hread⟩ := exists_tokens h
  have htext : ((Value.vector xs).write refs .source).toList =
      '#' :: '(' :: (spaced (xs.map (write refs .source)) ++ [')']) := by
    simp only [write_vector, vectorText, Style.inner, String.toList_append,
      toList_intercalate_space]
    simp
  rw [htext]
  exact ⟨_, hscan.rightParen.vectorParen, Form.Reads.vector hread⟩

theorem prints_dotted {t : Value} (h : ∀ x ∈ xs, Prints (x.write refs .source).toList x)
    (ht : Prints (t.write refs .source).toList t) :
    Prints ((Value.dotted xs t).write refs .source).toList (.dotted xs t) := by
  obtain ⟨tokens, hscan, hread⟩ := exists_tokens h
  obtain ⟨ts, htscan, htread⟩ := ht
  have hdot : TokenStream.Scans ['.'] [⟨.symbol, ['.']⟩] :=
    TokenStream.scans_symbol (by decide) (List.all_eq_true.1 (by decide)) fun h =>
      absurd h.head (by decide)
  have htext : ((Value.dotted xs t).write refs .source).toList =
      '(' :: (spaced (xs.map (write refs .source)) ++
        ' ' :: (['.'] ++ ' ' :: (t.write refs .source).toList) ++ [')']) := by
    simp only [write_dotted, dottedText, Style.inner, String.toList_append,
      toList_intercalate_space]
    simp
  rw [htext]
  refine ⟨_, (hscan.join (hdot.join htscan)).rightParen.leftParen, ?_⟩
  have hdotted := Form.Reads.dotted hread htread
  simpa using hdotted

theorem prints_map {es : List (Value × Value)} (hkey : ∀ e ∈ es, IsKey e.1)
    (hdistinct : (es.map Prod.fst).Nodup)
    (hk : ∀ e ∈ es, Prints (e.1.write refs .source).toList e.1)
    (hv : ∀ e ∈ es, Prints (e.2.write refs .source).toList e.2) :
    Prints ((Value.map es).write refs .source).toList (.map es) := by
  have hitems : ∀ x ∈ Form.entryItems es, Prints (x.write refs .source).toList x := by
    intro x hx
    obtain ⟨e, he, hx⟩ := List.mem_flatMap.1 hx
    simp only [List.mem_cons, List.not_mem_nil, or_false] at hx
    rcases hx with rfl | rfl
    · exact hk e he
    · exact hv e he
  choose! tokens hscan hread using hitems
  have hmem : ∀ e ∈ es, e.1 ∈ Form.entryItems es ∧ e.2 ∈ Form.entryItems es := fun e he =>
    ⟨List.mem_flatMap.2 ⟨e, he, by simp⟩, List.mem_flatMap.2 ⟨e, he, by simp⟩⟩
  have hentries := TokenStream.Scans.intercalate fun e he =>
    (hscan e.1 (hmem e he).1).join (hscan e.2 (hmem e he).2)
  have htext : ((Value.map es).write refs .source).toList =
      '\x7b' :: ([' '].intercalate (es.map fun e =>
        (e.1.write refs .source).toList ++ ' ' :: (e.2.write refs .source).toList) ++
          ['\x7d']) := by
    simp only [write_map, mapText, Style.inner, String.toList_append, toList_intercalate_space,
      spaced, List.map_map]
    simp [Function.comp_def]
  have htokens : es.flatMap (fun e => tokens e.1 ++ tokens e.2) =
      (Form.entryItems es).flatMap tokens := by
    simp [Form.entryItems, List.flatMap_assoc]
  rw [htext]
  rw [htokens] at hentries
  exact ⟨_, hentries.rightBrace.leftBrace, Form.Reads.map hread (fun e he => (hkey e he).hashable)
    (pairwise_of_nodup hkey hdistinct)⟩

end Containers

/-- Every readable datum is written as a text that is read as that datum. -/
theorem Readable.prints {v : Value} (h : Readable v) (refs : Ref → String) :
    Prints (v.write refs .source).toList v := by
  induction h with
  | nil =>
      have htext : (Value.nil.write refs .source).toList = ['n', 'i', 'l'] := String.toList_ofList
      rw [htext]
      exact prints_name (by decide) (List.all_eq_true.1 (by decide))
        (fun h => absurd h.head (by decide))
        (by decide) rfl
  | int h => exact prints_int (fitsDigits_iff.2 h)
  | str h => exact prints_string fun n hn => (h n hn).1
  | symbol h => exact prints_symbol h
  | list _ ih => exact prints_list ih
  | vector _ ih => exact prints_vector ih
  | dotted _ _ ih iht => exact prints_dotted ih iht
  | map hkey hdistinct _ _ ihk ihv => exact prints_map hkey hdistinct ihk ihv

end Value

/-- The source texts of readable data, in one text with blanks between them, are read as these
data. -/
theorem Form.every_source (s : State) {xs : List Value} (h : ∀ x ∈ xs, x.Readable) :
    (∀ x ∈ xs, s.writable x = true) ∧
      Form.every (" ".intercalate (xs.map s.source)) = .ok xs := by
  refine ⟨fun x hx => State.writable_iff.2 ((h x hx).textFault? _ _), ?_⟩
  obtain ⟨tokens, hscan, hread⟩ :=
    Value.exists_tokens fun x hx => (h x hx).prints (s.refText s.depthBound)
  have hstream : TokenStream.ofString (" ".intercalate (xs.map s.source)) =
      ⟨xs.flatMap tokens, none⟩ := by
    have hall := hscan [] 0 (fun c hc => absurd hc (by simp))
    rw [List.append_nil] at hall
    rw [TokenStream.ofString, Value.toList_intercalate_space]
    exact hall.trans (by simp [TokenStream.scan, TokenStream.prepend, TokenStream.finished])
  rw [Form.every, Form.ofText, hstream, Form.all_flatMap hread]

/-- Two data in one text: a number, and a dotted list that holds a mapping in a vector. -/
theorem Form.every_source_nested :
    Form.every (" ".intercalate ([.int (-7), .dotted [.vector [.map [(.str ⟨[34]⟩, .list [])]]]
        (.symbol ⟨"#k"⟩)].map (default : State).source)) =
      .ok [.int (-7), .dotted [.vector [.map [(.str ⟨[34]⟩, .list [])]]] (.symbol ⟨"#k"⟩)] := by
  have hname : IsName ['#', 'k'] := by
    have hk : ¬ Decimal.InNumber 'k' := by rintro (h | h) <;> exact absurd h (by decide)
    exact {
      ne_nil := by decide
      plain := List.forall_mem_cons.2 ⟨by decide, List.forall_mem_singleton.2 (by decide)⟩
      not_reserved := fun h => absurd h.second (by decide)
      not_dot := by decide
      not_nil_word := by decide
      not_integer := fun h => hk (h.inNumber 'k' (by simp))
      not_float := fun h => hk (h.inNumber 'k' (by simp)) }
  have hint : (Value.int (-7)).Readable := .int (by decide)
  have hempty : (Value.list []).Readable := .list (by simp)
  have hquote : (Value.str ⟨[34]⟩).Readable := .str (by decide)
  have hmap : (Value.map [(.str ⟨[34]⟩, .list [])]).Readable :=
    .map (by simp [Value.IsKey]) (by simp) (by simpa using hquote) (by simpa using hempty)
  have hvector : (Value.vector [.map [(.str ⟨[34]⟩, .list [])]]).Readable :=
    .vector (by simpa using hmap)
  have hdotted : (Value.dotted [.vector [.map [(.str ⟨[34]⟩, .list [])]]]
      (.symbol ⟨"#k"⟩)).Readable :=
    .dotted (by simpa using hvector) (.symbol hname)
  exact (Form.every_source default (by simpa using ⟨hint, hdotted⟩)).2

end SlotLisp
