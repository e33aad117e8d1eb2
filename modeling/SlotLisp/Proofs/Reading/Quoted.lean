import SlotLisp.Form.Atom
import SlotLisp.Text.Quoted
import Mathlib.Tactic.Ring

/-!
Strings written as source and read back. The writer escapes by the rules of one notation and the
reader undoes escapes by those of another; on the first 65536 code points the two meet.
-/

namespace SlotLisp

/-! ## Digits -/

/-- Reading digits of fixed width goes on from the number that has been read before them. -/
theorem foldlM_hexDigits (width n acc : Nat) :
    (hexDigits width n).foldlM (fun n c => (hexValue? c).map (16 * n + ·)) acc =
      some (acc * 16 ^ width + n % 16 ^ width) := by
  induction width generalizing acc with
  | zero => simp [hexDigits, Nat.mod_one]
  | succ width ih =>
      have hd : hexValue? (hexDigit (n / Nat.pow 16 width % 16)) =
          some (n / 16 ^ width % 16) :=
        hexValue?_hexDigit (Nat.mod_lt _ (by omega))
      rw [hexDigits, List.foldlM_cons, hd]
      simp only [Option.map_some, Option.bind_eq_bind, Option.bind_some]
      rw [ih, Nat.pow_succ, Nat.mod_mul]
      congr 1
      ring

theorem hexNumber?_hexDigits {n : Nat} (h : n < 0x10000) :
    hexNumber? (hexDigits 4 n) = some n := by
  rw [hexNumber?, foldlM_hexDigits, Nat.mod_eq_of_lt (by omega)]
  simp

namespace Quoted

/-- What a scan for the closing quote passes over one by one, and a literal may hold. -/
def IsPlain (c : Char) : Prop := c ≠ '"' ∧ c ≠ '\\' ∧ c ≠ '\x00'

theorem isPlain_hexDigits {width n : Nat} : ∀ c ∈ hexDigits width n, IsPlain c := by
  have hd : ∀ n, n < 16 → hexDigit n ≠ '"' ∧ hexDigit n ≠ '\\' ∧ hexDigit n ≠ '\x00' := by decide
  induction width with
  | zero => simp [hexDigits]
  | succ width ih =>
      intro c hc
      rw [hexDigits, List.mem_cons] at hc
      rcases hc with rfl | hc
      · exact hd _ (Nat.mod_lt _ (by omega))
      · exact ih c hc

/-! ## The three ways of writing a code point -/

theorem toNat_ofNat {n : Nat} (h : 0x20 ≤ n ∧ n ≤ 0x7e) : (Char.ofNat n).toNat = n := by
  have hv : n.isValidChar := Or.inl (by omega)
  have hchar : Char.ofNat n = Char.ofNatAux n hv := dif_pos hv
  rw [hchar]
  rfl

/-- A code point is written as a backslash and a character that the reader knows by the same
meaning, as itself, or by its number. -/
theorem escape_cases {n : Nat} (h : n < 0x10000) :
    (∃ c, escape n = ['\\', c] ∧ c ≠ '\x00' ∧
      ∀ r, Literal.codes ('\\' :: c :: r) = (n :: ·) <$> Literal.codes r) ∨
    (∃ c, escape n = [c] ∧ IsPlain c ∧ c ≠ '\n' ∧ c ≠ '\r' ∧ c.toNat = n) ∨
    escape n = unit n := by
  unfold escape
  split
  · subst n; exact .inl ⟨_, rfl, by decide, fun r => by rw [Literal.codes.eq_def]; rfl⟩
  split
  · subst n; exact .inl ⟨_, rfl, by decide, fun r => by rw [Literal.codes.eq_def]; rfl⟩
  split
  · subst n; exact .inl ⟨_, rfl, by decide, fun r => by rw [Literal.codes.eq_def]; rfl⟩
  split
  · subst n; exact .inl ⟨_, rfl, by decide, fun r => by rw [Literal.codes.eq_def]; rfl⟩
  split
  · subst n; exact .inl ⟨_, rfl, by decide, fun r => by rw [Literal.codes.eq_def]; rfl⟩
  split
  · subst n; exact .inl ⟨_, rfl, by decide, fun r => by rw [Literal.codes.eq_def]; rfl⟩
  split
  · subst n; exact .inl ⟨_, rfl, by decide, fun r => by rw [Literal.codes.eq_def]; rfl⟩
  split
  next hq hb hn hr _ _ _ hp =>
    simp only [Bool.and_eq_true, decide_eq_true_eq] at hp
    have hc := toNat_ofNat hp
    have hne : ∀ c : Char, n ≠ c.toNat → Char.ofNat n ≠ c := fun c hnc he => hnc (by rw [← he, hc])
    have hnul : Char.ofNat n ≠ '\x00' := hne _ (by rintro rfl; simp at hp)
    exact .inr (.inl ⟨_, rfl, ⟨hne _ hq, hne _ hb, hnul⟩, hne _ hn, hne _ hr, hc⟩)
  next =>
    exact .inr (.inr rfl)

/-! ## The code points behind the escapes -/

theorem codes_unit {n : Nat} (h : n < 0x10000) (r : List Char) :
    Literal.codes (unit n ++ r) = (n :: ·) <$> Literal.codes r := by
  have hs : Literal.codes (unit n ++ r) = Literal.numbered (hexDigits 4 n) (Literal.codes r) := by
    simp only [unit, hexDigits, List.cons_append, List.nil_append]
    rw [Literal.codes.eq_def]
    rfl
  have hlt : n < 0x110000 := by omega
  rw [hs, Literal.numbered, hexNumber?_hexDigits h]
  simp [hlt]

/-- One escape is read as the code point that it was written for. -/
theorem codes_escape {n : Nat} (h : n < 0x10000) (r : List Char) :
    Literal.codes (escape n ++ r) = (n :: ·) <$> Literal.codes r := by
  rcases escape_cases h with ⟨c, he, -, hc⟩ | ⟨c, he, ⟨-, hb, -⟩, hn, hr, hc⟩ | he <;> rw [he]
  · exact hc r
  · rw [List.singleton_append, Literal.codes.eq_def]
    simp [hb, hn, hr, hc]
  · exact codes_unit h r

theorem codes_flatMap_escape {codes : List Nat} (h : ∀ n ∈ codes, n < 0x10000) :
    Literal.codes (codes.flatMap escape) = .ok codes := by
  induction codes with
  | nil => rfl
  | cons n codes ih =>
      rw [List.flatMap_cons, codes_escape (h n (by simp)),
        ih (fun m hm => h m (by simp [hm]))]
      rfl

/-- No escape holds a NUL character, which no literal may hold. -/
theorem nul_notMem_escape {n : Nat} (h : n < 0x10000) : '\x00' ∉ escape n := by
  rcases escape_cases h with ⟨c, he, hc, -⟩ | ⟨c, he, ⟨-, -, hc⟩, -⟩ | he <;> rw [he]
  · simp [Ne.symm hc]
  · simp [Ne.symm hc]
  · simp only [unit, List.mem_cons, not_or]
    exact ⟨by decide, by decide, fun hm => (isPlain_hexDigits _ hm).2.2 rfl⟩

/-! ## Where a literal ends -/

theorem closingQuote?_cons {c : Char} (h : IsPlain c) {r : List Char} (hr : r ≠ []) :
    Token.closingQuote? (c :: r) = (Token.closingQuote? r).map (· + 1) := by
  obtain ⟨hq, hb, -⟩ := h
  cases r with
  | nil => exact absurd rfl hr
  | cons d r => simp [Token.closingQuote?, hq, hb]

theorem closingQuote?_append {w r : List Char} (hw : ∀ c ∈ w, IsPlain c) (hr : r ≠ []) :
    Token.closingQuote? (w ++ r) = (Token.closingQuote? r).map (· + w.length) := by
  induction w with
  | nil => simp
  | cons c w ih =>
      rw [List.cons_append, closingQuote?_cons (hw c (by simp)) (by simp [hr]),
        ih (fun d hd => hw d (by simp [hd])), Option.map_map]
      congr 1

/-- A backslash takes the character behind it along, whatever that is. -/
theorem closingQuote?_backslash (c : Char) (r : List Char) :
    Token.closingQuote? ('\\' :: c :: r) = (Token.closingQuote? r).map (· + 2) := by
  simp [Token.closingQuote?]

/-- No escape ends the literal that it stands in. -/
theorem closingQuote?_escape {n : Nat} (h : n < 0x10000) {r : List Char} (hr : r ≠ []) :
    Token.closingQuote? (escape n ++ r) =
      (Token.closingQuote? r).map (· + (escape n).length) := by
  rcases escape_cases h with ⟨c, he, -⟩ | ⟨c, he, hc, -⟩ | he <;> rw [he]
  · exact closingQuote?_backslash c r
  · exact closingQuote?_cons hc hr
  · rw [unit, List.cons_append, List.cons_append, closingQuote?_backslash,
      closingQuote?_append isPlain_hexDigits hr, Option.map_map]
    congr 1

theorem closingQuote?_flatMap_escape {codes : List Nat} (h : ∀ n ∈ codes, n < 0x10000)
    (rest : List Char) :
    Token.closingQuote? (codes.flatMap escape ++ '"' :: rest) =
      some ((codes.flatMap escape).length + 1) := by
  induction codes with
  | nil => cases rest <;> rfl
  | cons n codes ih =>
      rw [List.flatMap_cons, List.append_assoc, closingQuote?_escape (h n (by simp)) (by simp),
        ih (fun m hm => h m (by simp [hm]))]
      simp only [Option.map_some, List.length_append, Option.some.injEq]
      omega

end Quoted

/-- A string that was written is read as itself. -/
theorem Form.ofStringLiteral_encode {codes : List Nat} (h : ∀ n ∈ codes, n < 0x10000) :
    ofStringLiteral (Quoted.encode codes) = .ok (.str ⟨codes⟩) := by
  have hbody : ((Quoted.encode codes).drop 1).dropLast = codes.flatMap Quoted.escape := by
    simp [Quoted.encode]
  have hnul : (codes.flatMap Quoted.escape).contains '\x00' = false := by
    rw [List.contains_eq_mem, decide_eq_false_iff_not, List.mem_flatMap]
    rintro ⟨n, hn, hm⟩
    exact Quoted.nul_notMem_escape (h n hn) hm
  rw [ofStringLiteral, hbody, Literal.decode, hnul, Quoted.codes_flatMap_escape h]
  rfl

end SlotLisp
