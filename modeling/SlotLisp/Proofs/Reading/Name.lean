import SlotLisp.Form.Atom
import SlotLisp.Value.Print

/-!
Tokens without delimiters: which of them are symbols, and that the text of an integer is read as
that integer. What counts as a number in decimal notation is said here once more as a grammar, apart
from the functions that take such texts apart.
-/

namespace SlotLisp
namespace Decimal

/-! ## Numbers in decimal notation -/

def IsDigits (cs : List Char) : Prop := cs ≠ [] ∧ ∀ c ∈ cs, c.isDigit = true

def IsSign (cs : List Char) : Prop := cs = [] ∨ cs = ['+'] ∨ cs = ['-']

def IsInteger (cs : List Char) : Prop := ∃ sign ds, IsSign sign ∧ IsDigits ds ∧ cs = sign ++ ds

def IsMantissa (cs : List Char) : Prop :=
  IsDigits cs ∨ ∃ whole part, IsDigits (whole ++ part) ∧ cs = whole ++ '.' :: part

def IsExponent (cs : List Char) : Prop :=
  cs = [] ∨ ∃ e n, (e = 'e' ∨ e = 'E') ∧ IsInteger n ∧ cs = e :: n

def IsFloat (cs : List Char) : Prop :=
  ∃ sign m e, IsSign sign ∧ IsMantissa m ∧ IsExponent e ∧ cs = sign ++ (m ++ e)

/-! ### The characters of a number -/

def InNumber (c : Char) : Prop := c.isDigit = true ∨ c ∈ ['+', '-', '.', 'e', 'E']

theorem IsDigits.inNumber {cs : List Char} (h : IsDigits cs) : ∀ c ∈ cs, InNumber c :=
  fun c hc => .inl (h.2 c hc)

theorem IsSign.inNumber {cs : List Char} (h : IsSign cs) : ∀ c ∈ cs, InNumber c := by
  rcases h with rfl | rfl | rfl <;> simp [InNumber]

theorem IsInteger.inNumber {cs : List Char} (h : IsInteger cs) : ∀ c ∈ cs, InNumber c := by
  obtain ⟨sign, ds, hsign, hds, rfl⟩ := h
  intro c hc
  rw [List.mem_append] at hc
  exact hc.elim (hsign.inNumber c) (hds.inNumber c)

theorem IsMantissa.inNumber {cs : List Char} (h : IsMantissa cs) : ∀ c ∈ cs, InNumber c := by
  rcases h with h | ⟨whole, part, h, rfl⟩
  · exact h.inNumber
  · intro c hc
    rw [List.mem_append, List.mem_cons] at hc
    rcases hc with hc | rfl | hc
    · exact h.inNumber c (List.mem_append_left _ hc)
    · exact .inr (by simp)
    · exact h.inNumber c (List.mem_append_right _ hc)

theorem IsExponent.inNumber {cs : List Char} (h : IsExponent cs) : ∀ c ∈ cs, InNumber c := by
  rcases h with rfl | ⟨e, n, he, hn, rfl⟩
  · simp
  · intro c hc
    rw [List.mem_cons] at hc
    rcases hc with rfl | hc
    · rcases he with rfl | rfl <;> simp [InNumber]
    · exact hn.inNumber c hc

/-- A name with any other character in it is no number. -/
theorem IsFloat.inNumber {cs : List Char} (h : IsFloat cs) : ∀ c ∈ cs, InNumber c := by
  obtain ⟨sign, m, e, hsign, hm, he, rfl⟩ := h
  intro c hc
  rw [List.mem_append, List.mem_append] at hc
  rcases hc with hc | hc | hc
  · exact hsign.inNumber c hc
  · exact hm.inNumber c hc
  · exact he.inNumber c hc

/-! ### Numbers and the functions that take them apart -/

theorem isDigits_iff {cs : List Char} : isDigits cs = true ↔ IsDigits cs := by
  simp [isDigits, IsDigits]

theorem splitSign_append (cs : List Char) :
    ∃ sign, IsSign sign ∧ cs = sign ++ (splitSign cs).2 := by
  unfold splitSign
  split
  · exact ⟨['-'], .inr (.inr rfl), rfl⟩
  · exact ⟨['+'], .inr (.inl rfl), rfl⟩
  · exact ⟨[], .inl rfl, rfl⟩

theorem isInteger_of_integer? {cs : List Char} {r : Bool × List Char} (h : integer? cs = some r) :
    IsInteger cs := by
  obtain ⟨sign, hsign, hcs⟩ := splitSign_append cs
  simp only [integer?] at h
  split at h
  next hd => exact ⟨sign, _, hsign, isDigits_iff.1 hd, hcs⟩
  next => exact absurd h (by simp)

theorem isExponent_of_exponent? {cs : List Char} {e : Int} (h : exponent? cs = some e) :
    IsExponent cs := by
  cases cs with
  | nil => exact .inl rfl
  | cons c r =>
      rw [exponent?] at h
      split at h
      next hc =>
        obtain ⟨n, hn, -⟩ := Option.map_eq_some_iff.1 h
        exact .inr ⟨c, r, by simpa using hc, isInteger_of_integer? hn, rfl⟩
      next => exact absurd h (by simp)

/-- A number that can be taken apart is made of a mantissa and an exponent. -/
theorem fraction?_append {cs : List Char} {r : List Char × List Char × Int}
    (h : fraction? cs = some r) : ∃ m e, IsMantissa m ∧ IsExponent e ∧ cs = m ++ e := by
  have hcs := List.takeWhile_append_dropWhile (p := Char.isDigit) (l := cs)
  have hw : ∀ c ∈ cs.takeWhile Char.isDigit, c.isDigit = true :=
    List.all_eq_true.1 List.all_takeWhile
  rw [fraction?] at h
  split at h
  next r₁ hr =>
    have hr₁ := List.takeWhile_append_dropWhile (p := Char.isDigit) (l := r₁)
    have hp : ∀ c ∈ r₁.takeWhile Char.isDigit, c.isDigit = true :=
      List.all_eq_true.1 List.all_takeWhile
    dsimp only at h
    split at h
    next => exact absurd h (by simp)
    next hne =>
      obtain ⟨e, he, -⟩ := Option.map_eq_some_iff.1 h
      refine ⟨cs.takeWhile Char.isDigit ++ '.' :: r₁.takeWhile Char.isDigit,
        r₁.dropWhile Char.isDigit, .inr ⟨_, r₁.takeWhile Char.isDigit, ⟨?_, ?_⟩, rfl⟩,
        isExponent_of_exponent? he, ?_⟩
      · intro hnil
        rw [List.append_eq_nil_iff] at hnil
        exact hne (by rw [hnil.1, hnil.2]; rfl)
      · intro c hc
        rw [List.mem_append] at hc
        exact hc.elim (hw c) (hp c)
      · rw [List.append_assoc, List.cons_append, hr₁, ← hr, hcs]
  next =>
    split at h
    next => exact absurd h (by simp)
    next hne =>
      obtain ⟨e, he, -⟩ := Option.map_eq_some_iff.1 h
      refine ⟨cs.takeWhile Char.isDigit, cs.dropWhile Char.isDigit, .inl ⟨?_, hw⟩,
        isExponent_of_exponent? he, hcs.symm⟩
      intro hnil
      exact hne (by rw [hnil]; rfl)

theorem isFloat_of_float? {cs : List Char} {x : Float} (h : float? cs = some x) : IsFloat cs := by
  obtain ⟨sign, hsign, hcs⟩ := splitSign_append cs
  obtain ⟨r, hr, -⟩ := Option.map_eq_some_iff.1 h
  obtain ⟨m, e, hm, he, hme⟩ := fraction?_append hr
  exact ⟨sign, m, e, hsign, hm, he, by rw [← hme]; exact hcs⟩

theorem splitSign_of_isDigits {ds : List Char} (h : IsDigits ds) : splitSign ds = (false, ds) := by
  obtain ⟨hne, hd⟩ := h
  cases ds with
  | nil => exact absurd rfl hne
  | cons c r =>
      have hc := hd c (by simp)
      unfold splitSign
      split
      next he => rw [(List.cons.inj he).1] at hc; exact absurd hc (by decide)
      next he => rw [(List.cons.inj he).1] at hc; exact absurd hc (by decide)
      next => rfl

theorem integer?_of_isDigits {ds : List Char} (h : IsDigits ds) :
    integer? ds = some (false, ds) := by
  have hd : isDigits ds = true := isDigits_iff.2 h
  rw [integer?, splitSign_of_isDigits h]
  simp only [hd, if_true]

theorem integer?_minus {ds : List Char} (h : IsDigits ds) :
    integer? ('-' :: ds) = some (true, ds) := by
  have hd : isDigits ds = true := isDigits_iff.2 h
  rw [integer?, splitSign]
  simp only [hd, if_true]

theorem isDigits_toDigits (k : Nat) : IsDigits (Nat.toDigits 10 k) :=
  ⟨Nat.toDigits_ne_nil, fun _ hc => Nat.isDigit_of_mem_toDigits (by omega) (by omega) hc⟩

/-- An integer with no more digits than are read has the value of its digits. -/
theorem intValue_toDigits {negative : Bool} {k : Nat} (h : (Nat.toDigits 10 k).length ≤ maxDigits) :
    intValue negative (Nat.toDigits 10 k) = .ok (if negative then -(k : Int) else k) := by
  rw [intValue, if_neg (by omega), value, Nat.ofDigitChars_ten_toDigits]

end Decimal

theorem fitsDigits_iff {n : Int} :
    fitsDigits n = true ↔ (Nat.toDigits 10 n.natAbs).length ≤ maxDigits := by
  rw [fitsDigits, decide_eq_true_eq, Nat.pow_eq, Nat.length_toDigits_le_iff (by omega) (by decide)]

namespace Form

/-! ## Names -/

/-- What begins with a digit or a sign is not `nil`. -/
theorem isNil_cons {c : Char} {r : List Char} (h : c.toLower ≠ 'n') : isNil (c :: r) = false := by
  simp [isNil, h]

theorem isNil_digits {ds : List Char} (h : Decimal.IsDigits ds) : isNil ds = false := by
  obtain ⟨hne, hd⟩ := h
  cases ds with
  | nil => exact absurd rfl hne
  | cons c r =>
      have hc := hd c (by simp)
      refine isNil_cons fun he => ?_
      simp only [Char.isDigit, Bool.and_eq_true, decide_eq_true_eq] at hc
      have h9 : c.val.toNat ≤ 57 := hc.2
      -- A digit is no capital letter, so it is its own small letter.
      have hup : ¬ (c.val ≥ 'A'.val ∧ c.val ≤ 'Z'.val) := by
        rintro ⟨hA, -⟩
        have hA' : 65 ≤ c.val.toNat := hA
        omega
      have hsmall : c.toLower = c := dif_neg hup
      rw [← hsmall, he] at h9
      exact absurd h9 (by decide)

/-- The text of an integer is read as that integer. -/
theorem ofName_intText {n : Int} (h : fitsDigits n = true) :
    ofName (intText n).toList = .ok (.int n) := by
  have hfit := fitsDigits_iff.1 h
  cases n with
  | ofNat k =>
      have hd := Decimal.isDigits_toDigits k
      have hk : (Nat.toDigits 10 k).length ≤ maxDigits := hfit
      rw [intText, String.toList_ofList, ofName, if_neg (by rw [isNil_digits hd]; simp),
        Decimal.integer?_of_isDigits hd]
      dsimp only
      rw [Decimal.intValue_toDigits hk]
      rfl
  | negSucc k =>
      have hd := Decimal.isDigits_toDigits (k + 1)
      have hk : (Nat.toDigits 10 (k + 1)).length ≤ maxDigits := hfit
      rw [intText, String.toList_ofList, ofName,
        if_neg (by rw [isNil_cons (by decide)]; simp), Decimal.integer?_minus hd]
      dsimp only
      rw [Decimal.intValue_toDigits hk]
      rfl

/-- A name that is neither `nil` nor a number is that of a symbol. -/
theorem ofName_symbol {s : Symbol} (hnil : s.name.toList.map Char.toLower ≠ "nil".toList)
    (hint : ¬ Decimal.IsInteger s.name.toList) (hfloat : ¬ Decimal.IsFloat s.name.toList) :
    ofName s.name.toList = .ok (.symbol s) := by
  have hn : isNil s.name.toList = false := by simpa [isNil] using hnil
  have hi : Decimal.integer? s.name.toList = none := by
    rw [Option.eq_none_iff_forall_ne_some]
    exact fun r hr => hint (Decimal.isInteger_of_integer? hr)
  have hf : Decimal.float? s.name.toList = none := by
    rw [Option.eq_none_iff_forall_ne_some]
    exact fun x hx => hfloat (Decimal.isFloat_of_float? hx)
  rw [ofName, hn, hi, hf]
  simp

end Form
end SlotLisp
