import SlotLisp.Proofs.Evaluation.Fuel
import SlotLisp.Session

/-!
Symbols that a table of macros generates. Each is its stem with the next number of the table right
behind it, so that nothing marks where the stem ends and the number begins. Two of them are the same
symbol exactly if the stem of the earlier one goes on, behind the stem of the later one, with digits
that make its number into the later one: `a1` with the number 1 is `a` with the number 11.
-/

namespace SlotLisp

/-! ## Stems and numbers -/

def numbered (stem : String) (n : Nat) : Symbol := ⟨stem ++ toString n⟩

/-- Whether the stem of one symbol holds, behind the stem of another one, the first digits of its
number. -/
def RunsInto (a b : String × Nat) : Prop :=
  ∃ digits : List Char, a.1.toList = b.1.toList ++ digits ∧
    Nat.toDigits 10 b.2 = digits ++ Nat.toDigits 10 a.2

theorem toList_numbered (stem : String) (n : Nat) :
    (numbered stem n).name.toList = stem.toList ++ Nat.toDigits 10 n := by
  rw [numbered, String.toList_append]
  exact congrArg (stem.toList ++ ·) Nat.toList_repr

/-- More digits in front of a number never make it smaller. -/
theorem le_of_toDigits_append {m n : Nat} {digits : List Char}
    (h : Nat.toDigits 10 n = digits ++ Nat.toDigits 10 m) : m ≤ n := by
  have hvalue : n = Nat.ofDigitChars 10 (Nat.toDigits 10 m) (Nat.ofDigitChars 10 digits 0) := by
    rw [← Nat.ofDigitChars_append, ← h, Nat.ofDigitChars_ten_toDigits]
  rw [Nat.ofDigitChars_eq_ofDigitChars_zero, Nat.ofDigitChars_ten_toDigits] at hvalue
  omega

theorem numbered_eq_iff {a b : String × Nat} (h : a.2 < b.2) :
    numbered a.1 a.2 = numbered b.1 b.2 ↔ RunsInto a b := by
  have hlists : numbered a.1 a.2 = numbered b.1 b.2 ↔
      a.1.toList ++ Nat.toDigits 10 a.2 = b.1.toList ++ Nat.toDigits 10 b.2 := by
    rw [← toList_numbered, ← toList_numbered, String.toList_inj]
    exact ⟨congrArg Symbol.name, fun hname => congrArg Symbol.mk hname⟩
  rw [hlists, List.append_eq_append_iff]
  constructor
  · rintro (⟨digits, -, hnumber⟩ | h')
    · exact absurd (le_of_toDigits_append hnumber) (Nat.not_le_of_lt h)
    · exact h'
  · exact .inr

/-- What makes a number larger from the front is one digit at least. -/
theorem ne_nil_of_toDigits_append {m n : Nat} {digits : List Char} (hlt : m < n)
    (h : Nat.toDigits 10 n = digits ++ Nat.toDigits 10 m) : digits ≠ [] := by
  rintro rfl
  have hnumber : Nat.toDigits 10 m = [] ++ Nat.toDigits 10 n := h.symm
  exact absurd (le_of_toDigits_append hnumber) (Nat.not_le_of_lt hlt)

theorem not_runsInto_of_fst_eq {a b : String × Nat} (h : a.2 < b.2) (hstem : a.1 = b.1) :
    ¬ RunsInto a b := by
  rintro ⟨digits, hdigits, hnumber⟩
  rw [hstem, List.self_eq_append_right] at hdigits
  exact ne_nil_of_toDigits_append h hnumber hdigits

/-- A stem that does not end in a digit never runs into another one. -/
theorem not_runsInto_of_not_isDigit {a b : String × Nat} (h : a.2 < b.2)
    (hlast : ∀ c ∈ a.1.toList.getLast?, c.isDigit = false) : ¬ RunsInto a b := by
  rintro ⟨digits, hstem, hnumber⟩
  cases hdigits : digits.getLast? with
  | none => exact ne_nil_of_toDigits_append h hnumber (List.getLast?_eq_none_iff.1 hdigits)
  | some c =>
      have hc : c ∈ Nat.toDigits 10 b.2 := by
        rw [hnumber]
        exact List.mem_append_left _ (List.mem_of_getLast? hdigits)
      have hend : a.1.toList.getLast? = some c := by
        rw [hstem, List.getLast?_append, hdigits, Option.some_or]
      exact absurd (Nat.isDigit_of_mem_toDigits (by omega) (Nat.le_refl 10) hc)
        (by simp [hlast c hend])

/-- Symbols with ascending numbers are told apart where no stem runs into a later one. -/
theorem nodup_map_numbered_iff {calls : List (String × Nat)}
    (hcalls : calls.Pairwise fun a b => a.2 < b.2) :
    (calls.map fun c => numbered c.1 c.2).Nodup ↔ calls.Pairwise fun a b => ¬ RunsInto a b := by
  rw [List.Nodup, List.pairwise_map]
  exact ⟨fun h => (hcalls.and h).imp fun hab hrun => hab.2 ((numbered_eq_iff hab.1).2 hrun),
    fun h => (hcalls.and h).imp fun hab heq => hab.2 ((numbered_eq_iff hab.1).1 heq)⟩

namespace State

variable {s u : State} {m : MacroTableId} {stems : List String} {xs : List Symbol}

/-! ## Numbers of a table -/

structure KeepsNumbers (s u : State) : Prop where
  size : u.macroTables.size = s.macroTables.size
  generated (m : MacroTableId) : (u.macroTable m).generated = (s.macroTable m).generated

theorem KeepsNumbers.trans {v : State} (h : s.KeepsNumbers u) (h' : u.KeepsNumbers v) :
    s.KeepsNumbers v :=
  ⟨h'.size.trans h.size, fun m => (h'.generated m).trans (h.generated m)⟩

theorem Change.keepsNumbers (h : s.Change u) : s.KeepsNumbers u := by
  cases h with
  | defineTransformer k n x =>
      refine ⟨Array.size_modify, fun m => ?_⟩
      rw [macroTable, macroTable, State.defineTransformer, Array.getElem?_modify]
      split
      · cases s.macroTables[m]? <;> rfl
      · rfl
  | _ => exact ⟨rfl, fun _ => rfl⟩

theorem Evaluates.keepsNumbers {env : FrameId} {macros : MacroTableId} {form : Value}
    {r : Except Error Value} (h : s.Evaluates env macros form r u) : s.KeepsNumbers u := by
  obtain ⟨fuel, hfuel⟩ := h
  have hcongr :=
    Eval.congruence_preserves (P := KeepsNumbers) KeepsNumbers.trans Change.keepsNumbers
  exact hcongr.evaluate (Nat.le_refl fuel) form env macros s r u hfuel

theorem generate_size (stem : String) :
    (s.generate m stem).1.macroTables.size = s.macroTables.size :=
  Array.size_modify

theorem generate_generated (hm : m < s.macroTables.size) (stem : String) :
    ((s.generate m stem).1.macroTable m).generated = (s.macroTable m).generated + 1 := by
  rw [macroTable, generate, Array.getElem?_modify, if_pos rfl, Array.getElem?_eq_getElem hm]
  rfl

/-! ## Symbols generated one after the other -/

/-- The table `m` generates the symbols from the stems in their order. Anything may be evaluated in
between, with whatever end. -/
inductive Generates (m : MacroTableId) : State → List String → List Symbol → Prop
  | nil (s : State) : Generates m s [] []
  | cons {s : State} {stem : String} {stems : List String} {xs : List Symbol}
      (hrest : Generates m (s.generate m stem).1 stems xs) :
      Generates m s (stem :: stems) ((s.generate m stem).2 :: xs)
  | evaluation {s u : State} {env : FrameId} {macros : MacroTableId} {form : Value}
      {r : Except Error Value}
      {stems : List String} {xs : List Symbol} (hform : s.Evaluates env macros form r u)
      (hrest : Generates m u stems xs) : Generates m s stems xs

def calls (s : State) (m : MacroTableId) (stems : List String) : List (String × Nat) :=
  stems.zipIdx ((s.macroTable m).generated + 1)

theorem generate_calls (hm : m < s.macroTables.size) (stem : String) (stems : List String) :
    s.calls m (stem :: stems) =
      (stem, (s.macroTable m).generated + 1) :: (s.generate m stem).1.calls m stems := by
  rw [calls, List.zipIdx_cons, calls, generate_generated hm]

theorem generates_numbered (hm : m < s.macroTables.size) (stems : List String) :
    Generates m s stems ((s.calls m stems).map fun c => numbered c.1 c.2) := by
  induction stems generalizing s with
  | nil => exact .nil s
  | cons stem stems ih =>
      rw [generate_calls hm]
      exact .cons (ih ((generate_size stem).symm ▸ hm))

/-- There is nothing else that a table generates. -/
theorem Generates.eq_numbered (h : Generates m s stems xs) (hm : m < s.macroTables.size) :
    xs = (s.calls m stems).map fun c => numbered c.1 c.2 := by
  induction h with
  | nil s => rfl
  | @cons s stem stems xs hrest ih =>
      rw [generate_calls hm, List.map_cons, ih ((generate_size stem).symm ▸ hm)]
      rfl
  | evaluation hform hrest ih =>
      have hkeeps := hform.keepsNumbers
      rw [ih (hkeeps.size.symm ▸ hm), calls, hkeeps.generated, calls]

theorem pairwise_calls (s : State) (m : MacroTableId) (stems : List String) :
    (s.calls m stems).Pairwise fun a b => a.2 < b.2 := by
  rw [← List.pairwise_map (f := Prod.snd) (R := (· < ·)), calls, List.zipIdx_map_snd]
  exact List.pairwise_lt_range'

/-- The symbols that a table generates are told apart exactly where no stem holds, behind the stem
of a later call, the first digits of the later number. This is so of stems that do not end in a
digit, and of equal ones. -/
theorem Generates.nodup_iff (h : Generates m s stems xs) (hm : m < s.macroTables.size) :
    (xs.Nodup ↔ (s.calls m stems).Pairwise fun a b => ¬ RunsInto a b) ∧
      ((∀ stem ∈ stems, ∀ c ∈ stem.toList.getLast?, c.isDigit = false) → xs.Nodup) ∧
      ((∀ a ∈ stems, ∀ b ∈ stems, a = b) → xs.Nodup) := by
  have hcalls := s.pairwise_calls m stems
  have hstem : ∀ c ∈ s.calls m stems, c.1 ∈ stems := fun c hc => List.fst_mem_of_mem_zipIdx hc
  have hiff : xs.Nodup ↔ (s.calls m stems).Pairwise fun a b => ¬ RunsInto a b := by
    rw [h.eq_numbered hm, nodup_map_numbered_iff hcalls]
  refine ⟨hiff, fun hdigit => hiff.2 ?_, fun hequal => hiff.2 ?_⟩
  · exact hcalls.imp_of_mem fun ha _ hlt => not_runsInto_of_not_isDigit hlt (hdigit _ (hstem _ ha))
  · exact hcalls.imp_of_mem fun ha hb hlt =>
      not_runsInto_of_fst_eq hlt (hequal _ (hstem _ ha) _ (hstem _ hb))

/-- Two stems, the first of which ends in a digit, with a variable defined in between. -/
theorem Generates.nodup_iff_digit :
    let s := (Session.full (State.start Settings.standard) none).1
    let form : Value := .list [.symbol Symbol.define, .symbol ⟨"x"⟩, .int 5]
    ∃ u, (s.generate 0 "x1").1.Evaluates 0 0 form (.ok (.symbol ⟨"x"⟩)) u ∧
      Generates 0 s ["x1", "x"] [⟨"x11"⟩, ⟨"x2"⟩] ∧ 0 < s.macroTables.size ∧
      (s.calls 0 ["x1", "x"]).Pairwise fun a b => ¬ RunsInto a b := by
  intro s form
  obtain ⟨u, hu⟩ : ∃ u, (s.generate 0 "x1").1.Evaluates 0 0 form (.ok (.symbol ⟨"x"⟩)) u :=
    ⟨_, 3, rfl⟩
  have hsize : 0 < s.macroTables.size := by decide +kernel
  have hxs : Generates 0 s ["x1", "x"] [(s.generate 0 "x1").2, (u.generate 0 "x").2] :=
    .cons (.evaluation hu (.cons (.nil _)))
  have hlist : [(s.generate 0 "x1").2, (u.generate 0 "x").2] = [⟨"x11"⟩, ⟨"x2"⟩] :=
    (hxs.eq_numbered hsize).trans (by decide +kernel)
  rw [hlist] at hxs
  exact ⟨u, hu, hxs, hsize, (Generates.nodup_iff hxs hsize).1.1 (by decide)⟩

/-- With the number 1 the stem `a1` makes the symbol that the stem `a` makes with the number 11. -/
theorem not_nodup_digit_stem :
    let s := (Session.full (State.start Settings.standard) none).1
    let stems := "a1" :: List.replicate 9 "G" ++ ["a"]
    ∃ xs, Generates 0 s stems xs ∧ 0 < s.macroTables.size ∧ xs.head? = some ⟨"a11"⟩ ∧
      xs.getLast? = some ⟨"a11"⟩ ∧ ¬ xs.Nodup := by
  intro s stems
  have hsize : 0 < s.macroTables.size := by decide +kernel
  have hxs : (s.calls 0 stems).map (fun c => numbered c.1 c.2) =
      [⟨"a11"⟩, ⟨"G2"⟩, ⟨"G3"⟩, ⟨"G4"⟩, ⟨"G5"⟩, ⟨"G6"⟩, ⟨"G7"⟩, ⟨"G8"⟩, ⟨"G9"⟩, ⟨"G10"⟩,
        ⟨"a11"⟩] := by
    decide +kernel
  refine ⟨_, generates_numbered hsize stems, hsize, ?_⟩
  rw [hxs]
  decide

end State
end SlotLisp
