import SlotLisp.Form.Read
import SlotLisp.Proofs.Reading.Newline

/-!
The forms of two texts with a newline between them. A form is given out at the token that completes
it, so what follows has no part in it; only a mark of the quote family at the end of a text is
completed by the end itself.
-/

namespace SlotLisp

/-- Whether a token only announces a form, which may be missing at the end of a text. -/
def Token.IsMark (t : Token) : Prop := t.kind = .quote ∨ t.kind = .unquote ∨ t.kind = .function

def Error.moved (n : Nat) : Error → Error
  | .malformed why => .malformed (why.moved n)
  | e => e

namespace Form

/-! ## Forms that the end of a text does not complete -/

theorem readFrom_cons (fault : Option Malformed) (expected : Expected)
    (stack : List Open) (t : Token) (ts : List Token) :
    readFrom fault expected stack (t :: ts) =
      match feed expected stack t with
      | .more expected stack => readFrom fault expected stack ts
      | .complete v => (.ok (some v), ⟨ts, fault⟩)
      | .refuse why => (.error (.malformed why), ⟨t :: ts, fault⟩)
      | .fail e => (.error e, ⟨ts, fault⟩) := rfl

/-- Reading comes to an end at the end of a text without faults, or with a form in front of it. -/
theorem readFrom_eq_ok {fault : Option Malformed} {expected : Expected} {stack : List Open}
    {ts : List Token} {o : Option Value} {rest : TokenStream}
    (h : readFrom fault expected stack ts = (.ok o, rest)) :
    (fault = none ∧ rest = TokenStream.finished) ∨
      o.isSome ∧ rest.fault = fault ∧ rest.tokens.length < ts.length := by
  induction ts generalizing expected stack with
  | nil =>
      cases fault with
      | none => exact .inl ⟨rfl, (congrArg Prod.snd h).symm⟩
      | some why => exact absurd (congrArg Prod.fst h) (by simp [readFrom])
  | cons t ts ih =>
      rw [readFrom_cons] at h
      cases hfeed : feed expected stack t with
      | more expected' stack' =>
          rw [hfeed] at h
          rcases ih h with hend | ⟨ho, hfault, hlength⟩
          · exact .inl hend
          · exact .inr ⟨ho, hfault, Nat.lt_succ_of_lt hlength⟩
      | complete v =>
          rw [hfeed] at h
          obtain ⟨ho, rfl⟩ := Prod.mk.inj h
          obtain rfl := Except.ok.inj ho
          exact .inr ⟨rfl, rfl, Nat.lt_succ_self _⟩
      | refuse why => rw [hfeed] at h; exact absurd (congrArg Prod.fst h) (by simp)
      | fail e => rw [hfeed] at h; exact absurd (congrArg Prod.fst h) (by simp)

theorem next_shorter {s rest : TokenStream} {v : Value} (h : next s = (.ok (some v), rest)) :
    rest.tokens.length < s.tokens.length := by
  obtain ⟨ts, fault⟩ := s
  rcases readFrom_eq_ok h with ⟨rfl, rfl⟩ | ⟨-, -, hlength⟩
  · cases ts with
    | nil => exact absurd (congrArg Prod.fst h) (by simp [next, readFrom, endOf, atEnd])
    | cons t ts => exact Nat.succ_pos _
  · exact hlength

/-! ## All forms -/

/-- Fuel for all tokens is fuel enough. -/
theorem readAll_of_lt {fuel : Nat} {s : TokenStream} (h : s.tokens.length < fuel) :
    readAll fuel s = all s := by
  have hstable : ∀ m n (s : TokenStream), s.tokens.length < m → s.tokens.length < n →
      readAll m s = readAll n s := by
    intro m
    induction m with
    | zero => intro n s hm; exact absurd hm (Nat.not_lt_zero _)
    | succ m ih =>
        intro n s hm hn
        cases n with
        | zero => exact absurd hn (Nat.not_lt_zero _)
        | succ n =>
            rw [readAll, readAll]
            split
            next => rfl
            next => rfl
            next v rest hnext =>
              have hlt := next_shorter hnext
              rw [ih n rest (by omega) (by omega)]
  exact hstable _ _ s h (Nat.lt_succ_self _)

theorem all_of_next {s rest : TokenStream} {v : Value} (h : next s = (.ok (some v), rest)) :
    all s = (v :: (all rest).1, (all rest).2) := by
  rw [all, readAll, h]
  dsimp only
  rw [readAll_of_lt (next_shorter h)]

end Form
end SlotLisp
