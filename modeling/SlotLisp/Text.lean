import SlotLisp.Text.Surrogate

/-!
Texts as sequences of code points. The two halves of a character beyond the first 65536 may stand in
a text side by side without being that character, and only become it where the text is written out
as a string.
-/

namespace SlotLisp

structure Text where
  codes : List Nat
  deriving DecidableEq, Inhabited, Repr

namespace Text

def empty : Text := ⟨[]⟩

def ofChars (cs : List Char) : Text := ⟨cs.map Char.toNat⟩

def ofString (s : String) : Text := ofChars s.toList

/-- The text written out. Halves side by side join, and a half that stands alone is no character. -/
def toString (t : Text) : String := String.ofList (Surrogate.toChars t.codes)

def length (t : Text) : Nat := t.codes.length

def isEmpty (t : Text) : Bool := t.codes.isEmpty

def times (n : Nat) (t : Text) : Text := ⟨(List.replicate n t.codes).flatten⟩

/-- The texts of one code point each that a text consists of. -/
def letters (t : Text) : List Text := t.codes.map fun n => ⟨[n]⟩

/-- Texts are ordered by the first code point at which they differ and otherwise by their
lengths. -/
def less (t u : Text) : Bool := t.codes < u.codes

@[simp] theorem length_times (n : Nat) (t : Text) : (t.times n).length = n * t.length := by
  simp [times, length]

/-- A string is the text that it is written out as. -/
@[simp] theorem toString_ofString (s : String) : (ofString s).toString = s := by
  simp [toString, ofString, ofChars, Surrogate.toChars_map_toNat]

end Text
end SlotLisp
