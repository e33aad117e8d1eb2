import SlotLisp.Value
import SlotLisp.Number.Layout
import SlotLisp.Text.Inspected
import SlotLisp.Text.Quoted

/-!
The texts of values. As source, data are written so that the reader gives them back; for inspection,
a text shows what kind of value each part is; for display, a lone string or symbol is shown bare and
all else as for inspection. How things outside the value are written is a parameter.
-/

namespace SlotLisp

inductive Style
  | source
  | inspect
  | display
  deriving DecidableEq, Repr

namespace Style

def inner : Style → Style
  | .source => .source
  | _ => .inspect

end Style

namespace Value

def boolText : Style → Bool → String
  | .source, b => if b then "#t" else "#f"
  | _, b => if b then "True" else "False"

def symbolText : Style → Symbol → String
  | .inspect, s => "Symbol(" ++ inspectText (.ofString s.name) ++ ")"
  | _, s => s.name

def stringText : Style → Text → String
  | .source, t => quoted t
  | .inspect, t => inspectText t
  | .display, t => t.toString

def complexIn : Style → Float → Float → String
  | .source, re, im => "#C(" ++ floatText re ++ " " ++ floatText im ++ ")"
  | _, re, im => complexText re im

def numberText (style : Style) : Number → String
  | .int n => intText n
  | .float x => floatText x
  | .complex re im => complexIn style re im

def bytesText (growing : Bool) (data : List UInt8) : String :=
  if growing then "bytearray(" ++ inspectBytes data ++ ")" else inspectBytes data

def listText : Style → List String → String
  | .source, ts => "(" ++ " ".intercalate ts ++ ")"
  | _, ts => "[" ++ ", ".intercalate ts ++ "]"

def vectorText : Style → List String → String
  | .source, ts => "#(" ++ " ".intercalate ts ++ ")"
  | _, ts => "Vector([" ++ ", ".intercalate ts ++ "])"

def dottedText : Style → List String → String → String
  | .source, ts, t => "(" ++ " ".intercalate ts ++ " . " ++ t ++ ")"
  | _, ts, t => "(" ++ listText .inspect ts ++ ", " ++ t ++ ")"

/-- Several copies of a dotted list have no source text and are always shown as for inspection. -/
def copiesText (count : Nat) (ts : List String) (t : String) : String :=
  "(" ++ ", ".intercalate (List.replicate count (listText .inspect ts ++ ", " ++ t)) ++ ")"

def mapText : Style → List (String × String) → String
  | .source, es => "\x7b" ++ " ".intercalate (es.map fun e => e.1 ++ " " ++ e.2) ++ "\x7d"
  | _, es => "\x7b" ++ ", ".intercalate (es.map fun e => e.1 ++ ": " ++ e.2) ++ "\x7d"

def functionWord : Function → String
  | .builtin _ => "builtin"
  | .funcall _ => "funcall"
  | .constructor _ => "constructor"
  | .predicate _ => "predicate"
  | .reader _ _ _ => "reader"

def functionNumber : Function → Nat
  | .builtin b => b.ctorIdx
  | .funcall macros => macros
  | .constructor cls => cls
  | .predicate cls => cls
  | .reader cls _ _ => cls

/-- A function is shown by what it is and, in hexadecimal, what it belongs to. -/
def functionText (f : Function) : String :=
  "<function " ++ functionWord f ++ " at 0x" ++ String.ofList
    (Nat.toDigits 16 (functionNumber f)) ++ ">"

mutual

def write (refs : Ref → String) (style : Style) : Value → String
  | .absent => "None"
  | .nil => "nil"
  | .bool b => boolText style b
  | .symbol s => symbolText style s
  | .int n => intText n
  | .float x => floatText x
  | .complex re im => complexIn style re im
  | .nan _ n => numberText style n
  | .str t => stringText style t
  | .bytes growing d => bytesText growing d
  | .list xs => listText style (writeAll refs style.inner xs)
  | .vector xs => vectorText style (writeAll refs style.inner xs)
  | .dotted xs t => dottedText style (writeAll refs style.inner xs) (write refs style.inner t)
  | .copies n xs t => copiesText n (writeAll refs .inspect xs) (write refs .inspect t)
  | .map es => mapText style (writeEntries refs style.inner es)
  | .closure _ fs b _ =>
    "(λ (" ++ " ".intercalate (writeAll refs .display fs) ++ ") " ++ write refs .source b ++ ")"
  | .function f => functionText f
  | .unsupplied _ s _ => "#<unsupplied-slot " ++ s.name ++ ">"
  | .ref r => refs r
termination_by structural v => v

def writeAll (refs : Ref → String) (style : Style) : List Value → List String
  | [] => []
  | v :: vs => write refs style v :: writeAll refs style vs

def writeEntries (refs : Ref → String) (style : Style) :
    List (Value × Value) → List (String × String)
  | [] => []
  | (k, v) :: es => (write refs style k, write refs style v) :: writeEntries refs style es

end

mutual

/-- Why `v` has no text, by what is met first: an integer has too many digits, or a reference has no
text. Several copies of a dotted list, and the containers among formals, are not written again
inside of themselves; `inner` judges the references in them, and `refs` all others. -/
def textFault? (refs inner : Ref → Option Fault) : Value → Option Fault
  | .int n => if fitsDigits n then none else some .badValue
  | .list xs => itemsTextFault? refs inner xs
  | .vector xs => itemsTextFault? refs inner xs
  | .dotted xs t => (itemsTextFault? refs inner xs).or (textFault? refs inner t)
  | .copies n xs t =>
    if n == 0 then none else (itemsTextFault? inner inner xs).or (textFault? inner inner t)
  | .map es => entriesTextFault? refs inner es
  | .closure _ fs b _ => (formalsTextFault? refs inner fs).or (textFault? refs inner b)
  | .ref r => refs r
  | _ => none
termination_by structural v => v

def itemsTextFault? (refs inner : Ref → Option Fault) : List Value → Option Fault
  | [] => none
  | v :: vs => (textFault? refs inner v).or (itemsTextFault? refs inner vs)

def formalsTextFault? (refs inner : Ref → Option Fault) : List Value → Option Fault
  | [] => none
  | v :: vs =>
    (textFault? (if v.isContainer then inner else refs) inner v).or
      (formalsTextFault? refs inner vs)

def entriesTextFault? (refs inner : Ref → Option Fault) : List (Value × Value) → Option Fault
  | [] => none
  | (k, v) :: es =>
    ((textFault? refs inner k).or (textFault? refs inner v)).or (entriesTextFault? refs inner es)

end

theorem writeAll_eq_map (refs : Ref → String) (style : Style) (vs : List Value) :
    writeAll refs style vs = vs.map (write refs style) := by
  induction vs with
  | nil => rfl
  | cons v vs ih => simp [writeAll, ih]

theorem writeEntries_eq_map (refs : Ref → String) (style : Style) (es : List (Value × Value)) :
    writeEntries refs style es = es.map fun e => (write refs style e.1, write refs style e.2) := by
  induction es with
  | nil => rfl
  | cons e es ih =>
      obtain ⟨k, v⟩ := e
      simp [writeEntries, ih]

/-! ## The texts of containers by the texts of their parts -/

section Containers

variable (refs : Ref → String) (style : Style) (xs : List Value)

theorem write_list :
    write refs style (.list xs) = listText style (xs.map (write refs style.inner)) := by
  rw [← writeAll_eq_map]
  rfl

theorem write_vector :
    write refs style (.vector xs) = vectorText style (xs.map (write refs style.inner)) := by
  rw [← writeAll_eq_map]
  rfl

theorem write_dotted (t : Value) :
    write refs style (.dotted xs t) =
      dottedText style (xs.map (write refs style.inner)) (write refs style.inner t) := by
  rw [← writeAll_eq_map]
  rfl

theorem write_map (es : List (Value × Value)) :
    write refs style (.map es) =
      mapText style (es.map fun e => (write refs style.inner e.1, write refs style.inner e.2)) := by
  rw [← writeEntries_eq_map]
  rfl

end Containers

/-! ## Values that have a text, by their parts -/

section Faults

variable {refs inner : Ref → Option Fault} {xs : List Value} {t : Value}

theorem itemsTextFault?_eq_none :
    itemsTextFault? refs inner xs = none ↔ ∀ x ∈ xs, x.textFault? refs inner = none := by
  induction xs with
  | nil => simp [itemsTextFault?]
  | cons x xs ih => simp [itemsTextFault?, ih]

theorem formalsTextFault?_eq_none :
    formalsTextFault? refs inner xs = none ↔
      ∀ x ∈ xs, x.textFault? (if x.isContainer then inner else refs) inner = none := by
  induction xs with
  | nil => simp [formalsTextFault?]
  | cons x xs ih => simp [formalsTextFault?, ih]

theorem entriesTextFault?_eq_none {es : List (Value × Value)} :
    entriesTextFault? refs inner es = none ↔
      ∀ e ∈ es, e.1.textFault? refs inner = none ∧ e.2.textFault? refs inner = none := by
  induction es with
  | nil => simp [entriesTextFault?]
  | cons e es ih =>
      obtain ⟨k, v⟩ := e
      simp [entriesTextFault?, ih]

@[simp] theorem textFault?_int {n : Int} :
    textFault? refs inner (.int n) = none ↔ fitsDigits n = true := by
  simp [textFault?]

@[simp] theorem textFault?_list :
    textFault? refs inner (.list xs) = none ↔ ∀ x ∈ xs, x.textFault? refs inner = none :=
  itemsTextFault?_eq_none

@[simp] theorem textFault?_vector :
    textFault? refs inner (.vector xs) = none ↔ ∀ x ∈ xs, x.textFault? refs inner = none :=
  itemsTextFault?_eq_none

@[simp] theorem textFault?_dotted :
    textFault? refs inner (.dotted xs t) = none ↔
      (∀ x ∈ xs, x.textFault? refs inner = none) ∧ t.textFault? refs inner = none := by
  simp [textFault?, itemsTextFault?_eq_none]

@[simp] theorem textFault?_copies {n : Nat} :
    textFault? refs inner (.copies n xs t) = none ↔
      n ≠ 0 → (∀ x ∈ xs, x.textFault? inner inner = none) ∧ t.textFault? inner inner = none := by
  simp [textFault?, itemsTextFault?_eq_none]

@[simp] theorem textFault?_map {es : List (Value × Value)} :
    textFault? refs inner (.map es) = none ↔
      ∀ e ∈ es, e.1.textFault? refs inner = none ∧ e.2.textFault? refs inner = none :=
  entriesTextFault?_eq_none

@[simp] theorem textFault?_closure {id : Nat} {fs : List Value} {f : FrameId} :
    textFault? refs inner (.closure id fs t f) = none ↔
      (∀ x ∈ fs, x.textFault? (if x.isContainer then inner else refs) inner = none) ∧
        t.textFault? refs inner = none := by
  simp [textFault?, formalsTextFault?_eq_none]

end Faults

end Value
end SlotLisp
