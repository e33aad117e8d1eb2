import SlotLisp.Error

/-!
Slot declarations. A declaration is a symbol or a list of a name, a default that may be missing, and
options with their values. The default is there exactly if what follows the name is of odd length.
-/

namespace SlotLisp

structure Declaration where
  name : Symbol
  default : Option Value
  options : List (Value × Value)
  deriving Inhabited

namespace Declaration

def typeKey : Symbol := ⟨":type"⟩

/-- Neighbours two by two; a last one without a partner is left out. -/
def pairs : List Value → List (Value × Value)
  | k :: v :: r => (k, v) :: pairs r
  | _ => []

def unpairs : List (Value × Value) → List Value
  | [] => []
  | (k, v) :: r => k :: v :: unpairs r

def isKey (key : Symbol) (v : Value) : Bool :=
  match v with
  | .symbol s => s == key
  | _ => false

/-- The value of an option; where it is repeated, the first one counts. -/
def option? (d : Declaration) (key : Symbol) : Option Value :=
  (d.options.find? fun o => isKey key o.1).map Prod.snd

def optionLike? (like : Value → Value → Bool) (d : Declaration) (key : Value) : Option Value :=
  (d.options.find? fun o => like o.1 key).map Prod.snd

def type? (d : Declaration) : Option Value := d.option? typeKey

def withDefault (d : Declaration) (v : Value) : Declaration := { d with default := some v }

/-- A type that is added stands last, so that it counts only where there was none. -/
def withType (d : Declaration) (t : Value) : Declaration :=
  { d with options := d.options ++ [(.symbol typeKey, t)] }

def ofParts (name : Symbol) (parts : List Value) : Declaration :=
  match parts with
  | [] => ⟨name, none, []⟩
  | v :: r => if parts.length % 2 = 1 then ⟨name, some v, pairs r⟩ else ⟨name, none, pairs parts⟩

def ofForm (form : Value) : Except Error Declaration :=
  match form with
  | .symbol s => .ok ⟨s, none, []⟩
  | v =>
    match v.items? with
    | some (.symbol s :: parts) => .ok (ofParts s parts)
    | some (n :: _) => .error (.malformed (.slotName n))
    | _ => .error (.malformed (.slotDeclaration v))

def toForm (d : Declaration) : Value :=
  .list (.symbol d.name :: (d.default.toList ++ unpairs d.options))

@[simp] theorem pairs_unpairs (os : List (Value × Value)) : pairs (unpairs os) = os := by
  induction os with
  | nil => rfl
  | cons o r ih => simp [unpairs, pairs, ih]

theorem length_unpairs (os : List (Value × Value)) : (unpairs os).length = 2 * os.length := by
  induction os with
  | nil => rfl
  | cons o r ih => simp [unpairs, ih]; omega

/-- Reading a declaration that was written gives it back. -/
theorem ofForm_toForm (d : Declaration) : ofForm d.toForm = .ok d := by
  obtain ⟨name, dflt, os⟩ := d
  cases dflt with
  | some v =>
    have hl := length_unpairs os
    simp [toForm, ofForm, Value.items?, ofParts]
    omega
  | none =>
    cases os with
    | nil => rfl
    | cons o r =>
      have hl := length_unpairs r
      simp [toForm, ofForm, Value.items?, ofParts, unpairs, pairs]
      omega

end Declaration
end SlotLisp
