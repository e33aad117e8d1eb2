import SlotLisp.Symbol

/-!
Tables keyed by symbols that remember the order in which their keys first came. Storing under a
key that is present keeps the key's place and replaces the value.
-/

namespace SlotLisp

/-- Entries in the order of their first arrival; the operations below never repeat a key. -/
structure Table (β : Type) where
  entries : List (Symbol × β)
  deriving Inhabited, Repr

namespace Table

variable {β : Type}

def empty : Table β := ⟨[]⟩

def keys (t : Table β) : List Symbol := t.entries.map Prod.fst

def get? (t : Table β) (k : Symbol) : Option β :=
  (t.entries.find? fun e => e.1 == k).map Prod.snd

def contains (t : Table β) (k : Symbol) : Bool := t.entries.any fun e => e.1 == k

/-- Replace the value of the first entry of `k`, or add an entry at the end. -/
def insertEntry (k : Symbol) (v : β) : List (Symbol × β) → List (Symbol × β)
  | [] => [(k, v)]
  | e :: r => if e.1 == k then (e.1, v) :: r else e :: insertEntry k v r

def insert (t : Table β) (k : Symbol) (v : β) : Table β := ⟨insertEntry k v t.entries⟩

/-- Of entries that share a key, the last gives the value and the first the place. -/
def ofList (es : List (Symbol × β)) : Table β :=
  es.foldl (fun t e => t.insert e.1 e.2) empty

theorem find?_insertEntry (k j : Symbol) (v : β) (es : List (Symbol × β)) :
    ((insertEntry k v es).find? fun e => e.1 == j).map Prod.snd =
      if k = j then some v else (es.find? fun e => e.1 == j).map Prod.snd := by
  induction es with
  | nil => by_cases h : k = j <;> simp [insertEntry, h]
  | cons e r ih =>
    by_cases hk : e.1 = k
    · by_cases hj : k = j <;> simp [insertEntry, hk, hj]
    · by_cases hj : e.1 = j
      · have : ¬ j = k := fun h => hk (hj.trans h)
        simp [insertEntry, hj, this, Ne.symm this]
      · simpa [insertEntry, hk, hj] using ih

@[simp] theorem get?_empty (k : Symbol) : (empty : Table β).get? k = none := rfl

/-- A stored value is found under its key, and every other key keeps what it had. -/
theorem get?_insert (t : Table β) (k j : Symbol) (v : β) :
    (t.insert k v).get? j = if k = j then some v else t.get? j :=
  find?_insertEntry k j v t.entries

@[simp] theorem get?_insert_self (t : Table β) (k : Symbol) (v : β) :
    (t.insert k v).get? k = some v := by simp [get?_insert]

theorem contains_eq_isSome (t : Table β) (k : Symbol) : t.contains k = (t.get? k).isSome := by
  simp [contains, get?, List.isSome_find?]

end Table
end SlotLisp
