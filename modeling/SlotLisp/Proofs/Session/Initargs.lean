import SlotLisp.Eval.Construct
import SlotLisp.Proofs.Classes.Definition
import SlotLisp.Proofs.State.Table

/-!
The arguments that an instance is made from. They are keywords with values behind them, and every
keyword is one that a slot of the class is set by; all else is refused for the first thing that is
wrong with it. Of the values of a keyword the last one counts, for each of the slots that are set by
it.
-/

namespace SlotLisp

def keywordArguments (entries : List (Symbol × Value)) : List Value :=
  Declaration.unpairs (named entries)

theorem mapM_map_eq_ok {ε α β : Type} {f : β → Except ε α} {g : α → β} {xs : List α}
    (h : ∀ x ∈ xs, f (g x) = .ok x) : (xs.map g).mapM f = .ok xs := by
  induction xs with
  | nil => rfl
  | cons x xs ih =>
      rw [List.map_cons, List.mapM_cons, h x List.mem_cons_self,
        ih fun y hy => h y (List.mem_cons_of_mem x hy)]
      rfl

namespace Class

def Takes (c : Class) (k : Symbol) : Prop :=
  k.isKeyword = true ∧ ∃ slot ∈ c.slots, slot.initarg = .symbol k

/-- A class of which instances can be made at all: the keys of its slots can be keys of a
mapping. -/
def Constructible (c : Class) : Prop := ∀ slot ∈ c.slots, slot.initarg.hashable = true

variable {c : Class} {entries : List (Symbol × Value)}

theorem initargTable_keywords (cls : Symbol) (h : ∀ e ∈ entries, e.1.isKeyword = true) :
    initargTable cls (keywordArguments entries) = .ok (.ofList entries) := by
  have hlength : (keywordArguments entries).length % 2 ≠ 1 := by
    rw [keywordArguments, Declaration.length_unpairs]
    omega
  rw [initargTable, if_neg hlength, keywordArguments, Declaration.pairs_unpairs, named,
    mapM_map_eq_ok]
  · rfl
  · intro e he
    exact if_pos (h e he)

theorem Constructible.any_hashable (hc : c.Constructible) :
    (c.slots.any fun s => !s.initarg.hashable) = false := by
  rw [List.any_eq_false]
  intro slot hslot
  simp [hc slot hslot]

theorem checkInitargs_keywords (hc : c.Constructible) (h : ∀ e ∈ entries, c.Takes e.1) :
    c.checkInitargs (.ofList entries) = .ok () := by
  have hknown : (Table.ofList entries).keys.filter
      (fun k => !c.slots.any fun s => Declaration.isKey k s.initarg) = [] := by
    rw [List.filter_eq_nil_iff]
    intro k hk
    obtain ⟨e, he, rfl⟩ := List.mem_map.1 hk
    obtain ⟨-, slot, hslot, hinitarg⟩ := h e (Table.mem_ofList he)
    have hkey : Declaration.isKey e.1 slot.initarg = true := by
      rw [hinitarg]
      exact beq_self_eq_true e.1
    simp only [Bool.not_eq_true', Bool.not_eq_false]
    exact List.any_eq_true.2 ⟨slot, hslot, hkey⟩
  rw [checkInitargs, hc.any_hashable, if_neg (by simp), hknown]
  rfl

end Class

def Value.IsKeyword (v : Value) : Prop := ∃ k : Symbol, v = .symbol k ∧ k.isKeyword = true

namespace Slot

/-- The last value that is given for a slot. -/
def Given (slot : Slot) (entries : List (Symbol × Value)) (v : Value) : Prop :=
  ∃ k before after, slot.initarg = .symbol k ∧ entries = before ++ (k, v) :: after ∧
    ∀ e ∈ after, e.1 ≠ k

def Missing (slot : Slot) (entries : List (Symbol × Value)) : Prop :=
  ∀ e ∈ entries, slot.initarg ≠ .symbol e.1

variable {slot : Slot} {entries : List (Symbol × Value)}

theorem argument?_eq_some_iff {v : Value} :
    slot.argument? (.ofList entries) = some v ↔ slot.Given entries v := by
  rw [argument?, Given]
  cases hkey : slot.initarg with
  | symbol k =>
      dsimp only
      rw [Table.get?_ofList_eq_some_iff]
      constructor
      · rintro ⟨before, after, hsplit, hafter⟩
        exact ⟨k, before, after, rfl, hsplit, hafter⟩
      · rintro ⟨j, before, after, hj, hsplit, hafter⟩
        obtain rfl := Value.symbol.inj hj
        exact ⟨before, after, hsplit, hafter⟩
  | _ => simp

theorem argument?_eq_none_iff : slot.argument? (.ofList entries) = none ↔ slot.Missing entries := by
  rw [argument?, Missing]
  cases hkey : slot.initarg with
  | symbol k =>
      dsimp only
      rw [Table.get?_ofList_eq_none_iff]
      refine forall₂_congr fun e _ => not_congr ⟨fun h => congrArg _ h.symm, fun h => ?_⟩
      exact (Value.symbol.inj h).symm
  | _ => simp

end Slot

theorem Declaration.pairs_unpairs_append (os : List (Value × Value)) (rest : List Value) :
    pairs (unpairs os ++ rest) = os ++ pairs rest := by
  induction os with
  | nil => rfl
  | cons o os ih => exact congrArg (o :: ·) ih

/-- Arguments of even number are keywords with values, at least up to the first key that is none. -/
theorem keywordArguments_or_key {args : List Value} (heven : args.length % 2 = 0) :
    (∃ entries, args = keywordArguments entries ∧ ∀ e ∈ entries, e.1.isKeyword = true) ∨
    ∃ entries k v rest, args = keywordArguments entries ++ k :: v :: rest ∧
      (∀ e ∈ entries, e.1.isKeyword = true) ∧ ¬ k.IsKeyword := by
  induction args using Declaration.pairs.induct with
  | case1 k v rest ih =>
      by_cases hk : k.IsKeyword
      · obtain ⟨n, rfl, hn⟩ := hk
        have hrest : rest.length % 2 = 0 := by
          simp only [List.length_cons] at heven
          omega
        rcases ih hrest with ⟨entries, rfl, hkeys⟩ | ⟨entries, k, w, rest, rfl, hkeys, hk⟩
        · exact .inl ⟨(n, v) :: entries, rfl, List.forall_mem_cons.2 ⟨hn, hkeys⟩⟩
        · exact .inr ⟨(n, v) :: entries, k, w, rest, rfl, List.forall_mem_cons.2 ⟨hn, hkeys⟩, hk⟩
      · exact .inr ⟨[], k, v, rest, rfl, by simp, hk⟩
  | case2 args hnot =>
      match args, hnot with
      | [], _ => exact .inl ⟨[], rfl, by simp⟩
      | [_], _ => exact absurd heven (by simp)
      | k :: v :: rest, hnot => exact absurd rfl (hnot k v rest)

namespace Class

/-- The keywords among several that set no slot of the class, each once and in the order in which
they come. -/
def unknownKeys (c : Class) (ks : List Symbol) : List Symbol :=
  ks.eraseDups.filter fun k => !c.slots.any fun slot => Declaration.isKey k slot.initarg

/-- The error for which arguments are refused: an odd number of them comes before a key that is no
keyword, and that comes before keywords that set no slot. -/
inductive Refuses (c : Class) : List Value → Error → Prop
  | odd {args : List Value} (hodd : args.length % 2 = 1) :
      Refuses c args (.arity (.initargPairs c.name))
  | key {entries : List (Symbol × Value)} {k v : Value} {rest : List Value}
      (heven : (keywordArguments entries ++ k :: v :: rest).length % 2 = 0)
      (hbefore : ∀ e ∈ entries, e.1.isKeyword = true) (hk : ¬ k.IsKeyword) :
      Refuses c (keywordArguments entries ++ k :: v :: rest) (.mismatch (.initargKey c.name k))
  | unknown {entries : List (Symbol × Value)} (hkeys : ∀ e ∈ entries, e.1.isKeyword = true)
      (hunknown : c.unknownKeys (entries.map Prod.fst) ≠ []) :
      Refuses c (keywordArguments entries)
        (.arity (.unknownInitargs c.name (c.unknownKeys (entries.map Prod.fst))))

def SetBySymbols (c : Class) : Prop := ∀ slot ∈ c.slots, ∃ k, slot.initarg = .symbol k

variable {c : Class} {args : List Value} {entries : List (Symbol × Value)}

theorem SetBySymbols.constructible (hc : c.SetBySymbols) : c.Constructible := by
  intro slot hslot
  obtain ⟨k, hk⟩ := hc slot hslot
  rw [hk]
  rfl

theorem isKey_initarg_iff {slot : Slot} {k : Symbol} :
    Declaration.isKey k slot.initarg = true ↔ slot.initarg = .symbol k := by
  cases slot.initarg with
  | symbol j => simp [Declaration.isKey]
  | _ => simp [Declaration.isKey]

theorem mem_unknownKeys_iff {ks : List Symbol} {k : Symbol} :
    k ∈ c.unknownKeys ks ↔ k ∈ ks ∧ ∀ slot ∈ c.slots, slot.initarg ≠ .symbol k := by
  rw [unknownKeys, List.mem_filter, List.mem_eraseDups, Bool.not_eq_true', List.any_eq_false]
  simp only [isKey_initarg_iff, ne_eq]

/-- Arguments are refused, or every one is a value behind a keyword that sets a slot. -/
theorem refuses_or_takes (c : Class) (args : List Value) :
    (∃ e, c.Refuses args e) ∨ ∃ entries, args = keywordArguments entries ∧
    ∀ e ∈ entries, c.Takes e.1 := by
  by_cases hodd : args.length % 2 = 1
  · exact .inl ⟨_, .odd hodd⟩
  have heven : args.length % 2 = 0 := by omega
  rcases keywordArguments_or_key heven with
    ⟨entries, rfl, hkeys⟩ | ⟨entries, k, v, rest, rfl, hkeys, hk⟩
  · by_cases hunknown : c.unknownKeys (entries.map Prod.fst) = []
    · refine .inr ⟨entries, rfl, fun e he => ⟨hkeys e he, ?_⟩⟩
      have hmem : e.1 ∉ c.unknownKeys (entries.map Prod.fst) := hunknown ▸ List.not_mem_nil
      rw [mem_unknownKeys_iff, not_and] at hmem
      have hslot := hmem (List.mem_map_of_mem he)
      simpa using hslot
    · exact .inl ⟨_, .unknown hkeys hunknown⟩
  · exact .inl ⟨_, .key heven hkeys hk⟩

theorem initargTable_key (cls : Symbol) {k v : Value} {rest : List Value}
    (heven : (keywordArguments entries ++ k :: v :: rest).length % 2 = 0)
    (hbefore : ∀ e ∈ entries, e.1.isKeyword = true) (hk : ¬ k.IsKeyword) :
    initargTable cls (keywordArguments entries ++ k :: v :: rest) =
      .error (.mismatch (.initargKey cls k)) := by
  rw [initargTable, if_neg (by omega), keywordArguments, Declaration.pairs_unpairs_append,
    Declaration.pairs,
    List.mapM_append, named, mapM_map_eq_ok fun e he => if_pos (hbefore e he), List.mapM_cons]
  cases k with
  | symbol n =>
      have hn : n.isKeyword = false := Bool.eq_false_iff.2 fun hn => hk ⟨n, rfl, hn⟩
      simp only [hn]
      rfl
  | _ => rfl

/-- Refused arguments give no table, or one that does not fit the class. -/
theorem Refuses.check {e : Error} (hc : c.Constructible) (h : c.Refuses args e) :
    initargTable c.name args = .error e ∨
      ∃ initargs, initargTable c.name args = .ok initargs ∧
      c.checkInitargs initargs = .error e := by
  cases h with
  | odd hodd => exact .inl (if_pos hodd)
  | key heven hbefore hk => exact .inl (initargTable_key c.name heven hbefore hk)
  | @unknown entries hkeys hunknown =>
      refine .inr ⟨_, initargTable_keywords c.name hkeys, ?_⟩
      have hkeys : (Table.ofList entries).keys.filter
          (fun k => !c.slots.any fun s => Declaration.isKey k s.initarg) =
            c.unknownKeys (entries.map Prod.fst) := by
        rw [Table.keys_ofList]
        rfl
      rw [checkInitargs, hc.any_hashable, if_neg (by simp), hkeys]
      exact if_neg (by simpa using hunknown)

/-- Exactly the keywords of slots with values are not refused. -/
theorem not_refuses_iff (hc : c.Constructible) : (¬ ∃ e, c.Refuses args e) ↔
    ∃ entries, args = keywordArguments entries ∧ ∀ e ∈ entries, c.Takes e.1 := by
  refine ⟨(c.refuses_or_takes args).resolve_left, ?_⟩
  rintro ⟨entries, rfl, htakes⟩ ⟨e, he⟩
  have htable := initargTable_keywords c.name fun a ha => (htakes a ha).1
  rcases he.check hc with h | ⟨initargs, h, hcheck⟩
  · exact absurd (h.symm.trans htable) (by simp)
  · obtain rfl := Except.ok.inj (h.symm.trans htable)
    exact absurd (hcheck.symm.trans (checkInitargs_keywords hc htakes)) (by simp)

end Class
end SlotLisp
