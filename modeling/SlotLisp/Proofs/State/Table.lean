import Mathlib.Data.List.Induction
import Mathlib.Data.List.Nodup
import SlotLisp.Table

/-!
What is in a table after entries have been stored in it.
-/

namespace SlotLisp
namespace Table

variable {β : Type}

/-! ## Entries -/

theorem mem_insert {t : Table β} {k : Symbol} {v : β} {e : Symbol × β}
    (h : e ∈ (t.insert k v).entries) : e = (k, v) ∨ e ∈ t.entries := by
  obtain ⟨es⟩ := t
  change e ∈ insertEntry k v es at h
  change _ ∨ e ∈ es
  induction es with
  | nil => exact .inl (List.mem_singleton.1 h)
  | cons d ds ih =>
      rw [insertEntry] at h
      split at h
      next hd =>
        rw [List.mem_cons] at h
        rcases h with rfl | h
        · exact .inl (by rw [eq_of_beq hd])
        · exact .inr (List.mem_cons_of_mem _ h)
      next =>
        rw [List.mem_cons] at h
        rcases h with rfl | h
        · exact .inr List.mem_cons_self
        · exact (ih h).imp_right (List.mem_cons_of_mem _)

theorem mem_ofList {es : List (Symbol × β)} {e : Symbol × β}
    (h : e ∈ (ofList es).entries) : e ∈ es := by
  have hfold : ∀ (t : Table β) (ds : List (Symbol × β)),
      e ∈ (ds.foldl (fun t d => t.insert d.1 d.2) t).entries → e ∈ t.entries ∨ e ∈ ds := by
    intro t ds
    induction ds generalizing t with
    | nil => exact .inl
    | cons d ds ih =>
        intro hmem
        rcases ih _ hmem with hmem | hmem
        · rcases mem_insert hmem with rfl | hmem
          · exact .inr List.mem_cons_self
          · exact .inl hmem
        · exact .inr (List.mem_cons_of_mem _ hmem)
  exact (hfold .empty es h).resolve_left List.not_mem_nil

theorem mem_of_get? {t : Table β} {k : Symbol} {v : β} (h : t.get? k = some v) :
    (k, v) ∈ t.entries := by
  obtain ⟨e, he, rfl⟩ := Option.map_eq_some_iff.1 h
  have hk := List.find?_some he
  rw [← eq_of_beq hk]
  exact List.mem_of_find?_eq_some he

/-! ## Repeated keys -/

variable {bs : List (Symbol × β)}

/-- Of several bindings of a symbol the last counts. -/
theorem get?_foldl_insert (t : Table β) (n : Symbol) :
    (bs.foldl (fun t b => t.insert b.1 b.2) t).get? n =
      ((bs.reverse.find? fun b => b.1 == n).map Prod.snd).or (t.get? n) := by
  induction bs generalizing t with
  | nil => rfl
  | cons b bs ih =>
      rw [List.foldl_cons, ih, get?_insert, List.reverse_cons, List.find?_append]
      cases hfind : bs.reverse.find? fun c => c.1 == n with
      | some c => rfl
      | none =>
          by_cases hb : b.1 = n
          · simp [hb]
          · simp [hb]

theorem get?_ofList (bs : List (Symbol × β)) (n : Symbol) :
    (ofList bs).get? n = (bs.reverse.find? fun b => b.1 == n).map Prod.snd := by
  rw [ofList, get?_foldl_insert, get?_empty, Option.or_none]

/-- What is stored later goes before what is stored first. -/
theorem get?_ofList_append (as bs : List (Symbol × β)) (n : Symbol) :
    (ofList (as ++ bs)).get? n = ((ofList bs).get? n).or ((ofList as).get? n) := by
  rw [get?_ofList, get?_ofList, get?_ofList, List.reverse_append, List.find?_append, Option.map_or]

/-- A symbol among several that are bound has one of the values that they are bound to. -/
theorem get?_ofList_of_mem {b : Symbol × β} (hb : b ∈ bs) :
    ∃ v, (ofList bs).get? b.1 = some v ∧ (b.1, v) ∈ bs := by
  have hfound : (bs.reverse.find? fun c => c.1 == b.1).isSome :=
    List.find?_isSome.2 ⟨b, List.mem_reverse.2 hb, beq_self_eq_true _⟩
  obtain ⟨c, hc⟩ := Option.isSome_iff_exists.1 hfound
  have hget : (ofList bs).get? b.1 = some c.2 := by rw [get?_ofList, hc]; rfl
  exact ⟨c.2, hget, mem_ofList (mem_of_get? hget)⟩

/-- The value of a key is the last one that is stored under it. -/
theorem get?_ofList_eq_some_iff {n : Symbol} {v : β} :
    (ofList bs).get? n = some v ↔
      ∃ before after, bs = before ++ (n, v) :: after ∧ ∀ b ∈ after, b.1 ≠ n := by
  rw [get?_ofList]
  constructor
  · intro h
    obtain ⟨b, hb, rfl⟩ := Option.map_eq_some_iff.1 h
    obtain ⟨hkey, as, cs, hsplit, has⟩ := List.find?_eq_some_iff_append.1 hb
    obtain rfl := eq_of_beq hkey
    refine ⟨cs.reverse, as.reverse, ?_, fun a ha => ?_⟩
    · rw [← List.reverse_reverse bs, hsplit]
      simp
    · have ha' := has a (List.mem_reverse.1 ha)
      simpa using ha'
  · rintro ⟨before, after, rfl, hafter⟩
    refine Option.map_eq_some_iff.2 ⟨(n, v), List.find?_eq_some_iff_append.2 ?_, rfl⟩
    refine ⟨beq_self_eq_true n, after.reverse, before.reverse, by simp, fun a ha => ?_⟩
    have hne := hafter a (List.mem_reverse.1 ha)
    simpa using hne

/-- Where no key is repeated, every entry counts. -/
theorem get?_of_nodup (hnodup : (bs.map Prod.fst).Nodup)
    {b : Symbol × β} (hb : b ∈ bs) : (⟨bs⟩ : Table β).get? b.1 = some b.2 := by
  have hfound : (bs.find? fun c => c.1 == b.1).isSome :=
    List.find?_isSome.2 ⟨b, hb, beq_self_eq_true _⟩
  obtain ⟨c, hc⟩ := Option.isSome_iff_exists.1 hfound
  have hkey : c.1 = b.1 := by simpa using List.find?_some hc
  obtain rfl : c = b := List.inj_on_of_nodup_map hnodup (List.mem_of_find?_eq_some hc) hb hkey
  rw [Table.get?, hc]
  rfl

theorem get?_ofList_eq_none_iff {n : Symbol} : (ofList bs).get? n = none ↔ ∀ b ∈ bs, b.1 ≠ n := by
  rw [get?_ofList, Option.map_eq_none_iff, List.find?_eq_none]
  simp

theorem keys_insert (t : Table β) (k : Symbol) (v : β) :
    (t.insert k v).keys = if k ∈ t.keys then t.keys else t.keys ++ [k] := by
  obtain ⟨es⟩ := t
  show (insertEntry k v es).map Prod.fst = if k ∈ es.map Prod.fst then es.map Prod.fst else _
  induction es with
  | nil => rfl
  | cons e es ih =>
      rw [insertEntry]
      by_cases he : e.1 = k
      · rw [if_pos (beq_iff_eq.2 he), if_pos (by simp [he])]
        rfl
      · rw [if_neg (by simpa using he), List.map_cons, ih]
        by_cases hk : k ∈ es.map Prod.fst
        · rw [if_pos hk, List.map_cons, if_pos (List.mem_cons_of_mem _ hk)]
        · have hcons : k ∉ e.1 :: es.map Prod.fst :=
            List.not_mem_cons_of_ne_of_not_mem (Ne.symm he) hk
          rw [if_neg hk, List.map_cons, if_neg hcons]
          rfl

/-- A new key comes behind all others. -/
theorem insert_of_new {t : Table β} {k : Symbol} (hnew : k ∉ t.keys) (v : β) :
    t.insert k v = ⟨t.entries ++ [(k, v)]⟩ := by
  obtain ⟨es⟩ := t
  change k ∉ es.map Prod.fst at hnew
  show (⟨insertEntry k v es⟩ : Table β) = _
  congr 1
  induction es with
  | nil => rfl
  | cons e es ih =>
      rw [List.map_cons, List.mem_cons, not_or] at hnew
      rw [insertEntry, if_neg (by simpa using Ne.symm hnew.1), ih hnew.2]
      rfl

/-- The keys of stored entries are in the order of their first arrival. -/
theorem keys_ofList (bs : List (Symbol × β)) : (ofList bs).keys = (bs.map Prod.fst).eraseDups := by
  induction bs using List.reverseRecOn with
  | nil => rfl
  | append_singleton bs b ih =>
      have hstep : ofList (bs ++ [b]) = (ofList bs).insert b.1 b.2 := by
        rw [ofList, List.foldl_append]
        rfl
      rw [hstep, keys_insert, ih, List.map_append, List.eraseDups_append, List.map_singleton]
      by_cases hb : b.1 ∈ bs.map Prod.fst
      · rw [if_pos (List.mem_eraseDups.2 hb)]
        simp [List.removeAll, hb]
      · rw [if_neg (fun h => hb (List.mem_eraseDups.1 h))]
        simp [List.removeAll, List.eraseDups_cons, hb]

end Table
end SlotLisp
