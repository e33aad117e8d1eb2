import SlotLisp.Form.Read

/-!
Tokens that are read as one datum wherever a form may start. What the reader does with the datum is
up to the innermost open form, so a datum inside another one is read by the same lemma as a datum by
itself.
-/

namespace SlotLisp
namespace Form

/-- What reading comes to after a token, of which `ts` follow. -/
def resume (fault : Option Malformed) (step : Step) (ts : List Token) :
    Except Error (Option Value) × TokenStream :=
  match step with
  | .more expected stack => readFrom fault expected stack ts
  | .complete v => (.ok (some v), ⟨ts, fault⟩)
  | .refuse why => (.error (.malformed why), ⟨ts, fault⟩)
  | .fail e => (.error e, ⟨ts, fault⟩)

/-- A completed form is never refused. -/
theorem deliver_ne_refuse (v : Value) (stack : List Open) (why : Malformed) :
    deliver v stack ≠ .refuse why := by
  induction stack generalizing v with
  | nil => simp [deliver]
  | cons o stack ih =>
      cases o with
      | marked head => exact ih _
      | _ => simp [deliver]

theorem readFrom_of_feed {fault : Option Malformed} {expected : Expected} {stack stack' : List Open}
    {t : Token} {v : Value} (h : feed expected stack t = deliver v stack') (ts : List Token) :
    readFrom fault expected stack (t :: ts) = resume fault (deliver v stack') ts := by
  rw [readFrom, h]
  cases hd : deliver v stack' with
  | refuse why => exact absurd hd (deliver_ne_refuse v stack' why)
  | _ => rfl

/-- The tokens `ts` are read as `v` wherever a form may start. -/
def Reads (ts : List Token) (v : Value) : Prop :=
  ∀ fault stack rest,
    readFrom fault .form stack (ts ++ rest) = resume fault (deliver v stack) rest

/-- Nothing is read from no tokens. -/
theorem Reads.ne_nil {ts : List Token} {v : Value} (h : Reads ts v) : ts ≠ [] := by
  rintro rfl
  have hv := h none [] []
  simp [readFrom, endOf, atEnd, resume, deliver] at hv

/-! ## One token -/

theorem reads_name {cs : List Char} {v : Value} (hdot : cs ≠ ['.']) (h : ofName cs = .ok v) :
    Reads [⟨.symbol, cs⟩] v := by
  intro fault stack rest
  refine readFrom_of_feed ?_ rest
  have hname : deliverOrFail (ofName cs) stack = deliver v stack := by rw [h]; rfl
  cases stack with
  | nil => exact hname
  | cons o stack =>
      cases o with
      | list items =>
          show (if cs == ['.'] then _ else deliverOrFail (ofName cs) (.list items :: stack)) = _
          rw [if_neg (by simpa using hdot), hname]
      | _ => exact hname

theorem reads_string {text : List Char} {v : Value} (h : ofStringLiteral text = .ok v) :
    Reads [⟨.string, text⟩] v := by
  intro fault stack rest
  refine readFrom_of_feed ?_ rest
  show deliverOrFail (ofStringLiteral text) stack = deliver v stack
  rw [h]
  rfl

/-! ## Items -/

def Collects (opened : List Value → Open) : Prop :=
  ∀ v items stack, deliver v (opened items :: stack) = .more .form (opened (v :: items) :: stack)

/-- Pieces that are each read as an item of an open form are read one after the other. -/
theorem readFrom_pieces {pieces : List (List Token × Value)} (opened : List Value → Open)
    (hc : Collects opened) (fault : Option Malformed) (stack : List Open)
    (h : ∀ p ∈ pieces, ∀ items rest, readFrom fault .form (opened items :: stack) (p.1 ++ rest) =
      resume fault (deliver p.2 (opened items :: stack)) rest)
    (items : List Value) (rest : List Token) :
    readFrom fault .form (opened items :: stack) (pieces.flatMap Prod.fst ++ rest) =
      readFrom fault .form (opened ((pieces.map Prod.snd).reverse ++ items) :: stack) rest := by
  induction pieces generalizing items with
  | nil => rfl
  | cons p pieces ih =>
      rw [List.flatMap_cons, List.append_assoc, h p (by simp), hc]
      show readFrom fault .form (opened (p.2 :: items) :: stack)
        (pieces.flatMap Prod.fst ++ rest) = _
      rw [ih (fun q hq => h q (by simp [hq]))]
      simp

variable {tokens : Value → List Token} {xs : List Value}

theorem readFrom_items (opened : List Value → Open) (hc : Collects opened)
    (h : ∀ x ∈ xs, Reads (tokens x) x) (fault : Option Malformed) (items : List Value)
    (stack : List Open) (rest : List Token) :
    readFrom fault .form (opened items :: stack) (xs.flatMap tokens ++ rest) =
      readFrom fault .form (opened (xs.reverse ++ items) :: stack) rest := by
  have hpieces : ∀ p ∈ xs.map fun x => (tokens x, x), ∀ items rest,
      readFrom fault .form (opened items :: stack) (p.1 ++ rest) =
        resume fault (deliver p.2 (opened items :: stack)) rest := by
    intro p hp items rest
    obtain ⟨x, hx, rfl⟩ := List.mem_map.1 hp
    exact h x hx fault _ rest
  have hread := readFrom_pieces opened hc fault stack hpieces items rest
  simpa [List.flatMap_map, Function.comp_def] using hread

theorem Reads.list (h : ∀ x ∈ xs, Reads (tokens x) x) :
    Reads (⟨.leftParen, ['(']⟩ :: (xs.flatMap tokens ++ [⟨.rightParen, [')']⟩])) (.list xs) := by
  intro fault stack rest
  rw [List.cons_append, List.append_assoc]
  show readFrom fault .form (.list [] :: stack) _ = _
  rw [readFrom_items .list (fun _ _ _ => rfl) h]
  refine readFrom_of_feed ?_ rest
  show deliver (.list (xs.reverse ++ []).reverse) stack = _
  rw [List.append_nil, List.reverse_reverse]

theorem Reads.vector (h : ∀ x ∈ xs, Reads (tokens x) x) :
    Reads (⟨.vector, ['#', '(']⟩ :: (xs.flatMap tokens ++ [⟨.rightParen, [')']⟩]))
      (.vector xs) := by
  intro fault stack rest
  rw [List.cons_append, List.append_assoc]
  show readFrom fault .form (.vector [] :: stack) _ = _
  rw [readFrom_items .vector (fun _ _ _ => rfl) h]
  refine readFrom_of_feed ?_ rest
  show deliver (.vector (xs.reverse ++ []).reverse) stack = _
  rw [List.append_nil, List.reverse_reverse]

/-- The dot stands between the items and the tail. -/
theorem Reads.dotted {ts : List Token} {v : Value} (h : ∀ x ∈ xs, Reads (tokens x) x)
    (ht : Reads ts v) :
    Reads (⟨.leftParen, ['(']⟩ ::
      (xs.flatMap tokens ++ (⟨.symbol, ['.']⟩ :: (ts ++ [⟨.rightParen, [')']⟩]))))
        (.dotted xs v) := by
  intro fault stack rest
  rw [List.cons_append, List.append_assoc, List.cons_append, List.append_assoc]
  show readFrom fault .form (.list [] :: stack) _ = _
  rw [readFrom_items .list (fun _ _ _ => rfl) h, List.append_nil]
  show readFrom fault .form (.tail xs.reverse :: stack) _ = _
  rw [ht]
  have hend : feed (.listEnd xs.reverse v) stack ⟨.rightParen, [')']⟩ =
      deliver (.dotted xs v) stack := by
    show deliver (.dotted xs.reverse.reverse v) stack = _
    rw [List.reverse_reverse]
  exact readFrom_of_feed hend rest

/-! ## Mappings -/

open Value in
theorem insertEntry_of_new {k : Value} {es : List (Value × Value)}
    (h : ∀ e ∈ es, sameKey k e.1 = false) (v : Value) :
    insertEntry k v es = es ++ [(k, v)] := by
  induction es with
  | nil => rfl
  | cons e es ih =>
      rw [insertEntry, h e (by simp), ih fun f hf => h f (by simp [hf])]
      rfl

def entryItems (es : List (Value × Value)) : List Value := es.flatMap fun e => [e.1, e.2]

theorem length_entryItems (es : List (Value × Value)) :
    (entryItems es).length = 2 * es.length := by
  induction es with
  | nil => rfl
  | cons e es ih =>
      show (entryItems es).length + 1 + 1 = _
      rw [ih, List.length_cons]
      omega

open Value in
/-- Entries whose keys differ keep their number and their order. -/
theorem mapOfPairs_entryItems (es acc : List (Value × Value)) (hkey : ∀ e ∈ es, e.1.hashable = true)
    (hnew : (acc ++ es).Pairwise fun d e => sameKey e.1 d.1 = false) :
    mapOfPairs acc (entryItems es) = .ok (.map (acc ++ es)) := by
  induction es generalizing acc with
  | nil => rw [List.append_nil]; rfl
  | cons e es ih =>
      have hacc : ∀ d ∈ acc, sameKey e.1 d.1 = false := fun d hd =>
        (List.pairwise_append.1 hnew).2.2 d hd e (by simp)
      show (if e.1.hashable then mapOfPairs (insertEntry e.1 e.2 acc) (entryItems es) else _) = _
      rw [if_pos (hkey e (by simp)), insertEntry_of_new hacc,
        ih _ (fun f hf => hkey f (by simp [hf])) (by simpa using hnew)]
      simp

theorem Reads.map {es : List (Value × Value)} (h : ∀ x ∈ entryItems es, Reads (tokens x) x)
    (hkey : ∀ e ∈ es, e.1.hashable = true)
    (hnew : es.Pairwise fun d e => Value.sameKey e.1 d.1 = false) :
    Reads (⟨.leftBrace, ['\x7b']⟩ ::
      ((entryItems es).flatMap tokens ++ [⟨.rightBrace, ['\x7d']⟩])) (.map es) := by
  intro fault stack rest
  rw [List.cons_append, List.append_assoc]
  show readFrom fault .form (.mapping [] :: stack) _ = _
  rw [readFrom_items .mapping (fun _ _ _ => rfl) h, List.append_nil]
  refine readFrom_of_feed ?_ rest
  have heven : ¬ (entryItems es).reverse.length % 2 = 1 := by
    rw [List.length_reverse, length_entryItems]
    omega
  show (if (entryItems es).reverse.length % 2 = 1 then _ else _) = _
  rw [if_neg heven, List.reverse_reverse, Value.ofPairs,
    mapOfPairs_entryItems es [] hkey (by simpa using hnew)]
  rfl

/-! ## A whole text -/

/-- Reading all forms of a stream takes each datum off in turn. -/
theorem readAll_flatMap (h : ∀ x ∈ xs, Reads (tokens x) x) (fuel : Nat) (hfuel : xs.length < fuel) :
    readAll fuel ⟨xs.flatMap tokens, none⟩ = (xs, none, TokenStream.finished) := by
  induction xs generalizing fuel with
  | nil =>
      cases fuel with
      | zero => exact absurd hfuel (by simp)
      | succ fuel => rfl
  | cons x xs ih =>
      cases fuel with
      | zero => exact absurd hfuel (by simp)
      | succ fuel =>
          have hx : next ⟨(x :: xs).flatMap tokens, none⟩ =
              (.ok (some x), ⟨xs.flatMap tokens, none⟩) := by
            rw [next, List.flatMap_cons]
            exact h x (by simp) none [] (xs.flatMap tokens)
          have hxs := ih (fun y hy => h y (by simp [hy])) fuel (by simpa using hfuel)
          rw [readAll, hx]
          simp only [hxs]

theorem all_flatMap (h : ∀ x ∈ xs, Reads (tokens x) x) :
    all ⟨xs.flatMap tokens, none⟩ = (xs, none, TokenStream.finished) := by
  refine readAll_flatMap h _ (Nat.lt_succ_of_le ?_)
  rw [List.length_flatMap]
  induction xs with
  | nil => simp
  | cons x xs ih =>
      have hx := List.length_pos_iff.2 (h x (by simp)).ne_nil
      have hxs := ih fun y hy => h y (by simp [hy])
      simp only [List.length_cons, List.map_cons, List.sum_cons]
      omega

end Form
end SlotLisp
