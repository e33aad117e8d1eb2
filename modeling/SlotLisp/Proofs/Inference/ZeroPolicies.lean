import SlotLisp.Proofs.Inference.Completion
import SlotLisp.Proofs.State.Text
import SlotLisp.Session

/-!
The three policies that give a slot without a default the empty value of its type. They differ at
the slots whose type has none: one of them refuses the definition, one puts in a default that fails
where it is used, and one leaves the slot as it is. What a slot becomes is put on record at once, so
that a declaration that changes and holds something without a text ends the definition under any of
them.
-/

namespace SlotLisp

/-- A pass over a list that goes through has gone through the first item and through the rest. -/
theorem mapM_cons_eq_ok {ε α β : Type} {f : α → Except ε β} {x : α} {xs : List α} {ys : List β}
    (h : (x :: xs).mapM f = .ok ys) : ∃ z zs, f x = .ok z ∧ xs.mapM f = .ok zs ∧ ys = z :: zs := by
  rw [List.mapM_cons] at h
  obtain ⟨z, hz, h⟩ := bind_eq_ok h
  obtain ⟨zs, hzs, h⟩ := bind_eq_ok h
  exact ⟨z, zs, hz, hzs, (Except.ok.inj h).symm⟩

theorem mem_mapM {ε α β : Type} {f : α → Except ε β} {xs : List α} {ys : List β}
    (h : xs.mapM f = .ok ys) {x : α} (hx : x ∈ xs) : ∃ y ∈ ys, f x = .ok y := by
  induction xs generalizing ys with
  | nil => exact absurd hx List.not_mem_nil
  | cons a xs ih =>
      obtain ⟨b, bs, hb, hbs, rfl⟩ := mapM_cons_eq_ok h
      rcases List.mem_cons.1 hx with rfl | hx
      · exact ⟨b, List.mem_cons_self, hb⟩
      · obtain ⟨y, hy, hfy⟩ := ih hbs hx
        exact ⟨y, List.mem_cons_of_mem _ hy, hfy⟩

/-- The policies that go by the empty values of types. -/
inductive Policy.Zero : Policy → Prop
  | buildError : Zero .buildError
  | deferredError : Zero .deferredError
  | nilFallback : Zero .nilFallback

namespace Declaration

/-- The type of a slot that has no default, where that type has no empty value. -/
def unknownType? (d : Declaration) : Option Value :=
  match d.default with
  | some _ => none
  | none => d.type?.filter fun t => (zeroValue? t).isNone

variable {d : Declaration} {t : Value}

theorem unknownType?_eq_some (h : d.unknownType? = some t) :
    d.default = none ∧ d.type? = some t ∧ zeroValue? t = none := by
  unfold unknownType? at h
  split at h
  next => exact absurd h (by simp)
  next hdefault =>
    obtain ⟨htype, hzero⟩ := Option.filter_eq_some_iff.1 h
    exact ⟨hdefault, htype, Option.isNone_iff_eq_none.1 hzero⟩

/-- Where the type is known, all three policies answer the same. -/
theorem zeroDefault_known {p q : Policy} (h : d.unknownType? = none) (hdefault : d.default = none) :
    ∃ v, p.zeroDefault d = .ok v ∧ q.zeroDefault d = .ok v := by
  rw [unknownType?, hdefault] at h
  rw [Policy.zeroDefault, Policy.zeroDefault]
  cases htype : d.type? with
  | none => exact ⟨none, rfl, rfl⟩
  | some t =>
      rw [htype] at h
      dsimp only
      cases hzero : zeroValue? t with
      | none => exact absurd h (by simp [hzero])
      | some form => exact ⟨some form, rfl, rfl⟩

theorem zeroDefault_unknown (p : Policy) (h : d.unknownType? = some t) :
    p.zeroDefault d = p.unknownType d.name t := by
  obtain ⟨-, htype, hzero⟩ := unknownType?_eq_some h
  rw [Policy.zeroDefault, htype]
  dsimp only
  rw [hzero]

def firstUnknown? : List Declaration → Option (Symbol × Value)
  | [] => none
  | d :: ds =>
    match d.unknownType? with
    | some t => some (d.name, t)
    | none => firstUnknown? ds

end Declaration

namespace State

/-! ## Completion with any policy for types -/

def gainWith (p : Policy) (type : Declaration → Option Value) (d : Declaration) :
    Except Error (Option Declaration) :=
  match d.default, d.type? with
  | some _, some _ => .ok none
  | some _, none => .ok ((type d).map d.withType)
  | none, _ => do return (← p.zeroDefault d).map d.withDefault

/-- What becomes of the form of a declaration that gains so much. A change is put on record, for
which both forms need a text. -/
def changed (s : State) (form : Value) : Option Declaration → Except Error Value
  | none => .ok form
  | some e =>
    match (s.textFault? form).or (s.textFault? e.toForm) with
    | none => .ok e.toForm
    | some f => .error (.fault f)

def completeWith (s : State) (p : Policy) (type : Declaration → Option Value) (form : Value) :
    Except Error Value := do
  let d ← Declaration.ofForm form
  s.changed form (← gainWith p type d)

def completeAllWith (s : State) (p : Policy) (type : Declaration → Option Value)
    (forms : List Value) :
    Except Error (List Value) := forms.mapM (s.completeWith p type)

variable {s : State} {type : Declaration → Option Value}

theorem completeAllWith_cons (s : State) (p : Policy) (type : Declaration → Option Value)
    (form : Value) (forms : List Value) : s.completeAllWith p type (form :: forms) = do
      let v ← s.completeWith p type form
      let vs ← s.completeAllWith p type forms
      return v :: vs :=
  List.mapM_cons

theorem infer_zero {p : Policy} (hp : p.Zero) (d : Declaration) (env : Option FrameId) :
    s.infer .initform (.policy p) d env = p.zeroDefault d := by
  cases hp <;> rfl

theorem gain_eq_gainWith {p : Policy} (hp : p.Zero) {c : Choice} {env : Option FrameId}
    (hc : ∀ d, s.infer .type c d env = .ok (type d)) (d : Declaration) :
    s.gain ⟨.policy p, c⟩ env d = gainWith p type d := by
  rw [gain, gainWith]
  cases d.default with
  | none =>
      dsimp only
      rw [infer_zero hp]
  | some v =>
      cases d.type? with
      | none =>
          dsimp only
          rw [hc]
          rfl
      | some t => rfl

/-- A form is completed by what its declaration gains. -/
theorem complete_eq_changed (s : State) (ps : Policies) (env : Option FrameId) (form : Value) :
    s.complete ps env form = (do
      let d ← Declaration.ofForm form
      s.changed form (← s.gain ps env d)) := by
  rw [complete, completion]
  cases Declaration.ofForm form with
  | error e => rfl
  | ok d =>
      simp only [bind, Except.bind]
      cases s.gain ps env d with
      | error e => rfl
      | ok g =>
          cases g with
          | none => rfl
          | some e =>
              dsimp only [changed]
              cases (s.textFault? form).or (s.textFault? e.toForm) <;> rfl

theorem complete_eq_completeWith {p : Policy} (hp : p.Zero) {c : Choice} {env : Option FrameId}
    (hc : ∀ d, s.infer .type c d env = .ok (type d)) (form : Value) :
    s.complete ⟨.policy p, c⟩ env form = s.completeWith p type form := by
  rw [complete_eq_changed, completeWith, funext (gain_eq_gainWith hp hc)]

theorem completeAll_eq_mapM (s : State) (ps : Policies) (env : Option FrameId)
    (forms : List Value) :
    s.completeAll ps env forms = forms.mapM (s.complete ps env) := by
  induction forms with
  | nil => rfl
  | cons form forms ih => rw [completeAll, List.mapM_cons, ih]

/-- A policy for types that always answers is such a function. -/
theorem completeAll_eq_completeAllWith {p : Policy} (hp : p.Zero) {c : Choice}
    {env : Option FrameId} (hc : ∀ d, s.infer .type c d env = .ok (type d)) (forms : List Value) :
    s.completeAll ⟨.policy p, c⟩ env forms = s.completeAllWith p type forms := by
  rw [completeAll_eq_mapM, completeAllWith, funext (complete_eq_completeWith hp hc)]

/-! ## One declaration -/

variable {p : Policy} {form : Value} {d e : Declaration}

theorem gainWith_known {q : Policy} (h : d.unknownType? = none) :
    ∃ r, gainWith p type d = .ok r ∧ gainWith q type d = .ok r := by
  rw [gainWith, gainWith]
  cases hdefault : d.default with
  | none =>
      obtain ⟨v, hp, hq⟩ := Declaration.zeroDefault_known (p := p) (q := q) h hdefault
      dsimp only
      rw [hp, hq]
      exact ⟨_, rfl, rfl⟩
  | some v =>
      cases d.type? with
      | none => exact ⟨_, rfl, rfl⟩
      | some t => exact ⟨_, rfl, rfl⟩

theorem gainWith_unknown {t : Value} (h : d.unknownType? = some t) :
    gainWith p type d = do return (← p.unknownType d.name t).map d.withDefault := by
  obtain ⟨hdefault, -, -⟩ := Declaration.unknownType?_eq_some h
  rw [gainWith, hdefault]
  dsimp only
  rw [Declaration.zeroDefault_unknown p h]

theorem completeWith_eq (hd : Declaration.ofForm form = .ok d) :
    s.completeWith p type form = gainWith p type d >>= s.changed form := by
  rw [completeWith, hd]
  rfl

/-- Where the type is known, all three policies make the same of a declaration. -/
theorem completeWith_known {q : Policy} (hd : Declaration.ofForm form = .ok d)
    (h : d.unknownType? = none) : s.completeWith p type form = s.completeWith q type form := by
  obtain ⟨r, hp, hq⟩ : ∃ r, gainWith p type d = .ok r ∧ gainWith q type d = .ok r :=
    gainWith_known h
  rw [completeWith_eq hd, completeWith_eq hd, hp, hq]

/-- A slot with a type is declared by a list. -/
theorem items?_of_type? {t : Value} (hd : Declaration.ofForm form = .ok d) (h : d.type? = some t) :
    ∃ parts, form.items? = some (.symbol d.name :: parts) ∧
    d.toForm = .list (.symbol d.name :: parts) := by
  unfold Declaration.ofForm at hd
  split at hd
  next n =>
    obtain rfl := Except.ok.inj hd
    exact absurd h (by simp [Declaration.type?, Declaration.option?])
  next =>
    split at hd
    next n parts hitems =>
      obtain rfl := Except.ok.inj hd
      have hform := Declaration.toForm_ofParts n parts
      have hname : (Declaration.ofParts n parts).name = n := by
        have := Value.list.inj hform
        exact Value.symbol.inj (List.cons.inj this).1
      rw [hname]
      exact ⟨parts, hitems, hform⟩
    next => exact absurd hd (by simp)
    next => exact absurd hd (by simp)

/-- The trap of a slot of unknown type stands in front of its options, and nothing else changes. -/
theorem toForm_trap {t : Value} (hd : Declaration.ofForm form = .ok d)
    (h : d.unknownType? = some t) :
    ∃ parts, form.items? = some (.symbol d.name :: parts) ∧
      (d.withDefault (.unsupplied none d.name t)).toForm =
        .list (.symbol d.name :: .unsupplied none d.name t :: parts) := by
  obtain ⟨hdefault, htype, -⟩ := Declaration.unknownType?_eq_some h
  obtain ⟨parts, hitems, hform⟩ := items?_of_type? hd htype
  refine ⟨parts, hitems, ?_⟩
  rw [Declaration.toForm, hdefault] at hform
  obtain ⟨-, rfl⟩ := List.cons.inj (Value.list.inj hform)
  rfl

theorem changed_eq_ok {g : Option Declaration} {v : Value} (h : s.changed form g = .ok v) :
    ∀ e, g = some e → s.writable form = true ∧ s.writable e.toForm = true := by
  rintro e rfl
  dsimp only [changed] at h
  split at h
  next hw => simpa [writable_iff] using hw
  next => exact absurd h (by simp)

theorem changed_some {e : Declaration} (hform : s.writable form = true)
    (he : s.writable e.toForm = true) :
    s.changed form (some e) = .ok e.toForm := by
  rw [writable_iff] at hform he
  rw [changed, hform, he]
  rfl

theorem changed_of_writable {g : Option Declaration}
    (h : ∀ e, g = some e → s.writable form = true ∧ s.writable e.toForm = true) :
    ∃ v, s.changed form g = .ok v := by
  cases g with
  | none => exact ⟨form, rfl⟩
  | some e => exact ⟨e.toForm, changed_some (h e rfl).1 (h e rfl).2⟩

theorem gainWith_deferred (type : Declaration → Option Value) (d : Declaration) :
    ∃ g, gainWith .deferredError type d = .ok g := by
  cases h : d.unknownType? with
  | none =>
      obtain ⟨g, hg, -⟩ := gainWith_known (q := .deferredError) h
      exact ⟨g, hg⟩
  | some t => exact ⟨_, gainWith_unknown h⟩

/-! ## All declarations -/

/-- What becomes of declarations where slots of unknown type stay without a default, and where they
get one that fails. The results differ at exactly these slots. -/
inductive Diverge : List Value → List Value → List Value → Prop
  | nil : Diverge [] [] []
  | known {form v : Value} {d : Declaration} {forms vs ws : List Value}
      (hd : Declaration.ofForm form = .ok d) (h : d.unknownType? = none)
      (hrest : Diverge forms vs ws) :
      Diverge (form :: forms) (v :: vs) (v :: ws)
  | unknown {form t : Value} {d : Declaration} {parts forms vs ws : List Value}
      (hd : Declaration.ofForm form = .ok d) (h : d.unknownType? = some t)
      (hparts : form.items? = some (.symbol d.name :: parts)) (hrest : Diverge forms vs ws) :
      Diverge (form :: forms) (form :: vs)
        (.list (.symbol d.name :: .unsupplied none d.name t :: parts) :: ws)

/-- Whether what a policy for defaults makes of the declarations differs between the three policies
at the slots of unknown type and nowhere else. -/
def PoliciesAgree (s : State) (forms : List Value) (ds : List Declaration)
    (result : Policy → Except Error (List Value)) : Prop :=
  match Declaration.firstUnknown? ds with
  | none =>
    ∃ vs, result .buildError = .ok vs ∧ result .deferredError = .ok vs ∧
      result .nilFallback = .ok vs
  | some (slot, t) =>
    (∃ e, result .buildError = .error e ∧ s.settle e = .noDefault slot t) ∧
      ∃ vs ws, result .nilFallback = .ok vs ∧ result .deferredError = .ok ws ∧ Diverge forms vs ws

/-- Whether every declaration that gains something has a text, before and after. -/
def GainsWritable (s : State) (type : Declaration → Option Value) (forms : List Value) : Prop :=
  ∀ form ∈ forms, ∀ d e, Declaration.ofForm form = .ok d →
    gainWith .deferredError type d = .ok (some e) → s.writable form = true ∧
    s.writable e.toForm = true

theorem completeAllWith_cons_ok {forms vs : List Value} {v : Value}
    (hv : s.completeWith p type form = .ok v) (hvs : s.completeAllWith p type forms = .ok vs) :
    s.completeAllWith p type (form :: forms) = .ok (v :: vs) := by
  rw [completeAllWith_cons, hv, hvs]
  rfl

/-- A definition that goes through has put every change on record. -/
theorem gainsWritable_of_ok {forms ws : List Value}
    (h : s.completeAllWith .deferredError type forms = .ok ws) : s.GainsWritable type forms := by
  intro form hform d e hd he
  obtain ⟨v, -, hv⟩ := mem_mapM h hform
  rw [completeWith_eq hd, he] at hv
  have hv' : s.changed form (some e) = .ok v := hv
  exact changed_eq_ok hv' e rfl

theorem completeWith_nilFallback {t : Value} (hd : Declaration.ofForm form = .ok d)
    (h : d.unknownType? = some t) : s.completeWith .nilFallback type form = .ok form := by
  rw [completeWith_eq hd, gainWith_unknown h]
  rfl

theorem completeWith_buildError {t : Value} (hd : Declaration.ofForm form = .ok d)
    (h : d.unknownType? = some t) :
    s.completeWith .buildError type form = .error (.noDefault d.name t) := by
  rw [completeWith_eq hd, gainWith_unknown h]
  rfl

theorem gainWith_deferredError {t : Value} (h : d.unknownType? = some t) :
    gainWith .deferredError type d = .ok (some (d.withDefault (.unsupplied none d.name t))) := by
  rw [gainWith_unknown h]
  rfl

/-- Without a change that has no text, a known declaration is completed, the same way under all
policies. -/
theorem completeWith_known_ok {forms : List Value} (h : s.GainsWritable type (form :: forms))
    (hd : Declaration.ofForm form = .ok d) (hknown : d.unknownType? = none) :
    ∃ v, ∀ p, s.completeWith p type form = .ok v := by
  obtain ⟨g, hg⟩ := gainWith_deferred type d
  obtain ⟨v, hv⟩ := changed_of_writable (g := g) fun e he =>
    h form List.mem_cons_self d e hd (he ▸ hg)
  refine ⟨v, fun p => ?_⟩
  rw [completeWith_known (q := .deferredError) hd hknown, completeWith_eq hd, hg]
  exact hv

theorem diverge_of_writable {forms : List Value} {ds : List Declaration}
    (hds : forms.mapM Declaration.ofForm = .ok ds) (h : s.GainsWritable type forms) :
    ∃ vs ws, s.completeAllWith .nilFallback type forms = .ok vs ∧
      s.completeAllWith .deferredError type forms = .ok ws ∧ Diverge forms vs ws := by
  induction forms generalizing ds with
  | nil => exact ⟨[], [], rfl, rfl, .nil⟩
  | cons form forms ih =>
      obtain ⟨d, es, hd, hes, rfl⟩ := mapM_cons_eq_ok hds
      obtain ⟨vs, ws, hvs, hws, hrest⟩ := ih hes fun x hx => h x (List.mem_cons_of_mem _ hx)
      cases hunknown : d.unknownType? with
      | none =>
          obtain ⟨v, hv⟩ := completeWith_known_ok h hd hunknown
          exact ⟨v :: vs, v :: ws, completeAllWith_cons_ok (hv _) hvs,
            completeAllWith_cons_ok (hv _) hws,
            .known hd hunknown hrest⟩
      | some t =>
          obtain ⟨parts, hparts, htrap⟩ := toForm_trap hd hunknown
          have hgain : gainWith .deferredError type d =
              .ok (some (d.withDefault (.unsupplied none d.name t))) :=
                gainWith_deferredError hunknown
          obtain ⟨hform, he⟩ := h form List.mem_cons_self d _ hd hgain
          have hdeferred : s.completeWith .deferredError type form =
              .ok (.list (.symbol d.name :: .unsupplied none d.name t :: parts)) := by
            rw [completeWith_eq hd, hgain, ← htrap]
            exact changed_some hform he
          exact ⟨form :: vs, _, completeAllWith_cons_ok (completeWith_nilFallback hd hunknown) hvs,
            completeAllWith_cons_ok hdeferred hws, .unknown hd hunknown hparts hrest⟩

/-- Where all types are known, all three policies make the same of the declarations. -/
theorem completeAllWith_known {q : Policy} {forms : List Value} {ds : List Declaration}
    (hds : forms.mapM Declaration.ofForm = .ok ds) (hknown : Declaration.firstUnknown? ds = none) :
    s.completeAllWith p type forms = s.completeAllWith q type forms := by
  induction forms generalizing ds with
  | nil => rfl
  | cons form forms ih =>
      obtain ⟨d, es, hd, hes, rfl⟩ := mapM_cons_eq_ok hds
      cases hunknown : d.unknownType? with
      | none =>
          rw [Declaration.firstUnknown?, hunknown] at hknown
          rw [completeAllWith_cons, completeAllWith_cons, completeWith_known (q := q) hd hunknown,
            ih hes hknown]
      | some t =>
          rw [Declaration.firstUnknown?, hunknown] at hknown
          exact absurd hknown (by simp)

theorem mem_unpairs {k v : Value} :
    ∀ {os : List (Value × Value)}, (k, v) ∈ os → v ∈ Declaration.unpairs os
  | [], h => absurd h List.not_mem_nil
  | o :: os, h => by
      rw [Declaration.unpairs]
      rcases List.mem_cons.1 h with rfl | h
      · exact List.mem_cons_of_mem _ List.mem_cons_self
      · exact List.mem_cons_of_mem _ (List.mem_cons_of_mem _ (mem_unpairs h))

/-- The type of a slot stands in its declaration, so it has a text where that has one. -/
theorem writable_type {t : Value} (htype : d.type? = some t) (hw : s.writable d.toForm = true) :
    s.writable t = true := by
  obtain ⟨⟨k, v⟩, ho, rfl⟩ := Option.map_eq_some_iff.1 htype
  have ht : v ∈ .symbol d.name :: (d.default.toList ++ Declaration.unpairs d.options) :=
    List.mem_cons_of_mem _ (List.mem_append_right _ (mem_unpairs (List.mem_of_find?_eq_some ho)))
  exact writable_list.1 hw v ht

theorem settle_noDefault {slot : Symbol} {t : Value} (h : s.writable t = true) :
    s.settle (.noDefault slot t) = .noDefault slot t := by
  rw [settle_eq_self_iff]
  simp [Error.pieces, Piece.symbol, Piece.source, h]

/-- Without a change that has no text, the definition is refused for the first slot of unknown
type. -/
theorem completeAllWith_buildError {forms : List Value} {ds : List Declaration}
    {slot : Symbol} {t : Value} (hds : forms.mapM Declaration.ofForm = .ok ds)
    (h : s.GainsWritable type forms) (hunknown : Declaration.firstUnknown? ds = some (slot, t)) :
    s.completeAllWith .buildError type forms = .error (.noDefault slot t) ∧
      s.settle (.noDefault slot t) = .noDefault slot t := by
  induction forms generalizing ds with
  | nil =>
      obtain rfl := Except.ok.inj hds
      exact absurd hunknown (by simp [Declaration.firstUnknown?])
  | cons form forms ih =>
      obtain ⟨d, es, hd, hes, rfl⟩ := mapM_cons_eq_ok hds
      cases hd' : d.unknownType? with
      | none =>
          rw [Declaration.firstUnknown?, hd'] at hunknown
          obtain ⟨v, hv⟩ := completeWith_known_ok h hd hd'
          obtain ⟨herr, hsettle⟩ := ih hes (fun x hx => h x (List.mem_cons_of_mem _ hx)) hunknown
          refine ⟨?_, hsettle⟩
          rw [completeAllWith_cons, hv, herr]
          rfl
      | some t' =>
          rw [Declaration.firstUnknown?, hd'] at hunknown
          obtain ⟨rfl, rfl⟩ := Prod.mk.inj (Option.some.inj hunknown)
          obtain ⟨-, htrap⟩ := h form List.mem_cons_self d _ hd (gainWith_deferredError hd')
          obtain ⟨-, htype, -⟩ := Declaration.unknownType?_eq_some hd'
          have ht : s.writable t' = true := writable_type (d := d.withDefault _) htype htrap
          refine ⟨?_, settle_noDefault ht⟩
          rw [completeAllWith_cons, completeWith_buildError hd hd']
          rfl

theorem policiesAgree_completeAllWith (type : Declaration → Option Value) {forms : List Value}
    {ds : List Declaration} (hds : forms.mapM Declaration.ofForm = .ok ds) :
    s.PoliciesAgree forms ds (s.completeAllWith · type forms) ↔ s.GainsWritable type forms := by
  constructor
  · intro h
    unfold PoliciesAgree at h
    split at h
    next =>
      obtain ⟨vs, -, hvs, -⟩ := h
      exact gainsWritable_of_ok hvs
    next =>
      obtain ⟨-, vs, ws, -, hws, -⟩ := h
      exact gainsWritable_of_ok hws
  · intro h
    obtain ⟨vs, ws, hvs, hws, hdiverge⟩ := diverge_of_writable hds h
    unfold PoliciesAgree
    split
    next hknown =>
      have hall := fun p => (completeAllWith_known (p := p) hds hknown).trans hvs
      exact ⟨vs, hall _, hall _, hall _⟩
    next slot t hunknown =>
      obtain ⟨herr, hsettle⟩ := completeAllWith_buildError hds h hunknown
      exact ⟨⟨_, herr, hsettle⟩, vs, ws, hvs, hws, hdiverge⟩

/-- Only the results of the three policies count. -/
theorem policiesAgree_congr {forms : List Value} {ds : List Declaration}
    {result result' : Policy → Except Error (List Value)}
    (h : ∀ p : Policy, p.Zero → result p = result' p) :
    s.PoliciesAgree forms ds result ↔ s.PoliciesAgree forms ds result' := by
  rw [PoliciesAgree, PoliciesAgree, h _ .buildError, h _ .deferredError, h _ .nilFallback]

/-- The three policies differ at the slots of unknown type and nowhere else, exactly if each
declaration that changes has a text before and after. This holds with any function for the types of
the other slots, so with any policy for types that always answers. -/
theorem policies_agree_iff (s : State) (type : Declaration → Option Value) {forms : List Value}
    {ds : List Declaration} (hds : forms.mapM Declaration.ofForm = .ok ds) :
    (s.PoliciesAgree forms ds (s.completeAllWith · type forms) ↔ s.GainsWritable type forms) ∧
      ∀ (c : Choice) (env : Option FrameId), (∀ d, s.infer .type c d env = .ok (type d)) →
        (s.PoliciesAgree forms ds (fun p => s.completeAll ⟨.policy p, c⟩ env forms) ↔
          s.GainsWritable type forms) := by
  have hiff := policiesAgree_completeAllWith (s := s) type hds
  refine ⟨hiff, fun c env hc => ?_⟩
  rw [← hiff]
  exact policiesAgree_congr fun p hp => completeAll_eq_completeAllWith hp hc forms

/-- A truth value, a slot that gets the empty string, and one of a type that has no empty value. -/
theorem policies_agree_iff_widget :
    let s := (Session.full (State.start Settings.standard) none).1
    let x : Declaration := ⟨⟨"x"⟩, some (.bool true), []⟩
    let y : Declaration := ⟨⟨"y"⟩, none, [(.symbol Declaration.typeKey, .symbol ⟨"string"⟩)]⟩
    let z : Declaration := ⟨⟨"z"⟩, none, [(.symbol Declaration.typeKey, .symbol ⟨"widget"⟩)]⟩
    let forms := [x.toForm, y.toForm, z.toForm]
    let type : Declaration → Option Value :=
      fun d => (s.classify (d.default.getD .absent) (some 0)).map .symbol
    let result := fun p => s.completeAll ⟨.policy p, .policy .generalType⟩ (some 0) forms
    forms.mapM Declaration.ofForm = .ok [x, y, z] ∧
      (∀ d, s.infer .type (.policy .generalType) d (some 0) = .ok (type d)) ∧
      Declaration.firstUnknown? [x, y, z] = some (⟨"z"⟩, .symbol ⟨"widget"⟩) ∧
      s.GainsWritable type forms ∧ s.PoliciesAgree forms [x, y, z] result ∧
      result .nilFallback = .ok [(x.withType (.symbol ⟨"boolean"⟩)).toForm,
        (y.withDefault (.str .empty)).toForm, z.toForm] ∧
      result .deferredError = .ok [(x.withType (.symbol ⟨"boolean"⟩)).toForm,
        (y.withDefault (.str .empty)).toForm,
        (z.withDefault (.unsupplied none ⟨"z"⟩ (.symbol ⟨"widget"⟩))).toForm] := by
  intro s x y z forms type result
  have hds : forms.mapM Declaration.ofForm = .ok [x, y, z] := by
    simp only [forms, List.mapM_cons, List.mapM_nil, Declaration.ofForm_toForm]
    rfl
  have htype : ∀ d, s.infer .type (.policy .generalType) d (some 0) = .ok (type d) := fun d => rfl
  have hw : s.GainsWritable type forms := by
    intro form hform d e hd he
    simp only [forms, List.mem_cons, List.not_mem_nil, or_false] at hform
    rcases hform with rfl | rfl | rfl <;> rw [Declaration.ofForm_toForm] at hd <;> cases hd <;>
      cases he <;>
      exact ⟨rfl, rfl⟩
  refine ⟨hds, htype, rfl, hw, ((policies_agree_iff s type hds).2 _ _ htype).2 hw, ?_, ?_⟩
  -- the variables of the statement have to go before the two sides can be compared
  · dsimp only [result, forms, x, y, z, s]
    rfl
  · dsimp only [result, forms, x, y, z, s]
    rfl

/-- An option that no text can be made for keeps a slot from getting a default. -/
theorem not_policiesAgree_huge_option :
    let s := (Session.full (State.start Settings.standard) none).1
    let x : Declaration := ⟨⟨"x"⟩, none,
      [(.symbol Declaration.typeKey, .symbol ⟨"string"⟩),
        (.symbol ⟨":foo"⟩, .int (Nat.pow 10 maxDigits))]⟩
    let result := fun p => s.completeAll ⟨.policy p, .policy .generalType⟩ (some 0) [x.toForm]
    [x.toForm].mapM Declaration.ofForm = .ok [x] ∧
      (∀ p : Policy, p.Zero → result p = .error (.fault .badValue)) ∧
      ¬ s.PoliciesAgree [x.toForm] [x] result := by
  intro s x result
  have hds : [x.toForm].mapM Declaration.ofForm = .ok [x] := by
    simp only [List.mapM_cons, List.mapM_nil, Declaration.ofForm_toForm]
    rfl
  have hform : s.textFault? x.toForm = some .badValue := by
    have hdigits : fitsDigits (Nat.pow 10 maxDigits) = false := by decide +kernel
    simp only [x]
    generalize Nat.pow 10 maxDigits = n at hdigits ⊢
    simp [State.textFault?, Declaration.toForm, Declaration.unpairs, Value.textFault?,
      Value.itemsTextFault?, hdigits]
  have hfail : ∀ p : Policy, p.Zero → result p = .error (.fault .badValue) := by
    intro p hp
    have hgain : s.gain ⟨.policy p, .policy .generalType⟩ (some 0) x =
        .ok (some (x.withDefault (.str .empty))) := by
      cases hp <;> rfl
    simp only [result, completeAll, complete, completion, Declaration.ofForm_toForm, hgain,
      hform, bind,
      Except.bind, Option.some_or]
    rfl
  refine ⟨hds, hfail, ?_⟩
  rintro ⟨vs, hvs, -, -⟩
  rw [hfail _ .buildError] at hvs
  exact absurd hvs (by simp)

end State
end SlotLisp
