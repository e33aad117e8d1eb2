import SlotLisp.Proofs.Inference.Sources
import SlotLisp.Proofs.Inference.ZeroPolicies

/-!
The two facets do not get in each other's way. Each is decided from sources of its own, and what is
decided about one of them leaves alone every slot that it does not govern: a slot with a default as
far as defaults are concerned, and a slot without one, or with a type, as far as types are. Two
expansions are compared for that, in which everything may differ that has a say about one facet.

The environment has two parts in an expansion. It is a source for both facets, and it tells the type
of a default that is a variable. The one slot in which these meet has as its default the very
variable that selects the policy for defaults.
-/

namespace SlotLisp

def Facet.other : Facet → Facet
  | .initform => .type
  | .type => .initform

theorem Facet.eq_other {f g : Facet} (h : g ≠ f) : g = f.other := by
  cases f <;> cases g
  · exact absurd rfl h
  · rfl
  · rfl
  · exact absurd rfl h

/-- Whether what is decided about a facet can matter to a declaration. -/
def Facet.Governs (facet : Facet) (d : Declaration) : Prop :=
  match facet with
  | .initform => d.default = none
  | .type => d.default.isSome ∧ d.type? = none

def Policies.get (ps : Policies) : Facet → Choice
  | .initform => ps.initform
  | .type => ps.type

/-! ## Completion by any answers -/

def gainBy (infer : Facet → Declaration → Except Error (Option Value)) (d : Declaration) :
    Except Error (Option Declaration) :=
  match d.default, d.type? with
  | some _, some _ => .ok none
  | some _, none => do return (← infer .type d).map d.withType
  | none, _ => do return (← infer .initform d).map d.withDefault

/-- Only the facet that governs a declaration is asked. -/
theorem gainBy_congr {infer infer' : Facet → Declaration → Except Error (Option Value)}
    {d : Declaration} (h : ∀ facet : Facet, facet.Governs d → infer' facet d = infer facet d) :
    gainBy infer' d = gainBy infer d := by
  unfold gainBy
  cases hdefault : d.default with
  | none =>
      dsimp only
      rw [h .initform hdefault]
  | some v =>
      cases htype : d.type? with
      | none =>
          dsimp only
          rw [h .type ⟨by rw [hdefault]; rfl, htype⟩]
      | some t => rfl

namespace State

def completeBy (s : State) (infer : Facet → Declaration → Except Error (Option Value))
    (form : Value) :
    Except Error Value := do
  let d ← Declaration.ofForm form
  s.changed form (← gainBy infer d)

variable {s s' : State}

theorem complete_eq_completeBy (s : State) (ps : Policies) (env : Option FrameId) (form : Value) :
    s.complete ps env form = s.completeBy
      (fun facet d => s.infer facet (ps.get facet) d env) form := by
  have hgain : s.gain ps env = gainBy (fun facet d => s.infer facet (ps.get facet) d env) := rfl
  rw [complete_eq_changed, completeBy, hgain]

theorem completeAll_eq_completeBy (s : State) (ps : Policies) (env : Option FrameId)
    (forms : List Value) :
    s.completeAll ps env forms =
      forms.mapM (s.completeBy fun facet d => s.infer facet (ps.get facet) d env) := by
  rw [completeAll_eq_mapM, funext (complete_eq_completeBy s ps env)]

end State

/-- A pass over a list gives one result for each item. -/
theorem getElem?_mapM {ε α β : Type} {f : α → Except ε β} {xs : List α} {ys : List β}
    (h : xs.mapM f = .ok ys) :
    ys.length = xs.length ∧ ∀ (i : Nat) x, xs[i]? = some x → ∃ y, f x = .ok y ∧
    ys[i]? = some y := by
  induction xs generalizing ys with
  | nil =>
      obtain rfl := Except.ok.inj h
      exact ⟨rfl, by simp⟩
  | cons x xs ih =>
      obtain ⟨z, zs, hz, hzs, rfl⟩ := mapM_cons_eq_ok h
      obtain ⟨hlength, hitems⟩ := ih hzs
      refine ⟨by rw [List.length_cons, List.length_cons, hlength], fun i y hy => ?_⟩
      cases i with
      | zero =>
          obtain rfl := Option.some.inj hy
          exact ⟨z, hz, rfl⟩
      | succ i => exact hitems i y hy

/-- What two expansions make of declarations is the same wherever `Free` holds of the
declaration. -/
def AgreeWhere (Free : Declaration → Prop) (forms vs vs' : List Value) : Prop :=
  vs.length = forms.length ∧ vs'.length = forms.length ∧
    ∀ (i : Nat) form d, forms[i]? = some form → Declaration.ofForm form = .ok d → Free d →
    vs'[i]? = vs[i]?

theorem AgreeWhere.mono {Free Free' : Declaration → Prop} {forms vs vs' : List Value}
    (h : AgreeWhere Free forms vs vs') (hfree : ∀ d, Free' d → Free d) :
    AgreeWhere Free' forms vs vs' :=
  ⟨h.1, h.2.1, fun i form d hform hd hd' => h.2.2 i form d hform hd (hfree d hd')⟩

theorem agreeWhere_of_mapM {Free : Declaration → Prop} {f f' : Value → Except Error Value}
    {forms vs vs' : List Value} (hvs : forms.mapM f = .ok vs) (hvs' : forms.mapM f' = .ok vs')
    (h : ∀ form d, Declaration.ofForm form = .ok d → Free d → f' form = f form) :
    AgreeWhere Free forms vs vs' := by
  obtain ⟨hlength, hitems⟩ := getElem?_mapM hvs
  obtain ⟨hlength', hitems'⟩ := getElem?_mapM hvs'
  refine ⟨hlength, hlength', fun i form d hform hd hfree => ?_⟩
  obtain ⟨v, hv, hi⟩ := hitems i form hform
  obtain ⟨v', hv', hi'⟩ := hitems' i form hform
  rw [h form d hd hfree, hv] at hv'
  rw [hi, hi', Except.ok.inj hv']

/-! ## States that say different things about one facet -/

/-- Seen from a frame, two states differ at most in the variable of the session for one facet and in
what the process says, which both do not matter but to the choice of policies. -/
structure State.Beside (facet : Facet) (env : Option FrameId) (s s' : State) : Prop where
  classes : s'.classes = s.classes
  instances : s'.instances = s.instances
  policies : s'.settings.policies = s.settings.policies
  names : s'.settings.names = s.settings.names
  seen : ∀ name, name ≠ facet.variable → s'.nearest? env name = s.nearest? env name

namespace State.Beside

variable {facet : Facet} {env : Option FrameId} {s s' : State}

theorem policy? (h : Beside facet env s s') (id : PolicyId) :
    s'.settings.policy? id = s.settings.policy? id := by
  rw [Settings.policy?, h.policies, Settings.policy?]

theorem getClass (h : Beside facet env s s') (c : ClassId) : s'.getClass c = s.getClass c := by
  rw [State.getClass, h.classes, State.getClass]

theorem getInstance (h : Beside facet env s s') (i : InstanceId) :
    s'.getInstance i = s.getInstance i := by
  rw [State.getInstance, h.instances, State.getInstance]

theorem refFault? (h : Beside facet env s s') (inner : Ref → Option Fault) (depth : Nat) :
    s'.refFault? inner depth = s.refFault? inner depth := by
  induction depth with
  | zero =>
      funext r
      cases r <;> rfl
  | succ depth ih =>
      funext r
      cases r with
      | inst i => simp only [State.refFault?, h.getInstance, h.getClass, ih]
      | cls c => rfl
      | policy p => rfl

theorem innerFault? (h : Beside facet env s s') (n : Nat) : s'.innerFault? n = s.innerFault? n := by
  induction n with
  | zero => rfl
  | succ n ih =>
      rw [State.innerFault?, State.innerFault?, ih, h.refFault?, depthBound, depthBound,
        h.instances]

theorem textFault? (h : Beside facet env s s') (v : Value) : s'.textFault? v = s.textFault? v := by
  rw [State.textFault?, State.textFault?, h.innerFault?, h.innerFault?, depthBound, depthBound,
    h.instances]

theorem changed (h : Beside facet env s s') (form : Value) (g : Option Declaration) :
    s'.changed form g = s.changed form g := by
  cases g with
  | none => rfl
  | some e => rw [State.changed, State.changed, h.textFault?, h.textFault?]

theorem generalTypeOf (h : Beside facet env s s') (v : Value) :
    s'.generalTypeOf v = s.generalTypeOf v := by
  have htype : s'.typeOf v = s.typeOf v := by
    cases v with
    | ref r =>
        cases r with
        | cls c => rfl
        | inst i => simp only [State.typeOf, classOf, h.getInstance, h.getClass]
        | policy p => simp only [State.typeOf, h.policy?]
    | _ => rfl
  rw [State.generalTypeOf, State.generalTypeOf, htype]

theorem quotedType (h : Beside facet env s s') (v : Value) : s'.quotedType v = s.quotedType v := by
  unfold State.quotedType
  split
  all_goals first
  | rfl
  | exact h.generalTypeOf _

/-- The type of a form is the same, unless the form is the variable that selects the policy. -/
theorem classify (h : Beside facet env s s') {form : Value}
    (hform : form = .symbol facet.variable →
      s'.nearest? env facet.variable = s.nearest? env facet.variable) :
    s'.classify form env = s.classify form env := by
  have hseen : ∀ n, form = .symbol n → (env.bind fun f => s'.lookup? f n) = env.bind fun f =>
      s.lookup? f n := by
    rintro n rfl
    rw [← nearest?_eq, ← nearest?_eq]
    by_cases hn : n = facet.variable
    · subst hn
      exact hform rfl
    · exact h.seen n hn
  have htypes : s'.generalTypeOf = s.generalTypeOf := funext h.generalTypeOf
  have hquoted : s'.quotedType = s.quotedType := funext h.quotedType
  unfold State.classify
  rw [htypes, hquoted]
  split
  case h_6 n => rw [hseen n rfl]
  all_goals rfl

theorem resolve (h : Beside facet env s s') (g : Facet) (selector : Value) :
    s'.resolve g selector = s.resolve g selector := by
  have hchoice : s'.settings.choice = s.settings.choice := by
    funext v
    unfold Settings.choice
    simp only [h.policy?]
  unfold State.resolve
  rw [h.names, hchoice]
  simp only [h.policy?]

/-- What is inferred for the other facet is the same. -/
theorem infer (h : Beside facet env s s') (c : Choice) {d : Declaration}
    (hgoverns : facet.other.Governs d) (hdefault : d.default = some (.symbol facet.variable) →
      s'.nearest? env facet.variable = s.nearest? env facet.variable) :
    s'.infer facet.other c d env = s.infer facet.other c d env := by
  cases c with
  | off => rfl
  | stray v => rfl
  | policy p =>
      cases facet with
      | initform =>
          obtain ⟨hsome, -⟩ := hgoverns
          obtain ⟨form, hform⟩ := Option.isSome_iff_exists.1 hsome
          have hclass : s'.classify form env = s.classify form env := by
            refine h.classify fun hvar => hdefault ?_
            rw [hform, hvar]
          show s'.inferType p d env = s.inferType p d env
          cases p with
          | generalType => rw [inferType, inferType, hform, Option.getD_some, hclass]
          | _ => rfl
      | type =>
          have hnone : d.default = none := hgoverns
          show s'.inferDefault p d = s.inferDefault p d
          cases p with
          | generalType => rw [inferDefault, inferDefault, hnone, Option.getD_none]; rfl
          | _ => rfl

end State.Beside

/-! ## Two expansions -/

namespace State

/-- The declarations that what is said about `facet` leaves alone. -/
def Apart (facet : Facet) (env : Option FrameId) (s s' : State) (d : Declaration) : Prop :=
  ¬ facet.Governs d ∧ (d.default = some (.symbol facet.variable) →
    s'.nearest? env facet.variable = s.nearest? env facet.variable)

variable {facet : Facet} {env : Option FrameId} {s s' : State}

/-- Answers that differ for one facet only make a difference where that facet governs. -/
theorem completeBy_congr {infer infer' : Facet → Declaration → Except Error (Option Value)}
    {form : Value} {d : Declaration} (hd : Declaration.ofForm form = .ok d)
    (hfree : ¬ facet.Governs d)
    (hother : facet.other.Governs d → infer' facet.other d = infer facet.other d)
    (hchanged : ∀ g, s'.changed form g = s.changed form g) :
    s'.completeBy infer' form = s.completeBy infer form := by
  have hgain : gainBy infer' d = gainBy infer d := by
    refine gainBy_congr fun g hg => ?_
    have hne : g ≠ facet := fun heq => hfree (heq ▸ hg)
    rw [Facet.eq_other hne] at hg ⊢
    exact hother hg
  rw [completeBy, completeBy, hd]
  simp only [bind, Except.bind, hgain, hchanged]

theorem completeAll_agree (h : Beside facet env s s') {ps ps' : Policies}
    (hother : ps'.get facet.other = ps.get facet.other) {forms vs vs' : List Value}
    (hvs : s.completeAll ps env forms = .ok vs) (hvs' : s'.completeAll ps' env forms = .ok vs') :
    AgreeWhere (Apart facet env s s') forms vs vs' := by
  rw [completeAll_eq_completeBy] at hvs hvs'
  refine agreeWhere_of_mapM hvs hvs' fun form d hd hfree => ?_
  refine completeBy_congr hd hfree.1 (fun hgoverns => ?_) (h.changed form)
  show s'.infer facet.other (ps'.get facet.other) d env =
    s.infer facet.other (ps.get facet.other) d env
  rw [hother]
  exact h.infer _ hgoverns hfree.2

/-- The policies of an expansion are what the deciding selectors stand for. -/
theorem resolve_decided {selection : Option Selection} {options : List Value}
    {initform type : Choice}
    (hinitform : s.resolve .initform (s.decided env selection options .initform) = .ok initform)
    (htype : s.resolve .type (s.decided env selection options .type) = .ok type) (g : Facet) :
    s.resolve g (s.decided env selection options g) = .ok (Policies.get ⟨initform, type⟩ g) := by
  cases g with
  | initform => exact hinitform
  | type => exact htype

/-- Two expansions of the same declarations that say different things about one facet, each where it
has come to: they agree on the declarations which that facet leaves alone. -/
theorem expandClass_agree (hbeside : Beside facet env s s')
    {selection selection' : Option Selection} {name name' : Symbol} {bases bases' slots : Value}
    {options options' : List Value} {form form' : Value}
    (hdecided : s'.decided env selection' options' facet.other =
      s.decided env selection options facet.other)
    (h : s.expandClass (.symbol name :: bases :: slots :: options) env selection = .ok form)
    (h' : s'.expandClass (.symbol name' :: bases' :: slots :: options') env selection' =
      .ok form') :
    ∃ forms vs vs' passed passed', (listOfNil slots).items? = some forms ∧
      form = .list (.symbol Symbol.defclass :: .symbol name :: listOfNil bases ::
        .list vs :: passed) ∧
      form' = .list (.symbol Symbol.defclass :: .symbol name' :: listOfNil bases' ::
        .list vs' :: passed') ∧
      AgreeWhere (Apart facet env s s') forms vs vs' := by
  obtain ⟨_, _, _, _, forms, initform, type, vs, hargs, -, hforms, -, hinitform, htype, hvs, rfl⟩ :=
    expandClass_iff.1 h
  obtain ⟨_, _, _, _, forms', initform', type', vs', hargs', -, hforms', -, hinitform', htype',
      hvs', rfl⟩ :=
    expandClass_iff.1 h'
  simp only [List.cons.injEq, Value.symbol.injEq] at hargs hargs'
  obtain ⟨rfl, rfl, rfl, rfl⟩ := hargs
  obtain ⟨rfl, rfl, rfl, rfl⟩ := hargs'
  obtain rfl := Option.some.inj (hforms.symm.trans hforms')
  have hother : Policies.get ⟨initform', type'⟩ facet.other =
      Policies.get ⟨initform, type⟩ facet.other := by
    have hfirst := resolve_decided hinitform htype facet.other
    have hsecond := resolve_decided hinitform' htype' facet.other
    rw [hbeside.resolve, hdecided, hfirst] at hsecond
    exact (Except.ok.inj hsecond).symm
  exact ⟨forms, vs, vs', _, _, hforms, rfl, rfl, completeAll_agree hbeside hother hvs hvs'⟩

/-- Where all variables are seen alike, as in one environment, the expansions agree on every
declaration that the facet does not govern, whatever its default is. -/
theorem expandClass_agree_ungoverned (hbeside : Beside facet env s s')
    (hseen : s'.nearest? env facet.variable = s.nearest? env facet.variable)
    {selection selection' : Option Selection} {name name' : Symbol} {bases bases' slots : Value}
    {options options' : List Value} {form form' : Value}
    (hdecided : s'.decided env selection' options' facet.other =
      s.decided env selection options facet.other)
    (h : s.expandClass (.symbol name :: bases :: slots :: options) env selection = .ok form)
    (h' : s'.expandClass (.symbol name' :: bases' :: slots :: options') env selection' =
      .ok form') :
    ∃ forms vs vs' passed passed', (listOfNil slots).items? = some forms ∧
      form = .list (.symbol Symbol.defclass :: .symbol name :: listOfNil bases ::
        .list vs :: passed) ∧
      form' = .list (.symbol Symbol.defclass :: .symbol name' :: listOfNil bases' ::
        .list vs' :: passed') ∧
      AgreeWhere (fun d => ¬ facet.Governs d) forms vs vs' := by
  obtain ⟨forms, vs, vs', passed, passed', hforms, hform, hform', hagree⟩ :=
    expandClass_agree hbeside hdecided h h'
  exact ⟨forms, vs, vs', passed, passed', hforms, hform, hform',
    hagree.mono fun d hd => ⟨hd, fun _ => hseen⟩⟩

/-- Each facet is decided by the first of its sources, and two expansions of the same declarations
in which one facet is decided alike give the same for every declaration that the other one does not
govern. The same holds of completion by any policies whatever, of which those here are cases. -/
theorem facets_decided_apart :
    (∀ (s : State) (args : List Value) (env : Option FrameId) (selection : Option Selection)
      (form : Value),
      s.expandClass args env selection = .ok form ↔
        ∃ name bases slots options forms initform type vs,
          args = .symbol name :: bases :: slots :: options ∧ (listOfNil bases).items?.isSome ∧
          (listOfNil slots).items? = some forms ∧ (∀ o ∈ options, SelectsOnce o) ∧
          s.resolve .initform (s.decided env selection options .initform) = .ok initform ∧
          s.resolve .type (s.decided env selection options .type) = .ok type ∧
          s.completeAll ⟨initform, type⟩ env forms = .ok vs ∧
          form = .list (.symbol Symbol.defclass :: .symbol name :: listOfNil bases :: .list vs ::
            options.filter fun o => !isInferenceOption o)) ∧
    (∀ (facet : Facet) (env : Option FrameId) (s s' : State)
      (selection selection' : Option Selection) (name name' : Symbol) (bases bases' slots : Value)
      (options options' : List Value) (form form' : Value),
      Beside facet env s s' →
      s'.decided env selection' options' facet.other = s.decided env selection options facet.other →
      s.expandClass (.symbol name :: bases :: slots :: options) env selection = .ok form →
      s'.expandClass (.symbol name' :: bases' :: slots :: options') env selection' = .ok form' →
      ∃ forms vs vs' passed passed', (listOfNil slots).items? = some forms ∧
        form = .list (.symbol Symbol.defclass :: .symbol name :: listOfNil bases ::
          .list vs :: passed) ∧
        form' = .list (.symbol Symbol.defclass :: .symbol name' :: listOfNil bases' ::
          .list vs' :: passed') ∧
        AgreeWhere (Apart facet env s s') forms vs vs') ∧
    (∀ (facet : Facet) (s : State)
      (infer infer' : Facet → Declaration → Except Error (Option Value))
      (forms vs vs' : List Value), (∀ d, infer' facet.other d = infer facet.other d) →
      forms.mapM (s.completeBy infer) = .ok vs → forms.mapM (s.completeBy infer') = .ok vs' →
      AgreeWhere (fun d => ¬ facet.Governs d) forms vs vs') := by
  refine ⟨fun s args env selection form => expandClass_iff, ?_, ?_⟩
  · intro facet env s s' selection selection' name name' bases bases' slots options
      options' form form'
      hbeside hdecided h h'
    exact expandClass_agree hbeside hdecided h h'
  · intro facet s infer infer' forms vs vs' hother hvs hvs'
    exact agreeWhere_of_mapM hvs hvs' fun form d hd hfree =>
      completeBy_congr hd hfree (fun _ => hother d) fun _ => rfl

/-- An option of the definition goes before an explicit selection, and only the slot without a
default shows it. -/
theorem facets_decided_apart_owner :
    let s := State.start Settings.standard
    let x : Declaration := ⟨⟨"x"⟩, some (.bool true), []⟩
    let owner : Declaration := ⟨⟨"owner"⟩, none, [(.symbol Declaration.typeKey, .symbol ⟨"user"⟩)]⟩
    let option : Value := .list [.symbol Facet.initform.option,
      .list [.symbol Symbol.quote, .symbol ⟨":deferred-error"⟩]]
    let args : List Value := [.symbol ⟨"p"⟩, .nil, .list [x.toForm, owner.toForm]]
    ∃ form form', s.expandClass args none (some ⟨.symbol ⟨":nil-fallback"⟩, .symbol ⟨":general"⟩⟩) =
      .ok form ∧
      s.expandClass (args ++ [option]) none (some Selection.reference) = .ok form' ∧
      ∃ forms vs vs' passed passed', (listOfNil (.list [x.toForm, owner.toForm])).items? =
        some forms ∧
        form = .list (.symbol Symbol.defclass :: .symbol ⟨"p"⟩ :: listOfNil .nil ::
          .list vs :: passed) ∧
        form' = .list (.symbol Symbol.defclass :: .symbol ⟨"p"⟩ :: listOfNil .nil ::
          .list vs' :: passed') ∧
        AgreeWhere (Apart .initform none s s) forms vs vs' := by
  intro s x owner option args
  have h : s.expandClass args none (some ⟨.symbol ⟨":nil-fallback"⟩, .symbol ⟨":general"⟩⟩) =
      .ok (.list [.symbol Symbol.defclass, .symbol ⟨"p"⟩, .list [],
        .list [(x.withType (.symbol ⟨"boolean"⟩)).toForm, owner.toForm]]) := by
    dsimp only [args, x, owner, s]
    rfl
  have h' : s.expandClass (args ++ [option]) none (some Selection.reference) =
      .ok (.list [.symbol Symbol.defclass, .symbol ⟨"p"⟩, .list [],
        .list [(x.withType (.symbol ⟨"boolean"⟩)).toForm,
          (owner.withDefault (.unsupplied none ⟨"owner"⟩ (.symbol ⟨"user"⟩))).toForm]]) := by
    dsimp only [args, x, owner, option, s]
    rfl
  have hbeside : Beside .initform none s s := ⟨rfl, rfl, rfl, rfl, fun _ _ => rfl⟩
  have hdecided : s.decided none (some Selection.reference) [option] Facet.initform.other =
      s.decided none (some ⟨.symbol ⟨":nil-fallback"⟩, .symbol ⟨":general"⟩⟩)
      [] Facet.initform.other := rfl
  exact ⟨_, _, h, h', facets_decided_apart.2.1 .initform none s s _ _ _ _ _ _ _ _ _ _ _ hbeside
    hdecided h h'⟩

end State
end SlotLisp
