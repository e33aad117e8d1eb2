import SlotLisp.Proofs.Inference.Expansion

/-!
What decides about a facet. A definition can select a policy by an option of its own, the session by
a variable around the definition, the process by a variable of its own; each of these goes before
the ones after it, and an explicit selection takes the place of session and process. The sources are
listed here in that order, and an expansion is shown to go by the first one that says anything, for
either facet by itself.
-/

namespace SlotLisp

/-! ## The sources of a facet -/

def Facet.selected? (facet : Facet) (option : Value) : Option Value :=
  match option.items? with
  | some [.symbol key, x] => if key = facet.option then some (unquoted x) else none
  | _ => none

/-- An option that is named for a facet has one value. What an option is named for is looked up, so
its name has to be a key. -/
def SelectsOnce (option : Value) : Prop :=
  ∀ head args, option.items? = some (head :: args) →
    head.hashable = true ∧ ∀ facet : Facet, head = .symbol facet.option → args.length = 1

def Settings.variable (s : Settings) : Facet → Option String
  | .initform => s.initformVariable
  | .type => s.typeVariable

namespace State

/-- The value of a variable in the nearest frame that binds it. -/
def nearest? (s : State) (env : Option FrameId) (name : Symbol) : Option Value :=
  env.bind fun f => (s.chain f).findSome? fun g => (s.frame g).vars.get? name

/-- All that selects a policy for a facet, the first source first. -/
def sources (s : State) (env : Option FrameId) (selection : Option Selection) (options : List Value)
    (facet : Facet) : List (Option Value) :=
  [(options.filterMap facet.selected?).getLast?,
    selection.map fun c => c.get facet,
    s.nearest? env facet.variable,
    (s.settings.variable facet).map fun raw => selectorOfSetting (some raw) raw]

/-- The selector that decides about a facet; where nothing says anything, the one of reference. -/
def decided (s : State) (env : Option FrameId) (selection : Option Selection) (options : List Value)
    (facet : Facet) : Value :=
  ((s.sources env selection options facet).findSome? id).getD (Selection.reference.get facet)

end State

/-! ## Options -/

theorem Facet.option_injective {f g : Facet} (h : f.option = g.option) : f = g := by
  cases f <;> cases g
  · rfl
  · exact absurd h (by decide)
  · exact absurd h (by decide)
  · rfl

theorem Facet.ofOption?_eq_some {head : Value} {facet : Facet} :
    Facet.ofOption? head = some facet ↔ head = .symbol facet.option := by
  constructor
  · intro h
    unfold Facet.ofOption? at h
    split at h
    next s =>
      split at h
      · obtain rfl := Option.some.inj h
        congr
      split at h
      · obtain rfl := Option.some.inj h
        congr
      · exact absurd h (by simp)
    next => exact absurd h (by simp)
  · rintro rfl
    cases facet <;> rfl

/-- An option overrides what it selects, and it selects for one facet at most. -/
theorem selected?_of_overrideOf {option : Value} {r : Option (Facet × Value)}
    (h : overrideOf option = .ok r) :
    SelectsOnce option ∧ ∀ facet : Facet, facet.selected? option =
      (r.filter (·.1 = facet)).map Prod.snd := by
  unfold overrideOf at h
  unfold SelectsOnce Facet.selected?
  generalize option.items? = items at h ⊢
  rcases items with _ | _ | ⟨head, args⟩
  · obtain rfl := Except.ok.inj h
    exact ⟨by simp, by simp⟩
  · obtain rfl := Except.ok.inj h
    exact ⟨by simp, by simp⟩
  · dsimp only at h
    split at h
    next => exact absurd h (by simp)
    next hhash =>
      have hhash' : head.hashable = true := by simpa using hhash
      cases hfacet : Facet.ofOption? head with
      | none =>
          rw [hfacet] at h
          obtain rfl := Except.ok.inj h
          have hne : ∀ facet : Facet, head ≠ .symbol facet.option := by
            intro facet hhead
            rw [Facet.ofOption?_eq_some.2 hhead] at hfacet
            exact absurd hfacet (by simp)
          refine ⟨fun head' args' hitems => ?_, fun facet => ?_⟩
          · obtain ⟨rfl, rfl⟩ := List.cons.inj (Option.some.inj hitems)
            exact ⟨hhash', fun facet hhead => absurd hhead (hne facet)⟩
          · split
            next key x hitems =>
              obtain ⟨rfl, -⟩ := List.cons.inj (Option.some.inj hitems)
              rw [if_neg fun hkey => hne facet (by rw [hkey])]
              rfl
            next => rfl
      | some named =>
          rw [hfacet] at h
          obtain rfl := Facet.ofOption?_eq_some.1 hfacet
          dsimp only at h
          split at h
          next v =>
            obtain rfl := Except.ok.inj h
            refine ⟨fun head' args' hitems => ?_, fun facet => ?_⟩
            · obtain ⟨rfl, rfl⟩ := List.cons.inj (Option.some.inj hitems)
              exact ⟨hhash', fun _ _ => rfl⟩
            · dsimp only
              rw [Option.filter_some]
              by_cases hsame : named = facet
              · subst hsame
                simp
              · have hkey : named.option ≠ facet.option :=
                  fun hkey => hsame (Facet.option_injective hkey)
                simp [hkey, hsame]
          next => exact absurd h (by simp)

theorem overrideOf_of_selectsOnce {option : Value} (h : SelectsOnce option) :
    ∃ r, overrideOf option = .ok r := by
  unfold overrideOf
  unfold SelectsOnce at h
  generalize option.items? = items at h ⊢
  rcases items with _ | _ | ⟨head, args⟩
  · exact ⟨none, rfl⟩
  · exact ⟨none, rfl⟩
  · obtain ⟨hhash, hone⟩ := h head args rfl
    dsimp only
    rw [hhash]
    cases hfacet : Facet.ofOption? head with
    | none => exact ⟨none, rfl⟩
    | some facet =>
        obtain ⟨v, rfl⟩ := List.length_eq_one_iff.1 (hone facet (Facet.ofOption?_eq_some.1 hfacet))
        exact ⟨some (facet, unquoted v), rfl⟩

namespace Overrides

def apply (os : Overrides) (c : Selection) : Selection := os.foldl (fun c o => c.override o.1 o.2) c

end Overrides

theorem Selection.get_override (c : Selection) (f g : Facet) (v : Value) :
    (c.override f v).get g = if f = g then v else c.get g := by
  cases f <;> cases g <;> rfl

namespace Overrides

theorem mem_set {f : Facet} {v : Value} {os : Overrides} {g : Facet} :
    g ∈ (os.set f v).map Prod.fst ↔ g = f ∨ g ∈ os.map Prod.fst := by
  induction os with
  | nil => simp [Overrides.set]
  | cons o os ih =>
      rw [Overrides.set]
      split
      next ho => simp [ho]
      next =>
        rw [List.map_cons, List.mem_cons, ih, List.map_cons, List.mem_cons]
        exact or_left_comm

theorem nodup_set {f : Facet} {v : Value} {os : Overrides} (h : (os.map Prod.fst).Nodup) :
    ((os.set f v).map Prod.fst).Nodup := by
  induction os with
  | nil => simp [Overrides.set]
  | cons o os ih =>
      rw [Overrides.set]
      split
      next ho => simpa using h
      next ho =>
        rw [List.map_cons, List.nodup_cons] at h ⊢
        refine ⟨fun hmem => ?_, ih h.2⟩
        rcases mem_set.1 hmem with heq | hmem
        · exact ho heq
        · exact h.1 hmem

theorem get_apply_congr {os : Overrides} {c d : Selection} {g : Facet} (h : c.get g = d.get g) :
    (os.apply c).get g = (os.apply d).get g := by
  induction os generalizing c d with
  | nil => exact h
  | cons o os ih =>
      refine ih ?_
      rw [Selection.get_override, Selection.get_override, h]

theorem get_apply_of_not_mem {os : Overrides} {c : Selection} {g : Facet}
    (h : g ∉ os.map Prod.fst) :
    (os.apply c).get g = c.get g := by
  induction os generalizing c with
  | nil => rfl
  | cons o os ih =>
      rw [List.map_cons, List.mem_cons, not_or] at h
      show (apply os (c.override o.1 o.2)).get g = c.get g
      rw [ih h.2, Selection.get_override, if_neg fun heq => h.1 heq.symm]

/-- The last selector that is set for a facet counts, and those of the other facet stay. -/
theorem get_apply_set {os : Overrides} (h : (os.map Prod.fst).Nodup) (c : Selection) (f g : Facet)
    (v : Value) : ((os.set f v).apply c).get g = if f = g then v else (os.apply c).get g := by
  induction os generalizing c with
  | nil => exact Selection.get_override c f g v
  | cons o os ih =>
      rw [List.map_cons, List.nodup_cons] at h
      rw [Overrides.set]
      split
      next ho =>
        subst ho
        show (apply os (c.override o.1 v)).get g = if o.1 = g then v
          else (apply os (c.override o.1 o.2)).get g
        by_cases hg : o.1 = g
        · subst hg
          rw [get_apply_of_not_mem h.1, Selection.get_override, if_pos rfl, if_pos rfl]
        · rw [if_neg hg]
          refine get_apply_congr ?_
          rw [Selection.get_override, Selection.get_override, if_neg hg, if_neg hg]
      next => exact ih h.2 _

end Overrides

/-- Options are split where each selects at most once, and for each facet the last one that selects
counts. -/
theorem splitOptionsFrom_eq_ok {seen os : Overrides} {options passed : List Value}
    (h : splitOptionsFrom seen options = .ok (os, passed)) (hseen : (seen.map Prod.fst).Nodup)
    (c : Selection) (facet : Facet) :
    (∀ o ∈ options, SelectsOnce o) ∧ (os.apply c).get facet =
      ((options.filterMap facet.selected?).getLast?).getD ((seen.apply c).get facet) := by
  induction options generalizing seen os passed with
  | nil =>
      obtain ⟨rfl, -⟩ := Prod.mk.inj (Except.ok.inj h)
      exact ⟨by simp, rfl⟩
  | cons option rest ih =>
      rw [splitOptionsFrom] at h
      obtain ⟨r, hr, h⟩ := bind_eq_ok h
      obtain ⟨honce, hselected⟩ := selected?_of_overrideOf hr
      cases r with
      | none =>
          obtain ⟨⟨os', passed'⟩, hrest, h⟩ := bind_eq_ok h
          obtain ⟨rfl, -⟩ := Prod.mk.inj (Except.ok.inj h)
          obtain ⟨hall, hget⟩ := ih hrest hseen
          refine ⟨List.forall_mem_cons.2 ⟨honce, hall⟩, ?_⟩
          rw [List.filterMap_cons_none (hselected facet), hget]
      | some o =>
          obtain ⟨hall, hget⟩ := ih h (Overrides.nodup_set hseen)
          refine ⟨List.forall_mem_cons.2 ⟨honce, hall⟩, ?_⟩
          rw [hget, Overrides.get_apply_set hseen]
          have hfirst := hselected facet
          rw [Option.filter_some] at hfirst
          by_cases hfacet : o.1 = facet
          · rw [if_pos (by simpa using hfacet)] at hfirst
            rw [List.filterMap_cons_some hfirst, if_pos hfacet, List.getLast?_cons]
            rfl
          · rw [if_neg (by simpa using hfacet)] at hfirst
            rw [List.filterMap_cons_none hfirst, if_neg hfacet]

theorem splitOptionsFrom_of_selectsOnce {options : List Value} (h : ∀ o ∈ options, SelectsOnce o)
    (seen : Overrides) : ∃ r, splitOptionsFrom seen options = .ok r := by
  induction options generalizing seen with
  | nil => exact ⟨_, rfl⟩
  | cons option rest ih =>
      obtain ⟨honce, hrest⟩ := List.forall_mem_cons.1 h
      obtain ⟨r, hr⟩ := overrideOf_of_selectsOnce honce
      rw [splitOptionsFrom, hr]
      cases r with
      | none =>
          obtain ⟨⟨os, passed⟩, hsplit⟩ := ih hrest seen
          refine ⟨(os, option :: passed), ?_⟩
          show (splitOptionsFrom seen rest >>= _) = _
          rw [hsplit]
          rfl
      | some o => exact ih hrest _

/-! ## Session and process -/

theorem findSome?_eq_find? {α β : Type} (xs : List α) (f : α → Option β) :
    xs.findSome? f = (xs.find? fun x => (f x).isSome).bind f := by
  induction xs with
  | nil => rfl
  | cons x xs ih =>
      rw [List.findSome?_cons, List.find?_cons]
      cases hx : f x with
      | none => simpa using ih
      | some y => simp [hx]

namespace State

theorem nearest?_eq (s : State) (env : Option FrameId) (name : Symbol) :
    s.nearest? env name = env.bind fun f => s.lookup? f name := by
  unfold nearest? lookup? find?
  simp only [findSome?_eq_find?, Table.contains_eq_isSome]

/-- What stands in for a setting that is missing does not matter where there is one. -/
theorem selectorOfSetting_some (raw a b : String) :
    selectorOfSetting (some raw) a = selectorOfSetting (some raw) b := by
  rw [selectorOfSetting, selectorOfSetting, Option.getD_some, Option.getD_some]

theorem selectorOfSetting_none {word : String} (hname : settingName word = word)
    (hword : disabledWords.contains word = false) :
    selectorOfSetting none word = .symbol ⟨":" ++ word⟩ := by
  rw [selectorOfSetting, Option.getD_none, hname, hword, if_neg Bool.false_ne_true]

theorem ofSettings_get (settings : Settings) (facet : Facet) :
    (Selection.ofSettings settings).get facet =
      ((settings.variable facet).map fun raw => selectorOfSetting (some raw) raw).getD
        (Selection.reference.get facet) := by
  cases facet with
  | initform =>
      have herror : selectorOfSetting none "error" = Selection.reference.get .initform :=
        selectorOfSetting_none (by decide +kernel) (by decide +kernel)
      simp only [Selection.get, Selection.ofSettings, Settings.variable]
      cases settings.initformVariable with
      | none => rw [herror, Option.map_none, Option.getD_none, Selection.get]
      | some raw => rw [Option.map_some, Option.getD_some, selectorOfSetting_some]
  | type =>
      have hgeneral : selectorOfSetting none "general" = Selection.reference.get .type :=
        selectorOfSetting_none (by decide +kernel) (by decide +kernel)
      simp only [Selection.get, Selection.ofSettings, Settings.variable]
      cases settings.typeVariable with
      | none => rw [hgeneral, Option.map_none, Option.getD_none, Selection.get]
      | some raw => rw [Option.map_some, Option.getD_some, selectorOfSetting_some]

theorem selection_get (s : State) (env : Option FrameId) (facet : Facet) :
    (s.selection env).get facet = (s.nearest? env facet.variable).getD
      ((Selection.ofSettings s.settings).get facet) := by
  rw [nearest?_eq, selection]
  cases facet with
  | initform => rw [Selection.get]
  | type => rw [Selection.get]

theorem getD_findSome? {a b c d : Option Value} (last : Value) :
    ([a, b, c, d].findSome? id).getD last = a.getD (b.getD (c.getD (d.getD last))) := by
  cases a <;> cases b <;> cases c <;> cases d <;> rfl

/-- The selector that the options leave in effect is the one of the first source. -/
theorem getD_eq_decided (s : State) (env : Option FrameId) (selection : Option Selection)
    (options : List Value) (facet : Facet) :
    ((options.filterMap facet.selected?).getLast?).getD
      ((selection.getD (s.selection env)).get facet) = s.decided env selection options facet := by
  rw [decided, sources, getD_findSome?]
  cases selection with
  | some c => rw [Option.getD_some, Option.map_some, Option.getD_some]
  | none => rw [Option.getD_none, Option.map_none, Option.getD_none, selection_get, ofSettings_get]

/-! ## Plans -/

theorem policies_eq_ok {s : State} {c : Selection} {ps : Policies} :
    s.policies c = .ok ps ↔
      s.resolve .initform c.initform = .ok ps.initform ∧ s.resolve .type c.type = .ok ps.type := by
  rw [policies]
  cases hinitform : s.resolve .initform c.initform with
  | error e => simp [bind, Except.bind]
  | ok i =>
      cases htype : s.resolve .type c.type with
      | error e => simp [bind, Except.bind]
      | ok t =>
          obtain ⟨i', t'⟩ := ps
          simp [bind, Except.bind, pure, Except.pure]

/-- What the options leave in effect is what the first source of each facet says. -/
theorem splitOptions_get {s : State} {env : Option FrameId} {selection : Option Selection}
    {options passed : List Value} {os : Overrides} (h : splitOptions options = .ok (os, passed))
    (facet : Facet) :
    (os.apply (selection.getD (s.selection env))).get facet =
      s.decided env selection options facet := by
  rw [(splitOptionsFrom_eq_ok h List.nodup_nil _ facet).2, ← getD_eq_decided]
  rfl

/-- A definition is planned exactly where its parts are in order and both facets are decided. -/
theorem planClass_iff {s : State} {args : List Value} {env : Option FrameId}
    {selection : Option Selection} {plan : ClassPlan} :
    s.planClass args env selection = .ok plan ↔
      ∃ bases slots options, args = .symbol plan.name :: bases :: slots :: options ∧
        plan.bases = listOfNil bases ∧ (listOfNil bases).items?.isSome ∧
        (listOfNil slots).items? = some plan.slots ∧ (∀ o ∈ options, SelectsOnce o) ∧
        plan.options = options.filter (fun o => !isInferenceOption o) ∧
        s.resolve .initform (s.decided env selection options .initform) =
          .ok plan.policies.initform ∧
        s.resolve .type (s.decided env selection options .type) = .ok plan.policies.type := by
  constructor
  · intro h
    unfold planClass at h
    split at h
    next name bases slots options =>
      dsimp only at h
      split at h
      next items forms hbases hslots =>
        obtain ⟨⟨os, passed⟩, hsplit, h⟩ := bind_eq_ok h
        obtain ⟨ps, hps, h⟩ := bind_eq_ok h
        obtain rfl := Except.ok.inj h
        obtain ⟨hinitform, htype⟩ := policies_eq_ok.1 hps
        have honce := (splitOptionsFrom_eq_ok hsplit List.nodup_nil Selection.reference .initform).1
        refine ⟨bases, slots, options, rfl, rfl, by rw [hbases]; rfl, hslots, honce,
          splitOptionsFrom_passed hsplit, ?_, ?_⟩
        · rw [← splitOptions_get hsplit]
          exact hinitform
        · rw [← splitOptions_get hsplit]
          exact htype
      next => exact absurd h (by simp [throw, throwThe, MonadExceptOf.throw])
    next => exact absurd h (by simp)
    next => exact absurd h (by simp)
  · obtain ⟨name, planned, forms, passed, ps⟩ := plan
    rintro ⟨bases, slots, options, rfl, rfl, hbases, hslots, honce, rfl, hinitform, htype⟩
    obtain ⟨items, hitems⟩ := Option.isSome_iff_exists.1 hbases
    obtain ⟨⟨os, passed⟩, hsplit⟩ := splitOptionsFrom_of_selectsOnce honce []
    obtain rfl := splitOptionsFrom_passed hsplit
    have hps : s.policies (os.apply (selection.getD (s.selection env))) = .ok ps := by
      rw [← splitOptions_get hsplit] at hinitform htype
      exact policies_eq_ok.2 ⟨hinitform, htype⟩
    have hsplit' : splitOptions options = .ok (os, options.filter fun o => !isInferenceOption o) :=
      hsplit
    rw [planClass]
    simp only [hitems, hslots, hsplit', bind, Except.bind]
    rw [show List.foldl _ _ os = os.apply (selection.getD (s.selection env)) from rfl, hps]
    rfl

/-- A plain definition comes of a definition with inference exactly where its parts are in order and
both facets are decided, each by the first of its own sources. -/
theorem expandClass_iff {s : State} {args : List Value} {env : Option FrameId}
    {selection : Option Selection} {form : Value} :
    s.expandClass args env selection = .ok form ↔
      ∃ name bases slots options forms initform type vs,
        args = .symbol name :: bases :: slots :: options ∧ (listOfNil bases).items?.isSome ∧
        (listOfNil slots).items? = some forms ∧ (∀ o ∈ options, SelectsOnce o) ∧
        s.resolve .initform (s.decided env selection options .initform) = .ok initform ∧
        s.resolve .type (s.decided env selection options .type) = .ok type ∧
        s.completeAll ⟨initform, type⟩ env forms = .ok vs ∧
        form = .list (.symbol Symbol.defclass :: .symbol name :: listOfNil bases :: .list vs ::
          options.filter fun o => !isInferenceOption o) := by
  constructor
  · intro h
    obtain ⟨plan, hplan, h⟩ := bind_eq_ok h
    obtain ⟨vs, hvs, h⟩ := bind_eq_ok h
    obtain rfl := Except.ok.inj h
    obtain ⟨bases, slots, options, rfl, hplanned, hbases, hforms, honce, hoptions,
        hinitform, htype⟩ :=
      planClass_iff.1 hplan
    exact ⟨plan.name, bases, slots, options, plan.slots, _, _, vs, rfl, hbases, hforms,
      honce, hinitform,
      htype, hvs, by rw [hplanned, hoptions]⟩
  · rintro ⟨name, bases, slots, options, forms, initform, type, vs, rfl, hbases, hforms,
      honce, hinitform,
      htype, hvs, rfl⟩
    have hplan : s.planClass (.symbol name :: bases :: slots :: options) env selection =
        .ok ⟨name, listOfNil bases, forms, options.filter fun o => !isInferenceOption o,
          ⟨initform, type⟩⟩ :=
      planClass_iff.2 ⟨bases, slots, options, rfl, rfl, hbases, hforms, honce, rfl,
        hinitform, htype⟩
    rw [expandClass, hplan]
    simp only [bind, Except.bind, hvs]
    rfl

end State
end SlotLisp
