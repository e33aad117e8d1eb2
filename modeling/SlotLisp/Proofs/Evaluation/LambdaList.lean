import Mathlib.Data.List.Nodup
import SlotLisp.Proofs.Evaluation.Order
import SlotLisp.Proofs.State.Frames
import SlotLisp.Proofs.Inference.ZeroPolicies

/-!
Binding arguments to the parameters of a function, apart from fuel. Required parameters and optional
ones take the arguments in order, optional ones that are left over come to their defaults in the new
frame, and a rest parameter takes the arguments that are left over. So there is one way in which
binding ends for each way in which the numbers of parameters and of arguments compare.
-/

namespace SlotLisp

inductive OptionalParameter
  | bare (name : Symbol)
  | listed (name : Symbol)
  | defaulted (name : Symbol) (default : Value)

namespace OptionalParameter

def name : OptionalParameter → Symbol
  | bare n => n
  | listed n => n
  | defaulted n _ => n

def default? : OptionalParameter → Option Value
  | defaulted _ d => some d
  | _ => none

def form : OptionalParameter → Value
  | bare n => .symbol n
  | listed n => .list [.symbol n]
  | defaulted n d => .list [.symbol n, d]

end OptionalParameter

structure Parameters where
  required : List Symbol
  /-- The parameters behind the marker for optional ones, if it is there. -/
  optional? : Option (List OptionalParameter)
  /-- The rest parameter, and whether its marker is `&body`. -/
  rest? : Option (Bool × Symbol)

namespace Parameters

def optional (ps : Parameters) : List OptionalParameter := ps.optional?.getD []

def positional (ps : Parameters) : List Symbol :=
  ps.required ++ ps.optional.map OptionalParameter.name

def names (ps : Parameters) : List Symbol := ps.positional ++ (ps.rest?.map Prod.snd).toList

theorem required_le (ps : Parameters) : ps.required.length ≤ ps.positional.length := by
  simp [positional]

/-- There are as many optional parameters left over as there are arguments missing. -/
theorem drop_optional (ps : Parameters) {n : Nat} (h : ps.positional.length ≤ n) :
    ps.optional.drop (n - ps.required.length) = [] := by
  simp only [positional, List.length_append, List.length_map] at h
  exact List.drop_eq_nil_iff.2 (by omega)

def optionalForms (ps : Parameters) : List Value :=
  match ps.optional? with
  | none => []
  | some os => .symbol ⟨"&optional"⟩ :: os.map OptionalParameter.form

def restForms (ps : Parameters) : List Value :=
  match ps.rest? with
  | none => []
  | some (body, n) => [.symbol ⟨if body then "&body" else "&rest"⟩, .symbol n]

def formals (ps : Parameters) : List Value :=
  ps.required.map .symbol ++ (ps.optionalForms ++ ps.restForms)

end Parameters

/-- Parameters of different names, none of which is a marker. -/
structure LambdaList extends Parameters where
  nodup : toParameters.names.Nodup
  unmarked : ∀ n ∈ toParameters.names, Mode.ofMarker? (.symbol n) = none

namespace LambdaList

theorem unmarked_required (l : LambdaList) : ∀ n ∈ l.required, Mode.ofMarker? (.symbol n) = none :=
  fun n hn => l.unmarked n (List.mem_append_left _ (List.mem_append_left _ hn))

theorem unmarked_optional (l : LambdaList) :
    ∀ p ∈ l.optional, Mode.ofMarker? (.symbol p.name) = none :=
  fun _ hp => l.unmarked _
    (List.mem_append_left _ (List.mem_append_right _ (List.mem_map_of_mem hp)))

end LambdaList

/-! ## How binding ends -/

/-- What optional parameters without arguments come to in the frame `f`, in order, up to the first
error. A default is evaluated in this frame, which binds all parameters `before` it by then. -/
inductive FillsDefaults (f : FrameId) (macros : MacroTableId) :
    List Symbol → State → List OptionalParameter → Except Error Unit → State → Prop
  | nil {before : List Symbol} {s : State} : FillsDefaults f macros before s [] (.ok ()) s
  | empty {before : List Symbol} {s t : State} {p : OptionalParameter} {ps : List OptionalParameter}
      {r : Except Error Unit} (hdefault : p.default? = none)
      (hrest : FillsDefaults f macros (before ++ [p.name]) (s.define f p.name .nil) ps r t) :
      FillsDefaults f macros before s (p :: ps) r t
  | fails {before : List Symbol} {s t : State} {p : OptionalParameter} {ps : List OptionalParameter}
      {form : Value} {e : Error} (hdefault : p.default? = some form)
      (hbefore : ∀ n ∈ before, (s.frame f).vars.contains n = true)
      (hvalue : s.Evaluates f macros form (.error e) t) :
        FillsDefaults f macros before s (p :: ps) (.error e) t
  | cons {before : List Symbol} {s u t : State} {p : OptionalParameter}
      {ps : List OptionalParameter}
      {form v : Value} {r : Except Error Unit} (hdefault : p.default? = some form)
      (hbefore : ∀ n ∈ before, (s.frame f).vars.contains n = true)
      (hvalue : s.Evaluates f macros form (.ok v) u)
      (hrest : FillsDefaults f macros (before ++ [p.name]) (u.define f p.name v) ps r t) :
      FillsDefaults f macros before s (p :: ps) r t

section

variable {f : FrameId} {macros : MacroTableId} {before : List Symbol} {s t : State}
  {p : OptionalParameter} {ps : List OptionalParameter} {r : Except Error Unit}

theorem fillsDefaults_empty_iff (hdefault : p.default? = none) :
    FillsDefaults f macros before s (p :: ps) r t ↔
      FillsDefaults f macros (before ++ [p.name]) (s.define f p.name .nil) ps r t := by
  refine ⟨fun h => ?_, .empty hdefault⟩
  cases h with
  | empty _ hrest => exact hrest
  | fails hsome => exact absurd (hdefault.symm.trans hsome) (by simp)
  | cons hsome => exact absurd (hdefault.symm.trans hsome) (by simp)

theorem fillsDefaults_cons_iff {form : Value} (hdefault : p.default? = some form)
    (hbefore : ∀ n ∈ before, (s.frame f).vars.contains n = true) :
    FillsDefaults f macros before s (p :: ps) r t ↔
      (∃ e, r = .error e ∧ s.Evaluates f macros form (.error e) t) ∨
        ∃ v u, s.Evaluates f macros form (.ok v) u ∧
          FillsDefaults f macros (before ++ [p.name]) (u.define f p.name v) ps r t := by
  constructor
  · intro h
    cases h with
    | empty hnone => exact absurd (hdefault.symm.trans hnone) (by simp)
    | fails hsome _ hvalue =>
        obtain rfl := Option.some.inj (hdefault.symm.trans hsome)
        exact .inl ⟨_, rfl, hvalue⟩
    | cons hsome _ hvalue hrest =>
        obtain rfl := Option.some.inj (hdefault.symm.trans hsome)
        exact .inr ⟨_, _, hvalue, hrest⟩
  · rintro (⟨e, rfl, hvalue⟩ | ⟨v, u, hvalue, hrest⟩)
    · exact .fails hdefault hbefore hvalue
    · exact .cons hdefault hbefore hvalue hrest

end

namespace Parameters

/-- What the optional parameters come to for which there is no argument, in a new frame inside
`outer` that binds all parameters for which there is one. Apart from this frame nothing has been
changed before the first default. -/
def FillsMissing (ps : Parameters) (args : List Value) (outer : FrameId)
    (macros : MacroTableId) (s : State) (r : Except Error Unit) (t : State) : Prop :=
  FillsDefaults s.frames.size macros (ps.positional.take args.length)
    (s.openFrame outer (ps.positional.zip args))
    (ps.optional.drop (args.length - ps.required.length)) r t

inductive Binds (ps : Parameters) (args : List Value) (outer : FrameId) (macros : MacroTableId)
    (s : State) :
    Except Error FrameId → State → Prop
  | tooFew {n : Symbol} (hmissing : ps.required[args.length]? = some n) :
      Binds ps args outer macros s (.error (.arity (.missingArgument (.symbol n))))
        (s.openFrame outer (ps.required.zip args))
  | tooMany (hrest : ps.rest? = none) (hlength : ps.positional.length < args.length) :
      Binds ps args outer macros s
      (.error (.arity (.extraArguments (args.drop ps.positional.length))))
        (s.openFrame outer (ps.positional.zip args))
  | fails {e : Error} {t : State} (hlength : ps.required.length ≤ args.length)
      (hdefaults : ps.FillsMissing args outer macros s (.error e) t) :
      Binds ps args outer macros s (.error e) t
  | exact {t : State} (hrest : ps.rest? = none) (hlength : ps.required.length ≤ args.length)
      (hfits : args.length ≤ ps.positional.length)
      (hdefaults : ps.FillsMissing args outer macros s (.ok ()) t) :
      Binds ps args outer macros s (.ok s.frames.size) t
  | rest {body : Bool} {n : Symbol} {t : State} (hrest : ps.rest? = some (body, n))
      (hlength : ps.required.length ≤ args.length)
      (hdefaults : ps.FillsMissing args outer macros s (.ok ()) t) :
      Binds ps args outer macros s (.ok s.frames.size)
        (t.define s.frames.size n (.list (args.drop ps.positional.length)))

end Parameters

namespace Eval

/-! ## Parameters that take an argument each -/

section Positional

variable {evalDefault : Value → Eval Value} {s : State} {outer : FrameId}
  {bs : List (Symbol × Value)}

theorem outcome_define_openFrame {n : Symbol} {v : Value} (hnew : n ∉ bs.map Prod.fst) :
    (define s.frames.size (.symbol n) v).outcome (s.openFrame outer bs) =
      some (.ok (), s.openFrame outer (bs ++ [(n, v)])) := by
  rw [outcome_define, State.define_openFrame hnew]

theorem bindIn_marker {formal : Value} {mode' : Mode} (h : Mode.ofMarker? formal = some mode')
    (f : FrameId) (mode : Mode) (args formals : List Value) :
    bindIn evalDefault f mode args (formal :: formals) =
      bindIn evalDefault f mode' args formals := by
  rw [bindIn.eq_def]
  dsimp only
  rw [h]

theorem bindIn_required_cons {n : Symbol} (hn : Mode.ofMarker? (.symbol n) = none)
    (f : FrameId) (a : Value) (args formals : List Value) :
    bindIn evalDefault f .required (a :: args) (.symbol n :: formals) =
      define f (.symbol n) a >>= fun _ => bindIn evalDefault f .required args formals := by
  rw [bindIn, hn]

theorem bindIn_required_nil {n : Symbol} (hn : Mode.ofMarker? (.symbol n) = none) (f : FrameId)
    (formals : List Value) : bindIn evalDefault f .required [] (.symbol n :: formals) =
      throw (.arity (.missingArgument (.symbol n))) := by
  rw [bindIn, hn]

theorem bindIn_optional_cons {p : OptionalParameter} (hp : Mode.ofMarker? (.symbol p.name) = none)
    (f : FrameId) (a : Value) (args formals : List Value) :
    bindIn evalDefault f .optional (a :: args) (p.form :: formals) =
      define f (.symbol p.name) a >>= fun _ => bindIn evalDefault f .optional args formals := by
  cases p with
  | bare n =>
      rw [OptionalParameter.form, bindIn, show Mode.ofMarker? (.symbol n) = none from hp]
      rfl
  | _ => rfl

theorem bindIn_optional_nil {p : OptionalParameter} (hp : Mode.ofMarker? (.symbol p.name) = none)
    (f : FrameId) (formals : List Value) : bindIn evalDefault f .optional [] (p.form :: formals) =
      (match p.default? with
        | some form => evalDefault form
        | none => pure .nil) >>= fun v => define f (.symbol p.name) v >>= fun _ =>
          bindIn evalDefault f .optional [] formals := by
  cases p with
  | bare n =>
      rw [OptionalParameter.form, bindIn, show Mode.ofMarker? (.symbol n) = none from hp]
      rfl
  | _ => rfl

/-- Required parameters take the arguments in order, up to the first for which there is none. -/
theorem outcome_bindIn_required {ns : List Symbol} (hnodup : (bs.map Prod.fst ++ ns).Nodup)
    (hunmarked : ∀ n ∈ ns, Mode.ofMarker? (.symbol n) = none) (args formals : List Value) :
    (bindIn evalDefault s.frames.size .required args (ns.map .symbol ++ formals)).outcome
      (s.openFrame outer bs) =
      match ns[args.length]? with
      | some n =>
          some (.error (.arity (.missingArgument (.symbol n))),
            s.openFrame outer (bs ++ ns.zip args))
      | none => (bindIn evalDefault s.frames.size .required (args.drop ns.length) formals).outcome
          (s.openFrame outer (bs ++ ns.zip args)) := by
  induction ns generalizing bs args with
  | nil => simp
  | cons n ns ih =>
      obtain ⟨hn, hns⟩ := List.forall_mem_cons.1 hunmarked
      cases args with
      | nil =>
          rw [List.map_cons, List.cons_append, bindIn_required_nil hn]
          simp
      | cons a args =>
          have hnew : n ∉ bs.map Prod.fst := fun hmem =>
            (List.nodup_cons.1 (List.nodup_middle.1 hnodup)).1 (List.mem_append_left ns hmem)
          have hnodup' : ((bs ++ [(n, a)]).map Prod.fst ++ ns).Nodup := by simpa using hnodup
          rw [List.map_cons, List.cons_append, bindIn_required_cons hn,
            outcome_bind_ok (outcome_define_openFrame hnew), ih hnodup' hns]
          simp

/-- Optional parameters do so up to the first for which there is no argument. -/
theorem outcome_bindIn_optional {ps : List OptionalParameter}
    (hnodup : (bs.map Prod.fst ++ ps.map OptionalParameter.name).Nodup)
    (hunmarked : ∀ p ∈ ps, Mode.ofMarker? (.symbol p.name) = none) (args formals : List Value) :
    (bindIn evalDefault s.frames.size .optional args
      (ps.map OptionalParameter.form ++ formals)).outcome
        (s.openFrame outer bs) =
      (bindIn evalDefault s.frames.size .optional (args.drop ps.length)
          ((ps.drop args.length).map OptionalParameter.form ++ formals)).outcome
        (s.openFrame outer (bs ++ (ps.map OptionalParameter.name).zip args)) := by
  induction ps generalizing bs args with
  | nil => simp
  | cons p ps ih =>
      obtain ⟨hp, hps⟩ := List.forall_mem_cons.1 hunmarked
      cases args with
      | nil => simp
      | cons a args =>
          have hnew : p.name ∉ bs.map Prod.fst := fun hmem =>
            (List.nodup_cons.1 (List.nodup_middle.1 hnodup)).1 (List.mem_append_left _ hmem)
          have hnodup' :
              ((bs ++ [(p.name, a)]).map Prod.fst ++ ps.map OptionalParameter.name).Nodup := by
            simpa using hnodup
          rw [List.map_cons, List.cons_append, bindIn_optional_cons hp,
            outcome_bind_ok (outcome_define_openFrame hnew), ih hnodup' hps]
          simp

end Positional

/-! ## Parameters without arguments -/

section Defaults

variable {f : FrameId} {macros : MacroTableId} {s t u : State} {formals args : List Value}
  {r : Except Error Unit}

theorem ends_define_iff {n : Symbol} {v : Value} {x : Nat → Eval Unit} :
    Ends (fun k => define f (.symbol n) v >>= fun _ => x k) s r t ↔ Ends x (s.define f n v) r t :=
  exists_congr fun k => by rw [outcome_bind_ok (outcome_define f n v s)]

theorem bindIn_extends {m n : Nat} (hle : m ≤ n) (mode : Mode) (args formals : List Value) :
    Extends Unit (bindIn (fun form => evaluate m form f macros) f mode args formals)
      (bindIn (fun form => evaluate n form f macros) f mode args formals) :=
  congruence_extends.bindIn (fun form => evaluate_extends hle form f macros) f mode args formals

/-- By induction on the parameters: evaluation leaves bound what the frame binds, so that every
default sees all parameters before it. -/
theorem ends_bindIn_defaults {ps : List OptionalParameter} {before : List Symbol}
    (hempty : ps = [] ∨ args = [])
    (hf : f < u.frames.size) (hbefore : ∀ n ∈ before, (u.frame f).vars.contains n = true)
    (hunmarked : ∀ p ∈ ps, Mode.ofMarker? (.symbol p.name) = none) :
    Ends (fun k => bindIn (fun form => evaluate k form f macros) f .optional args
        (ps.map OptionalParameter.form ++ formals)) u r t ↔
      (∃ e, r = .error e ∧ FillsDefaults f macros before u ps (.error e) t) ∨
        ∃ w, FillsDefaults f macros before u ps (.ok ()) w ∧
          Ends (fun k => bindIn (fun form => evaluate k form f macros) f .optional args formals)
            w r t := by
  induction ps generalizing before u with
  | nil =>
      constructor
      · exact fun h => .inr ⟨u, .nil, h⟩
      · rintro (⟨e, -, he⟩ | ⟨w, hw, h⟩)
        · cases he
        · cases hw
          exact h
  | cons p ps ih =>
      obtain ⟨hp, hps⟩ := List.forall_mem_cons.1 hunmarked
      obtain rfl := hempty.resolve_left (by simp)
      have hdefined : ∀ (w : State) (v : Value), u.KeepsFrames w →
        f < (w.define f p.name v).frames.size ∧
          ∀ n ∈ before ++ [p.name], ((w.define f p.name v).frame f).vars.contains n = true := by
        intro w v hw
        have hfw : f < w.frames.size := Nat.lt_of_lt_of_le hf hw.size
        refine ⟨by rwa [State.define_size], fun n hn => ?_⟩
        rw [State.contains_define hfw]
        rcases List.mem_append.1 hn with hn | hn
        · rw [hw.bound f n (hbefore n hn), Bool.or_true]
        · simp [List.mem_singleton.1 hn]
      have hrest := fun (w : State) (v : Value) (hw : u.KeepsFrames w) =>
        ih (.inr rfl) (hdefined w v hw).1 (hdefined w v hw).2 hps
      simp only [List.map_cons, List.cons_append, bindIn_optional_nil hp]
      cases hdefault : p.default? with
      | none =>
          simp only [pure_bind, fillsDefaults_empty_iff hdefault]
          rw [ends_define_iff, hrest u .nil ⟨Nat.le_refl _, fun _ _ h => h⟩]
      | some form =>
          simp only [fillsDefaults_cons_iff hdefault hbefore]
          refine (ends_bind_iff (f := fun k v => define f (.symbol p.name) v >>= fun _ =>
            bindIn (fun form => evaluate k form f macros) f .optional []
              (ps.map OptionalParameter.form ++ formals))
            (fun hle => evaluate_extends hle form f macros) fun v _ _ hle => ?_).trans ?_
          · exact congruence_extends.bind (congruence_extends.define f (.symbol p.name) v)
              fun _ => bindIn_extends hle .optional [] _
          · constructor
            · rintro (⟨e, rfl, hvalue⟩ | ⟨v, w, hvalue, h⟩)
              · exact .inl ⟨e, rfl, .inl ⟨e, rfl, hvalue⟩⟩
              · rw [ends_define_iff, hrest w v (State.Evaluates.keepsFrames hvalue)] at h
                rcases h with ⟨e, rfl, h⟩ | ⟨y, hy, h⟩
                · exact .inl ⟨e, rfl, .inr ⟨v, w, hvalue, h⟩⟩
                · exact .inr ⟨y, .inr ⟨v, w, hvalue, hy⟩, h⟩
            · rintro (⟨e, rfl, ⟨e', he, hvalue⟩ | ⟨v, w, hvalue, h⟩⟩ |
                ⟨y, ⟨e, he, -⟩ | ⟨v, w, hvalue, hy⟩, h⟩)
              · exact .inl ⟨e', he, hvalue⟩
              · refine .inr ⟨v, w, hvalue, ?_⟩
                rw [ends_define_iff, hrest w v (State.Evaluates.keepsFrames hvalue)]
                exact .inl ⟨e, rfl, h⟩
              · exact absurd he (by simp)
              · refine .inr ⟨v, w, hvalue, ?_⟩
                rw [ends_define_iff, hrest w v (State.Evaluates.keepsFrames hvalue)]
                exact .inr ⟨y, hy, h⟩

end Defaults

/-! ## Binding ends as it is said to -/

section Lists

variable {evalDefault : Value → Eval Value}

/-- What is behind the optional parameters takes the arguments that are left over, or refuses
them. -/
theorem outcome_bindIn_rest (l : LambdaList) (f : FrameId) (mode : Mode) (args : List Value)
    (s : State) :
    (bindIn evalDefault f mode args l.restForms).outcome s =
      match l.rest? with
      | some (_, n) => some (.ok (), s.define f n (.list args))
      | none => if args.isEmpty then some (.ok (), s)
          else some (.error (.arity (.extraArguments args)), s) := by
  cases hrest : l.rest? with
  | none =>
      rw [Parameters.restForms, hrest, bindIn]
      split <;> rfl
  | some rest =>
      obtain ⟨body, n⟩ := rest
      have hn : Mode.ofMarker? (.symbol n) = none :=
        l.unmarked n (List.mem_append_right _ (by rw [hrest]; exact List.mem_cons_self))
      have hmarker : Mode.ofMarker? (.symbol ⟨if body then "&body" else "&rest"⟩) = some .rest := by
        cases body <;> rfl
      have hforms : l.restForms = [.symbol ⟨if body then "&body" else "&rest"⟩, .symbol n] := by
        rw [Parameters.restForms, hrest]
      rw [hforms, bindIn_marker hmarker, bindIn, hn]
      exact (outcome_bind_ok (outcome_define f n _ s) _).trans rfl

theorem ends_bindIn_rest_iff {l : LambdaList} {f : FrameId} {macros : MacroTableId}
    {args : List Value} {s t : State} {r : Except Error Unit} :
    Ends (fun k => bindIn (fun form => evaluate k form f macros)
      f .optional args l.restForms) s r t ↔
      (match l.rest? with
        | some (_, n) => some (.ok (), s.define f n (.list args))
        | none => if args.isEmpty then some (.ok (), s)
            else some (.error (.arity (.extraArguments args)), s)) =
        some (r, t) := by
  simp only [Ends, outcome_bindIn_rest, exists_const]

/-- It makes no difference whether the marker for optional parameters is there if there are none. -/
theorem bindIn_optionalForms (l : LambdaList) (f : FrameId) (args : List Value) (s : State) :
    (bindIn evalDefault f .required args (l.optionalForms ++ l.restForms)).outcome s =
      (bindIn evalDefault f .optional args
        (l.optional.map OptionalParameter.form ++ l.restForms)).outcome s := by
  cases hoptional : l.optional? with
  | none =>
      rw [Parameters.optionalForms, Parameters.optional, hoptional]
      exact (outcome_bindIn_rest l f .required args s).trans
        (outcome_bindIn_rest l f .optional args s).symm
  | some ps =>
      rw [Parameters.optionalForms, Parameters.optional, hoptional, List.cons_append,
        bindIn_marker (show Mode.ofMarker? (.symbol ⟨"&optional"⟩) = some .optional from rfl)]
      rfl

/-- The optional parameters that are left over, the arguments that are left over, and the frame when
both are known. -/
theorem outcome_bindIn_formals (l : LambdaList) (args : List Value) (outer : FrameId) (s : State) :
    (bindIn evalDefault s.frames.size .required args l.formals).outcome (s.openFrame outer []) =
      match l.required[args.length]? with
      | some n =>
          some (.error (.arity (.missingArgument (.symbol n))),
            s.openFrame outer (l.required.zip args))
      | none => (bindIn evalDefault s.frames.size .optional (args.drop l.positional.length)
          ((l.optional.drop (args.length - l.required.length)).map OptionalParameter.form ++
            l.restForms)).outcome
            (s.openFrame outer (l.positional.zip args)) := by
  have hnodup : l.positional.Nodup := (List.nodup_append.1 l.nodup).1
  have hrequired : (([] : List (Symbol × Value)).map Prod.fst ++ l.required).Nodup :=
    (List.nodup_append.1 hnodup).1
  rw [Parameters.formals, outcome_bindIn_required hrequired l.unmarked_required, List.nil_append]
  cases hmissing : l.required[args.length]? with
  | some n => rfl
  | none =>
      dsimp only
      have hlength : l.required.length ≤ args.length := List.getElem?_eq_none_iff.1 hmissing
      have hnames : (l.required.zip args).map Prod.fst = l.required := List.map_fst_zip hlength
      have hzip : l.positional.zip args = l.required.zip args ++
          (l.optional.map OptionalParameter.name).zip (args.drop l.required.length) := by
        conv_lhs => rw [← List.take_append_drop l.required.length args]
        rw [Parameters.positional, List.zip_append (by simp [hlength])]
        congr 1
        rw [@List.zip_eq_zip_take_min _ _ l.required args, Nat.min_eq_left hlength,
          List.take_length]
      rw [bindIn_optionalForms, outcome_bindIn_optional (by rw [hnames]; exact hnodup)
        l.unmarked_optional, hzip]
      simp [Parameters.positional]

/-- Where there are enough arguments, what is left over of the parameters or of the arguments
decides. -/
theorem ends_bindIn_formals_iff (l : LambdaList) {args : List Value} {outer : FrameId}
    {macros : MacroTableId} {s t : State} {r : Except Error Unit}
    (hlength : l.required.length ≤ args.length) :
    Ends (fun k => bindIn (fun form => evaluate k form s.frames.size macros)
      s.frames.size .required args l.formals)
        (s.openFrame outer []) r t ↔
      (∃ e, r = .error e ∧ l.FillsMissing args outer macros s (.error e) t) ∨
      ∃ w, l.FillsMissing args outer macros s (.ok ()) w ∧
        (match l.rest? with
          | some (_, n) =>
            some (.ok (), w.define s.frames.size n (.list (args.drop l.positional.length)))
          | none =>
            if (args.drop l.positional.length).isEmpty then some (.ok (), w)
            else some (.error (.arity (.extraArguments (args.drop l.positional.length))), w)) =
              some (r, t) := by
  have hmissing : l.required[args.length]? = none := List.getElem?_eq_none_iff.2 hlength
  -- There is an argument for every parameter, or none is left: optional parameters never meet
  -- arguments here.
  have hempty : l.optional.drop (args.length - l.required.length) = [] ∨
      args.drop l.positional.length = [] :=
    (Nat.le_total l.positional.length args.length).imp l.drop_optional List.drop_eq_nil_iff.2
  have hpositional :
    Ends (fun k => bindIn (fun form => evaluate k form s.frames.size macros) s.frames.size
        .required args l.formals) (s.openFrame outer []) r t ↔
      Ends (fun k => bindIn (fun form => evaluate k form s.frames.size macros)
        s.frames.size .optional
        (args.drop l.positional.length)
        ((l.optional.drop (args.length - l.required.length)).map OptionalParameter.form ++
          l.restForms))
        (s.openFrame outer (l.positional.zip args)) r t :=
    exists_congr fun k => by rw [outcome_bindIn_formals, hmissing]
  rw [hpositional, ends_bindIn_defaults hempty (by simp [State.openFrame])
    (fun _ => State.contains_openFrame)
    fun p hp => l.unmarked_optional p (List.mem_of_mem_drop hp)]
  simp only [ends_bindIn_rest_iff, Parameters.FillsMissing]

theorem ends_bindParameters {formals args : List Value} {outer : FrameId} {macros : MacroTableId}
    {s t : State} {r : Except Error FrameId} :
    Ends (fun n => bindParameters (fun f form => evaluate n form f macros)
      formals args outer) s r t ↔
      ∃ q, Ends (fun n => bindIn (fun form => evaluate n form s.frames.size macros)
        s.frames.size .required args
          formals) (s.openFrame outer []) q t ∧ r = q.map fun _ => s.frames.size := by
  rw [← ends_map_iff]
  refine exists_congr fun n => ?_
  simp only [bindParameters]
  rw [outcome_bind_ok (outcome_create _ s), map_eq_pure_bind]
  rfl

/-- Binding arguments to parameters ends as it is said to, and with enough fuel it comes to every
end that is said. -/
theorem ends_bindParameters_iff (l : LambdaList) {args : List Value} {outer : FrameId}
    {macros : MacroTableId} {s t : State} {r : Except Error FrameId} :
    Ends (fun n => bindParameters (fun f form => evaluate n form f macros)
      l.formals args outer) s r t ↔
      l.Binds args outer macros s r t := by
  rw [ends_bindParameters]
  constructor
  · rintro ⟨q, h, rfl⟩
    by_cases hlength : l.required.length ≤ args.length
    · rcases (ends_bindIn_formals_iff l hlength).1 h with ⟨e, rfl, he⟩ | ⟨w, hw, h⟩
      · exact .fails hlength he
      · cases hrest : l.rest? with
        | some rest =>
            obtain ⟨body, n⟩ := rest
            rw [hrest] at h
            obtain ⟨rfl, rfl⟩ := Prod.mk.inj (Option.some.inj h)
            exact .rest hrest hlength hw
        | none =>
            rw [hrest] at h
            by_cases hfits : args.length ≤ l.positional.length
            · rw [List.drop_eq_nil_iff.2 hfits] at h
              obtain ⟨rfl, rfl⟩ := Prod.mk.inj (Option.some.inj h)
              exact .exact hrest hlength hfits hw
            · rw [Parameters.FillsMissing, l.drop_optional (Nat.le_of_not_le hfits)] at hw
              cases hw
              rw [if_neg (by simpa using hfits)] at h
              obtain ⟨rfl, rfl⟩ := Prod.mk.inj (Option.some.inj h)
              exact .tooMany hrest (Nat.lt_of_not_le hfits)
    · obtain ⟨k, hk⟩ := h
      have hmissing := List.getElem?_eq_getElem (Nat.lt_of_not_le hlength)
      rw [outcome_bindIn_formals, hmissing] at hk
      obtain ⟨rfl, rfl⟩ := Prod.mk.inj (Option.some.inj hk)
      exact .tooFew hmissing
  · intro h
    cases h with
    | tooFew hmissing => exact ⟨_, ⟨0, by rw [outcome_bindIn_formals, hmissing]⟩, rfl⟩
    | fails hlength hdefaults =>
        exact ⟨_, (ends_bindIn_formals_iff l hlength).2 (.inl ⟨_, rfl, hdefaults⟩), rfl⟩
    | tooMany hrest hmany =>
        have hlength : l.required.length ≤ args.length :=
          Nat.le_of_lt (Nat.lt_of_le_of_lt l.required_le hmany)
        have hfills : l.FillsMissing args outer macros s (.ok ())
            (s.openFrame outer (l.positional.zip args)) := by
          rw [Parameters.FillsMissing, l.drop_optional (Nat.le_of_lt hmany)]
          exact .nil
        refine ⟨.error _, (ends_bindIn_formals_iff l hlength).2 (.inr ⟨_, hfills, ?_⟩), rfl⟩
        rw [hrest, if_neg (by simpa using hmany)]
    | exact hrest hlength hfits hdefaults =>
        refine ⟨.ok (), (ends_bindIn_formals_iff l hlength).2 (.inr ⟨_, hdefaults, ?_⟩), rfl⟩
        rw [hrest, List.drop_eq_nil_iff.2 hfits]
        rfl
    | rest hrest hlength hdefaults =>
        refine ⟨.ok (), (ends_bindIn_formals_iff l hlength).2 (.inr ⟨_, hdefaults, ?_⟩), rfl⟩
        rw [hrest]

end Lists

end Eval

/-! ## What is reported -/

namespace State

variable (s : State)

theorem settle_missingArgument (n : Symbol) :
    s.settle (.arity (.missingArgument (.symbol n))) = .arity (.missingArgument (.symbol n)) := by
  rw [settle_eq_self_iff]
  simp [Error.pieces, Arity.pieces, Piece.display]

theorem settle_extraArguments_iff {args : List Value} :
    s.settle (.arity (.extraArguments args)) = .arity (.extraArguments args) ↔
      ∀ a ∈ args, s.writable a = true := by
  rw [settle_eq_self_iff]
  simp [Error.pieces, Arity.pieces, Piece.display]

end State

/-- Arguments are bound to the parameters of a function in order, each once, in a new frame: a
required or optional parameter has its argument, an optional one without an argument what its
default comes to where all parameters before it are bound, and a rest parameter all arguments that
are left over. With too few arguments no default is evaluated, and with too many none is needed.
That there are too few is always reported as such, and that there are too many if all that are left
over have a text. -/
theorem LambdaList.binds_arguments (l : LambdaList) (args : List Value) (outer : FrameId)
    (macros : MacroTableId) (s t : State) (r : Except Error FrameId) :
    (Eval.Ends (fun n => Eval.bindParameters (fun f form => evaluate n form f macros)
      l.formals args outer) s r t ↔
        l.Binds args outer macros s r t) ∧
      (∀ n, t.settle (.arity (.missingArgument (.symbol n))) =
        .arity (.missingArgument (.symbol n))) ∧
      ∀ extra, t.settle (.arity (.extraArguments extra)) = .arity (.extraArguments extra) ↔
        ∀ a ∈ extra, t.writable a = true :=
  ⟨Eval.ends_bindParameters_iff l, t.settle_missingArgument, fun _ => t.settle_extraArguments_iff⟩

/-- A number with too many digits for a text is one argument too many for a function without
parameters, and what is reported is no error of this kind. -/
theorem LambdaList.not_reported_huge_argument :
    let s := (Session.full (State.start Settings.standard) none).1
    let l : LambdaList := ⟨⟨[], none, none⟩, .nil, fun _ hn => absurd hn List.not_mem_nil⟩
    let args : List Value := [.int (Nat.pow 10 maxDigits)]
    ∃ e t, Eval.Ends (fun n => Eval.bindParameters (fun f form => evaluate n form f 0)
      l.formals args 0) s
        (.error e) t ∧
      t.settle e = .fault .badValue ∧ ∀ why, t.settle e ≠ .arity why := by
  intro s l args
  have hbinds : l.Binds args 0 0 s (.error (.arity (.extraArguments args))) (s.openFrame 0 []) :=
    .tooMany rfl (by decide)
  have hsettle : (s.openFrame 0 []).settle (.arity (.extraArguments args)) = .fault .badValue := by
    have hdigits : fitsDigits (Nat.pow 10 maxDigits) = false := by decide +kernel
    refine State.settle_of_fault ?_
    simp only [args]
    generalize Nat.pow 10 maxDigits = n at hdigits ⊢
    simp [Error.pieces, Arity.pieces, Piece.display, Piece.textFault?, State.textFault?,
      Value.textFault?,
      Value.itemsTextFault?, hdigits, List.findSome?_cons]
  exact ⟨_, _, (Eval.ends_bindParameters_iff l).2 hbinds, hsettle, by rw [hsettle]; simp⟩

end SlotLisp
