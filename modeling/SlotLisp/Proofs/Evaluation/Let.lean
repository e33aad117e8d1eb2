import SlotLisp.Proofs.Evaluation.Forms
import SlotLisp.Proofs.Macros.Agreement
import SlotLisp.Session

/-!
Parallel binding. A `let` form is rewritten to the call of a function of its names. So its values
are evaluated first, where none of its names is bound by it, and its body is evaluated in a frame of
its own.
-/

namespace SlotLisp

/-- A `let` form: different ordinary names with the forms of their values, and a body of at least
one form. -/
structure LetForm where
  bindings : List (Symbol × Value)
  first : Value
  rest : List Value
  nodup : (bindings.map Prod.fst).Nodup
  ordinary : ∀ b ∈ bindings, Mode.ofMarker? (.symbol b.1) = none ∧ b.1.selfEvaluating = false

namespace LetForm

def names (l : LetForm) : List Symbol := l.bindings.map Prod.fst

def values (l : LetForm) : List Value := l.bindings.map Prod.snd

def body (l : LetForm) : List Value := l.first :: l.rest

/-- How the form can be written. The bindings stand in a list or in a vector, and so does each of
them. -/
def IsWritten (l : LetForm) (form : Value) : Prop :=
  ∃ b bs, form = .list (.symbol ⟨"let"⟩ :: b :: l.body) ∧ b.items? = some bs ∧
    List.Forall₂ (fun w p => w.items? = some [.symbol p.1, p.2]) bs l.bindings

def call (l : LetForm) : Value :=
  .list (.list (.symbol Symbol.lambda :: .list (l.names.map .symbol) :: l.body) :: l.values)

/-- What evaluating the values comes to, in the frame around the form. All that has been done before
is to make the function that is called. -/
def Values (l : LetForm) (s : State) (env : FrameId) (macros : MacroTableId) :
    Except Error (List Value) → State → Prop :=
  s.countFunction.EvaluatesAll env macros l.values

/-- What evaluating the form comes to: an error of its values, or what its body comes to in a new
frame that binds the names to the values. -/
inductive Comes (l : LetForm) (s : State) (env : FrameId) (macros : MacroTableId) :
    Except Error Value → State → Prop
  | stops {e : Error} {t : State} (hvalues : l.Values s env macros (.error e) t) :
      Comes l s env macros (.error e) t
  | body {vs : List Value} {u t : State} {q : Except Error (List Value)}
      (hvalues : l.Values s env macros (.ok vs) u)
      (hbody : (u.openFrame env (l.names.zip vs)).EvaluatesAll u.frames.size macros l.body q t) :
      Comes l s env macros (q.map (·.getLastD .nil)) t

/-- The form is a call of the macro `let`, and what it is rewritten to is read as it is meant:
`lambda` is no macro, and neither is `progn` at the time when a body of several forms is reached. -/
structure Usable (l : LetForm) (s : State) (env : FrameId) (macros : MacroTableId) : Prop where
  isLet : s.transformer? macros ⟨"let"⟩ = some .letForm
  lambda : s.transformer? macros Symbol.lambda = none
  progn : l.rest = [] ∨
    ∀ vs u, l.Values s env macros (.ok vs) u → u.transformer? macros Symbol.progn = none

variable {l : LetForm} {form : Value} {s t : State} {env : FrameId} {macros : MacroTableId}
  {r : Except Error Value}

/-! ## Rewriting -/

theorem mapM_letBinding {bs : List Value} {ps : List (Symbol × Value)}
    (h : List.Forall₂ (fun w p => w.items? = some [.symbol p.1, p.2]) bs ps) :
    bs.mapM letBinding = .ok ps := by
  induction h with
  | nil => rfl
  | cons hb _ ih =>
      rw [List.mapM_cons, letBinding, hb, ih]
      rfl

theorem expandLet_eq {b : Value} {bs : List Value} (hitems : b.items? = some bs)
    (hbs : List.Forall₂ (fun w p => w.items? = some [.symbol p.1, p.2]) bs l.bindings) :
    expandLet (b :: l.body) = .ok l.call := by
  rw [body, expandLet, hitems]
  dsimp only
  rw [mapM_letBinding hbs, call, names, List.map_map]
  rfl

theorem evaluates_iff_call (hform : l.IsWritten form)
    (hlet : s.transformer? macros ⟨"let"⟩ = some .letForm) :
    s.Evaluates env macros form r t ↔ s.Evaluates env macros l.call r t := by
  obtain ⟨b, bs, rfl, hitems, hbs⟩ := hform
  have hcall : s.IsCall macros (.list (.symbol ⟨"let"⟩ :: b :: l.body)) :=
    ⟨_, _, rfl, by rw [hlet]; rfl⟩
  have hnamed : s.macroCall? macros (.list (.symbol ⟨"let"⟩ :: b :: l.body)) =
      some (.letForm, b :: l.body) := by
    show (s.transformer? macros ⟨"let"⟩).map _ = _
    rw [hlet]
    rfl
  have hexpand : (Eval.transform (evaluate 0) .letForm (b :: l.body) env macros).outcome s =
      some (.ok l.call, s) := by
    rw [Eval.transform, expandLet_eq hitems hbs]
    rfl
  exact Eval.evaluates_call_iff hcall hnamed hexpand r t

/-! ## Evaluation -/

theorem ordinary_of_mem {n : Symbol} (hn : n ∈ l.names) :
    Mode.ofMarker? (.symbol n) = none ∧ n.selfEvaluating = false := by
  obtain ⟨b, hb, rfl⟩ := List.mem_map.1 hn
  exact l.ordinary b hb

theorem length_values {vs : List Value} {u : State} (h : l.Values s env macros (.ok vs) u) :
    vs.length = l.names.length := by
  rw [InOrder.length_eq h, values, names, List.length_map, List.length_map]

theorem comes_iff : l.Comes s env macros r t ↔
    (∃ e, r = .error e ∧ l.Values s env macros (.error e) t) ∨
      ∃ vs u, l.Values s env macros (.ok vs) u ∧
        ∃ q, (u.openFrame env (l.names.zip vs)).EvaluatesAll u.frames.size macros l.body q t ∧
          r = q.map (·.getLastD .nil) := by
  constructor
  · intro h
    cases h with
    | stops hvalues => exact .inl ⟨_, rfl, hvalues⟩
    | body hvalues hbody => exact .inr ⟨_, _, hvalues, _, hbody, rfl⟩
  · rintro (⟨e, rfl, hvalues⟩ | ⟨vs, u, hvalues, q, hbody, rfl⟩)
    · exact .stops hvalues
    · exact .body hvalues hbody

/-- The function is made before the values are evaluated, and called with them. -/
theorem evaluates_iff_comes (hform : l.IsWritten form) (h : l.Usable s env macros) :
    s.Evaluates env macros form r t ↔ l.Comes s env macros r t := by
  have hlambda : ∀ r t, s.Evaluates env macros
    (.list (.symbol Symbol.lambda :: .list (l.names.map .symbol) :: l.body))
      r t ↔ r = .ok (.closure s.closures (l.names.map .symbol) (bodyForm l.body) env) ∧
      t = s.countFunction :=
    fun _ _ => Eval.evaluates_lambda_iff h.lambda rfl
  have hunmarked : ∀ n ∈ l.names, Mode.ofMarker? (.symbol n) = none :=
    fun _ hn => (ordinary_of_mem hn).1
  rw [evaluates_iff_call hform h.isLet, call, Eval.evaluates_application_iff (by simp), comes_iff]
  simp only [hlambda, reduceCtorEq, false_and, and_false, exists_false, false_or,
    Except.ok.injEq, and_assoc,
    exists_and_left, exists_eq_left]
  refine or_congr Iff.rfl (exists_congr fun vs => exists_congr fun u =>
    and_congr_right fun hvalues => ?_)
  rw [Eval.ends_apply_closure_iff (show l.names.Nodup from l.nodup) hunmarked
    (length_values hvalues)]
  exact Eval.evaluates_bodyForm_iff (h.progn.imp_right fun hprogn => hprogn vs u hvalues)

/-! ## The new frame -/

/-- What the body finds. The frame `f` is new in `w`, where nothing else is different from the state
`u` before. It binds the names to the values, and nothing else; all other names are seen as from the
frame `outer` around it. What is defined by a form of the body itself is bound in it, and no other
frame is changed by that. -/
structure Scope (l : LetForm) (vs : List Value) (outer : FrameId) (macros : MacroTableId)
    (u : State) (f : FrameId) (w : State) : Prop where
  fresh : u.frames.size ≤ f
  length : vs.length = l.names.length
  frame : w.frame f = ⟨⟨l.names.zip vs⟩, u.chain outer⟩
  others : ∀ g, g ≠ f → w.frame g = u.frame g
  sees : ∀ n, w.lookup? f n = ((⟨l.names.zip vs⟩ : Table Value).get? n).or (u.lookup? outer n)
  reads : ∀ b ∈ l.names.zip vs, w.Evaluates f macros (.symbol b.1) (.ok b.2) w
  defines : ∀ (y : State) (n : Symbol) (form : Value) (r : Except Error Value)
    (t : State), w.KeepsFrames y →
    y.transformer? macros Symbol.define = none → n.selfEvaluating = false →
      (y.Evaluates f macros (.list [.symbol Symbol.define, .symbol n, form]) r t ↔
        (∃ e, r = .error e ∧ y.Evaluates f macros form (.error e) t) ∨
          ∃ v z, y.Evaluates f macros form (.ok v) z ∧ r = .ok (.symbol n) ∧
          t.lookup? f n = some v ∧
            t = z.define f n v ∧ ∀ g, g ≠ f → t.frame g = z.frame g)

theorem scope_of_values {vs : List Value} {u : State} (h : l.Values s env macros (.ok vs) u) :
    l.Scope vs env macros u u.frames.size (u.openFrame env (l.names.zip vs)) := by
  have hlength := length_values h
  have hkeys : (l.names.zip vs).map Prod.fst = l.names :=
    List.map_fst_zip (Nat.le_of_eq hlength.symm)
  refine ⟨Nat.le_refl _, hlength, u.openFrame_frame env _,
    fun g hg => State.openFrame_frame_of_ne hg,
    u.lookup?_openFrame env _, fun b hb => ?_, fun y n form r t hy hnone hn => ?_⟩
  · have hget := Table.get?_of_nodup (hkeys.symm ▸ l.nodup) hb
    have hname : b.1 ∈ l.names := hkeys ▸ List.mem_map_of_mem hb
    refine ⟨1, Eval.outcome_evaluate_symbol (ordinary_of_mem hname).2 ?_ 0 macros⟩
    rw [State.lookup?_openFrame, hget, Option.some_or]
  · rw [Eval.evaluates_define_iff hnone hn]
    refine or_congr Iff.rfl (exists_congr fun v => exists_congr fun z =>
        and_congr_right fun hvalue =>
      and_congr_right fun _ => ⟨?_, fun ht => ht.2.1⟩)
    rintro rfl
    have hsize : u.frames.size < z.frames.size := by
      have hz := (hy.trans hvalue.keepsFrames).size
      simp only [State.openFrame, Array.size_push] at hz
      exact hz
    exact ⟨State.lookup?_define_self hsize, rfl, fun g hg => State.define_frame_of_ne hg⟩

/-- A `let` form binds in parallel. Its values are evaluated once each and in order in the frame
around it, before there is a frame for its names; then its body is evaluated in a new frame of which
all that the body finds is known, and the value is that of the last form of the body. -/
theorem binds_in_parallel (l : LetForm) {form : Value} {s : State} {env : FrameId}
    {macros : MacroTableId} (hform : l.IsWritten form) (h : l.Usable s env macros) :
    (∀ r t, s.Evaluates env macros form r t ↔ l.Comes s env macros r t) ∧
      s.countFunction.frames = s.frames ∧
      ∀ vs u, l.Values s env macros (.ok vs) u →
        l.Scope vs env macros u u.frames.size (u.openFrame env (l.names.zip vs)) :=
  ⟨fun _ _ => evaluates_iff_comes hform h, rfl, fun _ _ => scope_of_values⟩

/-- A name that is bound outside and by the form: the second value is that of the name outside, and
what the body defines is bound behind the names. -/
theorem binds_in_parallel_shadowed :
    let s := (Session.full (State.start Settings.standard) none).1.define 0 ⟨"x"⟩ (.int 7)
    let x : Value := .symbol ⟨"x"⟩
    let y : Value := .symbol ⟨"y"⟩
    let form : Value := .list [.symbol ⟨"let"⟩, .list [.list [x, .int 1], .list [y, x]],
      .list [.symbol ⟨"define"⟩, .symbol ⟨"z"⟩, .int 5], y]
    s.Evaluates 0 0 form (.ok (.int 7))
      (s.countFunction.openFrame 0 [(⟨"x"⟩, .int 1), (⟨"y"⟩, .int 7), (⟨"z"⟩, .int 5)]) := by
  intro s x y form
  let l : LetForm :=
    ⟨[(⟨"x"⟩, .int 1), (⟨"y"⟩, x)], .list [.symbol ⟨"define"⟩, .symbol ⟨"z"⟩, .int 5], [y],
    by decide, by decide⟩
  have hform : l.IsWritten form := ⟨_, _, rfl, rfl, .cons rfl (.cons rfl .nil)⟩
  have hx : s.lookup? 0 ⟨"x"⟩ = some (.int 7) := State.lookup?_define_self (by decide +kernel)
  have hlet : s.transformer? 0 ⟨"let"⟩ = some .letForm := by rfl
  have hlambda : s.transformer? 0 Symbol.lambda = none := by rfl
  have hprogn : s.transformer? 0 Symbol.progn = none := by rfl
  have hdefine : s.transformer? 0 Symbol.define = none := by rfl
  clear_value s
  let u := s.countFunction
  let w := u.openFrame 0 [(⟨"x"⟩, .int 1), (⟨"y"⟩, .int 7)]
  have hxu : u.lookup? 0 ⟨"x"⟩ = some (.int 7) := (s.lookup?_countFunction 0 ⟨"x"⟩).trans hx
  have hsecond : u.Evaluates 0 0 x (.ok (.int 7)) u := ⟨1, Eval.outcome_evaluate_symbol rfl hxu 0 0⟩
  have hvalues : l.Values s 0 0 (.ok [.int 1, .int 7]) u := .cons ⟨1, rfl⟩ (.cons hsecond .nil)
  have husable : l.Usable s 0 0 := ⟨hlet, hlambda, .inr fun vs t ht => by
    rw [(Eval.evaluatesAll_unique ht hvalues).2]
    exact (s.transformer?_countFunction 0 Symbol.progn).trans hprogn⟩
  -- The body starts in `w`; its definition is behind the names, of which `y` has the value of the
  -- outer `x`.
  have hz : w.define u.frames.size ⟨"z"⟩ (.int 5) =
      u.openFrame 0 [(⟨"x"⟩, .int 1), (⟨"y"⟩, .int 7), (⟨"z"⟩, .int 5)] :=
        State.define_openFrame (by decide)
  have hnone : w.transformer? 0 Symbol.define = none :=
    (u.transformer?_openFrame 0 _ 0 Symbol.define).trans
      ((s.transformer?_countFunction 0 Symbol.define).trans hdefine)
  have hfirst : w.Evaluates u.frames.size 0 (.list [.symbol Symbol.define, .symbol ⟨"z"⟩, .int 5])
      (.ok (.symbol ⟨"z"⟩)) (w.define u.frames.size ⟨"z"⟩ (.int 5)) :=
    (Eval.evaluates_define_iff hnone rfl).2 (.inr ⟨.int 5, w, ⟨1, rfl⟩, rfl, rfl⟩)
  have hlast :=
    (u.lookup?_openFrame 0 [(⟨"x"⟩, .int 1), (⟨"y"⟩, .int 7), (⟨"z"⟩, .int 5)] ⟨"y"⟩).trans rfl
  rw [hz] at hfirst
  have hbody : w.EvaluatesAll u.frames.size 0 l.body (.ok [.symbol ⟨"z"⟩, .int 7])
      (u.openFrame 0 [(⟨"x"⟩, .int 1), (⟨"y"⟩, .int 7), (⟨"z"⟩, .int 5)]) :=
    .cons hfirst (.cons ⟨1, Eval.outcome_evaluate_symbol rfl hlast 0 0⟩ .nil)
  exact ((binds_in_parallel l hform husable).1 _ _).2 (.body hvalues hbody)

/-- A value that defines a macro `progn`: a body of two forms is then not evaluated as a body any
more. -/
theorem not_body_progn_macro :
    let s := (Session.full (State.start Settings.standard) none).1
    let value : Value :=
      .list [.symbol ⟨"defmacro"⟩, .symbol Symbol.progn,
        .list [.symbol ⟨"a"⟩, .symbol ⟨"b"⟩], .int 1]
    let form : Value :=
      .list [.symbol ⟨"let"⟩, .list [.list [.symbol ⟨"x"⟩, value]], .int 2, .int 3]
    let l : LetForm := ⟨[(⟨"x"⟩, value)], .int 2, [.int 3], List.nodup_singleton _, by simp; decide⟩
    l.IsWritten form ∧ s.transformer? 0 ⟨"let"⟩ = some .letForm ∧
      s.transformer? 0 Symbol.lambda = none ∧
      s.transformer? 0 Symbol.progn = none ∧ (∃ t, l.Comes s 0 0 (.ok (.int 3)) t) ∧
      (∃ t, s.Evaluates 0 0 form (.ok (.int 1)) t) ∧
      ¬ ∃ t, s.Evaluates 0 0 form (.ok (.int 3)) t := by
  intro s value form l
  have hform : l.IsWritten form := ⟨_, _, rfl, rfl, .cons rfl .nil⟩
  have hlet : s.transformer? 0 ⟨"let"⟩ = some .letForm := by rfl
  have hlambda : s.transformer? 0 Symbol.lambda = none := by rfl
  have hprogn : s.transformer? 0 Symbol.progn = none := by rfl
  have hdefmacro : s.transformer? 0 ⟨"defmacro"⟩ = none := by rfl
  have htables : 0 < s.macroTables.size := by decide +kernel
  clear_value s
  let x : Transformer := .closure [.symbol ⟨"a"⟩, .symbol ⟨"b"⟩] (.int 1) 0
  let u := s.countFunction.defineTransformer 0 Symbol.progn x
  let w := u.openFrame 0 [(⟨"x"⟩, .symbol Symbol.progn)]
  have hvalues : l.Values s 0 0 (.ok [.symbol Symbol.progn]) u :=
    .cons (Eval.evaluates_defineMacro ((s.transformer?_countFunction 0 _).trans hdefmacro)
      rfl rfl) .nil
  have hnamed : w.transformer? 0 Symbol.progn = some x := by
    rw [State.transformer?_openFrame, State.transformer?_defineTransformer]
    exact if_pos ⟨rfl, htables, rfl⟩
  -- The body is a call of the macro, which makes its own form of it.
  have hbody : ∃ t, w.Evaluates u.frames.size 0 (bodyForm l.body) (.ok (.int 1)) t := by
    have hcall : w.macroCall? 0 (bodyForm l.body) = some (x, [.int 2, .int 3]) := by
      show (w.transformer? 0 Symbol.progn).map _ = _
      rw [hnamed]
      rfl
    have hexpand : (Eval.transform (evaluate 1) x [.int 2, .int 3] u.frames.size 0).outcome w =
        some (.ok (.int 1), w.openFrame 0 [(⟨"a"⟩, .int 2), (⟨"b"⟩, .int 3)]) :=
      Eval.outcome_applyClosure_symbols (show [(⟨"a"⟩ : Symbol), ⟨"b"⟩].Nodup by decide) (by decide)
        rfl (evaluate 1)
        (.int 1) 0 0 w
    exact ⟨_, (Eval.evaluates_call_iff ⟨_, _, rfl, hnamed ▸ rfl⟩ hcall hexpand _ _).2 ⟨1, rfl⟩⟩
  have hone : ∃ t, s.Evaluates 0 0 form (.ok (.int 1)) t := by
    obtain ⟨t, ht⟩ := hbody
    refine ⟨t, (evaluates_iff_call hform hlet).2
      ((Eval.evaluates_application_iff (by simp)).2 (.inr ?_))⟩
    refine ⟨_, _, (Eval.evaluates_lambda_iff hlambda rfl).2 ⟨rfl, rfl⟩, .inr ⟨_, u, hvalues, ?_⟩⟩
    exact (Eval.ends_apply_closure_iff (show l.names.Nodup from l.nodup) (by decide) rfl).2 ht
  have hthree : l.Comes s 0 0 (.ok (.int 3)) w :=
    .body hvalues (.cons ⟨1, rfl⟩ (.cons ⟨1, rfl⟩ .nil))
  refine ⟨hform, hlet, hlambda, hprogn, ⟨_, hthree⟩, hone, fun ⟨t, ht⟩ => ?_⟩
  obtain ⟨t', ht'⟩ := hone
  exact absurd (ht.unique ht').1 (by simp)

end LetForm
end SlotLisp
