/-
  PlotLisp.Proofs.Evaluation.Unmentioned
  ──────────────────────────────────────
  **NAMES THAT ARE NOT MENTIONED.**

  The body of a lambda sees whatever its caller has bound, so a name may
  matter that the code at hand does not contain.  It does not matter if it
  stands nowhere in the code and nowhere in what is bound to other names:

    • `Omits z e` — the symbol `z` is nowhere in `e`, properties included;
    • `Ignores z v` — nothing that can be called or taken out of the value `v`
      uses the name `z`;
    • `apart z` — environments that differ at `z` only cannot be told apart.
-/
import PlotLisp.Proofs.Evaluation.Calls
import PlotLisp.Proofs.Evaluation.Simulation

namespace PlotLisp

open EvalM Evaluation

/-! ## §1. Trees without a symbol. -/

/-- The symbol `z` stands nowhere in the tree, nor in the value of any property. -/
inductive Omits (z : String) : Expr → Prop where
  | node {head : Atom} {tail : List Expr} {props : List (String × Expr)} : head ≠ .symbol z →
      (∀ c ∈ tail, Omits z c) → (∀ p ∈ props, Omits z p.2) → Omits z (.node head tail props)

namespace Omits

variable {z : String} {e : Expr}

theorem headSymbol_ne (h : Omits z e) {x : String} (hx : e.headSymbol? = some x) : x ≠ z := by
  cases h with
  | @node head _ _ hhead _ _ =>
    have hx : head.symbol? = some x := hx
    intro hz
    subst hz
    cases head with
    | symbol name => exact hhead (congrArg Atom.symbol (Option.some.inj hx))
    | _ => cases hx

theorem of_mem_tail (h : Omits z e) {c : Expr} (hc : c ∈ e.tail) : Omits z c := by
  cases h with
  | node _ htail _ => exact htail c hc

theorem atom {a : Atom} (h : a ≠ .symbol z) : Omits z (.atom a) :=
  .node h (List.forall_mem_nil _) (List.forall_mem_nil _)

theorem call {f : String} (hf : f ≠ z) {parts : List Expr} (h : ∀ c ∈ parts, Omits z c) :
    Omits z (.call f parts) :=
  .node (fun hz => hf (Atom.symbol.inj hz)) h (List.forall_mem_nil _)

end Omits

/-! ## §2. Parts of lambdas. -/

namespace Expr

/-- The names of bare symbols are names of symbols. -/
theorem mem_of_mapM_symbol? {params : List Expr} {names : List String}
    (h : params.mapM symbol? = some names) {x : String} (hx : x ∈ names) :
    ∃ p ∈ params, p.symbol? = some x := by
  induction params generalizing names with
  | nil =>
    cases h
    exact absurd hx List.not_mem_nil
  | cons p rest ih =>
    rw [List.mapM_cons] at h
    obtain ⟨name, hname, h⟩ := Option.bind_eq_some_iff.mp h
    obtain ⟨names', hnames', h⟩ := Option.bind_eq_some_iff.mp h
    cases h
    rcases List.mem_cons.mp hx with rfl | hx
    · exact ⟨p, List.mem_cons_self, hname⟩
    · obtain ⟨q, hq, hqx⟩ := ih hnames' hx
      exact ⟨q, List.mem_cons_of_mem p hq, hqx⟩

/-- Names stand for themselves as bare symbols. -/
theorem mapM_symbol?_map (names : List String) :
    (names.map symbol).mapM symbol? = some names := by
  induction names with
  | nil => rfl
  | cons name rest ih =>
    rw [List.map_cons, List.mapM_cons, ih]
    rfl

/-- A lambda has the parameters and the body that it was built from. -/
theorem lambdaParts?_lambda (names : List String) (body : Expr) :
    (lambda names body).lambdaParts? = some (names, body) := by
  show ((names.map symbol).mapM symbol?).map (fun names => (names, body)) = _
  rw [mapM_symbol?_map]
  rfl

/-- Parameters and body are parts of the tree: the body is a child, and the parameters are
symbols below another child. -/
theorem parts_of_lambdaParts? {e body : Expr} {names : List String}
    (h : e.lambdaParts? = some (names, body)) :
    e.isLambda = true ∧ body ∈ e.tail
      ∧ ∃ params ∈ e.tail, params.tail.mapM symbol? = some names := by
  unfold lambdaParts? at h
  split at h
  · split at h
    · rename_i hlambda
      obtain ⟨names', hnames', hparts⟩ := Option.map_eq_some_iff.mp h
      cases hparts
      exact ⟨hlambda, by simp [tail], _, by simp [tail], hnames'⟩
    · cases h
  · cases h

/-- A list is no lambda. -/
theorem isLambda_of_isList {e : Expr} (h : e.isList = true) : e.isLambda = false := by
  unfold isLambda
  split
  · rename_i name params body props
    have hname : name = listName := by simpa [isList, headSymbol?, head, Atom.symbol?] using h
    subst hname
    rfl
  · rfl

/-- Properties play no part in what a lambda is. -/
theorem lambdaParts?_withProps (head : Atom) (tail : List Expr)
    (props props' : List (String × Expr)) :
    (node head tail props).lambdaParts? = (node head tail props').lambdaParts? := by
  match tail with
  | [params, body] => cases head <;> rfl
  | [] | [_] | _ :: _ :: _ :: _ => rfl

end Expr

/-! ## §3. Values that do not use a name. -/

/-- Neither the value nor anything that evaluation may take out of it is a lambda with `z` in
its parameters or its body.  This is less than `Omits z`: the lists that evaluation builds
are headed by `list`, whatever `z` is. -/
inductive Ignores (z : String) : Expr → Prop where
  | node {head : Atom} {tail : List Expr} {props : List (String × Expr)} :
      ((Expr.node head tail props).isList = true → ∀ c ∈ tail, Ignores z c) →
      (∀ p ∈ props, Ignores z p.2) →
      (∀ names body, (Expr.node head tail props).lambdaParts? = some (names, body) →
        z ∉ names ∧ Omits z body) →
      Ignores z (.node head tail props)

theorem Omits.lambdaParts {z : String} {e body : Expr} {names : List String} (h : Omits z e)
    (hparts : e.lambdaParts? = some (names, body)) : z ∉ names ∧ Omits z body := by
  obtain ⟨-, hbody, params, hparams, hnames⟩ := Expr.parts_of_lambdaParts? hparts
  refine ⟨?_, h.of_mem_tail hbody⟩
  intro hz
  obtain ⟨p, hp, hsymbol⟩ := Expr.mem_of_mapM_symbol? hnames hz
  have hp : Omits z p := (h.of_mem_tail hparams).of_mem_tail hp
  exact hp.headSymbol_ne (Expr.headSymbol?_of_symbol? hsymbol) rfl

/-- A tree without the symbol does not use the name. -/
theorem Omits.ignores {z : String} {e : Expr} (h : Omits z e) : Ignores z e := by
  induction h with
  | node hhead htail hprops ih ihProps =>
    exact .node (fun _ => ih) ihProps fun _ _ => (Omits.node hhead htail hprops).lambdaParts

namespace Ignores

variable {z : String}

theorem lambdaParts {v body : Expr} {names : List String} (h : Ignores z v)
    (hparts : v.lambdaParts? = some (names, body)) : z ∉ names ∧ Omits z body := by
  cases h with
  | node _ _ hlambda => exact hlambda names body hparts

theorem lambda {names : List String} (hnames : z ∉ names) {body : Expr} (hbody : Omits z body) :
    Ignores z (.lambda names body) := by
  have hnot : (Expr.lambda names body).isList = false := rfl
  refine .node (fun hl => absurd (hnot.symm.trans hl) (by decide))
    (List.forall_mem_nil _) ?_
  intro names' body' hparts
  cases (Expr.lambdaParts?_lambda names body).symm.trans hparts
  exact ⟨hnames, hbody⟩

theorem closed : ClosedValues (Ignores z) where
  atom a ha := by
    refine .node (fun _ => List.forall_mem_nil _) (List.forall_mem_nil _) ?_
    intro names body hparts
    cases hparts
  list items hitems := by
    -- `z` may be `list` itself: the head of a list does not count
    refine .node (fun _ => hitems) (List.forall_mem_nil _) ?_
    intro names body hparts
    obtain ⟨hlambda, -⟩ := Expr.parts_of_lambdaParts? hparts
    have hnot : (Expr.list items).isLambda = false := Expr.isLambda_of_isList rfl
    exact absurd (hnot.symm.trans hlambda) (by decide)
  item v hv hl c hc := by
    cases hv with
    | node hitems _ _ => exact hitems hl c hc
  setProp v key value hv hvalue := by
    -- the items and the parts of a lambda are as they were, the properties are one more
    cases hv with
    | node hitems hprops hlambda =>
      refine .node hitems (Expr.forall_mem_insertProp hvalue hprops) ?_
      intro names body hparts
      rw [Expr.lambdaParts?_withProps] at hparts
      exact hlambda names body hparts
  prop v key value hv hprop := by
    cases hv with
    | node _ hprops _ => exact hprops _ (mem_of_lookup hprop)

end Ignores

/-! ## §4. Environments that differ at one name. -/

/-- The environments agree on all names but `z`, and what they bind these names to does not
use `z`; at `z` stand `entry` and `entry'`. -/
structure Apart (z : String) (entry entry' : Option Entry) (E E' : Environment) : Prop where
  left : E.find? z = entry
  right : E'.find? z = entry'
  agree : ∀ x, x ≠ z → E.find? x = E'.find? x
  ignores : ∀ x v, x ≠ z → E.find? x = some (.binding v) → Ignores z v

namespace Apart

variable {z : String} {entry entry' : Option Entry} {E E' : Environment}

/-- Binding another name leaves them apart at `z` only. -/
theorem put (h : Apart z entry entry' E E') {x : String} (hx : x ≠ z) {v : Expr}
    (hv : Ignores z v) :
    Apart z entry entry' (E.put x (.binding v)) (E'.put x (.binding v)) := by
  refine ⟨?_, ?_, ?_, ?_⟩
  · rw [Environment.find?_put, if_neg hx.symm]
    exact h.left
  · rw [Environment.find?_put, if_neg hx.symm]
    exact h.right
  · intro y hy
    rw [Environment.find?_put, Environment.find?_put, h.agree y hy]
  · intro y w hy hw
    rw [Environment.find?_put] at hw
    by_cases hyx : y = x
    · rw [if_pos hyx] at hw
      cases hw
      exact hv
    · rw [if_neg hyx] at hw
      exact h.ignores y w hy hw

end Apart

/-- Code without the symbol `z` cannot tell such environments apart. -/
def apart (z : String) (entry entry' : Option Entry) : Simulation where
  envs := Apart z entry entry'
  name x := x ≠ z
  code := Omits z
  value := Ignores z
  cut _ := False
  values := Ignores.closed
  find hE hx := hE.agree _ hx
  put hE hx hv := hE.put hx hv
  binding hE hx hv := hE.ignores _ _ hx hv
  head he hx := he.headSymbol_ne hx
  part he hc := he.of_mem_tail hc
  literal he _ _ := he.ignores
  lambda hnames hbody := Ignores.lambda (fun hz => hnames _ hz rfl) hbody
  lambdaParts hv hparts := by
    obtain ⟨hz, hbody⟩ := hv.lambdaParts hparts
    exact ⟨fun x hx hxz => hz (hxz ▸ hx), hbody⟩

/-- **A name that is not mentioned has no influence.**  Let `z` stand neither in the
expression nor in what other names are bound to.  Whatever `z` means in an environment
and in another one that agrees with it on all other names, the outcomes are the same, the
environments agree on all other names afterwards, and `z` means what it meant before. -/
theorem unmentioned_names_have_no_influence {z : String} {e : Expr} {env env' : Environment}
    (hcode : Omits z e)
    (hbound : ∀ x v, x ≠ z → env.find? x = some (.binding v) → Omits z v)
    (hagree : ∀ x, x ≠ z → env'.find? x = env.find? x) (limit : Nat) :
    (evaluate limit e env').1 = (evaluate limit e env).1
    ∧ (∀ x, x ≠ z → (evaluate limit e env').2.find? x = (evaluate limit e env).2.find? x)
    ∧ (evaluate limit e env).2.find? z = env.find? z
    ∧ (evaluate limit e env').2.find? z = env'.find? z := by
  have hE : Apart z (env.find? z) (env'.find? z) env env' :=
    ⟨rfl, rfl, fun x hx => (hagree x hx).symm, fun x v hx hv => (hbound x v hx hv).ignores⟩
  have hends : Alike (Apart z (env.find? z) (env'.find? z)) (fun _ => False) (Ignores z)
      (evaluate limit e env) (evaluate limit e env') :=
    (apart z (env.find? z) (env'.find? z)).evalWithin limit limit e hcode env env' hE
  generalize evaluate limit e env = r at hends ⊢
  generalize evaluate limit e env' = r' at hends ⊢
  cases hends with
  | cutOff hcut => exact hcut.elim
  | value _ hafter =>
    exact ⟨rfl, fun x hx => (hafter.agree x hx).symm, hafter.left, hafter.right⟩
  | fault hafter =>
    exact ⟨rfl, fun x hx => (hafter.agree x hx).symm, hafter.left, hafter.right⟩

/-- Calls the lambda of `Environment.callerScope`, once to define another name. -/
def Expr.callerProgram : Expr :=
  .call "begin" [.call "define" [.symbol "w", .call "f" [.string "b"]], .call "f" [.symbol "w"]]

/-- The program runs where `z` is bound to a symbol as it runs where `z` is not bound. -/
theorem unmentioned_names_have_no_influence_on_calls :
    (evaluate 5 .callerProgram (.put .callerScope "z" (.binding (.symbol "z")))).1
      = (evaluate 5 .callerProgram .callerScope).1
    ∧ (∀ x, x ≠ "z" →
        (evaluate 5 .callerProgram (.put .callerScope "z" (.binding (.symbol "z")))).2.find? x
          = (evaluate 5 .callerProgram .callerScope).2.find? x)
    ∧ (evaluate 5 .callerProgram .callerScope).2.find? "z" = none
    ∧ (evaluate 5 .callerProgram (.put .callerScope "z" (.binding (.symbol "z")))).2.find? "z"
        = some (.binding (.symbol "z")) := by
  have hsymbol {name : String} (h : name ≠ "z") : Omits "z" (.symbol name) :=
    .atom fun hz => h (Atom.symbol.inj hz)
  have hstring (s : String) : Omits "z" (.string s) := .atom (by rintro ⟨⟩)
  have hpair {a b : Expr} (ha : Omits "z" a) (hb : Omits "z" b) : ∀ c ∈ [a, b], Omits "z" c := by
    simp only [List.forall_mem_cons]
    exact ⟨ha, hb, List.forall_mem_nil _⟩
  have hcode : Omits "z" .callerProgram := by
    refine .call (by decide) (hpair (.call (by decide) (hpair (hsymbol (by decide)) ?_)) ?_)
    · exact .call (by decide) (List.forall_mem_singleton.mpr (hstring "b"))
    · exact .call (by decide) (List.forall_mem_singleton.mpr (hsymbol (by decide)))
  have hparams : Omits "z" (.list [.symbol "y"]) :=
    .call (by decide) (List.forall_mem_singleton.mpr (hsymbol (by decide)))
  have hbody : Omits "z" (.call "list" [.symbol "x", .symbol "y"]) :=
    .call (by decide) (hpair (hsymbol (by decide)) (hsymbol (by decide)))
  have hbound : ∀ x v, x ≠ "z" →
      Environment.callerScope.find? x = some (.binding v) → Omits "z" v := by
    intro x v _ hfound
    have hmem : (x, Entry.binding v) ∈ Environment.callerScope.entries := mem_of_lookup hfound
    simp only [Environment.callerScope, List.mem_cons, List.not_mem_nil, Prod.mk.injEq,
      reduceCtorEq, and_false, Entry.binding.injEq, or_false, false_or] at hmem
    rcases hmem with ⟨-, rfl⟩ | ⟨-, rfl⟩
    · exact hstring "a"
    · exact .call (by decide) (hpair hparams hbody)
  have hagree : ∀ x, x ≠ "z" → Environment.find?
      (.put .callerScope "z" (.binding (.symbol "z"))) x = Environment.callerScope.find? x := by
    intro x hx
    rw [Environment.find?_put, if_neg hx]
  exact unmentioned_names_have_no_influence hcode hbound hagree 5

end PlotLisp
