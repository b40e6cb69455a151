/-
  PlotLisp.Proofs.Evaluation.Lambdas
  ──────────────────────────────────────
  **CALLING A LAMBDA AS IT IS WRITTEN.**

  A lambda is written with its parameters, kept as a value, and called with values for
  them:

    • `parameters_written` — the parameters that are read off `(first rest …)`; a leading
      `list` is taken for the head of a list of parameters, and lost;
    • `Binds` — a copy of an environment in which names are bound to values;
    • `bindAll_of_free`, `bindAll_of_reserved` — binding names one after the other makes
      such a copy, unless a name is reserved;
    • `CallEnds` — how a call with values ends.
-/
import PlotLisp.Proofs.Evaluation.ProcedureForms
import PlotLisp.Proofs.Evaluation.Unmentioned

namespace PlotLisp

open EvalM Evaluation

/-! ## §1. Names of forms. -/

namespace Environment

/-- No name of a form is bound. -/
def SparesForms (env : Environment) : Prop :=
  ∀ name v, env.find? name = some (.binding v) → SpecialForm.ofName? name = none

variable {env : Environment}

theorem sparesForms_standard : standard.SparesForms := by
  intro name v hfound
  have hmem := mem_of_lookup hfound
  unfold standard at hmem
  rcases List.mem_append.mp hmem with hmem | hmem
  · -- the constants are no forms
    obtain ⟨⟨n, c⟩, hc, heq⟩ := List.mem_map.mp hmem
    cases heq
    have hnames : ∀ p ∈ constants, SpecialForm.ofName? p.1 = none := by decide
    exact hnames _ hc
  · obtain ⟨procedure, -, heq⟩ := List.mem_map.mp hmem
    cases heq

/-- A name that may be bound is that of no form. -/
theorem SparesForms.bind (h : env.SparesForms) {name : String} {v : Expr} {after : Environment}
    (hbind : env.bind name v = .ok after) : after.SparesForms := by
  obtain ⟨hfree, rfl⟩ := bind_eq_ok hbind
  intro other w hfound
  rw [find?_put] at hfound
  by_cases hname : other = name
  · subst hname
    exact (free_of_isReserved hfree).1
  · rw [if_neg hname] at hfound
    exact h other w hfound

/-- So evaluation binds no name of a form. -/
theorem SparesForms.evaluate (h : env.SparesForms) (limit : Nat) (e : Expr) :
    (evaluate limit e env).2.SparesForms := by
  intro name v hfound
  by_cases hsame : (PlotLisp.evaluate limit e env).2.find? name = env.find? name
  · exact h name v (hsame ▸ hfound)
  · obtain ⟨-, hfree, -⟩ := evalWithin_extends limit limit e env name hsame
    exact (free_of_isReserved hfree).1

/-! ## §2. Binding parameters. -/

/-- The environment `inner` is a copy of `env` with the names of the pairs bound to their
values; of two values for one name the later one counts. -/
structure Binds (pairs : List (String × Expr)) (env inner : Environment) : Prop where
  bound : ∀ before name v later, pairs = before ++ (name, v) :: later →
    name ∉ later.map Prod.fst → inner.find? name = some (.binding v)
  kept : ∀ name, name ∉ pairs.map Prod.fst → inner.find? name = env.find? name

/-- Free names are bound one after the other. -/
theorem bindAll_of_free {pairs : List (String × Expr)}
    (hfree : ∀ p ∈ pairs, env.isReserved p.1 = false) :
    ∃ inner, env.bindAll pairs = .ok inner ∧ Binds pairs env inner := by
  induction pairs generalizing env with
  | nil =>
    refine ⟨env, rfl, ?_, fun _ _ => rfl⟩
    intro before name v later h
    simp at h
  | cons first rest ih =>
    obtain ⟨n, w⟩ := first
    obtain ⟨hn, hrest⟩ := List.forall_mem_cons.mp hfree
    -- the other names are as free behind the first binding as before
    have hrest' : ∀ p ∈ rest, (env.put n (.binding w)).isReserved p.1 = false := by
      intro p hp
      rw [isReserved_put hn]
      exact hrest p hp
    obtain ⟨inner, hinner, hbinds⟩ := ih hrest'
    refine ⟨inner, ?_, ?_, ?_⟩
    · unfold bindAll
      rw [bind_of_free hn]
      exact hinner
    · intro before name v later h hlater
      cases before with
      | nil =>
        cases h
        rw [hbinds.kept n hlater, find?_put, if_pos rfl]
      | cons p before =>
        obtain ⟨-, h⟩ := List.cons.inj h
        exact hbinds.bound before name v later h hlater
    · intro name hname
      rw [List.map_cons, List.mem_cons, not_or] at hname
      rw [hbinds.kept name hname.2, find?_put, if_neg hname.1]

/-- A reserved name is refused, whatever is bound before it. -/
theorem bindAll_of_reserved {before : List (String × Expr)} {name : String}
    (hbefore : ∀ p ∈ before, env.isReserved p.1 = false) (hname : env.isReserved name = true)
    (v : Expr) (later : List (String × Expr)) :
    env.bindAll (before ++ (name, v) :: later) = .error (runtime.fault (.redefinition name)) := by
  induction before generalizing env with
  | nil =>
    show env.bindAll ((name, v) :: later) = _
    unfold bindAll bind
    rw [if_pos hname]
  | cons first rest ih =>
    obtain ⟨n, w⟩ := first
    obtain ⟨hn, hrest⟩ := List.forall_mem_cons.mp hbefore
    rw [List.cons_append]
    unfold bindAll
    rw [bind_of_free hn]
    apply ih
    · intro p hp
      rw [isReserved_put hn]
      exact hrest p hp
    · rw [isReserved_put hn]
      exact hname

/-- So it is among parameters, each with its value. -/
theorem bindAll_zip_of_reserved {before later : List String} {name : String}
    {values : List Expr} (hlength : (before ++ name :: later).length = values.length)
    (hbefore : ∀ x ∈ before, env.isReserved x = false) (hname : env.isReserved name = true) :
    env.bindAll ((before ++ name :: later).zip values)
      = .error (runtime.fault (.redefinition name)) := by
  have hnames : ((before ++ name :: later).zip values).map Prod.fst = before ++ name :: later :=
    List.map_fst_zip hlength.le
  -- the pairs stand before, at and behind the name as the parameters do
  obtain ⟨pairs, pairs', hpairs, hfirst, hlater⟩ := List.map_eq_append_iff.mp hnames
  obtain ⟨⟨n, v⟩, rest, rfl, rfl, -⟩ := List.map_eq_cons_iff.mp hlater
  have hfree : ∀ p ∈ pairs, env.isReserved p.1 = false := by
    intro p hp
    apply hbefore
    rw [← hfirst]
    exact List.mem_map_of_mem hp
  rw [hpairs]
  exact bindAll_of_reserved hfree hname v rest

end Environment

/-! ## §3. Written lambdas. -/

/-- The expression `(lambda (first rest …) body)`, as it is written. -/
def Expr.writtenLambda (first : String) (rest : List String) (body : Expr) : Expr :=
  .call Expr.lambdaName [.call first (rest.map .symbol), body]

/-- The parameters are the symbols as they are written, unless `list` comes first. -/
theorem parameters_written (first : String) (rest : List String) :
    parameters (.call first (rest.map .symbol))
      = .ok (if first = Expr.listName then rest else first :: rest) := by
  have hrest : (rest.map Expr.symbol).mapM parameterOfLeaf = .ok rest := by
    induction rest with
    | nil => rfl
    | cons name rest ih =>
      rw [List.map_cons, List.mapM_cons, ih]
      rfl
  have hlist : (Expr.call first (rest.map .symbol)).isList = (first == Expr.listName) := rfl
  unfold parameters
  rw [hlist]
  by_cases hfirst : first = Expr.listName
  · rw [if_pos (by simpa using hfirst), if_pos hfirst]
    exact hrest
  · rw [if_neg (by simpa using hfirst), if_neg hfirst]
    show ((rest.map Expr.symbol).mapM parameterOfLeaf >>= fun names => .ok (first :: names)) = _
    rw [hrest]
    rfl

/-- The value of a written lambda keeps its parameters and its body. -/
theorem evaluate_writtenLambda {limit : Nat} {first : String} {rest : List String}
    {body v : Expr} {env : Environment}
    (h : (evaluate limit (.writtenLambda first rest body) env).1 = .ok v) :
    v = .lambda (if first = Expr.listName then rest else first :: rest) body := by
  cases limit with
  | zero => cases h
  | succ limit =>
    have hstep : evalWithin (limit + 1) (limit + 1) (.writtenLambda first rest body)
        = evalLambda [.call first (rest.map .symbol), body] :=
      step_form _ .lambda (List.cons_ne_nil _ _)
    have hlambda : evalLambda [.call first (rest.map .symbol), body]
        = settle (parameters (.call first (rest.map .symbol)))
            >>= fun names => pure (.lambda names body) := rfl
    unfold evaluate at h
    rw [hstep, hlambda, parameters_written] at h
    cases h
    rfl

/-! ## §4. Calls. -/

/-- How a call of `f`, a lambda over `names`, ends with these values: `after` is the environment
that the arguments left, and `eval` what evaluates the body. -/
inductive CallEnds (eval : Expr → EvalM Expr) (f : String) (names : List String) (body : Expr)
    (values : List Expr) (after : Environment) : Except Fault Expr → Prop where
  | count : names.length ≠ values.length → CallEnds eval f names body values after
      (.error (runtime.fault (.argument f (.exactly names.length) values.length)))
  | reserved {before later : List String} {name : String} : names.length = values.length →
      names = before ++ name :: later → (∀ x ∈ before, after.isReserved x = false) →
      after.isReserved name = true →
      CallEnds eval f names body values after (.error (runtime.fault (.redefinition name)))
  | body {inner : Environment} : names.length = values.length →
      (∀ x ∈ names, after.isReserved x = false) →
      Environment.Binds (names.zip values) after inner →
      CallEnds eval f names body values after ((eval body).outcome inner).1

/-- A lambda is called in the environment that it leaves as it is. -/
theorem exists_callEnds (eval : Expr → EvalM Expr) (f : String) (names : List String)
    (body : Expr) (values : List Expr) (env : Environment) :
    ∃ r, (applyLambda eval f (.lambda names body) values).outcome env = (r, env)
      ∧ CallEnds eval f names body values env r := by
  unfold applyLambda
  rw [Expr.lambdaParts?_lambda]
  by_cases hlength : names.length = values.length
  · simp only [if_pos hlength, outcome_bind, outcome_get, outcome_settle]
    cases hreserved : names.find? env.isReserved with
    | some name =>
      obtain ⟨hname, before, later, rfl, hbefore⟩ := List.find?_eq_some_iff_append.mp hreserved
      have hreserved' : env.isReserved name = true := by simpa using hname
      have hfree : ∀ x ∈ before, env.isReserved x = false := fun x hx => by
        simpa using hbefore x hx
      rw [Environment.bindAll_zip_of_reserved hlength hfree hreserved']
      exact ⟨_, rfl, .reserved hlength rfl hfree hreserved'⟩
    | none =>
      have hfree : ∀ x ∈ names, env.isReserved x = false := fun x hx => by
        simpa using List.find?_eq_none.mp hreserved x hx
      have hpairs : ∀ p ∈ names.zip values, env.isReserved p.1 = false := fun p hp =>
        hfree p.1 (List.of_mem_zip hp).1
      obtain ⟨inner, hinner, hbinds⟩ := Environment.bindAll_of_free hpairs
      rw [hinner]
      exact ⟨_, rfl, .body hlength hfree hbinds⟩
  · simp only [if_neg hlength]
    exact ⟨_, rfl, .count hlength⟩

/-- Calling `f` with arguments that have values calls the lambda that is bound to it. -/
theorem exists_call_lambda {env after : Environment} {limit depth : Nat} {f : String}
    {names : List String} {body : Expr} {args values : List Expr}
    (hf : env.find? f = some (.binding (.lambda names body)))
    (hform : SpecialForm.ofName? f = none) (hargs : args ≠ [])
    (hvalues : (evalAll (evalWithin limit depth) args).outcome env = (.ok values, after)) :
    ∃ r, (evalWithin limit (depth + 1) (.call f args)).outcome env = (r, after)
      ∧ CallEnds (evalWithin limit depth) f names body values after r := by
  have hdenotes : Denotes env f (.lambda (.lambda names body)) := .lambda hf rfl
  rw [outcome_call hform hdenotes limit depth hargs, outcome_bind, hvalues]
  exact exists_callEnds (evalWithin limit depth) f names body values after

/-- **A lambda is called with the parameters it was written with.**  Let `f` be bound to the
value of `(lambda (first rest …) body)`, and let the arguments of a call of `f` have values.
The count of values is checked, then the parameters are bound in a copy of the
environment that the arguments left, unless one is reserved, and there the body is
evaluated, one level down; the calling environment stays as the arguments left it.  Only a
leading parameter `list` is no parameter: the lambda goes by the others. -/
theorem lambdas_are_called_with_written_parameters {env₀ env after : Environment}
    {limit₀ limit depth : Nat} {f first : String} {rest : List String} {body v : Expr}
    {args values : List Expr}
    (hvalue : (evaluate limit₀ (.writtenLambda first rest body) env₀).1 = .ok v)
    (hspares : env.SparesForms) (hf : env.find? f = some (.binding v)) (hargs : args ≠ [])
    (hvalues : (evalAll (evalWithin limit depth) args).outcome env = (.ok values, after)) :
    values.length = args.length
    ∧ (first ≠ "list" →
        ∃ r, (evalWithin limit (depth + 1) (.call f args)).outcome env = (r, after)
          ∧ CallEnds (evalWithin limit depth) f (first :: rest) body values after r)
    ∧ (first = "list" →
        ∃ r, (evalWithin limit (depth + 1) (.call f args)).outcome env = (r, after)
          ∧ CallEnds (evalWithin limit depth) f rest body values after r) := by
  -- what is bound is no form, so the call is one of the lambda
  have hform : SpecialForm.ofName? f = none := hspares f v hf
  rw [evaluate_writtenLambda hvalue] at hf
  refine ⟨length_of_outcome_mapM hvalues, fun hfirst => ?_, fun hfirst => ?_⟩
  · rw [if_neg (show first ≠ Expr.listName from hfirst)] at hf
    exact exists_call_lambda hf hform hargs hvalues
  · rw [if_pos (show first = Expr.listName from hfirst)] at hf
    exact exists_call_lambda hf hform hargs hvalues

/-- The standard environment with `f` bound to a lambda over `names`. -/
def Environment.withLambda (f : String) (names : List String) (body : Expr) : Environment :=
  standard.put f (.binding (.lambda names body))

/-- Of two parameters of one name the later one counts. -/
theorem lambdas_are_called_with_written_parameters_of_one_name :
    ∃ r, (evalWithin 2 2 (.call "f" [.string "a", .string "b"])).outcome
          (.withLambda "f" ["x", "x"] (.symbol "x"))
        = (r, .withLambda "f" ["x", "x"] (.symbol "x"))
      ∧ r = .ok (.string "b")
      ∧ CallEnds (evalWithin 2 1) "f" ["x", "x"] (.symbol "x") [.string "a", .string "b"]
          (.withLambda "f" ["x", "x"] (.symbol "x")) r := by
  have hspares : (Environment.withLambda "f" ["x", "x"] (.symbol "x")).SparesForms :=
    Environment.sparesForms_standard.bind (Environment.bind_of_free (by decide +kernel) _)
  have hvalue : (evaluate 1 (.writtenLambda "x" ["x"] (.symbol "x")) .standard).1
      = .ok (.lambda ["x", "x"] (.symbol "x")) := rfl
  have hf : (Environment.withLambda "f" ["x", "x"] (.symbol "x")).find? "f"
      = some (.binding (.lambda ["x", "x"] (.symbol "x"))) := by decide +kernel
  have hvalues : (evalAll (evalWithin 2 1) [.string "a", .string "b"]).outcome
        (.withLambda "f" ["x", "x"] (.symbol "x"))
      = (.ok [.string "a", .string "b"], .withLambda "f" ["x", "x"] (.symbol "x")) := rfl
  obtain ⟨r, hr, hends⟩ := (lambdas_are_called_with_written_parameters hvalue hspares hf
    (List.cons_ne_nil _ _) hvalues).2.1 (by decide)
  have hcall : ((evalWithin 2 2 (.call "f" [.string "a", .string "b"])).outcome
      (.withLambda "f" ["x", "x"] (.symbol "x"))).1 = .ok (.string "b") := by decide +kernel
  rw [hr] at hcall
  exact ⟨r, hr, hcall, hends⟩

/-- A leading parameter `list` is lost: called with two values, the lambda over `list` and `x`
asks for one, where the name `list` should have been refused. -/
theorem leading_list_is_no_parameter :
    ¬ ∀ (env₀ env after : Environment) (limit₀ limit depth : Nat) (f first : String)
        (rest : List String) (body v : Expr) (args values : List Expr),
        env.HasStandard → env.SparesForms →
        (evaluate limit₀ (.writtenLambda first rest body) env₀).1 = .ok v →
        env.find? f = some (.binding v) → args ≠ [] →
        (evalAll (evalWithin limit depth) args).outcome env = (.ok values, after) →
        ∃ r, (evalWithin limit (depth + 1) (.call f args)).outcome env = (r, after)
          ∧ CallEnds (evalWithin limit depth) f (first :: rest) body values after r := by
  intro hclaim
  have hstandard : (Environment.withLambda "f" ["x"] (.symbol "x")).HasStandard := by
    unfold Environment.HasStandard
    decide +kernel
  have hspares : (Environment.withLambda "f" ["x"] (.symbol "x")).SparesForms :=
    Environment.sparesForms_standard.bind (Environment.bind_of_free (by decide +kernel) _)
  have hvalue : (evaluate 1 (.writtenLambda "list" ["x"] (.symbol "x")) .standard).1
      = .ok (.lambda ["x"] (.symbol "x")) := rfl
  have hf : (Environment.withLambda "f" ["x"] (.symbol "x")).find? "f"
      = some (.binding (.lambda ["x"] (.symbol "x"))) := by decide +kernel
  obtain ⟨r, hr, hends⟩ := hclaim .standard (.withLambda "f" ["x"] (.symbol "x"))
    (.withLambda "f" ["x"] (.symbol "x")) 1 2 1 "f" "list" ["x"] (.symbol "x") _
    [.string "a", .string "b"] [.string "a", .string "b"] hstandard hspares hvalue hf
    (List.cons_ne_nil _ _) rfl
  have hcall : ((evalWithin 2 2 (.call "f" [.string "a", .string "b"])).outcome
      (.withLambda "f" ["x"] (.symbol "x"))).1
        = .error (runtime.fault (.argument "f" (.exactly 1) 2)) := by
    decide +kernel
  rw [hr] at hcall
  cases hends with
  | count hlength => exact hlength rfl
  | reserved => cases hcall
  | body _ hfree _ =>
    have hlist := hfree "list" List.mem_cons_self
    revert hlist
    decide +kernel

end PlotLisp
