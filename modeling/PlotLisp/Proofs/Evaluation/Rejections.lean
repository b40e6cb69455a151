/-
  PlotLisp.Proofs.Evaluation.Rejections
  ──────────────────────────────────────
  **REJECTED FORMS.**

  A form fails in one of four ways, and two of them are rejections of its own:

    • it refuses its parts, before anything is evaluated;
    • `OperandFails` — one of its operands fails;
    • it refuses what its first operands evaluated to;
    • `WorkFails` — what it does with the values of all operands fails.

  So a rejected form leaves the environment as it was, or as the operands left it which
  the form evaluated before the check.
-/
import PlotLisp.Proofs.Evaluation.Refusals

namespace PlotLisp

open EvalM Evaluation

variable {eval : Expr → EvalM Expr} {env after : Environment} {form : SpecialForm}
  {parts operands values : List Expr} {fault : Fault}

/-! ## §1. Ways to fail. -/

/-- One of the operands fails; those before it have values. -/
inductive OperandFails (eval : Expr → EvalM Expr) :
    List Expr → Environment → Fault → Environment → Prop where
  | head {e : Expr} {rest : List Expr} {env after : Environment} {fault : Fault} :
      (eval e).outcome env = (.error fault, after) →
      OperandFails eval (e :: rest) env fault after
  | tail {e v : Expr} {rest : List Expr} {env between after : Environment} {fault : Fault} :
      (eval e).outcome env = (.ok v, between) → OperandFails eval rest between fault after →
      OperandFails eval (e :: rest) env fault after

/-- Operands are evaluated from the left, and the first that fails is the last that is evaluated.
-/
theorem OperandFails.of_evalAll
    (h : (evalAll eval operands).outcome env = (.error fault, after)) :
    OperandFails eval operands env fault after := by
  unfold evalAll at h
  induction operands generalizing env with
  | nil => cases h
  | cons e rest ih =>
    rw [List.mapM_cons] at h
    rcases outcome_bind_eq_error_iff.mp h with h | ⟨v, between, hv, h⟩
    · exact .head h
    · rcases outcome_bind_eq_error_iff.mp h with h | ⟨_, _, _, hpure⟩
      · exact .tail hv (ih h)
      · cases hpure

/-- With these values of its operands, the environment `after` being what they left, a
form fails in what it does with them. -/
inductive WorkFails (eval : Expr → EvalM Expr) (env after : Environment) :
    SpecialForm → List Expr → List Expr → Fault → Prop where
  /-- Without parts, the name of a form might be that of a procedure. -/
  | bare {form : SpecialForm} {procedure : Procedure} {fault : Fault} : form ≠ .apply →
      env.find? form.name = some (.procedure procedure) → procedure.run [] = .error fault →
      WorkFails eval env after form [] [] fault
  | called {form : SpecialForm} {wanted name : String} {target e v : Expr} {callable : Callable}
      {fault : Fault} : form.wantedList? = some wanted → target.symbol? = some name →
      Denotes env name callable → v.isList = true →
      (form.callOn eval callable v.tail).outcome after = (.error fault, after) →
      WorkFails eval env after form [target, e] [v] fault
  | drawn {data v : Expr} {options : Option Expr} {values : List Expr}
      {plotOptions : PlotOptions Float} {samples : List (Position Float)} {fault : Fault} :
      PlotOptions.ofExpr? values.head? = .ok plotOptions →
      readSamples "discrete-plot" v = .ok samples →
      plotOf .discrete plotOptions samples = .error fault →
      WorkFails eval env after (.plot .discrete) (data :: options.toList) (v :: values) fault
  | sampled {function range v : Expr} {options : Option Expr} {front values : List Expr}
      {callable : Callable} {low high : Float} {fault : Fault} :
      IsFunction env function front callable → readRange v = .ok (low, high) →
      ((abscissas low high).mapM (sampleAt eval callable)).outcome after
        = (.error fault, after) →
      WorkFails eval env after (.plot .continuous) (function :: range :: options.toList)
        (front ++ v :: values) fault
  | plotted {function range v : Expr} {options : Option Expr} {front values : List Expr}
      {callable : Callable} {low high : Float} {ys : List Float}
      {plotOptions : PlotOptions Float} {fault : Fault} :
      IsFunction env function front callable → readRange v = .ok (low, high) →
      PlotOptions.ofExpr? values.head? = .ok plotOptions →
      List.Forall₂ (HasValue eval after callable) (abscissas low high) ys →
      plotOf .continuous plotOptions ((abscissas low high).zip ys) = .error fault →
      WorkFails eval env after (.plot .continuous) (function :: range :: options.toList)
        (front ++ v :: values) fault

/-- The ways in which a form with these parts fails, and the environments that it leaves. -/
inductive Fails (eval : Expr → EvalM Expr) (env : Environment) (form : SpecialForm)
    (parts : List Expr) : Fault → Environment → Prop where
  | parts {fault : Fault} : RefusesParts env form parts fault →
      Fails eval env form parts fault env
  | operand {fault : Fault} {after : Environment} :
      OperandFails eval (form.operands parts) env fault after →
      Fails eval env form parts fault after
  | values {values : List Expr} {fault : Fault} {after : Environment} :
      Yields eval (form.operands parts) env values after →
      RefusesValues env form parts values fault → Fails eval env form parts fault after
  | work {values : List Expr} {fault : Fault} {after : Environment} :
      Yields eval (form.operands parts) env values after →
      values.length = (form.operands parts).length →
      WorkFails eval env after form parts values fault → Fails eval env form parts fault after

/-- If the parts are refused, that refusal is the failure: nothing was evaluated before it. -/
theorem RefusesParts.fails {fault' : Fault} (h : RefusesParts env form parts fault')
    (hparts : parts ≠ [] ∨ form = .apply)
    (hfails : (evalForm eval form parts).outcome env = (.error fault, after)) :
    Fails eval env form parts fault after := by
  rw [h.outcome_evalForm hparts] at hfails
  cases hfails
  exact .parts h

/-- If the values are refused, that refusal is the failure, and what the operands left stays. -/
theorem RefusesValues.fails {fault' : Fault} {after' : Environment}
    (h : RefusesValues env form parts values fault')
    (hyields : Yields eval (form.operands parts) env values after')
    (hfails : (evalForm eval form parts).outcome env = (.error fault, after)) :
    Fails eval env form parts fault after := by
  rw [h.outcome_evalForm hyields] at hfails
  cases hfails
  exact .values hyields h

/-! ## §2. One form at a time. -/

/-- `begin` refuses nothing but to have no parts. -/
theorem fails_begin (hparts : parts ≠ [])
    (h : (evalForm eval .begin parts).outcome env = (.error fault, after)) :
    OperandFails eval parts env fault after := by
  replace h : (evalBegin eval parts).outcome env = (.error fault, after) := h
  induction parts generalizing env with
  | nil => exact absurd rfl hparts
  | cons e rest ih =>
    cases rest with
    | nil => exact .head h
    | cons e' rest =>
      -- the rest is a `begin` of its own, in the environment that `e` left
      unfold evalBegin at h
      rcases outcome_bind_eq_error_iff.mp h with h | ⟨v, between, hv, h⟩
      · exact .head h
      · exact .tail hv (ih (List.cons_ne_nil _ _) h)

/-- A target that is free when `define` starts is free when the value is bound to it. -/
theorem fails_define {limit depth : Nat} {target e : Expr}
    (h : (evalForm (evalWithin limit depth) .define [target, e]).outcome env
      = (.error fault, after)) :
    Fails (evalWithin limit depth) env .define [target, e] fault after := by
  have hparts : [target, e] ≠ [] ∨ SpecialForm.define = .apply := .inl (List.cons_ne_nil _ _)
  cases htarget : target.symbol? with
  | none => exact RefusesParts.fails (.target htarget) hparts h
  | some name =>
    cases hreserved : env.isReserved name with
    | true => exact RefusesParts.fails (.reserved htarget hreserved) hparts h
    | false =>
      -- what remains is to evaluate the value and to bind it
      have hdefine : (evalForm (evalWithin limit depth) .define [target, e]).outcome env
          = (evalWithin limit depth e >>= fun v => bindName name v >>= fun _ => pure v).outcome
              env := by
        simp only [evalForm, evalDefine, htarget]
        rw [outcome_bind, outcome_get]
        simp only [Environment.checkBindable, hreserved]
        rfl
      rw [hdefine] at h
      rcases outcome_bind_eq_error_iff.mp h with h | ⟨v, between, hv, h⟩
      · exact .operand (.head h)
      · -- evaluating the value reserved no name
        have hextends := evalWithin_extends limit depth e env
        rw [hv] at hextends
        have hfree := hextends.isReserved_eq_false_after hreserved
        rw [outcome_bind, outcome_bindName, Environment.bind_of_free hfree] at h
        cases h

/-- `lambda` evaluates nothing, so it can only refuse its parameters. -/
theorem fails_lambda {params body : Expr}
    (h : (evalForm eval .lambda [params, body]).outcome env = (.error fault, after)) :
    Fails eval env .lambda [params, body] fault after := by
  cases hparameters : parameters params with
  | error fault' =>
    exact RefusesParts.fails (.parameters hparameters) (.inl (List.cons_ne_nil _ _)) h
  | ok names =>
    simp only [evalForm, evalLambda, hparameters] at h
    cases h

/-- `apply` and `map` evaluate their list, and call with it what they found before. -/
theorem fails_calling {wanted : String} {target e : Expr}
    (hwanted : form.wantedList? = some wanted)
    (h : (evalForm eval form [target, e]).outcome env = (.error fault, after)) :
    Fails eval env form [target, e] fault after := by
  have hone := SpecialForm.operands_calling hwanted target e
  rcases Uncallable.denotes_or_uncallable env form.name target with
    ⟨name, callable, htarget, hdenotes⟩ | ⟨fault', huncallable⟩
  · have hfails := h
    rw [outcome_calling hwanted htarget hdenotes] at hfails
    rcases outcome_bind_eq_error_iff.mp hfails with hoperand | ⟨v, between, hv, hcall⟩
    · refine .operand ?_
      rw [hone]
      exact .head hoperand
    · have hyields : Yields eval (form.operands [target, e]) env [v] between := by
        rw [hone]
        exact .cons hv .nil
      cases hlist : v.isList with
      | false => exact RefusesValues.fails (.list hwanted htarget hdenotes hlist) hyields h
      | true =>
        -- the calls leave the environment as the list left it
        rw [if_pos hlist] at hcall
        obtain rfl : after = between := by
          rw [← form.callOn_env callable v.tail between, hcall]
        have hlength : [v].length = (form.operands [target, e]).length := by
          rw [hone]
          rfl
        exact .work hyields hlength (.called hwanted htarget hdenotes hlist hcall)
  · exact RefusesParts.fails (.called hwanted huncallable) (.inl (List.cons_ne_nil _ _)) h

/-- `set-property` takes every value under every key, once the key is a string literal. -/
theorem fails_setProperty {key e e' : Expr}
    (h : (evalForm eval .setProperty [key, e, e']).outcome env = (.error fault, after)) :
    Fails eval env .setProperty [key, e, e'] fault after := by
  cases hkey : key.string? with
  | none => exact RefusesParts.fails (.setKey hkey) (.inl (List.cons_ne_nil _ _)) h
  | some contents =>
    simp only [evalForm, evalSetProperty, literalKey, hkey, pure_bind] at h
    rcases outcome_bind_eq_error_iff.mp h with h | ⟨v, between, hv, h⟩
    · exact .operand (.head h)
    · rcases outcome_bind_eq_error_iff.mp h with h | ⟨_, _, _, hpure⟩
      · exact .operand (.tail hv (.head h))
      · cases hpure

/-- `get-property` answers for a missing key too, so only its key can be refused. -/
theorem fails_getProperty {key e : Expr}
    (h : (evalForm eval .getProperty [key, e]).outcome env = (.error fault, after)) :
    Fails eval env .getProperty [key, e] fault after := by
  cases hkey : key.string? with
  | none => exact RefusesParts.fails (.getKey hkey) (.inl (List.cons_ne_nil _ _)) h
  | some contents =>
    simp only [evalForm, evalGetProperty, literalKey, hkey, pure_bind] at h
    rcases outcome_bind_eq_error_iff.mp h with h | ⟨_, _, _, hpure⟩
    · exact .operand (.head h)
    · cases hpure

/-- `discrete-plot` evaluates the data first, but reads the options before the data. -/
theorem fails_discrete {data : Expr} {options : Option Expr}
    (h : (evalForm eval (.plot .discrete) (data :: options.toList)).outcome env
      = (.error fault, after)) :
    Fails eval env (.plot .discrete) (data :: options.toList) fault after := by
  have hfails := h
  rw [evalForm_discrete] at hfails
  rcases outcome_bind_eq_error_iff.mp hfails with hdata | ⟨v, between, hv, hfails⟩
  · exact .operand (.head hdata)
  rcases outcome_bind_eq_error_iff.mp hfails with hoptions | ⟨values, after', hvalues, hfails⟩
  · exact .operand (.tail hv (.of_evalAll hoptions))
  have hlength := length_of_outcome_mapM hvalues
  have hyields : Yields eval (data :: options.toList) env (v :: values) after' :=
    .cons hv (.of_evalAll hvalues)
  -- the options are read before the samples, although they stand behind them
  cases hread : PlotOptions.ofExpr? values.head? with
  | error fault' => exact RefusesValues.fails (.dataOptions hlength hread) hyields h
  | ok plotOptions =>
    cases hsamples : readSamples "discrete-plot" v with
    | error fault' => exact RefusesValues.fails (.data hlength hread hsamples) hyields h
    | ok samples =>
      rw [hread, hsamples, outcome_settle] at hfails
      obtain ⟨hplot, rfl⟩ := Prod.mk.inj hfails
      exact .work hyields (congrArg (· + 1) hlength) (.drawn hread hsamples hplot)

/-- Whatever comes of the other operands then comes after the function. -/
theorem Supplies.exists_isFunction {function : Expr} {callable : Callable}
    {between : Environment} (h : Supplies eval env function callable between) (rest : List Expr) :
    ∃ front, IsFunction env function front callable
      ∧ (SpecialForm.operands (.plot .continuous) (function :: rest)).length
          = front.length + rest.length
      ∧ (∀ values after, Yields eval rest between values after →
          Yields eval (SpecialForm.operands (.plot .continuous) (function :: rest)) env
            (front ++ values) after)
      ∧ ∀ fault after, OperandFails eval rest between fault after →
          OperandFails eval (SpecialForm.operands (.plot .continuous) (function :: rest)) env
            fault after := by
  cases h with
  | named hname hdenotes =>
    rw [SpecialForm.operands_of_name hname]
    exact ⟨[], .named hname hdenotes, (Nat.zero_add _).symm, fun _ _ h => h, fun _ _ h => h⟩
  | computed hname hv hlambda =>
    rw [SpecialForm.operands_of_no_name hname]
    exact ⟨_, .computed hname hlambda, Nat.add_comm _ _, fun _ _ h => .cons hv h,
      fun _ _ h => .tail hv h⟩

/-- With its function, a continuous plot still fails in the range, the options, a sample or
the drawing. -/
theorem Supplies.fails {function range : Expr} {options : Option Expr} {callable : Callable}
    {between : Environment} (hsupplies : Supplies eval env function callable between)
    (h : (evalForm eval (.plot .continuous) (function :: range :: options.toList)).outcome env
      = (.error fault, after)) :
    Fails eval env (.plot .continuous) (function :: range :: options.toList) fault after := by
  obtain ⟨front, hfunction, hcount, hyields, hoperand⟩ :=
    hsupplies.exists_isFunction (range :: options.toList)
  -- from here on in the environment that the function left
  have hfails := h
  rw [outcome_plotFunction hsupplies] at hfails
  unfold plotCallable at hfails
  rcases outcome_bind_eq_error_iff.mp hfails with hrange | ⟨v, env₂, hv, hfails⟩
  · exact .operand (hoperand _ _ (.head hrange))
  cases hread : readRange v with
  | error fault' =>
    exact RefusesValues.fails (.range hfunction hread) (hyields _ _ (.cons hv .nil)) h
  | ok bounds =>
    obtain ⟨low, high⟩ := bounds
    rw [hread, outcome_bind, outcome_settle] at hfails
    rcases outcome_bind_eq_error_iff.mp hfails with hoptions | ⟨values, env₃, hvalues, hfails⟩
    · exact .operand (hoperand _ _ (.tail hv (.of_evalAll hoptions)))
    have hlength := length_of_outcome_mapM hvalues
    have hall := hyields _ _ (.cons hv (.of_evalAll hvalues))
    have hall' : (front ++ v :: values).length = (SpecialForm.operands (.plot .continuous)
        (function :: range :: options.toList)).length := by
      rw [hcount, List.length_append, List.length_cons, List.length_cons, hlength]
    cases hread' : PlotOptions.ofExpr? values.head? with
    | error fault' =>
      exact RefusesValues.fails (.rangeOptions hfunction hread hlength hread') hall h
    | ok plotOptions =>
      rw [hread', outcome_bind, outcome_settle] at hfails
      rcases outcome_bind_eq_error_iff.mp hfails with hsamples | ⟨samples, env₄, hsamples, hdrawn⟩
      · obtain rfl : after = env₃ := by
          rw [← outcome_mapM_env fun x _ => sampleAt_env callable x env₃, hsamples]
        exact .work hall hall' (.sampled hfunction hread hsamples)
      · obtain ⟨rfl, ys, rfl, hys⟩ := outcome_samples_eq_ok_iff.mp hsamples
        rw [outcome_settle] at hdrawn
        obtain ⟨hplot, rfl⟩ := Prod.mk.inj hdrawn
        exact .work hall hall' (.plotted hfunction hread hread' hys hplot)

/-- `continuous-plot` looks at its function first, and samples it after all else was read. -/
theorem fails_continuous {function range : Expr} {options : Option Expr}
    (h : (evalForm eval (.plot .continuous) (function :: range :: options.toList)).outcome env
      = (.error fault, after)) :
    Fails eval env (.plot .continuous) (function :: range :: options.toList) fault after := by
  cases hname : function.symbol? with
  | some name =>
    -- a name is looked up before anything is evaluated
    rcases Uncallable.denotes_or_uncallable env "continuous-plot" function with
      ⟨name', callable, hname', hdenotes⟩ | ⟨fault', huncallable⟩
    · exact Supplies.fails (.named hname' hdenotes) h
    · have hsome : function.symbol?.isSome = true := by rw [hname, Option.isSome_some]
      exact RefusesParts.fails (.plotted hsome huncallable) (.inl (List.cons_ne_nil _ _)) h
  | none =>
    have hoperands := SpecialForm.operands_of_no_name hname (range :: options.toList)
    have hfails := h
    rw [evalForm_continuous] at hfails
    unfold plotFunction plottedFunction at hfails
    simp only [hname, Option.isSome_none, Bool.false_eq_true, if_false, bind_assoc] at hfails
    rcases outcome_bind_eq_error_iff.mp hfails with hfunction | ⟨v, between, hv, -⟩
    · refine .operand ?_
      rw [hoperands]
      exact .head hfunction
    · cases hlambda : v.isLambda with
      | true => exact Supplies.fails (.computed hname hv hlambda) h
      | false =>
        have hyields : Yields eval (SpecialForm.operands (.plot .continuous)
            (function :: range :: options.toList)) env [v] between := by
          rw [hoperands]
          exact .cons hv .nil
        exact RefusesValues.fails (.function hname hlambda) hyields h

/-! ## §3. All forms. -/

theorem admits_between {low high k : Nat} :
    (ArgCount.between low high).admits k = true ↔ low ≤ k ∧ k ≤ high := by
  unfold ArgCount.admits
  rw [Bool.and_eq_true, decide_eq_true_eq, decide_eq_true_eq]

theorem exists_toList {rest : List Expr} (h : rest.length ≤ 1) :
    ∃ options : Option Expr, rest = options.toList := by
  match rest with
  | [] => exact ⟨none, rfl⟩
  | [e] => exact ⟨some e, rfl⟩
  | _ :: _ :: _ => simp at h

/-- Every form with parts fails in one of these ways. -/
theorem fails_of_evalForm {limit depth : Nat} (hparts : parts ≠ [] ∨ form = .apply)
    (h : (evalForm (evalWithin limit depth) form parts).outcome env = (.error fault, after)) :
    Fails (evalWithin limit depth) env form parts fault after := by
  cases hcount : form.arity.admits parts.length with
  | false => exact RefusesParts.fails (.count hparts hcount) hparts h
  | true =>
    -- the shape that most forms ask for
    have htwo : form.arity = .exactly 2 → ∃ a b, parts = [a, b] := by
      intro harity
      rw [harity] at hcount
      exact List.length_eq_two.mp (eq_of_beq hcount)
    cases form with
    | define =>
      obtain ⟨target, e, rfl⟩ := htwo rfl
      exact fails_define h
    | begin =>
      rcases hparts with hparts | hparts
      · exact .operand (fails_begin hparts h)
      · cases hparts
    | lambda =>
      obtain ⟨params, body, rfl⟩ := htwo rfl
      exact fails_lambda h
    | apply =>
      obtain ⟨target, e, rfl⟩ := htwo rfl
      exact fails_calling rfl h
    | map =>
      obtain ⟨target, e, rfl⟩ := htwo rfl
      exact fails_calling rfl h
    | setProperty =>
      obtain ⟨key, e, e', rfl⟩ := List.length_eq_three.mp (eq_of_beq hcount)
      exact fails_setProperty h
    | getProperty =>
      obtain ⟨key, e, rfl⟩ := htwo rfl
      exact fails_getProperty h
    | plot kind =>
      -- behind what every plot takes stand options or nothing
      cases kind with
      | discrete =>
        rcases parts with _ | ⟨data, rest⟩
        · cases hcount
        · have hlength : rest.length + 1 ≤ 2 := (admits_between.mp hcount).2
          obtain ⟨options, rfl⟩ := exists_toList (Nat.le_of_succ_le_succ hlength)
          exact fails_discrete h
      | continuous =>
        rcases parts with _ | ⟨function, _ | ⟨range, rest⟩⟩
        · cases hcount
        · cases hcount
        · have hlength : rest.length + 2 ≤ 3 := (admits_between.mp hcount).2
          have hrest : rest.length ≤ 1 := by omega
          obtain ⟨options, rfl⟩ := exists_toList hrest
          exact fails_continuous h

/-- Without parts, a form fails where its name means nothing, or a procedure that fails. -/
theorem fails_of_bare {e : Expr} (hhead : e.headSymbol? = some form.name)
    (happly : form ≠ .apply) (h : (evalLeaf e).outcome env = (.error fault, after)) :
    Fails eval env form [] fault after := by
  rw [outcome_evalLeaf hhead] at h
  cases hfound : env.find? form.name with
  | none =>
    rw [hfound] at h
    cases h
    exact .parts (.bare happly hfound)
  | some entry =>
    rw [hfound] at h
    cases entry with
    | binding v => cases h
    | procedure procedure =>
      obtain ⟨hrun, rfl⟩ := Prod.mk.inj h
      have hlength : ([] : List Expr).length = (form.operands []).length := by
        rw [SpecialForm.operands_nil]
      exact .work .nil hlength (.bare happly hfound hrun)

/-! ## §4. Rejections. -/

/-- **What a rejected form leaves.**  A form that refuses its parts as they are written
fails with that refusal before anything is evaluated, in the environment as it was.  A
form that refuses values of its operands fails in the environment that these operands
left; it is `apply`, `map` or a plot, and the environment is as it was if they define
nothing.  Other than that, a form fails only where an operand does, or in what it does with
the values of all operands. -/
theorem rejections_leave_what_operands_left {e : Expr} (hhead : e.headSymbol? = some form.name)
    (limit depth : Nat) (env : Environment) :
    (∀ fault, RefusesParts env form e.tail fault →
      (evalWithin limit (depth + 1) e).outcome env = (.error fault, env))
    ∧ (∀ values fault after,
        Yields (evalWithin limit depth) (form.operands e.tail) env values after →
        RefusesValues env form e.tail values fault →
        (evalWithin limit (depth + 1) e).outcome env = (.error fault, after)
        ∧ (form = .apply ∨ form = .map ∨ ∃ kind, form = .plot kind)
        ∧ ((∀ operand ∈ form.operands e.tail, ∀ name, ¬ Defines name operand) → after = env))
    ∧ ∀ fault after, (evalWithin limit (depth + 1) e).outcome env = (.error fault, after) →
        Fails (evalWithin limit depth) env form e.tail fault after := by
  by_cases hparts : e.tail ≠ [] ∨ form = .apply
  · have hstep : evalWithin limit (depth + 1) e = evalForm (evalWithin limit depth) form e.tail :=
      step_of_form hhead hparts
    rw [hstep]
    refine ⟨fun fault hrefuses => hrefuses.outcome_evalForm hparts, ?_,
      fun fault after => fails_of_evalForm hparts⟩
    intro values fault after hyields hrefuses
    exact ⟨hrefuses.outcome_evalForm hyields, hrefuses.form_eq, hyields.env_eq⟩
  · rw [not_or, not_not] at hparts
    obtain ⟨htail, happly⟩ := hparts
    have hstep : evalWithin limit (depth + 1) e = evalLeaf e := step_of_bare hhead htail happly
    rw [hstep, htail]
    refine ⟨fun fault hrefuses => hrefuses.outcome_evalLeaf hhead happly, ?_,
      fun fault after => fails_of_bare hhead happly⟩
    -- without parts there are no values to refuse
    intro values fault after _ hrefuses
    cases hrefuses

/-- The call `(apply list (define x "a"))`, whose argument is no list. -/
def Expr.definingApply : Expr :=
  .call "apply" [.symbol "list", .call "define" [.symbol "x", .string "a"]]

/-- The operand of this `apply` defines `x`, and its value is refused. -/
theorem yields_definingApply :
    Yields (evalWithin 3 2) (SpecialForm.apply.operands Expr.definingApply.tail) .standard
      [.string "a"] (Environment.standard.put "x" (.binding (.string "a"))) :=
  .cons (by decide +kernel) .nil

theorem refusesValues_definingApply :
    RefusesValues .standard .apply Expr.definingApply.tail [.string "a"]
      (runtime.fault (.mismatch "apply" "a list of arguments" "string")) := by
  have hlist : Environment.standard.find? "list" = some (.procedure .list) := by decide +kernel
  exact .list rfl rfl (.procedure hlist) rfl

/-- It is rejected, and leaves `x` defined. -/
theorem rejections_leave_what_operands_left_defining :
    (evalWithin 3 3 .definingApply).outcome .standard
      = (.error (runtime.fault (.mismatch "apply" "a list of arguments" "string")),
          Environment.standard.put "x" (.binding (.string "a"))) := by
  have hrejections := rejections_leave_what_operands_left
    (show Expr.definingApply.headSymbol? = some SpecialForm.apply.name from rfl) 3 2 .standard
  exact (hrejections.2.1 _ _ _ yields_definingApply refusesValues_definingApply).1

/-- So a rejected form may leave another environment than it found. -/
theorem rejected_apply_leaves_definition :
    ¬ ∀ (limit depth : Nat) (env after : Environment) (form : SpecialForm) (e : Expr)
        (fault : Fault), e.headSymbol? = some form.name →
        (evalWithin limit (depth + 1) e).outcome env = (.error fault, after) →
        (RefusesParts env form e.tail fault ∨ ∃ values,
          Yields (evalWithin limit depth) (form.operands e.tail) env values after
            ∧ RefusesValues env form e.tail values fault) →
        after = env := by
  intro hclaim
  have hsame := hclaim 3 2 .standard _ .apply .definingApply _ rfl (by decide +kernel)
    (.inr ⟨_, yields_definingApply, refusesValues_definingApply⟩)
  have hunbound : Environment.standard.find? "x" = none := by decide +kernel
  have hbound : (Environment.standard.put "x" (.binding (.string "a"))).find? "x" = none := by
    rw [hsame, hunbound]
  rw [Environment.find?_put, if_pos rfl] at hbound
  cases hbound

end PlotLisp
