/-
  PlotLisp.Proofs.Evaluation.HigherOrder
  ──────────────────────────────────────
  **APPLYING AND MAPPING.**

  `apply` and `map` find what they call in the environment before they
  evaluate the list of arguments, and a direct call does the same.  They
  differ in how deep the arguments and the body of a lambda are evaluated,
  which makes no difference unless something is cut off:

    • `(apply f (list a …))` ends as `(f a …)`, up to the place that a lambda
      names if it rejects the arguments;
    • `(map f (list a …))` succeeds as `(list (f a) …)` does, if the arguments
      define nothing: then no call sees what another one did.
-/
import PlotLisp.Proofs.Evaluation.Calls
import PlotLisp.Proofs.Evaluation.Limit

namespace PlotLisp

open EvalM Evaluation

variable {env : Environment} {f : String} {callable : Callable} {limit : Nat} {args : List Expr}

/-! ## §1. Forms that are given a name and a list. -/

/-- In `env`, the form with the name `f` and an expression goes on with the value of the
expression, as `next` says. -/
def Continues (env : Environment) (form : SpecialForm) (f : String)
    (next : (Expr → EvalM Expr) → Expr → EvalM Expr) : Prop :=
  ∀ eval e, (evalForm eval form [.symbol f, e]).outcome env = (eval e >>= next eval).outcome env

theorem Denotes.apply_continues (h : Denotes env f callable) :
    Continues env .apply f fun eval v =>
      if v.isList then call eval "apply" callable v.tail
      else throw (runtime.fault (.mismatch "apply" "a list of arguments" v.typeName)) := by
  intro eval e
  show (resolve "apply" (.symbol f) >>= _ : EvalM Expr).outcome env = _
  rw [outcome_bind, h.outcome_resolve]
  rfl

theorem Denotes.map_continues (h : Denotes env f callable) :
    Continues env .map f fun eval v =>
      if v.isList then
        (v.tail.mapM fun item => call eval "map" callable [item]) >>= fun ws => pure (.list ws)
      else throw (runtime.fault (.mismatch "map" "a list" v.typeName)) := by
  intro eval e
  show (resolve "map" (.symbol f) >>= _ : EvalM Expr).outcome env = _
  rw [outcome_bind, h.outcome_resolve]
  rfl

/-- A list of arguments becomes a list of their values. -/
theorem outcome_step_list (hlist : env.find? "list" = some (.procedure .list))
    (eval : Expr → EvalM Expr) (args : List Expr) :
    (step eval (.call "list" args)).outcome env
      = (evalAll eval args >>= fun vs => pure (.list vs)).outcome env := by
  have hcall := (Denotes.procedure hlist).outcome_evalCall eval args
  unfold Expr.call at hcall ⊢
  rw [step_list, hcall]
  rfl

/-- The form evaluates the arguments two levels down, and goes on one level down. -/
theorem Continues.outcome_onList {form : SpecialForm}
    {next : (Expr → EvalM Expr) → Expr → EvalM Expr} (h : Continues env form f next)
    (hlist : env.find? "list" = some (.procedure .list)) (limit depth : Nat)
    (args : List Expr) :
    (evalWithin limit (depth + 2) (.onList form.name f args)).outcome env
      = (evalAll (evalWithin limit depth) args
          >>= fun vs => next (evalWithin limit (depth + 1)) (.list vs)).outcome env := by
  have hform : evalWithin limit (depth + 2) (.onList form.name f args)
      = evalForm (evalWithin limit (depth + 1)) form [.symbol f, .call "list" args] :=
    step_form _ form (by simp)
  have hargs : (evalWithin limit (depth + 1) (.call "list" args)).outcome env
      = (evalAll (evalWithin limit depth) args >>= fun vs => pure (.list vs)).outcome env :=
    outcome_step_list hlist (evalWithin limit depth) args
  rw [hform, h, outcome_bind, hargs, outcome_bind, outcome_bind]
  rcases (evalAll (evalWithin limit depth) args).outcome env with ⟨r, after⟩
  cases r <;> rfl

/-- The form is cut off under a limit of less than two. -/
theorem Continues.exists_depth {form : SpecialForm}
    {next : (Expr → EvalM Expr) → Expr → EvalM Expr} (h : Continues env form f next)
    (hcut : ¬ CutOff (evaluate limit (.onList form.name f args) env).1) :
    ∃ depth, limit = depth + 2 := by
  match limit with
  | 0 => exact absurd ⟨_, 0, rfl, rfl⟩ hcut
  | 1 =>
    have hform : evalWithin 1 1 (.onList form.name f args)
        = evalForm (evalWithin 1 0) form [.symbol f, .call "list" args] :=
      step_form _ form (by simp)
    refine absurd ⟨runtime.fault (.recursionLimit 1), 1, ?_, rfl⟩ hcut
    unfold evaluate
    rw [hform, h]
    rfl
  | depth + 2 => exact ⟨depth, rfl⟩

/-- With more evaluations left for the arguments, what follows them ends the same. -/
theorem outcome_evalAll_bind_of_le {depth depth' : Nat} (hle : depth ≤ depth')
    (next : List Expr → EvalM Expr)
    (hcut : ¬ CutOff ((evalAll (evalWithin limit depth) args >>= next).outcome env).1) :
    (evalAll (evalWithin limit depth') args >>= next).outcome env
      = (evalAll (evalWithin limit depth) args >>= next).outcome env := by
  have hargs := Simulation.evalAll fun c (_ : c ∈ args) =>
    evalWithin_simulates limit limit hle c trivial
  exact outcome_of_tracks (hargs.bind fun vs _ => tracks_self (next vs)) hcut

/-! ## §2. Applying. -/

/-- A direct call evaluates the arguments and the body of a lambda one level down. -/
theorem outcome_call (hform : SpecialForm.ofName? f = none) (hf : Denotes env f callable)
    (limit depth : Nat) (hargs : args ≠ []) :
    (evalWithin limit (depth + 1) (.call f args)).outcome env
      = (evalAll (evalWithin limit depth) args
          >>= call (evalWithin limit depth) f callable).outcome env := by
  show (step (evalWithin limit depth) (.call f args)).outcome env = _
  rw [step_call _ hform hargs, hf.outcome_evalCall]

/-- **`apply` agrees with a direct call.**  Let `f` name a procedure or a lambda.  Unless it is
cut off, `(apply f (list a …))` ends as `(f a …)` does, in outcome and environment, even if
the arguments define names anew.  Only the fault of a lambda that rejects its arguments
tells them apart: it names the place of the call. -/
theorem apply_agrees_with_direct_call (hlist : env.find? "list" = some (.procedure .list))
    (hform : SpecialForm.ofName? f = none) (hf : Denotes env f callable) (hargs : args ≠ [])
    (hcut : ¬ CutOff (evaluate limit (.onList "apply" f args) env).1) :
    UpToPlace callable args.length f "apply" (evaluate limit (.call f args) env)
      (evaluate limit (.onList "apply" f args) env) := by
  obtain ⟨depth, rfl⟩ := hf.apply_continues.exists_depth hcut
  have happly : (evalWithin (depth + 2) (depth + 2) (.onList "apply" f args)).outcome env
      = (evalAll (evalWithin (depth + 2) depth) args
          >>= call (evalWithin (depth + 2) (depth + 1)) "apply" callable).outcome env :=
    hf.apply_continues.outcome_onList hlist (depth + 2) depth args
  have hcall := outcome_call hform hf (depth + 2) (depth + 1) hargs
  unfold evaluate at hcut ⊢
  rw [happly] at hcut
  -- the arguments may as well be evaluated where the direct call evaluates them
  rw [happly, ← outcome_evalAll_bind_of_le (Nat.le_succ depth) _ hcut, hcall, outcome_bind,
    outcome_bind]
  cases hr : (evalAll (evalWithin (depth + 2) (depth + 1)) args).outcome env with
  | mk r after =>
    cases r with
    | error fault => exact .same
    | ok vs =>
      have hlength : vs.length = args.length := length_of_outcome_mapM hr
      rw [← hlength]
      exact outcome_call_place _ f "apply" callable vs after

/-- The argument defines anew the very name that is called. -/
theorem apply_agrees_with_direct_call_redefining :
    UpToPlace (.lambda (.lambda ["y"] (.call "list" [.symbol "x", .symbol "y"]))) 1 "f" "apply"
      (evaluate 4 (.call "f" [.call "define" [.symbol "f", .string "b"]]) .callerScope)
      (evaluate 4 (.onList "apply" "f" [.call "define" [.symbol "f", .string "b"]])
        .callerScope) := by
  have hargs : [Expr.call "define" [.symbol "f", .string "b"]] ≠ [] := List.cons_ne_nil _ _
  have hok : (evaluate 4 (.onList "apply" "f" [.call "define" [.symbol "f", .string "b"]])
      .callerScope).1 = .ok (.list [.string "a", .string "b"]) := by
    decide +kernel
  have hcut : ¬ CutOff (evaluate 4
      (.onList "apply" "f" [.call "define" [.symbol "f", .string "b"]]) .callerScope).1 := by
    rw [hok]
    exact not_cutOff_ok _
  exact apply_agrees_with_direct_call rfl (by decide) denotes_callerScope hargs hcut

/-! ## §3. Code that defines nothing. -/

/-- Code that defines nothing leaves the environment as it is. -/
def untouched (limit : Nat) (before : Environment) : Invariant limit where
  env E := E = before
  code _ e := ∀ name, ¬ Defines name e
  value _ := True
  fault _ := True
  values := trivialValues
  ordinary _ _ := trivial
  cutOff _ _ := trivial
  part _ _ hcode hhead c hc name hname := hcode name (.part hhead hc hname)
  literal _ _ _ _ _ := trivial
  binding _ _ _ _ _ := trivial
  lambda _ _ _ _ _ _ _ _ _ := trivial
  define _ _ _ _ name hcode hhead htail htarget :=
    absurd (.here hhead htail htarget) (hcode name)
  applied _ eval place lambda args _ _ _ _ := by
    intro env henv
    rw [applyLambda_env]
    refine ⟨henv, ?_⟩
    cases ((applyLambda eval place lambda args).outcome env).1 <;> trivial

theorem evalWithin_env_of_not_defines {e : Expr} (h : ∀ name, ¬ Defines name e)
    (limit depth : Nat) (env : Environment) :
    ((evalWithin limit depth e).outcome env).2 = env :=
  ((untouched limit env).evalWithin depth e h env rfl).1

/-- A call whose name is no form defines nothing, if its arguments do not. -/
theorem not_defines_call (hf : f ≠ "define") (hargs : ∀ a ∈ args, ∀ name, ¬ Defines name a)
    (name : String) : ¬ Defines name (.call f args) := by
  intro h
  cases h with
  | here hhead _ _ => exact hf (Option.some.inj hhead)
  | part _ hc hname => exact hargs _ hc name hname

/-- Nor do calls with one argument each. -/
theorem not_defines_calls (hf : f ≠ "define")
    (hargs : ∀ a ∈ args, ∀ name, ¬ Defines name a) :
    ∀ e ∈ args.map fun a => Expr.call f [a], ∀ name, ¬ Defines name e := by
  intro e he
  obtain ⟨a, ha, rfl⟩ := List.mem_map.mp he
  exact not_defines_call hf (List.forall_mem_singleton.mpr (hargs a ha))

/-! ## §4. Mapping. -/

/-- Where nothing changes the environment, a list of results comes of the results of all
elements. -/
theorem outcome_mapM_list_eq_ok_iff {α : Type} {g : α → EvalM Expr} {as : List α} {v : Expr}
    (h : ∀ a ∈ as, ((g a).outcome env).2 = env) :
    (as.mapM g >>= fun ws => pure (.list ws)).outcome env = (.ok v, env)
      ↔ ∃ ws, v = .list ws ∧ List.Forall₂ (fun a w => (g a).outcome env = (.ok w, env)) as ws := by
  rw [outcome_bind_eq_ok_iff]
  constructor
  · rintro ⟨ws, between, hws, hpure⟩
    cases hpure
    exact ⟨ws, rfl, (outcome_mapM_eq_ok_iff h).mp hws⟩
  · rintro ⟨ws, rfl, hws⟩
    exact ⟨ws, env, (outcome_mapM_eq_ok_iff h).mpr hws, rfl⟩

/-- A call with one argument succeeds if the argument does and the call with its value
does, wherever it is made. -/
theorem outcome_call_one_eq_ok_iff (hform : SpecialForm.ofName? f = none)
    (hf : Denotes env f callable) (limit depth : Nat) {a w : Expr}
    (ha : ((evalWithin limit depth a).outcome env).2 = env) (place : String) :
    (evalWithin limit (depth + 1) (.call f [a])).outcome env = (.ok w, env)
      ↔ ∃ v, (evalWithin limit depth a).outcome env = (.ok v, env)
          ∧ (call (evalWithin limit depth) place callable [v]).outcome env = (.ok w, env) := by
  have hsingle : evalAll (evalWithin limit depth) [a]
      = evalWithin limit depth a >>= fun v => pure [v] := by
    simp [evalAll]
  rw [outcome_call hform hf limit depth (by simp), hsingle, bind_assoc, outcome_bind_eq_ok_iff]
  simp only [pure_bind]
  constructor
  · rintro ⟨v, between, hv, hw⟩
    obtain rfl : between = env := by rw [← ha, hv]
    exact ⟨v, hv, outcome_call_of_ok hw place⟩
  · rintro ⟨v, hv, hw⟩
    exact ⟨v, env, hv, outcome_call_of_ok hw f⟩

/-- Unless it is cut off, `map` succeeds if the calls with the arguments do, each on its
own. -/
theorem map_eq_ok_iff (hlist : env.find? "list" = some (.procedure .list))
    (hform : SpecialForm.ofName? f = none) (hf : Denotes env f callable)
    (hargs : ∀ a ∈ args, ∀ name, ¬ Defines name a)
    (hcut : ¬ CutOff (evaluate limit (.onList "map" f args) env).1) (v : Expr) :
    evaluate limit (.onList "map" f args) env = (.ok v, env)
      ↔ ∃ ws, v = .list ws
          ∧ List.Forall₂ (fun a w => evaluate limit (.call f [a]) env = (.ok w, env)) args ws := by
  obtain ⟨depth, rfl⟩ := hf.map_continues.exists_depth hcut
  have hmap : (evalWithin (depth + 2) (depth + 2) (.onList "map" f args)).outcome env
      = (evalAll (evalWithin (depth + 2) depth) args >>= fun vs =>
          (vs.mapM fun v => call (evalWithin (depth + 2) (depth + 1)) "map" callable [v])
            >>= fun ws => pure (.list ws)).outcome env :=
    hf.map_continues.outcome_onList hlist (depth + 2) depth args
  unfold evaluate at hcut ⊢
  rw [hmap] at hcut
  -- with the arguments one level down as well, the calls are those of `(f a)`
  rw [hmap, ← outcome_evalAll_bind_of_le (Nat.le_succ depth) _ hcut, outcome_bind_eq_ok_iff]
  have hsame : ∀ a ∈ args, ((evalWithin (depth + 2) (depth + 1) a).outcome env).2 = env :=
    fun a ha => evalWithin_env_of_not_defines (hargs a ha) _ _ env
  have hcalls (vs : List Expr) : ∀ x ∈ vs,
      ((call (evalWithin (depth + 2) (depth + 1)) "map" callable [x]).outcome env).2 = env :=
    fun x _ => call_env _ "map" callable [x] env
  have hone := forall₂_congr_of_mem fun a ha w =>
    outcome_call_one_eq_ok_iff (w := w) hform hf (depth + 2) (depth + 1) (hsame a ha) "map"
  constructor
  · rintro ⟨vs, between, hvs, hlast⟩
    obtain rfl : between = env := by
      rw [← outcome_mapM_env hsame]
      exact (congrArg Prod.snd hvs).symm
    obtain ⟨ws, hv, hws⟩ := (outcome_mapM_list_eq_ok_iff (hcalls vs)).mp hlast
    have hpasses := exists_forall₂_iff.mp ⟨vs, (outcome_mapM_eq_ok_iff hsame).mp hvs, hws⟩
    exact ⟨ws, hv, (hone ws).mpr hpasses⟩
  · rintro ⟨ws, hv, hws⟩
    obtain ⟨vs, hvs, hws⟩ := exists_forall₂_iff.mpr ((hone ws).mp hws)
    exact ⟨vs, env, (outcome_mapM_eq_ok_iff hsame).mpr hvs,
      (outcome_mapM_list_eq_ok_iff (hcalls vs)).mpr ⟨ws, hv, hws⟩⟩

/-- So does the list of the calls. -/
theorem listOfCalls_eq_ok_iff (hlist : env.find? "list" = some (.procedure .list))
    (hf : f ≠ "define") (hargs : ∀ a ∈ args, ∀ name, ¬ Defines name a)
    (hcut : ¬ CutOff (evaluate limit (.listOfCalls f args) env).1) (v : Expr) :
    evaluate limit (.listOfCalls f args) env = (.ok v, env)
      ↔ ∃ ws, v = .list ws
          ∧ List.Forall₂ (fun a w => evaluate limit (.call f [a]) env = (.ok w, env)) args ws := by
  -- under a limit of one more, the calls themselves have all of `limit`
  have hraised := outcome_of_tracks (evalWithin_simulates limit limit (Nat.le_succ limit)
    (.listOfCalls f args) trivial) hcut
  have hstep : (evalWithin limit (limit + 1) (.listOfCalls f args)).outcome env
      = (evalAll (evalWithin limit limit) (args.map fun a => .call f [a])
          >>= fun ws => pure (.list ws)).outcome env :=
    outcome_step_list hlist (evalWithin limit limit) (args.map fun a => .call f [a])
  have hsame : ∀ e ∈ args.map fun a => Expr.call f [a],
      ((evalWithin limit limit e).outcome env).2 = env :=
    fun e he => evalWithin_env_of_not_defines (not_defines_calls hf hargs e he) _ _ env
  have hall := outcome_mapM_list_eq_ok_iff (v := v) hsame
  simp only [List.forall₂_map_left_iff] at hall
  unfold evaluate
  rw [← hraised, hstep]
  exact hall

/-- An outcome is known with the environment it comes with. -/
theorem fst_eq_ok_iff {r : Except Fault Expr × Environment} (h : r.2 = env) {v : Expr} :
    r.1 = .ok v ↔ r = (.ok v, env) := by
  obtain ⟨r, after⟩ := r
  have h : after = env := h
  subst h
  simp

/-- **`map` agrees with calling on each element.**  Let `f` name a procedure or a lambda, and
let the arguments define nothing.  Then `(map f (list a …))` and `(list (f a) …)` leave
the environment as it is, however they end.  Unless one of them is cut off, they succeed
together, with the list of what the calls `(f a)` give, in order. -/
theorem map_agrees_with_calls (hlist : env.find? "list" = some (.procedure .list))
    (hform : SpecialForm.ofName? f = none) (hf : Denotes env f callable)
    (hargs : ∀ a ∈ args, ∀ name, ¬ Defines name a) (limit : Nat) :
    (evaluate limit (.onList "map" f args) env).2 = env
    ∧ (evaluate limit (.listOfCalls f args) env).2 = env
    ∧ (¬ CutOff (evaluate limit (.onList "map" f args) env).1 →
        ¬ CutOff (evaluate limit (.listOfCalls f args) env).1 →
        ∀ v, ((evaluate limit (.onList "map" f args) env).1 = .ok v
              ↔ (evaluate limit (.listOfCalls f args) env).1 = .ok v)
          ∧ ((evaluate limit (.onList "map" f args) env).1 = .ok v
              ↔ ∃ ws, v = .list ws ∧ List.Forall₂
                  (fun a w => evaluate limit (.call f [a]) env = (.ok w, env)) args ws)) := by
  have hdefine : f ≠ "define" := by
    rintro rfl
    cases hform
  have hmap : (evaluate limit (.onList "map" f args) env).2 = env := by
    refine evalWithin_env_of_not_defines (not_defines_call (by decide) ?_) limit limit env
    -- the name of what is called is a call without arguments
    have hname := not_defines_call hdefine (List.forall_mem_nil _)
    exact List.forall_mem_cons.mpr ⟨hname, List.forall_mem_singleton.mpr
      (not_defines_call (by decide) hargs)⟩
  have hcalls : (evaluate limit (.listOfCalls f args) env).2 = env :=
    evalWithin_env_of_not_defines
      (not_defines_call (by decide) (not_defines_calls hdefine hargs)) limit limit env
  refine ⟨hmap, hcalls, fun hcut hcut' v => ?_⟩
  have hmapped := map_eq_ok_iff hlist hform hf hargs hcut v
  have hlisted := listOfCalls_eq_ok_iff hlist hdefine hargs hcut' v
  rw [fst_eq_ok_iff hmap, fst_eq_ok_iff hcalls]
  exact ⟨hmapped.trans hlisted.symm, hmapped⟩

/-- One of the arguments is a call itself. -/
theorem map_agrees_with_calls_nested :
    (evaluate 5 (.onList "map" "f" [.string "b", .call "f" [.string "c"]]) .callerScope).2
        = .callerScope
    ∧ (evaluate 5 (.listOfCalls "f" [.string "b", .call "f" [.string "c"]]) .callerScope).2
        = .callerScope
    ∧ ∀ v, ((evaluate 5 (.onList "map" "f" [.string "b", .call "f" [.string "c"]])
            .callerScope).1 = .ok v
          ↔ (evaluate 5 (.listOfCalls "f" [.string "b", .call "f" [.string "c"]])
            .callerScope).1 = .ok v)
        ∧ ((evaluate 5 (.onList "map" "f" [.string "b", .call "f" [.string "c"]])
            .callerScope).1 = .ok v
          ↔ ∃ ws, v = .list ws ∧ List.Forall₂
              (fun a w => evaluate 5 (.call "f" [a]) .callerScope = (.ok w, .callerScope))
              [.string "b", .call "f" [.string "c"]] ws) := by
  have hstring (s : String) (name : String) : ¬ Defines name (.string s) := by
    intro h
    cases h with
    | here hhead _ _ => cases hhead
    | part _ hc _ => exact absurd hc List.not_mem_nil
  have hargs : ∀ a ∈ [Expr.string "b", .call "f" [.string "c"]], ∀ name, ¬ Defines name a := by
    have hcall : ∀ name, ¬ Defines name (.call "f" [.string "c"]) :=
      not_defines_call (by decide) (List.forall_mem_singleton.mpr (hstring "c"))
    exact List.forall_mem_cons.mpr ⟨hstring "b", List.forall_mem_singleton.mpr hcall⟩
  have hmap : (evaluate 5 (.onList "map" "f" [.string "b", .call "f" [.string "c"]])
      .callerScope).1 = .ok (.list [.list [.string "a", .string "b"],
        .list [.string "a", .list [.string "a", .string "c"]]]) := by
    decide +kernel
  have hcalls : (evaluate 5 (.listOfCalls "f" [.string "b", .call "f" [.string "c"]])
      .callerScope).1 = .ok (.list [.list [.string "a", .string "b"],
        .list [.string "a", .list [.string "a", .string "c"]]]) := by
    decide +kernel
  obtain ⟨hsame, hsame', hagree⟩ :=
    map_agrees_with_calls rfl (by decide) denotes_callerScope hargs 5
  refine ⟨hsame, hsame', hagree ?_ ?_⟩
  · rw [hmap]
    exact not_cutOff_ok _
  · rw [hcalls]
    exact not_cutOff_ok _

end PlotLisp
