/-
  PlotLisp.Proofs.Procedure.Arithmetic
  ──────────────────────────────────────
  **WHAT ARITHMETIC MAKES OF ITS ARGUMENTS.**

  The arithmetic procedures look at their arguments in one way: first the count, then
  the kinds from left to right, then the numbers.

    • `Operands.Views` — numbers that are all real, numbers of which one is complex, or a
      first argument that is no number;
    • `Arithmetic.Takes` — the counts of arguments that a procedure is defined for;
    • `onReals_cases`, `exists_onComplexes` — on so many operands it has a result;
    • `Arithmetic.Classified` — which end every list of arguments leads to.
-/
import Mathlib.Data.List.Forall2
import PlotLisp.Procedure.Run

namespace PlotLisp

/-! ## §1. Numbers among the arguments. -/

/-- Is it a real or a complex leaf? -/
def Expr.isNumeric (e : Expr) : Bool := e.number?.isSome || e.complex?.isSome

theorem exists_asPromoted {e : Expr} (h : e.isNumeric = true) (place : String) :
    ∃ z, asPromoted place e = .ok z := by
  unfold Expr.isNumeric at h
  unfold asPromoted promote? Expr.expect
  cases hcomplex : e.complex? with
  | some z => exact ⟨z, rfl⟩
  | none =>
    cases hnumber : e.number? with
    | some x => exact ⟨ComplexFloat.ofReal x, rfl⟩
    | none => simp [hcomplex, hnumber] at h

theorem asPromoted_eq_error {e : Expr} (h : e.isNumeric = false) (place : String) :
    asPromoted place e
      = .error (runtime.fault (.mismatch place "a number or complex" e.typeName)) := by
  unfold Expr.isNumeric at h
  obtain ⟨hnumber, hcomplex⟩ := Bool.or_eq_false_iff.mp h
  rw [Option.isSome_eq_false_iff, Option.isNone_iff_eq_none] at hnumber hcomplex
  unfold asPromoted promote? Expr.expect
  rw [hcomplex, hnumber]
  rfl

/-- A leaf holds one number. -/
theorem Expr.number?_of_complex? {e : Expr} (h : e.complex?.isSome = true) :
    e.number? = Option.none := by
  unfold complex? at h
  split at h
  · rfl
  · cases h

section Passes

variable {α β : Type} {f : α → Except Fault β}

/-- A pass over a list whose elements all succeed gives one result for each. -/
theorem exists_mapM_eq_ok {as : List α} (h : ∀ a ∈ as, ∃ b, f a = .ok b) :
    ∃ bs, as.mapM f = .ok bs ∧ bs.length = as.length := by
  induction as with
  | nil => exact ⟨[], rfl, rfl⟩
  | cons a rest ih =>
    obtain ⟨ha, hrest⟩ := List.forall_mem_cons.mp h
    obtain ⟨b, hb⟩ := ha
    obtain ⟨bs, hbs, hlength⟩ := ih hrest
    refine ⟨b :: bs, ?_, congrArg Nat.succ hlength⟩
    rw [List.mapM_cons, hb, hbs]
    rfl

/-- Otherwise it fails as the first element does that fails. -/
theorem mapM_eq_error_of_first {before : List α} {a : α} {fault : Fault}
    (hbefore : ∀ b ∈ before, ∃ c, f b = .ok c) (ha : f a = .error fault) (after : List α) :
    (before ++ a :: after).mapM f = .error fault := by
  induction before with
  | nil =>
    show (a :: after).mapM f = _
    rw [List.mapM_cons, ha]
    rfl
  | cons b rest ih =>
    obtain ⟨hb, hrest⟩ := List.forall_mem_cons.mp hbefore
    obtain ⟨c, hc⟩ := hb
    rw [List.cons_append, List.mapM_cons, hc, ih hrest]
    rfl

end Passes

/-- Numbers are all real, or one of them is not. -/
theorem mapM_number?_cases (args : List Expr) :
    (∃ xs, args.mapM Expr.number? = some xs
        ∧ List.Forall₂ (fun e x => Expr.number? e = some x) args xs)
      ∨ (args.mapM Expr.number? = none ∧ ∃ e ∈ args, e.number? = none) := by
  induction args with
  | nil => exact Or.inl ⟨[], rfl, .nil⟩
  | cons e rest ih =>
    rw [List.mapM_cons]
    cases he : e.number? with
    | none => exact Or.inr ⟨rfl, e, List.mem_cons_self, he⟩
    | some x =>
      rcases ih with ⟨xs, hxs, hall⟩ | ⟨hnone, e', he', hnumber⟩
      · rw [hxs]
        exact Or.inl ⟨x :: xs, rfl, .cons he hall⟩
      · rw [hnone]
        exact Or.inr ⟨rfl, e', List.mem_cons_of_mem e he', hnumber⟩

/-! ## §2. Operands. -/

/-- What the arguments are taken for, on behalf of `place`. -/
inductive Operands.Views (place : String) (args : List Expr) : Except Fault Operands → Prop where
  | real {xs : List Float} : List.Forall₂ (fun e x => Expr.number? e = some x) args xs →
      Views place args (.ok (.real xs))
  | complex {zs : List ComplexFloat} : zs.length = args.length →
      (∀ e ∈ args, e.isNumeric = true) → (∃ e ∈ args, e.complex?.isSome = true) →
      Views place args (.ok (.complex zs))
  | refused {before after : List Expr} {e : Expr} : args = before ++ e :: after →
      (∀ b ∈ before, b.isNumeric = true) → e.isNumeric = false →
      Views place args (.error (runtime.fault (.mismatch place "a number or complex" e.typeName)))

/-- The arguments are passed over twice: for real numbers, and if one is none, for numbers
of either kind. -/
theorem Operands.views_ofArguments (place : String) (args : List Expr) :
    Views place args (ofArguments place args) := by
  unfold ofArguments
  rcases mapM_number?_cases args with ⟨xs, hxs, hall⟩ | ⟨hnone, e, he, hnumber⟩
  · rw [hxs]
    exact .real hall
  · rw [hnone]
    show Views place args ((args.mapM (asPromoted place)).map .complex)
    cases hfirst : args.find? fun e => !e.isNumeric with
    | some e' =>
      obtain ⟨hnot, before, after, rfl, hbefore⟩ := List.find?_eq_some_iff_append.mp hfirst
      have hnumeric : ∀ b ∈ before, b.isNumeric = true := fun b hb => by
        simpa using hbefore b hb
      have hkind : e'.isNumeric = false := by simpa using hnot
      rw [mapM_eq_error_of_first (fun b hb => exists_asPromoted (hnumeric b hb) place)
        (asPromoted_eq_error hkind place) after]
      exact .refused rfl hnumeric hkind
    | none =>
      have hnumeric : ∀ e ∈ args, e.isNumeric = true := fun e he => by
        simpa using List.find?_eq_none.mp hfirst e he
      obtain ⟨zs, hzs, hlength⟩ :=
        exists_mapM_eq_ok fun e he => exists_asPromoted (hnumeric e he) place
      rw [hzs]
      refine .complex hlength hnumeric ⟨e, he, ?_⟩
      -- a number that is not real is complex
      have hkind := hnumeric e he
      unfold Expr.isNumeric at hkind
      rw [hnumber] at hkind
      exact hkind

/-- Real arguments are numbers, and none of them is complex. -/
theorem real_of_forall₂ {args : List Expr} {xs : List Float}
    (h : List.Forall₂ (fun e x => Expr.number? e = some x) args xs) :
    ∀ e ∈ args, e.isNumeric = true ∧ e.complex?.isSome = false := by
  induction h with
  | nil => exact fun e he => absurd he List.not_mem_nil
  | @cons e x rest xs hx _ ih =>
    have hfirst : e.isNumeric = true ∧ e.complex?.isSome = false := by
      constructor
      · unfold Expr.isNumeric
        rw [hx]
        rfl
      · cases hcomplex : e.complex?.isSome with
        | false => rfl
        | true =>
          rw [Expr.number?_of_complex? hcomplex] at hx
          cases hx
    exact List.forall_mem_cons.mpr ⟨hfirst, ih⟩

/-! ## §3. Results. -/

namespace Arithmetic

variable {operation : Arithmetic}

/-- The counts of arguments that the procedure is defined for. -/
def Takes : Arithmetic → Nat → Prop
  | .add, n => 1 ≤ n
  | .multiply, _ => True
  | .subtract, n | .divide, n => n = 1 ∨ n = 2
  | .power, n => n = 2
  | .root, n | .logarithm, n | .sine, n | .cosine, n | .tangent, n => n = 1

theorem admits_arity_iff (n : Nat) : operation.arity.admits n = true ↔ operation.Takes n := by
  cases operation
  all_goals
    unfold arity Takes ArgCount.admits
    simp
  all_goals omega

/-- Apart from the root, a procedure gives a real number for real operands. -/
theorem exists_onReals {xs : List Float} (hroot : operation ≠ .root)
    (h : operation.Takes xs.length) : ∃ x, operation.onReals xs = some (.number x) := by
  cases operation with
  | add | multiply => exact ⟨_, rfl⟩
  | subtract | divide =>
    rcases h with h | h
    · obtain ⟨x, rfl⟩ := List.length_eq_one_iff.mp h
      exact ⟨_, rfl⟩
    · obtain ⟨x, y, rfl⟩ := List.length_eq_two.mp h
      exact ⟨_, rfl⟩
  | power =>
    obtain ⟨x, y, rfl⟩ := List.length_eq_two.mp h
    exact ⟨_, rfl⟩
  | root => exact absurd rfl hroot
  | logarithm | sine | cosine | tangent =>
    obtain ⟨x, rfl⟩ := List.length_eq_one_iff.mp h
    exact ⟨_, rfl⟩

/-- For complex operands, a procedure gives a complex number. -/
theorem exists_onComplexes {zs : List ComplexFloat} (h : operation.Takes zs.length) :
    ∃ z, operation.onComplexes zs = some z := by
  cases operation with
  | add | multiply => exact ⟨_, rfl⟩
  | subtract | divide =>
    rcases h with h | h
    · obtain ⟨z, rfl⟩ := List.length_eq_one_iff.mp h
      exact ⟨_, rfl⟩
    · obtain ⟨z, w, rfl⟩ := List.length_eq_two.mp h
      exact ⟨_, rfl⟩
  | power =>
    obtain ⟨z, w, rfl⟩ := List.length_eq_two.mp h
    exact ⟨_, rfl⟩
  | root | logarithm | sine | cosine | tangent =>
    obtain ⟨z, rfl⟩ := List.length_eq_one_iff.mp h
    exact ⟨_, rfl⟩

/-- The result is complex: an argument is, or the root of a real number below zero is asked
for. -/
def LeavesReals (operation : Arithmetic) (args : List Expr) : Prop :=
  (∃ e ∈ args, e.complex?.isSome = true)
    ∨ (operation = .root ∧ ∃ e x, args = [e] ∧ e.number? = some x ∧ x < 0.0)

/-- Real arguments have a real result unless a root leaves the real numbers. -/
theorem onReals_cases {args : List Expr} {xs : List Float} (h : operation.Takes args.length)
    (hall : List.Forall₂ (fun e x => Expr.number? e = some x) args xs) :
    (operation.LeavesReals args ∧ ∃ z, operation.onReals xs = some (.complex z))
      ∨ (¬ operation.LeavesReals args ∧ ∃ x, operation.onReals xs = some (.number x)) := by
  have hnone : ¬ ∃ e ∈ args, e.complex?.isSome = true := by
    rintro ⟨e, he, hcomplex⟩
    rw [(real_of_forall₂ hall e he).2] at hcomplex
    cases hcomplex
  -- a root is the only operation whose result may be of another kind than its arguments
  by_cases hroot : operation = .root
  · subst hroot
    obtain ⟨e, rfl⟩ := List.length_eq_one_iff.mp h
    obtain ⟨x, _, hx, hrest, rfl⟩ := List.forall₂_cons_left_iff.mp hall
    cases hrest
    show (_ ∧ ∃ z, some (rootOfReal x) = some (.complex z))
      ∨ (_ ∧ ∃ y, some (rootOfReal x) = some (.number y))
    unfold rootOfReal
    by_cases hnegative : x < 0.0
    · rw [if_pos hnegative]
      exact Or.inl ⟨Or.inr ⟨rfl, e, x, rfl, hx, hnegative⟩, _, rfl⟩
    · rw [if_neg hnegative]
      refine Or.inr ⟨?_, _, rfl⟩
      rintro (hcomplex | ⟨-, e', x', he', hx', hlt⟩)
      · exact hnone hcomplex
      · cases he'
        rw [hx] at hx'
        cases hx'
        exact hnegative hlt
  · have hlength : operation.Takes xs.length := hall.length_eq ▸ h
    refine Or.inr ⟨?_, exists_onReals hroot hlength⟩
    rintro (hcomplex | ⟨hroot', -⟩)
    · exact hnone hcomplex
    · exact hroot hroot'

/-- Operands of a count that the procedure takes are never asked for one more. -/
theorem isSome_onOperands {args : List Expr} {operands : Operands} {place : String}
    (h : operation.Takes args.length) (hoperands : Operands.ofArguments place args = .ok operands) :
    (operation.onOperands operands).isSome = true := by
  have hviews := Operands.views_ofArguments place args
  rw [hoperands] at hviews
  cases hviews with
  | real hall =>
    rcases onReals_cases h hall with ⟨-, z, hz⟩ | ⟨-, x, hx⟩
    · exact Option.isSome_of_mem hz
    · exact Option.isSome_of_mem hx
  | complex hlength _ _ =>
    obtain ⟨z, hz⟩ := exists_onComplexes (hlength ▸ h)
    exact Option.isSome_of_mem (congrArg (Option.map Atom.complex) hz)

/-! ## §4. Calls. -/

/-- How a call ends. -/
inductive Verdict (operation : Arithmetic) (args : List Expr) : Except Fault Expr → Prop where
  | count : ¬ operation.Takes args.length →
      Verdict operation args
        (.error (runtime.fault (.argument operation.name operation.arity args.length)))
  | kind {before after : List Expr} {e : Expr} : operation.Takes args.length →
      args = before ++ e :: after → (∀ b ∈ before, b.isNumeric = true) → e.isNumeric = false →
      Verdict operation args
        (.error (runtime.fault (.mismatch operation.name "a number or complex" e.typeName)))
  | complex {z : ComplexFloat} : operation.Takes args.length →
      (∀ e ∈ args, e.isNumeric = true) → operation.LeavesReals args →
      Verdict operation args (.ok (.complex z))
  | real {x : Float} : operation.Takes args.length →
      (∀ e ∈ args, e.isNumeric = true) → ¬ operation.LeavesReals args →
      Verdict operation args (.ok (.number x))

theorem run_of_onOperands {args : List Expr} {operands : Operands} {a : Atom}
    (h : operation.Takes args.length)
    (hoperands : Operands.ofArguments operation.name args = .ok operands)
    (ha : operation.onOperands operands = some a) : operation.run args = .ok (.atom a) := by
  unfold run requireCount
  rw [if_pos ((admits_arity_iff _).mpr h), hoperands]
  simp only [bind, Except.bind, ha]
  rfl

theorem run_of_refused {args : List Expr} {fault : Fault} (h : operation.Takes args.length)
    (hfault : Operands.ofArguments operation.name args = .error fault) :
    operation.run args = .error fault := by
  unfold run requireCount
  rw [if_pos ((admits_arity_iff _).mpr h), hfault]
  rfl

theorem run_of_not_takes {args : List Expr} (h : ¬ operation.Takes args.length) :
    operation.run args
      = .error (runtime.fault (.argument operation.name operation.arity args.length)) := by
  unfold run requireCount
  rw [if_neg fun hadmits => h ((admits_arity_iff _).mp hadmits)]
  rfl

theorem verdict_run (operation : Arithmetic) (args : List Expr) :
    Verdict operation args (operation.run args) := by
  by_cases h : operation.Takes args.length
  · have hviews := Operands.views_ofArguments operation.name args
    cases hr : Operands.ofArguments operation.name args with
    | error fault =>
      rw [hr] at hviews
      rw [run_of_refused h hr]
      cases hviews with
      | refused hargs hbefore hkind => exact .kind h hargs hbefore hkind
    | ok operands =>
      rw [hr] at hviews
      cases hviews with
      | real hall =>
        have hnumeric : ∀ e ∈ args, e.isNumeric = true := fun e he => (real_of_forall₂ hall e he).1
        rcases onReals_cases h hall with ⟨hleaves, z, hz⟩ | ⟨hstays, x, hx⟩
        · rw [run_of_onOperands h hr hz]
          exact .complex h hnumeric hleaves
        · rw [run_of_onOperands h hr hx]
          exact .real h hnumeric hstays
      | complex hlength hnumeric hcomplex =>
        obtain ⟨z, hz⟩ := exists_onComplexes (hlength ▸ h)
        rw [run_of_onOperands h hr (congrArg (Option.map Atom.complex) hz)]
        exact .complex h hnumeric (Or.inl hcomplex)
  · rw [run_of_not_takes h]
    exact .count h

/-- What a call comes to, for each kind of end. -/
structure Classified (operation : Arithmetic) (args : List Expr) (r : Except Fault Expr) :
    Prop where
  /-- The count alone decides whether it is refused. -/
  argument : (∃ place expected actual, r = .error (runtime.fault (.argument place expected actual)))
    ↔ ¬ operation.Takes args.length
  /-- Otherwise every argument has to be a number. -/
  mismatch : (∃ place expected actual, r = .error (runtime.fault (.mismatch place expected actual)))
    ↔ operation.Takes args.length ∧ ∃ e ∈ args, e.isNumeric = false
  /-- Of those that are none, the fault names the first. -/
  leftmost : operation.Takes args.length → ∀ before e after, args = before ++ e :: after →
    (∀ b ∈ before, b.isNumeric = true) → e.isNumeric = false →
    r = .error (runtime.fault (.mismatch operation.name "a number or complex" e.typeName))
  complex : (∃ z, r = .ok (.complex z))
    ↔ operation.Takes args.length ∧ (∀ e ∈ args, e.isNumeric = true)
      ∧ operation.LeavesReals args
  real : (∃ x, r = .ok (.number x))
    ↔ operation.Takes args.length ∧ (∀ e ∈ args, e.isNumeric = true)
      ∧ ¬ operation.LeavesReals args
  /-- There are no other faults. -/
  fault : ∀ f, r = .error f →
    (∃ place expected actual, f = runtime.fault (.argument place expected actual))
    ∨ ∃ place expected actual, f = runtime.fault (.mismatch place expected actual)

/-- A list has one first element that is no number. -/
theorem first_unique {args before before' after after' : List Expr} {e e' : Expr}
    (h : args = before ++ e :: after) (hbefore : ∀ b ∈ before, b.isNumeric = true)
    (he : e.isNumeric = false) (h' : args = before' ++ e' :: after')
    (hbefore' : ∀ b ∈ before', b.isNumeric = true) (he' : e'.isNumeric = false) : e = e' := by
  have hfirst : args.find? (fun e => !e.isNumeric) = some e :=
    List.find?_eq_some_iff_append.mpr
      ⟨by simp [he], before, after, h, fun b hb => by simp [hbefore b hb]⟩
  have hfirst' : args.find? (fun e => !e.isNumeric) = some e' :=
    List.find?_eq_some_iff_append.mpr
      ⟨by simp [he'], before', after', h', fun b hb => by simp [hbefore' b hb]⟩
  exact Option.some.inj (hfirst.symm.trans hfirst')

/-- The conditions of the verdicts exclude each other. -/
theorem Verdict.classified {args : List Expr} {r : Except Fault Expr}
    (h : Verdict operation args r) : operation.Classified args r := by
  cases h with
  | count hcount =>
    refine ⟨⟨fun _ => hcount, fun _ => ⟨_, _, _, rfl⟩⟩, ?_, fun htakes => absurd htakes hcount,
      ?_, ?_, ?_⟩
    · exact ⟨nofun, fun hkind => absurd hkind.1 hcount⟩
    · exact ⟨nofun, fun hcomplex => absurd hcomplex.1 hcount⟩
    · exact ⟨nofun, fun hreal => absurd hreal.1 hcount⟩
    · rintro f ⟨⟩
      exact Or.inl ⟨_, _, _, rfl⟩
  | @kind before after e htakes hargs hbefore hkind =>
    -- the blamed argument is among them, and no other one is the first
    have hmem : e ∈ args := by
      rw [hargs]
      simp
    have hnumeric : ¬ ∀ e ∈ args, e.isNumeric = true := by
      intro hall
      rw [hall e hmem] at hkind
      cases hkind
    refine ⟨⟨nofun, fun hcount => absurd htakes hcount⟩,
      ⟨fun _ => ⟨htakes, e, hmem, hkind⟩, fun _ => ⟨_, _, _, rfl⟩⟩, ?_, ?_, ?_, ?_⟩
    · intro _ before' e' after' hargs' hbefore' hkind'
      rw [first_unique hargs hbefore hkind hargs' hbefore' hkind']
    · exact ⟨nofun, fun hcomplex => absurd hcomplex.2.1 hnumeric⟩
    · exact ⟨nofun, fun hreal => absurd hreal.2.1 hnumeric⟩
    · rintro f ⟨⟩
      exact Or.inr ⟨_, _, _, rfl⟩
  | complex htakes hnumeric hleaves =>
    have hmixed : ∀ e ∈ args, e.isNumeric ≠ false := fun e he => by simp [hnumeric e he]
    refine ⟨⟨nofun, fun hcount => absurd htakes hcount⟩, ?_, ?_, ?_, ?_, nofun⟩
    · exact ⟨nofun, fun ⟨_, e, he, hkind⟩ => absurd hkind (hmixed e he)⟩
    · intro _ before e after hargs _ hkind
      exact absurd hkind (hmixed e (by rw [hargs]; simp))
    · exact ⟨fun _ => ⟨htakes, hnumeric, hleaves⟩, fun _ => ⟨_, rfl⟩⟩
    · exact ⟨nofun, fun hreal => absurd hleaves hreal.2.2⟩
  | real htakes hnumeric hstays =>
    have hmixed : ∀ e ∈ args, e.isNumeric ≠ false := fun e he => by simp [hnumeric e he]
    refine ⟨⟨nofun, fun hcount => absurd htakes hcount⟩, ?_, ?_, ?_, ?_, nofun⟩
    · exact ⟨nofun, fun ⟨_, e, he, hkind⟩ => absurd hkind (hmixed e he)⟩
    · intro _ before e after hargs _ hkind
      exact absurd hkind (hmixed e (by rw [hargs]; simp))
    · exact ⟨nofun, fun hcomplex => absurd hcomplex.2.2 hstays⟩
    · exact ⟨fun _ => ⟨htakes, hnumeric, hstays⟩, fun _ => ⟨_, rfl⟩⟩

end Arithmetic

/-- **Arithmetic classifies every list of arguments.**  The count is checked first, then the
kinds from left to right; numbers have a result, which is complex if one of them is or
the root of a real one below zero is asked for.  There is no other end, and no operand is
asked for that is not there. -/
theorem arithmetic_classifies_arguments (operation : Arithmetic) (args : List Expr) :
    operation.Classified args (Procedure.run (.arithmetic operation) args)
    ∧ ∀ operands, operation.Takes args.length →
        Operands.ofArguments operation.name args = .ok operands →
        (operation.onOperands operands).isSome = true := by
  constructor
  · exact (Arithmetic.verdict_run operation args).classified
  · intro operands htakes hoperands
    exact Arithmetic.isSome_onOperands htakes hoperands

/-- One complex argument is enough, and one that is no number is too many. -/
theorem arithmetic_classifies_arguments_mixed :
    (∃ z, Procedure.run (.arithmetic .subtract) [.number 1.0, .complex .unit] = .ok (.complex z))
    ∧ Procedure.run (.arithmetic .add) [.number 1.0, .string "a", .list []]
        = .error (runtime.fault (.mismatch "+" "a number or complex" "string")) := by
  have hdifference := (arithmetic_classifies_arguments .subtract
    [.number 1.0, .complex .unit]).1
  have hsum := (arithmetic_classifies_arguments .add [.number 1.0, .string "a", .list []]).1
  constructor
  · apply hdifference.complex.mpr
    refine ⟨Or.inr rfl, ?_, Or.inl ⟨.complex .unit, by simp, rfl⟩⟩
    exact List.forall_mem_cons.mpr ⟨rfl, List.forall_mem_singleton.mpr rfl⟩
  · have hcount : Arithmetic.Takes .add [Expr.number 1.0, .string "a", .list []].length :=
      Nat.le_add_left 1 2
    exact hsum.leftmost hcount [.number 1.0] (.string "a") [.list []] rfl
      (List.forall_mem_singleton.mpr rfl) rfl

end PlotLisp
