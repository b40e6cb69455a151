/-
  PlotLisp.Proofs.Evaluation.Raising
  ──────────────────────────────────────
  **HOW FAULTS ARE RAISED.**

  Whatever fails names the cause and the context that it reports from.  Nothing
  makes the two fit but the place where a fault is raised:

    • `Fault.Consistent` — the code and the advice are those of phase and kind;
    • `Fault.Raised` — what is to be true of a fault that comes out of an
      evaluation: its phase is that of its kind, and it has no source yet;
    • `Fault.Ordinary` — the faults that checks and procedures raise.  Evaluation
      has two of its own, being cut off and a lambda whose parameters are no
      names.
-/
import PlotLisp.Fault

namespace PlotLisp

/-! ## §1. Kinds of failures. -/

/-- The kinds of failures. -/
inductive Kind where
  | parse
  | argument
  | type
  | unboundSymbol
  | unknownProcedure
  | redefinition
  | plotDomain
  | recursionLimit
  | io
deriving DecidableEq, Repr

/-- The kind's part of an error code. -/
def Kind.suffix : Kind → String
  | .parse => "parse_error"
  | .argument => "argument_error"
  | .type => "type_error"
  | .unboundSymbol => "unbound_symbol"
  | .unknownProcedure => "unknown_procedure"
  | .redefinition => "redefinition"
  | .plotDomain => "plot_domain"
  | .recursionLimit => "recursion_limit"
  | .io => "io_error"

/-- The kinds that come with advice. -/
def Kind.advised : List Kind := [.parse, .unboundSymbol, .redefinition, .plotDomain]

/-- The kind of a cause. -/
def Cause.kind : Cause → Kind
  | .malformed _ => .parse
  | .argument _ _ _ => .argument
  | .mismatch _ _ _ => .type
  | .unboundSymbol _ => .unboundSymbol
  | .unknownProcedure _ => .unknownProcedure
  | .redefinition _ => .redefinition
  | .plotDomain _ => .plotDomain
  | .recursionLimit _ => .recursionLimit
  | .unreadable _ _ => .io

namespace Cause

/-- A cause's part of an error code is that of its kind. -/
theorem codeSuffix_eq (cause : Cause) : cause.codeSuffix = cause.kind.suffix := by
  cases cause <;> rfl

/-- There is advice for some kinds, whatever the failure is about. -/
theorem isSome_help_iff (cause : Cause) :
    cause.help.isSome = true ↔ cause.kind ∈ Kind.advised := by
  cases cause <;> simp [help, kind, Kind.advised]

end Cause

/-! ## §2. Reports. -/

namespace Fault

/-- The code names the phase and the kind, and advice comes with some kinds only. -/
structure Consistent (f : Fault) : Prop where
  code : f.code = "plotscript::" ++ f.phase.name ++ "::" ++ f.cause.kind.suffix
  help : f.help.isSome = true ↔ f.cause.kind ∈ Kind.advised

/-- A fault as it comes out of an evaluation. -/
structure Raised (f : Fault) : Prop extends Consistent f where
  kind : f.cause.kind ≠ .parse ∧ f.cause.kind ≠ .io
  phase : f.phase = if f.cause.kind = .plotDomain then .plot else .runtime
  unlocated : f.source = none

end Fault

namespace Context

/-- Every context puts code and advice together alike. -/
theorem consistent_report (context : Context) (cause : Cause) (span : Span) :
    (context.report cause span).Consistent where
  code := by
    show "plotscript::" ++ context.phase.name ++ "::" ++ cause.codeSuffix = _
    rw [cause.codeSuffix_eq]
    rfl
  help := cause.isSome_help_iff

/-- From `runtime`, faults of every kind but three may be raised. -/
theorem raised_runtime {cause : Cause} (h : cause.kind ∉ [.parse, .plotDomain, .io]) :
    (runtime.fault cause).Raised := by
  simp only [List.mem_cons, List.not_mem_nil, or_false, not_or] at h
  obtain ⟨hparse, hplot, hio⟩ := h
  exact
    { consistent_report runtime cause unspanned with
      kind := ⟨hparse, hio⟩
      phase := (if_neg hplot).symm
      unlocated := rfl }

/-- From `plotting`, only refusals to plot may be. -/
theorem raised_plotting (refusal : PlotRefusal) :
    (plotting.fault (.plotDomain refusal)).Raised :=
  { consistent_report plotting (.plotDomain refusal) unspanned with
    kind := ⟨nofun, nofun⟩
    phase := rfl
    unlocated := rfl }

end Context

/-! ## §3. Ordinary faults. -/

/-- What a lambda without parameter names should have been. -/
def lambdaWanted : String := "a lambda"

/-- Neither being cut off nor a lambda without parameter names, and nothing that has a
context of its own. -/
def Cause.Ordinary : Cause → Prop
  | .argument _ _ _ | .unboundSymbol _ | .unknownProcedure _ | .redefinition _ => True
  | .mismatch _ expected _ => expected ≠ lambdaWanted
  | .malformed _ | .plotDomain _ | .recursionLimit _ | .unreadable _ _ => False

theorem Cause.Ordinary.kind_notMem {cause : Cause} (h : cause.Ordinary) :
    cause.kind ∉ [.parse, .plotDomain, .io] := by
  cases cause <;> first | exact h.elim | simp [Cause.kind]

/-- The faults that checks and procedures raise, each with the context it is raised from. -/
inductive Fault.Ordinary : Fault → Prop where
  | atRuntime {cause : Cause} : cause.Ordinary → Ordinary (runtime.fault cause)
  | whilePlotting (refusal : PlotRefusal) : Ordinary (plotting.fault (.plotDomain refusal))

theorem Fault.Ordinary.mismatch {place expected actual : String} (h : expected ≠ lambdaWanted) :
    (runtime.fault (.mismatch place expected actual)).Ordinary := .atRuntime h

/-- Ordinary faults report no limit. -/
theorem Fault.Ordinary.ne_recursionLimit {f : Fault} (h : f.Ordinary) (limit : Nat) :
    f.cause ≠ .recursionLimit limit := by
  rintro hcause
  cases h with
  | atRuntime h => exact (hcause ▸ h : Cause.Ordinary (.recursionLimit limit))
  | whilePlotting refusal => cases hcause

/-- Ordinary faults miss no lambda. -/
theorem Fault.Ordinary.ne_lambdaWanted {f : Fault} (h : f.Ordinary) (place actual : String) :
    f.cause ≠ .mismatch place lambdaWanted actual := by
  rintro hcause
  cases h with
  | atRuntime h => exact (hcause ▸ h : Cause.Ordinary (.mismatch place lambdaWanted actual)) rfl
  | whilePlotting refusal => cases hcause

/-- **Checks and procedures name the context that their faults call for.** -/
theorem Fault.Ordinary.raised {f : Fault} (h : f.Ordinary) : f.Raised := by
  cases h with
  | atRuntime hcause => exact Context.raised_runtime hcause.kind_notMem
  | whilePlotting refusal => exact Context.raised_plotting refusal

end PlotLisp
