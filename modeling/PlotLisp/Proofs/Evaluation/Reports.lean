/-
  PlotLisp.Proofs.Evaluation.Reports
  ──────────────────────────────────────
  **EVERY FAILURE IS REPORTED CONSISTENTLY.**

  A program fails in one of two ways: its text is no program, or evaluating it ends
  with a fault, which may come from anywhere inside it.  Either way the report names
  the source and a span inside it:

    • `raised_of_evaluate` — however deep a fault was raised, its phase is that of its
      kind when it gets to the top, and nothing on the way has given it a source;
    • `Fault.Malformed` — how a text that is no program is reported;
    • `Fault.Faulty` — how a program is reported that ends with a fault.
-/
import PlotLisp.Interpreter
import PlotLisp.Proofs.Evaluation.Limit
import PlotLisp.Proofs.Source.Offsets

namespace PlotLisp

/-! ## §1. Faults at the top. -/

/-- **A fault comes out of an evaluation as it was raised**, from the context that its kind calls
for. -/
theorem raised_of_evaluate {limit : Nat} {e : Expr} {env : Environment} {f : Fault}
    (h : (evaluate limit e env).1 = .error f) : f.Raised :=
  fault_of_evaluate (fun _ hf => hf.raised) (Context.raised_runtime (by simp [Cause.kind]))
    (fun _ _ => Context.raised_runtime (by simp [Cause.kind])) h

/-! ## §2. Reports. -/

namespace Fault

/-- The report of a text that is no program. -/
structure Malformed (f : Fault) (source : SourceText) : Prop where
  kind : f.cause.kind = .parse
  phase : f.phase = .parse
  located : f.source = some source
  within : f.span.offset + f.span.length ≤ source.text.utf8ByteSize

/-- The report of a program that ends with a fault, as evaluated under a limit. -/
structure Faulty (f : Fault) (source : SourceText) (limit : Nat) : Prop where
  kind : f.cause.kind ≠ .parse ∧ f.cause.kind ≠ .io
  phase : f.phase = if f.cause.kind = .plotDomain then .plot else .runtime
  located : f.source = some source
  whole : f.span = ⟨0, source.text.utf8ByteSize⟩
  limit : ∀ reported, f.cause = .recursionLimit reported → reported = limit

theorem malformed_ofParseError {source : SourceText} {error : Source.ParseError}
    (h : Source.parse source.text = .error error) : (ofParseError source error).Malformed source :=
  ⟨rfl, rfl, rfl, Source.offset_le_of_parse_error h⟩

/-- A source is attached to what has none, and nothing else is touched. -/
theorem withSource_of_unlocated {f : Fault} (h : f.source = none) (source : SourceText) :
    f.withSource source
      = { f with source := some source, span := ⟨0, source.text.utf8ByteSize⟩ } := by
  simp only [withSource, h]

/-- Code and advice do not depend on the source. -/
theorem Consistent.withSource {f : Fault} (h : f.Consistent) (source : SourceText) :
    (f.withSource source).Consistent := by
  unfold Fault.withSource
  split
  · exact h
  · exact ⟨h.code, h.help⟩

theorem faulty_withSource {f : Fault} {limit : Nat} (hraised : f.Raised) (hlimit : f.Reports limit)
    (source : SourceText) : (f.withSource source).Faulty source limit := by
  rw [withSource_of_unlocated hraised.unlocated]
  exact
    { kind := hraised.kind
      phase := hraised.phase
      located := rfl
      whole := rfl
      limit := fun reported hreported => by
        rw [hlimit reported hreported] at hreported
        exact (Cause.recursionLimit.inj hreported).symm }

end Fault

/-! ## §3. Runs. -/

namespace Interpreter

theorem run_of_parse_error (source : SourceText) {error : Source.ParseError}
    (h : Source.parse source.text = .error error) (interp : Interpreter) :
    (interp.run source).1 = .error (.ofParseError source error) := by
  simp only [run, read, SourceText.parse, h]

/-- A program is answered as its evaluation ends. -/
theorem run_of_parse_ok (source : SourceText) {program : Expr}
    (h : Source.parse source.text = .ok program) (interp : Interpreter) :
    (interp.run source).1 = (PlotLisp.evaluate interp.limit program interp.env).1.mapError
      fun f => f.withSource source := by
  simp only [run, read, SourceText.parse, h, evaluateProgram]
  rcases PlotLisp.evaluate interp.limit program interp.env with ⟨r, after⟩
  cases r <;> rfl

end Interpreter

/-- **EVERY FAILURE IS REPORTED CONSISTENTLY.**  Whatever the interpreter, the source and the
failure: the report carries the source and a span inside it, a code put together of its phase and
its kind, and advice for some kinds.  A text that is no program is reported as such; a program is
reported on the whole of its text with the fault that its evaluation ended with, in the phase that
its kind calls for, and if that was cut off, with the interpreter's own limit. -/
theorem failures_are_reported_consistently (interp : Interpreter) (source : SourceText)
    {f : Fault} (h : (interp.run source).1 = .error f) :
    f.source = some source
      ∧ f.span.offset + f.span.length ≤ source.text.utf8ByteSize
      ∧ ((∀ program, Source.parse source.text ≠ .ok program) → f.Malformed source)
      ∧ (∀ program, Source.parse source.text = .ok program →
          f.Faulty source interp.limit
            ∧ ∃ raised, (evaluate interp.limit program interp.env).1 = .error raised
              ∧ raised.source = none
              ∧ f = { raised with
                  source := some source, span := ⟨0, source.text.utf8ByteSize⟩ })
      ∧ f.code = "plotscript::" ++ f.phase.name ++ "::" ++ f.cause.kind.suffix
      ∧ (f.help.isSome = true ↔ f.cause.kind ∈ Kind.advised) := by
  cases hparse : Source.parse source.text with
  | error error =>
    -- the parser puts source and span to its faults itself
    rw [Interpreter.run_of_parse_error _ hparse] at h
    cases h
    have hmalformed := Fault.malformed_ofParseError hparse
    have hconsistent : (Fault.ofParseError source error).Consistent :=
      Context.consistent_report _ _ _
    exact ⟨hmalformed.located, hmalformed.within, fun _ => hmalformed, nofun, hconsistent.code,
      hconsistent.help⟩
  | ok program =>
    rw [Interpreter.run_of_parse_ok _ hparse] at h
    cases heval : (evaluate interp.limit program interp.env).1 with
    | ok value =>
      rw [heval] at h
      cases h
    | error raised =>
      rw [heval] at h
      -- what was raised has no source, so it gets this one
      obtain rfl : raised.withSource source = f := Except.error.inj h
      have hraised := raised_of_evaluate heval
      have hfaulty := Fault.faulty_withSource hraised (reports_of_evaluate heval) source
      have hconsistent := hraised.toConsistent.withSource source
      refine ⟨hfaulty.located, ?_, fun hnone => absurd rfl (hnone program), ?_, hconsistent.code,
        hconsistent.help⟩
      · rw [hfaulty.whole]
        exact (Nat.zero_add _).le
      · rintro other hother
        cases hother
        exact ⟨hfaulty, raised, heval, hraised.unlocated,
          Fault.withSource_of_unlocated hraised.unlocated source⟩

/-- A program that nests more evaluations than the limit allows. -/
theorem failures_are_reported_consistently_cut_off :
    ∃ f, ((⟨.empty, 1, none⟩ : Interpreter).run ⟨"circle", "(begin (area r))"⟩).1 = .error f
      ∧ f.cause = .recursionLimit 1
      ∧ f.Faulty ⟨"circle", "(begin (area r))"⟩ 1
      ∧ f.code = "plotscript::runtime::recursion_limit"
      ∧ f.help.isSome = false := by
  have hparse : Source.parse "(begin (area r))"
      = .ok (.node (.symbol "begin") [.node (.symbol "area") [.symbol "r"] []] []) := by
    decide +kernel
  have hrun : ((⟨.empty, 1, none⟩ : Interpreter).run ⟨"circle", "(begin (area r))"⟩).1
      = .error ((runtime.fault (.recursionLimit 1)).withSource
          ⟨"circle", "(begin (area r))"⟩) := by
    decide +kernel
  obtain ⟨-, -, -, hfaulty, -⟩ := failures_are_reported_consistently _ _ hrun
  exact ⟨_, hrun, rfl, (hfaulty _ hparse).1, rfl, rfl⟩

end PlotLisp
