/-
  PlotLisp.Proofs.Source.Acceptance
  ──────────────────────────────────────
  **THE PARSER ACCEPTS EXACTLY THE GRAMMAR.**

  The parser holds its open expressions on a stack, the grammar has none:

    • `run_expression` — on a text that the grammar derives, the parser closes
      the expression and goes on after it, whatever is open around it;
    • `Demands p text program` — what the grammar still asks of `text` for a
      parser that stands at `p` to end with `program`;
    • `demands_of_run` — a parser that ends with a program got from the text
      what its state demands, by induction on the length of the text.
-/
import PlotLisp.Source.Report
import PlotLisp.Proofs.Source.Scanning

namespace PlotLisp.Source

open Grammar

/-! ## §1. Tokens one at a time. -/

/-- Where the parser gets to from `p` on a text that starts at `offset`. -/
def run (p : Progress) (offset : Nat) (text : List Char) : Progress :=
  (tokensFrom offset text).foldl Progress.push p

/-- A gap moves the offset and leaves the progress: nothing in it is a lexeme. -/
theorem run_gap {text rest : List Char} (h : Gap text rest) (p : Progress) (offset : Nat) :
    ∃ next, run p offset text = run p next rest := by
  obtain ⟨skipped, -, ht⟩ := tokensFrom_gap h
  refine ⟨offset + byteLength skipped, ?_⟩
  unfold run
  rw [ht]

theorem run_end {text : List Char} (h : Gap text []) (p : Progress) (offset : Nat) :
    run p offset text = p := by
  obtain ⟨next, h⟩ := run_gap h p offset
  rw [h]
  rfl

/-- The parser takes one lexeme, wherever the scanner finds it. -/
theorem run_scans {text s rest : List Char} {lexeme : Lexeme} (hg : Gap text s)
    (hs : Scans s lexeme rest) (p : Progress) (offset : Nat) :
    ∃ start next, run p offset text = run (p.push ⟨start, lexeme⟩) next rest := by
  obtain ⟨start, h⟩ := run_gap hg p offset
  obtain ⟨scanned, -, -, ht⟩ := tokensFrom_scans hs
  refine ⟨start, start + byteLength scanned, ?_⟩
  rw [h]
  unfold run
  rw [ht, List.foldl_cons]

/-- An atom is taken wherever the parser takes its lexeme. -/
theorem run_atomic {text s rest : List Char} {a : Atom} (hg : Gap text s)
    (ha : Atomic s a rest) (p : Progress) (offset : Nat) :
    ∃ start lexeme next, lexeme.atom? = some a
      ∧ run p offset text = run (p.push ⟨start, lexeme⟩) next rest := by
  obtain ⟨lexeme, hs, ha⟩ := (atomic_iff_scans s a rest).mp ha
  obtain ⟨start, next, h⟩ := run_scans hg hs p offset
  exact ⟨start, lexeme, next, ha, h⟩

/-- The first atom behind a parenthesis is the head. -/
theorem push_opened {lexeme : Lexeme} {a : Atom} (ha : lexeme.atom? = some a)
    (outer : List Open) (start : Nat) :
    (Progress.opened outer).push ⟨start, lexeme⟩ = .inside ⟨a, []⟩ outer := by
  simp [Progress.push, Progress.take?, ha]

/-- Every later one is an operand. They are kept in reverse. -/
theorem push_inside {lexeme : Lexeme} {a : Atom} (ha : lexeme.atom? = some a) (head : Atom)
    (children : List Expr) (outer : List Open) (start : Nat) :
    (Progress.inside ⟨head, children⟩ outer).push ⟨start, lexeme⟩
      = .inside ⟨head, .atom a :: children⟩ outer := by
  cases lexeme <;> simp [Lexeme.atom?] at ha <;> subst ha <;> rfl

/-! ## §2. Derived texts are accepted. -/

mutual

/-- **An expression is read as its tree**, from wherever its parenthesis opens. -/
theorem run_expression {text rest : List Char} {e : Expr} :
    Expression text e rest → ∀ (p : Progress) (outer : List Open),
      p.take? .opening = some (.opened outer) → ∀ offset,
      ∃ next, run p offset text = run (Progress.close e outer) next rest
  | @Expression.intro s _ head _ _ _ hg ha hc, p, outer, hp, offset => by
    have hopening : Scans ('(' :: s) .opening s := .opening
    obtain ⟨start, next, h⟩ := run_scans .none hopening p offset
    have hpush : p.push ⟨start, .opening⟩ = .opened outer := by
      cases p <;> simp_all [Progress.push, Progress.take?]
    obtain ⟨start', lexeme, next', hl, h'⟩ := run_atomic hg ha (.opened outer) next
    obtain ⟨next'', h''⟩ := run_children hc head [] outer next'
    refine ⟨next'', ?_⟩
    rw [h, hpush, h', push_opened hl, h'']
    rfl

/-- Children are added to those that are there, up to the closing parenthesis. -/
theorem run_children {text rest : List Char} {es : List Expr} :
    Children text es rest → ∀ (head : Atom) (children : List Expr) (outer : List Open) (offset),
      ∃ next, run (.inside ⟨head, children⟩ outer) offset text
        = run (Progress.close (.node head (children.reverse ++ es) []) outer) next rest
  | .close hg, head, children, outer, offset => by
    obtain ⟨start, next, h⟩ := run_scans hg .closing (.inside ⟨head, children⟩ outer) offset
    refine ⟨next, ?_⟩
    rw [h, List.append_nil]
    rfl
  | .atom (a := a) hg ha hc, head, children, outer, offset => by
    obtain ⟨start, lexeme, next, hl, h⟩ := run_atomic hg ha (.inside ⟨head, children⟩ outer) offset
    obtain ⟨next', h'⟩ := run_children hc head (.atom a :: children) outer next
    refine ⟨next', ?_⟩
    rw [h, push_inside hl, h', List.reverse_cons, List.append_assoc]
    rfl
  | .expression (e := e) hg he hc, head, children, outer, offset => by
    obtain ⟨start, h⟩ := run_gap hg (.inside ⟨head, children⟩ outer) offset
    obtain ⟨next, h'⟩ := run_expression he (.inside ⟨head, children⟩ outer)
      (⟨head, children⟩ :: outer) rfl start
    obtain ⟨next', h''⟩ := run_children hc head (e :: children) outer next
    refine ⟨next', ?_⟩
    rw [h, h']
    show run (.inside ⟨head, e :: children⟩ outer) next _ = _
    rw [h'', List.reverse_cons, List.append_assoc]
    rfl

end

/-- **EVERY PROGRAM OF THE GRAMMAR IS ACCEPTED**, as the tree that the grammar gives it. -/
theorem parseChars_of_program {text : List Char} {e : Expr} (h : Program text e) :
    parseChars text = .ok e := by
  obtain ⟨s, s', hg, he, hend⟩ := h
  obtain ⟨start, h1⟩ := run_gap hg .before 0
  obtain ⟨next, h2⟩ := run_expression he .before [] rfl start
  have hrun : run .before 0 text = .after e := by
    rw [h1, h2]
    exact run_end hend (.after e) next
  show (run .before 0 text).finish (byteLength text) = .ok e
  rw [hrun]
  rfl

/-! ## §3. Accepted texts are derived. -/

/-- What is asked of `text` for the program to come out as `program` once `e` is
finished inside the open expressions. -/
def Completes : List Open → Expr → List Char → Expr → Prop
  | [], e, text, program => program = e ∧ Gap text []
  | ⟨head, children⟩ :: outer, e, text, program =>
      ∃ es rest, Children text es rest
        ∧ Completes outer (.node head ((e :: children).reverse ++ es) []) rest program

/-- What is asked of `text` for a parser that stands at `p` to end with `program`. -/
def Demands : Progress → List Char → Expr → Prop
  | .before, text, program => Program text program
  | .opened outer, text, program =>
      ∃ s head s' es rest, Gap text s ∧ Atomic s head s' ∧ Children s' es rest
        ∧ Completes outer (.node head es []) rest program
  | .inside ⟨head, children⟩ outer, text, program =>
      ∃ es rest, Children text es rest
        ∧ Completes outer (.node head (children.reverse ++ es) []) rest program
  | .after e, text, program => program = e ∧ Gap text []
  | .failed _, _, _ => False

/-- A closing parenthesis hands the finished expression to the one around it. -/
theorem demands_close (e : Expr) (outer : List Open) (text : List Char) (program : Expr) :
    Demands (Progress.close e outer) text program ↔ Completes outer e text program := by
  cases outer <;> rfl

/-- A step that leads anywhere is one that `take?` allows. -/
theorem take?_of_demands {p : Progress} {start : Nat} {lexeme : Lexeme} {rest : List Char}
    {program : Expr} (h : Demands (p.push ⟨start, lexeme⟩) rest program) :
    ∃ p', p.take? lexeme = some p' ∧ Demands p' rest program := by
  cases hp : p.take? lexeme with
  | some p' =>
    refine ⟨p', rfl, ?_⟩
    cases p with
    | failed => exact h.elim
    | _ => simpa [Progress.push, hp] using h
  | none => cases p <;> simp [Progress.push, hp, Demands] at h

theorem take?_before {lexeme : Lexeme} {p' : Progress}
    (h : Progress.before.take? lexeme = some p') : lexeme = .opening ∧ p' = .opened [] := by
  cases lexeme <;> simp_all [Progress.take?]

theorem take?_inside {head : Atom} {children : List Expr} {outer : List Open} {lexeme : Lexeme}
    {p' : Progress} (h : (Progress.inside ⟨head, children⟩ outer).take? lexeme = some p') :
    (lexeme = .opening ∧ p' = .opened (⟨head, children⟩ :: outer))
      ∨ (lexeme = .closing ∧ p' = Progress.close (.node head children.reverse []) outer)
      ∨ (∃ a, lexeme.atom? = some a ∧ p' = .inside ⟨head, .atom a :: children⟩ outer) := by
  cases lexeme <;> simp_all [Progress.take?, Lexeme.atom?]

/-- **What is demanded after a token, the text with the token meets before it.** -/
theorem demands_of_push {p : Progress} {text s rest : List Char} {lexeme : Lexeme} {start : Nat}
    {program : Expr} (hg : Gap text s) (hs : Scans s lexeme rest)
    (h : Demands (p.push ⟨start, lexeme⟩) rest program) : Demands p text program := by
  -- what the parser may take depends on where it stands, so the cases are those of `Progress`
  obtain ⟨p', hp, h⟩ := take?_of_demands h
  cases p with
  | before =>
    obtain ⟨hl, rfl⟩ := take?_before hp
    obtain ⟨s', head, s'', es, rest', hg', ha, hc, rfl, hend⟩ := h
    rw [hs.eq_of_opening hl] at hg
    exact ⟨_, rest', hg, .intro hg' ha hc, hend⟩
  | opened outer =>
    obtain ⟨a, ha, rfl⟩ := Option.map_eq_some_iff.mp hp
    obtain ⟨es, rest', hc, hclose⟩ := h
    exact ⟨s, a, rest, es, rest', hg, (atomic_iff_scans s a rest).mpr ⟨lexeme, hs, ha⟩, hc, hclose⟩
  | inside current outer =>
    obtain ⟨head, children⟩ := current
    rcases take?_inside hp with ⟨hl, rfl⟩ | ⟨hl, rfl⟩ | ⟨a, ha, rfl⟩
    · -- an expression opens; it is finished, then the one around it
      obtain ⟨s', head', s'', es, rest', hg', ha, hc, es', rest'', hc', hclose⟩ := h
      rw [hs.eq_of_opening hl] at hg
      refine ⟨_ :: es', rest'', .expression hg (.intro hg' ha hc) hc', ?_⟩
      rw [List.reverse_cons, List.append_assoc] at hclose
      exact hclose
    · -- the expression closes
      rw [hs.eq_of_closing hl] at hg
      refine ⟨[], rest, .close hg, ?_⟩
      rw [List.append_nil]
      exact (demands_close _ outer rest program).mp h
    · -- an atom is added
      obtain ⟨es, rest', hc, hclose⟩ := h
      refine ⟨.atom a :: es, rest', .atom hg ?_ hc, ?_⟩
      · exact (atomic_iff_scans s a rest).mpr ⟨lexeme, hs, ha⟩
      · rw [List.reverse_cons, List.append_assoc] at hclose
        exact hclose
  | after e => exact absurd hp (by simp [Progress.take?])
  | failed error => exact absurd hp (by simp [Progress.take?])

/-- **A parser that ends with a program got what it demands.** -/
theorem demands_of_run {size : Nat} {program : Expr} :
    ∀ (text : List Char) (p : Progress) (offset : Nat),
      (run p offset text).finish size = .ok program → Demands p text program := by
  intro text
  induction h : text.length using Nat.strong_induction_on generalizing text with
  | _ n ih =>
    intro p offset hrun
    -- one gap and one lexeme are taken off the text, and the rest is shorter
    obtain ⟨s, hg, hs⟩ := exists_gap text
    cases s with
    | nil =>
      rw [run_end hg] at hrun
      cases p with
      | after e =>
        injection hrun with hrun
        exact ⟨hrun.symm, hg⟩
      | _ => exact absurd hrun (by simp [Progress.finish])
    | cons c s =>
      obtain ⟨hb, hc⟩ := hs c rfl
      obtain ⟨lexeme, rest, hscan⟩ := exists_scans hb hc s
      obtain ⟨start, next, hstep⟩ := run_scans hg hscan p offset
      rw [hstep] at hrun
      have hlt : rest.length < n := by
        have := hg.length_le
        have := hscan.length_lt
        omega
      exact demands_of_push hg hscan (ih rest.length hlt rest rfl _ next hrun)

/-- **WHAT IS ACCEPTED IS A PROGRAM OF THE GRAMMAR.** -/
theorem program_of_parseChars {text : List Char} {e : Expr} (h : parseChars text = .ok e) :
    Program text e :=
  demands_of_run text .before 0 h

/-! ## §4. Programs. -/

theorem parse_eq_ok_iff (text : String) (e : Expr) :
    parse text = .ok e ↔ Program text.toList e :=
  ⟨program_of_parseChars, parseChars_of_program⟩

/-- A text derives one tree at most. -/
theorem program_unique {text : List Char} {e e' : Expr} (h : Program text e)
    (h' : Program text e') : e = e' := by
  have := (parseChars_of_program h).symm.trans (parseChars_of_program h')
  injection this

/-- **THE PARSER ACCEPTS EXACTLY ITS GRAMMAR**: it gives the tree that the text
derives, there is no other one, and a text that derives none is reported as
malformed, with its source. -/
theorem parse_accepts_exactly_programs (source : SourceText) :
    (∀ e, source.parse = .ok e ↔ Program source.text.toList e)
      ∧ (∀ e e', Program source.text.toList e ∧ Program source.text.toList e' → e = e')
      ∧ ((∃ f, source.parse = .error f ∧ (∃ detail, f.cause = .malformed detail)
            ∧ f.phase = .parse ∧ f.source = some source)
          ↔ ¬ ∃ e, Program source.text.toList e) := by
  have hok : ∀ e, source.parse = .ok e ↔ Program source.text.toList e := by
    intro e
    rw [← parse_eq_ok_iff]
    unfold SourceText.parse
    cases parse source.text with
    | ok e' => simp
    | error error => simp
  refine ⟨hok, fun e e' h => program_unique h.1 h.2, ?_, ?_⟩
  · rintro ⟨f, herr, -⟩ ⟨e, he⟩
    rw [(hok e).mpr he] at herr
    exact absurd herr (by simp)
  · intro hno
    cases hp : parse source.text with
    | ok e => exact absurd ⟨e, (parse_eq_ok_iff _ e).mp hp⟩ hno
    | error error =>
      refine ⟨.ofParseError source error, ?_, ⟨_, rfl⟩, rfl, rfl⟩
      simp only [SourceText.parse, hp]

/-- Tokens need no blank between them where a delimiter ends the first one. -/
example : parseChars ['(', 'f', '"', 'a', '\\', '"', '"', 'b', ';', 'c', '\n', ')']
    = .ok (.node (.symbol "f") [.string "a\"", .symbol "b"] []) := by
  decide

end PlotLisp.Source
