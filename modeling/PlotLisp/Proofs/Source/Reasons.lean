/-
  PlotLisp.Proofs.Source.Reasons
  ──────────────────────────────────────
  **WHAT THE DETAIL OF A PARSE ERROR TELLS.**

  A text stops being a program behind a whole program (`IsExtra`), right behind
  an opening parenthesis (`FollowsOpening`), or elsewhere.  The detail is picked
  by searching for phrases, in the expectation and in the quoted line alike:

    • `isExtra_iff`, `followsOpening_iff` — the reasons are what the parser
      expects where it stops;
    • `quotedLine_append` — the quoted line is what stands around the error,
      between line feeds;
    • `parse_details_tell_the_reason` — the detail tells the reason, or what the
      quoted line says.

  So a program that quotes a phrase on that line is given a wrong reason
  (`quoted_phrase_decides_the_detail`).
-/
import Mathlib.Data.List.Basic
import PlotLisp.Proofs.Source.Blame

namespace PlotLisp

/-- The text could not be parsed, with this detail. -/
def Fault.Says (d : Fault) (detail : String) : Prop :=
  d.message = "Error: invalid expression. could not parse: " ++ detail

namespace Source

open Grammar

/-! ## §1. Reasons. -/

/-- A whole program ends before the byte `offset`, where more text follows. -/
def IsExtra (text : List Char) (offset : Nat) : Prop :=
  ∃ before after e, text = before ++ after ∧ byteLength before = offset ∧ after ≠ []
    ∧ Program before e

/-- The last token before the byte `offset` is an opening parenthesis. -/
def FollowsOpening (text : List Char) (offset : Nat) : Prop :=
  ∃ before after lexemes, text = before ++ after ∧ byteLength before = offset
    ∧ Lexed text (lexemes ++ [.opening]) after

/-- What stands between the line feeds around a place in a text. -/
def lineAround (before after : List Char) : List Char :=
  (before.reverse.takeWhile (· ≠ '\n')).reverse ++ after.takeWhile (· ≠ '\n')

/-- The line around the byte `offset` holds the phrase, carriage returns aside. -/
def Quotes (text : List Char) (offset : Nat) (phrase : String) : Prop :=
  ∃ before after, text = before ++ after ∧ byteLength before = offset
    ∧ phrase.toList <:+: (lineAround before after).filter (· ≠ '\r')

/-- A whole program ends before the byte `offset`, or the line around it says so. -/
def LooksExtra (text : List Char) (offset : Nat) : Prop :=
  IsExtra text offset ∨ Quotes text offset "expected EOI"

/-- An expression opens right before the byte `offset`, or the line around it says so. -/
def LooksOpened (text : List Char) (offset : Nat) : Prop :=
  FollowsOpening text offset ∨ Quotes text offset "expected number, string, or symbol"

/-! ## §2. Places in a text. -/

theorem byteLength_pos {text : List Char} (h : text ≠ []) : 0 < byteLength text := by
  obtain ⟨c, rest, rfl⟩ := List.exists_cons_of_ne_nil h
  have := c.utf8Size_pos
  rw [byteLength_cons]
  omega

/-- A text has one place at a byte. -/
theorem eq_of_byteLength_eq {before after before' after' : List Char}
    (hsplit : before ++ after = before' ++ after') (hsize : byteLength before = byteLength before') :
    before = before' ∧ after = after' := by
  rcases List.append_eq_append_iff.mp hsplit with ⟨middle, rfl, rfl⟩ | ⟨middle, rfl, rfl⟩
  all_goals
    rw [byteLength_append] at hsize
    have hmiddle : middle = [] := by
      by_contra hne
      have := byteLength_pos hne
      omega
    simp [hmiddle]

/-! ## §3. The quoted line. -/

/-- Nothing behind a line feed belongs to the line in front of it. -/
theorem takeWhile_append_lineFeed (before after : List Char) :
    (before ++ '\n' :: after).takeWhile (· ≠ '\n') = before.takeWhile (· ≠ '\n') := by
  induction before with
  | nil => rfl
  | cons c before ih => rw [List.cons_append, List.takeWhile_cons, ih, List.takeWhile_cons]

/-- The quoted line reaches from the last line feed in front of the offset to the next one. -/
theorem lineFrom_append (before after : List Char) :
    ∀ line : List Char, (∀ c ∈ line, c ≠ '\n') →
      lineFrom (byteLength before) line (before ++ after)
        = ((before.reverse ++ line).takeWhile (· ≠ '\n')).reverse ++ after.takeWhile (· ≠ '\n') := by
  induction before with
  | nil =>
    intro line hline
    have hall : line.takeWhile (· ≠ '\n') = line :=
      List.takeWhile_eq_self_iff.mpr (by simpa using hline)
    simp only [List.reverse_nil, List.nil_append, hall]
    cases after with
    | nil => simp [lineFrom]
    | cons c after => simp [lineFrom]
  | cons c before ih =>
    intro line hline
    have hne : c.utf8Size + byteLength before ≠ 0 := by
      have := c.utf8Size_pos
      omega
    rw [List.cons_append, byteLength_cons, lineFrom, if_neg hne, Nat.add_sub_cancel_left,
      List.reverse_cons, List.append_assoc]
    by_cases hc : c = '\n'
    · -- a new line starts
      rw [if_pos hc, ih [] (by simp), hc, List.append_nil, List.singleton_append,
        takeWhile_append_lineFeed]
    · rw [if_neg hc, ih (c :: line) (List.forall_mem_cons.mpr ⟨hc, hline⟩)]
      rfl

/-- **The quoted line is what stands between the line feeds around the error.** -/
theorem quotedLine_append (before after : List Char) :
    quotedLine (before ++ after) (byteLength before)
      = (lineAround before after).filter (· ≠ '\r') := by
  unfold quotedLine
  rw [lineFrom_append before after [] (by simp), List.append_nil]
  rfl

theorem occurs_eq_true_iff (phrase text : List Char) :
    occurs phrase text = true ↔ phrase <:+: text := by
  induction text with
  | nil => simp [occurs, List.isEmpty_iff]
  | cons c text ih => simp [occurs, ih, List.infix_cons_iff, List.isPrefixOf_iff_prefix]

/-- The line that the specification speaks of is the one the report quotes. -/
theorem quotes_iff (before after : List Char) (phrase : String) :
    Quotes (before ++ after) (byteLength before) phrase
      ↔ occurs phrase.toList (quotedLine (before ++ after) (byteLength before)) = true := by
  rw [quotedLine_append, occurs_eq_true_iff]
  constructor
  · rintro ⟨before', after', hsplit, hsize, h⟩
    obtain ⟨rfl, rfl⟩ := eq_of_byteLength_eq hsplit hsize.symm
    exact h
  · exact fun h => ⟨before, after, rfl, rfl, h⟩

/-! ## §4. What the parser expects where it stops. -/

section Stop

variable {before after : List Char} {lexemes : List Lexeme} {p : Progress}

/-- The text up to where the parser stops leaves it there. -/
theorem parseChars_before (hlexed : Lexed (before ++ after) lexemes after)
    (htake : Progress.before.takeAll? lexemes = some p) :
    parseChars before = p.finish (byteLength before) := by
  have hends : LineEnds [] := fun c hc => absurd hc (by simp)
  obtain ⟨before', hsplit, hlexed'⟩ :=
    hlexed.replace (Progress.invalid_not_mem_of_takeAll? htake) (.inr hends)
  obtain rfl : before = before' := List.append_cancel_right hsplit
  rw [List.append_nil] at hlexed'
  obtain ⟨scanned, -, hrun⟩ := hlexed'.run (by simp) htake
  have hstop : run .before 0 before = p := (hrun 0).trans (run_end .none p _)
  show (run .before 0 before).finish (byteLength before) = _
  rw [hstop]

/-- A text is accepted only with one whole program read and nothing open. -/
theorem finish_eq_ok_iff (size : Nat) (e : Expr) : p.finish size = .ok e ↔ p = .after e := by
  cases p <;> simp [Progress.finish]

/-- The parser expects nothing more exactly behind a whole program. -/
theorem expected_nothing_iff (hp : ∀ error, p ≠ .failed error) :
    p.expected = .nothing ↔ ∃ e, p = .after e := by
  cases p with
  | failed error => exact absurd rfl (hp error)
  | _ => simp [Progress.expected]

/-- A whole program ends where nothing more is expected. -/
theorem isExtra_iff {error : ParseError} (hreject : parseChars (before ++ after) = .error error)
    (hlexed : Lexed (before ++ after) lexemes after)
    (htake : Progress.before.takeAll? lexemes = some p) :
    IsExtra (before ++ after) (byteLength before) ↔ p.expected = .nothing := by
  have hstop := parseChars_before hlexed htake
  rw [expected_nothing_iff (Progress.ne_failed_of_takeAll? htake (by simp))]
  constructor
  · rintro ⟨before', after', e, hsplit, hsize, -, hprogram⟩
    obtain ⟨rfl, rfl⟩ := eq_of_byteLength_eq hsplit hsize.symm
    exact ⟨e, (finish_eq_ok_iff _ e).mp (hstop.symm.trans (parseChars_of_program hprogram))⟩
  · rintro ⟨e, rfl⟩
    refine ⟨before, after, e, rfl, rfl, ?_, program_of_parseChars hstop⟩
    rintro rfl
    rw [List.append_nil, hstop] at hreject
    cases hreject

/-- A head is expected behind an opening parenthesis, and nowhere else. -/
theorem expected_head_iff {q : Progress} {lexeme : Lexeme} (h : q.take? lexeme = some p) :
    p.expected = .head ↔ lexeme = .opening := by
  cases q with
  | before =>
    obtain ⟨rfl, rfl⟩ := take?_before h
    simp [Progress.expected]
  | opened outer =>
    obtain ⟨a, ha, rfl⟩ := Option.map_eq_some_iff.mp h
    cases lexeme <;> simp [Progress.expected, Lexeme.atom?] at ha ⊢
  | inside current outer =>
    rcases take?_inside h with ⟨rfl, rfl⟩ | ⟨rfl, rfl⟩ | ⟨a, ha, rfl⟩
    · simp [Progress.expected]
    · cases outer <;> simp [Progress.close, Progress.expected]
    · cases lexeme <;> simp [Progress.expected, Lexeme.atom?] at ha ⊢
  | after e => simp [Progress.take?] at h
  | failed error => simp [Progress.take?] at h

/-- The parser expects a head exactly behind an opening parenthesis. -/
theorem followsOpening_iff (hlexed : Lexed (before ++ after) lexemes after)
    (htake : Progress.before.takeAll? lexemes = some p) :
    FollowsOpening (before ++ after) (byteLength before) ↔ p.expected = .head := by
  rcases List.eq_nil_or_concat' lexemes with rfl | ⟨earlier, last, rfl⟩
  · obtain rfl : Progress.before = p := Option.some.inj htake
    simp only [Progress.expected, reduceCtorEq, iff_false]
    rintro ⟨before', after', lexemes', hsplit, hsize, hlexed'⟩
    obtain ⟨rfl, rfl⟩ := eq_of_byteLength_eq hsplit hsize.symm
    simpa using hlexed'.unique hlexed
  · rw [Progress.takeAll?_append] at htake
    obtain ⟨q, -, hq⟩ := Option.bind_eq_some_iff.mp htake
    have hlast : q.take? last = some p := by simpa [Progress.takeAll?_cons] using hq
    rw [expected_head_iff hlast]
    constructor
    · rintro ⟨before', after', lexemes', hsplit, hsize, hlexed'⟩
      obtain ⟨rfl, rfl⟩ := eq_of_byteLength_eq hsplit hsize.symm
      exact (List.append_inj' (hlexed'.unique hlexed) rfl).2 |> List.singleton_inj.mp
    · rintro rfl
      exact ⟨before, after, earlier, rfl, rfl, hlexed⟩

end Stop

/-! ## §5. Details. -/

/-- The detail of a syntax error is the only text of its report that varies. -/
theorem says_iff (source : SourceText) (error : ParseError) (detail : String) :
    (Fault.ofParseError source error).Says detail
      ↔ (error.detail source.text.toList).text = detail := by
  show _ ++ _ = _ ++ detail ↔ _
  rw [String.append_right_inj]

/-- No other expectation has this phrase in its own: the message betrays the reason unless the
quoted line interferes. -/
theorem occurs_nothing_iff (expected : Expectation) :
    occurs Expectation.nothing.phrase.toList expected.phrase.toList = true
      ↔ expected = .nothing := by
  cases expected <;> decide

theorem occurs_head_iff (expected : Expectation) :
    occurs Expectation.head.phrase.toList expected.phrase.toList = true ↔ expected = .head := by
  cases expected <;> decide

/-- The message mentions a phrase for two causes: the expectation itself, or the line it quotes.
The second is the slip. -/
theorem mentions_iff (before after : List Char) (expected phrase : Expectation) :
    ParseError.mentions ⟨byteLength before, expected⟩ (before ++ after) phrase = true
      ↔ occurs phrase.phrase.toList expected.phrase.toList = true
        ∨ Quotes (before ++ after) (byteLength before) phrase.phrase := by
  rw [quotes_iff, ParseError.mentions, Bool.or_eq_true, Or.comm]

/-- The three details, each by what the message mentions. -/
theorem detail_text_eq_iff (error : ParseError) (text : List Char) :
    ((error.detail text).text = "expected exactly one expression"
        ↔ error.mentions text .nothing = true)
      ∧ ((error.detail text).text = "expected an atom"
        ↔ ¬ error.mentions text .nothing = true ∧ error.mentions text .head = true)
      ∧ ((error.detail text).text = "expected an expression"
        ↔ ¬ error.mentions text .nothing = true ∧ ¬ error.mentions text .head = true) := by
  unfold ParseError.detail
  by_cases hnothing : error.mentions text .nothing = true
  · simp [hnothing, ParseDetail.text]
  · by_cases hhead : error.mentions text .head = true <;>
      simp [hnothing, hhead, ParseDetail.text]

/-- **THE DETAIL TELLS THE REASON, OR WHAT THE QUOTED LINE SAYS.**  A text is rejected behind a whole
program, right behind an opening parenthesis, or elsewhere, and no two of these.  The detail is the
one for that, unless the line around the error holds a phrase that stands for another one. -/
theorem parse_details_tell_the_reason (source : SourceText) {d : Fault}
    (h : source.parse = .error d) :
    (d.Says "expected exactly one expression" ↔ LooksExtra source.text.toList d.span.offset)
      ∧ (d.Says "expected an atom"
        ↔ ¬ LooksExtra source.text.toList d.span.offset
          ∧ LooksOpened source.text.toList d.span.offset)
      ∧ (d.Says "expected an expression"
        ↔ ¬ LooksExtra source.text.toList d.span.offset
          ∧ ¬ LooksOpened source.text.toList d.span.offset)
      ∧ ¬ (IsExtra source.text.toList d.span.offset
        ∧ FollowsOpening source.text.toList d.span.offset) := by
  cases hparse : parse source.text with
  | ok e => simp [SourceText.parse, hparse] at h
  | error error =>
    obtain rfl : Fault.ofParseError source error = d := by
      simpa [SourceText.parse, hparse] using h
    obtain ⟨before, after, lexemes, p, hsplit, rfl, hlexed, htake, -⟩ := exists_blame hparse
    have hreject : parseChars source.text.toList = .error ⟨byteLength before, p.expected⟩ := hparse
    simp only [says_iff]
    rw [hsplit] at hlexed hreject ⊢
    have hextra := isExtra_iff hreject hlexed htake
    have hopening := followsOpening_iff hlexed htake
    obtain ⟨hone, hatom, hexpression⟩ :=
      detail_text_eq_iff ⟨byteLength before, p.expected⟩ (before ++ after)
    rw [mentions_iff, occurs_nothing_iff, ← hextra] at hone hatom hexpression
    rw [mentions_iff, occurs_head_iff, ← hopening] at hatom hexpression
    refine ⟨hone, hatom, hexpression, ?_⟩
    rintro ⟨hnothing, hhead⟩
    exact absurd ((hextra.mp hnothing).symm.trans (hopening.mp hhead)) (by simp)

/-- A phrase on another line tells nothing. -/
theorem parse_details_tell_the_reason_of_bad_number :
    ∃ d, (⟨inputName, "(a ; expected EOI\n 1b"⟩ : SourceText).parse = .error d
      ∧ d.Says "expected an expression"
      ∧ ¬ LooksExtra "(a ; expected EOI\n 1b".toList 19
      ∧ ¬ LooksOpened "(a ; expected EOI\n 1b".toList 19 := by
  have h : (⟨inputName, "(a ; expected EOI\n 1b"⟩ : SourceText).parse
      = .error ((parsing ⟨inputName, "(a ; expected EOI\n 1b"⟩).report (.malformed .expression)
          ⟨19, 0⟩) := by
    decide +kernel
  have hsays : ((parsing ⟨inputName, "(a ; expected EOI\n 1b"⟩).report (.malformed .expression)
      ⟨19, 0⟩).Says "expected an expression" := rfl
  exact ⟨_, h, hsays, (parse_details_tell_the_reason _ h).2.2.1.mp hsays⟩

/-- **A PROGRAM CAN QUOTE ITS OWN ERROR.**  Here a parenthesis is missing at the end, and nothing
stands behind a whole program. -/
theorem quoted_phrase_decides_the_detail :
    ∃ d, (⟨inputName, "(expected EOI"⟩ : SourceText).parse = .error d
      ∧ d.Says "expected exactly one expression"
      ∧ ¬ IsExtra "(expected EOI".toList d.span.offset := by
  have h : (⟨inputName, "(expected EOI"⟩ : SourceText).parse
      = .error ((parsing ⟨inputName, "(expected EOI"⟩).report (.malformed .oneExpression)
          ⟨13, 0⟩) := by
    decide +kernel
  refine ⟨_, h, rfl, ?_⟩
  rintro ⟨before, after, e, hsplit, hsize, hafter, -⟩
  have htotal : byteLength before + byteLength after = 13 := by
    rw [← byteLength_append, ← hsplit]
    decide +kernel
  have hpos := byteLength_pos hafter
  have : byteLength before = 13 := hsize
  omega

end Source

end PlotLisp
