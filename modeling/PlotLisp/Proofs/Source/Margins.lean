/-
  PlotLisp.Proofs.Source.Margins
  ──────────────────────────────────────
  **LINES WITHOUT THEIR MARGINS.**

  Trimming the lines of a text takes the white space at both ends of each line.  The
  tokens stay the same as long as all that is taken stands in comments, or is a blank
  outside of comments and strings (`MarginsAreGaps`):

    • `Scanner.unplaced` — a scan without its offsets, which trimming does change;
    • `unplaced_trimmed_line` — a line scans the same with its margins and without;
    • `InLines.parse_trimmed` — the trimmed lines of a program have the same tree.
-/
import PlotLisp.Proofs.Source.Lines

namespace PlotLisp.Source

open Grammar

/-! ## §1. Tokens without their offsets. -/

/-- What has begun, wherever it did. -/
def Mode.unplaced : Mode → Mode
  | .between => .between
  | .comment => .comment
  | .word _ chars => .word 0 chars
  | .string _ chars => .string 0 chars
  | .escape _ chars => .escape 0 chars

/-- A token, wherever it stands. -/
def Token.unplaced (token : Token) : Token := ⟨0, token.lexeme⟩

/-- A token that stands nowhere stays as it is. -/
theorem Token.unplaced_unplaced (token : Token) : token.unplaced.unplaced = token.unplaced := rfl

namespace Scanner

/-- A scan without its offsets. -/
def unplaced (s : Scanner) : Scanner := ⟨s.mode.unplaced, 0, s.found.map Token.unplaced⟩

theorem unplaced_beginAt (s : Scanner) (c : Char) :
    (s.beginAt c).unplaced = (s.unplaced.beginAt c).unplaced := by
  unfold beginAt
  split_ifs <;> simp [unplaced, Mode.unplaced, Token.unplaced]

/-- **What a character does to a scan does not depend on offsets.** -/
theorem unplaced_push (s : Scanner) (c : Char) :
    (s.push c).unplaced = (s.unplaced.push c).unplaced := by
  show (s.take c).unplaced = (s.unplaced.take c).unplaced
  obtain ⟨mode, offset, found⟩ := s
  cases mode with
  | between => exact unplaced_beginAt _ c
  | comment =>
    simp only [take, unplaced, Mode.unplaced]
    split_ifs <;> simp [Token.unplaced_unplaced]
  | word start chars =>
    simp only [take, unplaced, Mode.unplaced]
    split_ifs with hd
    · -- the word ends, and the character is read once more
      have hend : (endWord ⟨.word start chars, offset, found⟩ start chars).unplaced
          = (endWord ⟨.word 0 chars, 0, found.map Token.unplaced⟩ 0 chars).unplaced := by
        simp [endWord, unplaced, Token.unplaced]
      show (beginAt (endWord ⟨.word start chars, offset, found⟩ start chars) c).unplaced
        = (beginAt (endWord ⟨.word 0 chars, 0, found.map Token.unplaced⟩ 0 chars) c).unplaced
      rw [unplaced_beginAt, hend, ← unplaced_beginAt]
    · simp [Token.unplaced_unplaced]
  | string start chars =>
    simp only [take, unplaced, Mode.unplaced]
    split_ifs <;> simp [endString, Token.unplaced]
  | escape start chars => simp [take, unplaced, Mode.unplaced, Token.unplaced_unplaced]

theorem unplaced_push_congr {s s' : Scanner} (h : s.unplaced = s'.unplaced) (c : Char) :
    (s.push c).unplaced = (s'.push c).unplaced := by
  rw [unplaced_push, h, ← unplaced_push]

theorem unplaced_foldl_congr {s s' : Scanner} (h : s.unplaced = s'.unplaced)
    (text : List Char) : (text.foldl push s).unplaced = (text.foldl push s').unplaced := by
  induction text generalizing s s' with
  | nil => exact h
  | cons c text ih => exact ih (unplaced_push_congr h c)

theorem unplaced_finish (s : Scanner) :
    s.finish.map Token.unplaced = s.unplaced.finish.map Token.unplaced := by
  obtain ⟨mode, offset, found⟩ := s
  cases mode <;> simp [finish, endWord, unplaced, Mode.unplaced, Token.unplaced]

end Scanner

/-- **The parser does not need offsets to accept a program.** -/
theorem foldl_push_unplaced {found found' : List Token}
    (h : found.map Token.unplaced = found'.map Token.unplaced) {p : Progress} {e : Expr}
    (haccept : found.foldl Progress.push p = .after e) :
    found'.foldl Progress.push p = .after e := by
  induction found generalizing found' p with
  | nil =>
    obtain rfl : found' = [] := by simpa [eq_comm] using h
    exact haccept
  | cons token found ih =>
    obtain ⟨token', rest, rfl, htoken, hrest⟩ := List.map_eq_cons_iff.mp h.symm
    have hlexeme : token'.lexeme = token.lexeme := (Token.mk.inj htoken).2
    rw [List.foldl_cons] at haccept ⊢
    cases hp : p.take? token.lexeme with
    | none =>
      obtain ⟨error, herror⟩ := Progress.push_of_take?_none token hp
      rw [herror, Progress.push_failed] at haccept
      exact absurd haccept (by simp)
    | some p' =>
      rw [Progress.push_of_take?_some hp] at haccept
      rw [Progress.push_of_take?_some (hlexeme ▸ hp)]
      exact ih hrest.symm haccept

/-- A line feed at the end of a text is no token and ends none. -/
theorem tokens_lineFeed (text : List Char) : tokens (text ++ ['\n']) = tokens text := by
  unfold tokens
  rw [List.foldl_append, List.foldl_cons, List.foldl_nil]
  generalize text.foldl Scanner.push .initial = s
  obtain ⟨mode, offset, found⟩ := s
  cases mode <;> rfl

/-! ## §2. Margins between tokens. -/

/-- White space at the start or at the end of its line. -/
def AtMargin (before : List Char) (c : Char) (after : List Char) : Prop :=
  isWhitespace c = true ∧ c ≠ '\n'
    ∧ ((∃ earlier blanks, before = earlier ++ blanks ∧ LineStarts earlier
          ∧ ∀ d ∈ blanks, isWhitespace d = true)
        ∨ ∃ blanks later, after = blanks ++ later ∧ LineEnds later
          ∧ ∀ d ∈ blanks, isWhitespace d = true)

/-- All white space at the start or the end of a line stands in a comment, or is a blank outside
of comments and strings. -/
def MarginsAreGaps (text : List Char) : Prop :=
  ∀ before c after, text = before ++ c :: after → AtMargin before c after →
    InComment before ∨ Outside before ∧ Blank c

/-- It is enough that this holds of all white space, by the count. -/
theorem marginsAreGaps_of_count {text : List Char}
    (h : ∀ n (hn : n < text.length), isWhitespace text[n] = true → text[n] ≠ '\n' →
      ((text.take n).foldl Balance.push .initial).region = .comment
        ∨ ((text.take n).foldl Balance.push .initial).region = .code ∧ isBlank text[n] = true) :
    MarginsAreGaps text := by
  rintro before c after rfl ⟨hwhite, hfeed, -⟩
  have hlt : before.length < (before ++ c :: after).length := by simp
  have hc : (before ++ c :: after)[before.length] = c := by simp
  have hbefore : (before ++ c :: after).take before.length = before := by simp
  have hlocated := located_region before
  rcases h before.length (by simp) (by rwa [hc]) (by rwa [hc]) with hregion | ⟨hregion, hblank⟩
  · rw [hbefore] at hregion
    rw [hregion] at hlocated
    exact .inl hlocated
  · rw [hbefore] at hregion
    rw [hregion] at hlocated
    rw [hc] at hblank
    exact .inr ⟨hlocated, (isBlank_iff c).mp hblank⟩

namespace Scanner

theorem push_blank_between {c : Char} (hc : Blank c) (offset : Nat) (found : List Token) :
    push ⟨.between, offset, found⟩ c = ⟨.between, offset + c.utf8Size, found⟩ := by
  simp [push, take, beginAt, (isBlank_iff c).mpr hc]

theorem push_blank_word {c : Char} (hc : Blank c) (start : Nat) (chars : List Char) (offset : Nat)
    (found : List Token) :
    push ⟨.word start chars, offset, found⟩ c
      = ⟨.between, offset + c.utf8Size, ⟨start, .ofWord chars.reverse⟩ :: found⟩ := by
  have hdelimiter : isDelimiter c = true := (isDelimiter_iff c).mpr (.inl hc)
  simp [push, take, endWord, beginAt, (isBlank_iff c).mpr hc, hdelimiter]

theorem unplaced_foldl_blanks {blanks : List Char} (h : ∀ c ∈ blanks, Blank c) {s : Scanner}
    (hs : s.mode = .between) : (blanks.foldl push s).unplaced = s.unplaced := by
  induction blanks generalizing s with
  | nil => rfl
  | cons c blanks ih =>
    obtain ⟨mode, offset, found⟩ := s
    obtain rfl : mode = .between := hs
    rw [List.foldl_cons, push_blank_between (h c List.mem_cons_self)]
    exact ih (fun d hd => h d (List.mem_cons_of_mem _ hd)) rfl

/-- Blanks in code make no difference to the end of their line. -/
theorem unplaced_blanks_lineFeed {blanks : List Char} (h : ∀ c ∈ blanks, Blank c) {s : Scanner}
    (hs : s.mode.region = .code) :
    ((blanks.foldl push s).push '\n').unplaced = (s.push '\n').unplaced := by
  have hfeed : Blank '\n' := by simp [Blank]
  cases blanks with
  | nil => rfl
  | cons c blanks =>
    have hc := h c List.mem_cons_self
    have hrest : ∀ d ∈ blanks, Blank d := fun d hd => h d (List.mem_cons_of_mem _ hd)
    obtain ⟨mode, offset, found⟩ := s
    rw [List.foldl_cons]
    cases mode with
    | between =>
      rw [push_blank_between hc]
      rw [unplaced_push_congr (unplaced_foldl_blanks hrest rfl), push_blank_between hfeed,
        push_blank_between hfeed]
      rfl
    | word start chars =>
      rw [push_blank_word hc]
      rw [unplaced_push_congr (unplaced_foldl_blanks hrest rfl), push_blank_between hfeed,
        push_blank_word hfeed]
      rfl
    | _ => exact absurd hs (by simp [Mode.region])

/-- What stands in a comment makes no difference to the end of its line. -/
theorem unplaced_comment_lineFeed {body : List Char} (h : '\n' ∉ body) {s : Scanner}
    (hs : s.mode = .comment) :
    ((body.foldl push s).push '\n').unplaced = (s.push '\n').unplaced := by
  obtain ⟨mode, offset, found⟩ := s
  obtain rfl : mode = .comment := hs
  rw [foldl_push_comment h]
  rfl

end Scanner

/-- White space that starts in code stays in code, and so it is blank if it is a gap. -/
theorem blank_of_gap {before blanks : List Char}
    (hcode : (before.foldl Balance.push .initial).region = .code)
    (hwhite : ∀ c ∈ blanks, isWhitespace c = true)
    (hgap : ∀ left c right, blanks = left ++ c :: right →
      InComment (before ++ left) ∨ Outside (before ++ left) ∧ Blank c) :
    ∀ c ∈ blanks, Blank c := by
  intro c hc
  obtain ⟨left, right, rfl⟩ := List.append_of_mem hc
  rcases hgap left c right rfl with hcomment | ⟨-, hblank⟩
  · have hregion := region_of_inComment hcomment
    rw [List.foldl_append, foldl_of_isWhitespace
      (fun d hd => hwhite d (List.mem_append_left _ hd)) (.inl hcode), hcode] at hregion
    exact absurd hregion (by simp)
  · exact hblank

/-- The left margin of a line makes no difference to the scan. -/
theorem unplaced_left_margin {before left : List Char} (hstarts : LineStarts before)
    (hwhite : ∀ c ∈ left, isWhitespace c = true)
    (hgap : ∀ first c rest, left = first ++ c :: rest →
      InComment (before ++ first) ∨ Outside (before ++ first) ∧ Blank c) :
    (left.foldl Scanner.push (scan before)).unplaced = (scan before).unplaced := by
  cases left with
  | nil => rfl
  | cons c left =>
    have hcode : (before.foldl Balance.push .initial).region = .code := by
      rcases hgap [] c left rfl with hcomment | ⟨houtside, -⟩
      · rw [List.append_nil] at hcomment
        have hregion := region_of_inComment hcomment
        rcases region_of_lineStarts hstarts with h | h <;> rw [h] at hregion <;> cases hregion
      · rw [List.append_nil] at houtside
        exact region_of_outside houtside
    have hmode : (scan before).mode = .between := by
      rcases mode_of_lineStarts hstarts with h | ⟨start, chars, h⟩
      · exact h
      · rw [region_count, h] at hcode
        cases hcode
    exact Scanner.unplaced_foldl_blanks (blank_of_gap hcode hwhite hgap) hmode

/-- The right margin of a line makes no difference to the end of the line. -/
theorem unplaced_right_margin {before right : List Char} (hline : '\n' ∉ right)
    (hwhite : ∀ c ∈ right, isWhitespace c = true)
    (hgap : ∀ first c rest, right = first ++ c :: rest →
      InComment (before ++ first) ∨ Outside (before ++ first) ∧ Blank c) :
    ((right.foldl Scanner.push (scan before)).push '\n').unplaced
      = ((scan before).push '\n').unplaced := by
  cases right with
  | nil => rfl
  | cons c right =>
    rcases hgap [] c right rfl with hcomment | ⟨houtside, -⟩
    · rw [List.append_nil] at hcomment
      have hregion := region_of_inComment hcomment
      rw [region_count] at hregion
      refine Scanner.unplaced_comment_lineFeed hline ?_
      cases hmode : (scan before).mode <;> rw [hmode] at hregion <;> first | rfl | cases hregion
    · rw [List.append_nil] at houtside
      have hcode := region_of_outside houtside
      refine Scanner.unplaced_blanks_lineFeed (blank_of_gap hcode hwhite hgap) ?_
      rw [← region_count]
      exact hcode

/-- **Trimming a line makes no difference to the scan of the lines after it**, if its margins are
gaps. -/
theorem unplaced_trimmed_line {before line tail : List Char} (hstarts : LineStarts before)
    (hends : LineEnds tail) (hline : '\n' ∉ line) (h : MarginsAreGaps (before ++ (line ++ tail))) :
    (((trim line).foldl Scanner.push (scan before)).push '\n').unplaced
      = ((line.foldl Scanner.push (scan before)).push '\n').unplaced := by
  obtain ⟨left, right, hsplit, hleft, hright⟩ := exists_margins line
  have hne {c : Char} (hc : c ∈ line) : c ≠ '\n' := fun heq => hline (heq ▸ hc)
  -- every character of a margin is one that the hypothesis speaks of
  have hleftgap : ∀ first c rest, left = first ++ c :: rest →
      InComment (before ++ first) ∨ Outside (before ++ first) ∧ Blank c := by
    rintro first c rest rfl
    refine h (before ++ first) c (rest ++ (trim line ++ right ++ tail)) ?_ ⟨?_, ?_, .inl ?_⟩
    · conv_lhs => rw [hsplit]
      simp
    · exact hleft c (by simp)
    · exact hne (hsplit ▸ by simp)
    · exact ⟨before, first, rfl, hstarts, fun d hd => hleft d (List.mem_append_left _ hd)⟩
  have hrightgap : ∀ first c rest, right = first ++ c :: rest →
      InComment (before ++ (left ++ trim line) ++ first)
        ∨ Outside (before ++ (left ++ trim line) ++ first) ∧ Blank c := by
    rintro first c rest rfl
    refine h (before ++ (left ++ trim line) ++ first) c (rest ++ tail) ?_ ⟨?_, ?_, .inr ?_⟩
    · conv_lhs => rw [hsplit]
      simp
    · exact hright c (by simp)
    · exact hne (hsplit ▸ by simp)
    · exact ⟨rest, tail, rfl, hends, fun d hd => hright d (by simp [hd])⟩
  have hfeed : '\n' ∉ right := fun hmem => hline (hsplit ▸ List.mem_append_right _ hmem)
  have hscan : scan (before ++ (left ++ trim line))
      = (trim line).foldl Scanner.push (left.foldl Scanner.push (scan before)) := by
    simp only [scan, List.foldl_append]
  -- the right margin goes first: it is scanned after the line as it was typed
  have hend := unplaced_right_margin hfeed hright hrightgap
  rw [hscan] at hend
  conv_rhs => rw [hsplit, List.foldl_append, List.foldl_append, hend]
  refine Scanner.unplaced_push_congr (Scanner.unplaced_foldl_congr ?_ _) '\n'
  exact (unplaced_left_margin hstarts hleft hleftgap).symm

/-- **Trimming lines makes no difference to their tokens**, if the margins are gaps. -/
theorem unplaced_trimmed {text : List Char} {lines others : List (List Char)}
    (hlines : HasLines text (lines ++ others)) (hunbroken : ∀ line ∈ lines, '\n' ∉ line)
    (h : MarginsAreGaps text) :
    (scan (endLines (lines.map trim))).unplaced = (scan (endLines lines)).unplaced := by
  induction lines using List.reverseRecOn generalizing others with
  | nil => rfl
  | append_singleton lines line ih =>
    rw [List.append_assoc, List.singleton_append] at hlines
    obtain ⟨rest, rfl, hrest⟩ := hlines.exists_rest (List.cons_ne_nil _ _)
    obtain ⟨tail, rfl, hends⟩ := hrest.exists_tail
    have hbefore := ih hlines fun other hmem => hunbroken other (List.mem_append_left _ hmem)
    have hstep := unplaced_trimmed_line (lineStarts_endLines lines) hends
      (hunbroken line (by simp)) h
    have hscan (before chars : List Char) : scan (before ++ (chars ++ ['\n']))
        = (chars.foldl Scanner.push (scan before)).push '\n' := by
      simp only [scan, List.foldl_append, List.foldl_cons, List.foldl_nil]
    rw [List.map_append, List.map_singleton, endLines_append, endLines_append]
    simp only [endLines_cons, endLines_nil]
    rw [hscan, hscan, ← hstep]
    exact Scanner.unplaced_push_congr (Scanner.unplaced_foldl_congr hbefore _) '\n'

/-- **The lines of a program are a program with the same tree once trimmed**, if the margins are
gaps. -/
theorem InLines.parse_trimmed {text : List Char} {lines : List (List Char)} {program : Expr}
    (h : InLines text lines program) (hgaps : MarginsAreGaps text) :
    parseChars (joinLines (lines.map trim)) = .ok program := by
  obtain ⟨line, rest, hfirst, -⟩ := h.exists_first
  have hne : lines ≠ [] := by simp [hfirst]
  have htokens (chars : List Char) : tokens chars = (scan chars).finish := rfl
  have hsame : (tokens text).map Token.unplaced
      = (tokens (joinLines (lines.map trim))).map Token.unplaced := by
    have htext : tokens text = tokens (endLines lines) := by
      rcases h.split with hjoin | hend
      · rw [← joinLines_lineFeed hne, tokens_lineFeed, hjoin]
      · rw [hend]
    have hsplit := h.split
    rw [← List.append_nil lines] at hsplit
    rw [htext, ← tokens_lineFeed (joinLines _), joinLines_lineFeed (by simpa using hne), htokens,
      htokens, Scanner.unplaced_finish, Scanner.unplaced_finish (scan (endLines (lines.map trim))),
      unplaced_trimmed hsplit h.unbroken hgaps]
  rw [parseChars_eq_ok_iff]
  exact foldl_push_unplaced hsame ((parseChars_eq_ok_iff text program).mp h.accepted)

end PlotLisp.Source
