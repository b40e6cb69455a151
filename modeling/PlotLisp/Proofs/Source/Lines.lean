/-
  PlotLisp.Proofs.Source.Lines
  ──────────────────────────────────────
  **A PROGRAM IN LINES.**

  The lines of a program may be typed one by one and trimmed.  The count of
  parentheses sees through both:

    • `HasLines` — a text and the lines it consists of;
    • `count_trimmed` — trimming the lines makes no difference to their count;
    • `InLines.isComplete_of_first_lines`, `InLines.isComplete_of_all_lines` — the
      lines of a program are complete with the last one and not before.
-/
import PlotLisp.Proofs.Source.Completeness

namespace PlotLisp.Source

open Grammar

/-! ## §1. Lines. -/

/-- The lines as one text, with a line feed between any two. -/
def joinLines (lines : List (List Char)) : List Char := ['\n'].intercalate lines

/-- The lines as one text, with a line feed after each. -/
def endLines (lines : List (List Char)) : List Char := lines.flatMap fun line => line ++ ['\n']

@[simp] theorem endLines_nil : endLines [] = [] := rfl

@[simp] theorem endLines_cons (line : List Char) (lines : List (List Char)) :
    endLines (line :: lines) = line ++ '\n' :: endLines lines := by
  simp [endLines]

@[simp] theorem endLines_append (lines others : List (List Char)) :
    endLines (lines ++ others) = endLines lines ++ endLines others := by
  simp [endLines]

theorem joinLines_append (lines : List (List Char)) {others : List (List Char)}
    (h : others ≠ []) : joinLines (lines ++ others) = endLines lines ++ joinLines others := by
  induction lines with
  | nil => rfl
  | cons line lines ih =>
    have hne : lines ++ others ≠ [] := by simp [h]
    rw [List.cons_append, joinLines, List.intercalate_cons_of_ne_nil hne, ← joinLines, ih,
      endLines_cons]
    simp

theorem joinLines_lineFeed {lines : List (List Char)} (h : lines ≠ []) :
    joinLines lines ++ ['\n'] = endLines lines := by
  rcases List.eq_nil_or_concat lines with rfl | ⟨earlier, line, hsnoc⟩
  · exact absurd rfl h
  · rw [List.concat_eq_append] at hsnoc
    subst hsnoc
    rw [joinLines_append earlier (List.cons_ne_nil line []), endLines_append]
    simp [joinLines]

/-- The text consists of the lines; after the last one there may be a line feed. -/
def HasLines (text : List Char) (lines : List (List Char)) : Prop :=
  text = joinLines lines ∨ text = endLines lines

/-- A text goes on after its first lines. -/
theorem HasLines.exists_rest {text : List Char} {lines others : List (List Char)}
    (h : HasLines text (lines ++ others)) (hne : others ≠ []) :
    ∃ rest, text = endLines lines ++ rest ∧ HasLines rest others := by
  rcases h with rfl | rfl
  · exact ⟨joinLines others, joinLines_append lines hne, .inl rfl⟩
  · exact ⟨endLines others, endLines_append lines others, .inr rfl⟩

/-- The first line ends at a line feed or with the text. -/
theorem HasLines.exists_tail {text line : List Char} {lines : List (List Char)}
    (h : HasLines text (line :: lines)) : ∃ tail, text = line ++ tail ∧ LineEnds tail := by
  rcases h with rfl | rfl
  · cases lines with
    | nil => exact ⟨[], by simp [joinLines], by simp [LineEnds]⟩
    | cons next lines =>
      refine ⟨'\n' :: joinLines (next :: lines), ?_, by simp [LineEnds]⟩
      simp [joinLines, List.intercalate_cons_cons]
  · exact ⟨'\n' :: endLines lines, endLines_cons line lines, by simp [LineEnds]⟩

/-- A line starts here: at the start of a text or after a line feed. -/
def LineStarts (before : List Char) : Prop := before = [] ∨ ∃ earlier, before = earlier ++ ['\n']

theorem lineStarts_endLines (lines : List (List Char)) : LineStarts (endLines lines) := by
  rcases List.eq_nil_or_concat lines with rfl | ⟨lines, line, rfl⟩
  · exact .inl rfl
  · exact .inr ⟨endLines lines ++ line, by simp⟩

/-! ## §2. The margins of a line. -/

/-- A line is its left margin, what trimming leaves of it, and its right margin. -/
theorem exists_margins (line : List Char) :
    ∃ left right, line = left ++ trim line ++ right
      ∧ (∀ c ∈ left, isWhitespace c = true) ∧ ∀ c ∈ right, isWhitespace c = true := by
  obtain ⟨right, hright, htrim⟩ := exists_trim line
  refine ⟨line.takeWhile isWhitespace, right, ?_, fun c hc => List.mem_takeWhile_imp hc, hright⟩
  rw [List.append_assoc, ← htrim, List.takeWhile_append_dropWhile]

/-- White space in code or in a string is not counted. -/
theorem push_of_isWhitespace {c : Char} (h : isWhitespace c = true) {b : Balance}
    (hb : b.region = .code ∨ b.region = .string) : b.push c = b := by
  obtain ⟨hquote, hescape, hcomment, hopening, hclosing⟩ := ne_of_isWhitespace h
  unfold Balance.push
  rcases hb with hb | hb <;> simp [hb, hquote, hescape, hcomment, hopening, hclosing]

theorem foldl_of_isWhitespace {blanks : List Char} (h : ∀ c ∈ blanks, isWhitespace c = true)
    {b : Balance} (hb : b.region = .code ∨ b.region = .string) :
    blanks.foldl Balance.push b = b := by
  induction blanks with
  | nil => rfl
  | cons c blanks ih =>
    rw [List.foldl_cons, push_of_isWhitespace (h c List.mem_cons_self) hb]
    exact ih fun d hd => h d (List.mem_cons_of_mem _ hd)

/-- A line feed ends a comment and an escape. -/
theorem region_push_lineFeed (b : Balance) :
    (b.push '\n').region = .code ∨ (b.push '\n').region = .string := by
  obtain ⟨depth, region⟩ := b
  cases region with
  | code => exact .inl rfl
  | comment => exact .inl rfl
  | string => exact .inr rfl
  | escape => exact .inr rfl

/-- White space at the end of a line makes no difference to the next one. -/
theorem push_lineFeed_foldl {blanks : List Char} (h : ∀ c ∈ blanks, isWhitespace c = true)
    (hline : '\n' ∉ blanks) (b : Balance) :
    (blanks.foldl Balance.push b).push '\n' = b.push '\n' := by
  induction blanks generalizing b with
  | nil => rfl
  | cons c blanks ih =>
    have hc := h c List.mem_cons_self
    have hne : c ≠ '\n' := fun heq => hline (heq ▸ List.mem_cons_self)
    rw [List.foldl_cons, ih (fun d hd => h d (List.mem_cons_of_mem _ hd))
      fun hmem => hline (List.mem_cons_of_mem _ hmem)]
    obtain ⟨depth, region⟩ := b
    cases region with
    | code => rw [push_of_isWhitespace hc (.inl rfl)]
    | comment => simp [Balance.push, hne]
    | string => rw [push_of_isWhitespace hc (.inr rfl)]
    | escape => simp [Balance.push]

theorem region_initial : Balance.initial.region = .code ∨ Balance.initial.region = .string := .inl rfl

theorem region_of_lineStarts {before : List Char} (h : LineStarts before) :
    (before.foldl Balance.push .initial).region = .code
      ∨ (before.foldl Balance.push .initial).region = .string := by
  rcases h with rfl | ⟨earlier, rfl⟩
  · exact .inl rfl
  · rw [List.foldl_append]
    exact region_push_lineFeed _

/-- **Trimming a line makes no difference to the count of the lines after it.** -/
theorem count_trimmed_line {line : List Char} (hline : '\n' ∉ line) {b : Balance}
    (hb : b.region = .code ∨ b.region = .string) :
    ((trim line).foldl Balance.push b).push '\n' = (line.foldl Balance.push b).push '\n' := by
  obtain ⟨left, right, hsplit, hleft, hright⟩ := exists_margins line
  have hfeed : '\n' ∉ right := fun hmem => hline (hsplit ▸ List.mem_append_right _ hmem)
  conv_rhs => rw [hsplit, List.foldl_append, List.foldl_append]
  rw [push_lineFeed_foldl hright hfeed, foldl_of_isWhitespace hleft hb]

/-- **Trimming lines makes no difference to their count.** -/
theorem count_trimmed {lines : List (List Char)} (hlines : ∀ line ∈ lines, '\n' ∉ line)
    {b : Balance} (hb : b.region = .code ∨ b.region = .string) :
    (endLines (lines.map trim)).foldl Balance.push b = (endLines lines).foldl Balance.push b := by
  induction lines generalizing b with
  | nil => rfl
  | cons line lines ih =>
    rw [List.map_cons, endLines_cons, endLines_cons, List.foldl_append, List.foldl_append,
      List.foldl_cons, List.foldl_cons, count_trimmed_line (hlines line List.mem_cons_self) hb]
    exact ih (fun other hmem => hlines other (List.mem_cons_of_mem _ hmem))
      (region_push_lineFeed _)

/-! ## §3. Regions. -/

theorem isWhitespace_of_blank {c : Char} (h : Blank c) : isWhitespace c = true :=
  isWhitespace_of_mem_blanks h

theorem foldl_quoted {body contents : List Char} (h : Quoted body contents) (depth : Int) :
    body.foldl Balance.push ⟨depth, .string⟩ = ⟨depth, .string⟩ := by
  induction h with
  | nil => rfl
  | @plain c body contents hquote hescape _ ih =>
    have hstep : Balance.push ⟨depth, .string⟩ c = ⟨depth, .string⟩ := by
      simp [Balance.push, hquote, hescape]
    rw [List.foldl_cons, hstep, ih]
  | escape _ ih => exact ih

theorem foldl_comment {body : List Char} (h : '\n' ∉ body) (depth : Int) :
    body.foldl Balance.push ⟨depth, .comment⟩ = ⟨depth, .comment⟩ := by
  induction body with
  | nil => rfl
  | cons c body ih =>
    have hne : c ≠ '\n' := fun heq => h (heq ▸ List.mem_cons_self)
    have hstep : Balance.push ⟨depth, .comment⟩ c = ⟨depth, .comment⟩ := by
      simp [Balance.push, hne]
    rw [List.foldl_cons, hstep, ih fun hmem => h (List.mem_cons_of_mem _ hmem)]

/-- Outside strings and comments the count is in code. -/
theorem region_of_outside {text : List Char} (h : Outside text) :
    (text.foldl Balance.push .initial).region = .code := by
  induction h with
  | start => rfl
  | @plain text c _ hc ih =>
    simp only [List.mem_cons, List.not_mem_nil, or_false, not_or] at hc
    rw [List.foldl_append, List.foldl_cons, List.foldl_nil]
    generalize text.foldl Balance.push .initial = b at ih
    obtain ⟨depth, region⟩ := b
    obtain rfl : region = .code := ih
    unfold Balance.push
    simp only [hc.1, hc.2, if_false]
    split_ifs <;> rfl
  | @string text body contents _ hq ih =>
    rw [List.foldl_append, List.foldl_append, List.foldl_cons]
    generalize text.foldl Balance.push .initial = b at ih
    obtain ⟨depth, region⟩ := b
    obtain rfl : region = .code := ih
    show ((body.foldl Balance.push ⟨depth, .string⟩).push '"').region = .code
    rw [foldl_quoted hq]
    rfl
  | @comment text body _ hbody ih =>
    rw [List.foldl_append, List.foldl_append, List.foldl_cons]
    generalize text.foldl Balance.push .initial = b at ih
    obtain ⟨depth, region⟩ := b
    obtain rfl : region = .code := ih
    show ((body.foldl Balance.push ⟨depth, .comment⟩).push '\n').region = .code
    rw [foldl_comment hbody]
    rfl

theorem region_of_inComment {text : List Char} (h : InComment text) :
    (text.foldl Balance.push .initial).region = .comment := by
  obtain ⟨before, body, hbefore, hbody, rfl⟩ := h
  have hcode := region_of_outside hbefore
  rw [List.foldl_append, List.foldl_cons]
  generalize before.foldl Balance.push .initial = b at hcode
  obtain ⟨depth, region⟩ := b
  obtain rfl : region = .code := hcode
  show (body.foldl Balance.push ⟨depth, .comment⟩).region = .comment
  rw [foldl_comment hbody]

theorem mode_push_lineFeed (s : Scanner) :
    (s.push '\n').mode = .between ∨ ∃ start chars, (s.push '\n').mode = .string start chars := by
  obtain ⟨mode, offset, found⟩ := s
  cases mode with
  | between => exact .inl rfl
  | comment => exact .inl rfl
  | word start chars => exact .inl rfl
  | string start chars => exact .inr ⟨_, _, rfl⟩
  | escape start chars => exact .inr ⟨_, _, rfl⟩

/-- A line starts between tokens or in a string. -/
theorem mode_of_lineStarts {before : List Char} (h : LineStarts before) :
    (scan before).mode = .between ∨ ∃ start chars, (scan before).mode = .string start chars := by
  rcases h with rfl | ⟨earlier, rfl⟩
  · exact .inl rfl
  · unfold scan
    rw [List.foldl_append]
    exact mode_push_lineFeed _

/-! ## §4. Complete with the last line, and not before. -/

/-- The program is opened on the first line. -/
def OpensOnFirstLine (text : List Char) : Prop :=
  ∃ before after, text = before ++ '(' :: after ∧ ∀ c ∈ before, Blank c ∧ c ≠ '\n'

/-- The program is closed on the last line; a line feed at the end of the text opens no further
line. -/
def ClosesOnLastLine (text : List Char) : Prop :=
  ∃ before after, text = before ++ ')' :: after ∧ Outside before ∧ Gap after []
    ∧ '\n' ∉ after.dropLast

/-- A program in lines none of which is blank, opened on the first and closed on the last. -/
structure InLines (text : List Char) (lines : List (List Char)) (program : Expr) : Prop where
  accepted : parseChars text = .ok program
  split : HasLines text lines
  unbroken : ∀ line ∈ lines, '\n' ∉ line
  notBlank : ∀ line ∈ lines, trim line ≠ []
  opens : OpensOnFirstLine text
  closes : ClosesOnLastLine text

/-- The parenthesis that opens the program stands on the first of the lines. -/
theorem OpensOnFirstLine.exists_before {text line : List Char} {lines : List (List Char)}
    (h : OpensOnFirstLine text) (hlines : HasLines text (line :: lines)) :
    ∃ before after, line = before ++ '(' :: after ∧ ∀ c ∈ before, Blank c := by
  obtain ⟨before, after, rfl, hbefore⟩ := h
  obtain ⟨tail, htail, hends⟩ := hlines.exists_tail
  rcases List.append_eq_append_iff.mp htail with ⟨middle, hline, hrest⟩ | ⟨middle, hline, hrest⟩
  · cases middle with
    | nil => exact absurd (hends '(' (by rw [← List.nil_append tail, ← hrest]; rfl)) (by decide)
    | cons c middle =>
      obtain rfl : '(' = c := (List.cons.inj hrest).1
      exact ⟨before, middle, hline, fun d hd => (hbefore d hd).1⟩
  · -- the line would end before the parenthesis
    cases middle with
    | nil => exact absurd (hends '(' (by rw [hrest]; rfl)) (by decide)
    | cons c middle =>
      have hc : c = '\n' := hends c (by rw [hrest]; rfl)
      exact absurd hc (hbefore c (by simp [hline])).2

/-- What trimming leaves of the first line starts with that parenthesis. -/
theorem head?_trim {before : List Char} (hbefore : ∀ c ∈ before, Blank c) (after : List Char) :
    (trim (before ++ '(' :: after)).head? = some '(' := by
  obtain ⟨right, hright, htrim⟩ := exists_trim (before ++ '(' :: after)
  rw [List.dropWhile_append_of_pos fun c hc => isWhitespace_of_blank (hbefore c hc),
    List.dropWhile_cons_of_neg (by decide)] at htrim
  cases hcase : trim (before ++ '(' :: after) with
  | nil =>
    rw [hcase, List.nil_append] at htrim
    exact absurd (hright '(' (htrim ▸ List.mem_cons_self)) (by decide)
  | cons c rest =>
    rw [hcase] at htrim
    rw [List.head?_cons, (List.cons.inj htrim).1]

theorem opensOutsideComments {before : List Char} (hbefore : ∀ c ∈ before, Blank c)
    (after : List Char) : OpensOutsideComments (before ++ '(' :: after) := by
  refine ⟨before, after, rfl, fun hcomment => ?_⟩
  have hregion := region_of_inComment hcomment
  rw [foldl_of_isWhitespace (fun c hc => isWhitespace_of_blank (hbefore c hc)) region_initial]
    at hregion
  exact absurd hregion (by decide)

theorem Scanner.foldl_push_found (text : List Char) :
    ∀ (mode : Mode) (offset : Nat) (found : List Token),
      text.foldl push ⟨mode, offset, found⟩
        = ⟨(text.foldl push ⟨mode, offset, []⟩).mode, (text.foldl push ⟨mode, offset, []⟩).offset,
            (text.foldl push ⟨mode, offset, []⟩).found ++ found⟩ := by
  induction text with
  | nil => exact fun _ _ _ => rfl
  | cons c text ih =>
    intro mode offset found
    rw [List.foldl_cons, List.foldl_cons, push_found, ih,
      ih (push ⟨mode, offset, []⟩ c).mode _ (push ⟨mode, offset, []⟩ c).found]
    simp

/-- A parenthesis in code is a token. -/
theorem tokensIn_ne_nil {before middle : List Char} (h : Outside (before ++ middle))
    (after : List Char) :
    tokensIn (scan before).mode (scan before).offset (middle ++ ')' :: after) ≠ [] := by
  have hregion := region_of_outside h
  rw [region_count, scan, List.foldl_append, ← scan] at hregion
  generalize scan before = s at hregion
  obtain ⟨mode, offset, found⟩ := s
  rw [Scanner.foldl_push_found] at hregion
  unfold tokensIn
  rw [List.foldl_append, List.foldl_cons]
  generalize middle.foldl Scanner.push ⟨mode, offset, []⟩ = s at hregion
  obtain ⟨mode, offset, found⟩ := s
  -- the parenthesis is found, whatever comes after it
  cases mode with
  | between =>
    show (after.foldl Scanner.push ⟨.between, _, ⟨offset, .closing⟩ :: found⟩).finish ≠ []
    rw [Scanner.finish_foldl_found]
    simp
  | word start chars =>
    show (after.foldl Scanner.push ⟨.between, _, ⟨offset, .closing⟩ :: _⟩).finish ≠ []
    rw [Scanner.finish_foldl_found]
    simp
  | _ => exact absurd hregion (by simp [Mode.region])

/-- What comes before the end of a program, up to the start of a line, is no program. -/
theorem not_accepted_before_closing {before middle after : List Char} {e : Expr}
    (hstarts : LineStarts before) (haccept : parseChars (before ++ (middle ++ ')' :: after)) = .ok e)
    (houtside : Outside (before ++ middle)) (e' : Expr) : parseChars before ≠ .ok e' := by
  intro h
  have hend := (parseChars_eq_ok_iff _ _).mp h
  have hlast := foldl_tokens_append before []
  rw [List.append_nil, hend] at hlast
  have hreached : reached before = .after e' := by
    rcases mode_of_lineStarts hstarts with hmode | ⟨start, chars, hmode⟩
    · rw [hmode] at hlast
      exact hlast.symm
    · exact absurd (by rw [hmode]; rfl) (region_of_accepted hlast.symm).1
  have hmore := (parseChars_eq_ok_iff _ _).mp haccept
  rw [foldl_tokens_append, hreached] at hmore
  obtain ⟨token, others, htokens⟩ := List.exists_cons_of_ne_nil (tokensIn_ne_nil houtside after)
  obtain ⟨error, herror⟩ := Progress.push_of_take?_none (p := .after e') token rfl
  rw [htokens, List.foldl_cons, herror, Progress.push_failed] at hmore
  exact absurd hmore (by simp)

namespace InLines

variable {text : List Char} {lines others : List (List Char)} {program : Expr}

/-- The parenthesis that closes the program comes after every line but the last. -/
theorem exists_closing (h : InLines text (lines ++ others) program) (hne : others ≠ []) :
    ∃ middle after, text = endLines lines ++ (middle ++ ')' :: after)
      ∧ Outside (endLines lines ++ middle) := by
  obtain ⟨rest, htext, hrest⟩ := h.split.exists_rest hne
  obtain ⟨before, after, hclosing, houtside, -, hlast⟩ := h.closes
  rw [htext] at hclosing
  rcases List.append_eq_append_iff.mp hclosing with ⟨middle, rfl, hmiddle⟩ | ⟨middle, hmiddle, hafter⟩
  · exact ⟨middle, after, by rw [htext, hmiddle], houtside⟩
  · cases middle with
    | nil =>
      rw [List.append_nil] at hmiddle
      rw [List.nil_append] at hafter
      exact ⟨[], after, by rw [htext, ← hafter]; rfl, by rwa [List.append_nil, hmiddle]⟩
    | cons c middle =>
      -- a whole line would come after the parenthesis
      rw [List.cons_append] at hafter
      obtain ⟨rfl, rfl⟩ := List.cons.inj hafter
      have hnonempty : rest ≠ [] := by
        obtain ⟨line, others, rfl⟩ := List.exists_cons_of_ne_nil hne
        obtain ⟨tail, rfl, -⟩ := hrest.exists_tail
        have hline := h.notBlank line (by simp)
        rintro hnil
        rw [(List.append_eq_nil_iff.mp hnil).1] at hline
        exact hline rfl
      rw [List.dropLast_append_of_ne_nil hnonempty] at hlast
      refine absurd (List.mem_append_left _ ?_) hlast
      rcases lineStarts_endLines lines with hnil | ⟨earlier, hearlier⟩
      · rw [hnil] at hmiddle
        exact absurd hmiddle (by simp)
      · rw [hearlier] at hmiddle
        have hfeed := congrArg List.getLast? hmiddle
        simp only [List.getLast?_append, List.getLast?_cons] at hfeed
        cases hlast : middle.getLast? with
        | none => exact absurd hfeed (by simp [hlast])
        | some c =>
          obtain rfl : '\n' = c := by simpa [hlast] using hfeed
          exact List.mem_of_getLast? hlast

/-- **The first lines of a program leave something open.** -/
theorem isClosed_endLines (h : InLines text (lines ++ others) program) (hsome : lines ≠ [])
    (hmore : others ≠ []) :
    ((endLines lines).foldl Balance.push .initial).isClosed = false := by
  obtain ⟨middle, after, htext, houtside⟩ := h.exists_closing hmore
  have haccept := h.accepted
  rw [htext] at haccept
  have hreject := not_accepted_before_closing (lineStarts_endLines lines) haccept houtside
  obtain ⟨line, rest, rfl⟩ := List.exists_cons_of_ne_nil hsome
  obtain ⟨before, after', rfl, hbefore⟩ := h.opens.exists_before h.split
  have hopens : OpensOutsideComments (endLines ((before ++ '(' :: after') :: rest)) := by
    rw [endLines_cons, List.append_assoc]
    exact opensOutsideComments hbefore _
  have hcomplete := isComplete_of_unfinished hreject hopens haccept
  have htyped : trim (endLines ((before ++ '(' :: after') :: rest)) ≠ [] :=
    List.ne_nil_of_mem (mem_trim (c := '(') (by simp) (by decide))
  rw [isComplete_eq, List.isEmpty_eq_false_iff.mpr htyped] at hcomplete
  exact hcomplete

end InLines

/-- The margins do not decide whether the lines leave something open. -/
theorem isClosed_joinLines_trimmed {lines : List (List Char)} (hne : lines ≠ [])
    (hlines : ∀ line ∈ lines, '\n' ∉ line) :
    ((joinLines (lines.map trim)).foldl Balance.push .initial).isClosed
      = ((endLines lines).foldl Balance.push .initial).isClosed := by
  have hne' : lines.map trim ≠ [] := by simpa using hne
  rw [← count_trimmed hlines region_initial, ← joinLines_lineFeed hne', List.foldl_append,
    List.foldl_cons, List.foldl_nil, isClosed_push_whitespace (by decide)]

namespace InLines

variable {text : List Char} {lines others : List (List Char)} {program : Expr}

/-- **The lines of a program are not complete before the last one**, once trimmed. -/
theorem isComplete_of_first_lines (h : InLines text (lines ++ others) program)
    (hsome : lines ≠ []) (hmore : others ≠ []) :
    isComplete (joinLines (lines.map trim)) = false := by
  rw [isComplete_eq, isClosed_joinLines_trimmed hsome
    fun line hline => h.unbroken line (List.mem_append_left _ hline),
    h.isClosed_endLines hsome hmore, Bool.and_false]

/-- There is a first line, and it opens the program. -/
theorem exists_first (h : InLines text lines program) :
    ∃ line rest, lines = line :: rest ∧ (trim line).head? = some '(' := by
  cases lines with
  | nil =>
    obtain ⟨before, after, htext, -⟩ := h.opens
    rcases h.split with hnil | hnil
    · exact absurd (htext.symm.trans hnil) (by simp [joinLines])
    · exact absurd (htext.symm.trans hnil) (by simp)
  | cons line rest =>
    obtain ⟨before, after, rfl, hbefore⟩ := h.opens.exists_before h.split
    exact ⟨_, rest, rfl, head?_trim hbefore after⟩

/-- **The lines of a program are complete with the last one**, once trimmed. -/
theorem isComplete_of_all_lines (h : InLines text lines program) :
    isComplete (joinLines (lines.map trim)) = true := by
  obtain ⟨line, rest, hfirst, hhead⟩ := h.exists_first
  have hne : lines ≠ [] := by simp [hfirst]
  have hclosed := isComplete_of_accepted h.accepted
  rw [isComplete_eq, Bool.and_eq_true] at hclosed
  have hsame : ((endLines lines).foldl Balance.push .initial).isClosed
      = (text.foldl Balance.push .initial).isClosed := by
    rcases h.split with htext | htext
    · rw [← joinLines_lineFeed hne, htext, List.foldl_append, List.foldl_cons, List.foldl_nil,
        isClosed_push_whitespace (by decide)]
    · rw [htext]
  have hmem : '(' ∈ joinLines (lines.map trim) := by
    have hline : '(' ∈ trim line := List.mem_of_mem_head? hhead
    have hend : '(' ∈ endLines (lines.map trim) := by simp [hfirst, hline]
    rw [← joinLines_lineFeed (by simpa using hne)] at hend
    simpa using hend
  have htyped : trim (joinLines (lines.map trim)) ≠ [] :=
    List.ne_nil_of_mem (mem_trim hmem (by decide))
  rw [isComplete_eq, isClosed_joinLines_trimmed hne h.unbroken, hsame, hclosed.2]
  simp [htyped]

end InLines

end PlotLisp.Source
