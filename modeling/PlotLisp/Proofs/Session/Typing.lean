/-
  PlotLisp.Proofs.Session.Typing
  ──────────────────────────────────────
  **TYPING A PROGRAM LINE BY LINE.**

  Lines are trimmed, collected, and evaluated when nothing is open any more:

    • `exists_lines` — the lines of an input are the lines of its text;
    • `feed_next` — one line more of a program: it is collected, and evaluated if it
      is the last one;
    • `Session.eval_same_program` — two texts with the same tree are answered alike.

  Trimming is what can go wrong: white space at the end of a line may belong to a
  string (`typing_changes_strings`).
-/
import PlotLisp.Proofs.Evaluation.Reports
import PlotLisp.Proofs.Session.Schedule
import PlotLisp.Proofs.Source.Margins
import PlotLisp.Repl

namespace PlotLisp

open Source

/-! ## §1. The lines of an input. -/

theorem not_mem_of_mem_splitOn {text line : List Char} (h : line ∈ text.splitOn '\n') :
    '\n' ∉ line := by
  induction text generalizing line with
  | nil =>
    obtain rfl : line = [] := by simpa using h
    exact List.not_mem_nil
  | cons c text ih =>
    rw [List.splitOn_cons_eq_if_modifyHead] at h
    split_ifs at h with hc
    · rcases List.mem_cons.mp h with rfl | h
      · exact List.not_mem_nil
      · exact ih h
    · obtain ⟨first, rest, hsplit⟩ := List.exists_cons_of_ne_nil (List.splitOn_ne_nil '\n' text)
      rw [hsplit] at h ih
      rcases List.mem_cons.mp h with rfl | h
      · have hne : c ≠ '\n' := by simpa using hc
        exact List.not_mem_cons_of_ne_of_not_mem hne.symm (ih List.mem_cons_self)
      · exact ih (List.mem_cons_of_mem _ h)

namespace Repl

/-- The lines of an input are the lines of its text. -/
theorem exists_lines (text : String) : ∃ lines : List (List Char),
    linesOf text = lines.map String.ofList ∧ (∀ line ∈ lines, '\n' ∉ line)
      ∧ HasLines text.toList lines := by
  have hjoin : joinLines (text.toList.splitOn '\n') = text.toList :=
    List.intercalate_splitOn '\n'
  have hunbroken : ∀ line ∈ text.toList.splitOn '\n', '\n' ∉ line :=
    fun line hline => not_mem_of_mem_splitOn hline
  unfold linesOf
  dsimp only
  split_ifs with hlast
  · -- the text ends with a line feed
    obtain ⟨lines, hlines⟩ := List.getLast?_eq_some_iff.mp (beq_iff_eq.mp hlast)
    rw [hlines] at hjoin hunbroken ⊢
    rw [List.dropLast_concat]
    refine ⟨lines, rfl, fun line hline => hunbroken line (List.mem_append_left _ hline), .inr ?_⟩
    rw [← hjoin, joinLines_append lines (List.cons_ne_nil _ [])]
    simp [joinLines]
  · exact ⟨_, rfl, hunbroken, .inl hjoin.symm⟩

end Repl

/-! ## §2. Texts with the same tree. -/

/-- The answer to a program depends on its tree only. -/
theorem Interpreter.answerTo_same_program {text text' : String} {program : Expr}
    (h : parse text = .ok program) (h' : parse text' = .ok program) (interp : Interpreter) :
    interp.answerTo text = interp.answerTo text' := by
  rw [answerTo, answerTo, runInput, runInput, run_of_parse_ok ⟨inputName, text⟩ h,
    run_of_parse_ok ⟨inputName, text'⟩ h']
  cases (evaluate interp.limit program interp.env).1 with
  | ok value => rfl
  | error f => simp [Except.mapError]

/-- A control word is no program text. -/
theorem isProgram_of_parse {text : String} {program : Expr} (h : parse text = .ok program) :
    IsProgram text := by
  intro hmem
  simp only [List.mem_cons, List.not_mem_nil, or_false] at hmem
  have hstop : parse "stop" = .error ⟨0, .expression⟩ := by decide
  have hreset : parse "reset" = .error ⟨0, .expression⟩ := by decide
  have hexit : parse "exit" = .error ⟨0, .expression⟩ := by decide
  rcases hmem with rfl | rfl | rfl
  · exact absurd (hstop.symm.trans h) (by simp)
  · exact absurd (hreset.symm.trans h) (by simp)
  · exact absurd (hexit.symm.trans h) (by simp)

/-- Behind the same lines, two texts with the same tree are answered alike. -/
theorem outputs_same_program {text text' : String} {program : Expr}
    (h : parse text = .ok program) (h' : parse text' = .ok program) (inbox : List String)
    (interp : Interpreter) :
    interp.outputs (programs (inbox ++ [text])) = interp.outputs (programs (inbox ++ [text'])) := by
  induction inbox generalizing interp with
  | nil =>
    rw [List.nil_append, List.nil_append, programs_cons_of_isProgram (isProgram_of_parse h),
      programs_cons_of_isProgram (isProgram_of_parse h')]
    simp [interp.answerTo_same_program h h']
  | cons line inbox ih =>
    rw [List.cons_append, List.cons_append]
    by_cases hline : IsProgram line
    · rw [programs_cons_of_isProgram hline, programs_cons_of_isProgram hline,
        Interpreter.outputs_cons, Interpreter.outputs_cons, ih]
    · rw [programs_cons_of_not_isProgram hline, programs_cons_of_not_isProgram hline]

namespace Session

/-- What a session is answered that waits for a worker to take every line. -/
theorem await_eq (baseline interp : Interpreter) (inbox : List String) (outbox : List Output) :
    (await ⟨baseline, some ⟨interp, inbox, outbox, false⟩⟩).1
      = match outbox ++ interp.outputs (programs inbox) with
        | output :: _ => some output
        | [] => if inbox.any fun line => !decide (IsProgram line) then some notRunning else none := by
  unfold await settle receive?
  rw [Option.map_some, Worker.settle_eq]
  cases outbox ++ interp.outputs (programs inbox) with
  | nil => dsimp only; split_ifs <;> rfl
  | cons output rest => rfl

/-- **Two texts with the same tree are answered alike**, whatever is still to be received. -/
theorem eval_same_program {text text' : String} {program : Expr} (h : parse text = .ok program)
    (h' : parse text' = .ok program) (s : Session) : (s.eval text).1 = (s.eval text').1 := by
  have hprogram := isProgram_of_parse h
  have hprogram' := isProgram_of_parse h'
  obtain ⟨baseline, worker⟩ := s
  cases worker with
  | none => simp [eval, submit, isControl_ofLine, hprogram, hprogram']
  | some w =>
    obtain ⟨interp, inbox, outbox, hasEnded⟩ := w
    cases hasEnded with
    | true => simp [eval, submit, isControl_ofLine, hprogram, hprogram']
    | false =>
      have hsent {line : String} (hline : IsProgram line) :
          eval ⟨baseline, some ⟨interp, inbox, outbox, false⟩⟩ line
            = await ⟨baseline, some ⟨interp, inbox ++ [line], outbox, false⟩⟩ :=
        eval_of_sent hline (by simp [submit, isControl_ofLine, hline])
      rw [hsent hprogram, hsent hprogram', await_eq, await_eq, outputs_same_program h h']
      simp [hprogram, hprogram']

end Session

/-! ## §3. Lines of a program. -/

namespace Repl

/-- What has been collected when the lines were typed. -/
def collectedLines (lines : List (List Char)) : String :=
  String.ofList (joinLines (lines.map trim))

theorem isEmpty_collectedLines {lines : List (List Char)} (hne : lines ≠ [])
    (h : ∀ line ∈ lines, trim line ≠ []) : (collectedLines lines).isEmpty = false := by
  obtain ⟨first, rest, rfl⟩ := List.exists_cons_of_ne_nil hne
  have hlines : HasLines (joinLines (trim first :: rest.map trim)) (trim first :: rest.map trim) :=
    .inl rfl
  obtain ⟨tail, htail, -⟩ := hlines.exists_tail
  have hsome : trim first ++ tail ≠ [] :=
    List.append_ne_nil_of_left_ne_nil (h first List.mem_cons_self) _
  rw [← Bool.not_eq_true, String.isEmpty_iff, collectedLines, List.map_cons, htail]
  exact fun hempty => hsome (String.ofList_eq_empty_iff.mp hempty)

theorem collectedLines_append {lines : List (List Char)} (hne : lines ≠ []) (line : List Char) :
    collectedLines (lines ++ [line])
      = collectedLines lines ++ "\n" ++ String.ofList (trim line) := by
  have hfeed : "\n" = String.ofList ['\n'] := rfl
  rw [collectedLines, collectedLines, hfeed, ← String.ofList_append, ← String.ofList_append,
    joinLines_lineFeed (by simpa using hne), List.map_append,
    joinLines_append _ (by simp)]
  simp [joinLines]

namespace State

/-- What is written for lines that are typed one after the other, and what comes next. -/
def feedAll (s : State) : List String → List Emission × Next
  | [] => ([], .continue s)
  | line :: rest =>
      match s.feed line with
      | (written, .continue s') => (written ++ (s'.feedAll rest).1, (s'.feedAll rest).2)
      | (written, .quit) => (written, .quit)

theorem feedAll_cons {s s' : State} {line : String} {written : List Emission}
    (h : s.feed line = (written, .continue s')) (rest : List String) :
    s.feedAll (line :: rest) = (written ++ (s'.feedAll rest).1, (s'.feedAll rest).2) := by
  rw [feedAll, h]

theorem feedAll_singleton (s : State) (line : String) : s.feedAll [line] = s.feed line := by
  rw [feedAll]
  rcases s.feed line with ⟨written, next⟩
  cases next <;> simp [feedAll]

theorem feedAll_append {s s' : State} {lines : List String} {written : List Emission}
    (h : s.feedAll lines = (written, .continue s')) (rest : List String) :
    s.feedAll (lines ++ rest) = (written ++ (s'.feedAll rest).1, (s'.feedAll rest).2) := by
  induction lines generalizing s written with
  | nil =>
    cases h
    rfl
  | cons line lines ih =>
    cases hfed : s.feed line with
    | mk first next =>
      cases next with
      | quit => exact absurd h (by simp [feedAll, hfed])
      | «continue» s₁ =>
        rw [feedAll_cons hfed] at h
        obtain ⟨rfl, hnext⟩ := Prod.mk.inj h
        rw [List.cons_append, feedAll_cons hfed, ih (Prod.ext rfl hnext), List.append_assoc]

/-- The state once the lines were collected. -/
def collecting (s : State) (lines : List (List Char)) : State :=
  { s with collected := collectedLines lines }

/-- What is written once all of the lines are evaluated. -/
theorem written_evaluate (s : State) (lines : List (List Char)) :
    (s.collecting lines).evaluate.1
      = ((s.session.eval (collectedLines lines)).1.map (Emission.ofOutput s.json)).toList := rfl

/-- One line more is collected. -/
theorem collect_collecting (s : State) {lines : List (List Char)}
    (hlines : ∀ line ∈ lines, trim line ≠ []) {line : List Char} (hline : trim line ≠ []) :
    (s.collecting lines).collect (trim line)
      = if isComplete (joinLines ((lines ++ [line]).map trim)) then
          (s.collecting (lines ++ [line])).evaluate
        else ([], .continue (s.collecting (lines ++ [line]))) := by
  have hcollected : (if (collectedLines lines).isEmpty then "" else collectedLines lines ++ "\n")
      ++ String.ofList (trim line) = collectedLines (lines ++ [line]) := by
    by_cases hne : lines = []
    · subst hne
      simp [collectedLines, joinLines]
    · rw [isEmpty_collectedLines hne hlines, collectedLines_append hne]
      rfl
  have htyped : (collectedLines (lines ++ [line])).toList
      = joinLines ((lines ++ [line]).map trim) := String.toList_ofList
  unfold collect collecting
  dsimp only
  rw [hcollected, htyped, List.isEmpty_eq_false_iff.mpr hline, Bool.or_false]

end State

/-- **One line more of a program** is collected, and all of it is evaluated with the last line. -/
theorem feed_next {text : List Char} {lines others : List (List Char)} {line : List Char}
    {program : Expr} (h : InLines text (lines ++ line :: others) program) (s : State) :
    (s.collecting lines).feed (String.ofList line)
      = if others = [] then (s.collecting (lines ++ [line])).evaluate
        else ([], .continue (s.collecting (lines ++ [line]))) := by
  have hline : trim line ≠ [] := h.notBlank line (by simp)
  have hlines : ∀ line ∈ lines, trim line ≠ [] :=
    fun line hmem => h.notBlank line (List.mem_append_left _ hmem)
  have hcomplete : isComplete (joinLines ((lines ++ [line]).map trim)) = decide (others = []) := by
    cases others with
    | nil => simpa using h.isComplete_of_all_lines
    | cons next rest =>
      rw [List.append_cons] at h
      simpa using h.isComplete_of_first_lines (by simp) (List.cons_ne_nil next rest)
  have hcollect := s.collect_collecting hlines hline
  rw [hcomplete] at hcollect
  unfold State.feed
  rw [String.toList_ofList]
  cases lines with
  | nil =>
    -- the line that opens the program is no command
    obtain ⟨first, rest, hfirst, hhead⟩ := h.exists_first
    obtain ⟨rfl, -⟩ := List.cons.inj hfirst
    have hcommand : isCommand (trim line) = false := by simp [isCommand, hhead]
    have hprompt : (s.collecting []).collected.isEmpty = true := rfl
    simpa [hprompt, hline, hcommand] using hcollect
  | cons first rest =>
    have hprompt : (s.collecting (first :: rest)).collected.isEmpty = false :=
      isEmpty_collectedLines (List.cons_ne_nil first rest) hlines
    simpa [hprompt] using hcollect

/-- Nothing is evaluated before the last line. -/
theorem feedAll_of_first_lines {text : List Char} {lines others : List (List Char)}
    {program : Expr} (h : InLines text (lines ++ others) program) (hmore : others ≠ [])
    {s : State} (hprompt : s.collected = "") :
    s.feedAll (lines.map String.ofList) = ([], .continue (s.collecting lines)) := by
  induction lines using List.reverseRecOn generalizing others with
  | nil =>
    have hnone : s.collecting [] = s := by
      obtain ⟨session, collected, json⟩ := s
      obtain rfl : collected = "" := hprompt
      rfl
    rw [hnone]
    rfl
  | append_singleton lines line ih =>
    rw [List.append_assoc, List.singleton_append] at h
    have hnext := feed_next h s
    rw [if_neg hmore] at hnext
    rw [List.map_append, List.map_singleton, State.feedAll_append (ih h (List.cons_ne_nil _ _)),
      State.feedAll_singleton, hnext]
    rfl

/-- With the last line everything is evaluated that was collected. -/
theorem feedAll_of_all_lines {text : List Char} {lines : List (List Char)} {program : Expr}
    (h : InLines text lines program) {s : State} (hprompt : s.collected = "") :
    s.feedAll (lines.map String.ofList) = (s.collecting lines).evaluate := by
  rcases List.eq_nil_or_concat lines with rfl | ⟨earlier, line, hlast⟩
  · obtain ⟨first, rest, hfirst, -⟩ := h.exists_first
    cases hfirst
  · rw [List.concat_eq_append] at hlast
    subst hlast
    have hlast := feed_next h s
    rw [if_pos rfl] at hlast
    rw [List.map_append, List.map_singleton,
      State.feedAll_append (feedAll_of_first_lines h (List.cons_ne_nil _ _) hprompt),
      State.feedAll_singleton, hlast, List.nil_append]

/-- **TYPING A PROGRAM LINE BY LINE.**  At an empty prompt, nothing is evaluated before the last
line of a program, and with it the lines that were collected, once.  If white space at the margins
of the lines stands in comments or between tokens, they make up a program with the same tree, and
what is written is what the session answers the whole text with. -/
theorem typed_lines_are_evaluated_once (s : State) (hprompt : s.collected = "") {text : String}
    {program : Expr} (hparse : parse text = .ok program) (hopens : OpensOnFirstLine text.toList)
    (hcloses : ClosesOnLastLine text.toList)
    (hblank : ∀ line ∈ linesOf text, trim line.toList ≠ []) :
    (∀ first rest, linesOf text = first ++ rest → rest ≠ [] →
        s.feedAll first = ([], .continue (s.collecting (first.map String.toList))))
      ∧ s.feedAll (linesOf text) = (s.collecting ((linesOf text).map String.toList)).evaluate
      ∧ (MarginsAreGaps text.toList →
          parse (collectedLines ((linesOf text).map String.toList)) = .ok program
            ∧ (s.feedAll (linesOf text)).1
              = ((s.session.eval text).1.map (Emission.ofOutput s.json)).toList) := by
  obtain ⟨lines, hlines, hunbroken, hsplit⟩ := exists_lines text
  have htoList (some : List (List Char)) : (some.map String.ofList).map String.toList = some := by
    simp
  rw [hlines] at hblank ⊢
  rw [htoList]
  have h : InLines text.toList lines program :=
    { accepted := hparse
      split := hsplit
      unbroken := hunbroken
      notBlank := fun line hline => by
        simpa using hblank (String.ofList line) (List.mem_map_of_mem hline)
      opens := hopens
      closes := hcloses }
  have hall := feedAll_of_all_lines h hprompt
  refine ⟨fun first rest hfirst hrest => ?_, hall, fun hgaps => ?_⟩
  · obtain ⟨done, others, rfl, rfl, rfl⟩ := List.map_eq_append_iff.mp hfirst
    rw [htoList]
    exact feedAll_of_first_lines h (by simpa using hrest) hprompt
  · -- the margins are gaps, so trimming leaves the tree as it is
    have htyped : parse (collectedLines lines) = .ok program := by
      rw [parse, collectedLines, String.toList_ofList]
      exact h.parse_trimmed hgaps
    refine ⟨htyped, ?_⟩
    rw [hall, State.written_evaluate, Session.eval_same_program htyped hparse]

/-- An indented line makes no difference. -/
theorem typed_lines_are_evaluated_once_indented :
    (start (.fresh 1000) false).feedAll ["(f"]
        = ([], .continue ((start (.fresh 1000) false).collecting [['(', 'f']]))
      ∧ ((start (.fresh 1000) false).feedAll ["(f", " x)"]).1
        = (((start (.fresh 1000) false).session.eval "(f\n x)").1.map
            (Emission.ofOutput false)).toList := by
  -- nothing of this depends on what the program evaluates to
  generalize Interpreter.fresh 1000 = baseline
  have htext : "(f\n x)".toList = ['(', 'f', '\n', ' ', 'x', ')'] := rfl
  have hlines : linesOf "(f\n x)" = ["(f", " x)"] := by decide
  have hparse : parse "(f\n x)" = .ok (.node (.symbol "f") [.symbol "x"] []) := by decide
  have houtside : Source.Grammar.Outside ['(', 'f', '\n', ' ', 'x'] :=
    located_region ['(', 'f', '\n', ' ', 'x']
  have hgaps : MarginsAreGaps "(f\n x)".toList := by
    rw [htext]
    exact marginsAreGaps_of_count (by decide)
  obtain ⟨hfirst, -, hall⟩ := typed_lines_are_evaluated_once (start baseline false) rfl hparse
    ⟨[], _, htext, by simp⟩ ⟨_, [], htext, houtside, .none, by simp⟩ (by rw [hlines]; decide)
  rw [hlines] at hfirst hall
  exact ⟨hfirst ["(f"] [" x)"] rfl (by simp), (hall hgaps).2⟩

/-- A text that is read as a string is answered with the string. -/
theorem eval_string {text contents : String} (h : parse text = .ok (.string contents)) :
    ((start ⟨.empty, 1, none⟩ false).session.eval text).1 = some (.result (.string contents)) := by
  have hprogram := isProgram_of_parse h
  have hrun : (⟨.empty, 1, none⟩ : Interpreter).answerTo text = .result (.string contents) := by
    rw [Interpreter.answerTo, Interpreter.runInput,
      Interpreter.run_of_parse_ok ⟨inputName, text⟩ h]
    rfl
  have hsent : (start ⟨.empty, 1, none⟩ false).session.eval text
      = Session.await ⟨⟨.empty, 1, none⟩, some ⟨⟨.empty, 1, none⟩, [text], [], false⟩⟩ :=
    Session.eval_of_sent hprogram (by simp [start, Session.fresh, Session.submit, Worker.fresh,
      isControl_ofLine, hprogram])
  rw [hsent, Session.await_eq, programs_cons_of_isProgram hprogram]
  simp [hrun]

/-- A string that goes on over the end of a line loses the white space around it. -/
theorem typing_changes_strings :
    ∃ (s : State) (text : String) (program : Expr), s.collected = "" ∧ s.session.isRunning = true
      ∧ parse text = .ok program ∧ OpensOnFirstLine text.toList ∧ ClosesOnLastLine text.toList
      ∧ (∀ line ∈ linesOf text, trim line.toList ≠ [])
      ∧ (s.feedAll (linesOf text)).1
          ≠ ((s.session.eval text).1.map (Emission.ofOutput s.json)).toList := by
  have hlines : linesOf "(\"a \n b\")" = ["(\"a ", " b\")"] := by decide
  have hparse : parse "(\"a \n b\")" = .ok (.string "a \n b") := by decide +kernel
  have hparse' : parse "(\"a\nb\")" = .ok (.string "a\nb") := by decide +kernel
  have houtside : Source.Grammar.Outside ['(', '"', 'a', ' ', '\n', ' ', 'b', '"'] :=
    located_region ['(', '"', 'a', ' ', '\n', ' ', 'b', '"']
  have hopens : OpensOnFirstLine "(\"a \n b\")".toList := ⟨[], _, rfl, by simp⟩
  have hcloses : ClosesOnLastLine "(\"a \n b\")".toList :=
    ⟨_, [], rfl, houtside, .none, by simp⟩
  have htyped : ((start ⟨.empty, 1, none⟩ false).feedAll ["(\"a ", " b\")"]).1
      = [Emission.ofOutput false (.result (.string "a\nb"))] := by
    have h : InLines "(\"a \n b\")".toList [['(', '"', 'a', ' '], [' ', 'b', '"', ')']]
        (.string "a \n b") :=
      ⟨hparse, .inl rfl, by decide, by decide, hopens, hcloses⟩
    have hcollected : collectedLines [['(', '"', 'a', ' '], [' ', 'b', '"', ')']]
        = "(\"a\nb\")" := by decide
    have hall := feedAll_of_all_lines h (s := start ⟨.empty, 1, none⟩ false) rfl
    have hwritten := congrArg Prod.fst hall
    rw [State.written_evaluate, hcollected, eval_string hparse'] at hwritten
    exact hwritten
  refine ⟨start ⟨.empty, 1, none⟩ false, "(\"a \n b\")", _, rfl, rfl, hparse,
    hopens, hcloses, ?_, ?_⟩
  · rw [hlines]
    decide
  · rw [hlines, htyped, eval_string hparse]
    decide +kernel

end Repl

end PlotLisp
