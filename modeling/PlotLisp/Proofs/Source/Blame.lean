/-
  PlotLisp.Proofs.Source.Blame
  ──────────────────────────────────────
  **A TEXT IS BLAMED WHERE IT STOPS BEING A PROGRAM.**

  A text that is no program has a first token that no program has in its
  place, or ends too early.  It is blamed there, and what comes before can go
  on to a program:

    • `Lexed text lexemes rest` — the text is these lexemes with gaps between
      them, up to `rest`; `Begins lexemes` — some program begins with them;
    • `exists_stop` — the parser stops before the first token that it cannot
      take, or at the end, by induction on the length of the text;
    • `Lexed.replace` — the lexemes stay the same if the text ends behind
      them, or goes on with a line feed;
    • `run_completion` — from wherever the parser stops, some text finishes
      the program.
-/
import PlotLisp.Proofs.Source.Completeness
import PlotLisp.Proofs.Source.Offsets

namespace PlotLisp.Source

open Grammar

/-! ## §1. The lexemes of a text. -/

/-- The text is these lexemes, with gaps between and behind them, and then `rest`. -/
inductive Lexed : List Char → List Lexeme → List Char → Prop where
  | gap {text rest} : Gap text rest → Lexed text [] rest
  | token {text s lexeme s' lexemes rest} : Gap text s → Scans s lexeme s' →
      Lexed s' lexemes rest → Lexed text (lexeme :: lexemes) rest

/-- Some program begins with these lexemes. -/
def Begins (lexemes : List Lexeme) : Prop :=
  ∃ text rest e, Lexed text lexemes rest ∧ Program text e

variable {text rest : List Char} {lexemes : List Lexeme}

/-- The scanner finds the lexemes, then what `rest` holds. -/
theorem Lexed.tokens (h : Lexed text lexemes rest) :
    ∃ scanned, text = scanned ++ rest ∧ ∀ offset, ∃ found, found.map Token.lexeme = lexemes
      ∧ tokensFrom offset text = found ++ tokensFrom (offset + byteLength scanned) rest := by
  induction h with
  | gap hg =>
    obtain ⟨skipped, hsplit, ht⟩ := tokensFrom_gap hg
    exact ⟨skipped, hsplit, fun offset => ⟨[], rfl, ht offset⟩⟩
  | @token _ s lexeme _ _ rest hg hs _ ih =>
    obtain ⟨skipped, rfl, hgap⟩ := tokensFrom_gap hg
    obtain ⟨scanned, rfl, -, hscan⟩ := tokensFrom_scans hs
    obtain ⟨others, rfl, hothers⟩ := ih
    refine ⟨skipped ++ (scanned ++ others), by simp, fun offset => ?_⟩
    obtain ⟨found, rfl, hfound⟩ := hothers (offset + byteLength skipped + byteLength scanned)
    refine ⟨⟨offset + byteLength skipped, lexeme⟩ :: found, rfl, ?_⟩
    rw [hgap, hscan, hfound, List.cons_append, byteLength_append, byteLength_append]
    simp only [Nat.add_assoc]

/-- A text has the lexemes that it has up to `rest`, and no others. -/
theorem Lexed.unique {lexemes' : List Lexeme} (h : Lexed text lexemes rest)
    (h' : Lexed text lexemes' rest) : lexemes' = lexemes := by
  obtain ⟨scanned, hsplit, htokens⟩ := h.tokens
  obtain ⟨scanned', hsplit', htokens'⟩ := h'.tokens
  obtain rfl : scanned' = scanned := List.append_cancel_right (hsplit'.symm.trans hsplit)
  obtain ⟨found, rfl, hfound⟩ := htokens 0
  obtain ⟨found', rfl, hfound'⟩ := htokens' 0
  rw [List.append_cancel_right (hfound'.symm.trans hfound)]

/-! ## §2. The parser on lexemes. -/

namespace Progress

/-- Read lexemes, unless one cannot stand where it stands. -/
def takeAll? (p : Progress) (lexemes : List Lexeme) : Option Progress := lexemes.foldlM take? p

@[simp] theorem takeAll?_nil (p : Progress) : p.takeAll? [] = some p := rfl

theorem takeAll?_cons (p : Progress) (lexeme : Lexeme) (lexemes : List Lexeme) :
    p.takeAll? (lexeme :: lexemes) = (p.take? lexeme).bind fun p' => p'.takeAll? lexemes := rfl

theorem takeAll?_append (p : Progress) (left right : List Lexeme) :
    p.takeAll? (left ++ right) = (p.takeAll? left).bind fun p' => p'.takeAll? right := by
  unfold takeAll?
  rw [List.foldlM_append]
  rfl

/-- What is taken is no error. -/
theorem ne_failed_of_takeAll? {p p' : Progress} {lexemes : List Lexeme}
    (h : p.takeAll? lexemes = some p') (hp : ∀ error, p ≠ .failed error) (error : ParseError) :
    p' ≠ .failed error := by
  induction lexemes generalizing p with
  | nil =>
    obtain rfl : p = p' := Option.some.inj h
    exact hp error
  | cons lexeme lexemes ih =>
    obtain ⟨next, hnext, h⟩ := Option.bind_eq_some_iff.mp h
    exact ih h fun error hfailed => take?_ne_failed error (hfailed ▸ hnext)

theorem foldl_push_of_takeAll? {p p' : Progress} {found : List Token}
    (hp : ∀ error, p ≠ .failed error) (h : p.takeAll? (found.map Token.lexeme) = some p') :
    found.foldl push p = p' := by
  induction found generalizing p with
  | nil => exact Option.some.inj h
  | cons token found ih =>
    obtain ⟨next, hnext, h⟩ := Option.bind_eq_some_iff.mp h
    rw [List.foldl_cons, push_of_take?_some hnext]
    exact ih (fun error hfailed => take?_ne_failed error (hfailed ▸ hnext)) h

theorem foldl_push_of_takeAll?_eq_none {p : Progress} {found : List Token}
    (h : p.takeAll? (found.map Token.lexeme) = none) :
    ∃ error, found.foldl push p = .failed error := by
  induction found generalizing p with
  | nil => exact absurd h (by simp)
  | cons token found ih =>
    rw [List.foldl_cons]
    cases hnext : p.take? token.lexeme with
    | none =>
      obtain ⟨error, herror⟩ := push_of_take?_none token hnext
      exact ⟨error, by rw [herror, push_failed]⟩
    | some next =>
      rw [List.map_cons, takeAll?_cons, hnext] at h
      rw [push_of_take?_some hnext]
      exact ih h

end Progress

/-- The parser reads the lexemes and goes on with `rest`. -/
theorem Lexed.run (h : Lexed text lexemes rest) {p p' : Progress}
    (hp : ∀ error, p ≠ .failed error) (htake : p.takeAll? lexemes = some p') :
    ∃ scanned, text = scanned ++ rest
      ∧ ∀ offset, run p offset text = run p' (offset + byteLength scanned) rest := by
  obtain ⟨scanned, hsplit, htokens⟩ := h.tokens
  refine ⟨scanned, hsplit, fun offset => ?_⟩
  obtain ⟨found, rfl, hfound⟩ := htokens offset
  unfold Source.run
  rw [hfound, List.foldl_append, Progress.foldl_push_of_takeAll? hp htake]

/-- No program begins with lexemes that the parser does not take. -/
theorem not_begins (h : Progress.before.takeAll? lexemes = none) : ¬ Begins lexemes := by
  rintro ⟨text, rest, e, hlexed, hprogram⟩
  obtain ⟨scanned, -, htokens⟩ := hlexed.tokens
  obtain ⟨found, rfl, hfound⟩ := htokens 0
  obtain ⟨error, herror⟩ := Progress.foldl_push_of_takeAll?_eq_none h
  have hok := parseChars_of_program hprogram
  have hrun : run .before 0 text = .failed error := by
    unfold run
    rw [hfound, List.foldl_append, herror, Progress.push_failed]
  have hfinish : (run .before 0 text).finish (byteLength text) = .ok e := hok
  rw [hrun] at hfinish
  exact absurd hfinish (by simp [Progress.finish])

/-! ## §3. Where the parser stops. -/

/-- The parser takes lexemes from `p` on, up to the end or to a token that it cannot take, and
that is where and why it stops. -/
def StopsWith (p : Progress) (offset : Nat) (text : List Char) (error : ParseError) : Prop :=
  ∃ before after lexemes p', text = before ++ after
    ∧ error = ⟨offset + byteLength before, p'.expected⟩
    ∧ Lexed text lexemes after ∧ p.takeAll? lexemes = some p'
    ∧ (after = [] ∨ ∃ lexeme rest, Scans after lexeme rest ∧ p'.take? lexeme = none)

namespace StopsWith

variable {s : List Char} {p next : Progress} {lexeme : Lexeme} {error : ParseError}

theorem at_end (hg : Gap text []) (p : Progress) (offset : Nat) :
    StopsWith p offset text ⟨offset + byteLength text, p.expected⟩ :=
  ⟨text, [], [], p, (List.append_nil _).symm, rfl, .gap hg, rfl, .inl rfl⟩

/-- The parser stops before a token that it cannot take. -/
theorem at_token {skipped : List Char} (hg : Gap (skipped ++ s) s) (hs : Scans s lexeme rest)
    (htake : p.take? lexeme = none) (offset : Nat) :
    StopsWith p offset (skipped ++ s) ⟨offset + byteLength skipped, p.expected⟩ :=
  ⟨skipped, s, [], p, rfl, rfl, .gap hg, rfl, .inr ⟨lexeme, rest, hs, htake⟩⟩

/-- A token that it takes is in front of the others. -/
theorem behind_token {skipped scanned : List Char} {offset : Nat}
    (hg : Gap (skipped ++ (scanned ++ rest)) (scanned ++ rest))
    (hs : Scans (scanned ++ rest) lexeme rest) (htake : p.take? lexeme = some next)
    (h : StopsWith next (offset + byteLength skipped + byteLength scanned) rest error) :
    StopsWith p offset (skipped ++ (scanned ++ rest)) error := by
  obtain ⟨before, after, lexemes, p', rfl, rfl, hlexed, htakes, hstop⟩ := h
  refine ⟨skipped ++ (scanned ++ before), after, lexeme :: lexemes, p', by simp, ?_,
    .token hg hs hlexed, ?_, hstop⟩
  · simp only [byteLength_append, Nat.add_assoc]
  · rw [Progress.takeAll?_cons, htake]
    exact htakes

end StopsWith

/-- A parser that has failed has its error. -/
theorem finish_run_failed (error : ParseError) (offset size : Nat) (text : List Char) :
    (run (.failed error) offset text).finish size = .error error := by
  unfold run
  rw [Progress.push_failed]
  rfl

/-- **The parser stops before the first token that it cannot take, or at the end.** -/
theorem exists_stop {error : ParseError} :
    ∀ (text : List Char) (p : Progress) (offset : Nat), (∀ error, p ≠ .failed error) →
      (run p offset text).finish (offset + byteLength text) = .error error →
      StopsWith p offset text error := by
  intro text
  induction h : text.length using Nat.strong_induction_on generalizing text with
  | _ n ih =>
    intro p offset hp hrun
    obtain ⟨s, hg, hs⟩ := exists_gap text
    cases s with
    | nil =>
      rw [run_end hg] at hrun
      have hstop := StopsWith.at_end hg p offset
      cases p with
      | after e => cases hrun
      | failed error => exact absurd rfl (hp error)
      | _ => exact Except.error.inj hrun ▸ hstop
    | cons c s =>
      obtain ⟨hb, hc⟩ := hs c rfl
      obtain ⟨lexeme, rest, hscan⟩ := exists_scans hb hc s
      obtain ⟨skipped, rfl, hgap⟩ := tokensFrom_gap hg
      obtain ⟨scanned, hsplit, -, hnext⟩ := tokensFrom_scans hscan
      have hlength : rest.length < n := by
        have := hscan.length_lt
        rw [← h, List.length_append]
        omega
      have hstep : run p offset (skipped ++ c :: s)
          = run (p.push ⟨offset + byteLength skipped, lexeme⟩)
              (offset + byteLength skipped + byteLength scanned) rest := by
        unfold run
        rw [hgap, hnext, List.foldl_cons]
      rw [hstep, Progress.push_eq hp] at hrun
      cases htake : p.take? lexeme with
      | none =>
        -- the first error stays
        rw [htake, Option.getD_none, finish_run_failed] at hrun
        exact Except.error.inj hrun ▸ .at_token hg hscan htake offset
      | some next =>
        rw [hsplit] at hg hscan hrun ⊢
        refine .behind_token hg hscan htake (ih rest.length hlength rest rfl next _ ?_ ?_)
        · exact fun error hfailed => Progress.take?_ne_failed error (hfailed ▸ htake)
        · rw [htake, Option.getD_some, byteLength_append, byteLength_append] at hrun
          simpa only [Nat.add_assoc] using hrun

/-! ## §4. Texts that are cut off and go on. -/

/-- What may stand in the place of `rest` behind a token or a gap: what starts with the same
character, and what ends the line. -/
def Replaces (rest' rest : List Char) : Prop := rest'.head? = rest.head? ∨ LineEnds rest'

variable {rest' : List Char}

theorem Replaces.append (h : Replaces rest' rest) (left : List Char) :
    Replaces (left ++ rest') (left ++ rest) := by
  cases left with
  | nil => exact h
  | cons c left => exact .inl rfl

theorem Replaces.lineEnds (h : Replaces rest' rest) (hrest : LineEnds rest) : LineEnds rest' := by
  rcases h with h | h
  · unfold LineEnds
    rw [h]
    exact hrest
  · exact h

theorem Replaces.delimited (h : Replaces rest' rest) (hrest : ∀ c ∈ rest.head?, Delimiter c) :
    ∀ c ∈ rest'.head?, Delimiter c := by
  rcases h with h | h
  · rw [h]
    exact hrest
  · intro c hc
    rw [h c hc]
    exact .inl (by simp [Blank])

theorem Grammar.Gap.replace (h : Gap text rest) (hrest : Replaces rest' rest) :
    ∃ skipped, text = skipped ++ rest ∧ Gap (skipped ++ rest') rest' := by
  induction h with
  | none => exact ⟨[], rfl, .none⟩
  | @blank c text rest hc _ ih =>
    obtain ⟨skipped, rfl, hgap⟩ := ih hrest
    exact ⟨c :: skipped, rfl, .blank hc hgap⟩
  | @comment body text rest hb ht _ ih =>
    obtain ⟨skipped, rfl, hgap⟩ := ih hrest
    refine ⟨';' :: body ++ skipped, by simp, ?_⟩
    rw [List.append_assoc]
    exact .comment hb ((hrest.append skipped).lineEnds ht) hgap

/-- A token that is not wrong in itself ends where it ends, whatever follows. -/
theorem Scans.replace {lexeme : Lexeme} (h : Scans text lexeme rest) (hvalid : lexeme ≠ .invalid)
    (hrest : Replaces rest' rest) :
    ∃ scanned, text = scanned ++ rest ∧ Scans (scanned ++ rest') lexeme rest' := by
  cases h with
  | opening => exact ⟨['('], rfl, .opening⟩
  | closing => exact ⟨[')'], rfl, .closing⟩
  | word hw => exact ⟨_, rfl, .word ⟨hw.nonempty, hw.inner, hrest.delimited hw.ends⟩⟩
  | @string body contents _ hq =>
    refine ⟨'"' :: body ++ ['"'], by simp, ?_⟩
    rw [List.append_assoc]
    exact .string hq
  | unended => exact absurd rfl hvalid
  | unendedEscape => exact absurd rfl hvalid

/-- **Lexemes stay the same** if the text ends behind them or goes on with a line feed. -/
theorem Lexed.replace (h : Lexed text lexemes rest) (hvalid : .invalid ∉ lexemes)
    (hrest : Replaces rest' rest) :
    ∃ before, text = before ++ rest ∧ Lexed (before ++ rest') lexemes rest' := by
  induction h with
  | gap hg =>
    obtain ⟨skipped, hsplit, hg⟩ := hg.replace hrest
    exact ⟨skipped, hsplit, .gap hg⟩
  | @token text s lexeme s' lexemes rest hg hs _ ih =>
    rw [List.mem_cons, not_or] at hvalid
    obtain ⟨before, rfl, hlexed⟩ := ih hvalid.2 hrest
    obtain ⟨scanned, rfl, hscan⟩ := hs.replace (Ne.symm hvalid.1) (hrest.append before)
    obtain ⟨skipped, rfl, hgap⟩ := hg.replace ((hrest.append before).append scanned)
    refine ⟨skipped ++ (scanned ++ before), by simp, ?_⟩
    simp only [List.append_assoc]
    exact .token hgap hscan hlexed

namespace Progress

/-- What finishes the program. -/
def completion : Progress → List Char
  | .before => ['(', 'a', ')']
  | .opened outer => 'a' :: ')' :: List.replicate outer.length ')'
  | .inside _ outer => ')' :: List.replicate outer.length ')'
  | .after _ | .failed _ => []

/-- A lexeme that is wrong in itself is never taken. -/
theorem invalid_not_mem_of_takeAll? {p p' : Progress} {lexemes : List Lexeme}
    (h : p.takeAll? lexemes = some p') : .invalid ∉ lexemes := by
  induction lexemes generalizing p with
  | nil => exact List.not_mem_nil
  | cons lexeme lexemes ih =>
    obtain ⟨next, hnext, h⟩ := Option.bind_eq_some_iff.mp h
    rw [List.mem_cons, not_or]
    refine ⟨?_, ih h⟩
    rintro rfl
    cases p <;> cases hnext

end Progress

theorem run_closings (outer : List Open) :
    ∀ (e : Expr) (offset : Nat), ∃ program,
      run (Progress.close e outer) offset (List.replicate outer.length ')') = .after program := by
  induction outer with
  | nil => exact fun e _ => ⟨e, rfl⟩
  | cons current outer ih =>
    intro e offset
    obtain ⟨start, next, hstep⟩ := run_scans .none
      (@Scans.closing (List.replicate outer.length ')')) (Progress.close e (current :: outer)) offset
    obtain ⟨program, hprogram⟩ := ih (.node current.head (e :: current.children).reverse []) next
    exact ⟨program, hstep.trans hprogram⟩

theorem run_inside (current : Open) (outer : List Open) (offset : Nat) :
    ∃ program, run (.inside current outer) offset (Progress.inside current outer).completion
      = .after program := by
  obtain ⟨start, next, hstep⟩ := run_scans .none
    (@Scans.closing (List.replicate outer.length ')')) (.inside current outer) offset
  obtain ⟨program, hprogram⟩ :=
    run_closings outer (.node current.head current.children.reverse []) next
  exact ⟨program, hstep.trans hprogram⟩

theorem run_opened (outer : List Open) (offset : Nat) :
    ∃ program, run (.opened outer) offset (Progress.opened outer).completion = .after program := by
  have hword : Word ['a'] (')' :: List.replicate outer.length ')') :=
    ⟨by simp, by simp [Delimiter, Blank], by simp [Delimiter]⟩
  obtain ⟨start, next, hstep⟩ := run_scans .none (.word hword) (.opened outer) offset
  obtain ⟨program, hprogram⟩ := run_inside ⟨.symbol "a", []⟩ outer next
  exact ⟨program, hstep.trans hprogram⟩

/-- **From wherever nothing is wrong, the program can be finished.** -/
theorem run_completion {p : Progress} (hp : ∀ error, p ≠ .failed error) (offset : Nat) :
    ∃ program, run p offset ('\n' :: p.completion) = .after program := by
  obtain ⟨next, hgap⟩ := run_gap (.blank (c := '\n') (by simp [Blank]) .none) p offset
  rw [hgap]
  cases p with
  | before =>
    obtain ⟨start, next', hstep⟩ := run_scans .none (@Scans.opening ['a', ')']) .before next
    obtain ⟨program, hprogram⟩ := run_opened [] next'
    exact ⟨program, hstep.trans hprogram⟩
  | opened outer => exact run_opened outer next
  | inside current outer => exact run_inside current outer next
  | after e => exact ⟨e, rfl⟩
  | failed error => exact absurd rfl (hp error)

/-! ## §5. Malformed texts. -/

/-- A text that is no program stops being one somewhere. -/
theorem exists_blame {error : ParseError} (h : parseChars text = .error error) :
    ∃ before after lexemes p, text = before ++ after ∧ error = ⟨byteLength before, p.expected⟩
      ∧ Lexed text lexemes after ∧ Progress.before.takeAll? lexemes = some p
      ∧ (after = [] ∨ ∃ lexeme rest, Scans after lexeme rest ∧ p.take? lexeme = none) := by
  have hrun : (run .before 0 text).finish (0 + byteLength text) = .error error := by
    rw [Nat.zero_add]
    exact h
  obtain ⟨before, after, lexemes, p, hsplit, herror, hstop⟩ :=
    exists_stop text .before 0 (by simp) hrun
  rw [Nat.zero_add] at herror
  exact ⟨before, after, lexemes, p, hsplit, herror, hstop⟩

/-- What the parser has taken, and the program that it can become. -/
theorem exists_finished {before after : List Char} {p : Progress}
    (hlexed : Lexed (before ++ after) lexemes after)
    (htake : Progress.before.takeAll? lexemes = some p) :
    ∃ e, Lexed (before ++ '\n' :: p.completion) lexemes ('\n' :: p.completion)
      ∧ parseChars (before ++ '\n' :: p.completion) = .ok e := by
  have hends : LineEnds ('\n' :: p.completion) := fun c hc => (by simpa using hc : '\n' = c).symm
  obtain ⟨before', hsplit, hlexed'⟩ :=
    hlexed.replace (Progress.invalid_not_mem_of_takeAll? htake) (.inr hends)
  obtain rfl : before = before' := List.append_cancel_right hsplit
  obtain ⟨scanned, -, hrun⟩ := hlexed'.run (by simp) htake
  obtain ⟨e, he⟩ := run_completion (Progress.ne_failed_of_takeAll? htake (by simp))
    (0 + byteLength scanned)
  exact ⟨e, hlexed', (parseChars_eq_ok_iff _ e).mpr ((hrun 0).trans he)⟩

/-- **A MALFORMED TEXT IS BLAMED WHERE IT STOPS BEING A PROGRAM.**  The span is empty and lies in the
text, between two characters, where the first token stands that no program has in its place, or at
the end.  Everything before it is correct: some text after it makes up a program. -/
theorem blamed_where_a_viable_prefix_ends (source : SourceText) {d : Fault}
    (h : source.parse = .error d) :
    d.span.length = 0 ∧ d.span.offset ≤ source.text.utf8ByteSize
      ∧ ∃ before after lexemes, source.text.toList = before ++ after
        ∧ byteLength before = d.span.offset
        ∧ Lexed source.text.toList lexemes after ∧ Begins lexemes
        ∧ (after = []
          ∨ ∃ lexeme rest, Scans after lexeme rest ∧ ¬ Begins (lexemes ++ [lexeme]))
        ∧ ∃ (rest : String) (e : Expr), parse (String.ofList before ++ rest) = .ok e := by
  cases hparse : parse source.text with
  | ok e => simp [SourceText.parse, hparse] at h
  | error error =>
    obtain rfl : Fault.ofParseError source error = d := by
      simpa [SourceText.parse, hparse] using h
    obtain ⟨before, after, lexemes, p, hsplit, rfl, hlexed, htake, hstop⟩ := exists_blame hparse
    obtain ⟨e, hfinished, haccept⟩ := exists_finished (hsplit ▸ hlexed) htake
    refine ⟨rfl, ?_, before, after, lexemes, hsplit, rfl, hlexed,
      ⟨_, _, e, hfinished, program_of_parseChars haccept⟩, ?_,
      String.ofList ('\n' :: p.completion), e, ?_⟩
    · rw [← byteLength_toList, hsplit, byteLength_append]
      exact Nat.le_add_right _ _
    · refine hstop.imp_right ?_
      rintro ⟨lexeme, rest, hscan, hnone⟩
      refine ⟨lexeme, rest, hscan, not_begins ?_⟩
      rw [Progress.takeAll?_append, htake]
      simp [Progress.takeAll?_cons, hnone]
    · rw [parse, String.toList_append, String.toList_ofList, String.toList_ofList]
      exact haccept

/-- A parenthesis in a comment opens nothing, and an exponent without digits is blamed where its
number starts, counted in bytes. -/
theorem blamed_where_a_viable_prefix_ends_behind_comments :
    ∃ d, (⟨inputName, "(é ; (\n 1e)"⟩ : SourceText).parse = .error d ∧ d.span = ⟨9, 0⟩
      ∧ ∃ before after lexemes, "(é ; (\n 1e)".toList = before ++ after
        ∧ byteLength before = 9 ∧ Lexed "(é ; (\n 1e)".toList lexemes after ∧ Begins lexemes
        ∧ (after = []
          ∨ ∃ lexeme rest, Scans after lexeme rest ∧ ¬ Begins (lexemes ++ [lexeme]))
        ∧ ∃ (rest : String) (e : Expr), parse (String.ofList before ++ rest) = .ok e := by
  have h : (⟨inputName, "(é ; (\n 1e)"⟩ : SourceText).parse
      = .error ((parsing ⟨inputName, "(é ; (\n 1e)"⟩).report (.malformed .expression) ⟨9, 0⟩) := by
    decide +kernel
  exact ⟨_, h, rfl, (blamed_where_a_viable_prefix_ends _ h).2.2⟩

end PlotLisp.Source
