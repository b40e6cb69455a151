/-
  PlotLisp.Proofs.Source.Scanning
  ──────────────────────────────────────
  **WHAT THE SCANNER FINDS.**

  The scanner is a fold over characters, the grammar cuts a text into parts.
  The two meet here, part by part, with `tokensFrom offset text` for the
  tokens of a text that starts between tokens:

    • a gap leaves no token (`tokensFrom_gap`);
    • `Scans text lexeme rest` — one token stands at the front; the scanner
      finds it there and goes on with `rest` (`tokensFrom_scans`);
    • every text is a gap followed by its end or by a token (`exists_gap`,
      `exists_scans`), and the tokens that spell an atom are the atoms of the
      grammar (`atomic_iff_scans`).
-/
import PlotLisp.Proofs.Source.Numbers

namespace PlotLisp.Source

open Grammar

/-! ## §1. Characters and lengths. -/

/-- The scanner's blanks are those of the grammar, the Unicode ones included. -/
theorem isBlank_iff (c : Char) : isBlank c = true ↔ Blank c := by
  simp [isBlank, Blank, or_assoc]

/-- The scanner ends a word where the grammar does. -/
theorem isDelimiter_iff (c : Char) : isDelimiter c = true ↔ Delimiter c := by
  simp [isDelimiter, Delimiter, isBlank_iff, or_assoc]

theorem foldl_utf8Size (n : Nat) (chars : List Char) :
    chars.foldl (fun n c => n + c.utf8Size) n = n + byteLength chars := by
  unfold byteLength
  induction chars generalizing n with
  | nil => rfl
  | cons c chars ih =>
    rw [List.foldl_cons, List.foldl_cons, ih, ih (0 + c.utf8Size)]
    omega

@[simp] theorem byteLength_nil : byteLength [] = 0 := rfl

@[simp] theorem byteLength_cons (c : Char) (chars : List Char) :
    byteLength (c :: chars) = c.utf8Size + byteLength chars := by
  show chars.foldl (fun n c => n + c.utf8Size) (0 + c.utf8Size) = _
  rw [foldl_utf8Size, Nat.zero_add]

@[simp] theorem byteLength_append (left right : List Char) :
    byteLength (left ++ right) = byteLength left + byteLength right := by
  induction left with
  | nil => simp
  | cons c left ih =>
    rw [List.cons_append, byteLength_cons, byteLength_cons, ih]
    omega

/-! ## §2. The scanner's steps. -/

namespace Scanner

/-- What was found before takes no part in a step. -/
theorem push_found (mode : Mode) (offset : Nat) (found : List Token) (c : Char) :
    push ⟨mode, offset, found⟩ c
      = ⟨(push ⟨mode, offset, []⟩ c).mode, (push ⟨mode, offset, []⟩ c).offset,
          (push ⟨mode, offset, []⟩ c).found ++ found⟩ := by
  cases mode with
  | escape => rfl
  | _ => simp only [push, take, beginAt, endWord, endString]; split_ifs <;> rfl

/-- The lexemes that were already found stay in front of what is still to come. -/
theorem finish_found (mode : Mode) (offset : Nat) (found : List Token) :
    finish ⟨mode, offset, found⟩ = found.reverse ++ finish ⟨mode, offset, []⟩ := by
  cases mode <;> simp [finish, endWord]

/-- What was found before comes first, whatever follows. -/
theorem finish_foldl_found (text : List Char) :
    ∀ (mode : Mode) (offset : Nat) (found : List Token),
      (text.foldl push ⟨mode, offset, found⟩).finish
        = found.reverse ++ (text.foldl push ⟨mode, offset, []⟩).finish := by
  induction text with
  | nil => exact finish_found
  | cons c text ih =>
    intro mode offset found
    rw [List.foldl_cons, List.foldl_cons, push_found]
    show (text.foldl push ⟨_, _, _ ++ found⟩).finish = _
    rw [ih, ih (push ⟨mode, offset, []⟩ c).mode _ (push ⟨mode, offset, []⟩ c).found,
      List.reverse_append, List.append_assoc]

/-- Within a comment the scanner only counts bytes. -/
theorem foldl_push_comment {body : List Char} (hb : '\n' ∉ body) (offset : Nat)
    (found : List Token) :
    body.foldl push ⟨.comment, offset, found⟩ = ⟨.comment, offset + byteLength body, found⟩ := by
  induction body generalizing offset with
  | nil => rfl
  | cons c body ih =>
    have hc : c ≠ '\n' := fun h => hb (h ▸ List.mem_cons_self)
    have hstep : push ⟨.comment, offset, found⟩ c = ⟨.comment, offset + c.utf8Size, found⟩ := by
      simp [push, take, hc]
    rw [List.foldl_cons, hstep, ih (fun h => hb (List.mem_cons_of_mem _ h)), byteLength_cons,
      Nat.add_assoc]

/-- Within a word the scanner collects its characters. -/
theorem foldl_push_word {word : List Char} (hw : ∀ c ∈ word, ¬ Delimiter c) (start offset : Nat)
    (chars : List Char) (found : List Token) :
    word.foldl push ⟨.word start chars, offset, found⟩
      = ⟨.word start (word.reverse ++ chars), offset + byteLength word, found⟩ := by
  induction word generalizing offset chars with
  | nil => rfl
  | cons c word ih =>
    have hc : isDelimiter c = false := by
      rw [← Bool.not_eq_true, isDelimiter_iff]
      exact hw c List.mem_cons_self
    have hstep : push ⟨.word start chars, offset, found⟩ c
        = ⟨.word start (c :: chars), offset + c.utf8Size, found⟩ := by
      simp [push, take, hc]
    rw [List.foldl_cons, hstep, ih (fun d hd => hw d (List.mem_cons_of_mem _ hd)),
      byteLength_cons, Nat.add_assoc, List.reverse_cons, List.append_assoc]
    rfl

/-- The scanner holds characters last one first. -/
theorem unescape_eq (c : Char) : unescape c = (escaped c).reverse := by
  unfold unescape escaped
  split_ifs with hn ht hb hq
  · subst hn; rfl
  · subst ht; rfl
  · subst hb; rfl
  · subst hq; rfl
  · split <;> first | contradiction | rfl

/-- Within a string the scanner collects the characters that the escapes stand for. -/
theorem foldl_push_quoted {body contents : List Char} (h : Quoted body contents) :
    ∀ (start offset : Nat) (chars : List Char) (found : List Token),
      body.foldl push ⟨.string start chars, offset, found⟩
        = ⟨.string start (contents.reverse ++ chars), offset + byteLength body, found⟩ := by
  induction h with
  | nil => intro start offset chars found; rfl
  | @plain c body contents hq hb _ ih =>
    intro start offset chars found
    have hstep : push ⟨.string start chars, offset, found⟩ c
        = ⟨.string start (c :: chars), offset + c.utf8Size, found⟩ := by
      simp [push, take, hq, hb]
    rw [List.foldl_cons, hstep, ih, byteLength_cons, Nat.add_assoc, List.reverse_cons,
      List.append_assoc]
    rfl
  | @escape c body contents _ ih =>
    intro start offset chars found
    have hstep : push (push ⟨.string start chars, offset, found⟩ '\\') c
        = ⟨.string start ((escaped c).reverse ++ chars),
            offset + '\\'.utf8Size + c.utf8Size, found⟩ := by
      simp [push, take, unescape_eq]
    rw [List.foldl_cons, List.foldl_cons, hstep, ih, byteLength_cons, byteLength_cons,
      List.reverse_append, List.append_assoc, Nat.add_assoc, Nat.add_assoc]

end Scanner

/-! ## §3. Gaps. -/

/-- The tokens of a text that starts between tokens, at the offset `offset`. -/
def tokensFrom (offset : Nat) (text : List Char) : List Token :=
  (text.foldl Scanner.push ⟨.between, offset, []⟩).finish

@[simp] theorem tokensFrom_nil (offset : Nat) : tokensFrom offset [] = [] := rfl

/-- A blank between lexemes only moves the offset. -/
theorem tokensFrom_blank {c : Char} (hc : Blank c) (offset : Nat) (text : List Char) :
    tokensFrom offset (c :: text) = tokensFrom (offset + c.utf8Size) text := by
  unfold tokensFrom
  rw [List.foldl_cons]
  simp [Scanner.push, Scanner.take, Scanner.beginAt, (isBlank_iff c).mpr hc]

/-- A comment between lexemes only moves the offset, past its whole text. -/
theorem tokensFrom_comment {body text : List Char} (hb : '\n' ∉ body) (ht : LineEnds text)
    (offset : Nat) :
    tokensFrom offset (';' :: body ++ text)
      = tokensFrom (offset + byteLength (';' :: body)) text := by
  have hstep : Scanner.push ⟨.between, offset, []⟩ ';'
      = ⟨.comment, offset + ';'.utf8Size, []⟩ := rfl
  unfold tokensFrom
  rw [List.cons_append, List.foldl_cons, hstep, List.foldl_append,
    Scanner.foldl_push_comment hb, byteLength_cons, Nat.add_assoc]
  cases text with
  | nil => rfl
  | cons c text =>
    obtain rfl : c = '\n' := ht c rfl
    rfl

/-- **A gap leaves no token.** -/
theorem tokensFrom_gap {text rest : List Char} (h : Gap text rest) :
    ∃ skipped, text = skipped ++ rest
      ∧ ∀ offset, tokensFrom offset text = tokensFrom (offset + byteLength skipped) rest := by
  induction h with
  | none => exact ⟨[], rfl, fun _ => rfl⟩
  | @blank c text rest hc _ ih =>
    obtain ⟨skipped, rfl, ih⟩ := ih
    refine ⟨c :: skipped, rfl, fun offset => ?_⟩
    rw [tokensFrom_blank hc, ih, byteLength_cons, Nat.add_assoc]
  | @comment body text rest hb ht _ ih =>
    obtain ⟨skipped, rfl, ih⟩ := ih
    refine ⟨';' :: body ++ skipped, by simp, fun offset => ?_⟩
    rw [tokensFrom_comment hb ht, ih, byteLength_append, Nat.add_assoc]

theorem Grammar.Gap.length_le {text rest : List Char} (h : Gap text rest) :
    rest.length ≤ text.length := by
  obtain ⟨skipped, rfl, -⟩ := tokensFrom_gap h
  simp

/-- Every text starts with a gap that goes as far as it can. -/
theorem exists_gap (text : List Char) :
    ∃ rest, Gap text rest ∧ ∀ c ∈ rest.head?, ¬ Blank c ∧ c ≠ ';' := by
  match text with
  | [] => exact ⟨[], .none, by simp⟩
  | c :: text =>
    by_cases hb : Blank c
    · obtain ⟨rest, hg, hr⟩ := exists_gap text
      exact ⟨rest, .blank hb hg, hr⟩
    · by_cases hc : c = ';'
      · -- the comment ends with its line
        subst hc
        obtain ⟨rest, hg, hr⟩ := exists_gap (text.dropWhile (· ≠ '\n'))
        refine ⟨rest, ?_, hr⟩
        have hsplit : ';' :: text
            = ';' :: text.takeWhile (· ≠ '\n') ++ text.dropWhile (· ≠ '\n') := by
          rw [List.cons_append, List.takeWhile_append_dropWhile]
        rw [hsplit]
        refine .comment (fun hn => ?_) (fun d hd => ?_) hg
        · simpa using List.mem_takeWhile_imp hn
        · have := List.head?_dropWhile_not (fun c => decide (c ≠ '\n')) text
          rw [Option.mem_def.mp hd] at this
          simpa using this
      · exact ⟨c :: text, .none, fun d hd => by
          obtain rfl : c = d := by simpa using hd
          exact ⟨hb, hc⟩⟩
termination_by text.length
decreasing_by
  · exact Nat.lt_succ_self _
  · exact Nat.lt_succ_of_le (List.length_dropWhile_le _ _)

/-! ## §4. Tokens. -/

/-- One token stands at the front of the text.  A string that does not end takes all
of the text. -/
inductive Scans : List Char → Lexeme → List Char → Prop where
  | opening {rest} : Scans ('(' :: rest) .opening rest
  | closing {rest} : Scans (')' :: rest) .closing rest
  | word {word rest} : Word word rest → Scans (word ++ rest) (.ofWord word) rest
  | string {body contents rest} : Quoted body contents →
      Scans ('"' :: body ++ '"' :: rest) (.string (String.ofList contents)) rest
  | unended {body contents} : Quoted body contents → Scans ('"' :: body) .invalid []
  | unendedEscape {body contents} : Quoted body contents →
      Scans ('"' :: body ++ ['\\']) .invalid []

/-- A word is one lexeme at its own offset. -/
theorem tokensFrom_word {word rest : List Char} (h : Word word rest) (offset : Nat) :
    tokensFrom offset (word ++ rest)
      = ⟨offset, .ofWord word⟩ :: tokensFrom (offset + byteLength word) rest := by
  obtain ⟨c, word, rfl⟩ := List.exists_cons_of_ne_nil h.nonempty
  have hc : ¬ Delimiter c := h.inner c List.mem_cons_self
  have hstep : Scanner.push ⟨.between, offset, []⟩ c
      = ⟨.word offset [c], offset + c.utf8Size, []⟩ := by
    simp only [Delimiter, List.mem_cons, List.not_mem_nil, or_false, not_or, ← isBlank_iff] at hc
    obtain ⟨hb, h1, h2, h3, h4⟩ := hc
    simp [Scanner.push, Scanner.take, Scanner.beginAt, hb, h1, h2, h3, h4]
  unfold tokensFrom
  rw [List.cons_append, List.foldl_cons, hstep, List.foldl_append,
    Scanner.foldl_push_word (fun d hd => h.inner d (List.mem_cons_of_mem _ hd)),
    ← List.reverse_cons, Nat.add_assoc, ← byteLength_cons]
  cases hr : rest with
  | nil => simp [Scanner.finish, Scanner.endWord]
  | cons d rest =>
    -- the delimiter ends the word and is read once more, between tokens
    have hd : isDelimiter d = true := (isDelimiter_iff d).mpr (h.ends d (by rw [hr]; rfl))
    have hend : Scanner.push
          ⟨.word offset (c :: word).reverse, offset + byteLength (c :: word), []⟩ d
        = Scanner.push
          ⟨.between, offset + byteLength (c :: word), [⟨offset, .ofWord (c :: word)⟩]⟩ d := by
      simp [Scanner.push, Scanner.take, Scanner.endWord, hd]
    rw [List.foldl_cons, hend, ← List.foldl_cons, Scanner.finish_foldl_found]
    rfl

/-- From the opening quote on, the scanner is inside a string that starts there. -/
theorem foldl_push_quote {body contents : List Char} (h : Quoted body contents) (offset : Nat) :
    ('"' :: body).foldl Scanner.push ⟨.between, offset, []⟩
      = ⟨.string offset contents.reverse, offset + byteLength ('"' :: body), []⟩ := by
  have hstep : Scanner.push ⟨.between, offset, []⟩ '"'
      = ⟨.string offset [], offset + '"'.utf8Size, []⟩ := rfl
  rw [List.foldl_cons, hstep, Scanner.foldl_push_quoted h, List.append_nil, byteLength_cons,
    Nat.add_assoc]

/-- **The scanner finds the token at the front**, and goes on after it. -/
theorem tokensFrom_scans {text rest : List Char} {lexeme : Lexeme} (h : Scans text lexeme rest) :
    ∃ scanned, text = scanned ++ rest ∧ scanned ≠ []
      ∧ ∀ offset, tokensFrom offset text
          = ⟨offset, lexeme⟩ :: tokensFrom (offset + byteLength scanned) rest := by
  cases h with
  | opening =>
    refine ⟨['('], rfl, by simp, fun offset => ?_⟩
    exact Scanner.finish_foldl_found rest .between _ [⟨offset, .opening⟩]
  | closing =>
    refine ⟨[')'], rfl, by simp, fun offset => ?_⟩
    exact Scanner.finish_foldl_found rest .between _ [⟨offset, .closing⟩]
  | word hw => exact ⟨_, rfl, hw.nonempty, tokensFrom_word hw⟩
  | @string body contents _ hq =>
    refine ⟨'"' :: body ++ ['"'], by simp, by simp, fun offset => ?_⟩
    have hend : Scanner.push
          ⟨.string offset contents.reverse, offset + byteLength ('"' :: body), []⟩ '"'
        = ⟨.between, offset + byteLength ('"' :: body ++ ['"']),
            [⟨offset, .string (String.ofList contents)⟩]⟩ := by
      rw [byteLength_append, ← Nat.add_assoc]
      simp [Scanner.push, Scanner.take, Scanner.endString]
    unfold tokensFrom
    rw [List.foldl_append, foldl_push_quote hq, List.foldl_cons, hend,
      Scanner.finish_foldl_found]
    rfl
  | @unended body contents hq =>
    refine ⟨'"' :: body, by simp, by simp, fun offset => ?_⟩
    unfold tokensFrom
    rw [foldl_push_quote hq]
    rfl
  | @unendedEscape body contents hq =>
    refine ⟨'"' :: body ++ ['\\'], by simp, by simp, fun offset => ?_⟩
    unfold tokensFrom
    rw [List.foldl_append, foldl_push_quote hq]
    rfl

/-- Every lexeme takes at least one character: the scan of a text ends. -/
theorem Scans.length_lt {text rest : List Char} {lexeme : Lexeme} (h : Scans text lexeme rest) :
    rest.length < text.length := by
  obtain ⟨scanned, rfl, hne, -⟩ := tokensFrom_scans h
  have := List.length_pos_iff.mpr hne
  rw [List.length_append]
  omega

/-- No word is read as a parenthesis. -/
theorem ofWord_ne_parenthesis (word : List Char) :
    Lexeme.ofWord word ≠ .opening ∧ Lexeme.ofWord word ≠ .closing := by
  unfold Lexeme.ofWord
  split
  · simp
  · split <;> simp

theorem Scans.eq_of_opening {text rest : List Char} {lexeme : Lexeme}
    (h : Scans text lexeme rest) (hl : lexeme = .opening) : text = '(' :: rest := by
  cases h with
  | opening => rfl
  | word => exact absurd hl (ofWord_ne_parenthesis _).1
  | _ => exact absurd hl (by simp)

theorem Scans.eq_of_closing {text rest : List Char} {lexeme : Lexeme}
    (h : Scans text lexeme rest) (hl : lexeme = .closing) : text = ')' :: rest := by
  cases h with
  | closing => rfl
  | word => exact absurd hl (ofWord_ne_parenthesis _).2
  | _ => exact absurd hl (by simp)

/-- A string ends at its quote, or does not end. -/
theorem quoted_or_unended (text : List Char) :
    (∃ body contents rest, text = body ++ '"' :: rest ∧ Quoted body contents)
      ∨ (∃ contents, Quoted text contents)
      ∨ (∃ body contents, text = body ++ ['\\'] ∧ Quoted body contents) := by
  match text with
  | [] => exact .inr (.inl ⟨[], .nil⟩)
  | c :: text =>
    by_cases hc : c = '"'
    · subst hc
      exact .inl ⟨[], [], text, rfl, .nil⟩
    · by_cases hb : c = '\\'
      · -- a backslash with nothing after it, or with an escaped character
        subst hb
        cases text with
        | nil => exact .inr (.inr ⟨[], [], rfl, .nil⟩)
        | cons d text =>
          rcases quoted_or_unended text with ⟨body, contents, rest, rfl, hq⟩ | ⟨contents, hq⟩
            | ⟨body, contents, rfl, hq⟩
          · exact .inl ⟨'\\' :: d :: body, _, rest, rfl, .escape hq⟩
          · exact .inr (.inl ⟨_, .escape hq⟩)
          · exact .inr (.inr ⟨'\\' :: d :: body, _, rfl, .escape hq⟩)
      · rcases quoted_or_unended text with ⟨body, contents, rest, rfl, hq⟩ | ⟨contents, hq⟩
          | ⟨body, contents, rfl, hq⟩
        · exact .inl ⟨c :: body, _, rest, rfl, .plain hc hb hq⟩
        · exact .inr (.inl ⟨_, .plain hc hb hq⟩)
        · exact .inr (.inr ⟨c :: body, _, rfl, .plain hc hb hq⟩)
termination_by text.length

/-- A character that is no delimiter starts a word. -/
theorem exists_word {c : Char} (hc : ¬ Delimiter c) (text : List Char) :
    ∃ word rest, c :: text = word ++ rest ∧ Word word rest := by
  have hc' : (!isDelimiter c) = true := by simpa [← isDelimiter_iff] using hc
  refine ⟨(c :: text).takeWhile (!isDelimiter ·), (c :: text).dropWhile (!isDelimiter ·),
    List.takeWhile_append_dropWhile.symm, ?_, fun d hd => ?_, fun d hd => ?_⟩
  · rw [List.takeWhile_cons, if_pos hc']
    exact List.cons_ne_nil _ _
  · have := List.mem_takeWhile_imp hd
    simpa [← isDelimiter_iff] using this
  · have := List.head?_dropWhile_not (!isDelimiter ·) (c :: text)
    rw [Option.mem_def.mp hd] at this
    simpa [← isDelimiter_iff] using this

/-- Where no gap is left, a token starts. -/
theorem exists_scans {c : Char} (hb : ¬ Blank c) (hc : c ≠ ';') (text : List Char) :
    ∃ lexeme rest, Scans (c :: text) lexeme rest := by
  by_cases hd : Delimiter c
  · simp only [Delimiter, hb, false_or, List.mem_cons, List.not_mem_nil, or_false, hc] at hd
    rcases hd with rfl | rfl | rfl
    · exact ⟨_, _, .opening⟩
    · exact ⟨_, _, .closing⟩
    · rcases quoted_or_unended text with ⟨body, contents, rest, rfl, hq⟩ | ⟨contents, hq⟩
        | ⟨body, contents, rfl, hq⟩
      · exact ⟨_, _, .string hq⟩
      · exact ⟨_, _, .unended hq⟩
      · exact ⟨_, _, .unendedEscape hq⟩
  · obtain ⟨word, rest, hsplit, hw⟩ := exists_word hd text
    rw [hsplit]
    exact ⟨_, _, .word hw⟩

/-! ## §5. Atoms. -/

/-- A word of the shape of a number is that number: the reader of numbers is tried first. -/
theorem ofWord_of_number {word : List Char} {x : Float} (h : Number word x) :
    Lexeme.ofWord word = .number x := by
  simp only [Lexeme.ofWord, (readNumber?_eq_some_iff _ _).mpr h]

/-- Any other word is a symbol, however close to a number it comes. -/
theorem ofWord_of_not_numberLike {word : List Char} (h : ¬ NumberLike word) :
    Lexeme.ofWord word = .symbol (String.ofList word) := by
  have hn : readNumber? word = none := by
    cases hr : readNumber? word with
    | none => rfl
    | some x => exact absurd ((readNumber?_eq_some_iff _ _).mp hr).numberLike h
  have hs : startsLikeNumber word = false := by
    rw [← Bool.not_eq_true, ← numberLike_iff]
    exact h
  simp [Lexeme.ofWord, hn, hs]

/-- A word spells the number that it is, the symbol that it is, or nothing. -/
theorem atomic_of_ofWord {word rest : List Char} {a : Atom} (hw : Word word rest)
    (ha : (Lexeme.ofWord word).atom? = some a) : Atomic (word ++ rest) a rest := by
  cases hr : readNumber? word with
  | some x =>
    have hx := (readNumber?_eq_some_iff _ _).mp hr
    rw [ofWord_of_number hx] at ha
    injection ha with ha
    rw [← ha]
    exact .number hw hx
  | none =>
    by_cases hl : NumberLike word
    · -- it starts like a number and is none
      simp [Lexeme.ofWord, hr, (numberLike_iff word).mp hl, Lexeme.atom?] at ha
    · rw [ofWord_of_not_numberLike hl] at ha
      injection ha with ha
      rw [← ha]
      exact .symbol hw hl

/-- The tokens that spell an atom are the atoms of the grammar. -/
theorem atomic_iff_scans (text : List Char) (a : Atom) (rest : List Char) :
    Atomic text a rest ↔ ∃ lexeme, Scans text lexeme rest ∧ lexeme.atom? = some a := by
  constructor
  · intro h
    cases h with
    | number hw hn => exact ⟨_, .word hw, by rw [ofWord_of_number hn]; rfl⟩
    | symbol hw hl => exact ⟨_, .word hw, by rw [ofWord_of_not_numberLike hl]; rfl⟩
    | string hq => exact ⟨_, .string hq, rfl⟩
  · rintro ⟨lexeme, h, ha⟩
    cases h with
    | word hw => exact atomic_of_ofWord hw ha
    | string hq =>
      injection ha with ha
      rw [← ha]
      exact .string hq
    | opening => exact absurd ha (by simp [Lexeme.atom?])
    | closing => exact absurd ha (by simp [Lexeme.atom?])
    | unended => exact absurd ha (by simp [Lexeme.atom?])
    | unendedEscape => exact absurd ha (by simp [Lexeme.atom?])

end PlotLisp.Source
