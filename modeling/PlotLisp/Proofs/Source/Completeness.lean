/-
  PlotLisp.Proofs.Source.Completeness
  ──────────────────────────────────────
  **THE COUNT OF PARENTHESES AGREES WITH THE PARSER.**

  `isComplete` counts parentheses and does not parse.  It agrees with the parser
  all the same, since the count is what is left of a scan when only the region and
  the number of open parentheses are kept:

    • `balance_foldl` — the count of a text is the `balance` of its scan;
    • `located_region` — the region that the count has reached is the one that the
      grammar gives to the end of the text;
    • `isClosed_foldl_trim` — trimming the text makes no difference to the count;
    • `depth_foldl` — as long as nothing is wrong, the count is the number of
      expressions that the parser holds open.
-/
import Mathlib.Algebra.Ring.Int.Defs
import Mathlib.Algebra.Ring.Nat
import Mathlib.Data.List.Induction
import PlotLisp.Proofs.Source.Acceptance
import PlotLisp.Source.Completeness

namespace PlotLisp.Source

open Grammar

/-! ## §1. The count is a view of the scan. -/

/-- The region that a scanner is in. -/
def Mode.region : Mode → Region
  | .between | .word _ _ => .code
  | .comment => .comment
  | .string _ _ => .string
  | .escape _ _ => .escape

/-- How many more parentheses are open after a lexeme. -/
def Lexeme.depth : Lexeme → Int
  | .opening => 1
  | .closing => -1
  | .number _ | .symbol _ | .string _ | .invalid => 0

/-- How many parentheses are open after some tokens. -/
def depthOf (found : List Token) : Int := (found.map fun token => token.lexeme.depth).sum

@[simp] theorem depthOf_nil : depthOf [] = 0 := rfl

@[simp] theorem depthOf_cons (token : Token) (found : List Token) :
    depthOf (token :: found) = token.lexeme.depth + depthOf found := rfl

@[simp] theorem depthOf_reverse (found : List Token) : depthOf found.reverse = depthOf found := by
  unfold depthOf
  rw [List.map_reverse, List.sum_reverse]

/-- A word opens and closes nothing. -/
@[simp] theorem depth_ofWord (word : List Char) : (Lexeme.ofWord word).depth = 0 := by
  unfold Lexeme.ofWord
  split
  · rfl
  · split <;> rfl

namespace Scanner

/-- What the count keeps of a scan. -/
def balance (s : Scanner) : Balance := ⟨depthOf s.found, s.mode.region⟩

/-- A character that belongs to no token before it is counted as code. -/
theorem balance_beginAt (s : Scanner) (c : Char) :
    (s.beginAt c).balance = (⟨depthOf s.found, .code⟩ : Balance).push c := by
  unfold beginAt Balance.push
  by_cases hb : isBlank c
  · have hc : c ≠ '"' ∧ c ≠ ';' ∧ c ≠ '(' ∧ c ≠ ')' := by
      simp only [isBlank, Bool.or_eq_true, decide_eq_true_eq] at hb
      rcases hb with ((rfl | rfl) | rfl) | rfl <;> decide
    simp [hb, hc, balance, Mode.region]
  · simp only [hb, Bool.false_eq_true, if_false]
    by_cases h1 : c = ';'
    · subst h1; rfl
    · by_cases h2 : c = '('
      · subst h2; simp [balance, Mode.region, Lexeme.depth, Int.add_comm]
      · by_cases h3 : c = ')'
        · subst h3; simp [balance, Mode.region, Lexeme.depth, Int.sub_eq_add_neg, Int.add_comm]
        · by_cases h4 : c = '"'
          · subst h4; rfl
          · simp [h1, h2, h3, h4, balance, Mode.region]

/-- **One character means the same to the scanner and to the count.** -/
theorem balance_push (s : Scanner) (c : Char) : (s.push c).balance = s.balance.push c := by
  obtain ⟨mode, offset, found⟩ := s
  show (take ⟨mode, offset, found⟩ c).balance = _
  cases mode with
  | between => exact balance_beginAt _ c
  | comment =>
    unfold take
    dsimp only
    split_ifs with h <;> simp [balance, Mode.region, Balance.push, h]
  | word start chars =>
    unfold take
    dsimp only
    split_ifs with hd
    · rw [balance_beginAt]
      simp [endWord, balance, Mode.region]
    · -- inside a word no character counts
      have hc : c ≠ '"' ∧ c ≠ ';' ∧ c ≠ '(' ∧ c ≠ ')' := by
        simp only [isDelimiter, Bool.or_eq_true, decide_eq_true_eq, not_or] at hd
        exact ⟨hd.1.2, hd.2, hd.1.1.1.2, hd.1.1.2⟩
      simp [balance, Mode.region, Balance.push, hc]
  | string start chars =>
    unfold take
    dsimp only
    split_ifs with hq hb
    · subst hq; simp [endString, balance, Mode.region, Balance.push, Lexeme.depth]
    · subst hb; rfl
    · simp [balance, Mode.region, Balance.push, hq, hb]
  | escape start chars => rfl

/-- **The count of a text is the balance of its scan.** -/
theorem balance_foldl (chars : List Char) (s : Scanner) :
    (chars.foldl push s).balance = chars.foldl Balance.push s.balance := by
  induction chars generalizing s with
  | nil => rfl
  | cons c chars ih => rw [List.foldl_cons, List.foldl_cons, ih, balance_push]

end Scanner

/-! ## §2. Where a text ends. -/

namespace Grammar

/-- The text ends outside strings and comments. -/
inductive Outside : List Char → Prop where
  | start : Outside []
  | plain {text c} : Outside text → c ∉ ['"', ';'] → Outside (text ++ [c])
  | string {text body contents} : Outside text → Quoted body contents →
      Outside (text ++ '"' :: body ++ ['"'])
  | comment {text body} : Outside text → '\n' ∉ body → Outside (text ++ ';' :: body ++ ['\n'])

/-- The text ends inside a comment. -/
def InComment (text : List Char) : Prop :=
  ∃ before body, Outside before ∧ '\n' ∉ body ∧ text = before ++ ';' :: body

/-- An opening parenthesis stands outside comments, in code or in a string. -/
def OpensOutsideComments (text : List Char) : Prop :=
  ∃ before after, text = before ++ '(' :: after ∧ ¬ InComment before

theorem Quoted.append {left right contents contents' : List Char} (h : Quoted left contents)
    (h' : Quoted right contents') : Quoted (left ++ right) (contents ++ contents') := by
  induction h with
  | nil => exact h'
  | plain hq hb _ ih => exact .plain hq hb ih
  | escape _ ih =>
    rw [List.append_assoc]
    exact .escape ih

end Grammar

/-- What it means for a text that the count of it ends in a region. -/
def Located : Region → List Char → Prop
  | .code, text => Outside text
  | .comment, text => InComment text
  | .string, text =>
      ∃ before body contents, Outside before ∧ Quoted body contents ∧ text = before ++ '"' :: body
  | .escape, text =>
      ∃ before body contents, Outside before ∧ Quoted body contents
        ∧ text = before ++ '"' :: body ++ ['\\']

theorem located_push {b : Balance} {text : List Char} (h : Located b.region text) (c : Char) :
    Located (b.push c).region (text ++ [c]) := by
  obtain ⟨depth, region⟩ := b
  cases region with
  | code =>
    have h : Outside text := h
    unfold Balance.push
    dsimp only
    -- a quote or a semicolon opens a region; parentheses only change the depth
    split_ifs with hq hs ho hc
    · exact ⟨text, [], [], h, .nil, by rw [hq]⟩
    · exact ⟨text, [], h, List.not_mem_nil, by rw [hs]⟩
    all_goals exact .plain h (by simp [hq, hs])
  | comment =>
    obtain ⟨before, body, hb, hn, rfl⟩ := h
    unfold Balance.push
    dsimp only
    split_ifs with hc
    · rw [hc]
      exact .comment hb hn
    · refine ⟨before, body ++ [c], hb, ?_, by simp⟩
      simpa [hn] using Ne.symm hc
  | string =>
    obtain ⟨before, body, contents, hb, hq, rfl⟩ := h
    unfold Balance.push
    dsimp only
    split_ifs with he hc
    · exact ⟨before, body, contents, hb, hq, by rw [he]⟩
    · rw [hc]
      exact .string hb hq
    · exact ⟨before, body ++ [c], contents ++ [c], hb, hq.append (.plain hc he .nil), by simp⟩
  | escape =>
    obtain ⟨before, body, contents, hb, hq, rfl⟩ := h
    exact ⟨before, body ++ ['\\', c], contents ++ (escaped c ++ []), hb,
      hq.append (.escape .nil), by simp⟩

/-- **The region of the count is where the text ends.** -/
theorem located_region (text : List Char) :
    Located (text.foldl Balance.push .initial).region text := by
  induction text using List.reverseRecOn with
  | nil => exact Outside.start
  | append_singleton text c ih =>
    rw [List.foldl_append]
    exact located_push ih c

/-! ## §3. White space at the ends. -/

theorem ne_of_isWhitespace {c : Char} (h : isWhitespace c = true) :
    c ≠ '"' ∧ c ≠ '\\' ∧ c ≠ ';' ∧ c ≠ '(' ∧ c ≠ ')' := by
  refine ⟨?_, ?_, ?_, ?_, ?_⟩ <;>
  · rintro rfl
    exact absurd h (by decide)

/-- White space may end a comment or an escape, but closes nothing. -/
theorem isClosed_push_whitespace {c : Char} (h : isWhitespace c = true) (b : Balance) :
    (b.push c).isClosed = b.isClosed := by
  obtain ⟨hq, hb, hs, ho, hc⟩ := ne_of_isWhitespace h
  obtain ⟨depth, region⟩ := b
  cases region with
  | comment => unfold Balance.push; dsimp only; split_ifs <;> rfl
  | _ => simp [Balance.push, Balance.isClosed, hq, hb, hs, ho, hc]

theorem isClosed_foldl_whitespace {blanks : List Char} (h : ∀ c ∈ blanks, isWhitespace c = true)
    (b : Balance) : (blanks.foldl Balance.push b).isClosed = b.isClosed := by
  induction blanks generalizing b with
  | nil => rfl
  | cons c blanks ih =>
    rw [List.foldl_cons, ih (fun d hd => h d (List.mem_cons_of_mem _ hd)),
      isClosed_push_whitespace (h c List.mem_cons_self)]

/-- White space before a text is not counted. -/
theorem foldl_dropWhile_whitespace (text : List Char) :
    (text.dropWhile isWhitespace).foldl Balance.push .initial
      = text.foldl Balance.push .initial := by
  induction text with
  | nil => rfl
  | cons c text ih =>
    by_cases hc : isWhitespace c = true
    · have hpush : Balance.initial.push c = .initial := by
        obtain ⟨hq, -, hs, ho, hc⟩ := ne_of_isWhitespace hc
        simp [Balance.push, Balance.initial, hq, hs, ho, hc]
      rw [List.dropWhile_cons_of_pos hc, List.foldl_cons, hpush, ih]
    · rw [List.dropWhile_cons_of_neg hc]

/-- A text is its trimmed part with white space on both sides. -/
theorem exists_trim (text : List Char) :
    ∃ blanks, (∀ c ∈ blanks, isWhitespace c = true)
      ∧ text.dropWhile isWhitespace = trim text ++ blanks := by
  refine ⟨((text.dropWhile isWhitespace).reverse.takeWhile isWhitespace).reverse,
    fun c hc => ?_, ?_⟩
  · exact List.mem_takeWhile_imp (List.mem_reverse.mp hc)
  · unfold trim
    rw [← List.reverse_append, List.takeWhile_append_dropWhile, List.reverse_reverse]

/-- **Trimming a text closes and opens nothing.** -/
theorem isClosed_foldl_trim (text : List Char) :
    ((trim text).foldl Balance.push .initial).isClosed
      = (text.foldl Balance.push .initial).isClosed := by
  obtain ⟨blanks, hblanks, htext⟩ := exists_trim text
  rw [← foldl_dropWhile_whitespace text, htext, List.foldl_append,
    isClosed_foldl_whitespace hblanks]

theorem mem_trim {text : List Char} {c : Char} (h : c ∈ text) (hc : isWhitespace c = false) :
    c ∈ trim text := by
  obtain ⟨blanks, hblanks, htext⟩ := exists_trim text
  have hsplit := List.takeWhile_append_dropWhile (p := isWhitespace) (l := text)
  rw [← hsplit, htext] at h
  rcases List.mem_append.mp h with h | h
  · exact absurd (List.mem_takeWhile_imp h) (by simp [hc])
  · rcases List.mem_append.mp h with h | h
    · exact h
    · exact absurd (hblanks c h) (by simp [hc])

/-! ## §4. What the parser holds open. -/

theorem depth_of_atom? {lexeme : Lexeme} {a : Atom} (h : lexeme.atom? = some a) :
    lexeme.depth = 0 := by
  cases lexeme <;> simp_all [Lexeme.atom?, Lexeme.depth]

namespace Progress

/-- The number of open expressions. -/
def depth : Progress → Int
  | .opened outer | .inside _ outer => outer.length + 1
  | .before | .after _ | .failed _ => 0

theorem depth_close (e : Expr) (outer : List Open) : (close e outer).depth = outer.length := by
  cases outer with
  | nil => rfl
  | cons current outer => simp [close, depth]

theorem depth_take? {p p' : Progress} {lexeme : Lexeme} (h : p.take? lexeme = some p') :
    p'.depth = p.depth + lexeme.depth := by
  cases p with
  | before =>
    obtain ⟨rfl, rfl⟩ := take?_before h
    rfl
  | opened outer =>
    obtain ⟨a, ha, rfl⟩ := Option.map_eq_some_iff.mp h
    simp [depth, depth_of_atom? ha]
  | inside current outer =>
    obtain ⟨head, children⟩ := current
    rcases take?_inside h with ⟨rfl, rfl⟩ | ⟨rfl, rfl⟩ | ⟨a, ha, rfl⟩
    · simp [depth, Lexeme.depth]
    · rw [depth_close]
      simp only [depth, Lexeme.depth]
      omega
    · simp [depth, depth_of_atom? ha]
  | after e => exact absurd h (by simp [take?])
  | failed error => exact absurd h (by simp [take?])

theorem push_failed (error : ParseError) (found : List Token) :
    found.foldl push (.failed error) = .failed error := by
  induction found with
  | nil => rfl
  | cons token found ih => exact ih

theorem push_of_take?_some {p p' : Progress} {token : Token}
    (h : p.take? token.lexeme = some p') : p.push token = p' := by
  cases p with
  | failed error => exact absurd h (by simp [take?])
  | _ => simp [push, h]

/-- A token that is not taken is the first error. -/
theorem push_of_take?_none {p : Progress} (token : Token) (h : p.take? token.lexeme = none) :
    ∃ error, p.push token = .failed error := by
  cases p <;> exact ⟨_, by simp [push, h]; rfl⟩

theorem push_ne_before (p : Progress) (token : Token) : p.push token ≠ .before := by
  intro h
  cases hp : p.take? token.lexeme with
  | none =>
    obtain ⟨error, herror⟩ := push_of_take?_none _ hp
    rw [herror] at h
    exact absurd h (by simp)
  | some p' =>
    rw [push_of_take?_some hp] at h
    subst h
    cases p with
    | before => exact absurd (take?_before hp).2 (by simp)
    | opened outer => exact absurd hp (by simp [take?])
    | inside current outer =>
      rcases take?_inside hp with ⟨-, h⟩ | ⟨-, h⟩ | ⟨_, -, h⟩
      · exact absurd h (by simp)
      · cases outer <;> exact absurd h (by simp [close])
      · exact absurd h (by simp)
    | after e => exact absurd hp (by simp [take?])
    | failed error => exact absurd hp (by simp [take?])

/-- **As long as nothing is wrong, the open parentheses are the open expressions.** -/
theorem depth_foldl {found : List Token} {p : Progress}
    (h : ∀ error, found.foldl push p ≠ .failed error) :
    (found.foldl push p).depth = p.depth + depthOf found := by
  induction found generalizing p with
  | nil => simp
  | cons token found ih =>
    rw [List.foldl_cons] at h ⊢
    cases hp : p.take? token.lexeme with
    | none =>
      obtain ⟨error, herror⟩ := push_of_take?_none _ hp
      rw [herror, push_failed] at h
      exact absurd rfl (h error)
    | some p' =>
      rw [ih h, push_of_take?_some hp, depth_take? hp, depthOf_cons, Int.add_assoc]

end Progress

/-! ## §5. A text and its continuations. -/

/-- The scan of a text that may go on. -/
def scan (text : List Char) : Scanner := text.foldl Scanner.push .initial

/-- How far the tokens that a text has finished take the parser. -/
def reached (text : List Char) : Progress := (scan text).found.reverse.foldl Progress.push .before

/-- The tokens of `rest` once the scanner is in the given mode. -/
def tokensIn (mode : Mode) (offset : Nat) (rest : List Char) : List Token :=
  (rest.foldl Scanner.push ⟨mode, offset, []⟩).finish

theorem balance_scan (text : List Char) :
    (scan text).balance = text.foldl Balance.push .initial :=
  Scanner.balance_foldl text .initial

theorem region_count (text : List Char) :
    (text.foldl Balance.push .initial).region = (scan text).mode.region := by
  rw [← balance_scan]
  rfl

/-- The parser goes on from where the text has taken it. -/
theorem foldl_tokens_append (text rest : List Char) :
    (tokens (text ++ rest)).foldl Progress.push .before
      = (tokensIn (scan text).mode (scan text).offset rest).foldl Progress.push (reached text) := by
  have hsplit : tokens (text ++ rest)
      = (scan text).found.reverse ++ tokensIn (scan text).mode (scan text).offset rest := by
    unfold tokens
    rw [List.foldl_append]
    exact Scanner.finish_foldl_found rest _ _ _
  rw [hsplit, List.foldl_append]
  rfl

/-- A word that has begun is the first token, whatever follows. -/
theorem exists_word_first (start : Nat) (rest : List Char) :
    ∀ (chars : List Char) (offset : Nat), ∃ word others,
      tokensIn (.word start chars) offset rest = ⟨start, .ofWord word⟩ :: others := by
  induction rest with
  | nil => intro chars offset; exact ⟨chars.reverse, [], rfl⟩
  | cons c rest ih =>
    intro chars offset
    by_cases hd : isDelimiter c = true
    · -- the delimiter is read once more, between tokens
      have hend : Scanner.push ⟨.word start chars, offset, []⟩ c
          = Scanner.push ⟨.between, offset, [⟨start, .ofWord chars.reverse⟩]⟩ c := by
        simp [Scanner.push, Scanner.take, Scanner.endWord, hd]
      refine ⟨chars.reverse, tokensIn .between offset (c :: rest), ?_⟩
      unfold tokensIn
      rw [List.foldl_cons, hend, ← List.foldl_cons, Scanner.finish_foldl_found]
      rfl
    · have hstep : Scanner.push ⟨.word start chars, offset, []⟩ c
          = ⟨.word start (c :: chars), offset + c.utf8Size, []⟩ := by
        simp [Scanner.push, Scanner.take, hd]
      obtain ⟨word, others, h⟩ := ih (c :: chars) (offset + c.utf8Size)
      refine ⟨word, others, ?_⟩
      rw [← h]
      unfold tokensIn
      rw [List.foldl_cons, hstep]

/-- Outside of an expression no word can stand. -/
theorem word_fails {p : Progress} (hp : p = .before ∨ ∃ e, p = .after e) (start : Nat)
    (chars rest : List Char) (offset : Nat) :
    ∃ error, (tokensIn (.word start chars) offset rest).foldl Progress.push p = .failed error := by
  obtain ⟨word, others, h⟩ := exists_word_first start rest chars offset
  have hnone : p.take? (Lexeme.ofWord word) = none := by
    rcases hp with rfl | ⟨e, rfl⟩
    · cases hw : Progress.before.take? (Lexeme.ofWord word) with
      | none => rfl
      | some p' => exact absurd (take?_before hw).1 (ofWord_ne_parenthesis word).1
    · rfl
  obtain ⟨error, herror⟩ := Progress.push_of_take?_none ⟨start, .ofWord word⟩ hnone
  exact ⟨error, by rw [h, List.foldl_cons, herror, Progress.push_failed]⟩

theorem parseChars_eq_ok_iff (text : List Char) (e : Expr) :
    parseChars text = .ok e ↔ (tokens text).foldl Progress.push .before = .after e := by
  unfold parseChars
  cases (tokens text).foldl Progress.push .before <;> simp [Progress.finish]

theorem exists_ok_iff (text : List Char) :
    (∃ e, parseChars text = .ok e)
      ↔ ∃ e, (tokensIn (scan text).mode (scan text).offset []).foldl Progress.push (reached text)
          = .after e := by
  have h := foldl_tokens_append text []
  rw [List.append_nil] at h
  simp only [parseChars_eq_ok_iff, h]

/-- Nothing wrong has been read in a text that can be completed. -/
theorem reached_ne_failed {text rest : List Char} {e : Expr}
    (h : (tokensIn (scan text).mode (scan text).offset rest).foldl Progress.push (reached text)
      = .after e) (error : ParseError) : reached text ≠ .failed error := by
  intro herror
  rw [herror, Progress.push_failed] at h
  exact absurd h (by simp)

/-- The count is the number of open expressions, if nothing wrong has been read. -/
theorem depth_reached {text : List Char} (h : ∀ error, reached text ≠ .failed error) :
    (text.foldl Balance.push .initial).depth = (reached text).depth := by
  have hdepth : (reached text).depth = Progress.before.depth + depthOf (scan text).found.reverse :=
    Progress.depth_foldl h
  rw [← balance_scan, hdepth, depthOf_reverse]
  simp [Scanner.balance, Progress.depth]

/-! ## §6. Texts that have begun. -/

/-- Something other than blanks and comments has been read. -/
def Scanner.HasBegun (s : Scanner) : Prop :=
  s.found ≠ [] ∨ (s.mode ≠ .between ∧ s.mode ≠ .comment)

theorem Scanner.HasBegun.push {s : Scanner} (h : s.HasBegun) (c : Char) : (s.push c).HasBegun := by
  obtain ⟨mode, offset, found⟩ := s
  rw [push_found]
  rcases h with h | ⟨hb, hc⟩
  · exact .inl (by simp_all)
  · cases mode with
    | between => exact absurd rfl hb
    | comment => exact absurd rfl hc
    | word start chars =>
      by_cases hd : isDelimiter c = true
      · left
        simp only [Scanner.push, take, hd, if_true, endWord, beginAt]
        split_ifs <;> simp
      · right
        simp [Scanner.push, take, hd]
    | string start chars =>
      by_cases hq : c = '"'
      · left
        simp [Scanner.push, take, hq, endString]
      · right
        simp only [Scanner.push, take, hq, if_false]
        split_ifs <;> simp
    | escape start chars => right; simp [Scanner.push, take]

/-- A parenthesis outside comments is no blank and no part of a comment. -/
theorem hasBegun_of_opens {text : List Char} (h : OpensOutsideComments text) :
    (scan text).HasBegun := by
  obtain ⟨before, after, rfl, hout⟩ := h
  have hcomment : (scan before).mode ≠ .comment := by
    intro hmode
    have hlocated := located_region before
    rw [← balance_scan] at hlocated
    simp only [Scanner.balance, hmode, Mode.region] at hlocated
    exact hout hlocated
  have hopening : ((scan before).push '(').HasBegun := by
    generalize scan before = s at hcomment
    obtain ⟨mode, offset, found⟩ := s
    cases mode with
    | between => exact .inl (by simp [Scanner.push, Scanner.take, Scanner.beginAt, isBlank])
    | comment => exact absurd rfl hcomment
    | word start chars =>
      left
      simp [Scanner.push, Scanner.take, Scanner.beginAt, Scanner.endWord, isDelimiter, isBlank]
    | string start chars => exact .inr (by simp [Scanner.push, Scanner.take])
    | escape start chars => exact .inr (by simp [Scanner.push, Scanner.take])
  have hrest : ∀ (after : List Char) (s : Scanner), s.HasBegun →
      (after.foldl Scanner.push s).HasBegun := by
    intro after
    induction after with
    | nil => exact fun s hs => hs
    | cons c after ih => exact fun s hs => ih _ (hs.push c)
  unfold scan
  rw [List.foldl_append, List.foldl_cons]
  exact hrest after _ hopening

theorem found_of_reached_before {text : List Char} (h : reached text = .before) :
    (scan text).found = [] := by
  unfold reached at h
  cases hf : (scan text).found with
  | nil => rfl
  | cons token found =>
    rw [hf, List.reverse_cons, List.foldl_append] at h
    exact absurd h (Progress.push_ne_before _ _)

/-! ## §7. Complete programs and unfinished ones. -/

theorem isComplete_eq (text : List Char) :
    isComplete text
      = (!(trim text).isEmpty && (text.foldl Balance.push .initial).isClosed) := by
  unfold isComplete
  dsimp only
  rw [isClosed_foldl_trim]

/-- An accepted text leaves no string open. -/
theorem region_of_accepted {text : List Char} {e : Expr}
    (h : (tokensIn (scan text).mode (scan text).offset []).foldl Progress.push (reached text)
      = .after e) : (scan text).mode.region ≠ .string ∧ (scan text).mode.region ≠ .escape := by
  have hinvalid (start : Nat) (hlast : tokensIn (scan text).mode (scan text).offset []
      = [⟨start, .invalid⟩]) : False := by
    obtain ⟨error, herror⟩ := Progress.push_of_take?_none (p := reached text)
      ⟨start, .invalid⟩ (by cases reached text <;> rfl)
    rw [hlast, List.foldl_cons, List.foldl_nil, herror] at h
    exact absurd h (by simp)
  cases hmode : (scan text).mode with
  | string start chars => exact (hinvalid start (by rw [hmode]; rfl)).elim
  | escape start chars => exact (hinvalid start (by rw [hmode]; rfl)).elim
  | _ => simp [Mode.region]

/-- The token that the end of a text finishes opens and closes nothing. -/
theorem depthOf_last (mode : Mode) (offset : Nat) : depthOf (tokensIn mode offset []) = 0 := by
  cases mode with
  | word start chars =>
    show (Lexeme.ofWord chars.reverse).depth + 0 = 0
    rw [depth_ofWord, Int.add_zero]
  | _ => rfl

theorem trim_ne_nil_of_program {text : List Char} {e : Expr} (h : Program text e) :
    trim text ≠ [] := by
  obtain ⟨s, s', hg, hexp, -⟩ := h
  obtain ⟨skipped, rfl, -⟩ := tokensFrom_gap hg
  cases hexp with
  | @intro inner _ _ _ _ _ _ _ _ =>
    have hmem : '(' ∈ trim (skipped ++ '(' :: inner) := mem_trim (by simp) (by decide)
    exact List.ne_nil_of_mem hmem

/-- **What the parser accepts is complete.** -/
theorem isComplete_of_accepted {text : List Char} {e : Expr} (h : parseChars text = .ok e) :
    isComplete text = true := by
  have htyped : trim text ≠ [] := trim_ne_nil_of_program (program_of_parseChars h)
  obtain ⟨e', he⟩ := (exists_ok_iff text).mp ⟨e, h⟩
  obtain ⟨hstring, hescape⟩ := region_of_accepted he
  have hdepth : (reached text).depth = 0 := by
    have hlast := Progress.depth_foldl (fun error => by rw [he]; simp)
    rw [he, depthOf_last] at hlast
    exact (hlast.trans (Int.add_zero _)).symm
  have hcount : (text.foldl Balance.push .initial).depth = 0 :=
    (depth_reached (reached_ne_failed he)).trans hdepth
  rw [isComplete_eq]
  simp [htyped, Balance.isClosed, hcount, region_count, hstring, hescape]

/-- A text that is only accepted with more after it ends within its program: in a string, or
with an expression open. -/
theorem within_of_unfinished {text rest : List Char} {e : Expr}
    (hreject : ∀ e, parseChars text ≠ .ok e) (hopens : OpensOutsideComments text)
    (hrest : (tokensIn (scan text).mode (scan text).offset rest).foldl Progress.push
      (reached text) = .after e) :
    (scan text).mode.region = .string ∨ (scan text).mode.region = .escape
      ∨ 0 < (reached text).depth := by
  -- outside of expressions a word that has begun is wrong already
  have hword (hp : reached text = .before ∨ ∃ e, reached text = .after e) (start : Nat)
      (chars : List Char) : (scan text).mode ≠ .word start chars := by
    intro hmode
    obtain ⟨error, herror⟩ := word_fails hp start chars rest (scan text).offset
    rw [hmode, herror] at hrest
    exact absurd hrest (by simp)
  cases hp : reached text with
  | opened outer => exact .inr (.inr (by simp only [Progress.depth]; omega))
  | inside current outer => exact .inr (.inr (by simp only [Progress.depth]; omega))
  | failed error => exact absurd hp (reached_ne_failed hrest error)
  | before =>
    -- no token yet, but something has begun
    rcases hasBegun_of_opens hopens with hfound | ⟨hbetween, hcomment⟩
    · exact absurd (found_of_reached_before hp) hfound
    · cases hmode : (scan text).mode with
      | between => exact absurd hmode hbetween
      | comment => exact absurd hmode hcomment
      | word start chars => exact absurd hmode (hword (.inl hp) start chars)
      | string start chars => exact .inl rfl
      | escape start chars => exact .inr (.inl rfl)
  | after e' =>
    -- the program is over, so that the text would be accepted as it is
    have haccepted (hlast : tokensIn (scan text).mode (scan text).offset [] = []) : False := by
      obtain ⟨e'', h⟩ := (exists_ok_iff text).mpr ⟨e', by rw [hlast, hp]; rfl⟩
      exact hreject e'' h
    cases hmode : (scan text).mode with
    | between => exact (haccepted (by rw [hmode]; rfl)).elim
    | comment => exact (haccepted (by rw [hmode]; rfl)).elim
    | word start chars => exact absurd hmode (hword (.inr ⟨e', hp⟩) start chars)
    | string start chars => exact .inl rfl
    | escape start chars => exact .inr (.inl rfl)

/-- **What is only accepted with more after it is not complete.** -/
theorem isComplete_of_unfinished {text rest : List Char} {e : Expr}
    (hreject : ∀ e, parseChars text ≠ .ok e) (hopens : OpensOutsideComments text)
    (haccept : parseChars (text ++ rest) = .ok e) : isComplete text = false := by
  have hrest : (tokensIn (scan text).mode (scan text).offset rest).foldl Progress.push
      (reached text) = .after e := by
    rw [← foldl_tokens_append]
    exact (parseChars_eq_ok_iff _ e).mp haccept
  have hopen : (text.foldl Balance.push .initial).isClosed = false := by
    unfold Balance.isClosed
    rw [depth_reached (reached_ne_failed hrest), region_count]
    rcases within_of_unfinished hreject hopens hrest with hstring | hescape | hdepth
    · simp [hstring]
    · simp [hescape]
    · have hpos : ¬ (reached text).depth ≤ 0 := by omega
      simp [hpos]
  rw [isComplete_eq, hopen, Bool.and_false]

/-! ## §8. The count fits into a machine word. -/

/-- The number of parentheses of a text, wherever they stand. -/
def parentheses (text : List Char) : Nat := text.countP fun c => c = '(' || c = ')'

theorem natAbs_depth_push (b : Balance) (c : Char) :
    (b.push c).depth.natAbs ≤ b.depth.natAbs + parentheses [c] := by
  obtain ⟨depth, region⟩ := b
  cases region with
  | code =>
    unfold Balance.push
    dsimp only
    split_ifs with hq hs ho hc
    · exact Nat.le_add_right _ _
    · exact Nat.le_add_right _ _
    · subst ho
      show (depth + 1).natAbs ≤ depth.natAbs + 1
      omega
    · subst hc
      show (depth - 1).natAbs ≤ depth.natAbs + 1
      omega
    · exact Nat.le_add_right _ _
  | comment => unfold Balance.push; dsimp only; split_ifs <;> exact Nat.le_add_right _ _
  | string => unfold Balance.push; dsimp only; split_ifs <;> exact Nat.le_add_right _ _
  | escape => exact Nat.le_add_right _ _

/-- The count is never further from zero than there are parentheses. -/
theorem natAbs_depth_foldl (text : List Char) (b : Balance) :
    (text.foldl Balance.push b).depth.natAbs ≤ b.depth.natAbs + parentheses text := by
  induction text generalizing b with
  | nil => simp
  | cons c text ih =>
    have hsplit : parentheses (c :: text) = parentheses [c] + parentheses text := by
      unfold parentheses
      rw [← List.singleton_append, List.countP_append]
    have hrest := ih (b.push c)
    have hstep := natAbs_depth_push b c
    rw [List.foldl_cons]
    omega

theorem parentheses_trim_le (text : List Char) : parentheses (trim text) ≤ parentheses text := by
  obtain ⟨blanks, -, htext⟩ := exists_trim text
  have htrim : trim text <+: text.dropWhile isWhitespace := ⟨blanks, htext.symm⟩
  exact (htrim.sublist.trans (List.dropWhile_sublist isWhitespace)).countP_le

/-- **THE COUNT AGREES WITH THE PARSER.**  With fewer than 2^31 parentheses, the count stays
within 32 bits from the first character to the last; a text that is a program is complete;
and a text that is none, but can become one by what is typed after it, is not complete once
it has opened a parenthesis. -/
theorem completeness_agrees_with_parsing (text : String)
    (h : parentheses text.toList < 2 ^ 31) :
    (∀ typed, typed <+: trim text.toList →
        -2 ^ 31 ≤ (typed.foldl Balance.push .initial).depth
          ∧ (typed.foldl Balance.push .initial).depth < 2 ^ 31)
      ∧ ((∃ e, parse text = .ok e) → isComplete text.toList = true)
      ∧ ((∀ e, parse text ≠ .ok e) → OpensOutsideComments text.toList →
          (∃ rest e, parse (text ++ rest) = .ok e) → isComplete text.toList = false) := by
  refine ⟨fun typed htyped => ?_, ?_, ?_⟩
  · have hdepth : (typed.foldl Balance.push .initial).depth.natAbs ≤ parentheses typed := by
      simpa [Balance.initial] using natAbs_depth_foldl typed .initial
    have hcount : parentheses typed ≤ parentheses (trim text.toList) :=
      htyped.sublist.countP_le
    have htrim := parentheses_trim_le text.toList
    omega
  · rintro ⟨e, he⟩
    exact isComplete_of_accepted he
  · rintro hreject hopens ⟨rest, e, haccept⟩
    unfold parse at haccept
    rw [String.toList_append] at haccept
    exact isComplete_of_unfinished hreject hopens haccept

/-- A quote in a comment and a comment sign in a string do not mislead the count, and a string
that ends in a backslash is still open. -/
theorem completeness_agrees_with_parsing_in_strings :
    isComplete "(f \"(;\" ; \" (\n \")\\".toList = false := by
  have htext : "(f \"(;\" ; \" (\n \")\\".toList
      = ['(', 'f', ' ', '"', '(', ';', '"', ' ', ';', ' ', '"', ' ', '(', '\n', ' ', '"', ')',
          '\\'] := rfl
  have hfew : parentheses "(f \"(;\" ; \" (\n \")\\".toList < 2 ^ 31 := by rw [htext]; decide
  refine (completeness_agrees_with_parsing _ hfew).2.2 (fun e => ?_) ?_ ⟨"n\")", ?_⟩
  · unfold parse
    rw [htext]
    have hparse : parseChars ['(', 'f', ' ', '"', '(', ';', '"', ' ', ';', ' ', '"', ' ', '(', '\n',
        ' ', '"', ')', '\\'] = .error ⟨15, .child⟩ := by decide
    simp [hparse]
  · refine ⟨[], _, htext, ?_⟩
    rintro ⟨before, body, -, -, hcomment⟩
    simp at hcomment
  · refine ⟨.node (.symbol "f") [.string "(;", .string ")\n"] [], ?_⟩
    unfold parse
    rw [String.toList_append, htext]
    decide

end PlotLisp.Source
