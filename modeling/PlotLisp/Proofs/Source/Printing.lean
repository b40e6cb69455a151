/-
  PlotLisp.Proofs.Source.Printing
  ──────────────────────────────────────
  **PRINTED EXPRESSIONS ARE READ BACK.**

  A tree whose heads are tokens prints as a program, except that strings are
  printed as they are while the parser unescapes what it reads:

    • `Unescaped` — contents that spell themselves between quotes
      (`quoted_of_unescaped`);
    • `Quoted.eq_contents` — a printed string that is read as itself is
      unescaped and ends at its own closing quote, whatever follows it.  Once
      a backslash of the text stands for less than itself, what is read stays
      behind the text for good (`Quoted.ne_backslashes_append`);
    • `text_node` — what a node prints as;
    • `exists_expression`, `unescaped_of_expression` — the two directions, by
      induction over the tree, each in the middle of any text;
    • `text_is_reread_iff` — the round trip.

  Numbers come back as what their six digits spell (`Rereads`).
-/
import PlotLisp.Expr.Text
import PlotLisp.Proofs.Expr.Trees
import PlotLisp.Proofs.Number.Significant
import PlotLisp.Proofs.Source.Acceptance

namespace PlotLisp

open Source Source.Grammar

/-! ## §1. Trees that are printed and read. -/

/-- The whole of a text is a symbol. -/
def Source.Grammar.Symbol (word : List Char) : Prop := Word word [] ∧ ¬ NumberLike word

/-- Contents without quotes in which every backslash has a character behind it, other than those
that it changes. -/
def Unescaped (contents : List Char) : Prop :=
  '"' ∉ contents ∧ ∀ before after, contents = before ++ '\\' :: after →
    ∃ c rest, after = c :: rest ∧ c ∉ ['n', 't', '\\']

namespace Atom

/-- A finite number, a string, or a symbol of the grammar other than `list`. -/
def IsToken : Atom → Prop
  | .number x => x.isFinite = true
  | .symbol name => Symbol name.toList ∧ name ≠ Expr.listName
  | .string _ => True
  | .none | .complex _ => False

/-- If the atom is a string, it spells itself. -/
def IsUnescaped : Atom → Prop
  | .string contents => Unescaped contents.toList
  | _ => True

/-- The atom comes back, a number as the double that its text spells. -/
inductive Rereads : Atom → Atom → Prop where
  | number {x y} : Number (numberText x).toList y → Rereads (.number x) (.number y)
  | symbol (name : String) : Rereads (.symbol name) (.symbol name)
  | string (contents : String) : Rereads (.string contents) (.string contents)

end Atom

namespace Expr

/-- The tree comes back without its properties, and its numbers as what their texts spell. -/
inductive Rereads : Expr → Expr → Prop where
  | node {head head' : Atom} {tail tail' : List Expr} {props : List (String × Expr)} :
      head.Rereads head' → List.Forall₂ Rereads tail tail' →
      Rereads (.node head tail props) (.node head' tail' [])

end Expr

/-! ## §2. Contents that spell themselves. -/

section Contents

variable {c : Char} {contents : List Char}

theorem unescaped_nil : Unescaped [] := ⟨List.not_mem_nil, by simp⟩

theorem unescaped_cons_iff (hc : c ≠ '\\') :
    Unescaped (c :: contents) ↔ c ≠ '"' ∧ Unescaped contents := by
  simp only [Unescaped, List.mem_cons, not_or, List.cons_eq_append_iff]
  constructor
  · rintro ⟨⟨hquote, hquotes⟩, hescapes⟩
    exact ⟨Ne.symm hquote, hquotes, fun before after h =>
      hescapes (c :: before) after (.inr ⟨before, rfl, h⟩)⟩
  · rintro ⟨hquote, hquotes, hescapes⟩
    refine ⟨⟨Ne.symm hquote, hquotes⟩, fun before after h => ?_⟩
    rcases h with ⟨-, h⟩ | ⟨before', -, h⟩
    · injection h with h _
      exact absurd h.symm hc
    · exact hescapes before' after h

theorem unescaped_escape_iff :
    Unescaped ('\\' :: c :: contents) ↔ c ∉ ['"', 'n', 't', '\\'] ∧ Unescaped contents := by
  constructor
  · rintro ⟨hquotes, hescapes⟩
    obtain ⟨c', rest, h, hc⟩ := hescapes [] (c :: contents) rfl
    obtain ⟨rfl, rfl⟩ := List.cons.inj h
    have hrest : Unescaped (c :: contents) :=
      ⟨fun h => hquotes (List.mem_cons_of_mem _ h), fun before after h =>
        hescapes ('\\' :: before) after (by rw [h, List.cons_append])⟩
    obtain ⟨hquote, hrest⟩ := (unescaped_cons_iff (by simp_all)).mp hrest
    exact ⟨by simp_all, hrest⟩
  · rintro ⟨hc, hrest⟩
    simp only [List.mem_cons, List.not_mem_nil, or_false, not_or] at hc
    obtain ⟨hquotes, hescapes⟩ := (unescaped_cons_iff hc.2.2.2).mpr ⟨hc.1, hrest⟩
    refine ⟨by simp [hquotes], fun before after h => ?_⟩
    rcases List.cons_eq_append_iff.mp h with ⟨-, h⟩ | ⟨before', -, h⟩
    · injection h with _ h
      exact ⟨c, contents, h, by simp [hc]⟩
    · exact hescapes before' after h

/-- A backslash changes most characters not at all. -/
theorem escaped_eq (hc : c ∉ ['"', 'n', 't', '\\']) : escaped c = ['\\', c] := by
  simp only [List.mem_cons, List.not_mem_nil, or_false, not_or] at hc
  unfold escaped
  split <;> simp_all

/-- The others stand for a backslash or for another character. -/
theorem escaped_cases (c : Char) :
    (c ∉ ['"', 'n', 't', '\\'] ∧ escaped c = ['\\', c])
      ∨ (c = '\\' ∧ escaped c = ['\\'])
      ∨ ∃ d, d ≠ '\\' ∧ escaped c = [d] := by
  by_cases hc : c ∈ ['"', 'n', 't', '\\']
  · simp only [List.mem_cons, List.not_mem_nil, or_false] at hc
    rcases hc with rfl | rfl | rfl | rfl
    · exact .inr (.inr ⟨'"', by decide, rfl⟩)
    · exact .inr (.inr ⟨'\n', by decide, rfl⟩)
    · exact .inr (.inr ⟨'\t', by decide, rfl⟩)
    · exact .inr (.inl ⟨rfl, rfl⟩)
  · exact .inl ⟨hc, escaped_eq hc⟩

/-- Unescaped contents spell themselves. -/
theorem quoted_of_unescaped (contents : List Char) (h : Unescaped contents) :
    Quoted contents contents := by
  match contents with
  | [] => exact .nil
  | c :: contents =>
    by_cases hb : c = '\\'
    · subst hb
      cases contents with
      | nil =>
        obtain ⟨c, rest, hrest, -⟩ := h.2 [] [] rfl
        cases hrest
      | cons c contents =>
        obtain ⟨hc, h⟩ := unescaped_escape_iff.mp h
        have hquoted : Quoted ('\\' :: c :: contents) (escaped c ++ contents) :=
          .escape (quoted_of_unescaped contents h)
        rwa [escaped_eq hc] at hquoted
    · obtain ⟨hq, h⟩ := (unescaped_cons_iff hb).mp h
      exact .plain hq hb (quoted_of_unescaped contents h)
termination_by contents.length

variable {body rest rest' : List Char}

theorem replicate_append_cons (n : Nat) (c : Char) (rest : List Char) :
    List.replicate n c ++ c :: rest = List.replicate (n + 1) c ++ rest := by
  rw [List.replicate_succ', List.append_assoc, List.singleton_append]

/-- The contents of a string never begin with its body behind more backslashes. -/
theorem Source.Grammar.Quoted.ne_backslashes_append (h : Quoted body contents) (extra : Nat) :
    contents ++ '"' :: rest ≠ List.replicate (extra + 1) '\\' ++ (body ++ '"' :: rest') := by
  induction h generalizing extra with
  | nil => simp [List.replicate_succ]
  | plain _ hb _ _ => simp [List.replicate_succ, hb]
  | @escape c body contents _ ih =>
    rw [List.cons_append, List.cons_append, replicate_append_cons]
    rcases escaped_cases c with ⟨hc, hescaped⟩ | ⟨rfl, hescaped⟩ | ⟨d, hd, hescaped⟩
    · -- the second character tells
      simp only [List.mem_cons, List.not_mem_nil, or_false, not_or] at hc
      simp [hescaped, List.replicate_succ, hc]
    · -- two backslashes stand for one: the body falls back by one more
      rw [hescaped, replicate_append_cons, List.replicate_succ (n := extra + 2)]
      exact fun heq => ih (extra + 1) (List.cons.inj heq).2
    · simp [hescaped, List.replicate_succ, hd]

/-- **A printed string that is read as itself ends at its own quote**, whatever follows. -/
theorem Source.Grammar.Quoted.eq_contents (h : Quoted body contents)
    (heq : contents ++ '"' :: rest = body ++ '"' :: rest') :
    body = contents ∧ Unescaped contents := by
  induction h with
  | nil => exact ⟨rfl, unescaped_nil⟩
  | plain hq hb _ ih =>
    obtain ⟨rfl, h⟩ := ih (List.cons.inj heq).2
    exact ⟨rfl, (unescaped_cons_iff hb).mpr ⟨hq, h⟩⟩
  | @escape c body contents h ih =>
    rcases escaped_cases c with ⟨hc, hescaped⟩ | ⟨rfl, hescaped⟩ | ⟨d, hd, hescaped⟩
    · rw [hescaped] at heq ⊢
      obtain ⟨rfl, h⟩ := ih (List.cons.inj (List.cons.inj heq).2).2
      exact ⟨rfl, unescaped_escape_iff.mpr ⟨hc, h⟩⟩
    · rw [hescaped] at heq
      exact absurd (List.cons.inj heq).2 (h.ne_backslashes_append 0)
    · rw [hescaped] at heq
      exact absurd (List.cons.inj heq).1 hd

end Contents

/-! ## §3. Number words. -/

theorem not_delimiter_of_isDigit {d : Char} (h : d.isDigit = true) : ¬ Delimiter d := by
  intro hd
  simp only [Delimiter, Blank, List.mem_cons, List.not_mem_nil, or_false] at hd
  rcases hd with (rfl | rfl | rfl | rfl) | (rfl | rfl | rfl | rfl) <;> exact absurd h (by decide)

theorem Source.Grammar.Sign.inner {sign : List Char} {negative : Bool} (h : Sign sign negative) :
    ∀ c ∈ sign, ¬ Delimiter c := by
  cases h <;> simp [Delimiter, Blank]

/-- A number is a word. -/
theorem Source.Grammar.Number.word {word : List Char} {x : Float} (h : Number word x) :
    Word word [] := by
  cases h with
  | @intro sign negative whole fraction decimals exponent _ n hs hne hw hf he =>
    refine ⟨by simp [hne], ?_, by simp⟩
    have hwhole : ∀ c ∈ whole, ¬ Delimiter c := fun c hc => not_delimiter_of_isDigit (hw c hc)
    have hfraction : ∀ c ∈ fraction, ¬ Delimiter c := by
      cases hf with
      | none => simp
      | point hd =>
        exact List.forall_mem_cons.mpr ⟨by simp [Delimiter, Blank],
          fun c hc => not_delimiter_of_isDigit (hd c hc)⟩
    have hexponent : ∀ c ∈ exponent, ¬ Delimiter c := by
      cases he with
      | none => simp
      | @mark e sign negative digits hmark hs _ hd =>
        have hfirst : ¬ Delimiter e := by
          simp only [List.mem_cons, List.not_mem_nil, or_false] at hmark
          rcases hmark with rfl | rfl <;> simp [Delimiter, Blank]
        rw [List.cons_append]
        exact List.forall_mem_cons.mpr ⟨hfirst, List.forall_mem_append.mpr
          ⟨hs.inner, fun c hc => not_delimiter_of_isDigit (hd c hc)⟩⟩
    simp only [List.forall_mem_append]
    exact ⟨⟨⟨hs.inner, hwhole⟩, hfraction⟩, hexponent⟩

/-- A well-formed numeral is a number of the grammar. -/
theorem Numeral.WellFormed.exists_number {n : Numeral} (h : n.WellFormed) :
    ∃ x, Number n.chars x := by
  have hsign : Sign (if n.negative then ['-'] else []) n.negative := by
    cases n.negative
    · exact .none
    · exact .minus
  have hfraction :
      Fraction (if n.fraction.isEmpty then [] else '.' :: n.fraction) n.fraction := by
    cases hempty : n.fraction with
    | nil => exact .none
    | cons d rest => exact .point (hempty ▸ h.fraction)
  have hexponent : ∃ k, Exponent n.exponentChars k := by
    unfold Numeral.exponentChars
    cases he : n.exponent with
    | none => exact ⟨0, .none⟩
    | some part =>
      obtain ⟨negative, digits⟩ := part
      obtain ⟨hne, hdigits⟩ := h.exponent negative digits he
      cases negative with
      | false => exact ⟨_, .mark (by simp) .plus hne hdigits⟩
      | true => exact ⟨_, .mark (by simp) .minus hne hdigits⟩
  obtain ⟨k, hexponent⟩ := hexponent
  rw [n.chars_eq]
  -- some double is nearest to every decimal
  have hvalue := isNearestDouble_signed n.negative (Nat.ofDigitChars 10 (n.whole ++ n.fraction) 0)
    (k - n.fraction.length)
  exact ⟨_, .intro hsign (Numeral.isWhole_ne_nil h.isWhole) h.whole hfraction hexponent hvalue⟩

/-- A finite number prints as a number. -/
theorem exists_number_numberText {x : Float} (hx : x.isFinite = true) :
    ∃ y, Number (Atom.numberText x).toList y := by
  obtain ⟨n, hn, htext⟩ := exists_significantText hx Atom.printedDigits
  unfold Atom.numberText
  rw [htext]
  exact hn.exists_number

/-! ## §4. Tokens in a text. -/

section Tokens

variable {word rest rest' : List Char}

theorem Source.Grammar.Word.append (h : Word word []) (hrest : ∀ c ∈ rest.head?, Delimiter c) :
    Word word rest :=
  ⟨h.nonempty, h.inner, hrest⟩

theorem Source.Grammar.Word.exists_cons (h : Word word rest) :
    ∃ c more, word = c :: more ∧ ¬ Delimiter c := by
  obtain ⟨c, more, rfl⟩ := List.exists_cons_of_ne_nil h.nonempty
  exact ⟨c, more, rfl, h.inner c List.mem_cons_self⟩

/-- A word goes as far as it can. -/
theorem Source.Grammar.Word.rest_eq {word' : List Char} (h : Word word rest)
    (h' : Word word' rest') (heq : word ++ rest = word' ++ rest') : rest = rest' := by
  rcases List.append_eq_append_iff.mp heq with ⟨middle, hword, hrest⟩ | ⟨middle, hword, hrest⟩
  · cases middle with
    | nil => exact hrest
    | cons c middle =>
      exact absurd (h.ends c (by simp [hrest])) (h'.inner c (by simp [hword]))
  · cases middle with
    | nil => exact hrest.symm
    | cons c middle =>
      exact absurd (h'.ends c (by simp [hrest])) (h.inner c (by simp [hword]))

/-- Where a word stands, an atom ends with it. -/
theorem Source.Grammar.Word.atomic_rest (h : Word word rest) {a : Atom}
    (ha : Atomic (word ++ rest) a rest') : rest' = rest := by
  generalize htext : word ++ rest = text at ha
  cases ha with
  | number hw _ => exact (h.rest_eq hw htext).symm
  | symbol hw _ => exact (h.rest_eq hw htext).symm
  | string hq =>
    obtain ⟨c, more, rfl, hc⟩ := h.exists_cons
    obtain rfl : c = '"' := (List.cons.inj htext).1
    exact absurd (.inr (by simp)) hc

theorem quoted_of_atomic {contents : String} {text : List Char}
    (h : Atomic ('"' :: text) (.string contents) rest) :
    ∃ body, text = body ++ '"' :: rest ∧ Quoted body contents.toList := by
  generalize htext : '"' :: text = text' at h
  cases h with
  | @string body contents _ hq =>
    rw [String.toList_ofList]
    exact ⟨body, (List.cons.inj htext).2, hq⟩

/-- An unescaped token is read from its text. -/
theorem exists_atomic {a : Atom} (ha : a.IsToken) (hescape : a.IsUnescaped)
    (hrest : ∀ c ∈ rest.head?, Delimiter c) :
    ∃ a', a.Rereads a' ∧ Atomic (a.text.toList ++ rest) a' rest := by
  cases a with
  | none => exact ha.elim
  | complex z => exact ha.elim
  | number x =>
    obtain ⟨y, hy⟩ := exists_number_numberText ha
    exact ⟨.number y, .number hy, .number (hy.word.append hrest) hy⟩
  | symbol name =>
    obtain ⟨⟨hword, hlike⟩, -⟩ := ha
    have hatomic := Atomic.symbol (hword.append hrest) hlike
    rw [String.ofList_toList] at hatomic
    exact ⟨.symbol name, .symbol name, hatomic⟩
  | string contents =>
    have hatomic : Atomic ('"' :: contents.toList ++ '"' :: rest)
        (.string (String.ofList contents.toList)) rest :=
      .string (quoted_of_unescaped contents.toList hescape)
    rw [String.ofList_toList] at hatomic
    refine ⟨.string contents, .string contents, ?_⟩
    simpa [Atom.text] using hatomic

/-- A token that is read back from its text is unescaped, and nothing behind it is read. -/
theorem unescaped_of_atomic {a a' : Atom} (ha : a.IsToken)
    (hrest : ∀ c ∈ rest.head?, Delimiter c) (h : Atomic (a.text.toList ++ rest) a' rest')
    (hback : a.Rereads a') : a.IsUnescaped ∧ rest' = rest := by
  cases hback with
  | number hy => exact ⟨trivial, (hy.word.append hrest).atomic_rest h⟩
  | symbol name => exact ⟨trivial, (ha.1.1.append hrest).atomic_rest h⟩
  | string contents =>
    have htext : (Atom.string contents).text.toList ++ rest
        = '"' :: (contents.toList ++ '"' :: rest) := by
      simp [Atom.text]
    rw [htext] at h
    obtain ⟨body, hsplit, hquoted⟩ := quoted_of_atomic h
    obtain ⟨rfl, hcontents⟩ := hquoted.eq_contents hsplit
    exact ⟨hcontents, (List.cons.inj (List.append_cancel_left hsplit)).2.symm⟩

end Tokens

/-! ## §5. Printed nodes. -/

namespace Expr

/-- The children as they stand behind a head. -/
def tailText (tail : List Expr) : List Char := tail.flatMap fun e => ' ' :: e.text.toList

theorem tailText_cons (e : Expr) (tail : List Expr) :
    tailText (e :: tail) = ' ' :: (e.text.toList ++ tailText tail) := rfl

theorem spaced_texts (e : Expr) (tail : List Expr) :
    ' ' :: (spaced (texts (e :: tail))).toList = tailText (e :: tail) := by
  induction tail generalizing e with
  | nil => simp [spaced, texts, tailText]
  | cons next tail ih =>
    rw [tailText_cons, ← ih next]
    simp [spaced, texts]

theorem isList_eq_false {e : Expr} (h : e.head.IsToken) : e.isList = false := by
  cases e with
  | node head tail props =>
    cases head with
    | symbol name => simpa [isList, headSymbol?, Expr.head, Atom.symbol?] using h.2
    | _ => rfl

theorem isLambda_eq_false {e : Expr} (h : EveryHead Atom.IsToken e) : e.isLambda = false := by
  cases h with
  | @node head tail props hhead htail =>
    unfold isLambda
    split
    next params body _ heq =>
      injection heq with _ htail' _
      have hparams := isList_eq_false (htail params (by simp [htail'])).head
      simp [hparams]
    next => rfl

/-- **A node prints as its head and its children in parentheses.** -/
theorem text_node {head : Atom} {tail : List Expr} {props : List (String × Expr)}
    (h : EveryHead Atom.IsToken (.node head tail props)) :
    (Expr.node head tail props).text.toList
      = '(' :: (head.text.toList ++ (tailText tail ++ [')'])) := by
  unfold text
  simp only [isLambda_eq_false h, isList_eq_false h.head, Bool.false_eq_true, if_false]
  cases tail with
  | nil =>
    have hleaf : leafText head = parenthesised head.text := by
      cases head <;> first | rfl | exact h.head.elim
    simp [isLeaf, Expr.tail, hleaf, parenthesised, tailText]
  | cons e tail =>
    rw [← spaced_texts]
    simp [isLeaf, Expr.tail, parenthesised]

end Expr

/-! ## §6. Gaps before tokens. -/

section Gaps

variable {c : Char} {text rest : List Char}

/-- No gap is left where something else starts. -/
theorem Source.Grammar.Gap.eq_of_cons (h : Gap (c :: text) rest) (hb : ¬ Blank c) (hc : c ≠ ';') :
    rest = c :: text := by
  generalize htext : c :: text = text' at h
  cases h with
  | none => rfl
  | blank hblank _ =>
    obtain ⟨rfl, -⟩ := List.cons.inj htext
    exact absurd hblank hb
  | comment _ _ _ =>
    obtain ⟨rfl, -⟩ := List.cons.inj htext
    exact absurd rfl hc

/-- Behind a blank and before a parenthesis, nothing but the parenthesis starts. -/
theorem Source.Grammar.Gap.eq_of_blank (h : Gap (' ' :: '(' :: text) (c :: rest)) (hc : c ≠ ' ') :
    c :: rest = '(' :: text := by
  cases h with
  | none => exact absurd rfl hc
  | blank _ h => exact h.eq_of_cons (by simp [Blank]) (by decide)

/-- An atom starts with a quote, or with what is no delimiter. -/
theorem Source.Grammar.Atomic.head {a : Atom} (h : Atomic text a rest) :
    ∃ c more, text = c :: more ∧ (c = '"' ∨ ¬ Delimiter c) := by
  cases h with
  | number hw _ | symbol hw _ =>
    obtain ⟨c, more, rfl, hc⟩ := hw.exists_cons
    exact ⟨c, _, rfl, .inr hc⟩
  | string _ => exact ⟨'"', _, rfl, .inl rfl⟩

/-- A printed token starts like an atom. -/
theorem Atom.IsToken.head_text {a : Atom} (ha : a.IsToken) :
    ∃ c more, a.text.toList = c :: more ∧ (c = '"' ∨ ¬ Delimiter c) := by
  cases a with
  | none => exact ha.elim
  | complex z => exact ha.elim
  | string contents => exact ⟨'"', contents.toList ++ ['"'], by simp [Atom.text], .inl rfl⟩
  | number x =>
    obtain ⟨y, hy⟩ := exists_number_numberText ha
    obtain ⟨c, more, hsplit, hc⟩ := hy.word.exists_cons
    exact ⟨c, more, hsplit, .inr hc⟩
  | symbol name =>
    obtain ⟨c, more, hsplit, hc⟩ := ha.1.1.exists_cons
    exact ⟨c, more, hsplit, .inr hc⟩

/-- There is no gap in front of a printed token. -/
theorem Atom.IsToken.eq_of_gap {a : Atom} (ha : a.IsToken) {s : List Char}
    (h : Gap (a.text.toList ++ rest) s) : s = a.text.toList ++ rest := by
  obtain ⟨c, more, hsplit, hstart⟩ := ha.head_text
  rw [hsplit] at h ⊢
  rcases hstart with rfl | hc
  · exact h.eq_of_cons (by simp [Blank]) (by decide)
  · exact h.eq_of_cons (fun hb => hc (.inl hb)) (by rintro rfl; simp [Delimiter] at hc)

end Gaps

/-! ## §7. There and back. -/

section RoundTrip

open PlotLisp.Expr

variable {e : Expr} {tail : List Expr} {rest : List Char}

/-- Behind a head stands a blank or the closing parenthesis. -/
theorem delimiter_of_mem_tailText :
    ∀ c ∈ (tailText tail ++ ')' :: rest).head?, Delimiter c := by
  intro c hc
  cases tail with
  | nil =>
    obtain rfl : ')' = c := by simpa [tailText] using hc
    exact .inr (by simp)
  | cons e tail =>
    obtain rfl : ' ' = c := by simpa [tailText_cons] using hc
    exact .inl (by simp [Blank])

theorem exists_children (tail : List Expr)
    (h : ∀ e ∈ tail, ∀ rest, ∃ e', e.Rereads e' ∧ Expression (e.text.toList ++ rest) e' rest)
    (rest : List Char) :
    ∃ tail', List.Forall₂ Expr.Rereads tail tail'
      ∧ Children (tailText tail ++ ')' :: rest) tail' rest := by
  induction tail with
  | nil => exact ⟨[], .nil, .close .none⟩
  | cons e tail ih =>
    obtain ⟨hfirst, hothers⟩ := List.forall_mem_cons.mp h
    obtain ⟨tail', hback', hchildren⟩ := ih hothers
    obtain ⟨e', hback, hexpression⟩ := hfirst (tailText tail ++ ')' :: rest)
    refine ⟨e' :: tail', .cons hback hback', ?_⟩
    rw [tailText_cons, List.cons_append, List.append_assoc]
    exact .expression (.blank (by simp [Blank]) .none) hexpression hchildren

/-- **Unescaped trees are read from their text**, in the middle of any other. -/
theorem exists_expression (h : EveryHead Atom.IsToken e)
    (hescape : EveryHead Atom.IsUnescaped e) :
    ∀ rest, ∃ e', e.Rereads e' ∧ Expression (e.text.toList ++ rest) e' rest := by
  induction h with
  | @node head tail props hhead htail ih =>
    intro rest
    obtain ⟨hhead', htail'⟩ := hescape
    obtain ⟨tail', hback', hchildren⟩ :=
      exists_children tail (fun e he => ih e he (htail' e he)) rest
    obtain ⟨head', hback, hatomic⟩ := exists_atomic hhead hhead' delimiter_of_mem_tailText
    refine ⟨.node head' tail' [], .node hback hback', ?_⟩
    rw [text_node (.node hhead htail)]
    simpa using Expression.intro .none hatomic hchildren

theorem text_eq_cons (h : EveryHead Atom.IsToken e) : ∃ inner, e.text.toList = '(' :: inner := by
  cases h with
  | node hhead htail => exact ⟨_, text_node (.node hhead htail)⟩

theorem unescaped_of_children {tail' : List Expr} {rest' : List Char}
    (h : ∀ e ∈ tail, EveryHead Atom.IsToken e)
    (ih : ∀ e ∈ tail, ∀ {rest e' rest'}, Expression (e.text.toList ++ rest) e' rest' →
      e.Rereads e' → EveryHead Atom.IsUnescaped e ∧ rest' = rest)
    (hchildren : Children (tailText tail ++ ')' :: rest) tail' rest')
    (hback : List.Forall₂ Expr.Rereads tail tail') :
    (∀ e ∈ tail, EveryHead Atom.IsUnescaped e) ∧ rest' = rest := by
  induction hback with
  | nil =>
    cases hchildren with
    | close hg =>
      have hend : ')' :: rest' = ')' :: rest := hg.eq_of_cons (by simp [Blank]) (by decide)
      exact ⟨List.forall_mem_nil _, (List.cons.inj hend).2⟩
  | @cons e e' tail tail' hback _ ihtail =>
    obtain ⟨htoken, htokens⟩ := List.forall_mem_cons.mp h
    obtain ⟨hfirst, hothers⟩ := List.forall_mem_cons.mp ih
    obtain ⟨inner, hinner⟩ := text_eq_cons htoken
    rw [tailText_cons, List.cons_append, List.append_assoc] at hchildren
    cases hchildren with
    | @atom _ s a s' _ _ hg ha hc =>
      -- the child starts with a parenthesis, as no atom does
      obtain ⟨c, more, rfl, hstart⟩ := ha.head
      rw [hinner] at hg
      have hopening := hg.eq_of_blank (by rintro rfl; simp [Delimiter, Blank] at hstart)
      obtain ⟨rfl, -⟩ := List.cons.inj hopening
      simp [Delimiter] at hstart
    | @expression _ s _ s' _ _ hg he hc =>
      have hs : s = e.text.toList ++ (tailText tail ++ ')' :: rest) := by
        rw [hinner] at hg ⊢
        cases he with
        | intro _ _ _ => exact hg.eq_of_blank (by decide)
      subst hs
      obtain ⟨hescape, rfl⟩ := hfirst he hback
      obtain ⟨hescapes, hend⟩ := ihtail htokens hothers hc
      exact ⟨List.forall_mem_cons.mpr ⟨hescape, hescapes⟩, hend⟩

/-- **A tree that is read back from its text is unescaped**, and nothing behind the text is read. -/
theorem unescaped_of_expression (h : EveryHead Atom.IsToken e) :
    ∀ {rest e' rest'}, Expression (e.text.toList ++ rest) e' rest' → e.Rereads e' →
      EveryHead Atom.IsUnescaped e ∧ rest' = rest := by
  induction h with
  | @node head tail props hhead htail ih =>
    intro rest e' rest' hexpression hback
    have htext : (Expr.node head tail props).text.toList ++ rest
        = '(' :: (head.text.toList ++ (tailText tail ++ ')' :: rest)) := by
      simp [text_node (.node hhead htail)]
    rw [htext] at hexpression
    obtain ⟨hback, hbacks⟩ := hback
    cases hexpression with
    | intro hg ha hc =>
      rw [hhead.eq_of_gap hg] at ha
      obtain ⟨hescape, rfl⟩ := unescaped_of_atomic hhead delimiter_of_mem_tailText ha hback
      obtain ⟨hescapes, hend⟩ := unescaped_of_children htail ih hc hbacks
      exact ⟨.node hescape hescapes, hend⟩

/-- **PRINTED EXPRESSIONS ARE READ BACK UNLESS THEY HOLD A QUOTE OR AN ESCAPE.**  A tree of finite
numbers, strings and symbols other than `list` is parsed from its own text, as the same tree with
the numbers that their six digits spell, exactly if no string has a quote in it, nor a backslash
without a character behind it that it leaves alone. -/
theorem text_is_reread_iff (h : EveryHead Atom.IsToken e) :
    (∃ e', parse e.text = .ok e' ∧ e.Rereads e') ↔ EveryHead Atom.IsUnescaped e := by
  simp only [parse_eq_ok_iff]
  constructor
  · rintro ⟨e', ⟨s, s', hg, hexpression, -⟩, hback⟩
    obtain ⟨inner, hinner⟩ := text_eq_cons h
    rw [hinner] at hg
    obtain rfl := hg.eq_of_cons (by simp [Blank]) (by decide)
    rw [← hinner, ← List.append_nil e.text.toList] at hexpression
    exact (unescaped_of_expression h hexpression hback).1
  · intro hescape
    obtain ⟨e', hback, hexpression⟩ := exists_expression h hescape []
    rw [List.append_nil] at hexpression
    exact ⟨e', ⟨_, _, .none, hexpression, .none⟩, hback⟩

/-- `(f ("a\b") (1e+21))` is read back.  `(f ("\") ("\"))` is not: a backslash hides the quote
behind it, and the quotes that are left pair up in another way. -/
theorem text_is_reread_iff_of_backslashes :
    (∃ e', parse (Expr.node (.symbol "f") [.string "a\\b", .number 1e21] []).text = .ok e'
        ∧ (Expr.node (.symbol "f") [.string "a\\b", .number 1e21] []).Rereads e')
      ∧ ¬ ∃ e', parse (Expr.node (.symbol "f") [.string "\\", .string "\\"] []).text = .ok e'
        ∧ (Expr.node (.symbol "f") [.string "\\", .string "\\"] []).Rereads e' := by
  have hsymbol : (Atom.symbol "f").IsToken := by
    refine ⟨⟨⟨by decide, by simp [Delimiter, Blank], by simp⟩, ?_⟩, by decide⟩
    rw [numberLike_iff]
    decide
  have hleaf : ∀ {P : Atom → Prop} {a : Atom}, P a → EveryHead P (.atom a) :=
    fun ha => .node ha (List.forall_mem_nil _)
  have hpair : ∀ {P : Expr → Prop} {a b : Expr}, P a → P b → ∀ e ∈ [a, b], P e :=
    fun ha hb => List.forall_mem_cons.mpr ⟨ha, List.forall_mem_singleton.mpr hb⟩
  have hone : (Atom.number 1e21).IsToken := by
    show (1e21 : Float).isFinite = true
    decide +kernel
  have hplain : Unescaped "a\\b".toList :=
    (unescaped_cons_iff (by decide)).mpr ⟨by decide,
      unescaped_escape_iff.mpr ⟨by decide, unescaped_nil⟩⟩
  have hhidden : ¬ Unescaped "\\".toList := fun h => by
    obtain ⟨c, rest, hrest, -⟩ := h.2 [] [] rfl
    cases hrest
  constructor
  · refine (text_is_reread_iff (.node hsymbol ?_)).mpr (.node trivial ?_)
    · exact hpair (hleaf trivial) (hleaf hone)
    · exact hpair (hleaf hplain) (hleaf trivial)
  · intro hback
    have hstring : EveryHead Atom.IsToken (.string "\\") := hleaf trivial
    obtain ⟨-, hescapes⟩ :=
      (text_is_reread_iff (.node hsymbol (hpair hstring hstring))).mp hback
    exact hhidden (hescapes _ List.mem_cons_self).head

end RoundTrip

end PlotLisp
