/-
  PlotLisp.Proofs.Json.Scanning
  ──────────────────────────────────────
  **WRITTEN VALUES SCAN BACK INTO THEIR TOKENS.**

  Both layouts write the same tokens (`tokensOf`).  A text is put together from
  parts, so what a part does to a scan is stated for every scan:

    • `Reads` — the part leaves the scanner between tokens;
    • `Spells` — the part may also end in a word, which whatever may follow it
      ends (`HasRead`).

  `Reads` parts may be followed by anything, `Spells` parts by a delimiter; a
  string is a part of the first kind, a numeral one of the second.
-/
import PlotLisp.Json.Printer
import PlotLisp.Json.Token
import PlotLisp.Proofs.Json.Numerals

namespace PlotLisp

/-- Every code is that of a character, or of half of one. -/
def Codes.Valid (codes : Codes) : Prop := ∀ code ∈ codes, code < 0x110000

namespace Json

/-! ## §1. Scans of parts. -/

/-- May the character end a word? -/
def isDelimiter (c : Char) : Bool := isBlank c || c = '"' || (punctuation? c).isSome

/-- The scan has read the tokens `found`, last one first; the next delimiter ends
the last one, and so does the end of the text. -/
structure Scanner.HasRead (s : Scanner) (found : List Token) : Prop where
  finish : s.finish = found.reverse
  push : ∀ c, isDelimiter c = true → s.push c = Scanner.beginAt found c

/-- Between tokens, the part is read as these tokens, and leaves the scanner between
tokens again. -/
def Reads (part : List Char) (ts : List Token) : Prop :=
  ∀ found, part.foldl Scanner.push ⟨.between, found⟩ = ⟨.between, ts.reverse ++ found⟩

/-- Between tokens, the part is read as these tokens, if a delimiter or nothing
follows it. -/
def Spells (part : List Char) (ts : List Token) : Prop :=
  ∀ found, (part.foldl Scanner.push ⟨.between, found⟩).HasRead (ts.reverse ++ found)

variable {part next : List Char} {ts us : List Token}

theorem Scanner.hasRead_between (found : List Token) : HasRead ⟨.between, found⟩ found :=
  ⟨rfl, fun _ _ => rfl⟩

/-- A word is read as soon as it cannot go on. -/
theorem Scanner.hasRead_word (word : List Char) (found : List Token) :
    HasRead ⟨.word word.reverse, found⟩ (.ofWord word :: found) where
  finish := by simp [Scanner.finish]
  push c hc := by
    have hends : (isBlank c || c = '"' || (punctuation? c).isSome) = true := hc
    simp [Scanner.push, hends]

theorem Reads.nil : Reads [] [] := fun _ => rfl

/-- What is read to its end may be followed by anything. -/
theorem Reads.append (hp : Reads part ts) (hn : Reads next us) : Reads (part ++ next) (ts ++ us) := by
  intro found
  rw [List.foldl_append, hp, hn, List.reverse_append, List.append_assoc]

/-- A part that needs no delimiter behind it may still have one. -/
theorem Reads.spells (h : Reads part ts) : Spells part ts := fun found => by
  rw [h found]
  exact Scanner.hasRead_between _

/-- Only the last part may need a delimiter behind it. -/
theorem Reads.append_spells (hp : Reads part ts) (hn : Spells next us) :
    Spells (part ++ next) (ts ++ us) := by
  intro found
  rw [List.foldl_append, hp, List.reverse_append, List.append_assoc]
  exact hn _

/-- A delimiter ends what a part spells. -/
theorem Spells.append_reads {c : Char} (hp : Spells part ts) (hc : isDelimiter c = true)
    (hn : Reads (c :: next) us) : Reads (part ++ c :: next) (ts ++ us) := by
  intro found
  have hnext : next.foldl Scanner.push (Scanner.beginAt (ts.reverse ++ found) c)
      = ⟨.between, us.reverse ++ (ts.reverse ++ found)⟩ := hn (ts.reverse ++ found)
  rw [List.foldl_append, List.foldl_cons, (hp found).push c hc, hnext, List.reverse_append,
    List.append_assoc]

/-- The tokens of a text that spells them. -/
theorem Spells.tokens_eq (h : Spells part ts) : tokens part = ts := by
  have hfinish := (h []).finish
  rw [List.append_nil, List.reverse_reverse] at hfinish
  exact hfinish

/-! ## §2. Blanks, punctuation, words. -/

/-- Blanks are read as no tokens. -/
theorem reads_blanks (blanks : List Char) (h : ∀ c ∈ blanks, isBlank c = true) :
    Reads blanks [] := by
  induction blanks with
  | nil => exact Reads.nil
  | cons c blanks ih =>
    intro found
    have hc : Scanner.push ⟨.between, found⟩ c = ⟨.between, found⟩ := by
      simp [Scanner.push, Scanner.beginAt, h c (by simp)]
    rw [List.foldl_cons, hc]
    exact ih (fun d hd => h d (by simp [hd])) found

/-- Undelimited characters go on with a word. -/
theorem foldl_push_word {rest : List Char} (h : ∀ c ∈ rest, isDelimiter c = false)
    (before : List Char) (found : List Token) :
    rest.foldl Scanner.push ⟨.word before, found⟩ = ⟨.word (rest.reverse ++ before), found⟩ := by
  induction rest generalizing before with
  | nil => rfl
  | cons c rest ih =>
    have hc : (isBlank c || c = '"' || (punctuation? c).isSome) = false := h c (by simp)
    have hpush : Scanner.push ⟨.word before, found⟩ c = ⟨.word (c :: before), found⟩ := by
      simp [Scanner.push, hc]
    rw [List.foldl_cons, hpush, ih fun d hd => h d (by simp [hd])]
    simp

/-- Undelimited characters are one word. -/
theorem spells_word {word : List Char} (hword : word ≠ [])
    (h : ∀ c ∈ word, isDelimiter c = false) : Spells word [.ofWord word] := by
  intro found
  obtain ⟨c, rest, rfl⟩ := List.exists_cons_of_ne_nil hword
  have hfirst : Scanner.push ⟨.between, found⟩ c = ⟨.word [c], found⟩ := by
    have hc := h c (by simp)
    simp only [isDelimiter, Bool.or_eq_false_iff, Option.isSome_eq_false_iff,
      Option.isNone_iff_eq_none, decide_eq_false_iff_not] at hc
    simp [Scanner.push, Scanner.beginAt, hc]
  rw [List.foldl_cons, hfirst, foldl_push_word fun d hd => h d (by simp [hd]),
    ← List.reverse_cons]
  exact Scanner.hasRead_word _ found

/-! ## §3. Strings. -/

/-- A code in hexadecimal digits, filled up with zeros in front. -/
def hexDigits (width code : Nat) : List Char :=
  List.replicate (width - (Nat.toDigits 16 code).length) '0' ++ Nat.toDigits 16 code

/-- The last digit of an escape is the remainder by sixteen. -/
theorem hexDigits_succ {width code : Nat} (hwidth : 0 < width) :
    hexDigits (width + 1) code = hexDigits width (code / 16) ++ [(code % 16).digitChar] := by
  obtain ⟨w, rfl⟩ := Nat.exists_eq_add_one.mpr hwidth
  unfold hexDigits
  by_cases h : code < 16
  · -- one digit, and one more zero
    rw [Nat.toDigits_of_lt_base h, Nat.div_eq_of_lt h, Nat.mod_eq_of_lt h, Nat.toDigits_zero]
    simp [List.replicate_succ']
  · rw [Nat.toDigits_of_base_le (by omega) (by omega), List.length_append]
    simp

/-- Four digits, first one first. -/
theorem hexDigits_four {code : Nat} (h : code < 0x10000) :
    hexDigits 4 code = [(code / 4096).digitChar, (code / 256 % 16).digitChar,
      (code / 16 % 16).digitChar, (code % 16).digitChar] := by
  have h₁ : code / 16 / 16 = code / 256 := by omega
  have h₂ : code / 256 / 16 = code / 4096 := by omega
  have hfirst : hexDigits 1 (code / 4096) = [(code / 4096).digitChar] := by
    rw [hexDigits, Nat.toDigits_of_lt_base (by omega)]
    rfl
  rw [hexDigits_succ (by omega), hexDigits_succ (by omega), hexDigits_succ (by omega), h₁, h₂, hfirst]
  rfl

theorem hexDigit?_digitChar : ∀ d < 16, hexDigit? d.digitChar = some d := by decide

/-- An escape of four digits is read as its code. -/
theorem push_hexText {code : Nat} (h : code < 0x10000) (codes : Codes) (found : List Token) :
    (hexText code).toList.foldl Scanner.push ⟨.code codes 4 0, found⟩
      = ⟨.string (code :: codes), found⟩ := by
  have hdigits : (hexText code).toList = hexDigits 4 code := String.toList_ofList
  have hvalue : 16 * (16 * (16 * (code / 4096) + code / 256 % 16) + code / 16 % 16) + code % 16
      = code := by omega
  rw [hdigits, hexDigits_four h]
  simp [Scanner.push, hexDigit?_digitChar _ (show code / 4096 < 16 by omega),
    hexDigit?_digitChar _ (Nat.mod_lt _ (show 0 < 16 by omega)), hvalue]

/-- What is written for a code of a string is read as that code. -/
theorem push_codeText {code : Nat} (h : code < 0x110000) (codes : Codes) (found : List Token) :
    (codeText code).toList.foldl Scanner.push ⟨.string codes, found⟩
      = ⟨.string (code :: codes), found⟩ := by
  unfold codeText
  split_ifs with h₁ h₂ h₃ h₄ h₅ h₆ h₇ h₈
  · subst h₁; rfl
  · subst h₂; rfl
  · subst h₃; rfl
  · subst h₄; rfl
  · subst h₅; rfl
  · subst h₆; rfl
  · subst h₇; rfl
  · -- an escape of four digits
    have hsmall : code < 0x10000 := by
      simp only [Codes.isLeading, Codes.isTrailing, Bool.or_eq_true, Bool.and_eq_true,
        decide_eq_true_eq] at h₈
      omega
    rw [String.toList_append, List.foldl_append]
    exact push_hexText hsmall codes found
  · -- the character itself
    simp only [Codes.isLeading, Codes.isTrailing, Bool.or_eq_true, Bool.and_eq_true,
      decide_eq_true_eq] at h₈
    have hvalid : code.isValidChar := by
      unfold Nat.isValidChar
      omega
    have hcode : (Char.ofNat code).toNat = code := by
      rw [Char.ofNat, dif_pos hvalid]
      rfl
    have hquote : Char.ofNat code ≠ '"' := fun hc => h₁ (by rw [← hcode, hc]; rfl)
    have hbackslash : Char.ofNat code ≠ '\\' := fun hc => h₂ (by rw [← hcode, hc]; rfl)
    have hcontrol : ¬ code < 0x20 := by omega
    rw [String.toList_singleton]
    simp [Scanner.push, hquote, hbackslash, hcode, hcontrol]

/-- What is written for codes goes on with a string. -/
theorem foldl_push_codes {codes : Codes} (h : Codes.Valid codes) (before : Codes)
    (found : List Token) :
    (codes.flatMap fun code => (codeText code).toList).foldl Scanner.push ⟨.string before, found⟩
      = ⟨.string (codes.reverse ++ before), found⟩ := by
  induction codes generalizing before with
  | nil => rfl
  | cons code rest ih =>
    rw [List.flatMap_cons, List.foldl_append, push_codeText (h code (by simp)),
      ih fun c hc => h c (by simp [hc])]
    simp

/-- A quoted string ends with its own quote, so it needs no delimiter behind it. -/
theorem reads_quoted {codes : Codes} (h : Codes.Valid codes) :
    Reads (quoted codes).toList [.string codes] := by
  intro found
  have hchars : (quoted codes).toList
      = '"' :: ((codes.flatMap fun code => (codeText code).toList) ++ ['"']) := by
    simp [quoted, String.toList_join, List.flatMap_map]
  have hopen : Scanner.push ⟨.between, found⟩ '"' = ⟨.string [], found⟩ := rfl
  rw [hchars, List.foldl_cons, hopen, List.foldl_append, foldl_push_codes h]
  simp [Scanner.push]

/-! ## §4. Parts with commas between. -/

section Intercalate

variable {α : Type} {text : α → List Char} {token : α → List Token}
variable {sep closing : List Char} {last : Token}

/-- A text that starts with a delimiter and is read as one token. -/
structure Ends (part : List Char) (t : Token) : Prop where
  head : ∃ c rest, part = c :: rest ∧ isDelimiter c = true
  reads : Reads part [t]

theorem Spells.append_ends {t : Token} (hp : Spells part ts) (h : Ends next t) :
    Reads (part ++ next) (ts ++ [t]) := by
  obtain ⟨c, rest, rfl, hc⟩ := h.head
  exact hp.append_reads hc h.reads

/-- Parts with a separator between them and a bracket behind. -/
theorem reads_intercalate (items : List α) (hparts : ∀ x ∈ items, Spells (text x) (token x))
    (hsep : Ends sep .comma) (hclosing : Ends closing last) :
    Reads (List.intercalate sep (items.map text) ++ closing)
      (List.intercalate [.comma] (items.map token) ++ [last]) := by
  induction items with
  | nil => simpa using hclosing.reads
  | cons x rest ih =>
    have hx := hparts x (by simp)
    cases rest with
    | nil => simpa using hx.append_ends hclosing
    | cons y rest =>
      have hrest := ih fun z hz => hparts z (List.mem_cons_of_mem x hz)
      simpa only [List.map_cons, List.intercalate_cons_cons, List.append_assoc]
        using (hx.append_ends hsep).append hrest

end Intercalate

/-! ## §5. The tokens of a value. -/

mutual

/-- The tokens of a value. -/
def tokensOf : Json → List Token
  | .null => [.literal .null]
  | .bool value => [.literal (.bool value)]
  | .number value => [.literal (.number value)]
  | .string codes => [.string codes]
  | .array items => .openArray :: (List.intercalate [.comma] (itemTokens items) ++ [.closeArray])
  | .object members =>
      .openObject :: (List.intercalate [.comma] (memberTokens members) ++ [.closeObject])

/-- The tokens of each item. -/
def itemTokens : List Json → List (List Token)
  | [] => []
  | item :: rest => tokensOf item :: itemTokens rest

/-- The tokens of each member. -/
def memberTokens : List (Codes × Json) → List (List Token)
  | [] => []
  | (key, value) :: rest => (.string key :: .colon :: tokensOf value) :: memberTokens rest

end

theorem itemTokens_eq_map (items : List Json) : itemTokens items = items.map tokensOf := by
  induction items with
  | nil => simp [itemTokens]
  | cons item rest ih => simp [itemTokens, ih]

theorem memberTokens_eq_map (members : List (Codes × Json)) :
    memberTokens members = members.map fun m => .string m.1 :: .colon :: tokensOf m.2 := by
  induction members with
  | nil => simp [memberTokens]
  | cons m rest ih => simp [memberTokens, ih]

theorem compactItems_eq_map (items : List Json) : compactItems items = items.map compact := by
  induction items with
  | nil => simp [compactItems]
  | cons item rest ih => simp [compactItems, ih]

theorem compactMembers_eq_map (members : List (Codes × Json)) :
    compactMembers members = members.map fun m => quoted m.1 ++ ":" ++ compact m.2 := by
  induction members with
  | nil => simp [compactMembers]
  | cons m rest ih => simp [compactMembers, ih]

theorem prettyItems_eq_map (depth : Nat) (items : List Json) :
    prettyItems depth items = items.map (prettyAt (depth + 1)) := by
  induction items with
  | nil => simp [prettyItems]
  | cons item rest ih => simp [prettyItems, ih]

theorem prettyMembers_eq_map (depth : Nat) (members : List (Codes × Json)) :
    prettyMembers depth members
      = members.map fun m => quoted m.1 ++ ": " ++ prettyAt (depth + 1) m.2 := by
  induction members with
  | nil => simp [prettyMembers]
  | cons m rest ih => simp [prettyMembers, ih]

/-! ## §6. Values are spelled. -/

/-- A digit may be inside a word. -/
theorem isDelimiter_of_isDigit {c : Char} (h : c.isDigit = true) : isDelimiter c = false := by
  have hne : ∀ {d : Char}, d.isDigit = false → c ≠ d := fun hd heq => by
    rw [heq, hd] at h
    cases h
  have hblank : isBlank c = false := by
    simp [isBlank, hne (d := ' ') rfl, hne (d := '\t') rfl, hne (d := '\n') rfl, hne (d := '\r') rfl]
  have hpunctuation : punctuation? c = none := by
    simp [punctuation?, hne (d := '[') rfl, hne (d := ']') rfl, hne (d := '\x7b') rfl,
      hne (d := '\x7d') rfl, hne (d := ':') rfl, hne (d := ',') rfl]
  simp [isDelimiter, hblank, hpunctuation, hne (d := '"') rfl]

/-- A numeral starts like none of the three names. -/
theorem ofWord_chars {n : Numeral} (h : n.WellFormed) :
    Token.ofWord n.chars = .literal (.number n) := by
  obtain ⟨c, rest, hchars, hc⟩ := h.chars_cons
  have hname : ∀ {letter : Char} {letters : List Char}, letter.isDigit = false → letter ≠ '-' →
      n.chars ≠ letter :: letters := by
    intro letter letters hdigit hminus heq
    obtain rfl : c = letter := (List.cons.inj (hchars.symm.trans heq)).1
    rcases hc with rfl | hc
    · exact hminus rfl
    · rw [hdigit] at hc
      cases hc
  have hnull : n.chars ≠ "null".toList := hname (by decide) (by decide : 'n' ≠ '-')
  have htrue : n.chars ≠ "true".toList := hname (by decide) (by decide : 't' ≠ '-')
  have hfalse : n.chars ≠ "false".toList := hname (by decide) (by decide : 'f' ≠ '-')
  rw [Token.ofWord, if_neg hnull, if_neg htrue, if_neg hfalse, Numeral.ofWord?_chars h]

/-- A well-formed numeral is a word of its own. -/
theorem spells_number {n : Numeral} (h : n.WellFormed) : Spells n.chars [.literal (.number n)] := by
  obtain ⟨c, rest, hchars, -⟩ := h.chars_cons
  rw [← ofWord_chars h]
  refine spells_word (by simp [hchars]) fun d hd => ?_
  rcases h.of_mem_chars hd with hdigit | hmem
  · exact isDelimiter_of_isDigit hdigit
  · simp only [List.mem_cons, List.not_mem_nil, or_false] at hmem
    rcases hmem with rfl | rfl | rfl | rfl <;> rfl

/-- The numerals of a value are well formed, and its strings hold codes. -/
inductive WellFormed : Json → Prop where
  | null : WellFormed .null
  | bool (value : Bool) : WellFormed (.bool value)
  | number {n : Numeral} (h : n.WellFormed) : WellFormed (.number n)
  | string {codes : Codes} (h : Codes.Valid codes) : WellFormed (.string codes)
  | array {items : List Json} (h : ∀ j ∈ items, WellFormed j) : WellFormed (.array items)
  | object {members : List (Codes × Json)} (hkeys : ∀ m ∈ members, Codes.Valid m.1)
      (hvalues : ∀ m ∈ members, WellFormed m.2) : WellFormed (.object members)

/-- A character that stands for itself. -/
theorem ends_punctuation {c : Char} {t : Token} (hc : isBlank c = false) (hquote : c ≠ '"')
    (h : punctuation? c = some t) : Ends [c] t where
  head := ⟨c, [], rfl, by simp [isDelimiter, h]⟩
  reads found := by simp [Scanner.push, Scanner.beginAt, hc, hquote, h]

theorem ends_comma : Ends [','] .comma := ends_punctuation rfl (by decide) rfl

theorem ends_colon : Ends [':'] .colon := ends_punctuation rfl (by decide) rfl

theorem ends_closeArray : Ends [']'] .closeArray := ends_punctuation rfl (by decide) rfl

theorem ends_closeObject : Ends ['\x7d'] .closeObject := ends_punctuation rfl (by decide) rfl

theorem reads_openArray : Reads ['['] [.openArray] :=
  (ends_punctuation rfl (by decide) rfl).reads

theorem reads_openObject : Reads ['\x7b'] [.openObject] :=
  (ends_punctuation rfl (by decide) rfl).reads

/-- The layout without blanks. -/
theorem spells_compact {j : Json} (h : WellFormed j) : Spells (compact j).toList (tokensOf j) := by
  induction h with
  | null => exact spells_word (by decide) (List.forall_iff_forall_mem.mp (by decide))
  | bool value =>
    cases value <;> exact spells_word (by decide) (List.forall_iff_forall_mem.mp (by decide))
  | number h => simpa [compact, tokensOf] using spells_number h
  | string h => simpa only [compact, tokensOf] using (reads_quoted h).spells
  | @array items h ih =>
    have htext : (compact (.array items)).toList
        = ['['] ++ (List.intercalate [','] (items.map fun j => (compact j).toList) ++ [']']) := by
      simp [compact, compactItems_eq_map, Function.comp_def]
    rw [htext, tokensOf, itemTokens_eq_map]
    exact (reads_openArray.append (reads_intercalate items ih ends_comma ends_closeArray)).spells
  | @object members hkeys hvalues ih =>
    have htext : (compact (.object members)).toList
        = ['\x7b'] ++ (List.intercalate [',']
            (members.map fun m => (quoted m.1).toList ++ ([':'] ++ (compact m.2).toList))
          ++ ['\x7d']) := by
      simp [compact, compactMembers_eq_map, Function.comp_def]
    rw [htext, tokensOf, memberTokens_eq_map]
    refine (reads_openObject.append (reads_intercalate members (fun m hm => ?_) ends_comma
      ends_closeObject)).spells
    exact (reads_quoted (hkeys m hm)).append_spells (ends_colon.reads.append_spells (ih m hm))

/-! ## §7. The layout in lines. -/

/-- A new line and blanks are no tokens. -/
theorem reads_newline (depth : Nat) : Reads (newline depth).toList [] := by
  refine reads_blanks _ fun c hc => ?_
  simp only [newline, String.toList_append, List.mem_append, String.toList_ofList] at hc
  rcases hc with hc | hc
  · obtain rfl : c = '\n' := by simpa using hc
    rfl
  · rw [List.eq_of_mem_replicate hc]
    rfl

/-- A bracket may stand on a line of its own. -/
theorem Ends.on_newline {t : Token} (h : Ends part t) (depth : Nat) :
    Ends ((newline depth).toList ++ part) t where
  head := ⟨'\n', List.replicate (2 * depth) ' ' ++ part, by simp [newline], rfl⟩
  reads := (reads_newline depth).append h.reads

/-- A comma may end a line. -/
theorem Ends.then_newline {t : Token} (h : Ends part t) (depth : Nat) :
    Ends (part ++ (newline depth).toList) t where
  head := by
    obtain ⟨c, rest, rfl, hc⟩ := h.head
    exact ⟨c, rest ++ (newline depth).toList, rfl, hc⟩
  reads := h.reads.append (reads_newline depth)

/-- Parts in lines between brackets. -/
theorem reads_bracketed {α : Type} {first last : Token} {text : α → String}
    {token : α → List Token} (opening closing : String) (depth : Nat) (items : List α)
    (hopening : Reads opening.toList [first]) (hclosing : Ends closing.toList last)
    (hparts : ∀ x ∈ items, Spells (text x).toList (token x)) :
    Reads (bracketed depth opening closing (items.map text)).toList
      (first :: (List.intercalate [.comma] (items.map token) ++ [last])) := by
  cases items with
  | nil => simpa [bracketed] using hopening.append hclosing.reads
  | cons x rest =>
    have htext : (bracketed depth opening closing ((x :: rest).map text)).toList
        = opening.toList ++ ((newline (depth + 1)).toList
          ++ (List.intercalate ([','] ++ (newline (depth + 1)).toList)
              ((x :: rest).map fun x => (text x).toList)
            ++ ((newline depth).toList ++ closing.toList))) := by
      simp [bracketed, Function.comp_def]
    rw [htext]
    exact hopening.append ((reads_newline (depth + 1)).append (reads_intercalate (x :: rest) hparts
      (ends_comma.then_newline (depth + 1)) (hclosing.on_newline depth)))

/-- The layout with indentation has the same tokens: only blanks are added. -/
theorem spells_prettyAt {j : Json} (h : WellFormed j) (depth : Nat) :
    Spells (prettyAt depth j).toList (tokensOf j) := by
  induction h generalizing depth with
  | null => simpa only [prettyAt, compact] using spells_compact .null
  | bool value => simpa only [prettyAt, compact] using spells_compact (.bool value)
  | number h => simpa only [prettyAt, compact] using spells_compact (.number h)
  | string h => simpa only [prettyAt, compact] using spells_compact (.string h)
  | @array items h ih =>
    rw [prettyAt, prettyItems_eq_map, tokensOf, itemTokens_eq_map]
    exact (reads_bracketed "[" "]" depth items reads_openArray ends_closeArray
      fun j hj => ih j hj (depth + 1)).spells
  | @object members hkeys hvalues ih =>
    rw [prettyAt, prettyMembers_eq_map, tokensOf, memberTokens_eq_map]
    have hcolon : Reads [':', ' '] [.colon] :=
      ends_colon.reads.append (reads_blanks [' '] (by simp [isBlank]))
    refine (reads_bracketed "\x7b" "\x7d" depth members reads_openObject ends_closeObject
      fun m hm => ?_).spells
    simpa using (reads_quoted (hkeys m hm)).append_spells
      (hcolon.append_spells (ih m hm (depth + 1)))

end Json

end PlotLisp
