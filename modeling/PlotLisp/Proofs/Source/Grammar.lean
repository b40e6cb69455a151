/-
  PlotLisp.Proofs.Source.Grammar
  ──────────────────────────────────────
  **THE GRAMMAR OF PROGRAMS.**

  What a program text is, said without a scanner and without a parser.  Each
  relation reads a text from the left, as `R text value rest`: a part of the
  kind `R` with the given value stands at the start of `text`, and `rest`
  comes after it.

      number      sign? digit+ ('.' digit*)? ([eE] sign? digit+)?
      symbol      other words that do not start with sign? digit
      string      '"' (backslash any | any but '"' and backslash)* '"'
      expression  '(' atom (expression | atom)* ')'

  A word is a maximal run of characters that are no delimiters.  Blanks and
  comments may stand between tokens and around the program (`Gap`), never
  inside a token.
-/
import PlotLisp.Proofs.Number.Nearest
import PlotLisp.Source.Parse

namespace PlotLisp.Source.Grammar

/-! ## §1. Characters. -/

/-- Space, tab, carriage return and line feed. -/
def Blank (c : Char) : Prop := c ∈ [' ', '\t', '\r', '\n']

/-- The blanks, the parentheses, the quote, and the sign that opens a comment. -/
def Delimiter (c : Char) : Prop := Blank c ∨ c ∈ ['(', ')', '"', ';']

/-- Decimal digits only. -/
def Digits (ds : List Char) : Prop := ∀ d ∈ ds, d.isDigit = true

/-! ## §2. Blanks and comments. -/

/-- A line ends here: at a line feed or with the text. -/
def LineEnds (rest : List Char) : Prop := ∀ c ∈ rest.head?, c = '\n'

/-- Any number of blanks and comments. -/
inductive Gap : List Char → List Char → Prop where
  | none {rest} : Gap rest rest
  | blank {c text rest} : Blank c → Gap text rest → Gap (c :: text) rest
  /-- A comment runs to the end of its line. -/
  | comment {body text rest} : '\n' ∉ body → LineEnds text → Gap text rest →
      Gap (';' :: body ++ text) rest

/-! ## §3. Numbers. -/

/-- A sign that may be left out, and whether it makes the number negative. -/
inductive Sign : List Char → Bool → Prop where
  | none : Sign [] false
  | plus : Sign ['+'] false
  | minus : Sign ['-'] true

/-- A point with the digits after it, both of which may be left out. -/
inductive Fraction : List Char → List Char → Prop where
  | none : Fraction [] []
  | point {digits} : Digits digits → Fraction ('.' :: digits) digits

/-- An exponent that may be left out; it is zero then. -/
inductive Exponent : List Char → Int → Prop where
  | none : Exponent [] 0
  | mark {e sign negative digits} : e ∈ ['e', 'E'] → Sign sign negative → digits ≠ [] →
      Digits digits →
      Exponent (e :: sign ++ digits)
        (if negative then -(Nat.ofDigitChars 10 digits 0 : Int) else Nat.ofDigitChars 10 digits 0)

/-- A number word, and the double nearest to the decimal it spells: the digits on
both sides of the point as one whole number, times the power of ten that the
exponent and the place of the point make up. -/
inductive Number : List Char → Float → Prop where
  | intro {sign negative whole fraction decimals exponent x} {n : Int} :
      Sign sign negative → whole ≠ [] → Digits whole → Fraction fraction decimals →
      Exponent exponent n →
      IsNearestDouble negative
        (Nat.ofDigitChars 10 (whole ++ decimals) 0 * (10 : Rat) ^ (n - decimals.length)) x →
      Number (sign ++ whole ++ fraction ++ exponent) x

/-- A word that starts with a digit or a signed digit. -/
inductive NumberLike : List Char → Prop where
  | intro {sign negative d rest} : Sign sign negative → d.isDigit = true →
      NumberLike (sign ++ d :: rest)

/-! ## §4. Words and strings. -/

/-- A word that ends where a delimiter follows, or nothing at all. -/
structure Word (word rest : List Char) : Prop where
  nonempty : word ≠ []
  inner : ∀ c ∈ word, ¬ Delimiter c
  ends : ∀ c ∈ rest.head?, Delimiter c

/-- What a backslash and the character after it stand for. -/
def escaped : Char → List Char
  | 'n' => ['\n']
  | 't' => ['\t']
  | '\\' => ['\\']
  | '"' => ['"']
  | c => ['\\', c]

/-- The text between two quotes, and the contents it spells. -/
inductive Quoted : List Char → List Char → Prop where
  | nil : Quoted [] []
  | plain {c body contents} : c ≠ '"' → c ≠ '\\' → Quoted body contents →
      Quoted (c :: body) (c :: contents)
  | escape {c body contents} : Quoted body contents →
      Quoted ('\\' :: c :: body) (escaped c ++ contents)

/-! ## §5. Atoms, expressions and programs. -/

/-- An atom. -/
inductive Atomic : List Char → Atom → List Char → Prop where
  | number {word x rest} : Word word rest → Number word x →
      Atomic (word ++ rest) (.number x) rest
  | symbol {word rest} : Word word rest → ¬ NumberLike word →
      Atomic (word ++ rest) (.symbol (String.ofList word)) rest
  | string {body contents rest} : Quoted body contents →
      Atomic ('"' :: body ++ '"' :: rest) (.string (String.ofList contents)) rest

mutual

/-- An expression: its head is an atom.  The tree of `(a)` is the leaf `a`. -/
inductive Expression : List Char → Expr → List Char → Prop where
  | intro {text s head s' es rest} : Gap text s → Atomic s head s' → Children s' es rest →
      Expression ('(' :: text) (.node head es []) rest

/-- The children of an expression and its closing parenthesis. -/
inductive Children : List Char → List Expr → List Char → Prop where
  | close {text rest} : Gap text (')' :: rest) → Children text [] rest
  | atom {text s a s' es rest} : Gap text s → Atomic s a s' → Children s' es rest →
      Children text (.atom a :: es) rest
  | expression {text s e s' es rest} : Gap text s → Expression s e s' → Children s' es rest →
      Children text (e :: es) rest

end

/-- A program: one expression, with blanks and comments around it. -/
def Program (text : List Char) (e : Expr) : Prop :=
  ∃ s s', Gap text s ∧ Expression s e s' ∧ Gap s' []

end PlotLisp.Source.Grammar
