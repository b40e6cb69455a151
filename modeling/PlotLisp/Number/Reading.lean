/-
  PlotLisp.Number.Reading
  ──────────────────────────────────────
  **DECIMALS READ AS DOUBLES.**

  A number word is `sign? digit+ ('.' digit*)? ((e|E) sign? digit+)?`.  Its
  value is the double nearest to the decimal it spells, ties to even; too
  large a decimal is an infinity, too small a one is zero.
-/
import PlotLisp.Number.Decimal

namespace PlotLisp

/-! ## §1. The value of a decimal. -/

/-- The whole number that digits spell. -/
def digitsValue (digits : List Char) : Nat :=
  digits.foldl (fun n d => 10 * n + (d.toNat - '0'.toNat)) 0

/-- The double nearest to `digits · 10 ^ exponent`.  Decimals of an order
beyond every double are decided without computing the power. -/
def nearestDouble (digits : Nat) (exponent : Int) : Float :=
  let order := (digitCount digits : Int) + exponent
  if digits = 0 || order < -330 then 0.0
  else if 310 < order then 1.0 / 0.0
  else Float.ofScientific digits (exponent < 0) exponent.natAbs

/-- The value with its sign; a zero keeps it. -/
def signed (negative : Bool) (x : Float) : Float :=
  if negative then -x else x

/-! ## §2. The shape of a number word. -/

/-- A sign, if there is one, and what follows. -/
def takeSign : List Char → Bool × List Char
  | '-' :: rest => (true, rest)
  | '+' :: rest => (false, rest)
  | rest => (false, rest)

/-- The digits after a point, if there is a point, and what follows. -/
def takeFraction : List Char → List Char × List Char
  | '.' :: rest => (rest.takeWhile Char.isDigit, rest.dropWhile Char.isDigit)
  | rest => ([], rest)

/-- The exponent that makes up the whole of the text; no text is exponent
zero. -/
def readExponent? : List Char → Option Int
  | [] => some 0
  | mark :: rest =>
      if mark = 'e' || mark = 'E' then
        let (negative, digits) := takeSign rest
        if digits.isEmpty || !digits.all Char.isDigit then none
        else
          let n : Int := digitsValue digits
          some (if negative then -n else n)
      else none

/-- The value of a number word, if the word is one. -/
def readNumber? (word : List Char) : Option Float :=
  let (negative, rest) := takeSign word
  let whole := rest.takeWhile Char.isDigit
  -- what the fraction leaves must be an exponent
  let (fraction, rest) := takeFraction (rest.dropWhile Char.isDigit)
  if whole.isEmpty then none
  else
    (readExponent? rest).map fun exponent =>
      signed negative (nearestDouble (digitsValue (whole ++ fraction)) (exponent - fraction.length))

/-- Does the word start like a number, with a digit or a signed digit? -/
def startsLikeNumber (word : List Char) : Bool :=
  match (takeSign word).2 with
  | c :: _ => c.isDigit
  | [] => false

end PlotLisp
