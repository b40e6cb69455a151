/-
  PlotLisp.Json.Numeral
  ──────────────────────────────────────
  **NUMBERS IN JSON.**

  A numeral is a number as it is spelled; spelling and value are related by
  two rules of their own.

    • Writing takes the shortest digits that read back, ties to even: plain
      notation with at least one decimal from `10⁻⁵` to below `10¹⁶`, and a
      signed exponent outside.
    • Reading takes as many leading digits as fit 64 bits and applies the
      power of ten with one multiplication or division; a value beyond every
      double is refused.
-/
import PlotLisp.Number.Reading
import PlotLisp.Number.Shortest

namespace PlotLisp

/-! ## §1. Spelling. -/

/-- A number as it is spelled: a sign, the digits before and after the point,
and the sign and digits of an exponent. -/
structure Numeral where
  negative : Bool
  whole : List Char
  fraction : List Char
  exponent : Option (Bool × List Char)
deriving DecidableEq, Repr

namespace Numeral

/-- The characters of a numeral. -/
def chars (n : Numeral) : List Char :=
  (if n.negative then ['-'] else []) ++ n.whole
    ++ (if n.fraction.isEmpty then [] else '.' :: n.fraction)
    ++ match n.exponent with
      | none => []
      | some (negative, digits) => 'e' :: (if negative then '-' else '+') :: digits

/-- Are these the digits of a whole number, without a needless zero in front? -/
def isWhole (digits : List Char) : Bool :=
  digits = ['0'] || (!digits.isEmpty && digits.head? != some '0')

/-- The exponent that makes up the whole of the text, where there is one. -/
def exponent? : List Char → Option (Option (Bool × List Char))
  | [] => some none
  | mark :: rest =>
      if mark = 'e' || mark = 'E' then
        let (negative, digits) := takeSign rest
        if digits.isEmpty || !digits.all Char.isDigit then none
        else some (some (negative, digits))
      else none

/-- The numeral that a word spells, if it spells one. -/
def ofWord? (word : List Char) : Option Numeral :=
  let (negative, rest) :=
    match word with
    | '-' :: rest => (true, rest)
    | rest => (false, rest)
  let whole := rest.takeWhile Char.isDigit
  let rest := rest.dropWhile Char.isDigit
  let (fraction, tail) := takeFraction rest
  if !isWhole whole || (rest.head? == some '.' && fraction.isEmpty) then none
  else (exponent? tail).map fun exponent => ⟨negative, whole, fraction, exponent⟩

/-! ## §2. Writing doubles. -/

/-- The orders of magnitude that are written without an exponent. -/
def isPlain (order : Int) : Bool := -5 ≤ order && order < 16

/-- The numeral of chosen digits. -/
def ofDecimal (negative : Bool) (d : Decimal) : Numeral :=
  if isPlain d.order then
    let (whole, fraction) := d.split
    ⟨negative, whole, if fraction.isEmpty then ['0'] else fraction, none⟩
  else
    ⟨negative, d.digits.take 1, d.digits.drop 1,
      some (d.order < 0, Decimal.digitsOf d.order.natAbs)⟩

/-- The numeral of a finite double. -/
def ofFloat? (x : Float) : Option Numeral :=
  match Binary.ofFloat x with
  | .finite negative m q =>
      some (if m = 0 then ⟨negative, ['0'], ['0'], none⟩
        else ofDecimal negative (shortest .toEven m q))
  | _ => none

/-! ## §3. Reading doubles. -/

/-- The digits taken so far, the power of ten still to apply, and whether more
digits are wanted. -/
structure Significand where
  value : Nat
  exponent : Int
  isFull : Bool
deriving DecidableEq, Repr

/-- Take a digit before the point; once the significand is full, each further
one counts as a power of ten. -/
def Significand.takeWhole (s : Significand) (digit : Char) : Significand :=
  let value := 10 * s.value + digitsValue [digit]
  if s.isFull || Nat.pow 2 64 ≤ value then { s with exponent := s.exponent + 1, isFull := true }
  else { s with value := value }

/-- Take a digit after the point, unless the significand is full. -/
def Significand.takeDecimal (s : Significand) (digit : Char) : Significand :=
  let value := 10 * s.value + digitsValue [digit]
  if s.isFull || Nat.pow 2 64 ≤ value then { s with isFull := true }
  else { s with value := value, exponent := s.exponent - 1 }

/-- The leading digits of a numeral as a number and a power of ten. -/
def significand (n : Numeral) : Significand :=
  let s := n.whole.foldl Significand.takeWhole ⟨0, 0, false⟩
  n.fraction.foldl Significand.takeDecimal { s with isFull := false }

/-- The power of ten that the exponent spells. -/
def power (n : Numeral) : Int :=
  match n.exponent with
  | none => 0
  | some (negative, digits) => if negative then -(digitsValue digits : Int) else digitsValue digits

/-- The greatest power of ten among doubles. -/
def greatestPower : Nat := 308

/-- A power of ten as a double. -/
def powerOfTen (n : Nat) : Float := Float.ofScientific 1 false n

/-- Apply a power of ten; a product beyond every double is refused, and a
quotient may vanish. -/
def applyPower (x : Float) (power : Int) : Option Float :=
  if 0 ≤ power then
    if power ≤ greatestPower then
      let product := x * powerOfTen power.natAbs
      if product.isInf then none else some product
    else if x == 0.0 then some x
    else none
  else if -(greatestPower : Int) ≤ power then some (x / powerOfTen power.natAbs)
  else
    -- too small a power for one division
    let left := power + greatestPower
    if -(greatestPower : Int) ≤ left then
      some (x / powerOfTen greatestPower / powerOfTen left.natAbs)
    else some 0.0

/-- The double that a numeral is read as. -/
def toFloat? (n : Numeral) : Option Float :=
  let s := n.significand
  (applyPower (Float.ofNat s.value) (s.exponent + n.power)).map (signed n.negative)

end Numeral

end PlotLisp
