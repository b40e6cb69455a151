/-
  PlotLisp.Number.Significant
  ──────────────────────────────────────
  **NUMBERS WITH A FIXED COUNT OF SIGNIFICANT DIGITS.**

  The notation in which values and tick labels are printed: at most `p`
  digits, correctly rounded, zeros at the end of a fraction dropped, and an
  exponent where plain notation would be long:

    • scientific below `10⁻⁴` and from `10 ^ p` on, with a signed exponent of
      at least two digits;
    • plain otherwise, with as many decimals as `p` digits leave after the
      point.

  The order that decides is the one of the rounded value.  Plain notation
  rounds the value anew, to its decimals.
-/
import PlotLisp.Number.Binary
import PlotLisp.Number.Decimal

namespace PlotLisp

/-! ## §1. Layout. -/

/-- The exponent of scientific notation: a sign and at least two digits. -/
def exponentText (order : Int) : List Char :=
  let digits := Decimal.digitsOf order.natAbs
  (if order < 0 then '-' else '+') :: (if digits.length < 2 then '0' :: digits else digits)

/-- Orders that `p` digits show in scientific notation. -/
def isScientific (p : Nat) (order : Int) : Bool :=
  order < -4 || (p : Int) ≤ order

/-- `r` in plain notation with at most `places` decimals, ties to even. -/
def fixedText (places : Nat) (r : Rat) : List Char :=
  let units := (roundHalfEven (r * (10 : Rat) ^ places)).toNat
  Decimal.pointed (Decimal.digitsOf (units / Nat.pow 10 places))
    ((Decimal.digitsOf (units % Nat.pow 10 places)).leftpad places '0')

/-- `r` with at most `p` significant digits. -/
def generalText (p : Nat) (r : Rat) : List Char :=
  let d := Decimal.significant p r
  if isScientific p d.order then d.mantissaText ++ 'e' :: exponentText d.order
  else fixedText ((p : Int) - 1 - d.order).toNat r

/-! ## §2. Text of a double. -/

/-- `x` with at most `precision` significant digits; no digits at all count
as one. -/
def significantText (x : Float) (precision : Nat) : String :=
  let p := max precision 1
  match Binary.ofFloat x with
  | .nan => "nan"
  | .infinite negative => if negative then "-inf" else "inf"
  | .finite negative m q =>
      let text := if m = 0 then ['0'] else generalText p (Binary.magnitude m q)
      String.ofList (if negative then '-' :: text else text)

end PlotLisp
