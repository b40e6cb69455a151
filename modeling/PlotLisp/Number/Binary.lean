/-
  PlotLisp.Number.Binary
  ──────────────────────────────────────
  **DOUBLES AS EXACT RATIONALS.**

  A finite double is `± mantissa · 2 ^ exponent`, and every text of a number
  is chosen by comparing that rational exactly.  `Binary.ofFloat` reads the
  three fields off the bit pattern:

    • 1 bit of sign, 11 bits of biased exponent, 52 bits of fraction;
    • biased exponent 2047 marks the infinities (fraction 0) and NaN;
    • biased exponent 0 marks zero and the subnormals, which have no
      implicit leading bit.
-/

namespace PlotLisp

/-! ## §1. The fields of a double. -/

/-- What a double denotes. -/
inductive Binary where
  | nan
  | infinite (negative : Bool)
  | finite (negative : Bool) (mantissa : Nat) (exponent : Int)
deriving DecidableEq, Repr

namespace Binary

/-- The number of fraction bits of a double. -/
def fractionBits : Nat := 52

/-- The exponent of the last place of the subnormals. -/
def leastExponent : Int := -1074

/-- The double with these sign, biased exponent and fraction fields. -/
def ofFields (negative : Bool) (biased fraction : Nat) : Binary :=
  if biased = 2047 then
    if fraction = 0 then .infinite negative else .nan
  else if biased = 0 then
    .finite negative fraction leastExponent
  else
    .finite negative (Nat.pow 2 fractionBits + fraction) ((biased : Int) - 1075)

/-- Read a double's bit pattern. -/
def ofFloat (x : Float) : Binary :=
  let bits := x.toBits.toNat
  ofFields (bits / Nat.pow 2 63 == 1) (bits / Nat.pow 2 fractionBits % Nat.pow 2 11)
    (bits % Nat.pow 2 fractionBits)

/-! ## §2. The exact value. -/

/-- `mantissa · 2 ^ exponent`, the distance of a finite double from zero. -/
def magnitude (mantissa : Nat) (exponent : Int) : Rat :=
  (mantissa : Rat) * (2 : Rat) ^ exponent

/-- The exact value of a finite double. -/
def value? : Binary → Option Rat
  | .finite negative m q => some (if negative then -magnitude m q else magnitude m q)
  | _ => none

end Binary

end PlotLisp
