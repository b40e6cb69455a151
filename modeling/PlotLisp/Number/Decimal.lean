/-
  PlotLisp.Number.Decimal
  ──────────────────────────────────────
  **DECIMAL DIGITS OF AN EXACT VALUE.**

  A positive rational is written with a first digit, the digits after it and
  an order of magnitude: `d₀.d₁d₂… · 10 ^ order`.

    • `orderOf r` — the `k` with `10 ^ k ≤ r < 10 ^ (k + 1)`;
    • `significant p r` — the `p`-digit decimal nearest to `r`, ties to the
      even last digit (a carry into the next decade moves the order);
    • `positional` and `mantissaText` — the two layouts of chosen digits.
-/

namespace PlotLisp

/-! ## §1. Order of magnitude. -/

/-- The number of decimal digits of `n`; zero has one. -/
def digitCount (n : Nat) : Nat :=
  if n < 10 then 1 else digitCount (n / 10) + 1

/-- The `k` with `10 ^ k ≤ r < 10 ^ (k + 1)`, for positive `r`.  Below one, `j`
decades up are needed exactly when `10 ^ j` reaches the least whole number
not below `1 / r`. -/
def orderOf (r : Rat) : Int :=
  let num := r.num.toNat
  if r.den ≤ num then (digitCount (num / r.den) : Int) - 1
  else -(digitCount ((r.den + num - 1) / num - 1) : Int)

/-- The nearest whole number, the even one of two equally near. -/
def roundHalfEven (r : Rat) : Int :=
  let low := r.floor
  let rest := r - (low : Rat)
  if rest < 1 / 2 then low
  else if 1 / 2 < rest then low + 1
  else if low % 2 = 0 then low
  else low + 1

/-! ## §2. Chosen digits. -/

/-- `digits` read with a point after the first one, times `10 ^ order`. -/
structure Decimal where
  digits : List Char
  order : Int
deriving DecidableEq, Repr

namespace Decimal

/-- The digits of a whole number, first digit first. -/
def digitsOf (n : Nat) : List Char :=
  Nat.toDigits 10 n

/-- The decimal with `p` significant digits nearest to `r`, ties to even. -/
def significant (p : Nat) (r : Rat) : Decimal :=
  let k := orderOf r
  let rounded := (roundHalfEven (r * (10 : Rat) ^ ((p : Int) - 1 - k))).toNat
  -- rounding up can carry into the next decade
  if rounded = Nat.pow 10 p then ⟨digitsOf (Nat.pow 10 (p - 1)), k + 1⟩
  else ⟨digitsOf rounded, k⟩

/-! ## §3. Layouts. -/

/-- Drop the zeros at the end. -/
def trimZeros (digits : List Char) : List Char :=
  (digits.reverse.dropWhile (· = '0')).reverse

/-- The digits before and after the point in plain notation, zeros filled in
where the digits do not reach. -/
def split (d : Decimal) : List Char × List Char :=
  if d.order < 0 then
    (['0'], List.replicate (-d.order - 1).toNat '0' ++ d.digits)
  else
    let places := d.order.toNat + 1
    ((d.digits ++ List.replicate (places - d.digits.length) '0').take places,
      d.digits.drop places)

/-- A whole part and a fraction; the fraction loses its last zeros, and the
point goes with an empty fraction. -/
def pointed (whole fraction : List Char) : List Char :=
  match trimZeros fraction with
  | [] => whole
  | fraction => whole ++ '.' :: fraction

/-- Plain notation, without an exponent. -/
def positional (d : Decimal) : List Char :=
  pointed d.split.1 d.split.2

/-- The digits with a point after the first one, as scientific notation
shows them. -/
def mantissaText (d : Decimal) : List Char :=
  pointed (d.digits.take 1) (d.digits.drop 1)

end Decimal

end PlotLisp
