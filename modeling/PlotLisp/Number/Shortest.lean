/-
  PlotLisp.Number.Shortest
  ──────────────────────────────────────
  **THE FEWEST DIGITS THAT READ BACK.**

  The reals that round to a given double form an interval around it: half a
  gap to each side, a quarter below a power of two, ends included exactly
  when the mantissa is even.  On the decimal grids of 1, 2, … 17 digits the
  first one with a point in that interval gives the digits; of two such
  points the nearer, and of two equally near the one that the format prefers.

  `plainText` is the notation of numbers inside messages: never an exponent.
-/
import PlotLisp.Number.Binary
import PlotLisp.Number.Decimal

namespace PlotLisp

/-! ## §1. The interval of a double. -/

/-- The half gap above `mantissa · 2 ^ exponent`. -/
def gapAbove (exponent : Int) : Rat :=
  (2 : Rat) ^ (exponent - 1)

/-- The half gap below; the neighbour below a power of two is nearer. -/
def gapBelow (mantissa : Nat) (exponent : Int) : Rat :=
  if mantissa = Nat.pow 2 Binary.fractionBits ∧ Binary.leastExponent < exponent then
    (2 : Rat) ^ (exponent - 2)
  else
    (2 : Rat) ^ (exponent - 1)

/-- Does the rational `r` round to `mantissa · 2 ^ exponent`? -/
def readsBack (mantissa : Nat) (exponent : Int) (r : Rat) : Bool :=
  let v := Binary.magnitude mantissa exponent
  let low := v - gapBelow mantissa exponent
  let high := v + gapAbove exponent
  (low < r && r < high) || (mantissa % 2 = 0 && (r = low || r = high))

/-! ## §2. The search. -/

/-- Which of two equally near decimals is written. -/
inductive TieRule where
  | upward
  | toEven
deriving DecidableEq, Repr

/-- Of two neighbours on a grid, `low` and `low + 1`, the one nearer to `t`. -/
def nearer (tie : TieRule) (t : Rat) (low : Nat) : Nat :=
  let rest := t - (low : Rat)
  if rest < 1 / 2 then low
  else if 1 / 2 < rest then low + 1
  else match tie with
    | .upward => low + 1
    | .toEven => if low % 2 = 0 then low else low + 1

/-- The point of the `n`-digit grid that is written for the double, if one of
the value's two neighbours reads back. -/
def gridPoint? (tie : TieRule) (mantissa : Nat) (exponent : Int) (n : Nat) : Option Decimal :=
  let v := Binary.magnitude mantissa exponent
  let k := orderOf v
  -- the value, counted in units of the grid
  let shift := (n : Int) - 1 - k
  let t := v * (10 : Rat) ^ shift
  let low := t.floor.toNat
  let fits (c : Nat) : Bool := readsBack mantissa exponent ((c : Rat) * (10 : Rat) ^ (-shift))
  let chosen? :=
    match fits low, fits (low + 1) with
    | true, true => some (nearer tie t low)
    | true, false => some low
    | false, true => some (low + 1)
    | false, false => none
  chosen?.map fun c =>
    -- the point above the last one of a decade is the first one of the next
    if c = Nat.pow 10 n then ⟨['1'], k + 1⟩ else ⟨Decimal.trimZeros (Decimal.digitsOf c), k⟩

/-- The shortest digits that read back as the positive double
`mantissa · 2 ^ exponent`. -/
def shortest (tie : TieRule) (mantissa : Nat) (exponent : Int) : Decimal :=
  match (List.range 17).findSome? fun n => gridPoint? tie mantissa exponent (n + 1) with
  | some d => d
  -- 17 digits always read back
  | none => Decimal.significant 17 (Binary.magnitude mantissa exponent)

/-! ## §3. Plain text. -/

/-- The shortest text of a double without an exponent, as messages show it. -/
def plainText (x : Float) : String :=
  match Binary.ofFloat x with
  | .nan => "NaN"
  | .infinite negative => if negative then "-inf" else "inf"
  | .finite negative m q =>
      let text := if m = 0 then ['0'] else (shortest .upward m q).positional
      String.ofList (if negative then '-' :: text else text)

end PlotLisp
