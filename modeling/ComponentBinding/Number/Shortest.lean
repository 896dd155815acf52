import ComponentBinding.Number.Decimal

/-! The text of a binary datum: the fewest decimal digits that read back to it, written out in full.
A number reads back to a datum when it lies between the midpoints to the neighbouring magnitudes,
ends included for an even rank. Powers of ten form grids; the coarsest grid with a point between
the midpoints gives the digits. -/
namespace ComponentBinding.Binary

variable {f : FloatFormat}

/-- The numerator and denominator of a power of ten. -/
def powerOfTen (exponent : Int) : Nat × Nat :=
  if 0 ≤ exponent then (Nat.pow 10 exponent.toNat, 1) else (1, Nat.pow 10 (-exponent).toNat)

/-- Whether `point` times ten to the `exponent` rounds to the magnitude of the datum. -/
def roundsHere (x : Binary f) (exponent : Int) (point : Nat) : Bool :=
  let (up, down) := powerOfTen exponent
  let place := point * up * Nat.pow 2 (f.scale + 1)
  let low := (f.units (x.rank - 1) + f.units x.rank) * down
  let high := (f.units x.rank + f.units (x.rank + 1)) * down
  if x.rank % 2 = 0 then low ≤ place && place ≤ high else low < place && place < high

/-- The grid point nearest to the datum among those that round to it; of two the larger. -/
def gridPoint? (x : Binary f) (exponent : Int) : Option Nat :=
  let (up, down) := powerOfTen exponent
  let num := f.units x.rank * down
  let den := Nat.pow 2 f.scale * up
  let below := num / den
  match x.roundsHere exponent below, x.roundsHere exponent (below + 1) with
  | true, true => some (if 2 * (num % den) < den then below else below + 1)
  | true, false => some below
  | false, true => some (below + 1)
  | false, false => none

/-- The point on the coarsest grid, trying exponents from `steps - scale` downwards. On the last
grid the datum itself is a point. -/
def shortest (x : Binary f) : (steps : Nat) → Nat × Int
  | 0 => (f.units x.rank * Nat.pow 5 f.scale, -f.scale)
  | steps + 1 =>
    let exponent := (steps + 1 : Int) - f.scale
    match x.gridPoint? exponent with
    | some point => (point, exponent)
    | none => x.shortest steps

/-- A decimal number without an exponent mark, and without a point if it is whole. -/
def positional (coefficient : Nat) (exponent : Int) : String :=
  let digits := Nat.toDigits 10 coefficient
  if 0 ≤ exponent then String.ofList (digits ++ List.replicate exponent.toNat '0')
  else
    let places := (-exponent).toNat
    let padded := List.replicate (places + 1 - digits.length) '0' ++ digits
    String.ofList (padded.take (padded.length - places) ++ '.' :: padded.drop (padded.length - places))

/-- Zero keeps its sign; a datum that is not a number has none. -/
def text (x : Binary f) : String :=
  if x.isNaN then "NaN"
  else
    let unsigned :=
      if x.isZero then "0"
      else if x.isFinite then
        let wholeDigits := (Nat.toDigits 10 (f.units x.rank / Nat.pow 2 f.scale)).length
        let (point, exponent) := x.shortest (wholeDigits + f.scale)
        positional point exponent
      else "inf"
    if x.negative then "-" ++ unsigned else unsigned

end ComponentBinding.Binary
