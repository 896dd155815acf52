/-! Binary floating-point data.
The magnitudes of a format are counted in increasing order from zero, so a datum is a sign and a
rank; arithmetic is exact on whole multiples of the format's least positive magnitude. -/
namespace ComponentBinding

/-- A binary interchange format, given by its stored significand and exponent widths. -/
structure FloatFormat where
  significandBits : Nat
  exponentBits : Nat
  deriving DecidableEq, Repr

namespace FloatFormat

def binary32 : FloatFormat := ⟨23, 8⟩
def binary64 : FloatFormat := ⟨52, 11⟩

/-- Infinity follows every finite magnitude; the ranks above it hold no number. -/
def infinityRank (f : FloatFormat) : Nat := (Nat.pow 2 f.exponentBits - 1) * Nat.pow 2 f.significandBits

def rankCount (f : FloatFormat) : Nat := Nat.pow 2 f.exponentBits * Nat.pow 2 f.significandBits

/-- The least positive magnitude is one unit, two to the power `-scale`. -/
def scale (f : FloatFormat) : Nat := Nat.pow 2 (f.exponentBits - 1) + f.significandBits - 2

/-- The magnitude of a rank in units. -/
def units (f : FloatFormat) (rank : Nat) : Nat :=
  let binade := rank / Nat.pow 2 f.significandBits
  if binade = 0 then rank
  else (Nat.pow 2 f.significandBits + rank % Nat.pow 2 f.significandBits) * Nat.pow 2 (binade - 1)

/-- The whole number nearest to a quotient; a half goes to the even neighbour. -/
def roundHalfEven (num den : Nat) : Nat :=
  let quotient := num / den
  let twice := 2 * (num % den)
  if twice < den then quotient
  else if den < twice then quotient + 1
  else quotient + quotient % 2

/-- The rank nearest to `num / den` units; a half goes to the even rank, and what is too large
becomes infinity. -/
def nearestRank (f : FloatFormat) (num den : Nat) : Nat :=
  let shift := (num / den).log2 - f.significandBits
  min (shift * Nat.pow 2 f.significandBits + roundHalfEven num (den * Nat.pow 2 shift)) f.infinityRank

theorem infinityRank_lt (f : FloatFormat) : f.infinityRank < f.rankCount :=
  Nat.mul_lt_mul_of_pos_right (Nat.sub_lt (Nat.two_pow_pos _) Nat.one_pos) (Nat.two_pow_pos _)

theorem nearestRank_le (f : FloatFormat) (num den : Nat) :
    f.nearestRank num den ≤ f.infinityRank := Nat.min_le_right ..

end FloatFormat

/-- A floating-point datum: its sign and the rank of its magnitude. -/
structure Binary (f : FloatFormat) where
  negative : Bool
  rank : Nat
  rank_lt : rank < f.rankCount
  deriving DecidableEq

abbrev Binary32 := Binary .binary32
abbrev Binary64 := Binary .binary64

namespace Binary

variable {f g : FloatFormat}

def isNaN (x : Binary f) : Bool := f.infinityRank < x.rank
def isFinite (x : Binary f) : Bool := x.rank < f.infinityRank
def isZero (x : Binary f) : Bool := x.rank == 0

def zero (negative : Bool) : Binary f :=
  ⟨negative, 0, Nat.mul_pos (Nat.two_pow_pos _) (Nat.two_pow_pos _)⟩
def infinity (negative : Bool) : Binary f := ⟨negative, f.infinityRank, f.infinityRank_lt⟩

/-- The magnitude in units of its format, with its sign. -/
def signedUnits (x : Binary f) : Int :=
  if x.negative then -(f.units x.rank : Int) else f.units x.rank

/-- The datum nearest to `num / den` units of the format. -/
def ofUnits (negative : Bool) (num den : Nat) : Binary f :=
  ⟨negative, f.nearestRank num den,
    Nat.lt_of_le_of_lt (f.nearestRank_le num den) f.infinityRank_lt⟩

/-- The datum nearest to the quotient `num / den`. -/
def ofRatio (negative : Bool) (num den : Nat) : Binary f :=
  ofUnits negative (num * Nat.pow 2 f.scale) den

def ofInt (n : Int) : Binary f := ofRatio (n < 0) n.natAbs 1

/-- The last rank, which holds no number in a format with a significand. -/
def nan : Binary f :=
  ⟨false, f.rankCount - 1,
    Nat.sub_lt (Nat.mul_pos (Nat.two_pow_pos _) (Nat.two_pow_pos _)) Nat.one_pos⟩

/-- The datum of another format nearest to this one. -/
def convert (x : Binary f) : Binary g :=
  if x.isNaN then nan
  else if x.isFinite then
    ofRatio x.negative (f.units x.rank) (Nat.pow 2 f.scale)
  else infinity x.negative

/-- The fraction is dropped; a datum that is not a number counts as zero, and one outside the
bounds takes the nearer bound. -/
def truncate (lo hi : Int) (x : Binary f) : Int :=
  if x.isNaN then 0
  else if x.isFinite then
    let whole : Int := (f.units x.rank / Nat.pow 2 f.scale : Nat)
    max lo (min hi (if x.negative then -whole else whole))
  else if x.negative then lo else hi

/-- Whether `lo ≤ x < hi`. -/
def inRange (lo hi : Int) (x : Binary f) : Bool :=
  x.isFinite && decide (lo * Nat.pow 2 f.scale ≤ x.signedUnits) &&
    decide (x.signedUnits < hi * Nat.pow 2 f.scale)

/-- The interchange encoding: the sign bit above the rank. -/
def toBits (x : Binary f) : Nat := (if x.negative then f.rankCount else 0) + x.rank

def ofBits (bits : Nat) : Binary f :=
  ⟨decide (f.rankCount ≤ bits), bits % f.rankCount,
    Nat.mod_lt _ (Nat.mul_pos (Nat.two_pow_pos _) (Nat.two_pow_pos _))⟩

end Binary
end ComponentBinding
