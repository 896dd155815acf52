import ComponentBinding.Number.Binary

/-! Decimal numerals: integers as text, and text as an integer or as the nearest binary datum.
Only the ten ASCII digits are digits; neither blanks nor separators belong to a numeral. -/
namespace ComponentBinding
namespace Decimal

def ofNat (n : Nat) : String := String.ofList (Nat.toDigits 10 n)

def ofInt (n : Int) : String := if n < 0 then "-" ++ ofNat n.natAbs else ofNat n.natAbs

/-- The number that a list of digits denotes, most significant first. -/
def digitsValue (digits : List Char) : Nat :=
  digits.foldl (fun n c => 10 * n + (c.toNat - '0'.toNat)) 0

/-- One optional sign, and whether it is a minus. -/
def splitSign : List Char → Bool × List Char
  | '-' :: rest => (true, rest)
  | '+' :: rest => (false, rest)
  | text => (false, text)

/-- An optional sign and one or more digits. -/
def readInt? (text : List Char) : Option Int :=
  let (negative, digits) := splitSign text
  if digits.isEmpty || !digits.all Char.isDigit then none
  else some (if negative then -(digitsValue digits : Int) else digitsValue digits)

end Decimal

/-- A number in decimal notation: its digits, times ten to the exponent. -/
structure Decimal where
  negative : Bool
  digits : List Char
  exponent : Int
  deriving DecidableEq, Repr

namespace Decimal

/-- The exponent part of a numeral: nothing, or a mark and an integer. -/
def readExponent? : List Char → Option Int
  | [] => some 0
  | mark :: rest => if mark = 'e' || mark = 'E' then readInt? rest else none

/-- A sign, digits with at most one point among or beside them, and an exponent; all but one digit
may be missing. -/
def read? (text : List Char) : Option Decimal :=
  let (negative, unsigned) := splitSign text
  let whole := unsigned.takeWhile Char.isDigit
  let (fraction, tail) :=
    match unsigned.dropWhile Char.isDigit with
    | '.' :: rest => (rest.takeWhile Char.isDigit, rest.dropWhile Char.isDigit)
    | rest => ([], rest)
  if whole.isEmpty && fraction.isEmpty then none
  else (readExponent? tail).map fun exponent =>
    ⟨negative, whole ++ fraction, exponent - fraction.length⟩

/-- The binary datum nearest to the numeral. The position of its first significant digit settles
a numeral that lies far outside the format without computing its power of ten. -/
def toBinary {f : FloatFormat} (d : Decimal) : Binary f :=
  let significant := d.digits.dropWhile (· == '0')
  let top := significant.length + d.exponent
  if significant.isEmpty || top < -(f.scale : Int) then .zero d.negative
  else if Nat.pow 2 (f.exponentBits - 1) < top then .infinity d.negative
  else if 0 ≤ d.exponent then
    .ofRatio d.negative (digitsValue significant * Nat.pow 10 d.exponent.toNat) 1
  else .ofRatio d.negative (digitsValue significant) (Nat.pow 10 (-d.exponent).toNat)

end Decimal
end ComponentBinding
