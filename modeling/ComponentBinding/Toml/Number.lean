import ComponentBinding.Number.Decimal
import ComponentBinding.Text.Hex

/-! TOML numbers and dates. Only whether a word is one matters. -/
namespace ComponentBinding.Toml

/-- The digits of a number in which single underscores may stand between digits. -/
def ungroup? (isDigit : Char → Bool) : List Char → Option (List Char)
  | [] => none
  | [c] => if isDigit c then some [c] else none
  | c :: '_' :: rest => if isDigit c then (ungroup? isDigit rest).map (c :: ·) else none
  | c :: rest => if isDigit c then (ungroup? isDigit rest).map (c :: ·) else none

def isLong (value : Int) : Bool := Int64.minValue.toInt ≤ value && value ≤ Int64.maxValue.toInt

def digitsIn (base : Nat) (c : Char) : Bool := ((Text.hexDigit? c).map fun d => decide (d < base)).getD false

/-- The digits of a decimal whole part, which has no leading zero. -/
def wholeDigits? (text : List Char) : Option (List Char) :=
  match text with
  | '0' :: _ :: _ => none
  | _ => ungroup? Char.isDigit text

/-- A nonnegative integer in another base. -/
def isBased (base : Nat) (text : List Char) : Bool :=
  match ungroup? (digitsIn base) text with
  | none => false
  | some digits =>
    isLong (digits.foldl (fun value c => base * value + (Text.hexDigit? c).getD 0) 0 : Nat)

def isInteger (word : List Char) : Bool :=
  match word with
  | '0' :: 'x' :: digits => isBased 16 digits
  | '0' :: 'o' :: digits => isBased 8 digits
  | '0' :: 'b' :: digits => isBased 2 digits
  | word =>
    let (negative, unsigned) := Decimal.splitSign word
    match wholeDigits? unsigned with
    | none => false
    | some digits =>
      isLong (if negative then -(Decimal.digitsValue digits : Int) else Decimal.digitsValue digits)

def isExponentMark (c : Char) : Bool := c = 'e' || c = 'E'

/-- Digits after a point, digits after an exponent mark, or both. -/
def isFractional (text : List Char) : Bool :=
  let (mantissa, exponent) := (text.takeWhile (!isExponentMark ·), text.dropWhile (!isExponentMark ·))
  let whole := mantissa.takeWhile (· ≠ '.')
  let fraction := mantissa.dropWhile (· ≠ '.')
  (wholeDigits? whole).isSome && !(fraction.isEmpty && exponent.isEmpty) &&
    (fraction.isEmpty || (ungroup? Char.isDigit (fraction.drop 1)).isSome) &&
    (exponent.isEmpty || (ungroup? Char.isDigit (Decimal.splitSign (exponent.drop 1)).2).isSome)

/-- Whether a number is too large for a double; the bound below is not kept. -/
def overflows (word : List Char) : Bool :=
  match Decimal.read? (word.filter (· ≠ '_')) with
  | none => false
  | some decimal =>
    let value : Binary64 := decimal.toBinary
    !value.isFinite && !value.negative

def isFloat (word : List Char) : Bool :=
  let unsigned := (Decimal.splitSign word).2
  unsigned = ['i', 'n', 'f'] || unsigned = ['n', 'a', 'n'] ||
    (isFractional unsigned && !overflows word)

/-! Dates and times -/

/-- Digits only, as many as the width. -/
def fixed? (width : Nat) (text : List Char) : Option Nat :=
  if text.length = width && text.all Char.isDigit then some (Decimal.digitsValue text) else none

def inBounds (low high : Nat) : Option Nat → Bool
  | some value => decide (low ≤ value) && decide (value ≤ high)
  | none => false

def daysIn (year month : Nat) : Nat :=
  if month = 2 then
    if (year % 4 = 0 && year % 100 ≠ 0) || year % 400 = 0 then 29 else 28
  else if month = 4 || month = 6 || month = 9 || month = 11 then 30
  else 31

def isDate (text : List Char) : Bool :=
  let month := fixed? 2 ((text.drop 5).take 2)
  match fixed? 4 (text.take 4) with
  | none => false
  | some year =>
    text.length = 10 && text[4]? = some '-' && text[7]? = some '-' && inBounds 1 12 month &&
      inBounds 1 (daysIn year (month.getD 0)) (fixed? 2 (text.drop 8))

/-- Hours and minutes. -/
def isClock (text : List Char) : Bool :=
  text.length = 5 && text[2]? = some ':' && inBounds 0 23 (fixed? 2 (text.take 2)) &&
    inBounds 0 59 (fixed? 2 (text.drop 3))

/-- Hours, minutes, seconds and perhaps a fraction. A minute may have a leap second. -/
def isTime (text : List Char) : Bool :=
  let fraction := text.drop 8
  isClock (text.take 5) && text[5]? = some ':' &&
    inBounds 0 60 (fixed? 2 ((text.drop 6).take 2)) &&
    (fraction.isEmpty ||
      (fraction.head? = some '.' && 1 < fraction.length && (fraction.drop 1).all Char.isDigit))

/-- A time with a zone, or without one. -/
def isZonedTime (text : List Char) : Bool :=
  let isZone (c : Char) : Bool := c = 'Z' || c = 'z' || c = '+' || c = '-'
  isTime (text.takeWhile (!isZone ·)) &&
    match text.dropWhile (!isZone ·) with
    | [] => true
    | [c] => c = 'Z' || c = 'z'
    | c :: offset => (c = '+' || c = '-') && isClock offset

/-- A date, a time, or both with a mark between. -/
def isDateTime (word : List Char) : Bool :=
  isTime word || isDate word ||
    (isDate (word.take 10) && (word[10]? = some 'T' || word[10]? = some 't') &&
      isZonedTime (word.drop 11))

end ComponentBinding.Toml
