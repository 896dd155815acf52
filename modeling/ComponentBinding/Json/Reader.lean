import ComponentBinding.Json.Basic
import ComponentBinding.Number.Decimal
import ComponentBinding.Text.Hex

/-! Reading JSON text. Characters are gathered into tokens and tokens into a document, each in one
pass from left to right. -/
namespace ComponentBinding.Json

inductive Token where
  | openArray | closeArray | openObject | closeObject | comma | colon
  | string (value : String)
  | literal (value : Json)

/-! Numbers and names -/

/-- A whole part without a leading zero, or a lone zero. -/
def isWholePart : List Char → Bool
  | ['0'] => true
  | '0' :: _ => false
  | digits => !digits.isEmpty && digits.all Char.isDigit

/-- A point must stand between digits. -/
def hasFraction (text : List Char) : Bool :=
  match text.dropWhile Char.isDigit with
  | '.' :: rest => !(rest.takeWhile Char.isDigit).isEmpty
  | _ => true

/-- A number without fraction and exponent is an integer, except for a negative zero, which only a
floating-point datum holds. A number too large for one is refused. -/
def readNumber? (text : List Char) : Option Json :=
  let unsigned := if text.head? = some '-' then text.drop 1 else text
  if !isWholePart (unsigned.takeWhile Char.isDigit) || !hasFraction unsigned then none
  else if text = ['-', '0'] then ofFloat? (.zero true)
  else
    match Decimal.readInt? text with
    | some value => ofInt? value
    | none => (Decimal.read? text).bind fun decimal => ofFloat? decimal.toBinary

def readWord? (text : List Char) : Option Json :=
  match String.ofList text with
  | "null" => some .null
  | "true" => some (.bool true)
  | "false" => some (.bool false)
  | _ => readNumber? text

/-! Tokens -/

/-- What the characters read since the last finished token are; texts are held in reverse. -/
inductive Scan where
  | gap
  | word (text : List Char)
  | quoted (text : List Char)
  | escape (text : List Char)
  | code (text : List Char) (high : Option Nat) (digits : Nat) (value : Nat)
  | low (text : List Char) (high : Nat) (slash : Bool)

def isWordChar (c : Char) : Bool := c.isAlphanum || c = '+' || c = '-' || c = '.'

/-- A character outside words and strings. -/
def scanGap (tokens : List Token) : Char → Option (List Token × Scan)
  | '[' => some (.openArray :: tokens, .gap)
  | ']' => some (.closeArray :: tokens, .gap)
  | '\x7b' => some (.openObject :: tokens, .gap)
  | '\x7d' => some (.closeObject :: tokens, .gap)
  | ',' => some (.comma :: tokens, .gap)
  | ':' => some (.colon :: tokens, .gap)
  | '"' => some (tokens, .quoted [])
  | c =>
    if c = ' ' || c = '\t' || c = '\n' || c = '\r' then some (tokens, .gap)
    else if isWordChar c then some (tokens, .word [c])
    else none

/-- A finished escape by code: a lone unit is a character, and a high surrogate waits for a low
one. -/
def scanCode (tokens : List Token) (text : List Char) (high : Option Nat) (value : Nat) :
    Option (List Token × Scan) :=
  match high with
  | some first =>
    if 0xDC00 ≤ value && value ≤ 0xDFFF then
      some (tokens, .quoted
        (Char.ofNat (0x10000 + (first - 0xD800) * 0x400 + (value - 0xDC00)) :: text))
    else none
  | none =>
    if 0xD800 ≤ value && value ≤ 0xDBFF then some (tokens, .low text value false)
    else if 0xDC00 ≤ value && value ≤ 0xDFFF then none
    else some (tokens, .quoted (Char.ofNat value :: text))

def escaped? : Char → Option Char
  | '"' => some '"'
  | '\\' => some '\\'
  | '/' => some '/'
  | 'b' => some '\x08'
  | 'f' => some '\x0c'
  | 'n' => some '\n'
  | 'r' => some '\r'
  | 't' => some '\t'
  | _ => none

def endWord (tokens : List Token) (text : List Char) : Option (List Token) :=
  (readWord? text.reverse).map fun value => .literal value :: tokens

/-- The tokens so far, the latest first, after one more character. -/
def scanChar : List Token × Scan → Char → Option (List Token × Scan)
  | (tokens, .gap), c => scanGap tokens c
  | (tokens, .word text), c =>
    if isWordChar c then some (tokens, .word (c :: text))
    else (endWord tokens text).bind fun tokens => scanGap tokens c
  | (tokens, .quoted text), c =>
    if c = '"' then some (.string (String.ofList text.reverse) :: tokens, .gap)
    else if c = '\\' then some (tokens, .escape text)
    else if c.toNat < 0x20 then none
    else some (tokens, .quoted (c :: text))
  | (tokens, .escape text), c =>
    if c = 'u' then some (tokens, .code text none 0 0)
    else (escaped? c).map fun value => (tokens, .quoted (value :: text))
  | (tokens, .code text high digits value), c =>
    (Text.hexDigit? c).bind fun digit =>
      if digits = 3 then scanCode tokens text high (16 * value + digit)
      else some (tokens, .code text high (digits + 1) (16 * value + digit))
  | (tokens, .low text high slash), c =>
    if !slash && c = '\\' then some (tokens, .low text high true)
    else if slash && c = 'u' then some (tokens, .code text (some high) 0 0)
    else none

def tokens? (text : List Char) : Option (List Token) :=
  (text.foldlM scanChar ([], .gap)).bind fun (tokens, scan) =>
    match scan with
    | .gap => some tokens.reverse
    | .word rest => (endWord tokens rest).map List.reverse
    | _ => none

/-! Documents -/

/-- An array or object that is still open, its parts in reverse. -/
inductive Frame where
  | array (items : List Json)
  | object (fields : List (String × Json)) (key : String)

/-- What the next token must be, inside the open containers. -/
inductive Expect where
  | value | firstItem | afterValue (value : Json)
  | firstKey | key (fields : List (String × Json)) | colon (fields : List (String × Json)) (key : String)

/-- The start of a value. -/
def expectValue (stack : List Frame) : Token → Option (List Frame × Expect)
  | .string text => some (stack, .afterValue (.string text))
  | .literal value => some (stack, .afterValue value)
  | .openArray => some (stack, .firstItem)
  | .openObject => some (stack, .firstKey)
  | _ => none

/-- The later of two fields with one key counts. Fields are held in reverse. -/
def addField (fields : List (String × Json)) (key : String) (value : Json) : List (String × Json) :=
  (key, value) :: fields.filter fun field => field.1 ≠ key

def readToken : List Frame × Expect → Token → Option (List Frame × Expect)
  | (stack, .value), token => expectValue stack token
  | (stack, .firstItem), .closeArray => some (stack, .afterValue (.array []))
  | (stack, .firstItem), token => expectValue (.array [] :: stack) token
  | (.array items :: stack, .afterValue value), .comma => some (.array (value :: items) :: stack, .value)
  | (.array items :: stack, .afterValue value), .closeArray =>
    some (stack, .afterValue (.array (value :: items).reverse))
  | (.object fields key :: stack, .afterValue value), .comma => some (stack, .key (addField fields key value))
  | (.object fields key :: stack, .afterValue value), .closeObject =>
    some (stack, .afterValue (.object (addField fields key value).reverse))
  | (stack, .firstKey), .closeObject => some (stack, .afterValue (.object []))
  | (stack, .firstKey), .string key => some (stack, .colon [] key)
  | (stack, .key fields), .string key => some (stack, .colon fields key)
  | (stack, .colon fields key), .colon => some (.object fields key :: stack, .value)
  | _, _ => none

/-- The document that a text holds, if it is one. -/
def read? (text : String) : Option Json :=
  ((tokens? text.toList).bind fun tokens => tokens.foldlM readToken ([], .value)).bind
    fun
      | ([], .afterValue value) => some value
      | _ => none

end ComponentBinding.Json
