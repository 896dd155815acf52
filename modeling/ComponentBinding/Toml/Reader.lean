import ComponentBinding.Toml.Number
import ComponentBinding.Toml.Quoted
import ComponentBinding.Toml.Table

/-! Reading TOML text: lines of pairs and headers, and from them the document. -/
namespace ComponentBinding.Toml

def spaces : Scan Unit := do let _ ← Scan.takeWhile isSpace

def newline : Scan Unit := Scan.literal "\n" <|> Scan.literal "\r\n"

def comment : Scan Unit := do
  Scan.literal "#"
  let _ ← Scan.takeWhile isPlain

/-- What may follow on a line. -/
def lineTail : Scan Unit := do
  spaces
  Scan.perhaps comment
  newline <|> Scan.endOfText

/-- Spaces, line ends and comments between the items of an array. -/
def gap : Scan Unit := do
  let _ ← Scan.many (newline <|> (do comment; newline) <|> do
    let blank ← Scan.takeWhile isSpace
    if blank.isEmpty then failure)

/-! Keys -/

def isBareChar (c : Char) : Bool := c.isAlphanum || c = '_' || c = '-'

def bareKey : Scan String := do
  let key ← Scan.takeWhile isBareChar
  if key.isEmpty then failure
  return String.ofList key

def simpleKey : Scan String := singleLine <|> bareKey

/-- Keys with points between; fewer than eighty of them. -/
def dottedKey : Scan Path := do
  spaces
  let first ← simpleKey
  spaces
  let others ← Scan.many do
    Scan.literal "."
    spaces
    let key ← simpleKey
    spaces
    return key
  if 80 ≤ others.length + 1 then failure
  match others.getLast? with
  | none => return ⟨[], first⟩
  | some last => return ⟨first :: others.dropLast, last⟩

/-! Values -/

def isWordChar (c : Char) : Bool :=
  c.isAlphanum || c = '+' || c = '-' || c = '_' || c = '.' || c = ':'

def wordNode? (word : List Char) : Option Node :=
  if word = "true".toList then some (.boolean true)
  else if word = "false".toList then some (.boolean false)
  else if isDateTime word then some .date
  else if isInteger word || isFloat word then some .number
  else none

/-- A time may follow its date after a single space. -/
def laterTime : Scan Unit := do
  Scan.literal " "
  if !isZonedTime (← Scan.takeWhile isWordChar) then failure

def word : Scan Node := do
  let text ← Scan.takeWhile isWordChar
  match wordNode? text with
  | none => failure
  | some node =>
    if isDate text then Scan.perhaps laterTime
    return node

def array (value : Scan Node) : Scan Node := do
  Scan.literal "["
  let items ← Scan.commaSeparated do
    gap
    let item ← value
    gap
    return item
  if !items.isEmpty then Scan.perhaps (Scan.literal ",")
  gap
  Scan.literal "]"
  return .array items

def pair (value : Scan Node) : Scan (Path × Node) := do
  let path ← dottedKey
  Scan.literal "="
  spaces
  let node ← value
  spaces
  return (path, node)

def inlineTable (value : Scan Node) : Scan Node := do
  Scan.literal "\x7b"
  let pairs ← Scan.commaSeparated (pair value)
  spaces
  Scan.literal "\x7d"
  let table ← pairs.foldlM (fun table (path, node) => table.define? path.parents path.last node)
    (Table.empty .defined)
  return .inline table

/-- A value with containers inside each other up to a depth. -/
def value : (depth : Nat) → Scan Node
  | 0 => (Node.string <$> quoted) <|> word
  | depth + 1 =>
    (Node.string <$> quoted) <|> word <|> array (value depth) <|> inlineTable (value depth)

/-! Lines -/

def header : Scan Line := do
  Scan.literal "["
  let path ← dottedKey
  Scan.literal "]"
  return .header path

def repeatedHeader : Scan Line := do
  Scan.literal "[["
  let path ← dottedKey
  Scan.literal "]]"
  return .repeatedHeader path

/-- A pair whose containers are less than eighty deep. -/
def pairLine : Scan Line := do
  let (path, node) ← pair (value 79)
  return .pair path node

def line : Scan Line := do
  spaces
  let read ← repeatedHeader <|> header <|> pairLine <|> pure .blank
  lineTail
  return read

/-- The document in a text; a byte order mark at the front is passed over. -/
def read? (text : String) : Option Table :=
  let characters := match text.toList with
    | '\ufeff' :: rest => rest
    | characters => characters
  match Scan.many line characters with
  | some (lines, []) => Table.ofLines? lines
  | _ => none

end ComponentBinding.Toml
