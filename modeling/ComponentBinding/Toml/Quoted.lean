import ComponentBinding.Text.Hex
import ComponentBinding.Toml.Scan

/-! Quoted TOML strings: single or triple quotes of two kinds, one of them with escapes. -/
namespace ComponentBinding.Toml

def isSpace (c : Char) : Bool := c = ' ' || c = '\t'

/-- Characters that stand for themselves in strings and comments: all but the controls, yet with the
tab. -/
def isPlain (c : Char) : Bool := c = '\t' || (0x20 ≤ c.toNat && c.toNat ≠ 0x7F)

structure Quoting where
  quote : Char
  escapes : Bool
  multiline : Bool

/-- Where a scan stands inside a string: in text, after a backslash, in the digits of a code, between
a backslash and the end of its line, or in the blanks of the lines that follow. -/
inductive Inside where
  | text
  | escape
  | code (digits value : Nat)
  | lineEnd
  | skip

def escaped? : Char → Option Char
  | '"' => some '"'
  | '\\' => some '\\'
  | 'b' => some '\x08'
  | 'f' => some '\x0c'
  | 'n' => some '\n'
  | 'r' => some '\r'
  | 't' => some '\t'
  | _ => none

def scalar? (value : Nat) : Option Char :=
  if value.isValidChar then some (Char.ofNat value) else none

/-- The quotes at the end of a string: three close it, and one or two more before them belong to the
text. -/
def closing? (q : Quoting) (rest : List Char) : Option (List Char × List Char) :=
  if q.multiline then
    let more := (rest.takeWhile (· = q.quote)).length
    if more < 2 then none
    else some (List.replicate (min (more - 2) 2) q.quote, rest.drop (min more 4))
  else some ([], rest)

def Inside.skips : Inside → Bool
  | .skip => true
  | _ => false

/-- The end of a line, seen from its first character. -/
def startsNewline (c : Char) (rest : List Char) : Bool :=
  c = '\n' || (c = '\r' && rest.head? = some '\n')

def prepend (c : Char) : List Char × List Char → List Char × List Char :=
  fun (text, after) => (c :: text, after)

/-- The rest of a string and what follows it. -/
def insideQuotes (q : Quoting) : Inside → List Char → Option (List Char × List Char)
  | _, [] => none
  | .code digits value, c :: rest =>
    (Text.hexDigit? c).bind fun digit =>
      if digits = 1 then
        (scalar? (16 * value + digit)).bind fun read => (insideQuotes q .text rest).map (prepend read)
      else insideQuotes q (.code (digits - 1) (16 * value + digit)) rest
  | .escape, c :: rest =>
    if c = 'u' then insideQuotes q (.code 4 0) rest
    else if c = 'U' then insideQuotes q (.code 8 0) rest
    else if q.multiline && c = '\n' then insideQuotes q .skip rest
    else if q.multiline && (isSpace c || startsNewline c rest) then insideQuotes q .lineEnd rest
    else (escaped? c).bind fun read => (insideQuotes q .text rest).map (prepend read)
  | .lineEnd, c :: rest =>
    if c = '\n' then insideQuotes q .skip rest
    else if isSpace c || startsNewline c rest then insideQuotes q .lineEnd rest
    else none
  | inside, c :: rest =>
    if inside.skips && (isSpace c || startsNewline c rest) then insideQuotes q .skip rest
    else if c = q.quote then
      (closing? q rest).or ((insideQuotes q .text rest).map (prepend c))
    else if q.escapes && c = '\\' then insideQuotes q .escape rest
    else if q.multiline && startsNewline c rest then
      if c = '\n' then (insideQuotes q .text rest).map (prepend c) else insideQuotes q .text rest
    else if isPlain c then (insideQuotes q .text rest).map (prepend c)
    else none

def quotedBy (opening : String) (q : Quoting) : Scan String := do
  Scan.literal opening
  if q.multiline then Scan.perhaps (Scan.literal "\n" <|> Scan.literal "\r\n")
  let text ← fun cs => insideQuotes q .text cs
  return String.ofList text

/-- A string on one line. -/
def singleLine : Scan String :=
  quotedBy "\"" ⟨'"', true, false⟩ <|> quotedBy "'" ⟨'\'', false, false⟩

/-- A string of either form; three quotes open one of several lines. -/
def quoted : Scan String :=
  quotedBy "\"\"\"" ⟨'"', true, true⟩ <|> quotedBy "'''" ⟨'\'', false, true⟩ <|> singleLine

end ComponentBinding.Toml
