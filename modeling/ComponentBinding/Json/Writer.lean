import ComponentBinding.Json.Basic
import ComponentBinding.Number.Shortest

/-! Writing JSON text. -/
namespace ComponentBinding.Json

/-- Quotes, backslashes and control characters are escaped, the last by code. -/
def escape (c : Char) : List Char :=
  if c = '"' then ['\\', '"']
  else if c = '\\' then ['\\', '\\']
  else if c.toNat < 0x20 then
    ['\\', 'u', '0', '0', Nat.digitChar (c.toNat / 16), Nat.digitChar (c.toNat % 16)]
  else [c]

def quote (text : String) : String := "\"" ++ String.ofList (text.toList.flatMap escape) ++ "\""

/-- A floating-point number always has a point. -/
def floatText (x : Binary64) : String :=
  if x.text.toList.contains '.' then x.text else x.text ++ ".0"

mutual

def write : Json → String
  | .null => "null"
  | .bool value => if value then "true" else "false"
  | .int value => Decimal.ofInt value
  | .float value => floatText value.val
  | .string value => quote value
  | .array items => "[" ++ String.intercalate "," (writeItems items) ++ "]"
  | .object fields => "\x7b" ++ String.intercalate "," (writeFields fields) ++ "\x7d"

def writeItems : List Json → List String
  | [] => []
  | item :: items => item.write :: writeItems items

def writeFields : List (String × Json) → List String
  | [] => []
  | (key, value) :: fields => (quote key ++ ":" ++ value.write) :: writeFields fields

end

end ComponentBinding.Json
