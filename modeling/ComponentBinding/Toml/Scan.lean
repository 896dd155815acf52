/-! Scanning of characters from left to right. A scan that fails leaves the text where it was. -/
namespace ComponentBinding.Toml

abbrev Scan := StateT (List Char) Option

namespace Scan

variable {α : Type}

def literal (text : String) : Scan Unit := fun cs => (text.toList.isPrefixOf? cs).map ((), ·)

def takeWhile (accept : Char → Bool) : Scan (List Char) := fun cs =>
  some (cs.takeWhile accept, cs.dropWhile accept)

def endOfText : Scan Unit := fun cs => if cs.isEmpty then some ((), cs) else none

def repeated (scan : Scan α) (cs : List Char) : List α × List Char :=
  match scan cs with
  | none => ([], cs)
  | some (first, rest) =>
    if rest.length < cs.length then
      let (others, rest) := repeated scan rest
      (first :: others, rest)
    else ([first], rest)
  termination_by cs.length

/-- As often as possible; a scan that takes nothing ends the repetition. -/
def many (scan : Scan α) : Scan (List α) := fun cs => some (repeated scan cs)

/-- As often as possible with commas between. -/
def commaSeparated (item : Scan α) : Scan (List α) :=
  (do return (← item) :: (← many (do literal ","; item))) <|> pure []

def perhaps (scan : Scan Unit) : Scan Unit := scan <|> pure ()

end Scan
end ComponentBinding.Toml
