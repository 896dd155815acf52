/-! Declared description versions and the features that they switch on. -/
namespace ComponentBinding

/-- Oldest first. -/
inductive Version where
  | v10 | v11 | v11Felix | v12 | v12Felix | v13
  deriving DecidableEq, Repr

/-- What a description may use: `relaxedVisibility` admits methods that are not public and the wider
signatures, `returnProperties` admits methods that return a property map. -/
structure Gate where
  relaxedVisibility : Bool := false
  returnProperties : Bool := false
  deriving DecidableEq, Repr

namespace Version

def all : List Version := [.v10, .v11, .v11Felix, .v12, .v12Felix, .v13]

def text : Version → String
  | .v10 => "1.0"
  | .v11 => "1.1"
  | .v11Felix => "1.1-felix"
  | .v12 => "1.2"
  | .v12Felix => "1.2-felix"
  | .v13 => "1.3"

/-- The place among all versions. -/
def age : Version → Nat
  | .v10 => 0
  | .v11 => 1
  | .v11Felix => 2
  | .v12 => 3
  | .v12Felix => 4
  | .v13 => 5

def read? (text : String) : Option Version := all.find? fun version => version.text = text

/-- What is said of a text that names no version. -/
def invalidMessage (text : String) : String :=
  "Invalid version: " ++ text ++ ". Expected one of " ++ String.intercalate ", " (all.map Version.text)

def compare (a b : Version) : Ordering := Ord.compare a.age b.age

def gate (version : Version) : Gate where
  relaxedVisibility := Version.v11.age ≤ version.age
  returnProperties := Version.v12Felix.age ≤ version.age

end Version
end ComponentBinding
