/-! The configuration key of a view member. A member name cannot hold every character of a key, so
`$` and `_` escape: doubled they stand for themselves, a single `$` stands for nothing and a single
`_` for a point. -/
namespace ComponentBinding

/-- The key that a member name stands for, read from left to right. -/
def keyChars : List Char → List Char
  | '$' :: '$' :: rest => '$' :: keyChars rest
  | '$' :: rest => keyChars rest
  | '_' :: '_' :: rest => '_' :: keyChars rest
  | '_' :: rest => '.' :: keyChars rest
  | c :: rest => c :: keyChars rest
  | [] => []

def memberKey (name : String) : String := String.ofList (keyChars name.toList)

end ComponentBinding
