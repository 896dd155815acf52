import ComponentBinding.Property.Basic
import ComponentBinding.View.Basic
import ComponentBinding.View.Key

/-! View schemas: a name and ordered members, each of a kind, single or an array, perhaps with a
default. A nested view is a member whose kind is another schema. -/
namespace ComponentBinding

/-- An enumeration: its symbols in the order of their ordinals. -/
structure Enumeration where
  name : String
  symbols : List String
  deriving DecidableEq, Repr

mutual

inductive Kind where
  | boolean | byte | short | int | long | float | double | string | type
  | enum (enumeration : Enumeration)
  | view (schema : Schema)

structure Schema where
  name : String
  members : List Member

structure Member where
  name : String
  kind : Kind
  isArray : Bool := false
  default? : Option Property := none

end

/-- The first place of a symbol counts. -/
def Enumeration.ordinal? (enumeration : Enumeration) (symbol : String) : Option Nat :=
  enumeration.symbols.findIdx? (· = symbol)

namespace Kind

def name : Kind → String
  | .boolean => "boolean"
  | .byte => "byte"
  | .short => "short"
  | .int => "int"
  | .long => "long"
  | .float => "float"
  | .double => "double"
  | .string => "string"
  | .type => "type"
  | .enum enumeration => enumeration.name
  | .view schema => schema.name

def isView : Kind → Bool
  | .view _ => true
  | _ => false

/-- A primitive kind has a value even when unset. -/
def zero? : Kind → Option ViewValue
  | .boolean => some (.bool false)
  | .byte => some (.byte 0)
  | .short => some (.short 0)
  | .int => some (.int 0)
  | .long => some (.long 0)
  | .float => some (.float (.zero false))
  | .double => some (.double (.zero false))
  | _ => none

end Kind

def Member.key (member : Member) : String := memberKey member.name

inductive SchemaError where
  | duplicateMember (schema member : String)
  | emptyMemberName (schema : String)
  deriving DecidableEq, Repr

def SchemaError.message : SchemaError → String
  | .duplicateMember schema member => "duplicate member '" ++ member ++ "' in view " ++ schema
  | .emptyMemberName schema => "empty member name in view " ++ schema

namespace Schema

/-- The first fault among the members, given the names before them. -/
def fault? (schema : String) (earlier : List String) : List Member → Option SchemaError
  | [] => none
  | member :: members =>
    if member.name = "" then some (.emptyMemberName schema)
    else if member.name ∈ earlier then some (.duplicateMember schema member.name)
    else fault? schema (member.name :: earlier) members

/-- A schema whose members all have names, no two the same. -/
def build (name : String) (members : List Member) : Except SchemaError Schema :=
  match fault? name [] members with
  | some error => .error error
  | none => .ok ⟨name, members⟩

def member? (schema : Schema) (name : String) : Option Member :=
  schema.members.find? (·.name = name)

end Schema
end ComponentBinding
