import ComponentBinding.Log.Logged
import ComponentBinding.View.Coercion

/-! Materialization: a schema and a configuration give a view.
A member reads the entry at its key. An array without such an entry reads the entries at `key.0`,
`key.1` and so on, and a nested view the entries below `key.0.`. What cannot be coerced is reported
and gives way to the default, the zero value or absence; materialization itself never fails. -/
namespace ComponentBinding

/-- A sequence stands for its first item, and an empty one for no value. -/
def Property.first? : Property → Option Property
  | .array items => items.head?
  | value => some value

/-- A single value stands for a sequence of one. -/
def Property.sequence : Property → List Property
  | .array items => items
  | value => [value]

namespace Properties

def indexed (key : String) (index : Nat) : String := key ++ "." ++ Decimal.ofNat index

/-- The entries below a key, if there are any. -/
def below? (key : String) (config : Properties) : Option Properties :=
  let entries := config.under (key ++ ".")
  if entries.isEmpty then none else some entries

/-- The configuration of a nested view: a map at the key, a sequence that begins with a map, or the
entries below index zero. -/
def nested? (key : String) (config : Properties) : Option Properties :=
  match config.lookup key with
  | some (.map entries) => some entries
  | some (.array (.map entries :: _)) => some entries
  | _ => config.below? (indexed key 0)

/-- The source of the array element at an index. A view element is a map or the entries below. -/
def elementAt? (isView : Bool) (key : String) (config : Properties) (index : Nat) :
    Option Property :=
  let place := indexed key index
  if isView then
    match config.lookup place with
    | some (.map entries) => some (.map entries)
    | _ => (config.below? place).map .map
  else config.lookup place

/-- The sources at the indices from zero up to the first missing one. Each takes an entry of its
own, so there are no more of them than entries. -/
def indexedElements (isView : Bool) (key : String) (config : Properties) : List Property :=
  (((List.range config.length).map (elementAt? isView key config)).takeWhile
    Option.isSome).filterMap id

/-- The sources of an array member: the entry at its key, the indexed entries or the default. -/
def elements? (isView : Bool) (key : String) (default? : Option Property) (config : Properties) :
    Option (List Property) :=
  match config.lookup key with
  | some value => some value.sequence
  | none =>
    match indexedElements isView key config with
    | [] => default?.map Property.sequence
    | elements => some elements

end Properties

/-- How views are made. Views nest at most `depthLimit` levels below the top, if there is a limit;
nested views can be switched off. -/
structure Materializer where
  resolver : TypeResolver
  nestedViews : Bool := true
  depthLimit : Option Nat := some 64

namespace Materializer

variable (m : Materializer)

/-- The first source that can be coerced, or the zero value. -/
def firstCoerced (member key : String) (kind : Kind) : List Property → Logged (Option ViewValue)
  | [] => pure kind.zero?
  | source :: sources =>
    match kind.coerce m.resolver source with
    | .ok value => pure (some value)
    | .error error => do
      .report (.coercionFailed member key error)
      firstCoerced member key kind sources

/-- A scalar that is not a view reads the entry at its key and then the default. -/
def scalar (member key : String) (kind : Kind) (default? : Option Property) (config : Properties) :
    Logged (Option ViewValue) :=
  m.firstCoerced member key kind
    ([config.lookup key, default?].filterMap fun source => source.bind Property.first?)

/-- An element that cannot be coerced keeps its place. -/
def elementValue (member key : String) (kind : Kind) (source : Property) : Logged ViewValue :=
  match kind.coerce m.resolver source with
  | .ok value => pure value
  | .error error => do
    .report (.elementCoercionFailed member key error)
    return kind.zero?.getD .null

/-- The limit that a view one level below `depth` would exceed. -/
def exceeded? (depth : Nat) : Option Nat := m.depthLimit.filter (· ≤ depth)

mutual

/-- The view of a schema, one slot per member. -/
def viewAt (depth : Nat) (config : Properties) : Schema → Logged View
  | ⟨name, members⟩ => do return ⟨name, ← membersAt depth config members⟩

def membersAt (depth : Nat) (config : Properties) :
    List Member → Logged (List (String × Option ViewValue))
  | [] => pure []
  | member :: members => do
    let value ← memberAt depth config member
    let values ← membersAt depth config members
    return (member.name, value) :: values

/-- The slot of a member. With nested views switched off their members are absent. -/
def memberAt (depth : Nat) (config : Properties) : Member → Logged (Option ViewValue)
  | ⟨name, kind, isArray, default?⟩ =>
    if kind.isView && !m.nestedViews then pure none
    else if isArray then
      match config.elements? kind.isView (memberKey name) default? with
      | none => pure none
      | some sources => do
        return some (.array (← .all (sources.map fun source => elementOf depth name source kind)))
    else scalarOf depth name default? config kind

/-- An element of a view array is made from its map, or from nothing if it is not a map. -/
def elementOf (depth : Nat) (member : String) (source : Property) : Kind → Logged ViewValue
  | .view schema => nestedView depth (source.entries?.getD []) schema
  | kind => m.elementValue member (memberKey member) kind source

/-- A single member. A nested view without entries of its own is absent, whatever its default. -/
def scalarOf (depth : Nat) (member : String) (default? : Option Property) (config : Properties) :
    Kind → Logged (Option ViewValue)
  | .view schema =>
    match config.nested? (memberKey member) with
    | none => pure none
    | some entries => do
      let value ← nestedView depth entries schema
      return if value.isNull then none else some value
  | kind => m.scalar member (memberKey member) kind default? config

/-- A nested view. Beyond the depth limit it is dropped and reported. -/
def nestedView (depth : Nat) (config : Properties) : Schema → Logged ViewValue
  | ⟨name, members⟩ =>
    match m.exceeded? depth with
    | some limit => do
      .report (.nestedViewDropped name (.depthExceeded limit))
      return .null
    | none => do return .view ⟨name, ← membersAt (depth + 1) config members⟩

end

theorem elementOf_of_not_view {kind : Kind} (h : kind.isView = false) (depth : Nat) (member : String)
    (source : Property) :
    m.elementOf depth member source kind = m.elementValue member (memberKey member) kind source := by
  cases kind <;> first | rfl | cases h

theorem scalarOf_of_not_view {kind : Kind} (h : kind.isView = false) (depth : Nat) (member : String)
    (default? : Option Property) (config : Properties) :
    m.scalarOf depth member default? config kind =
      m.scalar member (memberKey member) kind default? config := by
  cases kind <;> first | rfl | cases h

/-- The view of a schema over a configuration. -/
def materialize (schema : Schema) (config : Properties) : Logged View := do
  .report (.materializing schema.name config.length)
  m.viewAt 0 config schema

end Materializer
end ComponentBinding
