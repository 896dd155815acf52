import ComponentBinding.Number.Binary
import ComponentBinding.Text.Start

/-! Configuration values: untyped scalars, sequences and maps, and the ordered maps that hold them. -/
namespace ComponentBinding

inductive Property where
  | bool (value : Bool)
  | long (value : Int64)
  | double (value : Binary64)
  | string (value : String)
  | array (items : List Property)
  | map (entries : List (String × Property))
  | byte (value : Int8)
  | short (value : Int16)
  | int (value : Int32)
  | float (value : Binary32)

/-- A map from keys to values, its entries in key order. -/
abbrev Properties := List (String × Property)

namespace Properties

/-- Each key stands once, and after every smaller key. -/
def Ordered (entries : Properties) : Prop := entries.Pairwise fun a b => a.1 < b.1

/-- The entry takes its place in key order, instead of an entry with its key. -/
def insert (key : String) (value : Property) : Properties → Properties
  | [] => [(key, value)]
  | entry :: entries =>
    if key < entry.1 then (key, value) :: entry :: entries
    else if key = entry.1 then (key, value) :: entries
    else entry :: insert key value entries

theorem lookup_insert (key other : String) (value : Property) (entries : Properties) :
    (insert key value entries).lookup other =
      if other = key then some value else entries.lookup other := by
  fun_induction insert <;> grind

theorem mem_insert {key : String} {value : Property} {entries : Properties}
    {entry : String × Property} (h : entry ∈ insert key value entries) :
    entry = (key, value) ∨ entry ∈ entries := by
  fun_induction insert key value entries <;> grind

theorem ordered_insert {entries : Properties} (h : Ordered entries) (key : String)
    (value : Property) : Ordered (insert key value entries) := by
  unfold Ordered at *
  fun_induction insert key value entries with
  | case1 => simp
  | case2 first rest before =>
    refine .cons (fun entry member => ?_) h
    rcases List.mem_cons.1 member with rfl | member
    · exact before
    · exact String.lt_trans before (List.rel_of_pairwise_cons h member)
  | case3 first rest before same =>
    exact .cons (fun entry member => same ▸ List.rel_of_pairwise_cons h member) h.of_cons
  | case4 first rest before other ih =>
    refine .cons (fun entry member => ?_) (ih h.of_cons)
    rcases mem_insert member with rfl | member
    · grind
    · exact List.rel_of_pairwise_cons h member

/-- The last value of a repeated key counts. -/
def ofList (entries : List (String × Property)) : Properties :=
  entries.foldl (fun properties entry => insert entry.1 entry.2 properties) []

theorem ordered_ofList (entries : List (String × Property)) : Ordered (ofList entries) := by
  suffices ∀ start : Properties, Ordered start →
      Ordered (entries.foldl (fun properties entry => insert entry.1 entry.2 properties) start) from
    this [] .nil
  induction entries with
  | nil => exact fun _ h => h
  | cons entry _ ih => exact fun _ h => ih _ (ordered_insert h entry.1 entry.2)

/-- The entries whose keys start with `start`, under what follows it. They stand together, so the
scan passes over the smaller keys and stops at the first key that does not start so. -/
def under (start : String) (entries : Properties) : Properties :=
  ((entries.dropWhile fun entry => decide (entry.1 < start)).takeWhile
      fun entry => (Text.after? start entry.1).isSome).filterMap
    fun entry => (Text.after? start entry.1).map fun key => (key, entry.2)

end Properties

namespace Property

def typeName : Property → String
  | .bool _ => "boolean"
  | .long _ => "long"
  | .double _ => "double"
  | .string _ => "string"
  | .array _ => "array"
  | .map _ => "map"
  | .byte _ => "byte"
  | .short _ => "short"
  | .int _ => "int"
  | .float _ => "float"

def isNumeric : Property → Bool
  | .long _ | .double _ | .byte _ | .short _ | .int _ | .float _ => true
  | _ => false

def items? : Property → Option (List Property)
  | .array items => some items
  | _ => none

def entries? : Property → Option Properties
  | .map entries => some entries
  | _ => none

def string? : Property → Option String
  | .string value => some value
  | _ => none

def bool? : Property → Option Bool
  | .bool value => some value
  | _ => none

/-- A number as a 64-bit integer. A fraction is dropped, and a number outside the range takes the
nearer bound. -/
def int64? : Property → Option Int64
  | .long value => some value
  | .int value => some value.toInt64
  | .short value => some value.toInt64
  | .byte value => some value.toInt64
  | .double value => some (.ofInt (value.truncate Int64.minValue.toInt Int64.maxValue.toInt))
  | .float value => some (.ofInt (value.truncate Int64.minValue.toInt Int64.maxValue.toInt))
  | _ => none

/-- A number as the nearest double. -/
def double? : Property → Option Binary64
  | .double value => some value
  | .float value => some value.convert
  | .long value => some (.ofInt value.toInt)
  | .int value => some (.ofInt value.toInt)
  | .short value => some (.ofInt value.toInt)
  | .byte value => some (.ofInt value.toInt)
  | _ => none

end Property
end ComponentBinding
