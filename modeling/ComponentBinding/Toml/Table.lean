/-! TOML documents: tables of keyed nodes, and the rules by which headers and pairs define them. -/
namespace ComponentBinding.Toml

/-- How a table came to be: by a header or braces of its own, as the parent named in a header, or as
the parent named in a dotted key. -/
inductive Origin where
  | defined | implied | dotted
  deriving DecidableEq, Repr

mutual

inductive Node where
  | string (text : String)
  | boolean (value : Bool)
  | number
  | date
  | array (items : List Node)
  /-- a table in braces, which nothing can extend -/
  | inline (table : Table)
  | table (table : Table)
  /-- the tables of one repeated header -/
  | tables (tables : List Table)

/-- The entries in order of definition. -/
structure Table where
  entries : List (String × Node)
  origin : Origin

end

namespace Table

def empty (origin : Origin) : Table := ⟨[], origin⟩

def get? (table : Table) (key : String) : Option Node := table.entries.lookup key

/-- The entry takes the place of the entry with its key, or follows all others. -/
def put (table : Table) (key : String) (node : Node) : Table :=
  if (table.get? key).isSome then
    { table with entries := table.entries.map fun entry =>
        if entry.1 = key then (key, node) else entry }
  else { table with entries := table.entries ++ [(key, node)] }

def remove (table : Table) (key : String) : Table :=
  { table with entries := table.entries.filter fun entry => entry.1 ≠ key }

/-- Changes the table at a path, making the tables on the way. A repeated header stands for its
latest table. A dotted key does not reach into a table with a definition of its own. -/
def change {α : Type} (dotted : Bool) (action : Table → Option (α × Table)) :
    List String → Table → Option (α × Table)
  | [], table => action table
  | key :: path, table =>
    match table.get? key with
    | none =>
      (change dotted action path (empty (if dotted then .dotted else .implied))).map
        fun (result, child) => (result, table.put key (.table child))
    | some (.table child) =>
      if dotted && child.origin = .defined then none
      else (change dotted action path child).map
        fun (result, child) => (result, table.put key (.table child))
    | some (.tables children) =>
      match children.getLast? with
      | none => none
      | some child => (change dotted action path child).map
          fun (result, child) => (result, table.put key (.tables (children.dropLast ++ [child])))
    | some _ => none

/-- A pair under a dotted key. The table it goes to must come from a dotted key too, unless it is the
table itself, and the last part of the key must be new. -/
def define? (path : List String) (key : String) (node : Node) (table : Table) : Option Table :=
  (change true (fun parent =>
    if (parent.origin == .dotted) == path.isEmpty then none
    else if (parent.get? key).isSome then none
    else some ((), parent.put key node)) path table).map Prod.snd

end Table

/-- The parts of a dotted key: the parents and the last part. -/
structure Path where
  parents : List String
  last : String

inductive Line where
  | pair (path : Path) (node : Node)
  | header (path : Path)
  | repeatedHeader (path : Path)
  | blank

/-- A document under construction: the finished tables, and the table that pairs now go to with the
header that opened it. -/
structure Draft where
  root : Table := .empty .defined
  current : Table := .empty .defined
  header? : Option (Path × Bool) := none

namespace Draft

/-- Puts the current table in its place. -/
def close? (draft : Draft) : Option Table :=
  match draft.header? with
  | none => some draft.current
  | some (path, repeated) =>
    (Table.change false (fun parent =>
      if repeated then
        match parent.get? path.last with
        | some (.tables tables) =>
          some ((), parent.put path.last (.tables (tables ++ [draft.current])))
        | _ => none
      else some ((), parent.put path.last (.table draft.current))) path.parents draft.root).map Prod.snd

/-- A header opens a new table, or one that is so far only implied by the headers of its children. -/
def open? (root : Table) (path : Path) : Option Draft :=
  (Table.change false (fun parent =>
    match parent.get? path.last with
    | none => some (.empty .defined, parent)
    | some (.table table) =>
      if table.origin = .implied then some (⟨table.entries, .defined⟩, parent.remove path.last)
      else none
    | some _ => none) path.parents root).map
    fun (current, root) => ⟨root, current, some (path, false)⟩

def openRepeated? (root : Table) (path : Path) : Option Draft :=
  (Table.change false (fun parent =>
    match parent.get? path.last with
    | none => some ((), parent.put path.last (.tables []))
    | some (.tables _) => some ((), parent)
    | some _ => none) path.parents root).map
    fun ((), root) => ⟨root, .empty .defined, some (path, true)⟩

def add? (draft : Draft) : Line → Option Draft
  | .blank => some draft
  | .pair path node =>
    (draft.current.define? path.parents path.last node).map fun current => { draft with current }
  | .header path => draft.close?.bind fun root => open? root path
  | .repeatedHeader path => draft.close?.bind fun root => openRepeated? root path

end Draft

/-- The document that a list of lines defines, if no key is defined twice. -/
def Table.ofLines? (lines : List Line) : Option Table :=
  (lines.foldlM Draft.add? {}).bind Draft.close?

end ComponentBinding.Toml
