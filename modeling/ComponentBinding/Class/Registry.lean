import ComponentBinding.Class.Method

/-! Component classes and their registry. A class is known by its place in the registry. -/
namespace ComponentBinding

/-- A component class. Its identifier is given at registration. -/
structure Class (σ : Type) where
  id : Nat := 0
  name : String
  loader : UInt64
  parent? : Option Nat := none
  methods : List (Method σ) := []

namespace Class

variable {σ : Type}

/-- What comes before the last point of the name; nothing for the default package. -/
def package (c : Class σ) : String :=
  String.ofList ((c.name.toList.reverse.dropWhile (· ≠ '.')).drop 1).reverse

/-- The first declared method of this name and these parameters; inherited ones do not count. -/
def declared? (c : Class σ) (name : String) (parameters : Signature) : Option (Method σ) :=
  c.methods.find? fun method => method.name = name && method.parameters = parameters

end Class

/-- The registered classes in order. -/
structure Registry (σ : Type) where
  classes : List (Class σ) := []

namespace Registry

variable {σ : Type}

def register (registry : Registry σ) (c : Class σ) : Registry σ :=
  ⟨registry.classes ++ [{ c with id := registry.classes.length }]⟩

def ofList (classes : List (Class σ)) : Registry σ := classes.foldl register ⟨[]⟩

def get? (registry : Registry σ) (id : Nat) : Option (Class σ) := registry.classes[id]?

/-- The names and the identifiers registered under them, the latest first. -/
def ids (registry : Registry σ) : List (String × Nat) :=
  registry.classes.foldl (fun ids c => (c.name, c.id) :: ids) []

/-- The latest class of a name. -/
def named? (registry : Registry σ) (name : String) : Option (Class σ) :=
  (registry.ids.lookup name).bind registry.get?

/-- The classes from `id` to the root, leaf first; more than `bound` of them make a cycle. -/
def chain (registry : Registry σ) (leaf : Nat) :
    (bound : Nat) → (id : Nat) → Except HierarchyError (List (Class σ))
  | 0, _ => .error (.cycle leaf)
  | bound + 1, id =>
    match registry.get? id with
    | none => .error (.missingClass id)
    | some c =>
      match c.parent? with
      | none => .ok [c]
      | some parent => (chain registry leaf bound parent).map (c :: ·)

/-- The ancestors of a class, the class itself first. -/
def ancestors (registry : Registry σ) (leaf : Nat) : Except HierarchyError (List (Class σ)) :=
  registry.chain leaf (registry.classes.length + 1) leaf

end Registry

/-- What was asked of a hierarchy: the ancestors of a class, and how many walks it took. -/
structure HierarchyWalk (σ : Type) where
  ancestors : Except HierarchyError (List (Class σ))
  count : Nat

/-- One walk over the hierarchy. -/
def Registry.walk {σ : Type} (registry : Registry σ) (leaf : Nat) : HierarchyWalk σ :=
  ⟨registry.ancestors leaf, 1⟩

end ComponentBinding
