/-! Ordered selections of distinct elements. -/
namespace ComponentBinding

variable {α : Type} [BEq α]

/-- Every selection of a layer with one more element at its end. -/
def extendSelections (elements : List α) (layer : List (List α)) : List (List α) :=
  layer.flatMap fun selection =>
    (elements.filter fun element => !selection.contains element).map fun element =>
      selection ++ [element]

/-- The layers that follow a given one, the shorter selections first. -/
def longerSelections (elements : List α) : (layers : Nat) → List (List α) → List (List α)
  | 0, _ => []
  | layers + 1, layer =>
    let next := extendSelections elements layer
    next ++ longerSelections elements layers next

/-- The selections of two or more elements. -/
def selections (elements : List α) : List (List α) :=
  longerSelections elements (elements.length - 1) (elements.map fun element => [element])

end ComponentBinding
