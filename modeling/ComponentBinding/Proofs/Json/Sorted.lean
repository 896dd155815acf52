import ComponentBinding.Json.Basic

/-! Documents with their fields in key order. An object is a set of fields: of all the ways to list them one
is in key order, as long as no key is repeated. -/
namespace ComponentBinding.Json

mutual

/-- The predicate holds of a document and of every document in it, at any depth. -/
def Everywhere (P : Json → Prop) : Json → Prop
  | .array items => P (.array items) ∧ EveryItem P items
  | .object fields => P (.object fields) ∧ EveryField P fields
  | json => P json

def EveryItem (P : Json → Prop) : List Json → Prop
  | [] => True
  | item :: items => item.Everywhere P ∧ EveryItem P items

def EveryField (P : Json → Prop) : List (String × Json) → Prop
  | [] => True
  | (_, value) :: fields => value.Everywhere P ∧ EveryField P fields

end

/-- An integer, if it is one, of 64 bits. -/
def FitsInt64 : Json → Prop
  | .int value => Int64.minValue.toInt ≤ value ∧ value ≤ Int64.maxValue.toInt
  | _ => True

/-- An object, if it is one, without a repeated key. -/
def KeysDistinct : Json → Prop
  | .object fields => (fields.map Prod.fst).Nodup
  | _ => True

/-- An object, if it is one, with its fields in key order. -/
def KeysOrdered : Json → Prop
  | .object fields => fields.Pairwise fun a b => a.1 < b.1
  | _ => True

/-- Whether the first field may stand before the second in key order. -/
def keyLe (a b : String × Json) : Bool := !decide (b.1 < a.1)

mutual

/-- The document with the fields of every object in key order. -/
def sorted : Json → Json
  | .array items => .array (sortedItems items)
  | .object fields => .object ((sortedFields fields).mergeSort keyLe)
  | json => json

def sortedItems : List Json → List Json
  | [] => []
  | item :: items => item.sorted :: sortedItems items

def sortedFields : List (String × Json) → List (String × Json)
  | [] => []
  | (key, value) :: fields => (key, value.sorted) :: sortedFields fields

end

theorem keyLe_iff {a b : String × Json} : keyLe a b = true ↔ ¬b.1 < a.1 := by
  simp only [keyLe, Bool.not_eq_true', decide_eq_false_iff_not]

theorem pairwise_mergeSort {fields : List (String × Json)} (h : (fields.map Prod.fst).Nodup) :
    (fields.mergeSort keyLe).Pairwise fun a b => a.1 < b.1 := by
  have hle : (fields.mergeSort keyLe).Pairwise fun a b => keyLe a b = true := by
    apply List.pairwise_mergeSort
    · intro a b c hab hbc
      rw [keyLe_iff, String.not_lt] at hab hbc ⊢
      exact String.le_trans hab hbc
    · intro a b
      rw [Bool.or_eq_true, keyLe_iff, keyLe_iff, String.not_lt, String.not_lt]
      exact String.le_total ..
  have hne : (fields.mergeSort keyLe).Pairwise fun a b => a.1 ≠ b.1 :=
    List.pairwise_map.mp (((List.mergeSort_perm fields keyLe).map Prod.fst).nodup_iff.mpr h)
  refine (hle.and hne).imp ?_
  rintro a b ⟨hle, hne⟩
  apply Decidable.by_contra
  intro hlt
  exact hne (String.le_antisymm (String.not_lt.mp (keyLe_iff.mp hle)) (String.not_lt.mp hlt))

/-- Fields with distinct keys have one arrangement in key order. -/
theorem mergeSort_eq {fields fields' : List (String × Json)} (h : (fields.map Prod.fst).Nodup)
    (hperm : fields'.Perm fields) (hordered : fields'.Pairwise fun a b => a.1 < b.1) :
    fields' = fields.mergeSort keyLe :=
  List.Perm.eq_of_pairwise (fun _ _ _ _ hab hba => absurd hba (String.lt_asymm hab)) hordered
    (pairwise_mergeSort h) (hperm.trans (List.mergeSort_perm fields keyLe).symm)

mutual

theorem sorted_of_ordered : ∀ json : Json, json.Everywhere KeysOrdered → json.sorted = json
  | .null, _ | .bool _, _ | .int _, _ | .float _, _ | .string _, _ => rfl
  | .array items, h => by rw [sorted, sortedItems_of_ordered items h.2]
  | .object fields, h => by
    have hle : fields.Pairwise fun a b => keyLe a b = true :=
      List.Pairwise.imp (fun hlt => keyLe_iff.mpr (String.lt_asymm hlt)) h.1
    rw [sorted, sortedFields_of_ordered fields h.2, List.mergeSort_of_pairwise hle]

theorem sortedItems_of_ordered : ∀ items : List Json, EveryItem KeysOrdered items → sortedItems items = items
  | [], _ => rfl
  | item :: items, h => by rw [sortedItems, sorted_of_ordered item h.1, sortedItems_of_ordered items h.2]

theorem sortedFields_of_ordered : ∀ fields : List (String × Json), EveryField KeysOrdered fields →
    sortedFields fields = fields
  | [], _ => rfl
  | (key, value) :: fields, h => by
    rw [sortedFields, sorted_of_ordered value h.1, sortedFields_of_ordered fields h.2]

end

theorem keys_sortedFields (fields : List (String × Json)) :
    (sortedFields fields).map Prod.fst = fields.map Prod.fst := by
  induction fields with
  | nil => rfl
  | cons field fields ih => rw [sortedFields, List.map_cons, List.map_cons, ih]

end ComponentBinding.Json
