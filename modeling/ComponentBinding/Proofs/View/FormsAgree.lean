import ComponentBinding.Proofs.View.Slots
import ComponentBinding.Proofs.View.Written

/-! A member has one value for all ways to write what it reads. -/
namespace ComponentBinding
open Properties

namespace Materializer

variable (m : Materializer) (depth : Nat)

theorem memberAt_single_view {name : String} {schema : Schema} {config map : Properties}
    (made : m.Makes (.view schema)) (h : config.nested? (memberKey name) = some map) (default? : Option Property) :
    m.memberAt depth config ⟨name, .view schema, false, default?⟩ = do
      let value ← m.nestedView depth map schema
      return if value.isNull then none else some value := by
  rw [memberAt_single, m.makes_iff.mp made]
  simp [scalarOf, h]

theorem memberAt_array {name : String} {kind : Kind} (made : m.Makes kind) {default? : Option Property}
    {config : Properties} {sources : List Property}
    (h : config.elements? kind.isView (memberKey name) default? = some sources) :
    m.memberAt depth config ⟨name, kind, true, default?⟩ = do
      return some (.array (← .all (sources.map fun source => m.elementOf depth name source kind))) := by
  rw [memberAt_many, m.makes_iff.mp made]
  simp [h]

/-- However a map, a list of maps or a list of values is written at a free key, the member reads it whole:
a single view from the map, an array with one element for each of the maps or values, in order. Where views
are left out a member of views is absent, however they are written. -/
theorem memberAt_written (m : Materializer) (depth : Nat) (name : String) (default? : Option Property)
    {config : Properties} (ordered : config.Ordered) (free : config.Free (memberKey name)) :
    (∀ (schema : Schema) (map : Properties), map.Ordered → map ≠ [] →
      ∀ entries, WritesView (memberKey name) map entries →
        let slot := m.memberAt depth (config.extend entries) ⟨name, .view schema, false, default?⟩
        (m.Makes (.view schema) → slot = do
          let value ← m.nestedView depth map schema
          return if value.isNull then none else some value) ∧
        (¬m.Makes (.view schema) → slot = pure none)) ∧
    (∀ (schema : Schema) (maps : List Properties), (∀ map ∈ maps, map.Ordered ∧ map ≠ []) → maps ≠ [] →
      ∀ entries, WritesViews (memberKey name) maps entries →
        let slot := m.memberAt depth (config.extend entries) ⟨name, .view schema, true, default?⟩
        (m.Makes (.view schema) → slot = do
          return some (.array (← .all (maps.map fun map => m.nestedView depth map schema)))) ∧
        (¬m.Makes (.view schema) → slot = pure none)) ∧
    (∀ (kind : Kind) (values : List Property), kind.isView = false → values ≠ [] →
      ∀ entries, WritesValues (memberKey name) values entries →
        m.memberAt depth (config.extend entries) ⟨name, kind, true, default?⟩ = do
          return some (.array (← .all (values.map fun value => m.elementValue name (memberKey name) kind value)))) := by
  refine ⟨?_, ?_, ?_⟩
  · intro schema map hmap hne entries hw slot
    refine ⟨fun made => ?_, fun hoff => m.memberAt_of_not_makes depth _ hoff⟩
    exact m.memberAt_single_view depth made (nested?_written ordered free hmap hne hw) default?
  · intro schema maps hmaps hne entries hw slot
    refine ⟨fun made => ?_, fun hoff => m.memberAt_of_not_makes depth _ hoff⟩
    have helements : (config.extend entries).elements? (Kind.view schema).isView (memberKey name) default? =
      some (maps.map .map) := elements?_writtenViews ordered free hmaps hne hw default?
    exact (m.memberAt_array depth made helements).trans (by rw [List.map_map]; rfl)
  · intro kind values hkind hne entries hw
    have helements := elements?_writtenValues ordered free hne hw default?
    rw [← hkind] at helements
    rw [m.memberAt_array depth (m.makes_of_not_view hkind) helements]
    simp only [m.elementOf_of_not_view hkind]

/-- Eleven maps, each with a number of its own, make the same eleven views below their indices as in a list: the one
at index ten is not taken for the one at index one. -/
theorem memberAt_written_eleven_maps :
    let m : Materializer := { resolver := .known [] }
    let config : Properties := [("k1", .bool true)]
    let maps : List Properties := (List.range 11).map fun number => [("0.x", .long (.ofNat number))]
    let schema : Schema := ⟨"Inner", [⟨"0_x", .int, false, none⟩]⟩
    let member : Member := ⟨"k", .view schema, true, none⟩
    let number? (item : ViewValue) : Option Int64 := (item.view?.bind fun view => view.get? "0_x").bind ViewValue.int64?
    config.Ordered ∧ config.Free (memberKey "k") ∧ (∀ map ∈ maps, map.Ordered ∧ map ≠ []) ∧ maps ≠ [] ∧
    m.memberAt 0 (config.extend (spreadBelow (memberKey "k") maps)) member =
      m.memberAt 0 (config.extend [(memberKey "k", .array (maps.map .map))]) member ∧
    ∃ items, (m.memberAt 0 (config.extend (spreadBelow (memberKey "k") maps)) member).value = some (.array items) ∧
      items.map number? = (List.range 11).map fun number => some (.ofNat number) := by
  intro m config maps schema member number?
  have ordered : config.Ordered := List.pairwise_singleton _ _
  have free : config.Free (memberKey "k") := by
    have hkey : memberKey "k" = "k" := by decide
    rintro entry hm
    obtain rfl := List.mem_singleton.mp hm
    rw [hkey]
    refine ⟨by decide, fun rest h => ?_⟩
    have hchars := congrArg String.toList h
    simp [String.toList_append] at hchars
  have hmaps : ∀ map ∈ maps, map.Ordered ∧ map ≠ [] := by
    intro map hm
    obtain ⟨number, _, rfl⟩ := List.mem_map.mp hm
    exact ⟨List.pairwise_singleton _ _, List.cons_ne_nil _ _⟩
  have hne : maps ≠ [] := by simp [maps]
  obtain ⟨_, views, _⟩ := memberAt_written m 0 "k" none ordered free
  have hdotted := (views schema maps hmaps hne _ .dotted).1 fun _ => rfl
  have hwhole := (views schema maps hmaps hne _ .whole).1 fun _ => rfl
  exact ⟨ordered, free, hmaps, hne, hdotted.trans hwhole.symm, _, congrArg Logged.value hdotted, rfl⟩

end Materializer
end ComponentBinding
