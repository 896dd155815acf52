import ComponentBinding.Proofs.View.ArrayLength
import ComponentBinding.Proofs.View.Conform
import ComponentBinding.Proofs.View.Default

/-! An array reads every item of a sequence as a single member reads that item alone, and a single member
reads a sequence as the array reads its first item. Each has a way of its own to fall back; they agree
because without a default only the zero value of the kind is left to either. -/
namespace ComponentBinding

/-- The items that a kind reads one at a time: maps for a view, anything but a sequence for the others. -/
def Kind.Reads : Kind → Property → Prop
  | .view _, item => ∃ entries, item = .map entries
  | _, item => item.items? = none

theorem Kind.reads_of_not_view {kind : Kind} (h : kind.isView = false) {item : Property} :
    kind.Reads item ↔ item.items? = none := by
  cases kind <;> first | rfl | cases h

/-- An element in the place of a slot: its value, or null if it has none. -/
inductive ViewValue.StandsFor : ViewValue → Option ViewValue → Prop where
  | value {value : ViewValue} (present : value.isNull = false) : StandsFor value (some value)
  | absent : StandsFor .null none

theorem Kind.Holds.isNull_eq_false {kind : Kind} {value : ViewValue} (holds : kind.Holds value) :
    value.isNull = false := by
  cases holds <;> rfl

theorem Member.Fills.standsFor {member : Member} {slot : Option ViewValue} (fills : member.Fills slot)
    (one : member.isArray = false) : (slot.getD .null).StandsFor slot := by
  cases fills with
  | single _ holds => exact .value holds.isNull_eq_false
  | absent => exact .absent
  | array many => exact absurd (many.symm.trans one) (by decide)
  | absentArray => exact .absent

theorem Property.first?_of_items? {value : Property} (h : value.items? = none) : value.first? = some value := by
  cases value with
  | array => cases h
  | _ => rfl

namespace Materializer

open Properties

variable (m : Materializer) (depth : Nat)

/-- Neither the zero value nor its lack is lost between the two ways to fall back. -/
theorem elementValue_eq_scalar {kind : Kind} {item : Property} (h : item.items? = none) (name other : String) :
    (m.elementValue name (memberKey name) kind item).value =
      (m.scalar other (memberKey other) kind none [(memberKey other, item)]).value.getD .null := by
  have hsources : [List.lookup (memberKey other) [(memberKey other, item)], none].filterMap
      (fun source => source.bind Property.first?) = [item] := by
    simp [Property.first?_of_items? h]
  rw [scalar, hsources, firstCoerced_value, elementValue]
  cases hcoerce : kind.coerce m.resolver item <;> simp [hcoerce, Except.toOption]

theorem elementOf_eq_single {kind : Kind} (made : m.Makes kind) {item : Property}
    (reads : kind.Reads item) (name other : String) :
    (m.elementOf depth name item kind).value =
      (m.memberAt depth [(memberKey other, item)] ⟨other, kind, false, none⟩).value.getD .null := by
  cases hview : kind.isView with
  | false =>
    rw [m.elementOf_of_not_view hview, memberAt_single, hview, Bool.false_and, if_neg Bool.false_ne_true,
      m.scalarOf_of_not_view hview]
    exact m.elementValue_eq_scalar ((Kind.reads_of_not_view hview).mp reads) name other
  | true =>
    obtain ⟨schema, rfl⟩ := Kind.exists_schema_of_isView hview
    obtain ⟨entries, rfl⟩ := reads
    rw [memberAt_view_configured, elementOf, nestedView_eq]
    cases m.exceeded? depth <;> simp [made hview, Property.viewEntries?, Property.entries?]

/-- Of a sequence a single member reads the first item and nothing else. -/
theorem single_of_sequence {kind : Kind} {item : Property} (reads : kind.Reads item) {rest : List Property}
    {config : Properties} {name : String} (held : config.lookup (memberKey name) = some (.array (item :: rest))) :
    m.memberAt depth config ⟨name, kind, false, none⟩ =
      m.memberAt depth [(memberKey name, item)] ⟨name, kind, false, none⟩ := by
  have hlookup : List.lookup (memberKey name) [(memberKey name, item)] = some item := List.lookup_cons_self
  cases hview : kind.isView with
  | false =>
    have hfirst : (Property.array (item :: rest)).first? = item.first? := by
      rw [Property.first?_of_items? ((Kind.reads_of_not_view hview).mp reads)]
      rfl
    simp only [memberAt_single, m.scalarOf_of_not_view hview, scalar, held, hlookup, List.filterMap_cons,
      Option.bind_some, hfirst]
  | true =>
    obtain ⟨schema, rfl⟩ := Kind.exists_schema_of_isView hview
    obtain ⟨entries, rfl⟩ := reads
    have hnested : config.nested? (memberKey name) = nested? (memberKey name) [(memberKey name, .map entries)] := by
      simp only [nested?_of_lookup held, nested?_of_lookup hlookup, Property.viewEntries?, Option.some_or]
    simp only [memberAt_single, scalarOf, hnested]

theorem memberAt_array_of_sequence {kind : Kind} (made : m.Makes kind)
    {items : List Property} {config : Properties} {name : String}
    (held : config.lookup (memberKey name) = some (.array items)) (default? : Option Property) :
    (m.memberAt depth config ⟨name, kind, true, default?⟩).value =
      some (.array (items.map fun item => (m.elementOf depth name item kind).value)) := by
  have helements : config.elements? kind.isView (memberKey name) default? = some items := by
    simp only [elements?, held, Property.sequence]
  rw [m.memberAt_array_value rfl made]
  simp only [Member.key, helements, Option.map_some]

/-- An array that is given a sequence has one element for each item, in the place of what a single member of
the kind makes of that item alone; a single member given the sequence makes of it what the first element stands
for. Where views are left out all of these are absent for a view. -/
theorem array_reads_item_by_item {kind : Kind} {items : List Property} (reads : ∀ item ∈ items, kind.Reads item)
    {config : Properties} {name : String} (held : config.lookup (memberKey name) = some (.array items))
    (default? : Option Property) {config' : Properties} {other : String}
    (held' : config'.lookup (memberKey other) = some (.array items)) :
    let array := (m.memberAt depth config ⟨name, kind, true, default?⟩).value
    let single := fun entries => (m.memberAt depth entries ⟨other, kind, false, none⟩).value
    (m.Makes kind →
      ∃ elements, array = some (.array elements) ∧
        elements.Forall₂ (fun element item => element.StandsFor (single [(memberKey other, item)])) items ∧
        ∀ element ∈ elements.head?, element.StandsFor (single config')) ∧
    (¬m.Makes kind →
      array = none ∧ single config' = none ∧ ∀ item ∈ items, single [(memberKey other, item)] = none) := by
  intro array single
  have standsFor (entries : Properties) : ((single entries).getD .null).StandsFor (single entries) :=
    (m.memberAt_fills depth entries ⟨other, kind, false, none⟩).standsFor rfl
  refine ⟨fun made => ⟨_, m.memberAt_array_of_sequence depth made held default?, ?_, ?_⟩, fun hoff => ?_⟩
  · rw [List.forall₂_map_left_iff, List.forall₂_same]
    intro item hitem
    rw [m.elementOf_eq_single depth made (reads item hitem) name other]
    exact standsFor _
  · cases items with
    | nil => simp
    | cons item rest =>
      have hitem : kind.Reads item := reads item List.mem_cons_self
      have hfirst : (m.elementOf depth name item kind).value.StandsFor (single config') := by
        rw [m.elementOf_eq_single depth made hitem name other, ← m.single_of_sequence depth hitem held']
        exact standsFor config'
      rintro element helement
      obtain rfl := Option.mem_some.mp helement
      exact hfirst
  · have hnone (entries : Properties) {member : Member} (hkind : member.kind = kind) :
        (m.memberAt depth entries member).value = none :=
      congrArg Logged.value (m.memberAt_of_not_makes depth entries (hkind ▸ hoff))
    exact ⟨hnone config rfl, hnone config' rfl, fun _ _ => hnone _ rfl⟩

/-- Of two names the second does not resolve: its element is null, as the single member is absent. -/
theorem array_reads_item_by_item_unresolved :
    let m : Materializer := { resolver := .known ["T"] }
    let items : List Property := [.string "T", .string "U"]
    let config : Properties := [("types", .array items)]
    let config' : Properties := [("type", .array items)]
    (∀ item ∈ items, Kind.type.Reads item) ∧ config.lookup (memberKey "types") = some (.array items) ∧
    config'.lookup (memberKey "type") = some (.array items) ∧
    ∃ elements, (m.memberAt 0 config ⟨"types", .type, true, none⟩).value = some (.array elements) ∧
      elements.Forall₂ (fun element item => element.StandsFor
        (m.memberAt 0 [(memberKey "type", item)] ⟨"type", .type, false, none⟩).value) items ∧
      elements[1]? = some .null := by
  intro m items config config'
  have reads : ∀ item ∈ items, Kind.type.Reads item := by simp [items, Kind.Reads, Property.items?]
  have hkey : memberKey "types" = "types" := by decide
  have hkey' : memberKey "type" = "type" := by decide
  have held : config.lookup (memberKey "types") = some (.array items) := by
    rw [hkey]
    rfl
  have held' : config'.lookup (memberKey "type") = some (.array items) := by
    rw [hkey']
    rfl
  obtain ⟨elements, hslot, hall, _⟩ := (m.array_reads_item_by_item 0 reads held none held').1 (fun _ => rfl)
  refine ⟨reads, held, held', elements, hslot, hall, ?_⟩
  have hitems : (m.memberAt 0 config ⟨"types", .type, true, none⟩).value =
      some (.array (items.map fun item => (m.elementOf 0 "types" item .type).value)) :=
    m.memberAt_array_of_sequence 0 (fun _ => rfl) held none
  rw [hslot, Option.some.injEq, ViewValue.array.injEq] at hitems
  rw [hitems]
  rfl

/-- With views switched off an array of views that is given a sequence of one map has no element at all. -/
theorem sequence_of_views_switched_off :
    let m : Materializer := { resolver := .known [], nestedViews := false }
    let kind : Kind := .view ⟨"Inner", []⟩
    let items : List Property := [.map []]
    let config : Properties := [("v", .array items)]
    (∀ item ∈ items, kind.Reads item) ∧ config.lookup (memberKey "v") = some (.array items) ∧
    ¬∃ elements, (m.memberAt 0 config ⟨"v", kind, true, none⟩).value = some (.array elements) ∧
      elements.length = items.length := by
  intro m kind items config
  have hkey : memberKey "v" = "v" := by decide
  refine ⟨?_, ?_, ?_⟩
  · rintro item hitem
    obtain rfl := List.mem_singleton.mp hitem
    exact ⟨[], rfl⟩
  · rw [hkey]
    rfl
  · rintro ⟨elements, hslot, _⟩
    cases hslot

end Materializer
end ComponentBinding
