import ComponentBinding.Proofs.View.Nesting

/-! A type resolver decides the members of kind type and nothing else: whatever two resolvers answer, the
views that they give are alike in all other parts. -/
namespace ComponentBinding

/-- The handle that a resolver finds for the text of a value. Only a scalar names a type: of a sequence or a
map no resolver is asked. -/
def TypeResolver.handle? (resolver : TypeResolver) : Property → Option TypeHandle
  | .array _ | .map _ => none
  | value =>
    match resolver value.text with
    | .resolved handle => some handle
    | .failed _ | .panicked _ => none

mutual

/-- Two values of a kind that differ in types at most. -/
inductive Kind.Alike : Kind → ViewValue → ViewValue → Prop where
  | type (value value' : ViewValue) : Kind.Alike .type value value'
  | same {kind : Kind} (value : ViewValue) : Kind.Alike kind value value
  | view {schema : Schema} {view view' : View} (nested : Schema.Alike schema view view') :
    Kind.Alike (.view schema) (.view view) (.view view')

/-- Two slots of a member. A single type may be absent in one of them; an array is as long in both. -/
inductive Member.Alike : Member → Option ViewValue → Option ViewValue → Prop where
  | type {member : Member} (one : member.isArray = false) (kind : member.kind = .type)
    (slot slot' : Option ViewValue) : Member.Alike member slot slot'
  | absent (member : Member) : Member.Alike member none none
  | single {member : Member} {value value' : ViewValue} (one : member.isArray = false)
    (alike : Kind.Alike member.kind value value') : Member.Alike member (some value) (some value')
  | array {member : Member} {items items' : List ViewValue} (many : member.isArray = true)
    (length : items.length = items'.length)
    (each : ∀ (place : Nat) (item item' : ViewValue), items[place]? = some item → items'[place]? = some item' →
      Kind.Alike member.kind item item') : Member.Alike member (some (.array items)) (some (.array items'))

/-- Two views of a schema, with the same names in the same order. -/
inductive Schema.Alike : Schema → View → View → Prop where
  | intro {schema : Schema} {view view' : View} (name : view.schemaName = view'.schemaName)
    (names : view.members.map Prod.fst = schema.members.map Member.name)
    (names' : view'.members.map Prod.fst = schema.members.map Member.name)
    (slots : ∀ (place : Nat) (member : Member) (slot slot' : String × Option ViewValue),
      schema.members[place]? = some member → view.members[place]? = some slot →
      view'.members[place]? = some slot' → Member.Alike member slot.2 slot'.2) :
    Schema.Alike schema view view'

end

namespace Kind

/-- The resolver is asked for types alone. -/
theorem coerce_congr {kind : Kind} (h : kind ≠ .type) (resolver resolver' : TypeResolver) (value : Property) :
    kind.coerce resolver value = kind.coerce resolver' value := by
  cases kind with
  | type => exact absurd rfl h
  | _ => rfl

theorem coerce_type (resolver : TypeResolver) (value : Property) :
    (Kind.type.coerce resolver value).toOption = (resolver.handle? value).map .type := by
  cases value with
  | array | map => rfl
  | _ =>
    simp only [coerce, coerceScalar, resolveType, TypeResolver.handle?]
    cases resolver (Property.text _) <;> rfl

end Kind

namespace Materializer

variable (m : Materializer) (resolver : TypeResolver)

theorem firstCoerced_alike (member key : String) {kind : Kind} (h : kind ≠ .type) (sources : List Property) :
    (m.firstCoerced member key kind sources).value =
      ({ m with resolver }.firstCoerced member key kind sources).value := by
  simp only [firstCoerced_value, Kind.coerce_congr h m.resolver resolver]

theorem elementValue_alike (member key : String) (kind : Kind) (source : Property) :
    kind.Alike (m.elementValue member key kind source).value
      ({ m with resolver }.elementValue member key kind source).value := by
  by_cases h : kind = .type
  · subst h
    exact .type _ _
  · simp only [elementValue, Kind.coerce_congr h m.resolver resolver]
    exact .same _

theorem scalar_alike (name : String) (kind : Kind) (default? : Option Property) (config : Properties) :
    Member.Alike ⟨name, kind, false, default?⟩ (m.scalar name (memberKey name) kind default? config).value
      ({ m with resolver }.scalar name (memberKey name) kind default? config).value := by
  by_cases h : kind = .type
  · exact .type rfl h _ _
  · rw [scalar, scalar, m.firstCoerced_alike resolver _ _ h]
    generalize ({ m with resolver }.firstCoerced name (memberKey name) kind _).value = slot
    cases slot with
    | none => exact .absent _
    | some value => exact .single rfl (.same value)

theorem viewAt_alike_of_members {depth : Nat} {config : Properties} {schema : Schema}
    (alike : ∀ member ∈ schema.members, member.Alike (m.memberAt depth config member).value
      ({ m with resolver }.memberAt depth config member).value) :
    schema.Alike (m.viewAt depth config schema).value ({ m with resolver }.viewAt depth config schema).value := by
  rw [viewAt_value, viewAt_value]
  refine .intro rfl ?_ ?_ ?_
  · rw [List.map_map]
    rfl
  · rw [List.map_map]
    rfl
  · intro place member slot slot' declared found found'
    rw [List.getElem?_map, declared] at found found'
    obtain rfl := Option.some.inj found
    obtain rfl := Option.some.inj found'
    exact alike member (List.mem_of_getElem? declared)

/-! The induction follows the making of views. Where a view nests, both runs read the same configuration at
the same depth, so they drop it together or make it together. -/

mutual

theorem membersAt_alike (depth : Nat) (config : Properties) :
    ∀ members : List Member, ∀ member ∈ members, member.Alike (m.memberAt depth config member).value
      ({ m with resolver }.memberAt depth config member).value
  | [] => fun _ h => by cases h
  | first :: members => by
    have here := memberAt_alike depth config first
    have rest := membersAt_alike depth config members
    intro member h
    rcases List.mem_cons.mp h with rfl | h
    · exact here
    · exact rest member h

theorem memberAt_alike (depth : Nat) (config : Properties) :
    ∀ member : Member, member.Alike (m.memberAt depth config member).value
      ({ m with resolver }.memberAt depth config member).value
  | ⟨name, kind, isArray, default?⟩ => by
    rw [memberAt, memberAt]
    cases hoff : kind.isView && !m.nestedViews with
    | true => exact .absent _
    | false =>
      cases isArray with
      | false => exact scalarOf_alike depth name default? config kind
      | true =>
        cases config.elements? kind.isView (memberKey name) default? with
        | none => exact .absent _
        | some sources =>
          refine .array rfl (by simp) fun place item item' hitem hitem' => ?_
          simp only [Logged.value_all, List.map_map, List.getElem?_map] at hitem hitem'
          obtain ⟨source, hsource, rfl⟩ := Option.map_eq_some_iff.mp hitem
          rw [hsource] at hitem'
          obtain rfl := Option.some.inj hitem'
          exact elementOf_alike depth name source kind

theorem elementOf_alike (depth : Nat) (member : String) (source : Property) :
    ∀ kind : Kind, kind.Alike (m.elementOf depth member source kind).value
      ({ m with resolver }.elementOf depth member source kind).value
  | .view schema => nestedView_alike depth _ schema
  | .boolean | .byte | .short | .int | .long | .float | .double | .string | .type | .enum _ => by
    rw [elementOf_of_not_view _ rfl, elementOf_of_not_view _ rfl]
    exact m.elementValue_alike resolver _ _ _ _

theorem scalarOf_alike (depth : Nat) (name : String) (default? : Option Property) (config : Properties) :
    ∀ kind : Kind, Member.Alike ⟨name, kind, false, default?⟩ (m.scalarOf depth name default? config kind).value
      ({ m with resolver }.scalarOf depth name default? config kind).value
  | .view ⟨schemaName, members⟩ => by
    have hexceeded : { m with resolver }.exceeded? depth = m.exceeded? depth := rfl
    rw [scalarOf_view_value, scalarOf_view_value, hexceeded]
    cases config.nested? (memberKey name) with
    | none => exact .absent _
    | some entries =>
      have alike := membersAt_alike (depth + 1) entries members
      cases (m.exceeded? depth).isNone with
      | false => exact .absent _
      | true => exact .single rfl (.view (m.viewAt_alike_of_members resolver alike))
  | .boolean | .byte | .short | .int | .long | .float | .double | .string | .type | .enum _ => by
    rw [scalarOf_of_not_view _ rfl, scalarOf_of_not_view _ rfl]
    exact m.scalar_alike resolver _ _ _ _

theorem nestedView_alike (depth : Nat) (config : Properties) :
    ∀ schema : Schema, Kind.Alike (.view schema) (m.nestedView depth config schema).value
      ({ m with resolver }.nestedView depth config schema).value
  | ⟨name, members⟩ => by
    have alike := membersAt_alike (depth + 1) config members
    have hexceeded : { m with resolver }.exceeded? depth = m.exceeded? depth := rfl
    rw [nestedView_eq, nestedView_eq, hexceeded]
    cases m.exceeded? depth with
    | some limit => exact .same _
    | none => exact .view (m.viewAt_alike_of_members resolver alike)

end

end Materializer

/-- What a resolver makes of a member of kind type. A single one takes the handle for its entry, else the one
for its default, each a first item if it is a sequence; an array has an element for each of its sources. -/
def Member.typeSlot (member : Member) (resolver : TypeResolver) (config : Properties) : Option ViewValue :=
  if member.isArray then
    (config.elements? false member.key member.default?).map fun sources =>
      .array (sources.map fun source => ((resolver.handle? source).map .type).getD .null)
  else
    let configured := (config.lookup member.key).bind Property.first?
    let declared := member.default?.bind Property.first?
    ((configured.bind resolver.handle?).or (declared.bind resolver.handle?)).map .type

namespace Materializer

variable (m : Materializer)

theorem elementOf_type (depth : Nat) (member : String) (source : Property) :
    (m.elementOf depth member source .type).value = ((m.resolver.handle? source).map .type).getD .null := by
  have hview : Kind.type.isView = false := rfl
  rw [m.elementOf_of_not_view hview, ← Kind.coerce_type, elementValue]
  cases Kind.type.coerce m.resolver source <;> rfl

private theorem findSome?_pair {α β γ : Type} (f : α → Option β) (g : β → Option γ) (first second : α) :
    ([first, second].filterMap f).findSome? g = ((f first).bind g).or ((f second).bind g) := by
  rw [List.filterMap_cons]
  cases f first with
  | none => cases hsecond : f second <;> simp [hsecond]
  | some head =>
    cases hsecond : f second <;> cases hg : g head <;> simp [hsecond, hg]

theorem memberAt_type (depth : Nat) (config : Properties) {member : Member} (hkind : member.kind = .type) :
    (m.memberAt depth config member).value = member.typeSlot m.resolver config := by
  obtain ⟨name, kind, isArray, default?⟩ := member
  obtain rfl : kind = .type := hkind
  cases isArray with
  | true =>
    rw [memberAt_many, Member.typeSlot]
    simp only [Kind.isView, Bool.false_and, Bool.false_eq_true, if_false, if_true, Member.key]
    cases config.elements? false (memberKey name) default? with
    | none => rfl
    | some sources => simp [elementOf_type]
  | false =>
    have hview : Kind.type.isView = false := rfl
    rw [memberAt_single, Member.typeSlot]
    simp only [m.scalarOf_of_not_view hview, hview, Bool.false_and, Bool.false_eq_true, if_false, Member.key, scalar,
      firstCoerced_value, Kind.coerce_type, findSome?_pair, Kind.zero?, Option.or_none, Option.map_or, Option.map_bind,
      Function.comp_def]

/-- Whatever two resolvers answer, by an error or a panic too, both runs give a view, and the views are alike
in all but the members of kind type. In the view of a run and in those that nest in it, at every level the ones
made for it and no others, what stands there is what the resolver of the run makes of the view's own entries. -/
theorem materialize_alike (resolver : TypeResolver) (schema : Schema) (config : Properties) :
    let run := m.materialize schema config
    schema.Alike run.value ({ m with resolver }.materialize schema config).value ∧
    (∀ levels view, run.value.NestsAt levels view ↔
      ∃ task, m.Includes ⟨0, config, schema⟩ task ∧ task.depth = levels ∧ (m.make task).value = view) ∧
    ∀ task, m.Includes ⟨0, config, schema⟩ task → ∀ (place : Nat) (member : Member),
      task.schema.members[place]? = some member → member.kind = .type →
        (m.make task).value.members[place]? = some (member.name, member.typeSlot m.resolver task.config) := by
  intro run
  refine ⟨?_, fun _ _ => Includes.nestsAt_materialize_iff, fun task _ place member declared hkind => ?_⟩
  · rw [materialize_value, materialize_value]
    exact m.viewAt_alike_of_members resolver (m.membersAt_alike resolver 0 config schema.members)
  · rw [make, m.viewAt_slot task.depth task.config declared, m.memberAt_type task.depth task.config hkind]

/-- A resolver that knows one name and one that panics: the first gives the default of the outer member and keeps the
place of the unknown element in the nested view, and the views are alike. -/
theorem materialize_alike_panicking :
    let m : Materializer := { resolver := .known ["B"] }
    let panicking : TypeResolver := .panicking (.text "lost")
    let single : Member := ⟨"t", .type, false, some (.string "B")⟩
    let many : Member := ⟨"ts", .type, true, none⟩
    let inner : Schema := ⟨"Inner", [⟨"n", .int, false, none⟩, many]⟩
    let outer : Schema := ⟨"Outer", [single, ⟨"v", .view inner, false, none⟩]⟩
    let entries : Properties := [("n", .long 5), ("ts", .array [.string "B", .long 1])]
    let config : Properties := [("t", .array [.string "A"]), ("v", .map entries)]
    let run := m.materialize outer config
    m.Includes ⟨0, config, outer⟩ ⟨1, entries, inner⟩ ∧ outer.members[0]? = some single ∧ single.kind = .type ∧
    inner.members[1]? = some many ∧ many.kind = .type ∧
    outer.Alike run.value ({ m with resolver := panicking }.materialize outer config).value ∧
    run.value.members[0]? = some ("t", some (.type ⟨"B"⟩)) ∧
    ∃ view, run.value.NestsAt 1 view ∧ view.members[1]? = some ("ts", some (.array [.type ⟨"B"⟩, .null])) := by
  intro m panicking single many inner outer entries config run
  have declared : outer.members[0]? = some single := rfl
  have declared' : inner.members[1]? = some many := rfl
  have hkey : single.key = "t" := by decide
  have hkey' : many.key = "ts" := by decide
  have held : entries ∈ Member.nestedEntries ⟨"v", .view inner, false, none⟩ config := by
    have hview : Member.key ⟨"v", .view inner, false, none⟩ = "v" := by decide
    rw [Member.nestedEntries, hview]
    exact List.mem_cons_self
  have included : m.Includes ⟨0, config, outer⟩ ⟨1, entries, inner⟩ :=
    .nested .self (List.mem_cons_of_mem _ List.mem_cons_self) rfl rfl rfl held
  obtain ⟨alike, nests, slots⟩ := m.materialize_alike panicking outer config
  refine ⟨included, declared, rfl, declared', rfl, alike, ?_, _, (nests 1 _).mpr ⟨_, included, rfl, rfl⟩, ?_⟩
  · have hslot : run.value.members[0]? = some ("t", single.typeSlot m.resolver config) :=
      slots _ .self 0 single declared rfl
    rw [hslot, Member.typeSlot, hkey]
    rfl
  · rw [slots _ included 1 many declared' rfl, Member.typeSlot, hkey']
    rfl

end Materializer
end ComponentBinding
