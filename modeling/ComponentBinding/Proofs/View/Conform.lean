import ComponentBinding.Proofs.View.Slots

/-! Every view conforms to its schema. What a kind holds is said by its variant alone, without the
coercions and without the zero values. -/
namespace ComponentBinding

/-- The place where a symbol is declared first. -/
def Enumeration.FirstPlace (enumeration : Enumeration) (symbol : String) (place : Nat) : Prop :=
  enumeration.symbols[place]? = some symbol ∧ ∀ earlier < place, enumeration.symbols[earlier]? ≠ some symbol

/-- The kinds of which a value may be missing. -/
def Kind.isOptional : Kind → Bool
  | .string | .type | .enum _ | .view _ => true
  | _ => false

mutual

/-- The values of a kind: those of one variant, which is neither an array nor null. -/
inductive Kind.Holds : Kind → ViewValue → Prop where
  | boolean (value : Bool) : Kind.Holds .boolean (.bool value)
  | byte (value : Int8) : Kind.Holds .byte (.byte value)
  | short (value : Int16) : Kind.Holds .short (.short value)
  | int (value : Int32) : Kind.Holds .int (.int value)
  | long (value : Int64) : Kind.Holds .long (.long value)
  | float (value : Binary32) : Kind.Holds .float (.float value)
  | double (value : Binary64) : Kind.Holds .double (.double value)
  | string (value : String) : Kind.Holds .string (.string value)
  | type (handle : TypeHandle) : Kind.Holds .type (.type handle)
  | enum {enumeration : Enumeration} {constant : EnumConstant}
    (declaring : constant.typeName = enumeration.name)
    (first : enumeration.FirstPlace constant.symbol constant.ordinal) :
    Kind.Holds (.enum enumeration) (.enum constant)
  | view {schema : Schema} {view : View} (nested : Schema.Conforms schema view) :
    Kind.Holds (.view schema) (.view view)

/-- The elements of an array: values of its kind, and null where a value may be missing. -/
inductive Kind.HoldsElement : Kind → ViewValue → Prop where
  | value {kind : Kind} {value : ViewValue} (holds : Kind.Holds kind value) : Kind.HoldsElement kind value
  | null {kind : Kind} (optional : kind.isOptional = true) : Kind.HoldsElement kind .null

/-- What may stand in the slot of a member. -/
inductive Member.Fills : Member → Option ViewValue → Prop where
  | single {member : Member} {value : ViewValue} (one : member.isArray = false)
    (holds : Kind.Holds member.kind value) : Member.Fills member (some value)
  | absent {member : Member} (one : member.isArray = false) (optional : member.kind.isOptional = true) :
    Member.Fills member none
  | array {member : Member} {items : List ViewValue} (many : member.isArray = true)
    (each : ∀ item ∈ items, Kind.HoldsElement member.kind item) : Member.Fills member (some (.array items))
  | absentArray {member : Member} (many : member.isArray = true) : Member.Fills member none

/-- A view of a schema: its name, and the declared members in order, each with a slot that fits it. -/
inductive Schema.Conforms : Schema → View → Prop where
  | intro {schema : Schema} {view : View} (name : view.schemaName = schema.name)
    (names : view.members.map Prod.fst = schema.members.map Member.name)
    (slots : ∀ (place : Nat) (member : Member) (slot : String × Option ViewValue),
      schema.members[place]? = some member → view.members[place]? = some slot → Member.Fills member slot.2) :
    Schema.Conforms schema view

end

theorem Enumeration.firstPlace_of_ordinal? {enumeration : Enumeration} {symbol : String} {place : Nat}
    (h : enumeration.ordinal? symbol = some place) : enumeration.FirstPlace symbol place := by
  obtain ⟨hlt, hsymbol, hearlier⟩ := List.findIdx?_eq_some_iff_getElem.mp h
  refine ⟨?_, fun earlier he hsome => ?_⟩
  · rw [List.getElem?_eq_getElem hlt]
    simpa using hsymbol
  · obtain ⟨_, hfound⟩ := List.getElem?_eq_some_iff.mp hsome
    simpa [hfound] using hearlier earlier he

namespace Kind

theorem holds_of_zero? {kind : Kind} {value : ViewValue} (h : kind.zero? = some value) : kind.Holds value := by
  cases kind <;> cases h <;> constructor

theorem isOptional_of_zero? {kind : Kind} (h : kind.zero? = none) : kind.isOptional = true := by
  cases kind <;> first | rfl | cases h

theorem holds_of_convert? {kind : Kind} {source : Property} {value : ViewValue}
    (h : convert? source kind = some value) : kind.Holds value := by
  cases kind with
  | string => cases h; exact .string _
  | type | enum | view => cases h
  | _ =>
    obtain ⟨_, _, rfl⟩ := Option.map_eq_some_iff.mp h
    constructor

theorem holds_of_coerceScalar {resolver : TypeResolver} {kind : Kind} {source : Property} {value : ViewValue}
    (h : coerceScalar resolver kind source = .ok value) : kind.Holds value := by
  unfold coerceScalar at h
  split at h
  · rw [resolveType] at h
    split at h <;> cases h
    exact .type _
  · rw [enumConstant] at h
    split at h <;> cases h
    rename_i place hplace
    exact .enum rfl (Enumeration.firstPlace_of_ordinal? hplace)
  · split at h <;> cases h
    rename_i hconvert
    exact holds_of_convert? hconvert

theorem holds_of_coerce {resolver : TypeResolver} {kind : Kind} {source : Property} {value : ViewValue}
    (h : kind.coerce resolver source = .ok value) : kind.Holds value := by
  unfold coerce at h
  split at h
  · cases h
  · cases h
  · exact holds_of_coerceScalar h

end Kind

namespace Materializer

variable (m : Materializer)

theorem firstCoerced_fills (member key : String) (declared : Member) (one : declared.isArray = false)
    (sources : List Property) : declared.Fills (m.firstCoerced member key declared.kind sources).value := by
  rw [firstCoerced_value]
  cases hfound : sources.findSome? fun source => (declared.kind.coerce m.resolver source).toOption with
  | some value =>
    obtain ⟨source, _, hsource⟩ := List.exists_of_findSome?_eq_some hfound
    cases hcoerce : declared.kind.coerce m.resolver source with
    | ok coerced =>
      rw [hcoerce] at hsource
      obtain rfl : coerced = value := Option.some.inj hsource
      exact .single one (Kind.holds_of_coerce hcoerce)
    | error error =>
      rw [hcoerce] at hsource
      cases hsource
  | none =>
    cases hzero : declared.kind.zero? with
    | none => exact .absent one (Kind.isOptional_of_zero? hzero)
    | some value => exact .single one (Kind.holds_of_zero? hzero)

theorem elementValue_holds (member key : String) (kind : Kind) (source : Property) :
    kind.HoldsElement (m.elementValue member key kind source).value := by
  rw [elementValue]
  cases hcoerce : kind.coerce m.resolver source with
  | ok value => exact .value (Kind.holds_of_coerce hcoerce)
  | error error =>
    cases hzero : kind.zero? with
    | none =>
      simp only [Logged.value_bind, Logged.value_pure]
      exact .null (Kind.isOptional_of_zero? hzero)
    | some value => exact .value (Kind.holds_of_zero? hzero)

theorem viewAt_conforms_of_fill {depth : Nat} {config : Properties} {schema : Schema}
    (fill : ∀ member ∈ schema.members, member.Fills (m.memberAt depth config member).value) :
    schema.Conforms (m.viewAt depth config schema).value := by
  rw [viewAt_value]
  refine .intro rfl ?_ ?_
  · rw [List.map_map]
    rfl
  · intro place member slot declared found
    rw [List.getElem?_map, declared] at found
    obtain rfl := Option.some.inj found
    exact fill member (List.mem_of_getElem? declared)

/-! The induction follows the making of views: over the members of a schema, the kind of a member and the
schema of a nested view. The depth and the configuration change on the way down. -/

mutual

theorem membersAt_fill (depth : Nat) (config : Properties) :
    ∀ members : List Member, ∀ member ∈ members, member.Fills (m.memberAt depth config member).value
  | [] => fun _ h => by cases h
  | first :: members => by
    have fills := memberAt_fills depth config first
    have fill := membersAt_fill depth config members
    intro member h
    rcases List.mem_cons.mp h with rfl | h
    · exact fills
    · exact fill member h

theorem memberAt_fills (depth : Nat) (config : Properties) :
    ∀ member : Member, member.Fills (m.memberAt depth config member).value
  | ⟨name, kind, isArray, default?⟩ => by
    rw [memberAt]
    cases hoff : kind.isView && !m.nestedViews with
    | true =>
      have optional : kind.isOptional = true := by
        cases kind <;> first | rfl | cases hoff
      cases isArray with
      | false => exact .absent rfl optional
      | true => exact .absentArray rfl
    | false =>
      cases isArray with
      | false => exact scalarOf_fills depth name default? config kind
      | true =>
        cases config.elements? kind.isView (memberKey name) default? with
        | none => exact .absentArray rfl
        | some sources =>
          refine .array rfl fun item hitem => ?_
          rw [Logged.value_all, List.map_map] at hitem
          obtain ⟨source, _, rfl⟩ := List.mem_map.mp hitem
          exact elementOf_holds depth name source kind

theorem elementOf_holds (depth : Nat) (member : String) (source : Property) :
    ∀ kind : Kind, kind.HoldsElement (m.elementOf depth member source kind).value
  | .view schema => nestedView_holds depth _ schema
  | .boolean | .byte | .short | .int | .long | .float | .double | .string | .type | .enum _ => by
    rw [elementOf_of_not_view m rfl]
    exact m.elementValue_holds _ _ _ _

theorem scalarOf_fills (depth : Nat) (name : String) (default? : Option Property) (config : Properties) :
    ∀ kind : Kind, Member.Fills ⟨name, kind, false, default?⟩ (m.scalarOf depth name default? config kind).value
  | .view schema => by
    rw [scalarOf]
    cases config.nested? (memberKey name) with
    | none => exact .absent rfl rfl
    | some entries =>
      have holds := nestedView_holds depth entries schema
      simp only [Logged.value_bind, Logged.value_pure]
      generalize (m.nestedView depth entries schema).value = value at holds
      cases holds with
      | null => exact .absent rfl rfl
      | value holds =>
        cases holds with
        | view nested => exact .single rfl (.view nested)
  | .boolean | .byte | .short | .int | .long | .float | .double | .string | .type | .enum _ => by
    rw [scalarOf_of_not_view m rfl]
    exact m.firstCoerced_fills _ _ ⟨name, _, false, default?⟩ rfl _

theorem nestedView_holds (depth : Nat) (config : Properties) :
    ∀ schema : Schema, Kind.HoldsElement (.view schema) (m.nestedView depth config schema).value
  | ⟨name, members⟩ => by
    have fill := membersAt_fill (depth + 1) config members
    rw [nestedView_eq]
    cases m.exceeded? depth with
    | some limit => exact .null rfl
    | none => exact .value (.view (m.viewAt_conforms_of_fill fill))

end

/-- Whatever the configuration holds and whatever the resolver answers, a panic included, there is a view,
and it conforms to its schema in every part. -/
theorem materialize_conforms (schema : Schema) (config : Properties) :
    schema.Conforms (m.materialize schema config).value := by
  rw [materialize_value]
  exact m.viewAt_conforms_of_fill (m.membersAt_fill 0 config schema.members)

end Materializer
end ComponentBinding
