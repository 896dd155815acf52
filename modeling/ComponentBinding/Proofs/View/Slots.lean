import ComponentBinding.View.Materialize

/-! The slots of a view stand side by side: each is made from its own member, at the place of that
member. A nested view is made as the top view is, one level deeper. -/
namespace ComponentBinding.Materializer

variable (m : Materializer) (depth : Nat) (config : Properties)

theorem firstCoerced_value (member key : String) (kind : Kind) (sources : List Property) :
    (m.firstCoerced member key kind sources).value =
      (sources.findSome? fun source => (kind.coerce m.resolver source).toOption).or kind.zero? := by
  induction sources with
  | nil => rfl
  | cons source sources ih =>
    rw [firstCoerced, List.findSome?_cons]
    cases kind.coerce m.resolver source with
    | ok value => rfl
    | error error => exact ih

theorem memberAt_single (name : String) (kind : Kind) (default? : Option Property) :
    m.memberAt depth config ⟨name, kind, false, default?⟩ =
      if kind.isView && !m.nestedViews then pure none else m.scalarOf depth name default? config kind := by
  rw [memberAt]
  rfl

theorem memberAt_many (name : String) (kind : Kind) (default? : Option Property) :
    m.memberAt depth config ⟨name, kind, true, default?⟩ =
      if kind.isView && !m.nestedViews then pure none
      else match config.elements? kind.isView (memberKey name) default? with
        | none => pure none
        | some sources => do
          return some (.array (← .all (sources.map fun source => m.elementOf depth name source kind))) := by
  rw [memberAt]
  rfl

/-- Whether members of the kind are made at all: views are left out where they are switched off. -/
def Makes (kind : Kind) : Prop := kind.isView = true → m.nestedViews = true

theorem makes_iff {kind : Kind} : m.Makes kind ↔ (kind.isView && !m.nestedViews) = false := by
  rw [Makes]
  cases kind.isView <;> cases m.nestedViews <;> simp

theorem makes_of_not_view {kind : Kind} (h : kind.isView = false) : m.Makes kind := fun hview =>
  absurd (h.symm.trans hview) Bool.false_ne_true

theorem memberAt_of_not_makes {member : Member} (h : ¬m.Makes member.kind) :
    m.memberAt depth config member = pure none := by
  obtain ⟨name, kind, isArray, default?⟩ := member
  rw [makes_iff, Bool.not_eq_false] at h
  rw [memberAt, if_pos h]

theorem makes_of_memberAt {depth : Nat} {config : Properties} {member : Member} {value : ViewValue}
    (h : (m.memberAt depth config member).value = some value) : m.Makes member.kind := by
  apply Classical.byContradiction
  intro hoff
  rw [m.memberAt_of_not_makes depth config hoff] at h
  cases h

theorem membersAt_value (members : List Member) :
    (m.membersAt depth config members).value =
      members.map fun member => (member.name, (m.memberAt depth config member).value) := by
  induction members with
  | nil => rfl
  | cons member members ih => rw [membersAt, List.map_cons, ← ih]; rfl

theorem viewAt_value (schema : Schema) :
    (m.viewAt depth config schema).value =
      ⟨schema.name, schema.members.map fun member => (member.name, (m.memberAt depth config member).value)⟩ := by
  obtain ⟨name, members⟩ := schema
  rw [← m.membersAt_value]
  rfl

theorem membersAt_congr {m' : Materializer} {members : List Member}
    (h : ∀ member ∈ members, m'.memberAt depth config member = m.memberAt depth config member) :
    m'.membersAt depth config members = m.membersAt depth config members := by
  induction members with
  | nil => rfl
  | cons member members ih =>
    rw [membersAt, membersAt, h member List.mem_cons_self, ih fun other ho => h other (List.mem_cons_of_mem _ ho)]

/-- Two ways to make views that make and report every slot alike do so with the view. -/
theorem viewAt_congr {m' : Materializer} {schema : Schema}
    (h : ∀ member ∈ schema.members, m'.memberAt depth config member = m.memberAt depth config member) :
    m'.viewAt depth config schema = m.viewAt depth config schema := by
  obtain ⟨name, members⟩ := schema
  rw [viewAt, viewAt, m.membersAt_congr depth config h]

theorem viewAt_slot {schema : Schema} {place : Nat} {member : Member}
    (declared : schema.members[place]? = some member) :
    (m.viewAt depth config schema).value.members[place]? =
      some (member.name, (m.memberAt depth config member).value) := by
  rw [viewAt_value, List.getElem?_map, declared]
  rfl

theorem nestedView_eq (schema : Schema) :
    m.nestedView depth config schema =
      match m.exceeded? depth with
      | some limit => do
        .report (.nestedViewDropped schema.name (.depthExceeded limit))
        return .null
      | none => do return .view (← m.viewAt (depth + 1) config schema) := by
  obtain ⟨name, members⟩ := schema
  cases hexceeded : m.exceeded? depth <;> simp [nestedView, viewAt, hexceeded]

theorem nestedView_value (schema : Schema) :
    (m.nestedView depth config schema).value =
      if (m.exceeded? depth).isNone then .view (m.viewAt (depth + 1) config schema).value else .null := by
  rw [nestedView_eq]
  cases m.exceeded? depth <;> rfl

/-- A single view has a value if there are entries for it and it may nest at this depth. -/
theorem scalarOf_view_value (name : String) (default? : Option Property) (schema : Schema) :
    (m.scalarOf depth name default? config (.view schema)).value =
      (config.nested? (memberKey name)).bind fun entries =>
        if (m.exceeded? depth).isNone then some (.view (m.viewAt (depth + 1) entries schema).value) else none := by
  rw [scalarOf]
  cases config.nested? (memberKey name) with
  | none => rfl
  | some entries =>
    simp only [nestedView_eq, Option.bind_some]
    cases m.exceeded? depth <;> rfl

theorem materialize_value (schema : Schema) :
    (m.materialize schema config).value = (m.viewAt 0 config schema).value := rfl

theorem materialize_slot {schema : Schema} {place : Nat} {member : Member}
    (declared : schema.members[place]? = some member) :
    (m.materialize schema config).value.members[place]? =
      some (member.name, (m.memberAt 0 config member).value) :=
  m.viewAt_slot 0 config declared

end ComponentBinding.Materializer
