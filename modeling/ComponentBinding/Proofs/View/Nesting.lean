import ComponentBinding.Proofs.View.ArrayLength
import ComponentBinding.Proofs.View.Conform
import ComponentBinding.Proofs.View.Default

/-! Views inside views. Making a view makes those that nest in its members, each from entries of its own and one
level deeper: their values are parts of the value, and their events part of the log. No other view is a part of
the value. -/
namespace ComponentBinding

/-! Schemas inside schemas -/

mutual

/-- How many levels of views a schema puts below its own. -/
def Schema.nesting : Schema → Nat
  | ⟨_, members⟩ => Schema.nestingOf members

def Schema.nestingOf : List Member → Nat
  | [] => 0
  | member :: members => max member.nesting (Schema.nestingOf members)

def Member.nesting : Member → Nat
  | ⟨_, kind, _, _⟩ => kind.nesting

def Kind.nesting : Kind → Nat
  | .view schema => schema.nesting + 1
  | _ => 0

end

namespace Schema

theorem nesting_le_nestingOf {member : Member} {members : List Member} (declared : member ∈ members) :
    member.nesting ≤ nestingOf members := by
  induction members with
  | nil => cases declared
  | cons first members ih =>
    rcases List.mem_cons.mp declared with rfl | declared
    · exact Nat.le_max_left ..
    · exact Nat.le_trans (ih declared) (Nat.le_max_right ..)

theorem nesting_lt {schema inner : Schema} {member : Member} (declared : member ∈ schema.members)
    (isView : member.kind = .view inner) : inner.nesting < schema.nesting := by
  obtain ⟨name, members⟩ := schema
  have hle : member.nesting ≤ nestingOf members := nesting_le_nestingOf declared
  obtain ⟨_, kind, _, _⟩ := member
  obtain rfl : kind = .view inner := isView
  exact hle

/-- What passes to a schema from the schemas nested in its members holds of every schema. -/
theorem nested_induction {motive : Schema → Prop}
    (step : ∀ schema, (∀ member ∈ schema.members, ∀ inner, member.kind = .view inner → motive inner) → motive schema)
    (schema : Schema) : motive schema := by
  induction hlevels : schema.nesting using Nat.strong_induction_on generalizing schema with
  | _ levels ih =>
    subst hlevels
    exact step schema fun member declared inner isView => ih _ (nesting_lt declared isView) inner rfl

end Schema

/-! Views inside views -/

/-- The views that a value holds: itself, or those among its items. -/
def ViewValue.views : ViewValue → List View
  | .view nested => [nested]
  | .array items => items.filterMap view?
  | _ => []

/-- A view contains itself, and what the members of a view that it contains hold. -/
inductive View.Contains (view : View) : View → Prop where
  | self : View.Contains view view
  | nested {outer inner : View} {name : String} {value : ViewValue} (contained : View.Contains view outer)
    (slot : (name, some value) ∈ outer.members) (held : inner ∈ value.views) : View.Contains view inner

/-- A view nests in another this many levels below it. -/
inductive View.NestsAt (view : View) : Nat → View → Prop where
  | self : View.NestsAt view 0 view
  | nested {levels : Nat} {outer inner : View} {name : String} {value : ViewValue}
    (nests : View.NestsAt view levels outer) (slot : (name, some value) ∈ outer.members) (held : inner ∈ value.views) :
    View.NestsAt view (levels + 1) inner

theorem View.contains_iff {view inner : View} : view.Contains inner ↔ ∃ levels, view.NestsAt levels inner := by
  constructor
  · intro h
    induction h with
    | self => exact ⟨0, .self⟩
    | nested _ slot held ih =>
      obtain ⟨levels, nests⟩ := ih
      exact ⟨levels + 1, .nested nests slot held⟩
  · rintro ⟨levels, h⟩
    induction h with
    | self => exact .self
    | nested _ slot held ih => exact .nested ih slot held

/-! A member that is no view holds no views. -/

theorem Kind.Holds.views_eq_nil {kind : Kind} {value : ViewValue} (holds : kind.Holds value)
    (hview : kind.isView = false) : value.views = [] := by
  cases holds with
  | view => cases hview
  | _ => rfl

theorem Kind.HoldsElement.view?_eq_none {kind : Kind} {item : ViewValue} (holds : kind.HoldsElement item)
    (hview : kind.isView = false) : item.view? = none := by
  cases holds with
  | value holds =>
    cases holds with
    | view => cases hview
    | _ => rfl
  | null => rfl

theorem Member.Fills.views_eq_nil {member : Member} {value : ViewValue} (fills : member.Fills (some value))
    (hview : member.kind.isView = false) : value.views = [] := by
  cases fills with
  | single _ holds => exact holds.views_eq_nil hview
  | array _ each => exact List.filterMap_eq_nil_iff.mpr fun item hitem => (each item hitem).view?_eq_none hview

/-- The entries for the views that nest in a member, one map of entries for each of them. -/
def Member.nestedEntries (member : Member) (config : Properties) : List Properties :=
  if member.isArray then
    ((config.elements? true member.key member.default?).getD []).map fun source => source.entries?.getD []
  else (config.nested? member.key).toList

/-- A view to be made of a schema and its entries. -/
structure ViewTask where
  depth : Nat
  config : Properties
  schema : Schema

namespace Materializer

variable (m : Materializer)

def make (task : ViewTask) : Logged View := m.viewAt task.depth task.config task.schema

/-- The views to be made for a view: itself, and those that nest in the members of one of them. -/
inductive Includes (task : ViewTask) : ViewTask → Prop where
  | self : Includes task task
  | nested {outer : ViewTask} {member : Member} {schema : Schema} {entries : Properties}
    (included : Includes task outer) (declared : member ∈ outer.schema.members)
    (isView : member.kind = .view schema) (enabled : m.nestedViews = true)
    (allowed : m.exceeded? outer.depth = none) (held : entries ∈ member.nestedEntries outer.config) :
    Includes task ⟨outer.depth + 1, entries, schema⟩

variable {m} in
theorem nestedView_allowed {depth : Nat} (allowed : m.exceeded? depth = none) (config : Properties) (schema : Schema) :
    m.nestedView depth config schema = do return .view (← m.viewAt (depth + 1) config schema) := by
  rw [nestedView_eq, allowed]

/-- The view to nest at this depth, if one may. -/
def inner? (depth : Nat) (schema : Schema) (entries : Properties) : Option View :=
  if (m.exceeded? depth).isNone then some (m.viewAt (depth + 1) entries schema).value else none

theorem inner?_eq_some_iff {depth : Nat} {schema : Schema} {entries : Properties} {inner : View} :
    m.inner? depth schema entries = some inner ↔
      m.exceeded? depth = none ∧ (m.viewAt (depth + 1) entries schema).value = inner := by
  rw [inner?]
  cases m.exceeded? depth <;> simp

section Slot

variable (depth : Nat) (config : Properties) {member : Member} {schema : Schema} (isView : member.kind = .view schema)
include isView

theorem memberAt_view_value (enabled : m.nestedViews = true) (one : member.isArray = false) :
    (m.memberAt depth config member).value =
      ((config.nested? member.key).bind (m.inner? depth schema)).map .view := by
  obtain ⟨name, kind, isArray, default?⟩ := member
  obtain rfl : kind = .view schema := isView
  obtain rfl : isArray = false := one
  rw [memberAt_single, enabled, if_neg (by simp), scalarOf_view_value, Option.map_bind]
  refine congrArg _ (funext fun entries => ?_)
  rw [Function.comp_apply, inner?]
  cases m.exceeded? depth <;> rfl

theorem memberAt_views_value (enabled : m.nestedViews = true) (many : member.isArray = true) :
    (m.memberAt depth config member).value =
      (config.elements? true member.key member.default?).map fun sources =>
        .array (sources.map fun source => (m.inner? depth schema (source.entries?.getD [])).elim .null .view) := by
  rw [m.memberAt_array_value many fun _ => enabled, isView]
  refine congrArg (Option.map · _) (funext fun sources => congrArg _ (List.map_congr_left fun source _ => ?_))
  rw [elementOf, nestedView_value, inner?]
  cases m.exceeded? depth <;> rfl

/-- A slot holds the nested views of its member, as far as they may nest at this depth. -/
theorem mem_views_memberAt_iff (enabled : m.nestedViews = true) {inner : View} :
    (∃ value, (m.memberAt depth config member).value = some value ∧ inner ∈ value.views) ↔
      ∃ entries ∈ member.nestedEntries config, m.inner? depth schema entries = some inner := by
  cases hmany : member.isArray with
  | false =>
    simp only [m.memberAt_view_value depth config isView enabled hmany, Member.nestedEntries, hmany]
    cases config.nested? member.key <;> simp [ViewValue.views]
  | true =>
    have hitem : ∀ made : Option View, (made.elim ViewValue.null .view).view? = made := by
      intro made
      cases made <;> rfl
    rw [m.memberAt_views_value depth config isView enabled hmany, Member.nestedEntries, if_pos hmany]
    cases config.elements? true member.key member.default? <;> simp [ViewValue.views, hitem]

end Slot

/-- Only where views are made does a slot hold any. -/
theorem isView_of_mem_views {depth : Nat} {config : Properties} {member : Member} {value : ViewValue}
    (hvalue : (m.memberAt depth config member).value = some value) {inner : View} (held : inner ∈ value.views) :
    (∃ schema, member.kind = .view schema) ∧ m.nestedViews = true := by
  have hview : member.kind.isView = true := by
    by_contra hother
    have fills := hvalue ▸ m.memberAt_fills depth config member
    rw [fills.views_eq_nil (Bool.eq_false_of_not_eq_true hother)] at held
    cases held
  exact ⟨Kind.exists_schema_of_isView hview, m.makes_of_memberAt hvalue hview⟩

theorem membersAt_events (depth : Nat) (config : Properties) (members : List Member) :
    (m.membersAt depth config members).events =
      members.flatMap fun member => (m.memberAt depth config member).events := by
  induction members with
  | nil => rfl
  | cons member members ih => simp [membersAt, ih]

theorem viewAt_events (depth : Nat) (config : Properties) (schema : Schema) :
    (m.viewAt depth config schema).events =
      schema.members.flatMap fun member => (m.memberAt depth config member).events := by
  obtain ⟨name, members⟩ := schema
  rw [← m.membersAt_events]
  exact List.append_nil _

theorem memberAt_view_events (enabled : m.nestedViews = true) (depth : Nat) (config : Properties) {member : Member}
    {schema : Schema} (isView : member.kind = .view schema) :
    (m.memberAt depth config member).events =
      (member.nestedEntries config).flatMap fun entries => (m.nestedView depth entries schema).events := by
  obtain ⟨name, kind, isArray, default?⟩ := member
  obtain rfl : kind = .view schema := isView
  cases isArray with
  | false =>
    simp only [memberAt_single, scalarOf, Member.nestedEntries, Member.key, Kind.isView, enabled]
    cases config.nested? (memberKey name) <;> simp
  | true =>
    simp only [memberAt_many, Member.nestedEntries, Member.key, Kind.isView, enabled]
    cases config.elements? true (memberKey name) default? <;> simp [elementOf, List.flatMap_map]

theorem events_memberAt_subset (depth : Nat) (config : Properties) {schema : Schema} {member : Member}
    (declared : member ∈ schema.members) :
    (m.memberAt depth config member).events ⊆ (m.viewAt depth config schema).events := by
  intro event he
  rw [viewAt_events, List.mem_flatMap]
  exact ⟨member, declared, he⟩

namespace Includes

variable {m} {task sub : ViewTask}

/-- Each view that is made for a view stands in its value, as many levels below as it is deeper. -/
theorem nestsAt (h : m.Includes task sub) :
    ∃ levels, sub.depth = task.depth + levels ∧ (m.make task).value.NestsAt levels (m.make sub).value := by
  induction h with
  | self => exact ⟨0, rfl, .self⟩
  | @nested outer member schema entries _ declared isView enabled allowed held ih =>
    obtain ⟨levels, hdepth, nests⟩ := ih
    have hinner : m.inner? outer.depth schema entries = some (m.make ⟨outer.depth + 1, entries, schema⟩).value :=
      m.inner?_eq_some_iff.mpr ⟨allowed, rfl⟩
    obtain ⟨value, hvalue, hview⟩ := (m.mem_views_memberAt_iff _ _ isView enabled).mpr ⟨entries, held, hinner⟩
    have hslot : (member.name, some value) ∈ (m.make outer).value.members := by
      rw [make, viewAt_value, ← hvalue]
      exact List.mem_map_of_mem declared
    exact ⟨levels + 1, congrArg (· + 1) hdepth, .nested nests hslot hview⟩

theorem contains (h : m.Includes task sub) : (m.make task).value.Contains (m.make sub).value := by
  obtain ⟨levels, _, nests⟩ := h.nestsAt
  exact View.contains_iff.mpr ⟨levels, nests⟩

/-- Every view in the value is one of those made for it, at the depth where it stands. -/
theorem of_nestsAt {levels : Nat} {inner : View} (h : (m.make task).value.NestsAt levels inner) :
    ∃ sub, m.Includes task sub ∧ sub.depth = task.depth + levels ∧ (m.make sub).value = inner := by
  induction h with
  | self => exact ⟨task, .self, rfl, rfl⟩
  | nested _ slot held ih =>
    obtain ⟨outer, included, hdepth, rfl⟩ := ih
    rw [make, viewAt_value] at slot
    obtain ⟨member, declared, hslot⟩ := List.mem_map.mp slot
    have hvalue := (Prod.mk.inj hslot).2
    obtain ⟨⟨schema, isView⟩, enabled⟩ := m.isView_of_mem_views hvalue held
    obtain ⟨entries, hentries, hinner⟩ := (m.mem_views_memberAt_iff _ _ isView enabled).mp ⟨_, hvalue, held⟩
    obtain ⟨allowed, hmade⟩ := m.inner?_eq_some_iff.mp hinner
    refine ⟨⟨outer.depth + 1, entries, schema⟩, .nested included declared isView enabled allowed hentries, ?_, hmade⟩
    exact congrArg (· + 1) hdepth

/-- What stands in a view that is materialized, and how deep, is what was made for it. -/
theorem nestsAt_materialize_iff {schema : Schema} {config : Properties} {levels : Nat} {inner : View} :
    (m.materialize schema config).value.NestsAt levels inner ↔
      ∃ sub, m.Includes ⟨0, config, schema⟩ sub ∧ sub.depth = levels ∧ (m.make sub).value = inner := by
  have hmade : (m.materialize schema config).value = (m.make ⟨0, config, schema⟩).value := rfl
  rw [hmade]
  constructor
  · intro nests
    simpa using of_nestsAt nests
  · rintro ⟨sub, included, rfl, rfl⟩
    obtain ⟨levels, hdepth, nests⟩ := included.nestsAt
    rw [hdepth, Nat.zero_add]
    exact nests

theorem events_subset (h : m.Includes task sub) : (m.make sub).events ⊆ (m.make task).events := by
  induction h with
  | self => exact List.Subset.refl _
  | @nested outer member schema entries _ declared isView enabled allowed held ih =>
    refine fun event he => ih (m.events_memberAt_subset _ _ declared ?_)
    rw [m.memberAt_view_events enabled _ _ isView, List.mem_flatMap]
    refine ⟨entries, held, ?_⟩
    rw [nestedView_allowed allowed]
    simpa [make] using he

end Includes
end Materializer
end ComponentBinding
