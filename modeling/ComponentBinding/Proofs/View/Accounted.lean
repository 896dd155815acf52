import ComponentBinding.Proofs.View.Default
import ComponentBinding.Proofs.View.Nesting
import ComponentBinding.Proofs.View.Quiet

/-! What becomes of the value at the key of a single member: the member takes it, or a debug event tells that
it did not. The one exception is a view whose key holds no map: such a value leaves no trace, neither in
the slot nor in the log. -/
namespace ComponentBinding

/-- A report on a single member: one of its values could not be coerced, or its view was dropped. -/
def Event.On (member : Member) : Event → Prop
  | .coercionFailed name key _ => name = member.name ∧ key = member.key
  | .nestedViewDropped view _ => ∃ schema, member.kind = .view schema ∧ schema.name = view
  | _ => False

theorem Property.first?_eq_none_iff {value : Property} : value.first? = none ↔ value = .array [] := by
  cases value <;> simp [first?]

/-- The values that a single view passes over: those that give it no entries. -/
def Member.PassesOver (member : Member) (value : Property) : Prop :=
  member.kind.isView = true ∧ value.viewEntries? = none

namespace Properties

/-- A value without entries for a view is as good as none. -/
theorem nested?_of_passed_over {key : String} {config : Properties} (ordered : config.Ordered) {value : Property}
    (held : config.lookup key = some value) (h : value.viewEntries? = none) :
    config.nested? key = (config.remove key).nested? key := by
  have apart : Apart (indexed key 0) key := by
    refine ⟨(below_ne_key key _).symm, fun rest h => ?_⟩
    rw [indexed_below] at h
    exact below_ne_key key _ h.symm
  have hremoved : (config.remove key).lookup key = none := by
    rw [lookup_remove, if_pos rfl]
  have hunset : (config.remove key).nested? key = (config.remove key).below? (indexed key 0) := by
    simp only [nested?, hremoved]
  rw [hunset, (agreeAt_remove apart config).below? (ordered_remove ordered key) ordered, nested?_of_lookup held, h,
    Option.none_or]

end Properties

namespace Materializer

open Properties

variable (m : Materializer) (depth : Nat)

/-- What a single member takes from a value, of a sequence from its first item. -/
def taken? (value : Property) : Kind → Option ViewValue
  | .view schema => value.viewEntries?.map fun entries => .view (m.viewAt (depth + 1) entries schema).value
  | kind => value.first?.bind fun source => (kind.coerce m.resolver source).toOption

/-- A value is accounted for: the slot of its member holds what is taken from it, or the log has a debug
event on the member. -/
def Accounts (log : List Event) (member : Member) (value : Property) (slot : Option ViewValue) : Prop :=
  (slot.isSome = true ∧ slot = m.taken? depth value member.kind) ∨
    ∃ event ∈ log, event.level = .debug ∧ event.On member

theorem taken?_of_not_view {kind : Kind} (h : kind.isView = false) (value : Property) :
    m.taken? depth value kind = value.first?.bind fun source => (kind.coerce m.resolver source).toOption := by
  cases kind <;> first | rfl | cases h

/-- The first source decides: it is taken, or the first event tells why not. -/
theorem firstCoerced_accounts (member : Member) (hview : member.kind.isView = false) {value source : Property}
    (hfirst : value.first? = some source) (sources : List Property) :
    let made := m.firstCoerced member.name member.key member.kind (source :: sources)
    m.Accounts depth made.events member value made.value := by
  intro made
  have htaken : m.taken? depth value member.kind = (member.kind.coerce m.resolver source).toOption := by
    rw [m.taken?_of_not_view depth hview, hfirst, Option.bind_some]
  cases hcoerce : member.kind.coerce m.resolver source with
  | ok coerced =>
    have hmade : made = pure (some coerced) := by simp only [made, firstCoerced, hcoerce]
    left
    rw [htaken, hcoerce, hmade]
    exact ⟨rfl, rfl⟩
  | error error =>
    right
    refine ⟨.coercionFailed member.name member.key error, ?_, rfl, rfl, rfl⟩
    simp [made, firstCoerced, hcoerce]

/-- Entries for a view are made into one, or the view is reported as dropped. -/
theorem nested_accounts (member : Member) {schema : Schema} (isView : member.kind = .view schema)
    {value : Property} {entries : Properties} (hentries : value.viewEntries? = some entries) :
    let made := m.nestedView depth entries schema
    m.Accounts depth made.events member value (if made.value.isNull then none else some made.value) := by
  intro made
  cases hexceeded : m.exceeded? depth with
  | none =>
    have hmade : made.value = .view (m.viewAt (depth + 1) entries schema).value := by
      simp only [made, nestedView_eq, hexceeded]
      rfl
    left
    rw [hmade, isView, taken?, hentries]
    exact ⟨rfl, rfl⟩
  | some limit =>
    right
    refine ⟨.nestedViewDropped schema.name (.depthExceeded limit), ?_, rfl, schema, isView, rfl⟩
    simp [made, nestedView_eq, hexceeded]

theorem memberAt_accounts (enabled : m.nestedViews = true) {member : Member} (one : member.isArray = false)
    {config : Properties} {value : Property} (held : config.lookup member.key = some value)
    (nonempty : value ≠ .array []) (h : ¬member.PassesOver value) :
    m.Accounts depth (m.memberAt depth config member).events member value (m.memberAt depth config member).value := by
  obtain ⟨name, kind, isArray, default?⟩ := member
  obtain rfl : isArray = false := one
  have heldName : config.lookup (memberKey name) = some value := held
  rw [memberAt_single, enabled, Bool.not_true, Bool.and_false, if_neg Bool.false_ne_true]
  cases hview : kind.isView with
  | false =>
    obtain ⟨source, hfirst⟩ := Option.ne_none_iff_exists'.mp (mt Property.first?_eq_none_iff.mp nonempty)
    rw [m.scalarOf_of_not_view hview, scalar, heldName, List.filterMap_cons_some (by exact hfirst)]
    exact m.firstCoerced_accounts depth ⟨name, kind, false, default?⟩ hview hfirst _
  | true =>
    obtain ⟨entries, hentries⟩ := Option.ne_none_iff_exists'.mp fun hnone => h ⟨hview, hnone⟩
    obtain ⟨schema, rfl⟩ := Kind.exists_schema_of_isView hview
    rw [scalarOf, nested?_of_lookup heldName, hentries, Option.some_or]
    have accounts := m.nested_accounts depth ⟨name, .view schema, false, default?⟩ rfl hentries
    simpa using accounts

/-- A member that passes over the value at its key is made, and reported on, as if there were none. -/
theorem memberAt_passed_over {member : Member} (one : member.isArray = false) {config : Properties}
    (ordered : config.Ordered) {value : Property} (held : config.lookup member.key = some value)
    (h : member.PassesOver value) :
    m.memberAt depth config member = m.memberAt depth (config.remove member.key) member := by
  obtain ⟨name, kind, isArray, default?⟩ := member
  obtain rfl : isArray = false := one
  obtain ⟨hview, hentries⟩ := h
  have hnested : config.nested? (memberKey name) = (config.remove (memberKey name)).nested? (memberKey name) :=
    nested?_of_passed_over ordered held hentries
  obtain ⟨schema, rfl⟩ := Kind.exists_schema_of_isView hview
  simp only [memberAt_single, scalarOf, Member.key, hnested]

/-- Making views never warns. With nested views on, in the view of a schema and in every view that nests in it,
the value at the key of a single member is taken, or reported on where the member is made, unless it is an empty
sequence or the member passes over it. A value passed over changes neither the slot nor the log. -/
theorem configured_value_accounted (m : Materializer) (schema : Schema) (config : Properties) :
    let run := m.materialize schema config
    (m.nestedViews = true → ∀ task, m.Includes ⟨0, config, schema⟩ task →
      ∀ (place : Nat) (member : Member) (value : Property), task.schema.members[place]? = some member →
        member.isArray = false → task.config.lookup member.key = some value → value ≠ .array [] →
        let made := m.memberAt task.depth task.config member
        run.value.Contains (m.make task).value ∧
        (m.make task).value.members[place]? = some (member.name, made.value) ∧ made.events ⊆ run.events ∧
        (¬member.PassesOver value → m.Accounts task.depth made.events member value made.value) ∧
        (member.PassesOver value → task.config.Ordered →
          made = m.memberAt task.depth (task.config.remove member.key) member)) ∧
    ∀ event ∈ run.events, event.level ≠ .warn ∧ event.level ≠ .error := by
  intro run
  refine ⟨?_, ?_⟩
  · intro enabled task included place member value declared one held nonempty made
    have hevents : made.events ⊆ (m.make task).events :=
      m.events_memberAt_subset task.depth task.config (List.mem_of_getElem? declared)
    have hrun : (m.make task).events ⊆ run.events :=
      fun event he => List.mem_append_right _ (included.events_subset he)
    exact ⟨included.contains, m.viewAt_slot task.depth task.config declared, List.Subset.trans hevents hrun,
      m.memberAt_accounts task.depth enabled one held nonempty,
      fun h ordered => m.memberAt_passed_over task.depth one ordered held h⟩
  · intro event he
    rcases (m.materialize_ofViews schema config event he).quiet with htrace | hdebug
    · rw [htrace]
      decide
    · rw [hdebug]
      decide

/-- A text that is no number, in a map at the key of a view: it is accounted for inside the nested view. -/
theorem configured_value_accounted_nested :
    let m : Materializer := { resolver := .known [] }
    let inner : Schema := ⟨"Inner", [⟨"x", .int, false, none⟩]⟩
    let schema : Schema := ⟨"Outer", [⟨"v", .view inner, false, none⟩]⟩
    let entries : Properties := [("x", .string "seven")]
    let config : Properties := [("v", .map entries)]
    let member : Member := ⟨"x", .int, false, none⟩
    m.nestedViews = true ∧ m.Includes ⟨0, config, schema⟩ ⟨1, entries, inner⟩ ∧
    inner.members[0]? = some member ∧ member.isArray = false ∧
    entries.lookup member.key = some (.string "seven") ∧ .string "seven" ≠ Property.array [] ∧
    ¬member.PassesOver (.string "seven") ∧
    (m.materialize schema config).value.Contains (m.make ⟨1, entries, inner⟩).value ∧
    (m.memberAt 1 entries member).events ⊆ (m.materialize schema config).events ∧
    m.Accounts 1 (m.memberAt 1 entries member).events member (.string "seven") (m.memberAt 1 entries member).value := by
  intro m inner schema entries config member
  have held : entries.lookup member.key = some (.string "seven") := by
    have hkey : member.key = "x" := by decide
    rw [hkey]
    rfl
  have nests : entries ∈ Member.nestedEntries ⟨"v", .view inner, false, none⟩ config := by
    have hkey : Member.key ⟨"v", .view inner, false, none⟩ = "v" := by decide
    rw [Member.nestedEntries, hkey]
    exact List.mem_cons_self
  have included : m.Includes ⟨0, config, schema⟩ ⟨1, entries, inner⟩ :=
    .nested .self List.mem_cons_self rfl rfl rfl nests
  have nonempty : .string "seven" ≠ Property.array [] := Property.noConfusion
  have taken : ¬member.PassesOver (.string "seven") := fun h => Bool.noConfusion h.1
  obtain ⟨hcontains, _, hlog, haccounts, _⟩ :=
    (m.configured_value_accounted schema config).1 rfl _ included 0 member _ rfl rfl held nonempty
  exact ⟨rfl, included, rfl, rfl, held, nonempty, taken, hcontains, hlog, haccounts taken⟩

/-- A number at the key of a view is lost: the member is absent, and nothing in the log is about it. -/
theorem number_for_view_unaccounted :
    let m : Materializer := { resolver := .known [] }
    let member : Member := ⟨"v", .view ⟨"Inner", [⟨"x", .int, false, none⟩]⟩, false, none⟩
    let schema : Schema := ⟨"Outer", [member]⟩
    let config : Properties := [("v", .long 5)]
    let run := m.materialize schema config
    m.nestedViews = true ∧ schema.members[0]? = some member ∧ member.isArray = false ∧
    config.lookup member.key = some (.long 5) ∧
    ∃ slot, run.value.members[0]? = some (member.name, slot) ∧ ¬m.Accounts 0 run.events member (.long 5) slot := by
  intro m member schema config run
  have hkey : member.key = "v" := by decide
  have hconfig : config = [(member.key, .long 5)] := by rw [hkey]
  have hslot : (m.memberAt 0 config member).value = none := by
    rw [hconfig]
    exact m.memberAt_view_configured 0 "v" _ none (.long 5)
  have hevents : run.events = [.materializing "Outer" 1] := by
    have hmember : (m.memberAt 0 config member).events = [] := by
      rw [m.memberAt_view_events rfl 0 config rfl, Member.nestedEntries, hconfig, nested?_singleton]
      rfl
    have hview : (m.viewAt 0 config schema).events = (m.memberAt 0 config member).events := by
      rw [viewAt_events]
      exact List.append_nil _
    exact congrArg (.materializing "Outer" 1 :: ·) (hview.trans hmember)
  refine ⟨rfl, rfl, rfl, ?_, none, ?_, ?_⟩
  · rw [hkey]
    rfl
  · rw [m.materialize_slot config rfl, hslot]
  · rintro (⟨hsome, _⟩ | ⟨event, he, hlevel, _⟩)
    · cases hsome
    · rw [hevents] at he
      obtain rfl := List.mem_singleton.mp he
      cases hlevel

end Materializer
end ComponentBinding
