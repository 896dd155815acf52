import ComponentBinding.Proofs.View.Indexed
import ComponentBinding.Proofs.View.Slots

/-! A declared default against a configured value. Every array, and every single member other than a view,
takes its default as it would take that value from the configuration. A single view does not: it never
looks at its default. -/
namespace ComponentBinding

/-- The entries that a value gives to a single view: those of a map, or of a map that begins a sequence. -/
def Property.viewEntries? : Property → Option Properties
  | .map entries => some entries
  | .array (.map entries :: _) => some entries
  | _ => none

theorem Kind.exists_schema_of_isView {kind : Kind} (h : kind.isView = true) : ∃ schema, kind = .view schema := by
  cases kind with
  | view schema => exact ⟨schema, rfl⟩
  | _ => cases h

namespace Properties

theorem ordered_singleton (entry : String × Property) : Ordered [entry] := List.pairwise_singleton _ _

/-- An entry does not stand below its own key. -/
theorem below?_singleton (key : String) (index : Nat) (value : Property) :
    below? (indexed key index) [(key, value)] = none := by
  rw [below?_eq_none_iff, List.eq_nil_iff_forall_not_mem]
  rintro ⟨rest, held⟩ hm
  have hentry := (mem_under_iff (ordered_singleton _)).mp hm
  rw [indexed_below] at hentry
  exact below_ne_key key _ (Prod.mk.inj (List.mem_singleton.mp hentry)).1

/-- The entry at the key of a single view comes before the entries below it, if it gives any. -/
theorem nested?_of_lookup {key : String} {config : Properties} {value : Property}
    (held : config.lookup key = some value) :
    config.nested? key = value.viewEntries?.or (config.below? (indexed key 0)) := by
  unfold nested? Property.viewEntries?
  rw [held]
  split <;> split <;> simp_all

theorem nested?_singleton (key : String) (value : Property) : nested? key [(key, value)] = value.viewEntries? := by
  rw [nested?_of_lookup List.lookup_cons_self, below?_singleton, Option.or_none]

theorem elements?_singleton (isView : Bool) (key : String) (default? : Option Property) (value : Property) :
    elements? isView key default? [(key, value)] = some value.sequence := by
  simp [elements?]

end Properties

namespace Materializer

open Properties

variable (m : Materializer)

/-- Tried as an entry and once more as the default, a value that cannot be coerced is still none. -/
theorem scalar_default (member key : String) (kind : Kind) (value : Property) :
    (m.scalar member key kind (some value) []).value =
      (m.scalar member key kind (some value) [(key, value)]).value := by
  have hlookup : List.lookup key [(key, value)] = some value := by simp
  rw [scalar, scalar, firstCoerced_value, firstCoerced_value, hlookup]
  cases hfirst : value.first? with
  | none => simp [hfirst]
  | some source => cases hcoerce : (kind.coerce m.resolver source).toOption <;> simp [hfirst, hcoerce]

theorem memberAt_default (depth : Nat) {member : Member} {value : Property} (hd : member.default? = some value)
    (h : member.isArray = true ∨ member.kind.isView = false) :
    (m.memberAt depth [] member).value = (m.memberAt depth [(member.key, value)] member).value := by
  obtain ⟨name, kind, isArray, default?⟩ := member
  obtain rfl : default? = some value := hd
  cases isArray with
  | true =>
    have hempty : elements? kind.isView (memberKey name) (some value) [] = some value.sequence := rfl
    simp only [memberAt_many, Member.key, hempty, elements?_singleton]
  | false =>
    have hview : kind.isView = false := h.resolve_left Bool.false_ne_true
    simp only [memberAt_single, Member.key, hview, Bool.false_and, Bool.false_eq_true, if_false,
      m.scalarOf_of_not_view hview]
    exact m.scalar_default name (memberKey name) kind value

/-- A single view without an entry is absent, whatever its default. -/
theorem memberAt_view_unset (depth : Nat) (name : String) (schema : Schema) (default? : Option Property) :
    (m.memberAt depth [] ⟨name, .view schema, false, default?⟩).value = none := by
  have hnested : nested? (memberKey name) [] = none := rfl
  rw [memberAt_single]
  split
  · rfl
  · rw [scalarOf_view_value, hnested, Option.bind_none]

theorem memberAt_view_configured (depth : Nat) (name : String) (schema : Schema) (default? : Option Property)
    (value : Property) :
    (m.memberAt depth [(memberKey name, value)] ⟨name, .view schema, false, default?⟩).value =
      if m.nestedViews = true ∧ m.exceeded? depth = none then
        value.viewEntries?.map fun entries => .view (m.viewAt (depth + 1) entries schema).value
      else none := by
  rw [memberAt_single]
  cases hviews : m.nestedViews with
  | false => rfl
  | true =>
    rw [if_neg (by simp), scalarOf_view_value, nested?_singleton]
    cases m.exceeded? depth <;> cases value.viewEntries? <;> simp

/-- The defaults that are passed over: those of a single view that hold entries for it, where a view could
be made from them. -/
def overlooks (member : Member) (value : Property) : Prop :=
  (member.isArray = false ∧ member.kind.isView = true) ∧
    (m.nestedViews = true ∧ m.exceeded? 0 = none) ∧ value.viewEntries?.isSome = true

/-- A member without an entry has the value that its default would give it as an entry, except for the
defaults that are passed over: then it is absent, where the entry would give it a view. -/
theorem default_as_configured_iff {schema : Schema} {place : Nat} {member : Member}
    (declared : schema.members[place]? = some member) {value : Property} (hd : member.default? = some value) :
    ((m.materialize schema []).value.members[place]? =
        (m.materialize schema [(member.key, value)]).value.members[place]? ↔ ¬ m.overlooks member value) ∧
      (m.overlooks member value →
        (m.materialize schema []).value.members[place]? = some (member.name, none) ∧
        ∃ view, (m.materialize schema [(member.key, value)]).value.members[place]? =
          some (member.name, some (.view view))) := by
  rw [m.materialize_slot _ declared, m.materialize_slot _ declared]
  by_cases hkind : member.isArray = true ∨ member.kind.isView = false
  · have hnot : ¬ m.overlooks member value := by
      rintro ⟨⟨hone, hview⟩, _⟩
      rcases hkind with hmany | hother
      · rw [hone] at hmany
        cases hmany
      · rw [hview] at hother
        cases hother
    rw [m.memberAt_default 0 hd hkind]
    exact ⟨iff_of_true rfl hnot, fun h => absurd h hnot⟩
  · obtain ⟨name, kind, isArray, default?⟩ := member
    cases isArray with
    | true => exact absurd (.inl rfl) hkind
    | false =>
      cases kind with
      | view nested =>
        rw [memberAt_view_unset, Member.key, memberAt_view_configured]
        by_cases hmade : m.nestedViews = true ∧ m.exceeded? 0 = none
        · cases hentries : value.viewEntries? <;> simp [overlooks, Kind.isView, hmade, hentries]
        · simp [overlooks, hmade]
      | _ => exact absurd (.inr rfl) hkind

/-- An array takes a default of a number and a text as it takes them from its key. -/
theorem default_as_configured_ports :
    let m : Materializer := { resolver := .known [] }
    let value : Property := .array [.long 80, .string "443"]
    let member : Member := ⟨"port", .int, true, some value⟩
    let schema : Schema := ⟨"Server", [member]⟩
    schema.members[0]? = some member ∧ member.default? = some value ∧ ¬ m.overlooks member value ∧
    (m.materialize schema []).value.members[0]? = (m.materialize schema [(member.key, value)]).value.members[0]? := by
  intro m value member schema
  have declared : schema.members[0]? = some member := rfl
  have hd : member.default? = some value := rfl
  have hnot : ¬ m.overlooks member value := fun h => Bool.noConfusion h.1.1
  exact ⟨declared, hd, hnot, (m.default_as_configured_iff declared hd).1.mpr hnot⟩

/-- A default of one entry is passed over: without configuration the view is absent, and the same map at
the key makes a view. -/
theorem view_default_overlooked :
    let m : Materializer := { resolver := .known [] }
    let value : Property := .map [("x", .long 5)]
    let member : Member := ⟨"v", .view ⟨"Inner", [⟨"x", .int, false, none⟩]⟩, false, some value⟩
    let schema : Schema := ⟨"Outer", [member]⟩
    (m.materialize schema []).value.members[0]? = some ("v", none) ∧
    (m.materialize schema [(member.key, value)]).value.members[0]? =
      some ("v", some (.view ⟨"Inner", [("x", some (.int 5))]⟩)) := by
  intro m value member schema
  have declared : schema.members[0]? = some member := rfl
  rw [m.materialize_slot _ declared, m.materialize_slot _ declared]
  refine ⟨?_, ?_⟩
  · rw [m.memberAt_view_unset]
  · rw [Member.key, m.memberAt_view_configured]
    rfl

end Materializer
end ComponentBinding
