import ComponentBinding.Proofs.View.Indexed
import ComponentBinding.Proofs.View.Slots

/-! A member reads its own entries: the one at its key and those below it. Whatever else a configuration
holds, keys with the same beginning included, leaves its slot as it is. -/
namespace ComponentBinding
namespace Properties

/-- The same entry, or none, at a key and at every key below it. -/
structure AgreeAt (key : String) (config config' : Properties) : Prop where
  here : config.lookup key = config'.lookup key
  below : ∀ rest, config.lookup (key ++ "." ++ rest) = config'.lookup (key ++ "." ++ rest)

/-- A key that is neither the given one nor below it. -/
def Apart (key other : String) : Prop := other ≠ key ∧ ∀ rest, other ≠ key ++ "." ++ rest

variable {key : String} {config config' : Properties}

theorem agreeAt_insert {other : String} (h : Apart key other) (value : Property) (config : Properties) :
    AgreeAt key (config.insert other value) config := by
  refine ⟨?_, fun rest => ?_⟩
  · rw [lookup_insert, if_neg h.1.symm]
  · rw [lookup_insert, if_neg (h.2 rest).symm]

theorem agreeAt_remove {other : String} (h : Apart key other) (config : Properties) :
    AgreeAt key (config.remove other) config := by
  refine ⟨?_, fun rest => ?_⟩
  · rw [lookup_remove, if_neg h.1.symm]
  · rw [lookup_remove, if_neg (h.2 rest).symm]

namespace AgreeAt

theorem index (agree : AgreeAt key config config') (index : Nat) : AgreeAt (indexed key index) config config' := by
  refine ⟨agree.below _, fun rest => ?_⟩
  rw [indexed_below]
  exact agree.below _

theorem below? (agree : AgreeAt key config config') (h : config.Ordered) (h' : config'.Ordered) :
    config.below? key = config'.below? key := by
  have hunder : config.under (key ++ ".") = config'.under (key ++ ".") := by
    apply (ordered_under h _).ext (ordered_under h' _)
    intro rest
    rw [lookup_under h, lookup_under h']
    exact agree.below rest
  simp only [Properties.below?, hunder]

/-- The source of an element lies at and below its own index. -/
theorem elementAt? {index : Nat} (agree : AgreeAt (indexed key index) config config') (h : config.Ordered)
    (h' : config'.Ordered) (isView : Bool) :
    config.elementAt? isView key index = config'.elementAt? isView key index := by
  simp only [Properties.elementAt?, agree.here, agree.below? h h']

variable (agree : AgreeAt key config config') (h : config.Ordered) (h' : config'.Ordered)
include agree h h'

theorem nested? : config.nested? key = config'.nested? key := by
  simp only [Properties.nested?, agree.here, (agree.index 0).below? h h']

/-- The probe ends at the same index, although it is bounded by the number of all entries. -/
theorem indexedElements (isView : Bool) : config.indexedElements isView key = config'.indexedElements isView key := by
  rw [indexedElements_eq_iff h, funext fun index => (agree.index index).elementAt? h h' isView]
  exact indexedElements_readsTo h' isView key

theorem elements? (isView : Bool) (default? : Option Property) :
    config.elements? isView key default? = config'.elements? isView key default? := by
  simp only [Properties.elements?, agree.here, agree.indexedElements h h']

end AgreeAt
end Properties

namespace Materializer

open Properties

variable (m : Materializer) (depth : Nat)

/-- A single member that is no view reads nothing but the entry at its key. -/
theorem memberAt_congr_of_scalar {member : Member} (one : member.isArray = false) (hview : member.kind.isView = false)
    {config config' : Properties} (here : config.lookup member.key = config'.lookup member.key) :
    m.memberAt depth config member = m.memberAt depth config' member := by
  obtain ⟨name, kind, isArray, default?⟩ := member
  obtain rfl : isArray = false := one
  have hlookup : config.lookup (memberKey name) = config'.lookup (memberKey name) := here
  simp only [memberAt_single, m.scalarOf_of_not_view hview, scalar, hlookup]

theorem memberAt_congr {member : Member} {config config' : Properties}
    (agree : AgreeAt member.key config config') (h : config.Ordered) (h' : config'.Ordered) :
    m.memberAt depth config member = m.memberAt depth config' member := by
  -- an array and a view read below the key too, each in its own way
  by_cases hscalar : member.isArray = false ∧ member.kind.isView = false
  · exact m.memberAt_congr_of_scalar depth hscalar.1 hscalar.2 agree.here
  · obtain ⟨name, kind, isArray, default?⟩ := member
    have hnested : config.nested? (memberKey name) = config'.nested? (memberKey name) := agree.nested? h h'
    have helements (isView : Bool) :
        config.elements? isView (memberKey name) default? = config'.elements? isView (memberKey name) default? :=
      agree.elements? h h' isView default?
    cases isArray with
    | true => simp only [memberAt_many, helements]
    | false =>
      cases kind with
      | view schema => simp only [memberAt_single, scalarOf, hnested]
      | _ => exact absurd ⟨rfl, rfl⟩ hscalar

/-- In the view of a schema at any depth, the top one as well as one nested in it, the slot of a member is
decided by the entries at and below its key, and that of a single member which is no view by the entry at
its key; an entry anywhere else may come, change or go. -/
theorem viewAt_slot_local {schema : Schema} {place : Nat} {member : Member}
    (declared : schema.members[place]? = some member) {config config' : Properties} (h : config.Ordered)
    (h' : config'.Ordered) :
    (AgreeAt member.key config config' →
      (m.viewAt depth config schema).value.members[place]? = (m.viewAt depth config' schema).value.members[place]?) ∧
    (member.isArray = false → member.kind.isView = false →
      config.lookup member.key = config'.lookup member.key →
      (m.viewAt depth config schema).value.members[place]? = (m.viewAt depth config' schema).value.members[place]?) ∧
    ∀ other, Apart member.key other →
      (∀ value, (m.viewAt depth (config.insert other value) schema).value.members[place]? =
        (m.viewAt depth config schema).value.members[place]?) ∧
      (m.viewAt depth (config.remove other) schema).value.members[place]? =
        (m.viewAt depth config schema).value.members[place]? := by
  simp only [m.viewAt_slot depth _ declared]
  refine ⟨fun agree => ?_, fun one hview here => ?_, fun other apart => ⟨fun value => ?_, ?_⟩⟩
  · rw [m.memberAt_congr depth agree h h']
  · rw [m.memberAt_congr_of_scalar depth one hview here]
  · rw [m.memberAt_congr depth (agreeAt_insert apart value config) (ordered_insert h other value) h]
  · rw [m.memberAt_congr depth (agreeAt_remove apart config) (ordered_remove h other) h]

/-- An array that reads `a.1.0.x` and `a.1.1.x` is the same with an entry at `a.10.x`. -/
theorem viewAt_slot_local_tenth_index :
    let m : Materializer := { resolver := .known [] }
    let member : Member := ⟨"a_1", .view ⟨"Inner", [⟨"x", .int, false, none⟩]⟩, true, none⟩
    let schema : Schema := ⟨"Outer", [member]⟩
    let config : Properties := [("a.1.0.x", .long 1), ("a.1.1.x", .long 2)]
    let more : Properties := config.insert "a.10.x" (.long 3)
    schema.members[0]? = some member ∧ more.Ordered ∧ config.Ordered ∧ AgreeAt member.key more config ∧
    (m.viewAt 0 more schema).value.members[0]? = (m.viewAt 0 config schema).value.members[0]? := by
  intro m member schema config more
  have declared : schema.members[0]? = some member := rfl
  have ordered : config.Ordered := by
    refine .cons (fun entry hm => ?_) (List.pairwise_singleton _ _)
    obtain rfl := List.mem_singleton.mp hm
    decide
  have orderedMore : more.Ordered := ordered_insert ordered _ _
  have apart : Apart member.key "a.10.x" := by
    have hkey : member.key = "a.1" := by decide
    rw [hkey]
    refine ⟨by decide, fun rest h => ?_⟩
    have hchars := congrArg String.toList h
    simp [String.toList_append] at hchars
  have agree : AgreeAt member.key more config := agreeAt_insert apart _ config
  exact ⟨declared, orderedMore, ordered, agree, (m.viewAt_slot_local 0 declared orderedMore ordered).1 agree⟩

end Materializer
end ComponentBinding
