import ComponentBinding.Proofs.View.Local
import Mathlib.Order.Bounds.Defs

/-! The length of an array without an entry of its own. It is the least index that is not present, and each element
is made from the entries of its own index, whatever stands at the indices beyond a gap. -/
namespace ComponentBinding

theorem Property.sequence_eq_nil_iff {value : Property} : value.sequence = [] ↔ value = .array [] := by
  cases value <;> simp [sequence]

namespace Properties

/-- An index of a key is present: it has an entry, or for a view a map or some entry below it. -/
def HasIndex (isView : Bool) (key : String) (config : Properties) (index : Nat) : Prop :=
  if isView then
    (∃ entries, config.lookup (indexed key index) = some (.map entries)) ∨
      ∃ entry ∈ config, ∃ rest, entry.1 = indexed key index ++ "." ++ rest
  else (config.lookup (indexed key index)).isSome = true

variable {isView : Bool} {key : String} {config : Properties}

theorem below?_isSome_iff (h : config.Ordered) {place : String} :
    (config.below? place).isSome = true ↔ ∃ entry ∈ config, ∃ rest, entry.1 = place ++ "." ++ rest := by
  rw [← not_iff_not, Option.not_isSome_iff_eq_none, below?_eq_none_iff, List.eq_nil_iff_forall_not_mem]
  constructor
  · rintro hnone ⟨⟨_, value⟩, hentry, rest, rfl⟩
    exact hnone (rest, value) ((mem_under_iff h).mpr hentry)
  · rintro hnone ⟨rest, value⟩ hentry
    exact hnone ⟨_, (mem_under_iff h).mp hentry, rest, rfl⟩

theorem hasIndex_iff (h : config.Ordered) {index : Nat} :
    HasIndex isView key config index ↔ (config.elementAt? isView key index).isSome = true := by
  cases isView with
  | false => rfl
  | true =>
    rw [HasIndex, if_pos rfl, ← below?_isSome_iff h]
    simp only [elementAt?, if_true]
    split
    next entries hmap => simp [hmap]
    next hother =>
      rw [Option.isSome_map]
      refine or_iff_right ?_
      rintro ⟨entries, hmap⟩
      exact hother entries hmap

/-- The element at an index that the probe reaches is the one that stands there. -/
theorem getElem?_indexedElements (h : config.Ordered) {index : Nat}
    (hindex : index < (config.indexedElements isView key).length) :
    (config.indexedElements isView key)[index]? = config.elementAt? isView key index := by
  rw [(indexedElements_readsTo h isView key).found index _ (List.getElem?_eq_getElem hindex)]
  exact List.getElem?_eq_getElem hindex

theorem hasIndex_of_lt (h : config.Ordered) {index : Nat}
    (hindex : index < (config.indexedElements isView key).length) : HasIndex isView key config index := by
  rw [hasIndex_iff h, ← getElem?_indexedElements h hindex, List.getElem?_eq_getElem hindex]
  rfl

/-- The probe ends at the least index that is not present. -/
theorem isLeast_length (h : config.Ordered) (isView : Bool) (key : String) :
    IsLeast {index | ¬HasIndex isView key config index} (config.indexedElements isView key).length := by
  constructor
  · intro hpresent
    rw [hasIndex_iff h, (indexedElements_readsTo h isView key).missing] at hpresent
    cases hpresent
  · intro index habsent
    exact Nat.le_of_not_lt fun hlt => habsent (hasIndex_of_lt h hlt)

theorem length_indexedElements_le (h : config.Ordered) (isView : Bool) (key : String) :
    (config.indexedElements isView key).length ≤ config.length := by
  have hpresent : ∀ index < (config.indexedElements isView key).length,
      (config.elementAt? isView key index).isSome = true :=
    fun index hindex => (hasIndex_iff h).mp (hasIndex_of_lt h hindex)
  exact le_length_of_present h hpresent

theorem lt_length_indexedElements (h : config.Ordered) {index : Nat}
    (hp : ∀ earlier ≤ index, HasIndex isView key config earlier) :
    index < (config.indexedElements isView key).length := by
  by_contra hle
  exact (isLeast_length h isView key).1 (hp _ (Nat.le_of_not_lt hle))

/-- A configuration that agrees at an index and has those before it has the same element there. -/
theorem AgreeAt.indexed_element {config' : Properties} {index : Nat}
    (agree : AgreeAt (indexed key index) config config') (h : config.Ordered) (h' : config'.Ordered)
    (hindex : index < (config.indexedElements isView key).length)
    (hearlier : ∀ earlier < index, HasIndex isView key config' earlier) :
    (∀ earlier ≤ index, HasIndex isView key config' earlier) ∧
      (config'.indexedElements isView key)[index]? = (config.indexedElements isView key)[index]? := by
  have hsource := agree.elementAt? h h' isView
  have hpresent : ∀ earlier ≤ index, HasIndex isView key config' earlier := by
    intro earlier he
    rcases Nat.lt_or_eq_of_le he with hlt | rfl
    · exact hearlier earlier hlt
    · rw [hasIndex_iff h', ← hsource, ← hasIndex_iff h]
      exact hasIndex_of_lt h hindex
  refine ⟨hpresent, ?_⟩
  rw [getElem?_indexedElements h' (lt_length_indexedElements h' hpresent), getElem?_indexedElements h hindex, hsource]

end Properties

namespace Materializer

open Properties

variable (m : Materializer) {depth : Nat}

section Array

variable {member : Member} (many : member.isArray = true) (made : m.Makes member.kind)
include many made

theorem memberAt_array_value (config : Properties) :
    (m.memberAt depth config member).value =
      (config.elements? member.kind.isView member.key member.default?).map fun sources =>
        .array (sources.map fun source => (m.elementOf depth member.name source member.kind).value) := by
  obtain ⟨name, kind, isArray, default?⟩ := member
  obtain rfl : isArray = true := many
  rw [memberAt_many, m.makes_iff.mp made]
  simp only [Member.key]
  cases config.elements? kind.isView (memberKey name) default? with
  | none => rfl
  | some sources => simp [Function.comp_def]

variable {config : Properties} (h : config.Ordered) (unset : config.lookup member.key = none)
include h unset

/-- Without its first index an array takes the elements of its default. -/
theorem memberAt_array_default (hfirst : ¬HasIndex member.kind.isView member.key config 0) :
    (m.memberAt depth config member).value = member.default?.map fun value =>
      .array (value.sequence.map fun source => (m.elementOf depth member.name source member.kind).value) := by
  have hnone : config.indexedElements member.kind.isView member.key = [] :=
    List.length_eq_zero_iff.mp (Nat.le_zero.mp ((isLeast_length h _ _).2 hfirst))
  rw [m.memberAt_array_value many made, Properties.elements?, unset, hnone, Option.map_map]
  rfl

/-- With its first index an array has an element for each index that the probe finds. -/
theorem memberAt_array_indexed (hfirst : HasIndex member.kind.isView member.key config 0) :
    (m.memberAt depth config member).value =
      some (.array ((config.indexedElements member.kind.isView member.key).map fun source =>
        (m.elementOf depth member.name source member.kind).value)) := by
  have hpos : 0 < (config.indexedElements member.kind.isView member.key).length :=
    lt_length_indexedElements h fun _ he => Nat.le_zero.mp he ▸ hfirst
  rw [m.memberAt_array_value many made, Properties.elements?, unset]
  cases hsources : config.indexedElements member.kind.isView member.key with
  | nil => simp [hsources] at hpos
  | cons => rfl

end Array

/-- The slot of an array is empty only where an empty sequence says so. -/
theorem memberAt_array_empty {member : Member} (many : member.isArray = true) {config : Properties}
    (h : config.Ordered) (hempty : (m.memberAt depth config member).value = some (.array [])) :
    config.lookup member.key = some (.array []) ∨ config.lookup member.key = none ∧
      ¬HasIndex member.kind.isView member.key config 0 ∧ member.default? = some (.array []) := by
  have made : m.Makes member.kind := m.makes_of_memberAt hempty
  cases hlookup : config.lookup member.key with
  | some value =>
    rw [m.memberAt_array_value many made, Properties.elements?, hlookup] at hempty
    refine .inl (congrArg some (Property.sequence_eq_nil_iff.mp ?_))
    simpa using hempty
  | none =>
    by_cases hfirst : HasIndex member.kind.isView member.key config 0
    · have hpos := lt_length_indexedElements h fun _ he => Nat.le_zero.mp he ▸ hfirst
      rw [m.memberAt_array_indexed many made h hlookup hfirst] at hempty
      simp only [Option.some.injEq, ViewValue.array.injEq, List.map_eq_nil_iff] at hempty
      simp [hempty] at hpos
    · rw [m.memberAt_array_default many made h hlookup hfirst] at hempty
      obtain ⟨value, hvalue, hitems⟩ := Option.map_eq_some_iff.mp hempty
      have hnil : value.sequence = [] := by simpa using hitems
      obtain rfl := Property.sequence_eq_nil_iff.mp hnil
      exact .inr ⟨rfl, hfirst, hvalue⟩

variable (depth)

/-- An array without an entry at its key is as long as its indices run from zero without a gap, of which there are no
more than entries; an element is decided by the entries at its own index once the indices before it are there. Without
the first index the default counts. An array is empty only by an empty sequence, and where views are left out an
array of views is absent. -/
theorem array_as_long_as_indices {member : Member} (many : member.isArray = true) {config : Properties}
    (h : config.Ordered) :
    let present := HasIndex member.kind.isView member.key
    let slot := fun config : Properties => (m.memberAt depth config member).value
    (¬m.Makes member.kind → slot config = none) ∧
    (m.Makes member.kind → config.lookup member.key = none →
      ∃ n, IsLeast {index | ¬present config index} n ∧ n ≤ config.length ∧
        (¬present config 0 → slot config = member.default?.map fun value =>
          .array (value.sequence.map fun source => (m.elementOf depth member.name source member.kind).value)) ∧
        (present config 0 → ∃ items, slot config = some (.array items) ∧ items.length = n ∧
          ∀ index < n, ∀ config' : Properties, config'.Ordered → config'.lookup member.key = none →
            (∀ earlier < index, present config' earlier) → AgreeAt (indexed member.key index) config config' →
            ∃ items', slot config' = some (.array items') ∧ items'[index]? = items[index]?)) ∧
    (slot config = some (.array []) → config.lookup member.key = some (.array []) ∨
      config.lookup member.key = none ∧ ¬present config 0 ∧ member.default? = some (.array [])) := by
  intro present slot
  refine ⟨fun hoff => congrArg Logged.value (m.memberAt_of_not_makes depth config hoff), fun made unset => ?_,
    m.memberAt_array_empty many h⟩
  refine ⟨_, isLeast_length h _ _, length_indexedElements_le h _ _, m.memberAt_array_default many made h unset,
    fun hfirst => ⟨_, m.memberAt_array_indexed many made h unset hfirst, List.length_map _, ?_⟩⟩
  intro index hindex config' h' unset' hearlier agree
  obtain ⟨hpresent, helement⟩ := agree.indexed_element h h' hindex hearlier
  refine ⟨_, m.memberAt_array_indexed many made h' unset' (hpresent 0 (Nat.zero_le _)), ?_⟩
  rw [List.getElem?_map, List.getElem?_map, helement]

/-- An array of views with an entry below its first index and one beyond a gap: it has one element, the same as
without the entry beyond the gap. -/
theorem array_as_long_as_indices_gap :
    let m : Materializer := { resolver := .known [] }
    let member : Member := ⟨"v", .view ⟨"Inner", [⟨"x", .int, false, none⟩]⟩, true, none⟩
    let config : Properties := [("v.0.x", .long 1)]
    let more : Properties := config.insert "v.2.x" (.long 3)
    member.isArray = true ∧ more.Ordered ∧ more.lookup member.key = none ∧
    ∃ items, (m.memberAt 0 more member).value = some (.array items) ∧ items.length = 1 ∧
      ∃ items', (m.memberAt 0 config member).value = some (.array items') ∧ items'[0]? = items[0]? := by
  intro m member config more
  have hkey : member.key = "v" := by decide
  have hzero : indexed "v" 0 = "v.0" := by decide
  have hone : indexed "v" 1 = "v.1" := by decide
  have ordered : config.Ordered := List.pairwise_singleton _ _
  have orderedMore : more.Ordered := ordered_insert ordered _ _
  have unset : config.lookup member.key = none := by
    rw [hkey]
    rfl
  have unsetMore : more.lookup member.key = none := by
    rw [lookup_insert, hkey]
    rfl
  have hfirst : HasIndex true member.key more 0 := by
    rw [hkey]
    exact .inr ⟨("v.0.x", .long 1), List.mem_cons_self, "x", by decide⟩
  have hgap : ¬HasIndex true member.key more 1 := by
    rw [hkey, HasIndex, if_pos rfl, hone]
    rintro (⟨entries, hmap⟩ | ⟨entry, hentry, rest, hrest⟩)
    · cases hmap
    · have hchars := congrArg String.toList hrest
      rcases List.mem_cons.mp hentry with rfl | hentry
      · simp [String.toList_append] at hchars
      · obtain rfl := List.mem_singleton.mp hentry
        simp [String.toList_append] at hchars
  have apart : Apart (indexed member.key 0) "v.2.x" := by
    rw [hkey, hzero]
    refine ⟨by decide, fun rest h => ?_⟩
    have hchars := congrArg String.toList h
    simp [String.toList_append] at hchars
  obtain ⟨n, least, _, _, helements⟩ := (m.array_as_long_as_indices 0 rfl orderedMore).2.1 (fun _ => rfl) unsetMore
  obtain ⟨items, hslot, rfl, hsame⟩ := helements hfirst
  have hlength : items.length = 1 := by
    have hle : items.length ≤ 1 := least.2 hgap
    have hne : items.length ≠ 0 := fun h => least.1 (h.symm ▸ hfirst)
    omega
  refine ⟨rfl, orderedMore, unsetMore, items, hslot, hlength, ?_⟩
  exact hsame 0 (by omega) config ordered unset (fun _ he => absurd he (Nat.not_lt_zero _))
    (agreeAt_insert apart _ config)

/-- With views switched off an array of views is absent, although its first index is present. -/
theorem array_of_views_switched_off :
    let m : Materializer := { resolver := .known [], nestedViews := false }
    let member : Member := ⟨"v", .view ⟨"Inner", []⟩, true, none⟩
    let config : Properties := [("v.0", .map [])]
    member.isArray = true ∧ config.Ordered ∧ config.lookup member.key = none ∧
    HasIndex member.kind.isView member.key config 0 ∧ (m.memberAt 0 config member).value = none := by
  intro m member config
  have hkey : member.key = "v" := by decide
  have hzero : indexed "v" 0 = "v.0" := by decide
  rw [hkey]
  refine ⟨rfl, List.pairwise_singleton _ _, rfl, .inl ⟨[], ?_⟩, rfl⟩
  rw [hzero]
  rfl

end Materializer
end ComponentBinding
