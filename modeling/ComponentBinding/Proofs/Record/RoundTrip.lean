import ComponentBinding.Proofs.Property.RoundTrip
import ComponentBinding.Record.Reference
import ComponentBinding.Record.Service

/-! Records written as JSON and read back. A field without a value is left out and read as absent again, an
identifier is never too large, and a list comes back item by item; so a record loses what its properties lose, and
nothing else. -/
namespace ComponentBinding

namespace Json

variable {α : Type} {fields : List (String × Json)} {name : String}

theorem lookup_of_eq_object {json : Json} (h : json = .object fields) (key : String) :
    fields.lookup key = json.field? key := by
  rw [h, field?]

theorem required?_of_lookup {value? : Json → Option α} {json : Json} (h : fields.lookup name = some json) :
    required? fields name value? = value? json := by
  rw [required?, h, Option.bind_some]

theorem defaulted?_of_lookup {value? : Json → Option α} {default : α} {json : Json}
    (h : fields.lookup name = some json) : defaulted? fields name value? default = value? json := by
  simp only [defaulted?, h]

/-- A text that is left out where there is none is read as it was. -/
theorem optional?_of_lookup {text? : Option String} (h : fields.lookup name = text?.map .string) :
    optional? fields name string? = some text? := by
  cases text? <;> simp [optional?, h, string?]

theorem lookup_optional (key name : String) (text? : Option String) :
    ((text?.map fun text => (name, Json.string text)).toList).lookup key =
      if key = name then text?.map .string else none := by
  cases text? with
  | none => split <;> rfl
  | some text => by_cases h : key = name <;> simp [List.lookup_cons, h, beq_eq_false_iff_ne.mpr]

/-- A record of which one field may fail to be read is read if this field is. -/
theorem bind_eq_some_iff_of_field {β : Type} {value? : Option α} {Good : Prop} {back : α} {record : α → β}
    (h : ∀ read, value? = some read ↔ Good ∧ read = back) (read : β) :
    (value?.bind fun value => some (record value)) = some read ↔ Good ∧ read = record back := by
  simp only [Option.bind_eq_some_iff, h]
  constructor
  · rintro ⟨_, ⟨hgood, rfl⟩, hread⟩
    exact ⟨hgood, (Option.some.inj hread).symm⟩
  · rintro ⟨hgood, rfl⟩
    exact ⟨_, ⟨hgood, rfl⟩, rfl⟩

/-- Each item is read on its own. -/
theorem list?_map_iff {write : α → Json} {read? : Json → Option α} {Good : α → Prop} {back : α → α} {items : List α}
    (h : ∀ item ∈ items, ∀ read, read? (write item) = some read ↔ Good item ∧ read = back item) (read : List α) :
    list? read? (.array (items.map write)) = some read ↔ (∀ item ∈ items, Good item) ∧ read = items.map back := by
  induction items generalizing read with
  | nil => simp [list?, eq_comm]
  | cons item items ih =>
    obtain ⟨hitem, hitems⟩ := List.forall_mem_cons.mp h
    simp only [list?] at ih
    simp only [list?, List.map_cons, List.mapM_cons, Option.bind_eq_bind, Option.bind_eq_some_iff, hitem, ih hitems,
      List.forall_mem_cons]
    constructor
    · rintro ⟨_, ⟨hgood, rfl⟩, _, ⟨hgoods, rfl⟩, hread⟩
      exact ⟨⟨hgood, hgoods⟩, (Option.some.inj hread).symm⟩
    · rintro ⟨⟨hgood, hgoods⟩, rfl⟩
      exact ⟨_, ⟨hgood, rfl⟩, _, ⟨hgoods, rfl⟩, rfl⟩

end Json

namespace Property

/-- Not a number of less than 64 bits. -/
def Wide : Property → Prop
  | .byte _ | .short _ | .int _ | .float _ => False
  | _ => True

mutual

theorem widen_eq_self_iff : ∀ value : Property, value.widen = value ↔ value.Everywhere Wide
  | .bool _ | .string _ | .long _ | .double _ | .byte _ | .short _ | .int _ | .float _ => by
    simp [widen, Everywhere, Wide]
  | .array items => by simp [widen, Everywhere, Wide, widenItems_eq_self_iff items]
  | .map entries => by simp [widen, Everywhere, Wide, widenEntries_eq_self_iff entries]

theorem widenItems_eq_self_iff : ∀ items : List Property, widenItems items = items ↔ EveryItem Wide items
  | [] => by simp [widenItems, EveryItem]
  | item :: items => by simp [widenItems, EveryItem, widen_eq_self_iff item, widenItems_eq_self_iff items]

theorem widenEntries_eq_self_iff : ∀ entries : List (String × Property),
    widenEntries entries = entries ↔ EveryEntry Wide entries
  | [] => by simp [widenEntries, EveryEntry]
  | (key, value) :: entries => by
    simp [widenEntries, EveryEntry, widen_eq_self_iff value, widenEntries_eq_self_iff entries]

end

theorem propertiesOfJson?_iff {properties : Properties} (h : (Property.map properties).Everywhere KeysOrdered)
    (read : Properties) :
    propertiesOfJson? (.object (entriesToJson properties)) = some read ↔
      (Property.map properties).Everywhere Finite ∧ read = widenEntries properties := by
  have hread : ofJson? (Property.map properties).toJson =
      (propertiesOfJson? (.object (entriesToJson properties))).map .map := by
    rw [toJson, ofJson?, propertiesOfJson?, Option.map_map]
    rfl
  have hmap := ofJson?_toJson_iff (.map properties) h (.map read)
  rw [hread, widen, Property.map.injEq] at hmap
  rw [← hmap]
  simp

end Property

open Property (KeysOrdered Finite Wide)

theorem ReferenceRecord.ofJson?_toJson (record : ReferenceRecord) :
    ReferenceRecord.ofJson? record.toJson = some record := by
  obtain ⟨fields, hjson⟩ : ∃ fields, record.toJson = .object fields := ⟨_, rfl⟩
  have hlookup := Json.lookup_of_eq_object hjson
  simp only [toJson, Json.field?, List.lookup_append, Json.lookup_optional] at hlookup
  have htarget : Json.optional? fields "target" Json.string? = some record.target? :=
    Json.optional?_of_lookup (by simp [hlookup, List.lookup_cons])
  have hbind : Json.optional? fields "bind" Json.string? = some record.bind? :=
    Json.optional?_of_lookup (by simp [hlookup, List.lookup_cons])
  have hunbind : Json.optional? fields "unbind" Json.string? = some record.unbind? :=
    Json.optional?_of_lookup (by simp [hlookup, List.lookup_cons])
  have hupdated : Json.optional? fields "updated" Json.string? = some record.updated? :=
    Json.optional?_of_lookup (by simp [hlookup, List.lookup_cons])
  rw [hjson]
  simp [ofJson?, Json.recordFields?, Json.required?, Json.string?, hlookup, List.lookup_cons, htarget, hbind, hunbind,
    hupdated]

/-- A document that is written could also have been read, optional fields or not. -/
theorem ReferenceRecord.readable_toJson (record : ReferenceRecord) : record.toJson.Everywhere Json.Readable := by
  rw [toJson, Json.everywhere_object]
  obtain ⟨_, _, _, _, _, target?, bind?, unbind?, updated?, _⟩ := record
  cases target? <;> cases bind? <;> cases unbind? <;> cases updated? <;> simp

namespace ServiceRecord

/-- The predicate holds of the properties, as a map, and of every value in them. -/
def Everywhere (P : Property → Prop) (record : ServiceRecord) : Prop := (Property.map record.properties).Everywhere P

def widen (record : ServiceRecord) : ServiceRecord :=
  { record with properties := Property.widenEntries record.properties }

theorem widen_eq_self_iff (record : ServiceRecord) : record.widen = record ↔ record.Everywhere Wide := by
  rw [Everywhere, ← Property.widen_eq_self_iff, Property.widen, Property.map.injEq]
  exact ⟨congrArg properties, fun h => by rw [widen, h]⟩

theorem uint64?_idJson (id : UInt64) : Json.uint64? (idJson id) = some id := by
  have hlt : (id.toNat : Int) < UInt64.size := by exact_mod_cast id.toNat_lt
  rw [idJson, Json.uint64?, decide_eq_true (Int.natCast_nonneg id.toNat), decide_eq_true hlt, Bool.and_self,
    if_pos rfl, Int.toNat_natCast, UInt64.ofNat_toNat]

theorem list?_idJson (ids : List UInt64) : Json.list? Json.uint64? (.array (ids.map idJson)) = some ids := by
  have heach : ∀ id ∈ ids, ∀ read, Json.uint64? (idJson id) = some read ↔ True ∧ read = id := fun id _ read => by
    rw [uint64?_idJson, Option.some_inj, true_and, eq_comm]
  exact (Json.list?_map_iff heach ids).mpr ⟨fun _ _ => trivial, (List.map_id' ids).symm⟩

theorem ofJson?_toJson_iff {record : ServiceRecord} (h : record.Everywhere KeysOrdered) (read : ServiceRecord) :
    ofJson? record.toJson = some read ↔ record.Everywhere Finite ∧ read = record.widen := by
  obtain ⟨fields, hjson⟩ : ∃ fields, record.toJson = .object fields := ⟨_, rfl⟩
  have hlookup := Json.lookup_of_eq_object hjson
  have hid : Json.required? fields "id" Json.uint64? = some record.id :=
    (Json.required?_of_lookup (hlookup "id")).trans (uint64?_idJson record.id)
  have hbundle : Json.required? fields "bundle" Json.uint64? = some record.bundle :=
    (Json.required?_of_lookup (hlookup "bundle")).trans (uint64?_idJson record.bundle)
  have hproperties : Json.required? fields "properties" Property.propertiesOfJson? =
      Property.propertiesOfJson? (.object (Property.entriesToJson record.properties)) :=
    Json.required?_of_lookup (hlookup "properties")
  have husing : Json.defaulted? fields "usingBundles" (Json.list? Json.uint64?) [] = some record.usingBundles :=
    (Json.defaulted?_of_lookup (hlookup "usingBundles")).trans (list?_idJson record.usingBundles)
  rw [hjson]
  simp only [ofJson?, Json.recordFields?, hid, hbundle, hproperties, husing, Option.bind_eq_bind, Option.bind_some]
  exact Json.bind_eq_some_iff_of_field (Property.propertiesOfJson?_iff h) read

theorem readable_idJson (id : UInt64) : (idJson id).Everywhere Json.Readable := by
  have hlt : (id.toNat : Int) < UInt64.size := by exact_mod_cast id.toNat_lt
  exact ⟨⟨Int.le_trans (by decide) (Int.natCast_nonneg id.toNat), hlt⟩, trivial⟩

theorem readable_toJson {record : ServiceRecord} (h : record.Everywhere KeysOrdered) :
    record.toJson.Everywhere Json.Readable := by
  have husing : (Json.array (record.usingBundles.map idJson)).Everywhere Json.Readable :=
    Json.everywhere_array.mpr (List.forall_mem_map.mpr fun id _ => readable_idJson id)
  have hproperties : (Json.object (Property.entriesToJson record.properties)).Everywhere Json.Readable :=
    Property.readable_toJson (.map record.properties) h
  rw [toJson, Json.everywhere_object]
  refine ⟨by simp, ?_⟩
  simp only [List.forall_mem_cons, readable_idJson, hproperties, husing, true_and]
  exact List.forall_mem_nil _

end ServiceRecord

namespace BoundRecord

def Everywhere (P : Property → Prop) (record : BoundRecord) : Prop :=
  ∀ service ∈ record.services, service.Everywhere P

def widen (record : BoundRecord) : BoundRecord := { record with services := record.services.map ServiceRecord.widen }

theorem widen_eq_self_iff (record : BoundRecord) : record.widen = record ↔ record.Everywhere Wide := by
  have hservices : record.widen = record ↔ record.services.map ServiceRecord.widen = record.services :=
    ⟨congrArg services, fun h => by rw [widen, h]⟩
  have hmap := List.map_inj_left (l := record.services) (f := ServiceRecord.widen) (g := id)
  rw [List.map_id] at hmap
  rw [hservices, hmap]
  simp only [id, ServiceRecord.widen_eq_self_iff, Everywhere]

theorem ofJson?_toJson_iff {record : BoundRecord} (h : record.Everywhere KeysOrdered) (read : BoundRecord) :
    ofJson? record.toJson = some read ↔ record.Everywhere Finite ∧ read = record.widen := by
  obtain ⟨fields, hjson⟩ : ∃ fields, record.toJson = .object fields := ⟨_, rfl⟩
  have hlookup := Json.lookup_of_eq_object hjson
  simp only [toJson, Json.field?, List.lookup_append, Json.lookup_optional] at hlookup
  have hname : Json.required? fields "name" Json.string? = some record.name := by
    rw [Json.required?, hlookup]
    rfl
  have htarget : Json.optional? fields "target" Json.string? = some record.target? :=
    Json.optional?_of_lookup (by simp [hlookup, List.lookup_cons])
  have hservices : Json.defaulted? fields "serviceReferences" (Json.list? ServiceRecord.ofJson?) [] =
      Json.list? ServiceRecord.ofJson? (.array (record.services.map ServiceRecord.toJson)) :=
    Json.defaulted?_of_lookup (by simp [hlookup, List.lookup_cons])
  have hlist := Json.list?_map_iff fun service hs => ServiceRecord.ofJson?_toJson_iff (h service hs)
  rw [hjson]
  simp only [ofJson?, Json.recordFields?, hname, htarget, hservices, Option.bind_eq_bind, Option.bind_some]
  exact Json.bind_eq_some_iff_of_field hlist read

theorem readable_toJson {record : BoundRecord} (h : record.Everywhere KeysOrdered) :
    record.toJson.Everywhere Json.Readable := by
  have hservices : (Json.array (record.services.map ServiceRecord.toJson)).Everywhere Json.Readable :=
    Json.everywhere_array.mpr (List.forall_mem_map.mpr fun service hs => ServiceRecord.readable_toJson (h service hs))
  rw [toJson, Json.everywhere_object]
  cases record.target? <;> simp [hservices]

end BoundRecord

/-- A reading that succeeds exactly under a condition: what it gives, when it fails, and when it gives the same. -/
theorem reading_of_iff {α : Type} {read? : Option α} {Good Same : Prop} {back record : α}
    (h : ∀ read, read? = some read ↔ Good ∧ read = back) (hsame : back = record ↔ Same) :
    (Good → read? = some back) ∧ (read? = none ↔ ¬Good) ∧ (read? = some record ↔ Good ∧ Same) := by
  refine ⟨fun hgood => (h back).mpr ⟨hgood, rfl⟩, ?_, ?_⟩
  · rw [Option.eq_none_iff_forall_ne_some]
    simp [h]
  · rw [h record, eq_comm, hsame]

/-- A reference record comes back from JSON as it was. A record of a service, and one of all the services bound to a
reference, comes back with the numbers in its properties in their widest form and all else the same, and is lost if
one of them is not finite; so it comes back as it was exactly if they are all finite and none is narrow. -/
theorem record_round_trip :
    (∀ record : ReferenceRecord, ReferenceRecord.ofJson? record.toJson = some record) ∧
    (∀ record : ServiceRecord, record.Everywhere KeysOrdered →
      (record.Everywhere Finite → ServiceRecord.ofJson? record.toJson = some record.widen) ∧
      (ServiceRecord.ofJson? record.toJson = none ↔ ¬record.Everywhere Finite) ∧
      (ServiceRecord.ofJson? record.toJson = some record ↔ record.Everywhere Finite ∧ record.Everywhere Wide)) ∧
    ∀ record : BoundRecord, record.Everywhere KeysOrdered →
      (record.Everywhere Finite → BoundRecord.ofJson? record.toJson = some record.widen) ∧
      (BoundRecord.ofJson? record.toJson = none ↔ ¬record.Everywhere Finite) ∧
      (BoundRecord.ofJson? record.toJson = some record ↔ record.Everywhere Finite ∧ record.Everywhere Wide) := by
  refine ⟨ReferenceRecord.ofJson?_toJson, fun record hordered => ?_, fun record hordered => ?_⟩
  · exact reading_of_iff (ServiceRecord.ofJson?_toJson_iff hordered) record.widen_eq_self_iff
  · exact reading_of_iff (BoundRecord.ofJson?_toJson_iff hordered) record.widen_eq_self_iff

/-- An empty target and the greatest identifier, a narrow number next to a wide one, and one that is not finite. -/
theorem record_round_trip_two_services :
    let narrow : ServiceRecord := ⟨18446744073709551615, 7, [("ports", .array [.int 80, .string ""])], [2, 1]⟩
    let wide : ServiceRecord := ⟨42, 7, [("service.ranking", .long 5)], []⟩
    let bound : BoundRecord := ⟨"log", some "", [narrow, wide]⟩
    let infinite : ServiceRecord := ⟨42, 7, [("load", .float (.infinity true))], []⟩
    wide.Everywhere KeysOrdered ∧ wide.Everywhere Wide ∧ ServiceRecord.ofJson? wide.toJson = some wide ∧
    bound.Everywhere KeysOrdered ∧ bound.Everywhere Finite ∧
    BoundRecord.ofJson? bound.toJson = some ⟨"log", some "",
      [⟨18446744073709551615, 7, [("ports", .array [.long 80, .string ""])], [2, 1]⟩, wide]⟩ ∧
    infinite.Everywhere KeysOrdered ∧ ServiceRecord.ofJson? infinite.toJson = none := by
  intro narrow wide bound infinite
  have hnarrow : narrow.Everywhere KeysOrdered ∧ narrow.Everywhere Finite :=
    ⟨⟨List.pairwise_singleton _ _, ⟨trivial, trivial, trivial, trivial⟩, trivial⟩,
      trivial, ⟨trivial, trivial, trivial, trivial⟩, trivial⟩
  have hwide : wide.Everywhere KeysOrdered ∧ wide.Everywhere Finite ∧ wide.Everywhere Wide :=
    ⟨⟨List.pairwise_singleton _ _, trivial, trivial⟩, ⟨trivial, trivial, trivial⟩, trivial, trivial, trivial⟩
  have hinfinite : infinite.Everywhere KeysOrdered := ⟨List.pairwise_singleton _ _, trivial, trivial⟩
  have hordered : bound.Everywhere KeysOrdered :=
    List.forall_mem_cons.mpr ⟨hnarrow.1, List.forall_mem_singleton.mpr hwide.1⟩
  have hfinite : bound.Everywhere Finite :=
    List.forall_mem_cons.mpr ⟨hnarrow.2, List.forall_mem_singleton.mpr hwide.2.1⟩
  refine ⟨hwide.1, hwide.2.2, (record_round_trip.2.1 wide hwide.1).2.2.mpr hwide.2, hordered, hfinite,
    (record_round_trip.2.2 bound hordered).1 hfinite, hinfinite,
    (record_round_trip.2.1 infinite hinfinite).2.1.mpr fun hall => ?_⟩
  exact Bool.false_ne_true hall.2.1

end ComponentBinding
