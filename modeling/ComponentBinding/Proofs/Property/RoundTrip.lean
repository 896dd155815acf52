import ComponentBinding.Proofs.Json.Reading
import ComponentBinding.Proofs.Number.Rank
import ComponentBinding.Proofs.Property.Extend
import ComponentBinding.Property.Json

/-! Configuration values written as JSON and read back. Writing forgets the width of a number and loses one
that is not finite; nothing else is lost. A document read and written again comes back with its fields in
key order. -/
namespace ComponentBinding.Property

mutual

/-- The predicate holds of a value and of every value in it, at any depth. -/
def Everywhere (P : Property → Prop) : Property → Prop
  | .array items => P (.array items) ∧ EveryItem P items
  | .map entries => P (.map entries) ∧ EveryEntry P entries
  | value => P value

def EveryItem (P : Property → Prop) : List Property → Prop
  | [] => True
  | item :: items => item.Everywhere P ∧ EveryItem P items

def EveryEntry (P : Property → Prop) : List (String × Property) → Prop
  | [] => True
  | (_, value) :: entries => value.Everywhere P ∧ EveryEntry P entries

end

/-- A number, if it is one, that is neither infinite nor NaN. -/
def Finite : Property → Prop
  | .double value => value.isFinite = true
  | .float value => value.isFinite = true
  | _ => True

/-- A map, if it is one, with its entries in key order. -/
def KeysOrdered : Property → Prop
  | .map entries => Properties.Ordered entries
  | _ => True

mutual

/-- Every number in its widest form. -/
def widen : Property → Property
  | .byte value => .long value.toInt64
  | .short value => .long value.toInt64
  | .int value => .long value.toInt64
  | .float value => .double value.convert
  | .array items => .array (widenItems items)
  | .map entries => .map (widenEntries entries)
  | value => value

def widenItems : List Property → List Property
  | [] => []
  | item :: items => item.widen :: widenItems items

def widenEntries : List (String × Property) → List (String × Property)
  | [] => []
  | (key, value) :: entries => (key, value.widen) :: widenEntries entries

end

theorem widenEntries_eq_map (entries : List (String × Property)) :
    widenEntries entries = entries.map fun entry => (entry.1, entry.2.widen) := by
  induction entries with
  | nil => rfl
  | cons entry entries ih => rw [widenEntries, ih, List.map_cons]

theorem ordered_widenEntries {entries : Properties} (h : entries.Ordered) :
    Properties.Ordered (widenEntries entries) := by
  rw [widenEntries_eq_map]
  exact List.pairwise_map.mpr h

theorem ofJsonInt_of_range {n : Int} (h : Int64.minValue.toInt ≤ n ∧ n ≤ Int64.maxValue.toInt) :
    ofJsonInt n = .long (.ofInt n) := by
  rw [ofJsonInt, decide_eq_true h.1, decide_eq_true h.2]
  rfl

theorem ofJson?_int (value : Int64) : ofJson? (.int value.toInt) = some (.long value) := by
  rw [ofJson?, ofJsonInt_of_range ⟨value.minValue_le_toInt, value.toInt_le⟩, Int64.ofInt_toInt]

/-- A double is read back if it is finite; any other becomes a null. -/
theorem ofJson?_floatJson (x : Binary64) (read : Property) :
    ofJson? (floatJson x) = some read ↔ x.isFinite = true ∧ read = .double x := by
  unfold floatJson Json.ofFloat?
  split
  next h => simp [ofJson?, h, eq_comm]
  next h => simp [ofJson?, h]

theorem itemsOfJson?_cons {item : Json} {items : List Json} {read : List Property} :
    itemsOfJson? (item :: items) = some read ↔
      ∃ value values, ofJson? item = some value ∧ itemsOfJson? items = some values ∧ value :: values = read := by
  simp [itemsOfJson?, Option.bind_eq_some_iff]

theorem entriesOfJson?_cons {key : String} {json : Json} {fields : List (String × Json)}
    {read : List (String × Property)} :
    entriesOfJson? ((key, json) :: fields) = some read ↔
      ∃ value entries, ofJson? json = some value ∧ entriesOfJson? fields = some entries ∧
        (key, value) :: entries = read := by
  simp [entriesOfJson?, Option.bind_eq_some_iff]

mutual

/-- What is read back is the value with its numbers widened, and something is read back exactly if they are
all finite. -/
theorem ofJson?_toJson_iff : ∀ value : Property, value.Everywhere KeysOrdered → ∀ read : Property,
    ofJson? value.toJson = some read ↔ value.Everywhere Finite ∧ read = value.widen
  | .bool _, _, _ | .string _, _, _ => by simp [toJson, ofJson?, Everywhere, Finite, widen, eq_comm]
  | .long value, _, _ => by simp [toJson, ofJson?_int, Everywhere, Finite, widen, eq_comm]
  | .byte value, _, _ => by
    rw [toJson, ← value.toInt_toInt64, ofJson?_int]
    simp [Everywhere, Finite, widen, eq_comm]
  | .short value, _, _ => by
    rw [toJson, ← value.toInt_toInt64, ofJson?_int]
    simp [Everywhere, Finite, widen, eq_comm]
  | .int value, _, _ => by
    rw [toJson, ← value.toInt_toInt64, ofJson?_int]
    simp [Everywhere, Finite, widen, eq_comm]
  | .double value, _, read => ofJson?_floatJson value read
  | .float value, _, read => by
    rw [toJson, ofJson?_floatJson, Binary.isFinite_convert FloatFormat.binary32_extends]
    rfl
  | .array items, h, read => by
    simp only [toJson, ofJson?, Everywhere, Finite, widen, Option.map_eq_some_iff,
      itemsOfJson?_itemsToJson_iff items h.2, true_and]
    constructor
    · rintro ⟨_, ⟨hfinite, rfl⟩, rfl⟩
      exact ⟨hfinite, rfl⟩
    · rintro ⟨hfinite, rfl⟩
      exact ⟨_, ⟨hfinite, rfl⟩, rfl⟩
  | .map entries, h, read => by
    -- reading inserts the entries one by one, which keeps them as they stand only in key order
    have hordered : Properties.ofList (widenEntries entries) = widenEntries entries :=
      Properties.ofList_of_ordered (ordered_widenEntries h.1)
    simp only [toJson, ofJson?, Everywhere, Finite, widen, Option.map_eq_some_iff,
      entriesOfJson?_entriesToJson_iff entries h.2, true_and]
    constructor
    · rintro ⟨_, ⟨hfinite, rfl⟩, rfl⟩
      exact ⟨hfinite, congrArg Property.map hordered⟩
    · rintro ⟨hfinite, rfl⟩
      exact ⟨_, ⟨hfinite, rfl⟩, congrArg Property.map hordered⟩

theorem itemsOfJson?_itemsToJson_iff : ∀ items : List Property, EveryItem KeysOrdered items →
    ∀ read : List Property, itemsOfJson? (itemsToJson items) = some read ↔
      EveryItem Finite items ∧ read = widenItems items
  | [], _, _ => by simp [itemsToJson, itemsOfJson?, EveryItem, widenItems, eq_comm]
  | item :: items, h, read => by
    simp only [itemsToJson, itemsOfJson?_cons, EveryItem, widenItems, ofJson?_toJson_iff item h.1,
      itemsOfJson?_itemsToJson_iff items h.2]
    constructor
    · rintro ⟨_, _, ⟨hitem, rfl⟩, ⟨hitems, rfl⟩, rfl⟩
      exact ⟨⟨hitem, hitems⟩, rfl⟩
    · rintro ⟨⟨hitem, hitems⟩, rfl⟩
      exact ⟨_, _, ⟨hitem, rfl⟩, ⟨hitems, rfl⟩, rfl⟩

theorem entriesOfJson?_entriesToJson_iff : ∀ entries : List (String × Property), EveryEntry KeysOrdered entries →
    ∀ read : List (String × Property), entriesOfJson? (entriesToJson entries) = some read ↔
      EveryEntry Finite entries ∧ read = widenEntries entries
  | [], _, _ => by simp [entriesToJson, entriesOfJson?, EveryEntry, widenEntries, eq_comm]
  | (key, value) :: entries, h, read => by
    simp only [entriesToJson, entriesOfJson?_cons, EveryEntry, widenEntries, ofJson?_toJson_iff value h.1,
      entriesOfJson?_entriesToJson_iff entries h.2]
    constructor
    · rintro ⟨_, _, ⟨hvalue, rfl⟩, ⟨hentries, rfl⟩, rfl⟩
      exact ⟨⟨hvalue, hentries⟩, rfl⟩
    · rintro ⟨⟨hvalue, hentries⟩, rfl⟩
      exact ⟨_, _, ⟨hvalue, rfl⟩, ⟨hentries, rfl⟩, rfl⟩

end

mutual

/-- Numbers in their widest form stay as they are, and so does what holds them. -/
theorem widen_everywhere : ∀ value : Property, value.Everywhere KeysOrdered → value.Everywhere Finite →
    value.widen.Everywhere KeysOrdered ∧ value.widen.Everywhere Finite ∧ value.widen.widen = value.widen
  | .bool _, _, _ | .string _, _, _ | .long _, _, _ | .byte _, _, _ | .short _, _, _ | .int _, _, _ =>
    ⟨trivial, trivial, rfl⟩
  | .double _, _, hfinite => ⟨trivial, hfinite, rfl⟩
  | .float value, _, hfinite =>
    ⟨trivial, (Binary.isFinite_convert FloatFormat.binary32_extends value).trans hfinite, rfl⟩
  | .array items, hordered, hfinite => by
    obtain ⟨hordered, hfinite, hwide⟩ := widenItems_everyItem items hordered.2 hfinite.2
    exact ⟨⟨trivial, hordered⟩, ⟨trivial, hfinite⟩, congrArg Property.array hwide⟩
  | .map entries, hordered, hfinite => by
    have hkeys := ordered_widenEntries hordered.1
    obtain ⟨hordered, hfinite, hwide⟩ := widenEntries_everyEntry entries hordered.2 hfinite.2
    exact ⟨⟨hkeys, hordered⟩, ⟨trivial, hfinite⟩, congrArg Property.map hwide⟩

theorem widenItems_everyItem : ∀ items : List Property, EveryItem KeysOrdered items → EveryItem Finite items →
    EveryItem KeysOrdered (widenItems items) ∧ EveryItem Finite (widenItems items) ∧
      widenItems (widenItems items) = widenItems items
  | [], _, _ => ⟨trivial, trivial, rfl⟩
  | item :: items, hordered, hfinite => by
    obtain ⟨hordered', hfinite', hwide'⟩ := widen_everywhere item hordered.1 hfinite.1
    obtain ⟨hordered, hfinite, hwide⟩ := widenItems_everyItem items hordered.2 hfinite.2
    refine ⟨⟨hordered', hordered⟩, ⟨hfinite', hfinite⟩, ?_⟩
    rw [widenItems, widenItems, hwide', hwide]

theorem widenEntries_everyEntry : ∀ entries : List (String × Property), EveryEntry KeysOrdered entries →
    EveryEntry Finite entries → EveryEntry KeysOrdered (widenEntries entries) ∧
      EveryEntry Finite (widenEntries entries) ∧ widenEntries (widenEntries entries) = widenEntries entries
  | [], _, _ => ⟨trivial, trivial, rfl⟩
  | (key, value) :: entries, hordered, hfinite => by
    obtain ⟨hordered', hfinite', hwide'⟩ := widen_everywhere value hordered.1 hfinite.1
    obtain ⟨hordered, hfinite, hwide⟩ := widenEntries_everyEntry entries hordered.2 hfinite.2
    refine ⟨⟨hordered', hordered⟩, ⟨hfinite', hfinite⟩, ?_⟩
    rw [widenEntries, widenEntries, hwide', hwide]

end

mutual

/-- A document is read exactly if there is no null in it. -/
theorem isSome_ofJson?_iff : ∀ json : Json, (ofJson? json).isSome = true ↔ json.Everywhere (· ≠ .null)
  | .null => by simp [ofJson?, Json.Everywhere]
  | .bool _ | .int _ | .float _ | .string _ => by simp [ofJson?, Json.Everywhere]
  | .array items => by simp [ofJson?, Json.Everywhere, isSome_itemsOfJson?_iff items]
  | .object fields => by simp [ofJson?, Json.Everywhere, isSome_entriesOfJson?_iff fields]

theorem isSome_itemsOfJson?_iff : ∀ items : List Json,
    (itemsOfJson? items).isSome = true ↔ Json.EveryItem (· ≠ .null) items
  | [] => by simp [itemsOfJson?, Json.EveryItem]
  | item :: items => by
    rw [Json.EveryItem, ← isSome_ofJson?_iff item, ← isSome_itemsOfJson?_iff items, itemsOfJson?]
    cases ofJson? item <;> cases itemsOfJson? items <;> simp

theorem isSome_entriesOfJson?_iff : ∀ fields : List (String × Json),
    (entriesOfJson? fields).isSome = true ↔ Json.EveryField (· ≠ .null) fields
  | [] => by simp [entriesOfJson?, Json.EveryField]
  | (key, value) :: fields => by
    rw [Json.EveryField, ← isSome_ofJson?_iff value, ← isSome_entriesOfJson?_iff fields, entriesOfJson?]
    cases ofJson? value <;> cases entriesOfJson? fields <;> simp

end

theorem entriesToJson_eq_map (entries : List (String × Property)) :
    entriesToJson entries = entries.map fun entry => (entry.1, entry.2.toJson) := by
  induction entries with
  | nil => rfl
  | cons entry entries ih => rw [entriesToJson, ih, List.map_cons]

theorem entriesToJson_ofList {entries : List (String × Property)} (h : ((entriesToJson entries).map Prod.fst).Nodup) :
    entriesToJson (Properties.ofList entries) = (entriesToJson entries).mergeSort Json.keyLe := by
  have hkeys : (entries.map Prod.fst).Nodup := by
    rw [entriesToJson_eq_map, List.map_map] at h
    exact h
  apply Json.mergeSort_eq h
  · rw [entriesToJson_eq_map, entriesToJson_eq_map]
    exact (Properties.ofList_perm hkeys).map _
  · rw [entriesToJson_eq_map]
    exact List.pairwise_map.mpr (Properties.ordered_ofList entries)

mutual

/-- What was read is written as the document it was read from, with the fields in key order. -/
theorem toJson_of_ofJson? : ∀ json : Json, json.Everywhere Json.KeysDistinct → json.Everywhere Json.FitsInt64 →
    ∀ value : Property, ofJson? json = some value → value.toJson = json.sorted
  | .null, _, _, _, hread => nomatch hread
  | .bool _, _, _, _, hread | .string _, _, _, _, hread => by
    cases hread
    rfl
  | .int n, _, hfits, _, hread => by
    rw [ofJson?, ofJsonInt_of_range hfits] at hread
    cases hread
    rw [toJson, Int64.toInt_ofInt_of_le hfits.1 (Int.lt_add_one_of_le hfits.2)]
    rfl
  | .float x, _, _, _, hread => by
    cases hread
    simp [toJson, floatJson, Json.ofFloat?, x.property, Json.sorted]
  | .array items, hdistinct, hfits, _, hread => by
    obtain ⟨values, hvalues, rfl⟩ := Option.map_eq_some_iff.mp hread
    rw [toJson, itemsToJson_of_itemsOfJson? items hdistinct.2 hfits.2 values hvalues, Json.sorted]
  | .object fields, hdistinct, hfits, _, hread => by
    obtain ⟨entries, hentries, rfl⟩ := Option.map_eq_some_iff.mp hread
    have hfields := entriesToJson_of_entriesOfJson? fields hdistinct.2 hfits.2 entries hentries
    have hkeys : ((entriesToJson entries).map Prod.fst).Nodup := by
      rw [hfields, Json.keys_sortedFields]
      exact hdistinct.1
    rw [toJson, entriesToJson_ofList hkeys, hfields, Json.sorted]

theorem itemsToJson_of_itemsOfJson? : ∀ items : List Json, Json.EveryItem Json.KeysDistinct items →
    Json.EveryItem Json.FitsInt64 items → ∀ values : List Property, itemsOfJson? items = some values →
      itemsToJson values = Json.sortedItems items
  | [], _, _, _, hread => by
    cases hread
    rfl
  | item :: items, hdistinct, hfits, _, hread => by
    obtain ⟨value, values, hvalue, hvalues, rfl⟩ := itemsOfJson?_cons.mp hread
    rw [itemsToJson, toJson_of_ofJson? item hdistinct.1 hfits.1 value hvalue,
      itemsToJson_of_itemsOfJson? items hdistinct.2 hfits.2 values hvalues, Json.sortedItems]

theorem entriesToJson_of_entriesOfJson? : ∀ fields : List (String × Json), Json.EveryField Json.KeysDistinct fields →
    Json.EveryField Json.FitsInt64 fields → ∀ entries : List (String × Property),
      entriesOfJson? fields = some entries → entriesToJson entries = Json.sortedFields fields
  | [], _, _, _, hread => by
    cases hread
    rfl
  | (key, json) :: fields, hdistinct, hfits, _, hread => by
    obtain ⟨value, entries, hvalue, hentries, rfl⟩ := entriesOfJson?_cons.mp hread
    rw [entriesToJson, toJson_of_ofJson? json hdistinct.1 hfits.1 value hvalue,
      entriesToJson_of_entriesOfJson? fields hdistinct.2 hfits.2 entries hentries, Json.sortedFields]

end

theorem readable_floatJson (x : Binary64) : (floatJson x).Everywhere Json.Readable := by
  unfold floatJson
  cases h : Json.ofFloat? x with
  | none => exact ⟨trivial, trivial⟩
  | some json => exact Json.readable_ofFloat? h

theorem readable_int (value : Int64) : (Json.int value.toInt).Everywhere Json.Readable :=
  ⟨⟨value.minValue_le_toInt, Int.lt_of_le_of_lt value.toInt_le (by decide)⟩, trivial⟩

theorem nodup_keys {entries : Properties} (h : entries.Ordered) : ((entriesToJson entries).map Prod.fst).Nodup := by
  rw [entriesToJson_eq_map, List.map_map]
  refine List.pairwise_map.mpr (List.Pairwise.imp ?_ h)
  intro a b hlt
  exact String.ne_of_lt hlt

mutual

/-- A document that is written could also have been read. -/
theorem readable_toJson : ∀ value : Property, value.Everywhere KeysOrdered → value.toJson.Everywhere Json.Readable
  | .bool _, _ | .string _, _ => ⟨trivial, trivial⟩
  | .long value, _ => readable_int value
  | .byte value, _ => by
    rw [toJson, ← value.toInt_toInt64]
    exact readable_int value.toInt64
  | .short value, _ => by
    rw [toJson, ← value.toInt_toInt64]
    exact readable_int value.toInt64
  | .int value, _ => by
    rw [toJson, ← value.toInt_toInt64]
    exact readable_int value.toInt64
  | .double value, _ => readable_floatJson value
  | .float value, _ => readable_floatJson value.convert
  | .array items, h => Json.everywhere_array.mpr (readable_itemsToJson items h.2)
  | .map entries, h => Json.everywhere_object.mpr ⟨nodup_keys h.1, readable_entriesToJson entries h.2⟩

theorem readable_itemsToJson : ∀ items : List Property, EveryItem KeysOrdered items →
    ∀ json ∈ itemsToJson items, json.Everywhere Json.Readable
  | [], _ => by simp [itemsToJson]
  | item :: items, h =>
    List.forall_mem_cons.mpr ⟨readable_toJson item h.1, readable_itemsToJson items h.2⟩

theorem readable_entriesToJson : ∀ entries : List (String × Property), EveryEntry KeysOrdered entries →
    ∀ field ∈ entriesToJson entries, field.2.Everywhere Json.Readable
  | [], _ => by simp [entriesToJson]
  | (_, value) :: entries, h =>
    List.forall_mem_cons.mpr ⟨readable_toJson value h.1, readable_entriesToJson entries h.2⟩

end

/-- A value comes back from JSON exactly if all its numbers are finite, each in its widest form and all else the
same, so a second trip changes nothing. A document is read exactly if there is no null in it, and is written again
as it was, the fields in key order; only an integer beyond 64 bits turns into a double. A map is in key order, as
insertion builds it, and an object has each key once. -/
theorem json_round_trip :
    (∀ value : Property, value.Everywhere KeysOrdered →
      (∀ read, ofJson? value.toJson = some read ↔ value.Everywhere Finite ∧ read = value.widen) ∧
      (value.Everywhere Finite → ofJson? value.widen.toJson = some value.widen)) ∧
    (∀ x : Binary32, x.isFinite = true → x.SameValue (x.convert : Binary64)) ∧
    ∀ json : Json,
      ((ofJson? json).isSome = true ↔ json.Everywhere (· ≠ .null)) ∧
      ∀ value, ofJson? json = some value → json.Everywhere Json.KeysDistinct → json.Everywhere Json.FitsInt64 →
        value.toJson = json.sorted ∧ (json.Everywhere Json.KeysOrdered → value.toJson = json) := by
  refine ⟨fun value hordered => ⟨ofJson?_toJson_iff value hordered, fun hfinite => ?_⟩,
    fun x hfinite => (Binary.convert_sameValue FloatFormat.binary32_extends hfinite).2,
    fun json => ⟨isSome_ofJson?_iff json, fun value hread hdistinct hfits => ?_⟩⟩
  · obtain ⟨hordered, hfinite, hwide⟩ := widen_everywhere value hordered hfinite
    rw [ofJson?_toJson_iff value.widen hordered, hwide]
    exact ⟨hfinite, rfl⟩
  · have hsorted := toJson_of_ofJson? json hdistinct hfits value hread
    refine ⟨hsorted, fun hordered => ?_⟩
    rw [hsorted, Json.sorted_of_ordered json hordered]

/-- The least byte and the least positive single within a nested value, one that is not finite, and a document
with its fields out of order. -/
theorem json_round_trip_nested :
    let least : Binary32 := ⟨false, 1, by decide⟩
    let value : Property := .map [("a", .array [.byte (-128), .float least]), ("b", .map [])]
    let document : Json := .object [("b", .int (-9223372036854775808)), ("a", .array [.object []])]
    value.Everywhere KeysOrdered ∧ value.Everywhere Finite ∧
    ofJson? value.toJson = some (.map [("a", .array [.long (-128), .double least.convert]), ("b", .map [])]) ∧
    ofJson? value.widen.toJson = some value.widen ∧
    least.isFinite = true ∧ least.SameValue (least.convert : Binary64) ∧
    ofJson? (Property.array [.float (.infinity true)]).toJson = none ∧
    document.Everywhere Json.KeysDistinct ∧ document.Everywhere Json.FitsInt64 ∧
    (Property.map [("a", .array [.map []]), ("b", .long Int64.minValue)]).toJson = document.sorted := by
  intro least value document
  have hordered : value.Everywhere KeysOrdered :=
    ⟨List.pairwise_pair.mpr (by decide), ⟨trivial, trivial, trivial, trivial⟩, ⟨.nil, trivial⟩, trivial⟩
  have hleast : least.isFinite = true := by decide
  have hfinite : value.Everywhere Finite :=
    ⟨trivial, ⟨trivial, trivial, hleast, trivial⟩, ⟨trivial, trivial⟩, trivial⟩
  have hkeys : ["b", "a"].Nodup := by decide
  have hdistinct : document.Everywhere Json.KeysDistinct :=
    ⟨hkeys, trivial, ⟨trivial, ⟨.nil, trivial⟩, trivial⟩, trivial⟩
  have hfits : document.Everywhere Json.FitsInt64 :=
    ⟨trivial, ⟨by decide, by decide⟩, ⟨trivial, ⟨trivial, trivial⟩, trivial⟩, trivial⟩
  obtain ⟨hread, hagain⟩ := json_round_trip.1 value hordered
  refine ⟨hordered, hfinite, (hread _).mpr ⟨hfinite, rfl⟩, hagain hfinite, hleast,
    json_round_trip.2.1 least hleast, ?_, hdistinct, hfits, ?_⟩
  · rfl
  · exact ((json_round_trip.2.2 document).2 _ rfl hdistinct hfits).1

end ComponentBinding.Property
