import ComponentBinding.Proofs.View.Indexed

/-! A nested view, an array of views and an array of values can each be written into a configuration in
several ways: whole at their key, one entry for each index, or one entry for each key of each map. A
member reads the same in all of them. -/
namespace ComponentBinding
namespace Properties

/-- The entries with a start before every key. -/
def graft (start : String) (entries : Properties) : Properties :=
  entries.map fun entry => (start ++ entry.1, entry.2)

/-- One entry for each value, at its index. -/
def spread (key : String) (values : List Property) : List (String × Property) :=
  values.mapIdx fun index value => (indexed key index, value)

/-- One entry for each key of each map, below the index of the map. -/
def spreadBelow (key : String) (maps : List Properties) : List (String × Property) :=
  (maps.mapIdx fun index map => graft (indexed key index ++ ".") map).flatten

/-- No entry stands at the key or below it. -/
def Free (config : Properties) (key : String) : Prop :=
  ∀ entry ∈ config, entry.1 ≠ key ∧ ∀ rest, entry.1 ≠ key ++ "." ++ rest

/-- The ways to write the map of a single nested view. -/
inductive WritesView (key : String) (map : Properties) : List (String × Property) → Prop where
  | whole : WritesView key map [(key, .map map)]
  | first (more : List Property) : WritesView key map [(key, .array (.map map :: more))]
  | dotted : WritesView key map (graft (indexed key 0 ++ ".") map)

/-- The ways to write the maps of an array of views. -/
inductive WritesViews (key : String) (maps : List Properties) : List (String × Property) → Prop where
  | whole : WritesViews key maps [(key, .array (maps.map .map))]
  | indexed : WritesViews key maps (spread key (maps.map .map))
  | dotted : WritesViews key maps (spreadBelow key maps)

/-- The ways to write the values of any other array. -/
inductive WritesValues (key : String) : List Property → List (String × Property) → Prop where
  | whole (values : List Property) : WritesValues key values [(key, .array values)]
  | indexed (values : List Property) : WritesValues key values (spread key values)
  | single {value : Property} (h : value.items? = none) : WritesValues key [value] [(key, value)]

theorem mem_graft_iff {start key : String} {entries : Properties} {value : Property} :
    (start ++ key, value) ∈ graft start entries ↔ (key, value) ∈ entries := by
  rw [graft, List.mem_map]
  constructor
  · rintro ⟨⟨key', value'⟩, hm, he⟩
    obtain ⟨hkey, rfl⟩ := Prod.mk.inj he
    obtain rfl : key' = key := (String.append_right_inj start).mp hkey
    exact hm
  · intro hm
    exact ⟨_, hm, rfl⟩

theorem mem_spread_iff {key full : String} {values : List Property} {value : Property} :
    (full, value) ∈ spread key values ↔ ∃ index, values[index]? = some value ∧ full = indexed key index := by
  rw [spread, List.mem_mapIdx]
  constructor
  · rintro ⟨index, hi, he⟩
    obtain ⟨rfl, rfl⟩ := Prod.mk.inj he
    exact ⟨index, List.getElem?_eq_getElem hi, rfl⟩
  · rintro ⟨index, hvalue, rfl⟩
    obtain ⟨hi, rfl⟩ := List.getElem?_eq_some_iff.mp hvalue
    exact ⟨index, hi, rfl⟩

theorem mem_spreadBelow_iff {key full : String} {maps : List Properties} {value : Property} :
    (full, value) ∈ spreadBelow key maps ↔
      ∃ index map rest, maps[index]? = some map ∧ (rest, value) ∈ map ∧ full = indexed key index ++ "." ++ rest := by
  rw [spreadBelow, List.mem_flatten]
  constructor
  · rintro ⟨grafted, hg, hm⟩
    obtain ⟨index, hi, rfl⟩ := List.mem_mapIdx.mp hg
    obtain ⟨⟨rest, _⟩, hrest, he⟩ := List.mem_map.mp hm
    obtain ⟨rfl, rfl⟩ := Prod.mk.inj he
    exact ⟨index, maps[index], rest, List.getElem?_eq_getElem hi, hrest, rfl⟩
  · rintro ⟨index, map, rest, hmap, hrest, rfl⟩
    obtain ⟨hi, rfl⟩ := List.getElem?_eq_some_iff.mp hmap
    exact ⟨_, List.mem_mapIdx.mpr ⟨index, hi, rfl⟩, mem_graft_iff.mpr hrest⟩

variable {config : Properties} {key : String}

theorem Free.lookup (h : config.Free key) : config.lookup key = none := by
  rw [List.lookup_eq_none_iff]
  intro entry hm
  simpa using (h entry hm).1.symm

theorem Free.lookup_below (h : config.Free key) (rest : String) : config.lookup (key ++ "." ++ rest) = none := by
  rw [List.lookup_eq_none_iff]
  intro entry hm
  simpa using ((h entry hm).2 rest).symm

theorem Free.lookup_indexed (h : config.Free key) (index : Nat) : config.lookup (indexed key index) = none :=
  h.lookup_below (Decimal.ofNat index)

theorem Free.lookup_indexed_below (h : config.Free key) (index : Nat) (rest : String) :
    config.lookup (indexed key index ++ "." ++ rest) = none := by
  rw [indexed_below]
  exact h.lookup_below _

/-- Below a start that was free, an extension leaves exactly the map that it writes there. -/
theorem under_extend (h : config.Ordered) {start : String} (hfree : ∀ rest, config.lookup (start ++ rest) = none)
    {map : Properties} (hmap : map.Ordered) {entries : List (String × Property)}
    (hentries : ∀ rest value, (start ++ rest, value) ∈ entries ↔ (rest, value) ∈ map) :
    (config.extend entries).under start = map := by
  have hextended := ordered_extend h entries
  apply (ordered_under hextended start).ext hmap
  intro rest
  rw [lookup_under hextended]
  apply lookup_extend_of_iff (hfree rest)
  intro value
  rw [hentries, lookup_eq_some_iff_mem hmap]

theorem nested?_written (h : config.Ordered) (hfree : config.Free key) {map : Properties} (hmap : map.Ordered)
    (hne : map ≠ []) {entries : List (String × Property)} (hw : WritesView key map entries) :
    (config.extend entries).nested? key = some map := by
  cases hw with
  | whole => simp [nested?, lookup_insert]
  | first more => simp [nested?, lookup_insert]
  | dotted =>
    have hlookup : (config.extend (graft (indexed key 0 ++ ".") map)).lookup key = none := by
      rw [lookup_extend_of_absent, hfree.lookup]
      intro entry hm
      obtain ⟨_, _, rfl⟩ := List.mem_map.mp hm
      rw [indexed_below]
      exact below_ne_key key _
    rw [nested?, hlookup]
    exact below?_of_under (under_extend h (hfree.lookup_indexed_below 0) hmap fun _ _ => mem_graft_iff) hne

theorem elements?_of_readsTo (h : config.Ordered) (hlookup : config.lookup key = none) {isView : Bool}
    {sources : List Property} (hne : sources ≠ []) (hr : ReadsTo (config.elementAt? isView key) sources)
    (default? : Option Property) : config.elements? isView key default? = some sources := by
  rw [elements?, hlookup, (indexedElements_eq_iff h).mpr hr]
  cases sources with
  | nil => exact absurd rfl hne
  | cons source sources => rfl

theorem lookup_spread (hfree : config.Free key) (values : List Property) (index : Nat) :
    (config.extend (spread key values)).lookup (indexed key index) = values[index]? := by
  apply lookup_extend_of_iff (hfree.lookup_indexed index)
  intro value
  rw [mem_spread_iff]
  constructor
  · rintro ⟨index', hvalue, he⟩
    rwa [indexed_injective key he]
  · intro hvalue
    exact ⟨index, hvalue, rfl⟩

theorem under_spread (h : config.Ordered) (hfree : config.Free key) (values : List Property) (index : Nat) :
    (config.extend (spread key values)).under (indexed key index ++ ".") = [] := by
  apply under_extend h (hfree.lookup_indexed_below index) .nil
  intro rest value
  constructor
  · intro hm
    obtain ⟨index', _, he⟩ := mem_spread_iff.mp hm
    exact absurd he.symm (indexed_ne_below key rest index' index)
  · nofun

/-- Values at their indices are read back in order; an array of views takes maps only. -/
theorem spread_readsTo (h : config.Ordered) (hfree : config.Free key) (isView : Bool) {values : List Property}
    (hviews : isView = true → ∀ value ∈ values, ∃ map, value = .map map) :
    ReadsTo ((config.extend (spread key values)).elementAt? isView key) values := by
  constructor
  · intro index value hvalue
    cases isView with
    | false =>
      simp only [elementAt?, lookup_spread hfree, hvalue]
      rfl
    | true =>
      obtain ⟨map, rfl⟩ := hviews rfl value (List.mem_of_getElem? hvalue)
      simp only [elementAt?, lookup_spread hfree, hvalue]
      rfl
  · have hmissing : values[values.length]? = none := List.getElem?_eq_none (Nat.le_refl _)
    have hbelow := below?_eq_none_iff.mpr (under_spread h hfree values values.length)
    cases isView <;> simp only [elementAt?, lookup_spread hfree, hmissing, hbelow] <;> rfl

theorem under_spreadBelow (h : config.Ordered) (hfree : config.Free key) {maps : List Properties}
    (hmaps : ∀ map ∈ maps, map.Ordered) (index : Nat) :
    (config.extend (spreadBelow key maps)).under (indexed key index ++ ".") = (maps[index]?).getD [] := by
  apply under_extend h (hfree.lookup_indexed_below index)
  · cases hmap : maps[index]? with
    | some map => exact hmaps map (List.mem_of_getElem? hmap)
    | none => exact .nil
  · intro rest value
    rw [mem_spreadBelow_iff]
    constructor
    · rintro ⟨index', map, rest', hmap, hm, he⟩
      obtain ⟨rfl, rfl⟩ := indexed_below_inj he
      rwa [hmap]
    · intro hm
      cases hmap : maps[index]? with
      | some map =>
        rw [hmap] at hm
        exact ⟨index, map, rest, hmap, hm, rfl⟩
      | none =>
        rw [hmap] at hm
        cases hm

theorem lookup_spreadBelow (hfree : config.Free key) (maps : List Properties) (index : Nat) :
    (config.extend (spreadBelow key maps)).lookup (indexed key index) = none := by
  rw [lookup_extend_of_absent, hfree.lookup_indexed]
  rintro ⟨_, value⟩ hm rfl
  obtain ⟨index', _, rest, _, _, he⟩ := mem_spreadBelow_iff.mp hm
  exact indexed_ne_below key rest index index' he

/-- Maps below their indices are read back in order, each put together from its entries. -/
theorem spreadBelow_readsTo (h : config.Ordered) (hfree : config.Free key) {maps : List Properties}
    (hmaps : ∀ map ∈ maps, map.Ordered ∧ map ≠ []) :
    ReadsTo ((config.extend (spreadBelow key maps)).elementAt? true key) (maps.map .map) := by
  have hunder := under_spreadBelow h hfree fun map hm => (hmaps map hm).1
  constructor
  · intro index value hvalue
    rw [List.getElem?_map, Option.map_eq_some_iff] at hvalue
    obtain ⟨map, hmap, rfl⟩ := hvalue
    have hbelow := below?_of_under ((hunder index).trans (by rw [hmap]; rfl))
      (hmaps map (List.mem_of_getElem? hmap)).2
    simp only [elementAt?, lookup_spreadBelow hfree, hbelow]
    rfl
  · have hmissing : maps[maps.length]? = none := List.getElem?_eq_none (Nat.le_refl _)
    have hbelow := below?_eq_none_iff.mpr ((hunder maps.length).trans (by rw [hmissing]; rfl))
    rw [List.length_map]
    simp only [elementAt?, lookup_spreadBelow hfree, hbelow]
    rfl

theorem spread_ne_key {values : List Property} : ∀ entry ∈ spread key values, entry.1 ≠ key := by
  rintro ⟨_, value⟩ hm
  obtain ⟨index, _, rfl⟩ := mem_spread_iff.mp hm
  exact below_ne_key key _

theorem spreadBelow_ne_key {maps : List Properties} : ∀ entry ∈ spreadBelow key maps, entry.1 ≠ key := by
  rintro ⟨_, value⟩ hm
  obtain ⟨index, _, rest, _, _, rfl⟩ := mem_spreadBelow_iff.mp hm
  rw [indexed_below]
  exact below_ne_key key _

theorem elements?_writtenViews (h : config.Ordered) (hfree : config.Free key) {maps : List Properties}
    (hmaps : ∀ map ∈ maps, map.Ordered ∧ map ≠ []) (hne : maps ≠ []) {entries : List (String × Property)}
    (hw : WritesViews key maps entries) (default? : Option Property) :
    (config.extend entries).elements? true key default? = some (maps.map .map) := by
  have hsources : maps.map Property.map ≠ [] := by simpa using hne
  cases hw with
  | whole => simp [elements?, lookup_insert, Property.sequence]
  | indexed =>
    refine elements?_of_readsTo (ordered_extend h _) ?_ hsources (spread_readsTo h hfree true ?_) default?
    · rw [lookup_extend_of_absent spread_ne_key, hfree.lookup]
    · intro _ value hm
      obtain ⟨map, _, rfl⟩ := List.mem_map.mp hm
      exact ⟨map, rfl⟩
  | dotted =>
    refine elements?_of_readsTo (ordered_extend h _) ?_ hsources (spreadBelow_readsTo h hfree hmaps) default?
    rw [lookup_extend_of_absent spreadBelow_ne_key, hfree.lookup]

theorem elements?_writtenValues (h : config.Ordered) (hfree : config.Free key) {values : List Property}
    (hne : values ≠ []) {entries : List (String × Property)} (hw : WritesValues key values entries)
    (default? : Option Property) : (config.extend entries).elements? false key default? = some values := by
  cases hw with
  | whole => simp [elements?, lookup_insert, Property.sequence]
  | indexed =>
    refine elements?_of_readsTo (ordered_extend h _) ?_ hne (spread_readsTo h hfree false nofun) default?
    rw [lookup_extend_of_absent spread_ne_key, hfree.lookup]
  | single hsingle =>
    rename_i value
    have hsequence : value.sequence = [value] := by cases value <;> first | rfl | cases hsingle
    simp [elements?, lookup_insert, hsequence]

end Properties
end ComponentBinding
