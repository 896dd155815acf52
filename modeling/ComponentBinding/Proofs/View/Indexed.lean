import ComponentBinding.Proofs.Property.Under
import ComponentBinding.View.Materialize
import Mathlib.Data.List.FinRange

/-! The entries at and below `key.0`, `key.1` and so on belong to one index each; the probe for the
elements of an array reads up to the first index that has none, however many entries there are. -/
namespace ComponentBinding

namespace Decimal

theorem ofNat_injective : Function.Injective ofNat := by
  intro m n h
  have hdigits := congrArg (fun text => Nat.ofDigitChars 10 text.toList 0) h
  simpa only [ofNat, String.toList_ofList, Nat.ofDigitChars_ten_toDigits] using hdigits

theorem point_notMem_ofNat (n : Nat) : '.' ∉ (ofNat n).toList := by
  rw [ofNat, String.toList_ofList]
  intro h
  exact absurd (Nat.isDigit_of_mem_toDigits (by decide) (by decide) h) (by decide)

/-- A numeral ends where a point follows it. -/
theorem takeWhile_ofNat (n : Nat) (rest : List Char) :
    ((ofNat n).toList ++ '.' :: rest).takeWhile (· ≠ '.') = (ofNat n).toList := by
  rw [List.takeWhile_append_of_pos, List.takeWhile_cons_of_neg (by simp), List.append_nil]
  intro c hc
  simpa using fun he : c = '.' => point_notMem_ofNat n (he ▸ hc)

end Decimal

namespace Properties

theorem below_ne_key (key rest : String) : key ++ "." ++ rest ≠ key := by
  intro h
  have hlength := congrArg (fun text => text.toList.length) h
  simp [String.toList_append] at hlength

theorem indexed_below (key rest : String) (index : Nat) :
    indexed key index ++ "." ++ rest = key ++ "." ++ (Decimal.ofNat index ++ "." ++ rest) := by
  simp only [indexed, String.append_assoc]

theorem indexed_injective (key : String) : Function.Injective (indexed key) := by
  intro i j h
  rw [indexed, indexed, String.append_right_inj] at h
  exact Decimal.ofNat_injective h

/-- The point after the index ends its digits, so `key.1` does not start `key.10.`. -/
theorem indexed_below_inj {key rest rest' : String} {i j : Nat}
    (h : indexed key i ++ "." ++ rest = indexed key j ++ "." ++ rest') : i = j ∧ rest = rest' := by
  have hchars : (Decimal.ofNat i).toList ++ '.' :: rest.toList = (Decimal.ofNat j).toList ++ '.' :: rest'.toList := by
    simpa [indexed, ← String.toList_inj, String.toList_append] using h
  have hdigits := congrArg (List.takeWhile (· ≠ '.')) hchars
  rw [Decimal.takeWhile_ofNat, Decimal.takeWhile_ofNat] at hdigits
  rw [hdigits] at hchars
  have hrest := (List.cons.inj (List.append_cancel_left hchars)).2
  exact ⟨Decimal.ofNat_injective (String.toList_inj.mp hdigits), String.toList_inj.mp hrest⟩

theorem indexed_ne_below (key rest : String) (i j : Nat) : indexed key i ≠ indexed key j ++ "." ++ rest := by
  intro h
  have hchars : (Decimal.ofNat i).toList = (Decimal.ofNat j).toList ++ '.' :: rest.toList := by
    simpa [indexed, ← String.toList_inj, String.toList_append] using h
  exact Decimal.point_notMem_ofNat i (hchars ▸ by simp)

/-- A full key at or below an index of `key`. -/
def AtIndex (key : String) (index : Nat) (full : String) : Prop :=
  full = indexed key index ∨ ∃ rest, full = indexed key index ++ "." ++ rest

theorem AtIndex.unique {key full : String} {i j : Nat} (hi : AtIndex key i full) (hj : AtIndex key j full) :
    i = j := by
  rcases hi with rfl | ⟨rest, rfl⟩ <;> rcases hj with hj | ⟨rest', hj⟩
  · exact indexed_injective key hj
  · exact absurd hj (indexed_ne_below key rest' i j)
  · exact absurd hj.symm (indexed_ne_below key rest j i)
  · exact (indexed_below_inj hj).1

variable {config : Properties}

theorem below?_eq_none_iff {place : String} : config.below? place = none ↔ config.under (place ++ ".") = [] := by
  simp [below?]

theorem below?_of_under {place : String} {entries : Properties} (h : config.under (place ++ ".") = entries)
    (hne : entries ≠ []) : config.below? place = some entries := by
  simp [below?, h, hne]

/-- An element has an entry of its own. -/
theorem elementAt?_present (h : config.Ordered) {isView : Bool} {key : String} {index : Nat}
    (hp : (config.elementAt? isView key index).isSome) : ∃ entry ∈ config, AtIndex key index entry.1 := by
  by_cases hlookup : (config.lookup (indexed key index)).isSome
  · obtain ⟨value, hvalue⟩ := Option.isSome_iff_exists.mp hlookup
    exact ⟨_, (lookup_eq_some_iff_mem h).mp hvalue, .inl rfl⟩
  · rw [Option.not_isSome_iff_eq_none] at hlookup
    simp only [elementAt?, hlookup] at hp
    cases isView with
    | false => cases hp
    | true =>
      cases hunder : config.under (indexed key index ++ ".") with
      | nil => simp [below?_eq_none_iff.mpr hunder] at hp
      | cons found _ =>
        have hmem : (found.1, found.2) ∈ config.under (indexed key index ++ ".") := by
          rw [hunder]
          exact List.mem_cons_self
        exact ⟨_, (mem_under_iff h).mp hmem, .inr ⟨found.1, rfl⟩⟩

theorem le_length_of_present (h : config.Ordered) {isView : Bool} {key : String} {n : Nat}
    (hp : ∀ index < n, (config.elementAt? isView key index).isSome) : n ≤ config.length := by
  have hentry (index : Fin n) : ∃ entry ∈ config, AtIndex key index entry.1 :=
    elementAt?_present h (hp index index.isLt)
  choose entry hmem hat using hentry
  have hinjective : Function.Injective entry := by
    intro i j hij
    exact Fin.ext ((hat i).unique (hij ▸ hat j))
  have hsubset : List.ofFn entry ⊆ config := by
    intro other ho
    obtain ⟨index, rfl⟩ := (List.mem_ofFn' ..).mp ho
    exact hmem index
  simpa using (List.nodup_ofFn.mpr hinjective).length_le_of_subset hsubset

/-- The values of `read` from zero up to the first index that has none. -/
structure ReadsTo (read : Nat → Option Property) (values : List Property) : Prop where
  found : ∀ index value, values[index]? = some value → read index = some value
  missing : read values.length = none

theorem ReadsTo.length_le {read : Nat → Option Property} {values values' : List Property}
    (h : ReadsTo read values) (h' : ReadsTo read values') : values'.length ≤ values.length := by
  apply Nat.le_of_not_lt
  intro hlt
  have hsome := h'.found _ _ (List.getElem?_eq_getElem hlt)
  rw [h.missing] at hsome
  cases hsome

theorem ReadsTo.unique {read : Nat → Option Property} {values values' : List Property}
    (h : ReadsTo read values) (h' : ReadsTo read values') : values = values' := by
  have hlength := Nat.le_antisymm (h'.length_le h) (h.length_le h')
  apply List.ext_getElem hlength
  intro index hi hi'
  have hvalue := h.found index _ (List.getElem?_eq_getElem hi)
  have hvalue' := h'.found index _ (List.getElem?_eq_getElem hi')
  exact Option.some.inj (hvalue.symm.trans hvalue')

private def probe (read : Nat → Option Property) (n : Nat) : List Property :=
  (((List.range n).map read).takeWhile Option.isSome).filterMap id

private theorem probe_succ (read : Nat → Option Property) (n : Nat) :
    probe read (n + 1) = match read 0 with
      | none => []
      | some value => value :: probe (fun index => read (index + 1)) n := by
  simp only [probe, List.range_succ_eq_map, List.map_cons, List.map_map, List.takeWhile_cons]
  cases read 0 <;> rfl

private theorem probe_found (n : Nat) (read : Nat → Option Property) (index : Nat) (value : Property)
    (h : (probe read n)[index]? = some value) : read index = some value := by
  induction n generalizing read index with
  | zero => cases h
  | succ n ih =>
    rw [probe_succ] at h
    cases hfirst : read 0 with
    | none => simp [hfirst] at h
    | some first =>
      rw [hfirst] at h
      cases index with
      | zero => exact hfirst.trans h
      | succ index => exact ih (fun index => read (index + 1)) index h

private theorem probe_ends (n : Nat) (read : Nat → Option Property) :
    (probe read n).length = n ∨ read (probe read n).length = none := by
  induction n generalizing read with
  | zero => exact .inl rfl
  | succ n ih =>
    rw [probe_succ]
    cases hfirst : read 0 with
    | none => exact .inr hfirst
    | some first => exact (ih fun index => read (index + 1)).imp_left (congrArg (· + 1))

/-- The number of entries, which bounds the probe, never cuts it short. -/
theorem indexedElements_readsTo (h : config.Ordered) (isView : Bool) (key : String) :
    ReadsTo (config.elementAt? isView key) (config.indexedElements isView key) := by
  have hfound := probe_found config.length (config.elementAt? isView key)
  refine ⟨hfound, ?_⟩
  change config.elementAt? isView key (probe _ _).length = none
  rcases probe_ends config.length (config.elementAt? isView key) with hlength | hmissing
  · cases hlast : config.elementAt? isView key (probe _ _).length with
    | none => rfl
    | some last =>
      have hpresent : ∀ index < config.length + 1, (config.elementAt? isView key index).isSome := by
        intro index hi
        rcases Nat.lt_succ_iff_lt_or_eq.mp hi with hlt | rfl
        · rw [hfound index _ (List.getElem?_eq_getElem (hlength.symm ▸ hlt))]
          rfl
        · rw [← hlength, hlast]
          rfl
      exact absurd (le_length_of_present h hpresent) (Nat.not_succ_le_self _)
  · exact hmissing

theorem indexedElements_eq_iff (h : config.Ordered) {isView : Bool} {key : String} {sources : List Property} :
    config.indexedElements isView key = sources ↔ ReadsTo (config.elementAt? isView key) sources := by
  constructor
  · rintro rfl
    exact indexedElements_readsTo h isView key
  · exact (indexedElements_readsTo h isView key).unique

end Properties
end ComponentBinding
