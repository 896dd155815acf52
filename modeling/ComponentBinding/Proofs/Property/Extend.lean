import ComponentBinding.Property.Basic
import Mathlib.Data.List.Sort

/-! Ordered maps are decided by their lookups, and so is what further entries do to them. -/
namespace ComponentBinding.Properties

variable {config : Properties}

theorem lookup_eq_some_iff_mem (h : config.Ordered) {key : String} {value : Property} :
    config.lookup key = some value ↔ (key, value) ∈ config := by
  induction config with
  | nil => simp
  | cons entry config ih =>
    obtain ⟨first, held⟩ := entry
    rw [List.lookup_cons, List.mem_cons]
    cases hk : key == first with
    | true =>
      obtain rfl := eq_of_beq hk
      have hn : (key, value) ∉ config := fun hm => String.lt_irrefl key (List.rel_of_pairwise_cons h hm)
      simp [hn, eq_comm]
    | false =>
      have hne : key ≠ first := ne_of_beq_false hk
      simp [hne, ih h.of_cons]

/-- Ordered maps with the same lookups are the same. -/
theorem Ordered.ext {config' : Properties} (h : config.Ordered) (h' : config'.Ordered)
    (hlookup : ∀ key, config.lookup key = config'.lookup key) : config = config' := by
  have hirrefl : Std.Irrefl fun a b : String × Property => a.1 < b.1 := ⟨fun a => String.lt_irrefl a.1⟩
  have hantisymm : Std.Antisymm fun a b : String × Property => a.1 < b.1 :=
    ⟨fun a b hab hba => absurd hba (String.lt_asymm hab)⟩
  refine h.eq_of_mem_iff h' fun entry => ?_
  obtain ⟨key, value⟩ := entry
  rw [← lookup_eq_some_iff_mem h, ← lookup_eq_some_iff_mem h', hlookup]

/-- Each entry in turn takes its place in the map. -/
def extend (config : Properties) (entries : List (String × Property)) : Properties :=
  entries.foldl (fun config entry => config.insert entry.1 entry.2) config

@[simp] theorem extend_nil : config.extend [] = config := rfl

@[simp] theorem extend_cons (entry : String × Property) (entries : List (String × Property)) :
    config.extend (entry :: entries) = (config.insert entry.1 entry.2).extend entries := rfl

theorem ordered_extend (h : config.Ordered) (entries : List (String × Property)) :
    (config.extend entries).Ordered := by
  induction entries generalizing config with
  | nil => exact h
  | cons entry entries ih => exact ih (ordered_insert h entry.1 entry.2)

theorem lookup_extend_of_absent {entries : List (String × Property)} {key : String}
    (h : ∀ entry ∈ entries, entry.1 ≠ key) : (config.extend entries).lookup key = config.lookup key := by
  induction entries generalizing config with
  | nil => rfl
  | cons entry entries ih =>
    rw [extend_cons, ih fun other ho => h other (List.mem_cons_of_mem _ ho), lookup_insert,
      if_neg (h entry List.mem_cons_self).symm]

/-- An entry is found after the extension if no other value goes to its key. -/
theorem lookup_extend_of_mem {entries : List (String × Property)} {key : String} {value : Property}
    (hm : (key, value) ∈ entries) (h : ∀ entry ∈ entries, entry.1 = key → entry.2 = value) :
    (config.extend entries).lookup key = some value := by
  induction entries generalizing config with
  | nil => cases hm
  | cons entry entries ih =>
    have hrest : ∀ other ∈ entries, other.1 = key → other.2 = value :=
      fun other ho => h other (List.mem_cons_of_mem _ ho)
    by_cases hlater : (key, value) ∈ entries
    · exact ih hlater hrest
    · -- no later entry touches the key, so the first one is what stays
      obtain rfl : (key, value) = entry := (List.mem_cons.mp hm).resolve_right hlater
      rw [extend_cons, lookup_extend_of_absent, lookup_insert, if_pos rfl]
      rintro ⟨key', value'⟩ ho rfl
      exact hlater (hrest _ ho rfl ▸ ho)

/-- At a key that was free the entries alone decide, if they agree on its value. -/
theorem lookup_extend_of_iff {entries : List (String × Property)} {key : String} {found : Option Property}
    (hfree : config.lookup key = none) (hentries : ∀ value, (key, value) ∈ entries ↔ found = some value) :
    (config.extend entries).lookup key = found := by
  cases hfound : found with
  | some value =>
    apply lookup_extend_of_mem ((hentries value).mpr hfound)
    rintro ⟨_, other⟩ hother rfl
    have hsame := (hentries other).mp hother
    exact Option.some.inj (hsame.symm.trans hfound)
  | none =>
    rw [lookup_extend_of_absent, hfree]
    rintro ⟨_, other⟩ hother rfl
    have hsome := (hentries other).mp hother
    rw [hfound] at hsome
    cases hsome

/-- The entry at a key is taken away. -/
def remove (key : String) (config : Properties) : Properties := config.filter fun entry => entry.1 != key

theorem lookup_remove (key other : String) (config : Properties) :
    (remove key config).lookup other = if other = key then none else config.lookup other := by
  induction config with
  | nil => simp [remove]
  | cons entry config ih =>
    rw [remove, List.filter_cons, ← remove]
    by_cases hfirst : entry.1 = key <;> grind

theorem ordered_remove (h : config.Ordered) (key : String) : (remove key config).Ordered :=
  h.sublist List.filter_sublist

/-! A map out of entries with distinct keys holds them all, and in key order each stays where it was. -/

theorem insert_perm {key : String} (h : key ∉ config.map Prod.fst) (value : Property) :
    (config.insert key value).Perm ((key, value) :: config) := by
  fun_induction insert key value config with
  | case1 => exact .refl _
  | case2 => exact .refl _
  | case3 first rest _ same => exact absurd (same ▸ List.mem_cons_self) h
  | case4 first rest _ _ ih =>
    exact ((ih fun hrest => h (List.mem_cons_of_mem _ hrest)).cons first).trans (.swap ..)

theorem extend_perm {entries : List (String × Property)} (h : ((config ++ entries).map Prod.fst).Nodup) :
    (config.extend entries).Perm (config ++ entries) := by
  induction entries generalizing config with
  | nil => rw [extend_nil, List.append_nil]
  | cons entry entries ih =>
    have hfree : entry.1 ∉ config.map Prod.fst := by
      rw [List.map_append, List.map_cons, List.nodup_middle] at h
      exact fun hmem => (List.nodup_cons.mp h).1 (List.mem_append_left _ hmem)
    have hperm : (config.insert entry.1 entry.2 ++ entries).Perm (config ++ entry :: entries) :=
      ((insert_perm hfree entry.2).append_right entries).trans List.perm_middle.symm
    rw [extend_cons]
    exact (ih ((hperm.map Prod.fst).nodup_iff.mpr h)).trans hperm

theorem ofList_perm {entries : List (String × Property)} (h : (entries.map Prod.fst).Nodup) :
    (ofList entries).Perm entries := by
  have hperm : (extend [] entries).Perm ([] ++ entries) := extend_perm h
  exact hperm

theorem ofList_of_ordered (h : config.Ordered) : ofList config = config :=
  Ordered.ext (ordered_ofList config) h fun _ => lookup_extend_of_iff rfl fun _ => (lookup_eq_some_iff_mem h).symm

end ComponentBinding.Properties
