import ComponentBinding.Proofs.Property.Extend

/-! In key order the keys with a common start stand together, so the scan of `Properties.under` misses
none of them. -/
namespace ComponentBinding

theorem Text.after?_append (start rest : String) : after? start (start ++ rest) = some rest :=
  after?_eq_some_iff.mpr rfl

private theorem chars_append_lt_append_iff (start a b : List Char) : start ++ a < start ++ b ↔ a < b := by
  induction start with
  | nil => rfl
  | cons c start ih => rw [List.cons_append, List.cons_append, List.cons_lt_cons_self, ih]

/-- What lies between a start and a longer text has that start. -/
private theorem chars_prefix_of_between {start text rest : List Char} (hl : ¬ text < start)
    (hr : text < start ++ rest) : start <+: text := by
  induction start generalizing text with
  | nil => exact List.nil_prefix
  | cons c start ih =>
    cases text with
    | nil => exact absurd (List.nil_lt_cons c start) hl
    | cons d text =>
      rw [List.cons_append, List.cons_lt_cons_iff] at hr
      rw [List.cons_lt_cons_iff] at hl
      rcases hr with hlt | ⟨rfl, hrest⟩
      · exact absurd (.inl hlt) hl
      · exact (List.prefix_cons_inj d).mpr (ih (fun h => hl (.inr ⟨rfl, h⟩)) hrest)

namespace Text

theorem append_lt_append_iff (start a b : String) : start ++ a < start ++ b ↔ a < b := by
  simp only [String.lt_iff, String.toList_append]
  exact chars_append_lt_append_iff start.toList a.toList b.toList

theorem not_append_lt (start rest : String) : ¬ start ++ rest < start := by
  intro h
  rw [← String.append_empty (s := start), String.append_assoc, append_lt_append_iff, String.empty_append] at h
  exact List.not_lt_nil _ (String.lt_iff.mp h)

theorem after?_isSome_of_between {start text rest : String} (hl : ¬ text < start)
    (hr : text < start ++ rest) : (after? start text).isSome := by
  rw [String.lt_iff, String.toList_append] at hr
  obtain ⟨tail, htail⟩ := chars_prefix_of_between (fun h => hl (String.lt_iff.mpr h)) hr
  have htext : text = start ++ String.ofList tail := by
    rw [← String.toList_inj, String.toList_append, String.toList_ofList, htail]
  rw [htext, after?_append]
  rfl

end Text

namespace Properties

variable {config : Properties}

/-- The part of an entry below a start. -/
def entryAfter? (start : String) (entry : String × Property) : Option (String × Property) :=
  (Text.after? start entry.1).map fun key => (key, entry.2)

theorem entryAfter?_eq_some_iff {start key : String} {entry : String × Property} {value : Property} :
    entryAfter? start entry = some (key, value) ↔ entry = (start ++ key, value) := by
  obtain ⟨full, held⟩ := entry
  simp only [entryAfter?, Option.map_eq_some_iff, Text.after?_eq_some_iff, Prod.mk.injEq]
  constructor
  · rintro ⟨_, rfl, rfl, rfl⟩
    exact ⟨rfl, rfl⟩
  · rintro ⟨rfl, rfl⟩
    exact ⟨key, rfl, rfl, rfl⟩

theorem filterMap_dropWhile_below (start : String) (config : Properties) :
    (config.dropWhile fun entry => decide (entry.1 < start)).filterMap (entryAfter? start) =
      config.filterMap (entryAfter? start) := by
  induction config with
  | nil => rfl
  | cons entry config ih =>
    by_cases hlt : entry.1 < start
    · have hnone : entryAfter? start entry = none := by
        cases ha : entryAfter? start entry with
        | none => rfl
        | some found =>
          rw [entryAfter?_eq_some_iff.mp ha] at hlt
          exact absurd hlt (Text.not_append_lt start found.1)
      rw [List.dropWhile_cons_of_pos (by simpa using hlt), List.filterMap_cons_none hnone, ih]
    · rw [List.dropWhile_cons_of_neg (by simpa using hlt)]

theorem filterMap_takeWhile_start (h : config.Ordered) (start : String)
    (hl : ∀ entry ∈ config, ¬ entry.1 < start) :
    (config.takeWhile fun entry => (Text.after? start entry.1).isSome).filterMap (entryAfter? start) =
      config.filterMap (entryAfter? start) := by
  induction config with
  | nil => rfl
  | cons entry config ih =>
    by_cases hs : (Text.after? start entry.1).isSome = true
    · rw [List.takeWhile_cons, if_pos hs, List.filterMap_cons, List.filterMap_cons,
        ih h.of_cons fun other ho => hl other (List.mem_cons_of_mem _ ho)]
    · rw [List.takeWhile_cons, if_neg hs, List.filterMap_nil]
      -- the scan stops here: a later key with the start would stand after this one
      refine (List.filterMap_eq_nil_iff.mpr fun other ho => ?_).symm
      cases ha : entryAfter? start other with
      | none => rfl
      | some found =>
        have hother := entryAfter?_eq_some_iff.mp ha
        refine absurd ?_ hs
        rcases List.mem_cons.mp ho with rfl | hlater
        · rw [hother, Text.after?_append]
          rfl
        · have hlt : entry.1 < other.1 := List.rel_of_pairwise_cons h hlater
          rw [hother] at hlt
          exact Text.after?_isSome_of_between (hl entry List.mem_cons_self) hlt

theorem not_lt_of_mem_dropWhile (h : config.Ordered) {start : String} {entry : String × Property}
    (hm : entry ∈ config.dropWhile fun entry => decide (entry.1 < start)) : ¬ entry.1 < start := by
  induction config with
  | nil => cases hm
  | cons first config ih =>
    by_cases hlt : first.1 < start
    · rw [List.dropWhile_cons_of_pos (by simpa using hlt)] at hm
      exact ih h.of_cons hm
    · rw [List.dropWhile_cons_of_neg (by simpa using hlt)] at hm
      rcases List.mem_cons.mp hm with rfl | hlater
      · exact hlt
      · exact fun ho => hlt (String.lt_trans (List.rel_of_pairwise_cons h hlater) ho)

/-- The scan finds what a look at every entry would find. -/
theorem under_eq_filterMap (h : config.Ordered) (start : String) :
    config.under start = config.filterMap (entryAfter? start) := by
  have hdropped : Ordered (config.dropWhile fun entry => decide (entry.1 < start)) :=
    h.sublist (List.dropWhile_sublist _)
  rw [← filterMap_dropWhile_below, ← filterMap_takeWhile_start hdropped start fun _ => not_lt_of_mem_dropWhile h]
  rfl

theorem mem_under_iff (h : config.Ordered) {start key : String} {value : Property} :
    (key, value) ∈ config.under start ↔ (start ++ key, value) ∈ config := by
  rw [under_eq_filterMap h, List.mem_filterMap]
  simp only [entryAfter?_eq_some_iff, exists_eq_right]

theorem ordered_under (h : config.Ordered) (start : String) : (config.under start).Ordered := by
  rw [under_eq_filterMap h, Ordered, List.pairwise_filterMap]
  refine h.imp fun hlt a ha b hb => ?_
  rw [entryAfter?_eq_some_iff.mp ha, entryAfter?_eq_some_iff.mp hb] at hlt
  exact (Text.append_lt_append_iff start a.1 b.1).mp hlt

theorem lookup_under (h : config.Ordered) (start key : String) :
    (config.under start).lookup key = config.lookup (start ++ key) := by
  apply Option.ext
  intro value
  rw [lookup_eq_some_iff_mem (ordered_under h start), lookup_eq_some_iff_mem h, mem_under_iff h]

/-- The part below a second start, within the part below a first one, is the part below the two together. -/
theorem under_under (h : config.Ordered) (start next : String) :
    (config.under start).under next = config.under (start ++ next) := by
  have hfirst := ordered_under h start
  apply (ordered_under hfirst next).ext (ordered_under h (start ++ next))
  intro key
  rw [lookup_under hfirst, lookup_under h, lookup_under h, String.append_assoc]

theorem map_entryAfter? (start : String) (entry : String × Property) :
    (entryAfter? start entry).map (fun below => (start ++ below.1, below.2)) =
      Option.guard (fun entry => start.toList.isPrefixOf entry.1.toList) entry := by
  cases ha : entryAfter? start entry with
  | some below =>
    obtain rfl := entryAfter?_eq_some_iff.mp ha
    rw [Option.map_some, eq_comm, Option.guard_eq_some_iff]
    refine ⟨rfl, List.isPrefixOf_iff_prefix.mpr ?_⟩
    rw [String.toList_append]
    exact List.prefix_append _ _
  | none =>
    rw [Option.map_none, eq_comm, Option.guard_eq_none_iff, Bool.eq_false_iff]
    intro hprefix
    obtain ⟨rest, hrest⟩ := List.isPrefixOf_iff_prefix.mp hprefix
    have hentry : entryAfter? start entry = some (String.ofList rest, entry.2) := by
      rw [entryAfter?_eq_some_iff]
      refine Prod.ext ?_ rfl
      rw [← String.toList_inj, String.toList_append, String.toList_ofList, hrest]
    cases ha.symm.trans hentry

/-- With the start put back, the scan gives the entries whose keys have it, in the order that they had. -/
theorem map_under (h : config.Ordered) (start : String) :
    (config.under start).map (fun entry => (start ++ entry.1, entry.2)) =
      config.filter fun entry => start.toList.isPrefixOf entry.1.toList := by
  rw [under_eq_filterMap h, List.map_filterMap, ← List.filterMap_eq_filter]
  exact List.filterMap_congr fun entry _ => map_entryAfter? start entry

end Properties
end ComponentBinding
