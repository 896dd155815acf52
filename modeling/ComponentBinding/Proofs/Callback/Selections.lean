import ComponentBinding.Callback.Shape
import Mathlib.Algebra.BigOperators.Intervals
import Mathlib.Data.List.Nodup
import Mathlib.Data.List.Perm.Subperm
import Mathlib.Data.Nat.Factorial.Basic

/-! Which selections are made from a list of elements: two or more distinct ones in every order, the shorter first, and
none of them twice if the list has no element twice. A lifecycle shape offers single parameters, then selections, then
no parameter at all, so it offers a signature twice only if two of its views share their name. -/
namespace ComponentBinding

/-- Distinct elements of a list, in any order. -/
structure SelectedFrom {α : Type} (elements selection : List α) : Prop where
  nodup : selection.Nodup
  subset : selection ⊆ elements

section

variable {α : Type} {elements selection : List α}

theorem SelectedFrom.length_le (h : SelectedFrom elements selection) : selection.length ≤ elements.length :=
  (List.subperm_of_subset h.nodup h.subset).length_le

theorem selectedFrom_singleton_iff {element : α} : SelectedFrom elements [element] ↔ element ∈ elements := by
  constructor
  · intro h
    exact h.subset List.mem_cons_self
  · intro h
    exact ⟨List.nodup_singleton _, List.cons_subset.mpr ⟨h, List.nil_subset _⟩⟩

theorem selectedFrom_concat_iff {element : α} : SelectedFrom elements (selection ++ [element]) ↔
    SelectedFrom elements selection ∧ element ∈ elements ∧ element ∉ selection := by
  constructor
  · rintro ⟨hnodup, hsubset⟩
    obtain ⟨hshorter, hlast⟩ := List.append_subset.mp hsubset
    obtain ⟨hnew, hnodup⟩ := (List.nodup_concat selection element).mp (List.concat_eq_append ▸ hnodup)
    exact ⟨⟨hnodup, hshorter⟩, hlast List.mem_cons_self, hnew⟩
  · rintro ⟨h, he, hnew⟩
    refine ⟨?_, List.append_subset.mpr ⟨h.subset, List.cons_subset.mpr ⟨he, List.nil_subset _⟩⟩⟩
    rw [← List.concat_eq_append]
    exact h.nodup.concat hnew

/-- The layer of the selections of one size. -/
def IsLayer (elements : List α) (size : Nat) (layer : List (List α)) : Prop :=
  ∀ selection, selection ∈ layer ↔ SelectedFrom elements selection ∧ selection.length = size

theorem isLayer_singletons (elements : List α) : IsLayer elements 1 (elements.map fun element => [element]) := by
  intro selection
  rw [List.mem_map]
  constructor
  · rintro ⟨element, he, rfl⟩
    exact ⟨selectedFrom_singleton_iff.mpr he, rfl⟩
  · rintro ⟨h, hone⟩
    obtain ⟨element, rfl⟩ := List.length_eq_one_iff.mp hone
    exact ⟨element, selectedFrom_singleton_iff.mp h, rfl⟩

/-! One layer from the layer before -/

variable [BEq α] {layer : List (List α)} {size layers : Nat}

/-- Different selections stay different when they are extended, and one is extended by different elements. -/
theorem nodup_extendSelections (distinct : elements.Nodup) (h : layer.Nodup) :
    (extendSelections elements layer).Nodup := by
  rw [extendSelections, List.nodup_flatMap]
  constructor
  · intro shorter _
    exact (distinct.filter _).map fun _ _ hsame => List.singleton_inj.mp (List.append_cancel_left hsame)
  · refine h.imp fun hne => List.disjoint_left.mpr fun longer hleft hright => hne ?_
    obtain ⟨_, _, rfl⟩ := List.mem_map.mp hleft
    obtain ⟨_, _, hsame⟩ := List.mem_map.mp hright
    exact (List.append_inj_left' hsame rfl).symm

variable [LawfulBEq α]

theorem mem_extendSelections_iff : selection ∈ extendSelections elements layer ↔
    ∃ shorter ∈ layer, ∃ element ∈ elements, element ∉ shorter ∧ selection = shorter ++ [element] := by
  rw [extendSelections, List.mem_flatMap]
  constructor
  · rintro ⟨shorter, hs, hm⟩
    obtain ⟨element, he, rfl⟩ := List.mem_map.mp hm
    obtain ⟨he, hnew⟩ := List.mem_filter.mp he
    exact ⟨shorter, hs, element, he, by simpa using hnew, rfl⟩
  · rintro ⟨shorter, hs, element, he, hnew, rfl⟩
    exact ⟨shorter, hs, List.mem_map.mpr ⟨element, List.mem_filter.mpr ⟨he, by simpa using hnew⟩, rfl⟩⟩

theorem IsLayer.extend (h : IsLayer elements size layer) :
    IsLayer elements (size + 1) (extendSelections elements layer) := by
  intro selection
  rw [mem_extendSelections_iff]
  constructor
  · rintro ⟨shorter, hs, element, he, hnew, rfl⟩
    obtain ⟨hselected, hsize⟩ := (h shorter).mp hs
    refine ⟨selectedFrom_concat_iff.mpr ⟨hselected, he, hnew⟩, ?_⟩
    rw [List.length_append, hsize, List.length_singleton]
  · rintro ⟨hselected, hsize⟩
    rcases List.eq_nil_or_concat' selection with rfl | ⟨shorter, element, rfl⟩
    · cases hsize
    · obtain ⟨hshorter, he, hnew⟩ := selectedFrom_concat_iff.mp hselected
      rw [List.length_append, List.length_singleton] at hsize
      exact ⟨shorter, (h shorter).mpr ⟨hshorter, Nat.succ.inj hsize⟩, element, he, hnew, rfl⟩

/-- All elements but those of a selection can follow it. -/
theorem length_filter_unselected (distinct : elements.Nodup) (h : SelectedFrom elements selection) :
    (elements.filter fun element => !selection.contains element).length = elements.length - selection.length := by
  have hperm : (elements.filter fun element => selection.contains element).Perm selection := by
    refine (List.perm_ext_iff_of_nodup (distinct.filter _) h.nodup).mpr fun element => ?_
    rw [List.mem_filter, List.contains_iff_mem]
    exact ⟨And.right, fun hm => ⟨h.subset hm, hm⟩⟩
  have htotal := List.length_eq_length_filter_add (l := elements) fun element => selection.contains element
  rw [hperm.length_eq] at htotal
  exact Nat.eq_sub_of_add_eq' htotal.symm

theorem length_extendSelections (distinct : elements.Nodup) (h : IsLayer elements size layer) :
    (extendSelections elements layer).length = layer.length * (elements.length - size) := by
  rw [extendSelections, List.length_flatMap, ← List.sum_replicate_nat, ← List.map_const']
  refine congrArg List.sum (List.map_congr_left fun shorter hs => ?_)
  obtain ⟨hselected, hsize⟩ := (h shorter).mp hs
  rw [List.length_map, length_filter_unselected distinct hselected, hsize]

/-! All the layers that follow one -/

theorem mem_longerSelections_iff (h : IsLayer elements size layer) :
    selection ∈ longerSelections elements layers layer ↔
      SelectedFrom elements selection ∧ size < selection.length ∧ selection.length ≤ size + layers := by
  induction layers generalizing size layer with
  | zero =>
    refine iff_of_false List.not_mem_nil ?_
    rintro ⟨_, hlt, hle⟩
    exact Nat.not_le_of_lt hlt hle
  | succ layers ih =>
    rw [longerSelections, List.mem_append, ih h.extend, h.extend selection]
    constructor
    · rintro (⟨hs, hsize⟩ | ⟨hs, hlt, hle⟩)
      · exact ⟨hs, by omega, by omega⟩
      · exact ⟨hs, by omega, by omega⟩
    · rintro ⟨hs, hlt, hle⟩
      rcases Nat.eq_or_lt_of_le hlt with hsize | hlt
      · exact .inl ⟨hs, hsize.symm⟩
      · exact .inr ⟨hs, hlt, by omega⟩

theorem nodup_longerSelections (distinct : elements.Nodup) (h : IsLayer elements size layer) (hlayer : layer.Nodup) :
    (longerSelections elements layers layer).Nodup := by
  induction layers generalizing size layer with
  | zero => exact List.nodup_nil
  | succ layers ih =>
    have hnext := nodup_extendSelections distinct hlayer
    refine List.nodup_append.mpr ⟨hnext, ih h.extend hnext, ?_⟩
    rintro shorter hs longer hl rfl
    -- those of the later layers are longer
    obtain ⟨_, hsize⟩ := (h.extend shorter).mp hs
    obtain ⟨_, hlt, _⟩ := (mem_longerSelections_iff h.extend).mp hl
    exact Nat.ne_of_lt hlt hsize.symm

theorem pairwise_longerSelections (h : IsLayer elements size layer) :
    (longerSelections elements layers layer).Pairwise fun a b => a.length ≤ b.length := by
  induction layers generalizing size layer with
  | zero => exact .nil
  | succ layers ih =>
    refine List.pairwise_append.mpr ⟨?_, ih h.extend, fun a ha b hb => ?_⟩
    · refine List.pairwise_of_forall_mem_list fun a ha b hb => ?_
      rw [((h.extend a).mp ha).2, ((h.extend b).mp hb).2]
    · obtain ⟨_, hlt, _⟩ := (mem_longerSelections_iff h.extend).mp hb
      rw [((h.extend a).mp ha).2]
      exact Nat.le_of_lt hlt

theorem length_longerSelections (distinct : elements.Nodup) (h : IsLayer elements size layer)
    (hcount : layer.length = elements.length.descFactorial size) :
    (longerSelections elements layers layer).length =
      ∑ more ∈ Finset.range layers, elements.length.descFactorial (size + 1 + more) := by
  induction layers generalizing size layer with
  | zero => rfl
  | succ layers ih =>
    have hnext : (extendSelections elements layer).length = elements.length.descFactorial (size + 1) := by
      rw [length_extendSelections distinct h, hcount, Nat.descFactorial_succ, Nat.mul_comm]
    have hshift (more : Nat) : size + 1 + 1 + more = size + 1 + (more + 1) := by omega
    rw [longerSelections, List.length_append, hnext, ih h.extend hnext, Finset.sum_range_succ', Nat.add_comm]
    simp only [hshift, Nat.add_zero]

/-! Selections of two or more -/

theorem mem_selections_iff :
    selection ∈ selections elements ↔ SelectedFrom elements selection ∧ 2 ≤ selection.length := by
  rw [selections, mem_longerSelections_iff (isLayer_singletons elements)]
  refine and_congr_right fun h => and_iff_left_of_imp fun htwo => ?_
  have hle := h.length_le
  omega

theorem nodup_selections (distinct : elements.Nodup) : (selections elements).Nodup :=
  nodup_longerSelections distinct (isLayer_singletons elements) (distinct.map List.singleton_injective)

theorem length_selections (distinct : elements.Nodup) : (selections elements).length =
    ∑ size ∈ Finset.Icc 2 elements.length, elements.length.factorial / (elements.length - size).factorial := by
  have hcount : (elements.map fun element => [element]).length = elements.length.descFactorial 1 := by
    rw [List.length_map, Nat.descFactorial_one]
  rw [selections, length_longerSelections distinct (isLayer_singletons elements) hcount]
  calc ∑ more ∈ Finset.range (elements.length - 1), elements.length.descFactorial (1 + 1 + more)
      = ∑ size ∈ Finset.Ico 2 (elements.length + 1), elements.length.descFactorial size := by
        rw [Finset.sum_Ico_eq_sum_range]
        rfl
    _ = ∑ size ∈ Finset.Icc 2 elements.length,
          elements.length.factorial / (elements.length - size).factorial := by
        rw [Finset.Ico_add_one_right_eq_Icc]
        refine Finset.sum_congr rfl fun size hsize => ?_
        exact Nat.descFactorial_eq_div (Finset.mem_Icc.mp hsize).2

end

namespace LifecycleShape

variable {shape : LifecycleShape} {gate : Gate}

/-- The parameters that a relaxed gate offers alone. -/
def alone (shape : LifecycleShape) : List Parameter :=
  [.componentContext, .bundleContext, .propertyMap] ++ shape.views.map (fun schema => .view schema.name) ++
    if shape.phase = .deactivate then [.int] else []

theorem candidates_of_relaxed (h : gate.relaxedVisibility = true) : shape.candidates gate =
    (shape.alone.map fun parameter => [parameter]) ++ selections shape.combinable ++ [[]] := by
  rw [candidates, if_pos h, alone]
  by_cases hphase : shape.phase = .deactivate <;> simp [hphase]

theorem nodup_combinable (shape : LifecycleShape) : shape.combinable.Nodup := by
  rw [combinable]
  split <;> decide

/-- Only views can be alike among the parameters that are offered alone. -/
theorem nodup_alone_iff : shape.alone.Nodup ↔ (shape.views.map Schema.name).Nodup := by
  have hviews : (shape.views.map fun schema => Parameter.view schema.name).Nodup ↔
      (shape.views.map Schema.name).Nodup := by
    rw [← List.nodup_map_iff (f := Parameter.view) fun _ _ h => Parameter.view.inj h, List.map_map]
    rfl
  rw [alone, ← hviews]
  split <;> simp [List.nodup_append]

/-- The empty signature is none of those before the last. -/
theorem nil_notMem_offered (shape : LifecycleShape) :
    [] ∉ (shape.alone.map fun parameter => [parameter]) ++ selections shape.combinable := by
  intro hm
  rcases List.mem_append.mp hm with hm | hm
  · obtain ⟨_, _, hnil⟩ := List.mem_map.mp hm
    cases hnil
  · have htwo := (mem_selections_iff.mp hm).2
    cases htwo

theorem nodup_candidates_iff (h : gate.relaxedVisibility = true) :
    (shape.candidates gate).Nodup ↔ (shape.views.map Schema.name).Nodup := by
  have hsingle : (shape.alone.map fun parameter => [parameter]).Nodup ↔ (shape.views.map Schema.name).Nodup :=
    (List.nodup_map_iff List.singleton_injective).trans nodup_alone_iff
  rw [candidates_of_relaxed h]
  constructor
  · intro hall
    exact hsingle.mp hall.of_append_left.of_append_left
  · intro hnames
    have hselections := nodup_selections shape.nodup_combinable
    refine List.nodup_append.mpr ⟨List.nodup_append.mpr ⟨hsingle.mpr hnames, hselections, ?_⟩,
      List.nodup_singleton _, ?_⟩
    · rintro signature hone selected hm rfl
      obtain ⟨_, _, rfl⟩ := List.mem_map.mp hone
      exact Nat.not_succ_le_self 1 (mem_selections_iff.mp hm).2
    · rintro signature hm empty hempty rfl
      obtain rfl := List.mem_singleton.mp hempty
      exact shape.nil_notMem_offered hm

end LifecycleShape

/-- From distinct parameters every selection of two or more of them is made once, the shorter ones first, and nothing
else. Under a relaxed gate a lifecycle shape offers what it offers under a strict one and more, ends with the empty
signature and has it nowhere else, and offers no signature twice exactly if no two of its views share their name. -/
theorem candidates_offered_once :
    (∀ elements : List Parameter, elements.Nodup →
      (selections elements).Nodup ∧
      (∀ selection, selection ∈ selections elements ↔
        SelectedFrom elements selection ∧ 2 ≤ selection.length ∧ selection.length ≤ elements.length) ∧
      (selections elements).Pairwise (fun a b => a.length ≤ b.length) ∧
      (selections elements).length =
        ∑ size ∈ Finset.Icc 2 elements.length, elements.length.factorial / (elements.length - size).factorial ∧
      (elements.length ≤ 1 → selections elements = [])) ∧
    ∀ (shape : LifecycleShape) (strict relaxed : Gate),
      strict.relaxedVisibility = false → relaxed.relaxedVisibility = true →
      ((shape.candidates relaxed).Nodup ↔ (shape.views.map Schema.name).Nodup) ∧
      shape.candidates strict <+: shape.candidates relaxed ∧
      ∃ others, shape.candidates relaxed = others ++ [[]] ∧ [] ∉ others := by
  refine ⟨fun elements distinct => ⟨nodup_selections distinct, fun selection => ?_, ?_, length_selections distinct, ?_⟩,
    fun shape strict relaxed hstrict hrelaxed => ⟨shape.nodup_candidates_iff hrelaxed, ?_, ?_⟩⟩
  · rw [mem_selections_iff]
    exact and_congr_right fun h => (and_iff_left h.length_le).symm
  · exact pairwise_longerSelections (isLayer_singletons elements)
  · intro hfew
    refine List.eq_nil_iff_forall_not_mem.mpr fun selection hm => ?_
    obtain ⟨h, htwo⟩ := mem_selections_iff.mp hm
    exact absurd (htwo.trans (h.length_le.trans hfew)) (by decide)
  · rw [LifecycleShape.candidates, LifecycleShape.candidates, hstrict, hrelaxed]
    exact List.prefix_append [[Parameter.componentContext]] _
  · exact ⟨_, LifecycleShape.candidates_of_relaxed hrelaxed, shape.nil_notMem_offered⟩

/-- Four parameters that may stand together have sixty selections; next to them two views stand alone. -/
theorem candidates_offered_once_deactivate :
    let shape : LifecycleShape := { phase := .deactivate, views := [⟨"Config", []⟩, ⟨"Pool", []⟩] }
    let relaxed : Gate := ⟨true, false⟩
    shape.combinable.Nodup ∧ (selections shape.combinable).length = 60 ∧
    relaxed.relaxedVisibility = true ∧ (shape.views.map Schema.name).Nodup ∧ (shape.candidates relaxed).Nodup := by
  intro shape relaxed
  have distinct := shape.nodup_combinable
  have named : (shape.views.map Schema.name).Nodup := by decide
  obtain ⟨hselections, hcandidates⟩ := candidates_offered_once
  refine ⟨distinct, ?_, rfl, named, (hcandidates shape ⟨false, false⟩ relaxed rfl rfl).1.mpr named⟩
  have hfour : shape.combinable.length = 4 := rfl
  rw [(hselections shape.combinable distinct).2.2.2.1, hfour]
  decide

end ComponentBinding
