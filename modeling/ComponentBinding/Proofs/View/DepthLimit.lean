import ComponentBinding.Proofs.View.Nesting
import ComponentBinding.Proofs.View.Quiet

/-! The limit to nesting. It bounds how deep views nest and changes nothing else: with it a view is what
remains, within so many levels, of the view made without it. A schema whose own views nest no deeper never
meets it. -/
namespace ComponentBinding

/-- What remains of an item if of the views only some are kept, perhaps changed: null is left of the others. -/
def ViewValue.keepItem (keep : View → Option View) : ViewValue → ViewValue
  | .view nested => (keep nested).elim .null .view
  | item => item

/-- What remains of a value. An array stays as long as it is; nothing is left of a view that is not kept. -/
def ViewValue.keepViews (keep : View → Option View) : ViewValue → Option ViewValue
  | .view nested => (keep nested).map .view
  | .array items => some (.array (items.map (ViewValue.keepItem keep)))
  | value => some value

def View.keepViews (keep : View → Option View) (view : View) : View :=
  ⟨view.schemaName, view.members.map fun slot => (slot.1, slot.2.bind (ViewValue.keepViews keep))⟩

/-- What remains of a view within so many levels, of which it takes the first. -/
def View.within? : Nat → View → Option View
  | 0, _ => none
  | levels + 1, view => some (view.keepViews (View.within? levels))

section Keep

variable (keep : View → Option View)

theorem ViewValue.keepItem_elim (made : Option View) :
    ViewValue.keepItem keep (made.elim .null .view) = (made.bind keep).elim .null .view := by
  cases made <;> rfl

theorem ViewValue.bind_keepViews (made : Option View) :
    (made.map ViewValue.view).bind (ViewValue.keepViews keep) = (made.bind keep).map .view := by
  cases made <;> rfl

theorem Kind.Holds.keepViews {kind : Kind} {value : ViewValue} (holds : kind.Holds value)
    (hview : kind.isView = false) : value.keepViews keep = some value := by
  cases holds with
  | view => cases hview
  | _ => rfl

theorem Kind.HoldsElement.keepItem {kind : Kind} {item : ViewValue} (holds : kind.HoldsElement item)
    (hview : kind.isView = false) : item.keepItem keep = item := by
  cases holds with
  | value holds =>
    cases holds with
    | view => cases hview
    | _ => rfl
  | null => rfl

theorem Member.Fills.keepViews {member : Member} {slot : Option ViewValue} (fills : member.Fills slot)
    (hview : member.kind.isView = false) : slot.bind (ViewValue.keepViews keep) = slot := by
  cases fills with
  | single _ holds => exact holds.keepViews keep hview
  | absent | absentArray => rfl
  | @array _ items _ each =>
    have hitems : items.map (ViewValue.keepItem keep) = items := by
      rw [List.map_congr_left fun item hitem => (each item hitem).keepItem keep hview, List.map_id']
    rw [Option.bind_some, ViewValue.keepViews, hitems]

end Keep

namespace Materializer

variable (m : Materializer)

/-- The same way to make views, without a limit to nesting. -/
def unlimited : Materializer := { m with depthLimit := none }

theorem firstCoerced_unlimited (member key : String) (kind : Kind) (sources : List Property) :
    m.unlimited.firstCoerced member key kind sources = m.firstCoerced member key kind sources := by
  induction sources with
  | nil => rfl
  | cons source sources ih =>
    rw [firstCoerced, firstCoerced, ih]
    rfl

theorem memberAt_unlimited {member : Member} (hview : member.kind.isView = false) (depth : Nat) (config : Properties) :
    m.unlimited.memberAt depth config member = m.memberAt depth config member := by
  obtain ⟨name, kind, isArray, default?⟩ := member
  have hkind : kind.isView = false := hview
  cases isArray with
  | false =>
    simp only [memberAt_single, m.scalarOf_of_not_view hkind, m.unlimited.scalarOf_of_not_view hkind, hkind, scalar,
      firstCoerced_unlimited]
    rfl
  | true =>
    simp only [memberAt_many, m.elementOf_of_not_view hkind, m.unlimited.elementOf_of_not_view hkind, hkind]
    rfl

theorem memberAt_view_unlimited {depth : Nat} (config : Properties) {member : Member} {schema : Schema}
    (isView : member.kind = .view schema)
    (h : ∀ entries, m.unlimited.nestedView depth entries schema = m.nestedView depth entries schema) :
    m.unlimited.memberAt depth config member = m.memberAt depth config member := by
  obtain ⟨name, kind, isArray, default?⟩ := member
  obtain rfl : kind = .view schema := isView
  cases isArray with
  | false =>
    simp only [memberAt_single, scalarOf, h]
    rfl
  | true =>
    simp only [memberAt_many, elementOf, h]
    rfl

theorem unlimited_reports : m.unlimited.Reports fun event => ∀ view error, event ≠ .nestedViewDropped view error where
  coercion _ _ _ _ _ := Event.noConfusion
  element _ _ _ _ _ := Event.noConfusion
  drop exceeded := by cases exceeded

/-- The view made at this depth is what remains of the one made without the limit, within the levels left. -/
def Remains (limit depth : Nat) (schema : Schema) : Prop :=
  ∀ config, (m.viewAt depth config schema).value =
    (m.unlimited.viewAt depth config schema).value.keepViews (View.within? (limit - depth))

section Limit

variable {m} {limit : Nat} (limited : m.depthLimit = some limit)
include limited

theorem exceeded?_eq_none_iff {depth : Nat} : m.exceeded? depth = none ↔ depth < limit := by
  simp [exceeded?, limited, Option.filter_eq_none_iff]

theorem inner?_of_remains {depth : Nat} {schema : Schema} (h : depth < limit → m.Remains limit (depth + 1) schema)
    (entries : Properties) :
    (m.unlimited.inner? depth schema entries).bind (View.within? (limit - depth)) = m.inner? depth schema entries := by
  have hfree : m.unlimited.inner? depth schema entries =
      some (m.unlimited.viewAt (depth + 1) entries schema).value := rfl
  rw [hfree, Option.bind_some, inner?]
  by_cases hlt : depth < limit
  · have hlevels : limit - depth = limit - (depth + 1) + 1 := by omega
    rw [if_pos (Option.isNone_iff_eq_none.mpr ((exceeded?_eq_none_iff limited).mpr hlt)), h hlt entries, hlevels]
    rfl
  · have hlevels : limit - depth = 0 := by omega
    rw [if_neg (by rwa [Option.isNone_iff_eq_none, exceeded?_eq_none_iff limited]), hlevels]
    rfl

theorem memberAt_remains {depth : Nat} (config : Properties) {member : Member}
    (h : ∀ schema, member.kind = .view schema → depth < limit → m.Remains limit (depth + 1) schema) :
    (m.memberAt depth config member).value =
      (m.unlimited.memberAt depth config member).value.bind (ViewValue.keepViews (View.within? (limit - depth))) := by
  cases hview : member.kind.isView with
  | false => rw [m.memberAt_unlimited hview, (m.memberAt_fills depth config member).keepViews _ hview]
  | true =>
    cases enabled : m.nestedViews with
    | false =>
      have hoff : ¬m.Makes member.kind := fun made => absurd (made hview) (Bool.eq_false_iff.mp enabled)
      rw [m.memberAt_of_not_makes depth config hoff, m.unlimited.memberAt_of_not_makes depth config hoff]
      rfl
    | true =>
      obtain ⟨schema, isView⟩ := Kind.exists_schema_of_isView hview
      have hinner := inner?_of_remains limited (h schema isView)
      cases hmany : member.isArray with
      | false =>
        rw [m.memberAt_view_value depth config isView enabled hmany,
          m.unlimited.memberAt_view_value depth config isView enabled hmany, ViewValue.bind_keepViews,
          Option.bind_assoc]
        simp only [hinner]
      | true =>
        rw [m.memberAt_views_value depth config isView enabled hmany,
          m.unlimited.memberAt_views_value depth config isView enabled hmany]
        cases config.elements? true member.key member.default? with
        | none => rfl
        | some sources => simp [ViewValue.keepViews, ViewValue.keepItem_elim, hinner]

theorem viewAt_remains (schema : Schema) : ∀ depth, depth ≤ limit → m.Remains limit depth schema := by
  induction schema using Schema.nested_induction with
  | step schema ih =>
    intro depth hdepth config
    rw [viewAt_value, viewAt_value, View.keepViews, List.map_map]
    refine congrArg (View.mk schema.name) (List.map_congr_left fun member declared => ?_)
    have hslot := memberAt_remains limited config fun inner isView hlt =>
      ih member declared inner isView (depth + 1) hlt
    exact congrArg (Prod.mk member.name) hslot

/-! With levels enough for its schema a view is made as without the limit. -/

theorem viewAt_unlimited (schema : Schema) : ∀ depth config, depth + schema.nesting ≤ limit →
    m.unlimited.viewAt depth config schema = m.viewAt depth config schema := by
  induction schema using Schema.nested_induction with
  | step schema ih =>
    intro depth config hlevels
    apply m.viewAt_congr
    intro member declared
    cases hview : member.kind.isView with
    | false => exact m.memberAt_unlimited hview depth config
    | true =>
      obtain ⟨inner, isView⟩ := Kind.exists_schema_of_isView hview
      have hlt : inner.nesting < schema.nesting := Schema.nesting_lt declared isView
      have allowed : m.exceeded? depth = none := (exceeded?_eq_none_iff limited).mpr (by omega)
      apply m.memberAt_view_unlimited config isView
      intro entries
      rw [nestedView_allowed allowed, nestedView_allowed rfl,
        ih member declared inner isView (depth + 1) entries (by omega)]

theorem Includes.depth_le {task sub : ViewTask} (h : m.Includes task sub) (hdepth : task.depth ≤ limit) :
    sub.depth ≤ limit := by
  induction h with
  | self => exact hdepth
  | nested _ _ _ _ allowed => exact (exceeded?_eq_none_iff limited).mp allowed

end Limit

theorem Includes.nesting_le {m : Materializer} {task sub : ViewTask} (h : m.Includes task sub) :
    sub.depth + sub.schema.nesting ≤ task.depth + task.schema.nesting := by
  induction h with
  | self => exact Nat.le_refl _
  | @nested outer member schema entries _ declared isView _ _ _ ih =>
    have hlt : schema.nesting < outer.schema.nesting := Schema.nesting_lt declared isView
    have hstep : outer.depth + 1 + schema.nesting ≤ outer.depth + outer.schema.nesting := by omega
    exact Nat.le_trans hstep ih

theorem null_notMem_memberAt {m : Materializer} {depth : Nat} (allowed : m.exceeded? depth = none) {config : Properties}
    {member : Member} (hview : member.kind.isView = true) {items : List ViewValue}
    (hslot : (m.memberAt depth config member).value = some (.array items)) : .null ∉ items := by
  have enabled : m.nestedViews = true := m.makes_of_memberAt hslot hview
  obtain ⟨schema, isView⟩ := Kind.exists_schema_of_isView hview
  cases hmany : member.isArray with
  | false =>
    rw [m.memberAt_view_value depth config isView enabled hmany] at hslot
    obtain ⟨_, _, hother⟩ := Option.map_eq_some_iff.mp hslot
    cases hother
  | true =>
    rw [m.memberAt_views_value depth config isView enabled hmany] at hslot
    obtain ⟨sources, _, hitems⟩ := Option.map_eq_some_iff.mp hslot
    cases hitems
    rintro hnull
    obtain ⟨source, _, hsource⟩ := List.mem_map.mp hnull
    rw [m.inner?_eq_some_iff.mpr ⟨allowed, rfl⟩] at hsource
    cases hsource

/-- Views nest no deeper than the limit. A schema whose own views nest no deeper is made as without the limit: the same
view and the same log, in which no view is dropped, and no array of views has a null in it. For any schema the view is
the one made without the limit except where a view stands at the limit itself: of those that would nest in it, a single
one is absent and an element of an array null. -/
theorem nesting_limited {limit : Nat} (limited : m.depthLimit = some limit) (schema : Schema) (config : Properties) :
    let run := m.materialize schema config
    let free := m.unlimited.materialize schema config
    (∀ levels inner, run.value.NestsAt levels inner → levels ≤ limit) ∧
    (schema.nesting ≤ limit →
      run = free ∧ (∀ view error, .nestedViewDropped view error ∉ run.events) ∧
      ∀ levels inner, run.value.NestsAt levels inner →
        ∃ task, m.Includes ⟨0, config, schema⟩ task ∧ (m.make task).value = inner ∧
          ∀ (place : Nat) (member : Member) (items : List ViewValue), task.schema.members[place]? = some member →
            member.kind.isView = true → inner.members[place]? = some (member.name, some (.array items)) →
            .null ∉ items) ∧
    run.value = free.value.keepViews (View.within? limit) := by
  intro run free
  refine ⟨fun levels inner nests => ?_, fun hnesting => ?_, viewAt_remains limited schema 0 (Nat.zero_le limit) config⟩
  · obtain ⟨task, included, rfl, _⟩ := Includes.nestsAt_materialize_iff.mp nests
    exact included.depth_le limited (Nat.zero_le limit)
  · have hsame : free = run := by
      have hview := viewAt_unlimited limited schema 0 config (by omega)
      simp only [free, run, materialize, hview]
    refine ⟨hsame.symm, fun view error he => ?_, fun levels inner nests => ?_⟩
    · have hreports := materialize_only m.unlimited_reports schema config fun _ _ => Event.noConfusion
      rw [← hsame] at he
      exact hreports _ he view error rfl
    · obtain ⟨task, included, rfl, rfl⟩ := Includes.nestsAt_materialize_iff.mp nests
      refine ⟨task, included, rfl, fun place member items declared hview hslot => ?_⟩
      rw [make, m.viewAt_slot _ _ declared] at hslot
      obtain ⟨inner, isView⟩ := Kind.exists_schema_of_isView hview
      have hlt : inner.nesting < task.schema.nesting := Schema.nesting_lt (List.mem_of_getElem? declared) isView
      have hle : task.depth + task.schema.nesting ≤ 0 + schema.nesting := included.nesting_le
      have allowed : m.exceeded? task.depth = none := (exceeded?_eq_none_iff limited).mpr (by omega)
      exact null_notMem_memberAt allowed hview (Prod.mk.inj (Option.some.inj hslot)).2

/-- A chain of as many views as the limit lets nest, and one of one more, whose last view is absent. -/
theorem nesting_limited_chain :
    let m : Materializer := { resolver := .known [] }
    let nested : Nat → Schema := fun levels =>
      Nat.repeat (fun inner => ⟨"V", [⟨"v", .view inner, false, none⟩]⟩) levels ⟨"V", []⟩
    let config : Properties := Nat.repeat (fun entries => [("v", .map entries)]) 65 []
    m.depthLimit = some 64 ∧ (nested 64).nesting ≤ 64 ∧
    m.materialize (nested 64) config = m.unlimited.materialize (nested 64) config ∧
    (nested 65).nesting = 65 ∧
    (m.materialize (nested 65) config).value =
      (m.unlimited.materialize (nested 65) config).value.keepViews (View.within? 64) ∧
    (m.materialize (nested 65) config).value.text =
      Nat.repeat (fun text => "V\x7bv=" ++ text ++ "\x7d") 64 "V\x7bv=<absent>\x7d" := by
  intro m nested config
  have limited : m.depthLimit = some 64 := rfl
  have hnesting : (nested 64).nesting ≤ 64 := by decide +kernel
  exact ⟨limited, hnesting, ((m.nesting_limited limited (nested 64) config).2.1 hnesting).1, by decide +kernel,
    (m.nesting_limited limited (nested 65) config).2.2, by decide +kernel⟩

end Materializer
end ComponentBinding
