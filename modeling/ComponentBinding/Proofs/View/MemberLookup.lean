import ComponentBinding.Proofs.View.Nesting

/-! Looking up members by name. A schema is built of members whose names are not empty and all different, so a
name leads to the slot of its own member, in whatever order the members are declared. The same holds in
every view that nests in a view of the schema. -/
namespace ComponentBinding

namespace Schema

/-- The member at a place has no name, or that of an earlier one. -/
def FaultAt (members : List Member) (place : Nat) : Prop :=
  ∃ member, members[place]? = some member ∧
    (member.name = "" ∨ member.name ∈ (members.take place).map Member.name)

variable {name : String} {members : List Member}

theorem fault?_eq_none_iff (earlier : List String) : fault? name earlier members = none ↔
    (∀ member ∈ members, member.name ≠ "") ∧ (members.map Member.name).Nodup ∧
      ∀ member ∈ members, member.name ∉ earlier := by
  induction members generalizing earlier with
  | nil => simp [fault?]
  | cons first members ih =>
    rw [fault?]
    by_cases hempty : first.name = ""
    · simp [hempty]
    by_cases hearlier : first.name ∈ earlier
    · simp [hempty, hearlier]
    rw [if_neg hempty, if_neg hearlier, ih, List.map_cons, List.nodup_cons]
    constructor
    · rintro ⟨hnames, hnodup, hfresh⟩
      refine ⟨List.forall_mem_cons.mpr ⟨hempty, hnames⟩, ⟨fun hmem => ?_, hnodup⟩,
        List.forall_mem_cons.mpr ⟨hearlier, fun member hm hmem => hfresh member hm (List.mem_cons_of_mem _ hmem)⟩⟩
      obtain ⟨member, hm, hname⟩ := List.mem_map.mp hmem
      exact hfresh member hm (hname ▸ List.mem_cons_self)
    · rintro ⟨hnames, ⟨hfirst, hnodup⟩, hfresh⟩
      refine ⟨(List.forall_mem_cons.mp hnames).2, hnodup, fun member hm hmem => ?_⟩
      rcases List.mem_cons.mp hmem with hname | hmem
      · exact hfirst (hname ▸ List.mem_map_of_mem hm)
      · exact hfresh member (List.mem_cons_of_mem _ hm) hmem

theorem fault?_append (before : List Member) (earlier : List String) :
    fault? name earlier (before ++ members) =
      (fault? name earlier before).or (fault? name ((before.map Member.name).reverse ++ earlier) members) := by
  induction before generalizing earlier with
  | nil => rfl
  | cons first before ih =>
    rw [List.cons_append, fault?, fault?, List.map_cons, List.reverse_cons, List.append_assoc]
    split
    · rfl
    split
    · rfl
    · exact ih _

theorem build_eq_ok_iff {schema : Schema} : build name members = .ok schema ↔
    (∀ member ∈ members, member.name ≠ "") ∧ (members.map Member.name).Nodup ∧ schema = ⟨name, members⟩ := by
  rw [build]
  cases hresult : fault? name [] members with
  | none =>
    obtain ⟨hnames, hnodup, _⟩ := (fault?_eq_none_iff []).mp hresult
    constructor
    · intro h
      exact ⟨hnames, hnodup, (Except.ok.inj h).symm⟩
    · rintro ⟨_, _, rfl⟩
      rfl
  | some error =>
    refine iff_of_false (fun h => by cases h) ?_
    rintro ⟨hnames, hnodup, _⟩
    rw [(fault?_eq_none_iff []).mpr ⟨hnames, hnodup, by simp⟩] at hresult
    cases hresult

/-- Up to the first fault the names are there and all different. -/
theorem distinct_of_faultless {count : Nat} (h : ∀ place < count, ¬FaultAt members place) :
    (∀ member ∈ members.take count, member.name ≠ "") ∧ ((members.take count).map Member.name).Nodup := by
  induction count with
  | zero => simp
  | succ count ih =>
    obtain ⟨hnames, hnodup⟩ := ih fun place hp => h place (Nat.lt_succ_of_lt hp)
    rw [List.take_add_one]
    cases hlast : members[count]? with
    | none => exact ⟨by simpa using hnames, by simpa using hnodup⟩
    | some last =>
      have hfree : last.name ≠ "" ∧ last.name ∉ (members.take count).map Member.name := by
        refine not_or.mp fun hfault => h count (Nat.lt_succ_self count) ⟨last, hlast, hfault⟩
      refine ⟨?_, ?_⟩
      · simpa [or_imp, forall_and] using ⟨hnames, hfree.1⟩
      · rw [Option.toList_some, List.map_append, List.map_singleton, List.nodup_append]
        refine ⟨hnodup, List.nodup_singleton _, fun earlier he found hfound hsame => ?_⟩
        rw [List.mem_singleton.mp hfound] at hsame
        exact hfree.2 (hsame ▸ he)

/-- The scan stops at the first fault and reports it. -/
theorem fault?_of_first {place : Nat} (first : IsLeast {place | FaultAt members place} place) {member : Member}
    (hplace : members[place]? = some member) :
    fault? name [] members =
      some (if member.name = "" then .emptyMemberName name else .duplicateMember name member.name) := by
  have hbefore : fault? name [] (members.take place) = none := by
    obtain ⟨hnames, hnodup⟩ := distinct_of_faultless fun earlier he hfault => Nat.not_le_of_lt he (first.2 hfault)
    exact (fault?_eq_none_iff []).mpr ⟨hnames, hnodup, by simp⟩
  have hsplit : members = members.take place ++ member :: members.drop (place + 1) := by
    obtain ⟨hlt, rfl⟩ := List.getElem?_eq_some_iff.mp hplace
    rw [← List.drop_eq_getElem_cons hlt, List.take_append_drop]
  obtain ⟨found, hfound, hfault⟩ := first.1
  obtain rfl := Option.some.inj (hplace.symm.trans hfound)
  rw [hsplit, fault?_append, hbefore, Option.none_or, fault?, List.append_nil]
  by_cases hempty : member.name = ""
  · rw [if_pos hempty, if_pos hempty]
  · rw [if_neg hempty, if_neg hempty, if_pos (List.mem_reverse.mpr (hfault.resolve_left hempty))]

theorem build_eq_error_iff {error : SchemaError} : build name members = .error error ↔
    ∃ place member, IsLeast {place | FaultAt members place} place ∧ members[place]? = some member ∧
      error = if member.name = "" then .emptyMemberName name else .duplicateMember name member.name := by
  have hbuild : build name members = .error error ↔ fault? name [] members = some error := by
    rw [build]
    cases fault? name [] members <;> simp
  rw [hbuild]
  constructor
  · intro hfault
    have hexists : ∃ place, FaultAt members place := by
      by_contra hnone
      have hfaultless : ∀ place < members.length, ¬FaultAt members place := fun place _ h => hnone ⟨place, h⟩
      obtain ⟨hnames, hnodup⟩ := distinct_of_faultless hfaultless
      rw [List.take_length] at hnames hnodup
      rw [(fault?_eq_none_iff []).mpr ⟨hnames, hnodup, by simp⟩] at hfault
      cases hfault
    classical
    have first : IsLeast {place | FaultAt members place} (Nat.find hexists) :=
      ⟨Nat.find_spec hexists, fun place hp => Nat.find_min' hexists hp⟩
    obtain ⟨member, hmember, _⟩ := first.1
    refine ⟨_, member, first, hmember, ?_⟩
    rw [fault?_of_first first hmember] at hfault
    exact (Option.some.inj hfault).symm
  · rintro ⟨place, member, first, hmember, rfl⟩
    exact fault?_of_first first hmember

theorem member?_eq_none_iff {schema : Schema} :
    schema.member? name = none ↔ ∀ member ∈ schema.members, member.name ≠ name := by
  simp [member?, List.find?_eq_none]

/-- Where names are all different, a name finds the one member of that name. -/
theorem member?_eq_some_iff {schema : Schema} (distinct : (schema.members.map Member.name).Nodup) {member : Member} :
    schema.member? name = some member ↔ member ∈ schema.members ∧ member.name = name := by
  constructor
  · intro hfound
    exact ⟨List.mem_of_find?_eq_some hfound, by simpa using List.find?_some hfound⟩
  · rintro ⟨declared, rfl⟩
    have hsome : schema.member? member.name ≠ none := fun hnone => member?_eq_none_iff.mp hnone member declared rfl
    obtain ⟨found, hfound⟩ := Option.ne_none_iff_exists'.mp hsome
    have hname : found.name = member.name := by simpa using List.find?_some hfound
    obtain rfl := List.inj_on_of_nodup_map distinct (List.mem_of_find?_eq_some hfound) declared hname
    exact hfound

/-- A schema from the builder, all of whose views have schemas from the builder. -/
inductive Built : Schema → Prop where
  | intro {schema : Schema} (built : build schema.name schema.members = .ok schema)
    (nested : ∀ member ∈ schema.members, ∀ inner, member.kind = .view inner → Built inner) : Built schema

theorem Built.distinct {schema : Schema} (h : schema.Built) :
    (∀ member ∈ schema.members, member.name ≠ "") ∧ (schema.members.map Member.name).Nodup := by
  cases h with
  | intro built =>
    obtain ⟨hnames, hnodup, _⟩ := build_eq_ok_iff.mp built
    exact ⟨hnames, hnodup⟩

theorem Built.nested {schema inner : Schema} (h : schema.Built) {member : Member} (declared : member ∈ schema.members)
    (isView : member.kind = .view inner) : inner.Built := by
  cases h with
  | intro _ nested => exact nested member declared inner isView

/-- The order of the members does not matter to the builder, nor to finding one by its name. -/
theorem build_perm {schema : Schema} (h : schema.Built) {members : List Member} (perm : members.Perm schema.members) :
    build schema.name members = .ok ⟨schema.name, members⟩ ∧
      ∀ name, member? ⟨schema.name, members⟩ name = schema.member? name := by
  obtain ⟨hnames, hnodup⟩ := h.distinct
  have hnodup' : (members.map Member.name).Nodup := (perm.map Member.name).nodup_iff.mpr hnodup
  refine ⟨build_eq_ok_iff.mpr ⟨fun member hm => hnames member (perm.mem_iff.mp hm), hnodup', rfl⟩, fun name => ?_⟩
  ext member
  rw [member?_eq_some_iff hnodup', member?_eq_some_iff hnodup, perm.mem_iff]

end Schema

/-- What a look-up makes of the slot that it finds. -/
def Lookup.ofSlot (slot : Option ViewValue) : Lookup := slot.elim .absent .value

theorem Lookup.ofSlot_eq_value_iff {slot : Option ViewValue} {value : ViewValue} :
    ofSlot slot = .value value ↔ slot = some value := by
  cases slot <;> simp [ofSlot]

theorem Lookup.ofSlot_eq_absent_iff {slot : Option ViewValue} : ofSlot slot = .absent ↔ slot = none := by
  cases slot <;> simp [ofSlot]

theorem Lookup.ofSlot_ne_unknown (slot : Option ViewValue) : ofSlot slot ≠ .unknown := by
  cases slot <;> simp [ofSlot]

namespace Materializer

theorem lookup_viewAt (m : Materializer) (depth : Nat) (config : Properties) (schema : Schema) (name : String) :
    (m.viewAt depth config schema).value.lookup name =
      (schema.member? name).elim .unknown fun member => .ofSlot (m.memberAt depth config member).value := by
  obtain ⟨schemaName, members⟩ := schema
  rw [View.lookup, viewAt_value, Schema.member?]
  simp only
  induction members with
  | nil => rfl
  | cons first members ih =>
    rw [List.map_cons, List.lookup_cons, List.find?_cons]
    by_cases hname : first.name = name
    · simp only [hname, beq_self_eq_true, decide_true, Option.elim_some]
      cases (m.memberAt depth config first).value <;> rfl
    · have hne : (name == first.name) = false := beq_false_of_ne (Ne.symm hname)
      simp only [hne, decide_eq_false hname]
      exact ih

theorem Includes.built {m : Materializer} {task sub : ViewTask} (h : m.Includes task sub) (built : task.schema.Built) :
    sub.schema.Built := by
  induction h with
  | self => exact built
  | nested _ declared isView _ _ _ ih => exact ih.nested declared isView

/-- A schema can be built exactly if its members have names, no two the same; it then keeps them in order, and else the
first member at fault is reported. In a view of a built schema and in every view that nests in it, a name is unknown
exactly if it is not declared, and leads a declared member to its own value or absence. The members may be declared in
any order: the schema is built all the same, and every look-up has the same answer. -/
theorem built_lookup :
    (∀ name members schema, Schema.build name members = .ok schema ↔
      (∀ member ∈ members, member.name ≠ "") ∧ (members.map Member.name).Nodup ∧ schema = ⟨name, members⟩) ∧
    (∀ name members error, Schema.build name members = .error error ↔
      ∃ place member, IsLeast {place | Schema.FaultAt members place} place ∧ members[place]? = some member ∧
        error = if member.name = "" then .emptyMemberName name else .duplicateMember name member.name) ∧
    ∀ (m : Materializer) (schema : Schema) (config : Properties), schema.Built →
      let run := m.materialize schema config
      (∀ view, run.value.Contains view → ∃ task, m.Includes ⟨0, config, schema⟩ task ∧ (m.make task).value = view) ∧
      ∀ task, m.Includes ⟨0, config, schema⟩ task →
        let view := (m.make task).value
        run.value.Contains view ∧
        (∀ name, view.lookup name = .unknown ↔ ∀ member ∈ task.schema.members, member.name ≠ name) ∧
        (∀ member ∈ task.schema.members,
          let slot := (m.memberAt task.depth task.config member).value
          (∀ value, view.lookup member.name = .value value ↔ slot = some value) ∧
          (view.lookup member.name = .absent ↔ slot = none)) ∧
        ∀ reordered, reordered.Perm task.schema.members →
          Schema.build task.schema.name reordered = .ok ⟨task.schema.name, reordered⟩ ∧
          ∀ name,
            (m.viewAt task.depth task.config ⟨task.schema.name, reordered⟩).value.lookup name = view.lookup name := by
  refine ⟨fun _ _ _ => Schema.build_eq_ok_iff, fun _ _ _ => Schema.build_eq_error_iff,
    fun m schema config built => ?_⟩
  intro run
  refine ⟨fun view contained => ?_, fun task included =>
    ⟨included.contains, fun name => ?_, fun member declared => ?_, ?_⟩⟩
  · obtain ⟨levels, nests⟩ := View.contains_iff.mp contained
    obtain ⟨task, included, _, hmade⟩ := Includes.nestsAt_materialize_iff.mp nests
    exact ⟨task, included, hmade⟩
  · rw [make, lookup_viewAt, ← Schema.member?_eq_none_iff]
    cases task.schema.member? name <;> simp [Lookup.ofSlot_ne_unknown]
  · have hfound : task.schema.member? member.name = some member :=
      (Schema.member?_eq_some_iff (included.built built).distinct.2).mpr ⟨declared, rfl⟩
    rw [make, lookup_viewAt, hfound]
    exact ⟨fun _ => Lookup.ofSlot_eq_value_iff, Lookup.ofSlot_eq_absent_iff⟩
  · intro reordered perm
    obtain ⟨hbuild, hfind⟩ := Schema.build_perm (included.built built) perm
    refine ⟨hbuild, fun name => ?_⟩
    rw [make, lookup_viewAt, lookup_viewAt, hfind]

/-- A view in a view, both with a member of the same name: each look-up finds the member of its own view. -/
theorem built_lookup_same_name :
    let m : Materializer := { resolver := .known [] }
    let x : Member := ⟨"x", .int, false, none⟩
    let y : Member := ⟨"y", .string, false, none⟩
    let inner : Schema := ⟨"Inner", [x, y]⟩
    let outer : Schema := ⟨"Outer", [⟨"v", .view inner, false, none⟩, x]⟩
    let entries : Properties := [("x", .long 1)]
    let config : Properties := [("v", .map entries), ("x", .long 2)]
    let view := (m.make ⟨1, entries, inner⟩).value
    outer.Built ∧ (m.materialize outer config).value.Contains view ∧ m.Includes ⟨0, config, outer⟩ ⟨1, entries, inner⟩ ∧
    x ∈ inner.members ∧ y ∈ inner.members ∧ [y, x].Perm inner.members ∧
    view.lookup "x" = .value (.int 1) ∧ view.lookup "y" = .absent ∧ view.lookup "v" = .unknown ∧
    (m.viewAt 1 entries ⟨"Inner", [y, x]⟩).value.lookup "x" = .value (.int 1) := by
  intro m x y inner outer entries config view
  have builtInner : inner.Built := by
    refine .intro rfl fun member declared schema isView => ?_
    rcases List.mem_cons.mp declared with rfl | declared
    · cases isView
    · obtain rfl := List.mem_singleton.mp declared
      cases isView
  have built : outer.Built := by
    refine .intro rfl fun member declared schema isView => ?_
    rcases List.mem_cons.mp declared with rfl | declared
    · cases isView
      exact builtInner
    · obtain rfl := List.mem_singleton.mp declared
      cases isView
  have nests : entries ∈ Member.nestedEntries ⟨"v", .view inner, false, none⟩ config := by
    have hkey : Member.key ⟨"v", .view inner, false, none⟩ = "v" := by decide
    rw [Member.nestedEntries, hkey]
    exact List.mem_cons_self
  have included : m.Includes ⟨0, config, outer⟩ ⟨1, entries, inner⟩ :=
    .nested .self List.mem_cons_self rfl rfl rfl nests
  have hx : (m.memberAt 1 entries x).value = some (.int 1) := by rfl
  have hy : (m.memberAt 1 entries y).value = none := by rfl
  have declared : x ∈ inner.members := List.mem_cons_self
  have declared' : y ∈ inner.members := List.mem_cons_of_mem _ List.mem_cons_self
  have perm : [y, x].Perm inner.members := .swap x y []
  obtain ⟨contained, hunknown, hslots, hreordered⟩ := (built_lookup.2.2 m outer config built).2 _ included
  have hfound : view.lookup "x" = .value (.int 1) := ((hslots x declared).1 _).mpr hx
  refine ⟨built, contained, included, declared, declared', perm, hfound, (hslots y declared').2.mpr hy,
    (hunknown "v").mpr (by decide), ?_⟩
  rw [(hreordered [y, x] perm).2 "x"]
  exact hfound

end Materializer
end ComponentBinding
