import ComponentBinding.Callback.Shape

/-! Making views and supplying arguments reports on views alone, and never warns: all of it is trace or
debug. -/
namespace ComponentBinding

/-- Every event reported on the way is of this kind. -/
def Logged.Only {α : Type} (kind : Event → Prop) (logged : Logged α) : Prop :=
  ∀ event ∈ logged.events, kind event

/-- Neither a warning nor an error. -/
def Event.Quiet (event : Event) : Prop := event.level = .trace ∨ event.level = .debug

/-- A report on the making of views. -/
def Event.OfViews : Event → Prop
  | .materializing .. | .coercionFailed .. | .elementCoercionFailed .. | .nestedViewDropped .. => True
  | _ => False

theorem Event.OfViews.quiet {event : Event} (h : event.OfViews) : event.Quiet := by
  cases event with
  | materializing => exact .inl rfl
  | coercionFailed | elementCoercionFailed | nestedViewDropped => exact .inr rfl
  | _ => cases h

namespace Logged

variable {α β : Type} {kind : Event → Prop}

theorem only_pure (value : α) : Only kind (pure value) := fun _ h => by cases h

theorem only_report {event : Event} (h : kind event) : Only kind (report event) := by
  intro other ho
  rwa [List.mem_singleton.mp ho]

theorem Only.bind {logged : Logged α} {next : α → Logged β} (h : Only kind logged)
    (hn : Only kind (next logged.value)) : Only kind (logged >>= next) := by
  intro event he
  rcases List.mem_append.mp he with he | he
  · exact h event he
  · exact hn event he

theorem only_all {steps : List (Logged α)} (h : ∀ step ∈ steps, Only kind step) : Only kind (all steps) := by
  intro event he
  obtain ⟨step, hs, he⟩ := List.mem_flatMap.mp he
  exact h step hs event he

theorem Only.mono {weaker : Event → Prop} {logged : Logged α} (h : Only kind logged)
    (hw : ∀ event, kind event → weaker event) : Only weaker logged :=
  fun event he => hw event (h event he)

end Logged

namespace Materializer
open Logged

variable (m : Materializer)

/-- All that making views can report is of this kind: what cannot be coerced, and views beyond the limit. -/
structure Reports (expected : Event → Prop) : Prop where
  coercion (member key : String) (error : CoercionError) : expected (.coercionFailed member key error)
  element (member key : String) (error : CoercionError) : expected (.elementCoercionFailed member key error)
  drop {depth limit : Nat} (exceeded : m.exceeded? depth = some limit) (view : String) :
    expected (.nestedViewDropped view (.depthExceeded limit))

section Only

variable {m} {expected : Event → Prop}

theorem firstCoerced_only (h : m.Reports expected) (member key : String) (kind : Kind) (sources : List Property) :
    Only expected (m.firstCoerced member key kind sources) := by
  induction sources with
  | nil => exact only_pure _
  | cons source sources ih =>
    rw [firstCoerced]
    split
    · exact only_pure _
    · exact (only_report (h.coercion ..)).bind ih

theorem elementValue_only (h : m.Reports expected) (member key : String) (kind : Kind) (source : Property) :
    Only expected (m.elementValue member key kind source) := by
  rw [elementValue]
  split
  · exact only_pure _
  · exact (only_report (h.element ..)).bind (only_pure _)

mutual

theorem membersAt_only (h : m.Reports expected) (depth : Nat) (config : Properties) :
    ∀ members : List Member, Only expected (m.membersAt depth config members)
  | [] => only_pure _
  | member :: members =>
    (memberAt_only h depth config member).bind ((membersAt_only h depth config members).bind (only_pure _))

theorem memberAt_only (h : m.Reports expected) (depth : Nat) (config : Properties) :
    ∀ member : Member, Only expected (m.memberAt depth config member)
  | ⟨name, kind, isArray, default?⟩ => by
    rw [memberAt]
    split
    · exact only_pure _
    split
    · split
      · exact only_pure _
      · refine (only_all fun step hs => ?_).bind (only_pure _)
        obtain ⟨source, _, rfl⟩ := List.mem_map.mp hs
        exact elementOf_only h depth name source kind
    · exact scalarOf_only h depth name default? config kind

theorem elementOf_only (h : m.Reports expected) (depth : Nat) (member : String) (source : Property) :
    ∀ kind : Kind, Only expected (m.elementOf depth member source kind)
  | .view schema => nestedView_only h depth _ schema
  | .boolean | .byte | .short | .int | .long | .float | .double | .string | .type | .enum _ => by
    rw [elementOf_of_not_view m rfl]
    exact elementValue_only h _ _ _ _

theorem scalarOf_only (h : m.Reports expected) (depth : Nat) (member : String) (default? : Option Property)
    (config : Properties) : ∀ kind : Kind, Only expected (m.scalarOf depth member default? config kind)
  | .view schema => by
    rw [scalarOf]
    split
    · exact only_pure _
    · exact (nestedView_only h depth _ schema).bind (only_pure _)
  | .boolean | .byte | .short | .int | .long | .float | .double | .string | .type | .enum _ => by
    rw [scalarOf_of_not_view m rfl]
    exact firstCoerced_only h _ _ _ _

theorem nestedView_only (h : m.Reports expected) (depth : Nat) (config : Properties) :
    ∀ schema : Schema, Only expected (m.nestedView depth config schema)
  | ⟨name, members⟩ => by
    rw [nestedView]
    split
    · rename_i exceeded
      exact (only_report (h.drop exceeded name)).bind (only_pure _)
    · exact (membersAt_only h (depth + 1) config members).bind (only_pure _)

end

theorem materialize_only (h : m.Reports expected) (schema : Schema) (config : Properties)
    (opening : expected (.materializing schema.name config.length)) : Only expected (m.materialize schema config) := by
  obtain ⟨name, members⟩ := schema
  exact (only_report opening).bind ((membersAt_only h 0 config members).bind (only_pure _))

end Only

theorem materialize_ofViews (schema : Schema) (config : Properties) :
    Only Event.OfViews (m.materialize schema config) := by
  have h : m.Reports Event.OfViews := ⟨fun _ _ _ => trivial, fun _ _ _ => trivial, fun _ _ => trivial⟩
  exact materialize_only h schema config trivial

end Materializer

open Logged

theorem supplyAll_ofViews {supply : Parameter → Logged (Except ArgumentError Argument)}
    (h : ∀ parameter, Only Event.OfViews (supply parameter)) (parameters : Signature) :
    Only Event.OfViews (supplyAll supply parameters) := by
  induction parameters with
  | nil => exact only_pure _
  | cons parameter parameters ih =>
    refine (h parameter).bind ?_
    cases (supply parameter).value with
    | error error => exact only_pure _
    | ok argument => exact ih.bind (only_pure _)

theorem LifecycleShape.supply_ofViews (shape : LifecycleShape) (call : LifecycleCall) (parameter : Parameter) :
    Only Event.OfViews (shape.supply call parameter) := by
  cases parameter with
  | view name =>
    rw [supply]
    split
    · exact only_pure _
    · exact (shape.materializer.materialize_ofViews _ _).bind (only_pure _)
  | _ => exact only_pure _

theorem Shape.arguments_ofViews (shape : Shape) (parameters : Signature) (call : Call) :
    Only Event.OfViews (shape.arguments parameters call) := by
  cases shape with
  | lifecycle shape =>
    cases call with
    | lifecycle call => exact supplyAll_ofViews (shape.supply_ofViews call) parameters
    | reference call => exact supplyAll_ofViews (fun _ => only_pure _) parameters
  | reference shape =>
    cases call <;> exact supplyAll_ofViews (fun _ => only_pure _) parameters

theorem Shape.arguments_quiet (shape : Shape) (parameters : Signature) (call : Call) :
    Only Event.Quiet (shape.arguments parameters call) :=
  (shape.arguments_ofViews parameters call).mono fun _ => Event.OfViews.quiet

end ComponentBinding
