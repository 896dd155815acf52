import ComponentBinding.Proofs.Callback.Selections
import Mathlib.Data.List.Forall2

/-! Which arguments a call supplies for a signature. A lifecycle call serves every signature that its
shape offers; a reference call serves those that its shape offers and that need no service object, and
the others as long as there is one. -/
namespace ComponentBinding

/-! Arguments one by one -/

theorem exists_forall₂ {serves : Parameter → Argument → Prop} {parameters : Signature}
    (h : ∀ parameter ∈ parameters, ∃ argument, serves parameter argument) :
    ∃ arguments, List.Forall₂ serves parameters arguments := by
  induction parameters with
  | nil => exact ⟨[], .nil⟩
  | cons parameter parameters ih =>
    obtain ⟨argument, hfirst⟩ := h parameter List.mem_cons_self
    obtain ⟨arguments, hrest⟩ := ih fun other ho => h other (List.mem_cons_of_mem _ ho)
    exact ⟨argument :: arguments, .cons hfirst hrest⟩

section

variable {supply : Parameter → Logged (Except ArgumentError Argument)}

theorem supplyAll_eq_ok_iff {parameters : Signature} {arguments : List Argument} :
    (supplyAll supply parameters).value = .ok arguments ↔
      List.Forall₂ (fun parameter argument => (supply parameter).value = .ok argument) parameters arguments := by
  induction parameters generalizing arguments with
  | nil =>
    rw [List.forall₂_nil_left_iff, supplyAll, Logged.value_pure, Except.ok.injEq, eq_comm]
  | cons parameter parameters ih =>
    rw [supplyAll, Logged.value_bind]
    cases hfirst : (supply parameter).value with
    | error error =>
      constructor
      · intro h
        cases h
      · intro h
        cases h with
        | cons hhead _ =>
          rw [hfirst] at hhead
          cases hhead
    | ok first =>
      simp only [Logged.value_bind, Logged.value_pure]
      constructor
      · intro h
        cases hrest : (supplyAll supply parameters).value with
        | error error =>
          rw [hrest] at h
          cases h
        | ok rest =>
          rw [hrest] at h
          obtain rfl := Except.ok.inj h
          exact .cons hfirst (ih.mp hrest)
      · intro h
        cases h with
        | cons hhead htail =>
          rw [hfirst] at hhead
          obtain rfl := Except.ok.inj hhead
          rw [ih.mpr htail]
          rfl

/-- If nothing but one error can come up, and it does, it is reported. -/
theorem supplyAll_eq_error {parameters : Signature} {error : ArgumentError}
    (h : ∀ parameter ∈ parameters, (supply parameter).value = .error error ∨
      ∃ argument, (supply parameter).value = .ok argument)
    (hsome : ∃ parameter ∈ parameters, (supply parameter).value = .error error) :
    (supplyAll supply parameters).value = .error error := by
  induction parameters with
  | nil =>
    obtain ⟨_, hm, _⟩ := hsome
    cases hm
  | cons first parameters ih =>
    rw [supplyAll, Logged.value_bind]
    rcases h first List.mem_cons_self with hfirst | ⟨argument, hfirst⟩
    · rw [hfirst]
      rfl
    · have hlater : ∃ parameter ∈ parameters, (supply parameter).value = .error error := by
        obtain ⟨parameter, hm, hbad⟩ := hsome
        rcases List.mem_cons.mp hm with rfl | hm
        · rw [hfirst] at hbad
          cases hbad
        · exact ⟨parameter, hm, hbad⟩
      rw [hfirst, Logged.value_bind, ih (fun other ho => h other (List.mem_cons_of_mem _ ho)) hlater]
      rfl

end

namespace LifecycleShape

/-- What a lifecycle call supplies for a parameter; a view is made by the first schema of its name. -/
inductive Serves (shape : LifecycleShape) (call : LifecycleCall) : Parameter → Argument → Prop where
  | componentContext : Serves shape call .componentContext (.componentContext call.context)
  | bundleContext : Serves shape call .bundleContext (.bundleContext call.context.bundle)
  | propertyMap : Serves shape call .propertyMap (.properties call.context.properties)
  | int : Serves shape call .int (.int call.reason)
  | view {before after : List Schema} {schema : Schema} (registered : shape.views = before ++ schema :: after)
    (first : ∀ other ∈ before, other.name ≠ schema.name) :
    Serves shape call (.view schema.name) (.view (shape.materializer.materialize schema call.context.properties).value)

variable {shape : LifecycleShape} {call : LifecycleCall}

theorem supply_eq_ok_iff {parameter : Parameter} {argument : Argument} :
    (shape.supply call parameter).value = .ok argument ↔ shape.Serves call parameter argument := by
  constructor
  · intro h
    cases parameter with
    | view name =>
      rw [supply] at h
      split at h
      · cases h
      · rename_i schema hfind
        obtain rfl := Except.ok.inj h
        obtain ⟨hname, before, after, hviews, hbefore⟩ := List.find?_eq_some_iff_append.mp hfind
        obtain rfl : schema.name = name := by simpa using hname
        exact .view hviews fun other ho => by simpa using hbefore other ho
    | componentContext | bundleContext | propertyMap | int =>
      obtain rfl := Except.ok.inj h
      constructor
    | serviceReference | service => cases h
  · intro h
    cases h with
    | view registered first =>
      rename_i before after schema
      have hfind : shape.views.find? (·.name = schema.name) = some schema :=
        List.find?_eq_some_iff_append.mpr
          ⟨by simp, before, after, registered, fun other ho => by simpa using first other ho⟩
      rw [supply, hfind]
      rfl
    | _ => rfl

theorem arguments_eq_ok_iff {parameters : Signature} {arguments : List Argument} :
    (shape.arguments parameters call).value = .ok arguments ↔
      List.Forall₂ (shape.Serves call) parameters arguments := by
  simp only [LifecycleShape.arguments, supplyAll_eq_ok_iff, supply_eq_ok_iff]

/-- Each parameter of an offered signature is a plain one or names a view of the shape. -/
theorem mem_of_mem_candidates {gate : Gate} {signature : Signature} (h : signature ∈ shape.candidates gate)
    {parameter : Parameter} (hp : parameter ∈ signature) :
    parameter ∈ [.componentContext, .bundleContext, .propertyMap, .int] ∨
      ∃ schema ∈ shape.views, parameter = .view schema.name := by
  have hcombinable : shape.combinable ⊆ [.componentContext, .bundleContext, .propertyMap, .int] := by
    unfold combinable
    split <;> simp
  rw [candidates, List.mem_cons] at h
  rcases h with rfl | h
  · exact .inl (by simp_all)
  · split at h
    · simp only [List.mem_append, List.mem_map] at h
      rcases h with (((h | ⟨schema, hs, rfl⟩) | h) | h) | h
      · exact .inl (by simp at h; rcases h with rfl | rfl <;> simp_all)
      · exact .inr ⟨schema, hs, List.mem_singleton.mp hp⟩
      · split at h
        · exact .inl (by simp_all)
        · cases h
      · exact .inl (hcombinable ((mem_selections_iff.mp h).1.subset hp))
      · obtain rfl := List.mem_singleton.mp h
        cases hp
    · cases h

/-- A registered name has a first schema. -/
theorem serves_view {schema : Schema} (h : schema ∈ shape.views) :
    ∃ argument, shape.Serves call (.view schema.name) argument := by
  have hsome : (shape.views.find? (·.name = schema.name)).isSome :=
    List.find?_isSome.mpr ⟨schema, h, by simp⟩
  obtain ⟨first, hfind⟩ := Option.isSome_iff_exists.mp hsome
  have hsupply : (shape.supply call (.view schema.name)).value =
      .ok (.view (shape.materializer.materialize first call.context.properties).value) := by
    rw [supply, hfind]
    rfl
  exact ⟨_, supply_eq_ok_iff.mp hsupply⟩

theorem arguments_of_candidate {gate : Gate} {signature : Signature} (h : signature ∈ shape.candidates gate)
    (call : LifecycleCall) :
    ∃ arguments, (shape.arguments signature call).value = .ok arguments ∧
      List.Forall₂ (shape.Serves call) signature arguments := by
  have hserved : ∀ parameter ∈ signature, ∃ argument, shape.Serves call parameter argument := by
    intro parameter hp
    rcases mem_of_mem_candidates h hp with hplain | ⟨schema, hs, rfl⟩
    · simp only [List.mem_cons, List.not_mem_nil, or_false] at hplain
      rcases hplain with rfl | rfl | rfl | rfl
      · exact ⟨_, .componentContext⟩
      · exact ⟨_, .bundleContext⟩
      · exact ⟨_, .propertyMap⟩
      · exact ⟨_, .int⟩
    · exact serves_view hs
  obtain ⟨arguments, hall⟩ := exists_forall₂ hserved
  exact ⟨arguments, arguments_eq_ok_iff.mpr hall, hall⟩

end LifecycleShape

/-- A signature needs the service object, and the call has none. -/
def ReferenceCall.Lacks (call : ReferenceCall) (signature : Signature) : Prop :=
  call.service? = none ∧ ∃ interface, .service interface ∈ signature

namespace ReferenceShape

/-- What a reference call supplies for a parameter. -/
inductive Serves (call : ReferenceCall) : Parameter → Argument → Prop where
  | serviceReference : Serves call .serviceReference (.serviceReference call.reference)
  | propertyMap : Serves call .propertyMap (.properties call.reference.properties)
  | service {interface : String} {service : ServiceObject} (there : call.service? = some service) :
    Serves call (.service interface) (.service service)

variable {shape : ReferenceShape} {call : ReferenceCall}

theorem supply_eq_ok_iff {parameter : Parameter} {argument : Argument} :
    supply call parameter = .ok argument ↔ Serves call parameter argument := by
  constructor
  · intro h
    cases parameter with
    | service interface =>
      rw [supply] at h
      split at h
      · rename_i service there
        obtain rfl := Except.ok.inj h
        exact .service there
      · cases h
    | serviceReference | propertyMap =>
      obtain rfl := Except.ok.inj h
      constructor
    | _ => cases h
  · intro h
    cases h with
    | service there => rw [supply, there]
    | _ => rfl

theorem arguments_eq_ok_iff {parameters : Signature} {arguments : List Argument} :
    (ReferenceShape.arguments parameters call).value = .ok arguments ↔
      List.Forall₂ (Serves call) parameters arguments := by
  simp only [ReferenceShape.arguments, supplyAll_eq_ok_iff, Logged.value_pure, supply_eq_ok_iff]

theorem mem_of_mem_candidates {gate : Gate} {signature : Signature} (h : signature ∈ shape.candidates gate)
    {parameter : Parameter} (hp : parameter ∈ signature) :
    parameter = .serviceReference ∨ parameter = .propertyMap ∨ parameter = .service shape.interface := by
  simp only [candidates, List.mem_append, List.mem_cons, List.not_mem_nil, or_false] at h
  rcases h with (rfl | rfl) | h
  · exact .inl (List.mem_singleton.mp hp)
  · exact .inr (.inr (List.mem_singleton.mp hp))
  · split at h
    · obtain rfl := List.mem_singleton.mp h
      simp only [List.mem_cons, List.not_mem_nil, or_false] at hp
      rcases hp with rfl | rfl
      · exact .inr (.inr rfl)
      · exact .inr (.inl rfl)
    · cases h

theorem arguments_of_candidate {gate : Gate} {signature : Signature} (h : signature ∈ shape.candidates gate)
    {call : ReferenceCall} (hlacks : ¬ call.Lacks signature) :
    ∃ arguments, (ReferenceShape.arguments signature call).value = .ok arguments ∧
      List.Forall₂ (Serves call) signature arguments := by
  have hserved : ∀ parameter ∈ signature, ∃ argument, Serves call parameter argument := by
    intro parameter hp
    rcases mem_of_mem_candidates h hp with rfl | rfl | rfl
    · exact ⟨_, .serviceReference⟩
    · exact ⟨_, .propertyMap⟩
    · cases there : call.service? with
      | none => exact absurd ⟨there, shape.interface, hp⟩ hlacks
      | some service => exact ⟨_, .service there⟩
  obtain ⟨arguments, hall⟩ := exists_forall₂ hserved
  exact ⟨arguments, arguments_eq_ok_iff.mpr hall, hall⟩

/-- Without the service object that it needs, a candidate fails for want of the service alone. -/
theorem arguments_of_lacking {gate : Gate} {signature : Signature} (h : signature ∈ shape.candidates gate)
    {call : ReferenceCall} (hlacks : call.Lacks signature) :
    (ReferenceShape.arguments signature call).value = .error (.serviceUnavailable call.reference.id) := by
  obtain ⟨hnone, interface, hp⟩ := hlacks
  have hservice (interface : String) :
      supply call (.service interface) = .error (.serviceUnavailable call.reference.id) := by
    rw [supply, hnone]
  refine supplyAll_eq_error (fun parameter hparameter => ?_) ⟨_, hp, hservice interface⟩
  rcases mem_of_mem_candidates h hparameter with rfl | rfl | rfl
  · exact .inr ⟨_, rfl⟩
  · exact .inr ⟨_, rfl⟩
  · exact .inl (hservice shape.interface)

end ReferenceShape
end ComponentBinding
