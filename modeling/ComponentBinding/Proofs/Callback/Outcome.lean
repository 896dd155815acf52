import ComponentBinding.Callback.Session
import ComponentBinding.Proofs.Callback.SearchRule
import ComponentBinding.Proofs.View.Quiet

/-! The outcome of a callback over a registry: what a search finds, and what it reports. -/
namespace ComponentBinding
open Logged

variable {σ : Type}

/-- The error report that a required callback has no method. -/
def Event.isRequiredMissing (event : Event) : Bool :=
  event.level = .error && event.message = "method not found; component will fail"

theorem Event.Quiet.not_missing {event : Event} (h : event.Quiet) : event.isRequiredMissing = false := by
  rcases h with h | h <;> simp [isRequiredMissing, h]

/-- A report of the search on its way through the hierarchy. -/
def Event.OfHierarchy : Event → Prop
  | .locating .. | .located .. | .inaccessible .. | .hierarchyUnavailable .. => True
  | _ => False

theorem Event.OfHierarchy.not_missing {event : Event} (h : event.OfHierarchy) : event.isRequiredMissing = false := by
  cases event with
  | locating | located | inaccessible | hierarchyUnavailable => simp [isRequiredMissing, Event.message]
  | _ => cases h

theorem Logged.Only.countP_eq_zero {α : Type} {logged : Logged α}
    (h : Only (fun event => event.isRequiredMissing = false) logged) :
    logged.events.countP Event.isRequiredMissing = 0 :=
  List.countP_eq_zero.mpr fun event he => by simp [h event he]

theorem Gate.searchFrom_only (gate : Gate) (name : String) (candidates : List Signature) (leaf : Class σ)
    (atLeaf samePackage : Bool) (ancestors : List (Class σ)) :
    Only Event.OfHierarchy
      (gate.searchFrom name candidates leaf atLeaf samePackage ancestors) := by
  induction ancestors generalizing atLeaf samePackage with
  | nil => exact only_pure _
  | cons c above ih =>
    refine Only.bind (only_report trivial) ?_
    split
    · exact Only.bind (only_report trivial) (only_pure _)
    · split
      · exact ih _ _
      · exact Only.bind (only_report trivial) (only_pure _)

theorem Gate.locate_only (gate : Gate) (name : String) (ancestors : List (Class σ))
    (candidates : List Signature) :
    Only Event.OfHierarchy (gate.locate name ancestors candidates) := by
  cases ancestors with
  | nil => exact only_pure _
  | cons leaf above => exact gate.searchFrom_only name candidates leaf true true (leaf :: above)

namespace Callback

theorem find_only (callback : Callback) (registry : Registry σ) (name : String) :
    Only Event.OfHierarchy (callback.find registry name) := by
  rw [find]
  split
  · exact (callback.gate.locate_only _ _ _).bind (only_pure _)
  · exact Only.bind (only_report trivial) (only_pure _)

/-- Whatever a search finds, it walks the hierarchy once. -/
theorem find_walks (callback : Callback) (registry : Registry σ) (name : String) :
    (callback.find registry name).value.walks = 1 := by
  rw [find, Registry.walk]
  cases registry.ancestors callback.classId <;> rfl

theorem conclude_missing (callback : Callback) (name owner : String)
    (found : Except BindingError (Option (Located σ))) :
    (callback.conclude name owner found).events.countP Event.isRequiredMissing =
      if (callback.conclude name owner found).value.state = .notFound then 1 else 0 := by
  rcases found with cause | _ | located
  · cases hr : callback.required <;> simp only [conclude, hr] <;> rfl
  · cases hr : callback.required <;> simp only [conclude, hr] <;> rfl
  · rfl

theorem conclude_resolved {callback : Callback} {name owner : String}
    {found : Except BindingError (Option (Located σ))} {located : Located σ}
    (h : (callback.conclude name owner found).value = .resolved located) : found = .ok (some located) := by
  rcases found with cause | _ | other
  · cases hr : callback.required <;> simp only [conclude, hr] at h <;> cases h
  · cases hr : callback.required <;> simp only [conclude, hr] at h <;> cases h
  · cases h
    rfl

/-- The search of a callback with its walks and its events, if it has a name to search. -/
def searched (callback : Callback) (registry : Registry σ) : Logged (Resolution σ × Nat) :=
  match callback.name? with
  | none => pure (.notApplicable, 0)
  | some name => callback.search registry name

/-- The outcome of a callback; it depends on the registry and on no run. -/
def outcome (callback : Callback) (registry : Registry σ) : Resolution σ :=
  (callback.searched registry).value.1

theorem searched_value (callback : Callback) (registry : Registry σ) :
    (callback.searched registry).value =
      (callback.outcome registry, if callback.name?.isSome then 1 else 0) := by
  rw [outcome, searched]
  cases callback.name? with
  | none => rfl
  | some name => exact Prod.ext rfl (callback.find_walks registry name)

theorem outcome_of_nameless {callback : Callback} (h : callback.name? = none) (registry : Registry σ) :
    callback.outcome registry = .notApplicable := by
  simp [outcome, searched, h]

/-- A search that fails a required callback says so once, and no other search does. -/
theorem searched_missing (callback : Callback) (registry : Registry σ) :
    (callback.searched registry).events.countP Event.isRequiredMissing =
      if (callback.outcome registry).state = .notFound then 1 else 0 := by
  rw [outcome, searched]
  split
  · rfl
  · rename_i name _
    have hfind := ((callback.find_only registry name).mono fun _ => Event.OfHierarchy.not_missing).countP_eq_zero
    simp only [search, events_bind, List.countP_append, value_bind, value_pure, hfind]
    exact (Nat.zero_add _).trans ((Nat.zero_add _).trans (callback.conclude_missing name _ _))

/-- A resolved method is one that the search rule accepts for a candidate of the shape. -/
theorem outcome_resolved {callback : Callback} {registry : Registry σ} {found : Located σ}
    (h : callback.outcome registry = .resolved found) :
    ∃ name ancestors, callback.name? = some name ∧ registry.ancestors callback.classId = .ok ancestors ∧
      ∃ level, ancestors[level]? = some found.owner ∧ ∃ signature ∈ callback.shape.candidates callback.gate,
        callback.gate.Accepted name ancestors level found.owner signature found.method := by
  rw [outcome, searched] at h
  split at h
  · cases h
  · rename_i name hname
    have hfind := conclude_resolved h
    rw [find, Registry.walk] at hfind
    split at hfind
    · rename_i ancestors hancestors
      simp only [value_bind, value_pure] at hfind
      have hrule := callback.gate.locate_follows name ancestors (callback.shape.candidates callback.gate)
      rw [hfind] at hrule
      cases hrule with
      | found first candidate accepted =>
        exact ⟨name, ancestors, hname, hancestors, _, first.place, _, List.mem_of_getElem? candidate, accepted⟩
    · cases hfind

/-- A resolved method returns nothing, or a property map that the gate admits. -/
theorem outcome_returns {callback : Callback} {registry : Registry σ} {found : Located σ}
    (h : callback.outcome registry = .resolved found) :
    found.method.returns = .nothing ∨
      found.method.returns = .propertyMap ∧ callback.gate.returnProperties = true := by
  obtain ⟨_, _, _, _, _, _, _, _, accepted⟩ := outcome_resolved h
  exact accepted.2.returns

end Callback
end ComponentBinding
