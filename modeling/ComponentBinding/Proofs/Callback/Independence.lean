import ComponentBinding.Proofs.Callback.Footprint
import ComponentBinding.Proofs.Callback.InvokeRun

/-! Steps on different callbacks and different instances commute, as long as no body changes a service object that
the other step hands on as well: what one of them writes, the other does not read. -/
namespace ComponentBinding
open Logged

variable {σ : Type}

/-- The same step seen in two runs. The walks of a report count those of earlier steps too, so they are
not of the step alone. -/
structure Report.Alike (report other : Report σ) : Prop where
  answer : report.answer = other.answer
  state : report.state = other.state
  calls : report.calls = other.calls
  events : report.events = other.events

/-- The two are not one place of a list of this length. -/
def PlacesApart (length : Nat) (place? other? : Option Nat) : Prop :=
  ∀ place < length, place? = some place → other? ≠ some place

theorem PlacesApart.symm {length : Nat} {place? other? : Option Nat} (h : PlacesApart length place? other?) :
    PlacesApart length other? place? :=
  fun place hlt ho hp => h place hlt hp ho

section Replace
variable {α : Type} {elements : List α} {place? other? : Option Nat}

theorem replaceAt_frame (h : PlacesApart elements.length place? other?) (element? : Option α) :
    (other?.bind fun other => (replaceAt elements place? element?)[other]?) =
      other?.bind fun other => elements[other]? := by
  rcases place? with _ | place
  · rfl
  rcases element? with _ | element
  · rfl
  rcases other? with _ | other
  · rfl
  change (elements.set place element)[other]? = elements[other]?
  by_cases hne : place = other
  · subst hne
    have hout : elements.length ≤ place := Nat.le_of_not_lt fun hlt => h place hlt rfl rfl
    rw [List.set_eq_of_length_le hout]
  · exact List.getElem?_set_ne hne

end Replace

namespace Session

section Swap
variable {session : Session σ} {first second : Step}

theorem SameFor.put (different : first.callback ≠ second.callback)
    (apart : PlacesApart session.instances.length first.action.target? second.action.target?) (own : Own σ) :
    SameFor second session (session.put first own) where
  registry := rfl
  slot := List.getElem?_set_ne different
  target := replaceAt_frame apart own.instance?

theorem SameHanded.put {own : Own σ} {calls : List CallRecord}
    (shared : ∀ identity ∈ handedBy own.calls, identity ∈ handedBy calls →
      own.services identity = session.services identity) :
    SameHanded calls session.services (session.put first own) := by
  intro identity hidentity
  by_cases hwritten : identity ∈ handedBy own.calls
  · exact (if_pos hwritten).trans (shared identity hwritten hidentity)
  · exact if_neg hwritten

end Swap

variable {registry : Registry σ} {callbacks : List Callback} {history : List Step} {session : Session σ}

end Session

/-- A body that takes the service objects that it is handed, and fails if one of them is taken already. -/
def Body.taking : Body Nat := fun target arguments services =>
  (if (handed arguments).any fun identity => (services identity).isSome then .failed (.failed "taken")
    else .returned none,
    target.state + 1, services.overwrite (handed arguments) fun _ => some target.state)

theorem Body.taking_confined : Body.Confined Body.taking where
  reads target arguments services services' agree := by
    have hany : ((handed arguments).any fun identity => (services' identity).isSome) =
        (handed arguments).any fun identity => (services identity).isSome := by
      rw [Bool.eq_iff_iff, List.any_eq_true, List.any_eq_true]
      exact exists_congr fun identity => and_congr_right fun hidentity => by rw [agree identity hidentity]
    refine ⟨?_, rfl, fun identity hidentity => ?_⟩
    · simp only [taking, hany]
    · exact (if_pos hidentity).trans (if_pos hidentity).symm
  changes _ _ _ _ hidentity := if_neg hidentity

/-- One class, with one method that takes a service object. -/
def Registry.taking : Registry Nat :=
  let bind : Method Nat := { name := "bind", parameters := [.service "Log"], body := .taking }
  ⟨[{ name := "a.Target", loader := 0, methods := [bind] }]⟩

theorem Registry.taking_confined : Registry.taking.Confined := by
  intro c hc method hmethod
  obtain rfl := List.mem_singleton.mp hc
  obtain rfl := List.mem_singleton.mp hmethod
  exact Body.taking_confined

namespace Session

/-- That neither step changes what both are handed is needed: handed one service object, the step that comes first
takes it, and the other one fails. -/
theorem shared_service_shows_order :
    let callback : Callback :=
      { name? := some "bind", classId := 0, shape := .reference ⟨.bind, "Log"⟩, gate := ⟨false, false⟩ }
    let session := start .taking [callback, callback] [⟨0, 4⟩, ⟨0, 8⟩]
    let call : Call := .reference { reference := ⟨7, []⟩, service? := some ⟨5, .other⟩ }
    let first : Step := ⟨0, .invoke (some 0) call ⟨true, none⟩⟩
    let second : Step := ⟨1, .invoke (some 1) call ⟨true, none⟩⟩
    Registry.taking.Confined ∧ first.callback ≠ second.callback ∧
    PlacesApart 2 first.action.target? second.action.target? ∧
    ∃ one two final one' two' final',
      session.run? [first, second] = some ([one, two], final) ∧
      session.run? [second, first] = some ([two', one'], final') ∧
      one'.answer ≠ one.answer ∧ final'.services 5 ≠ final.services 5 := by
  intro callback session call first second
  refine ⟨Registry.taking_confined, by decide, ?_, _, _, _, _, _, _, rfl, rfl, fun h => ?_, fun h => ?_⟩
  · rintro place - hfirst hsecond
    obtain rfl := Option.some.inj hfirst
    exact absurd (Option.some.inj hsecond) (by decide)
  · exact Bool.false_ne_true (congrArg MethodResult.hasPropertyUpdate (Answer.result.inj h)).symm
  · exact absurd (Option.some.inj h) (by decide)

end Session
end ComponentBinding
