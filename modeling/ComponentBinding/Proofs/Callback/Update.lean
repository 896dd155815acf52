import ComponentBinding.Callback.Script
import ComponentBinding.Proofs.Callback.InvokeRun

/-! What an invocation gives back besides its fallback: a property map only with the flag of an update, and
neither under a gate that forbids updates. The one exception is a body that returns a map although its
method is declared to return nothing. -/
namespace ComponentBinding
open Session

variable {σ : Type}

/-- The invocation reaches a body that returns a property map, and its method is declared to return
nothing. -/
inductive Callback.ReturnsUndeclared (callback : Callback) (registry : Registry σ)
    (objects : Objects σ) (target? : Option Nat) (call : Call) (properties : Properties) : Prop where
  | intro {found : Located σ} {place : Nat} {target : Instance σ} {arguments : List Argument}
    (resolved : callback.outcome registry = .resolved found)
    (declared : found.method.returns = .nothing)
    (named : target? = some place) (present : objects.instances[place]? = some target)
    (supplied : (callback.shape.arguments found.method.parameters call).value = .ok arguments)
    (returned : (found.method.body target arguments objects.services).1 = .returned (some properties))

/-- Properties come with the flag, and nothing comes where the gate forbids updates. -/
structure MethodResult.Contained (result : MethodResult) (gate : Gate) : Prop where
  flagged : result.properties?.isSome = true → result.hasPropertyUpdate = true
  forbidden : gate.returnProperties = false → result = .void

namespace MethodResult

theorem contained_void (gate : Gate) : Contained .void gate :=
  ⟨fun h => absurd h Bool.false_ne_true, fun _ => rfl⟩

theorem contained_update {gate : Gate} (h : gate.returnProperties = true) (properties? : Option Properties) :
    Contained ⟨true, properties?⟩ gate :=
  ⟨fun _ => rfl, fun hf => by rw [h] at hf; cases hf⟩

end MethodResult

namespace InvokeRule

variable {callback : Callback} {registry : Registry σ} {objects after : Objects σ}
  {target? : Option Nat} {call : Call} {fallback result : MethodResult} {calls : List CallRecord}

/-- A map that its method does not declare goes out as it is, without the flag. -/
theorem result_of_undeclared {properties : Properties}
    (rule : InvokeRule callback.shape objects target? call fallback (callback.outcome registry) result calls after)
    (undeclared : callback.ReturnsUndeclared registry objects target? call properties) :
    result = ⟨false, some properties⟩ := by
  obtain ⟨resolved, declared, named, present, supplied, returned⟩ := undeclared
  rw [resolved] at rule
  obtain ⟨rfl, _, _⟩ := rule.unique (.called named present supplied rfl)
  rw [returned, BodyOutcome.result, declared]
  rfl

/-- Without such a map the gate decides: it lets only those methods be found whose maps it admits. -/
theorem contained
    (rule : InvokeRule callback.shape objects target? call fallback (callback.outcome registry) result calls after)
    (declaredOnly : ∀ properties, ¬ callback.ReturnsUndeclared registry objects target? call properties) :
    result = fallback ∨ result.Contained callback.gate := by
  generalize houtcome : callback.outcome registry = outcome at rule
  cases rule with
  | missing => exact .inl rfl
  | notApplicable => exact .inr (MethodResult.contained_void _)
  | unavailable => exact .inr (MethodResult.contained_void _)
  | skipped => exact .inl rfl
  | called named present supplied body =>
    rename_i ended _ _
    cases ended with
    | failed => exact .inl rfl
    | panicked => exact .inl rfl
    | returned properties? =>
      refine .inr ?_
      rw [BodyOutcome.result]
      rcases Callback.outcome_returns houtcome with hreturns | ⟨hreturns, hgate⟩
      · cases properties? with
        | none =>
          rw [hreturns]
          exact MethodResult.contained_void _
        | some properties =>
          exact absurd (.intro houtcome hreturns named present supplied (congrArg Prod.fst body))
            (declaredOnly properties)
      · rw [hreturns]
        exact MethodResult.contained_update hgate properties?

end InvokeRule

namespace Session

/-- Whatever ran before, an invocation that does not fall back keeps to its gate, unless it reaches a body
whose map its method does not declare: that map always goes out, whatever the gate says. -/
theorem invoke_update_contained (registry : Registry σ) (callbacks : List Callback)
    (instances : List (Instance σ)) (services : ServiceStates σ) (past : List Step)
    (known : ∀ step ∈ past, step.callback < callbacks.length) {index : Nat} {callback : Callback}
    (declared : callbacks[index]? = some callback) (target? : Option Nat) (call : Call)
    (fallback : MethodResult) :
    ∃ reports session report after result,
      (start registry callbacks instances services).run? past = some (reports, session) ∧
      session.step? ⟨index, .invoke target? call fallback⟩ = some (report, after) ∧
      report.answer = .result result ∧
      ((∀ properties, ¬ callback.ReturnsUndeclared registry session.objects target? call properties) →
        result = fallback ∨ result.Contained callback.gate) ∧
      ∀ properties, callback.ReturnsUndeclared registry session.objects target? call properties →
        result = ⟨false, some properties⟩ := by
  obtain ⟨reports, session, hrun, hsession, _⟩ :=
    (start_follows registry callbacks instances services).run past known
  obtain ⟨report, after, hstep, effect⟩ := hsession.step ⟨index, .invoke target? call fallback⟩ declared
  obtain ⟨result, hanswer, hrule⟩ := effect.invoked target? call fallback rfl
  exact ⟨reports, session, report, after, result, hrun, hstep, hanswer, hrule.contained,
    fun _ => hrule.result_of_undeclared⟩

/-- Under a gate without updates a body that counts and returns nothing leaves nothing to hand out. -/
theorem invoke_update_contained_counting_body :
    let modified : Method Nat := {
      name := "modified"
      parameters := [.componentContext]
      body := fun target _ services => (.returned none, target.state + 1, services) }
    let target : Class Nat := { name := "a.Target", loader := 0, methods := [modified] }
    let callback : Callback := {
      name? := some "modified"
      classId := 0
      shape := .lifecycle { phase := .modified }
      gate := ⟨false, false⟩ }
    let past : List Step := [⟨0, .resolution⟩]
    let call : Call := .lifecycle { context := ⟨"c", [], ⟨4, "a"⟩⟩ }
    (∀ step ∈ past, step.callback < [callback].length) ∧ [callback][0]? = some callback ∧
    ∃ reports session report after,
      (start ⟨[target]⟩ [callback] [⟨0, 4⟩]).run? past = some (reports, session) ∧
      session.step? ⟨0, .invoke (some 0) call .void⟩ = some (report, after) ∧
      report.answer = .result .void := by
  intro modified target callback past call
  have known : ∀ step ∈ past, step.callback < [callback].length := by simp [past]
  have declared : [callback][0]? = some callback := rfl
  obtain ⟨reports, session, report, after, result, hrun, hstep, hanswer, hcontained, _⟩ :=
    invoke_update_contained ⟨[target]⟩ [callback] [⟨0, 4⟩] (fun _ => none) past known declared (some 0) call .void
  have declaredOnly (properties : Properties) :
      ¬ callback.ReturnsUndeclared ⟨[target]⟩ session.objects (some 0) call properties := by
    rintro ⟨resolved, _, _, _, _, returned⟩
    have hfound : callback.outcome ⟨[target]⟩ = .resolved ⟨target, modified⟩ := rfl
    obtain rfl := Resolution.resolved.inj (hfound.symm.trans resolved)
    cases returned
  have hvoid : result = .void := (hcontained declaredOnly).elim id fun contained => contained.forbidden rfl
  exact ⟨known, declared, reports, session, report, after, hrun, hstep, hvoid ▸ hanswer⟩

/-- Under a gate without updates a method that is declared to return nothing hands out the map of its body:
the answer is neither the fallback nor nothing, and its properties have no flag. -/
theorem undeclared_update_returned :
    let modified : Method Counter := {
      name := "modified"
      parameters := [.componentContext]
      body := (Script.return [("k", .string "v")]).body }
    let target : Class Counter := { name := "org.example.Comp", loader := 1, methods := [modified] }
    let callback : Callback := {
      name? := some "modified"
      classId := 0
      shape := .lifecycle { phase := .modified }
      gate := { relaxedVisibility := false, returnProperties := false } }
    let call : Call := .lifecycle { context := ⟨"comp", [], ⟨4, "org.example"⟩⟩ }
    let fallback : MethodResult := ⟨true, some [("failed", .bool true)]⟩
    let result : MethodResult := ⟨false, some [("k", .string "v")]⟩
    (∃ report after, (start ⟨[target]⟩ [callback] [⟨0, none⟩]).step? ⟨0, .invoke (some 0) call fallback⟩ =
      some (report, after) ∧ report.answer = .result result) ∧
    result ≠ fallback ∧ ¬ result.Contained callback.gate := by
  intro modified target callback call fallback result
  refine ⟨⟨_, _, rfl, rfl⟩, fun h => ?_, fun contained => ?_⟩
  · exact Bool.false_ne_true (congrArg MethodResult.hasPropertyUpdate h)
  · exact Bool.false_ne_true (contained.flagged rfl)

end Session
end ComponentBinding
