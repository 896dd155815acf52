import ComponentBinding.Proofs.Callback.Outcome

/-! The rule of an invocation: what comes back, which body is called and what it leaves, for each
outcome of the search. -/
namespace ComponentBinding
open Logged

variable {σ : Type}

/-- What a caller gets when a body ends: a failure or a panic gives way to the fallback. -/
def BodyOutcome.result (method : Declaration) (fallback : MethodResult) : BodyOutcome → MethodResult
  | .returned properties? => ⟨method.returns = .propertyMap, properties?⟩
  | .failed _ | .panicked _ => fallback

/-- What bodies may change: the instances and the states of the service objects. -/
structure Objects (σ : Type) where
  instances : List (Instance σ)
  services : ServiceStates σ

def Session.objects (session : Session σ) : Objects σ := ⟨session.instances, session.services⟩

/-- From the outcome of the search to the result, the bodies called and the objects afterwards. -/
inductive InvokeRule (shape : Shape) (objects : Objects σ) (target? : Option Nat) (call : Call)
    (fallback : MethodResult) :
    Resolution σ → MethodResult → List CallRecord → Objects σ → Prop where
  | missing (cause : BindingError) :
    InvokeRule shape objects target? call fallback (.notFound cause) fallback [] objects
  | notApplicable : InvokeRule shape objects target? call fallback .notApplicable .void [] objects
  | unavailable {found : Located σ} (absent : ∀ place ∈ target?, objects.instances[place]? = none) :
    InvokeRule shape objects target? call fallback (.resolved found) .void [] objects
  | skipped {found : Located σ} {place : Nat} {target : Instance σ} {error : ArgumentError}
    (named : target? = some place) (present : objects.instances[place]? = some target)
    (refused : (shape.arguments found.method.parameters call).value = .error error) :
    InvokeRule shape objects target? call fallback (.resolved found) fallback [] objects
  | called {found : Located σ} {place : Nat} {target : Instance σ} {arguments : List Argument}
    {ended : BodyOutcome} {state : σ} {services : ServiceStates σ}
    (named : target? = some place) (present : objects.instances[place]? = some target)
    (supplied : (shape.arguments found.method.parameters call).value = .ok arguments)
    (body : found.method.body target arguments objects.services = (ended, state, services)) :
    InvokeRule shape objects target? call fallback (.resolved found)
      (ended.result found.method.toDeclaration fallback)
      [⟨found.owner.name, found.method.name, target.classId, arguments⟩]
      ⟨objects.instances.set place { target with state }, services⟩

/-- The rule leaves no choice. -/
theorem InvokeRule.unique {shape : Shape} {objects : Objects σ} {target? : Option Nat} {call : Call}
    {fallback : MethodResult} {outcome : Resolution σ} {result result' : MethodResult}
    {calls calls' : List CallRecord} {after after' : Objects σ}
    (h : InvokeRule shape objects target? call fallback outcome result calls after)
    (h' : InvokeRule shape objects target? call fallback outcome result' calls' after') :
    result = result' ∧ calls = calls' ∧ after = after' := by
  cases h with
  | missing cause => cases h'; exact ⟨rfl, rfl, rfl⟩
  | notApplicable => cases h'; exact ⟨rfl, rfl, rfl⟩
  | unavailable absent =>
    cases h' with
    | unavailable => exact ⟨rfl, rfl, rfl⟩
    | skipped named present => simp [absent _ named] at present
    | called named present => simp [absent _ named] at present
  | skipped named present refused =>
    cases h' with
    | unavailable absent => simp [absent _ named] at present
    | skipped => exact ⟨rfl, rfl, rfl⟩
    | called _ _ supplied => simp [refused] at supplied
  | called named present supplied body =>
    cases h' with
    | unavailable absent => simp [absent _ named] at present
    | skipped _ _ refused => simp [refused] at supplied
    | called named' present' supplied' body' =>
      obtain rfl := Option.some.inj (named.symm.trans named')
      obtain rfl := Option.some.inj (present.symm.trans present')
      obtain rfl := Except.ok.inj (supplied.symm.trans supplied')
      cases body.symm.trans body'
      exact ⟨rfl, rfl, rfl⟩

namespace Session

/-- What an invocation does once its callback has an outcome. -/
def dispatch (session : Session σ) (callback : Callback) (target? : Option Nat) (call : Call)
    (fallback : MethodResult) : Resolution σ → Logged (MethodResult × List CallRecord × Session σ)
  | .notFound _ => pure (fallback, [], session)
  | .notApplicable => pure (.void, [], session)
  | .resolved found => session.invokeLocated callback found target? call fallback

theorem act_invoke (session : Session σ) (index : Nat) (slot : Slot σ) (target? : Option Nat) (call : Call)
    (fallback : MethodResult) :
    session.act index slot (.invoke target? call fallback) = (do
      let resolved ← session.resolve index slot
      let done ← resolved.2.dispatch slot.callback target? call fallback resolved.1
      return (.result done.1, done.2.1, done.2.2)) := by
  rw [act]
  congr 1
  funext resolved
  obtain ⟨outcome, session⟩ := resolved
  cases outcome <;> rfl

/-- An invocation follows the rule, changes nothing but objects and reports no missing method. -/
structure Dispatched (session : Session σ) (callback : Callback) (target? : Option Nat) (call : Call)
    (fallback : MethodResult) (outcome : Resolution σ)
    (done : Logged (MethodResult × List CallRecord × Session σ)) : Prop where
  rule : InvokeRule callback.shape session.objects target? call fallback outcome
    done.value.1 done.value.2.1 done.value.2.2.objects
  frame : done.value.2.2 = { session with
    instances := done.value.2.2.instances
    services := done.value.2.2.services }
  only : Only (fun event => event.isRequiredMissing = false) done

/-- The last part of an invocation, once there are an instance and arguments. -/
def settle (session : Session σ) (found : Located σ) (place : Nat) (target : Instance σ)
    (arguments : List Argument) (fallback : MethodResult) :
    Except BindingError MethodResult × σ × ServiceStates σ → Logged (MethodResult × List CallRecord × Session σ)
  | (result, state, services) =>
    let session := { session with
      instances := session.instances.set place { target with state }
      services }
    let calls := [⟨found.owner.name, found.method.name, target.classId, arguments⟩]
    match result with
    | .ok result => pure (result, calls, session)
    | .error error => do
      .report (.callbackFailed found.method.name found.owner.name error)
      return (fallback, calls, session)

section Located
variable (session : Session σ) (callback : Callback) (found : Located σ) {target? : Option Nat} (call : Call)
  (fallback : MethodResult)

theorem invokeLocated_unavailable (absent : (target?.bind fun place => session.instances[place]?) = none) :
    session.invokeLocated callback found target? call fallback = (do
      .report (.invoking callback.shape.category found.method.name)
      .report (.instanceUnavailable found.method.name)
      return (.void, [], session)) := by
  have htarget : (target?.bind fun place => session.instances[place]?.map (place, ·)) = none := by
    simpa using absent
  simp only [invokeLocated, htarget]

theorem invokeLocated_available {place : Nat} {target : Instance σ} (named : target? = some place)
    (present : session.instances[place]? = some target) :
    session.invokeLocated callback found target? call fallback = (do
      .report (.invoking callback.shape.category found.method.name)
      match ← callback.shape.arguments found.method.parameters call with
      | .error source =>
        .report (.invocationSkipped found.method.name (.argumentUnavailable found.method.name source))
        return (fallback, [], session)
      | .ok arguments =>
        session.settle found place target arguments fallback
          (found.method.invoke target arguments session.services)) := by
  subst named
  simp only [invokeLocated, Option.bind_some, present, Option.map_some]
  rfl

end Located

theorem settle_dispatched (session : Session σ) (callback : Callback) (found : Located σ) {target? : Option Nat}
    (call : Call) (fallback : MethodResult) {place : Nat} {target : Instance σ} {arguments : List Argument}
    (named : target? = some place) (present : session.instances[place]? = some target)
    (supplied : (callback.shape.arguments found.method.parameters call).value = .ok arguments)
    (hr : found.method.returns = .nothing ∨ found.method.returns = .propertyMap) :
    Dispatched session callback target? call fallback (.resolved found)
      (session.settle found place target arguments fallback
        (found.method.invoke target arguments session.services)) := by
  obtain ⟨ended, state, services, hbody⟩ : ∃ ended state services,
      found.method.body target arguments session.services = (ended, state, services) := ⟨_, _, _, rfl⟩
  have hrule : InvokeRule callback.shape session.objects target? call fallback (.resolved found) _ _ _ :=
    .called named present supplied hbody
  have hflag : decide (found.method.returns ≠ .nothing) = decide (found.method.returns = .propertyMap) := by
    rcases hr with hr | hr <;> rw [hr] <;> rfl
  cases ended with
  | returned properties? =>
    have hended : found.method.invoke target arguments session.services =
        (.ok ⟨decide (found.method.returns = .propertyMap), properties?⟩, state, services) := by
      simp only [Method.invoke, hbody, BodyOutcome.properties, hflag]
    rw [hended]
    exact ⟨hrule, rfl, only_pure _⟩
  | failed error =>
    have hended : found.method.invoke target arguments session.services =
        (.error (.inBodyFailure found.method.name error), state, services) := by
      simp only [Method.invoke, hbody, BodyOutcome.properties]
    rw [hended]
    exact ⟨hrule, rfl, Only.bind (only_report rfl) (only_pure _)⟩
  | panicked payload =>
    have hended : found.method.invoke target arguments session.services =
        (.error (.inBodyFailure found.method.name (.panicked payload.message)), state, services) := by
      simp only [Method.invoke, hbody, BodyOutcome.properties]
    rw [hended]
    exact ⟨hrule, rfl, Only.bind (only_report rfl) (only_pure _)⟩

theorem invokeLocated_dispatched (session : Session σ) (callback : Callback) (found : Located σ)
    (target? : Option Nat) (call : Call) (fallback : MethodResult)
    (hr : found.method.returns = .nothing ∨ found.method.returns = .propertyMap) :
    Dispatched session callback target? call fallback (.resolved found)
      (session.invokeLocated callback found target? call fallback) := by
  have harguments : Only (fun event => event.isRequiredMissing = false)
      (callback.shape.arguments found.method.parameters call) :=
    (callback.shape.arguments_quiet found.method.parameters call).mono fun _ => Event.Quiet.not_missing
  cases htarget : target?.bind fun place => session.instances[place]? with
  | none =>
    have absent : ∀ place ∈ target?, session.instances[place]? = none := Option.bind_eq_none_iff.mp htarget
    rw [session.invokeLocated_unavailable callback found call fallback htarget]
    exact ⟨.unavailable absent, rfl,
      Only.bind (only_report rfl) (Only.bind (only_report rfl) (only_pure _))⟩
  | some target =>
    obtain ⟨place, named, present⟩ := Option.bind_eq_some_iff.mp htarget
    rw [session.invokeLocated_available callback found call fallback named present]
    cases harg : (callback.shape.arguments found.method.parameters call).value with
    | error source =>
      refine ⟨?_, ?_, Only.bind (only_report rfl) (harguments.bind ?_)⟩
      · simp only [value_bind, harg]
        exact .skipped named present harg
      · simp only [value_bind, harg, value_pure]
      · rw [harg]
        exact Only.bind (only_report rfl) (only_pure _)
    | ok arguments =>
      have hsettled := session.settle_dispatched callback found call fallback named present harg hr
      refine ⟨?_, ?_, Only.bind (only_report rfl) (harguments.bind ?_)⟩
      · simp only [value_bind, harg]
        exact hsettled.rule
      · simp only [value_bind, harg]
        exact hsettled.frame
      · rw [harg]
        exact hsettled.only

theorem dispatch_dispatched (session : Session σ) (callback : Callback) (target? : Option Nat) (call : Call)
    (fallback : MethodResult) (registry : Registry σ) :
    Dispatched session callback target? call fallback (callback.outcome registry)
      (session.dispatch callback target? call fallback (callback.outcome registry)) := by
  cases houtcome : callback.outcome registry with
  | notFound cause => exact ⟨.missing cause, rfl, only_pure _⟩
  | notApplicable => exact ⟨.notApplicable, rfl, only_pure _⟩
  | resolved found =>
    exact session.invokeLocated_dispatched callback found target? call fallback
      ((Callback.outcome_returns houtcome).imp_right And.left)

end Session
end ComponentBinding
