import ComponentBinding.Callback.Invocation
import ComponentBinding.Callback.Locate
import ComponentBinding.Callback.Shape

/-! Callbacks and the runs that use them.
A callback is resolved by its first use that needs the method, and keeps the outcome. A session holds
callbacks and instances over one registry, and takes steps that each concern one callback. -/
namespace ComponentBinding

/-- A callback of one category on one component class. Without a name there is nothing to call. -/
structure Callback where
  name? : Option String
  classId : Nat
  shape : Shape
  gate : Gate
  required : Bool := name?.isSome

inductive ResolutionState where
  | notApplicable | notResolved | notFound | resolved
  deriving DecidableEq, Repr

/-- How a search ends. -/
inductive Resolution (σ : Type) where
  | resolved (found : Located σ)
  | notFound (cause : BindingError)
  | notApplicable

def Resolution.state {σ : Type} : Resolution σ → ResolutionState
  | .resolved _ => .resolved
  | .notFound _ => .notFound
  | .notApplicable => .notApplicable

/-- What a search meets: the class that it names, the method found and the walks over the hierarchy. -/
structure Finding (σ : Type) where
  owner : String
  found : Except BindingError (Option (Located σ))
  walks : Nat

namespace Callback

variable {σ : Type}

/-- The method of a named callback, or why there is none, with the name of the searched class. A
class without ancestors is named by its number. -/
def find (callback : Callback) (registry : Registry σ) (name : String) : Logged (Finding σ) :=
  let walk := registry.walk callback.classId
  match walk.ancestors with
  | .ok ancestors => do
    let found ← callback.gate.locate name ancestors (callback.shape.candidates callback.gate)
    let owner := match ancestors with
      | leaf :: _ => leaf.name
      | [] => "#" ++ Decimal.ofNat callback.classId
    return ⟨owner, found, walk.count⟩
  | .error error => do
    .report (.hierarchyUnavailable name callback.classId error)
    return ⟨"#" ++ Decimal.ofNat callback.classId, .ok none, walk.count⟩

/-- What the search makes of the method found. A missing method is an error for a required callback
only. -/
def conclude (callback : Callback) (name owner : String) :
    Except BindingError (Option (Located σ)) → Logged (Resolution σ)
  | .ok (some located) => pure (.resolved located)
  | found =>
    let cause := match found with
      | .error cause => cause
      | .ok _ => .notFoundRequired name owner
    if callback.required then do
      .report (.requiredMissing callback.shape.category name owner)
      return .notFound cause
    else do
      .report (.optionalMissing callback.shape.category name owner)
      return .notApplicable

/-- The outcome of a search, and the walks over the hierarchy that it took. -/
def search (callback : Callback) (registry : Registry σ) (name : String) : Logged (Resolution σ × Nat) := do
  .report (.resolving callback.shape.category name)
  let finding ← callback.find registry name
  return (← callback.conclude name finding.owner finding.found, finding.walks)

end Callback

/-- A body that was called: the method, the class of the instance and the arguments. -/
structure CallRecord where
  owner : String
  method : String
  on : Nat
  arguments : List Argument

/-- A callback and the outcome of its search, if that has run. -/
structure Slot (σ : Type) where
  callback : Callback
  found? : Option (Resolution σ) := none

namespace Slot

variable {σ : Type}

def outcome? (slot : Slot σ) : Option (Resolution σ) :=
  match slot.callback.name? with
  | none => some .notApplicable
  | some _ => slot.found?

def state (slot : Slot σ) : ResolutionState :=
  match slot.outcome? with
  | none => .notResolved
  | some resolution => resolution.state

end Slot

structure Session (σ : Type) where
  registry : Registry σ
  slots : List (Slot σ)
  instances : List (Instance σ)
  services : ServiceStates σ := fun _ => none
  /-- the number of hierarchy walks so far -/
  walks : Nat := 0

inductive Action where
  | state
  | info
  | methodExists
  | resolution
  | invoke (target? : Option Nat) (call : Call) (fallback : MethodResult)

structure Step where
  callback : Nat
  action : Action

inductive Answer (σ : Type) where
  | nothing
  | info (name? : Option String) (required : Bool) (category : String)
  | truth (value : Bool)
  | resolution (outcome : Resolution σ)
  | result (result : MethodResult)

/-- What a step answers, and what it leaves to see. -/
structure Report (σ : Type) where
  answer : Answer σ
  state : ResolutionState
  walks : Nat
  calls : List CallRecord
  events : List Event

namespace Session

variable {σ : Type}

/-- The outcome of a callback, after the search if it has not run yet. -/
def resolve (session : Session σ) (index : Nat) (slot : Slot σ) :
    Logged (Resolution σ × Session σ) :=
  match slot.callback.name?, slot.found? with
  | none, _ => pure (.notApplicable, session)
  | some _, some outcome => pure (outcome, session)
  | some name, none => do
    let (outcome, walks) ← slot.callback.search session.registry name
    return (outcome, { session with
      slots := session.slots.set index { slot with found? := some outcome }
      walks := session.walks + walks })

/-- A located method on an instance: the result, the call if the body was reached, and the session
with the instance and the service objects as the body left them. -/
def invokeLocated (session : Session σ) (callback : Callback) (found : Located σ)
    (target? : Option Nat) (call : Call) (fallback : MethodResult) :
    Logged (MethodResult × List CallRecord × Session σ) := do
  let name := found.method.name
  .report (.invoking callback.shape.category name)
  match target?.bind fun index => session.instances[index]?.map (index, ·) with
  | none =>
    .report (.instanceUnavailable name)
    return (.void, [], session)
  | some (index, target) =>
    match ← callback.shape.arguments found.method.parameters call with
    | .error source =>
      .report (.invocationSkipped name (.argumentUnavailable name source))
      return (fallback, [], session)
    | .ok arguments =>
      let (result, state, services) := found.method.invoke target arguments session.services
      let session := { session with
        instances := session.instances.set index { target with state }
        services }
      let calls := [⟨found.owner.name, name, target.classId, arguments⟩]
      match result with
      | .ok result => return (result, calls, session)
      | .error error =>
        .report (.callbackFailed name found.owner.name error)
        return (fallback, calls, session)

/-- The answer of one action, the calls that it made and the session after it. -/
def act (session : Session σ) (index : Nat) (slot : Slot σ) :
    Action → Logged (Answer σ × List CallRecord × Session σ)
  | .state => pure (.nothing, [], session)
  | .info =>
    pure (.info slot.callback.name? slot.callback.required slot.callback.shape.category, [], session)
  | .methodExists => do
    let (outcome, session) ← session.resolve index slot
    return (.truth (outcome.state ≠ .notFound), [], session)
  | .resolution => do
    let (outcome, session) ← session.resolve index slot
    return (.resolution outcome, [], session)
  | .invoke target? call fallback => do
    let (outcome, session) ← session.resolve index slot
    match outcome with
    | .notFound _ => return (.result fallback, [], session)
    | .notApplicable => return (.result .void, [], session)
    | .resolved found =>
      let (result, calls, session) ←
        session.invokeLocated slot.callback found target? call fallback
      return (.result result, calls, session)

/-- One step, if its callback exists. -/
def step? (session : Session σ) (step : Step) : Option (Report σ × Session σ) :=
  session.slots[step.callback]?.map fun slot =>
    let ⟨(answer, calls, after), events⟩ := session.act step.callback slot step.action
    let state := (after.slots[step.callback]?.map Slot.state).getD .notResolved
    (⟨answer, state, after.walks, calls, events⟩, after)

/-- A run of steps, if all their callbacks exist. -/
def run? (session : Session σ) : List Step → Option (List (Report σ) × Session σ)
  | [] => some ([], session)
  | step :: steps => do
    let (report, session) ← session.step? step
    let (reports, session) ← session.run? steps
    return (report :: reports, session)

end Session
end ComponentBinding
