import ComponentBinding.Proofs.Callback.Once

/-! What a step reads and writes. It reads the registry, its own slot, the instance that it calls and the service
objects that it hands on, as far as bodies keep to their instance and their arguments; it writes that slot, that
instance, those objects and the number of walks. -/
namespace ComponentBinding
open Logged

variable {σ : Type}

/-! Service objects among arguments -/

/-- The identity of the service object that an argument is a handle to. -/
def Argument.identity? : Argument → Option Nat
  | .service handle => some handle.identity
  | _ => none

/-- The service objects that arguments reach. -/
def handed (arguments : List Argument) : List Nat := arguments.filterMap Argument.identity?

/-- The service objects that calls hand to bodies. -/
def handedBy (calls : List CallRecord) : List Nat := calls.flatMap fun call => handed call.arguments

/-- A body reads and changes the instance and the arguments that it is called with, and nothing else. -/
structure Body.Confined (body : Body σ) : Prop where
  reads : ∀ target arguments services services',
    (∀ identity ∈ handed arguments, services' identity = services identity) →
    (body target arguments services').1 = (body target arguments services).1 ∧
    (body target arguments services').2.1 = (body target arguments services).2.1 ∧
    ∀ identity ∈ handed arguments,
      (body target arguments services').2.2 identity = (body target arguments services).2.2 identity
  changes : ∀ target arguments services, ∀ identity ∉ handed arguments,
    (body target arguments services).2.2 identity = services identity

/-- Every body of the registered classes is confined. -/
def Registry.Confined (registry : Registry σ) : Prop :=
  ∀ c ∈ registry.classes, ∀ method ∈ c.methods, Body.Confined method.body

/-- The states of the service objects, with some of them replaced. -/
def ServiceStates.overwrite (services : ServiceStates σ) (identities : List Nat) (left : ServiceStates σ) :
    ServiceStates σ :=
  fun identity => if identity ∈ identities then left identity else services identity

@[simp] theorem ServiceStates.overwrite_nil (services left : ServiceStates σ) :
    services.overwrite [] left = services := by
  funext identity
  exact if_neg List.not_mem_nil

/-- The place of the instance to call. -/
def Action.target? : Action → Option Nat
  | .invoke target? _ _ => target?
  | .state | .info | .methodExists | .resolution => none

/-- The elements with one of them replaced, where there are a place and a new element. -/
def replaceAt {α : Type} (elements : List α) : Option Nat → Option α → List α
  | some place, some element => elements.set place element
  | _, _ => elements

section Replace
variable {α : Type} {elements : List α} {place? : Option Nat}

@[simp] theorem replaceAt_none (elements : List α) (place? : Option Nat) :
    replaceAt elements place? none = elements := by
  cases place? <;> rfl

end Replace

/-- What an invocation does to the objects, said without the session around it. -/
structure Effect (σ : Type) where
  calls : List CallRecord := []
  events : List Event := []
  instance? : Option (Instance σ) := none
  services : ServiceStates σ := fun _ => none

/-- The objects as an invocation leaves them: its instance, and the service objects that it hands on. -/
def Effect.write (effect : Effect σ) (session : Session σ) (target? : Option Nat) : Session σ :=
  { session with
    instances := replaceAt session.instances target? effect.instance?
    services := session.services.overwrite (handedBy effect.calls) effect.services }

/-- What a step does, said without the session around it. -/
structure Own (σ : Type) extends Effect σ where
  answer : Answer σ
  slot : Slot σ
  walks : Nat := 0

def Own.report (own : Own σ) (walks : Nat) : Report σ :=
  ⟨own.answer, own.slot.state, walks, own.calls, own.events⟩

namespace Session

/-- A session after a step. -/
def put (session : Session σ) (step : Step) (own : Own σ) : Session σ :=
  { own.write session step.action.target? with
    slots := session.slots.set step.callback own.slot
    walks := session.walks + own.walks }

/-- Two sessions that are the same in what a step reads besides service objects. -/
structure SameFor (step : Step) (session other : Session σ) : Prop where
  registry : other.registry = session.registry
  slot : other.slots[step.callback]? = session.slots[step.callback]?
  target : (step.action.target?.bind fun place => other.instances[place]?) =
    step.action.target?.bind fun place => session.instances[place]?

theorem SameFor.refl (step : Step) (session : Session σ) : SameFor step session session := ⟨rfl, rfl, rfl⟩

/-- Two sessions that are the same in the service objects that calls hand on. -/
def SameHanded (calls : List CallRecord) (services : ServiceStates σ) (session : Session σ) : Prop :=
  ∀ identity ∈ handedBy calls, session.services identity = services identity

end Session
end ComponentBinding
