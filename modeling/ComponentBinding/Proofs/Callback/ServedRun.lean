import ComponentBinding.Proofs.Callback.InvokeRun
import ComponentBinding.Proofs.Callback.Served

/-! In every run an invocation of a resolved callback gets its arguments: a method is resolved for one of
the signatures that its shape offers. The one thing that can be missing is the service object of a
reference call. -/
namespace ComponentBinding
open Logged Session

variable {σ : Type}

/-- The report that an invocation was left out because an argument was missing. -/
def Event.isSkipped : Event → Bool
  | .invocationSkipped .. => true
  | _ => false

theorem Event.OfViews.not_skipped {event : Event} (h : event.OfViews) : event.isSkipped = false := by
  cases event <;> first | rfl | cases h

theorem Event.OfHierarchy.not_skipped {event : Event} (h : event.OfHierarchy) : event.isSkipped = false := by
  cases event <;> first | rfl | cases h

theorem Logged.Only.filter_isSkipped {α : Type} {logged : Logged α}
    (h : Only (fun event => event.isSkipped = false) logged) : logged.events.filter Event.isSkipped = [] :=
  List.filter_eq_nil_iff.mpr fun event he => by simp [h event he]

namespace Callback

theorem conclude_unskipped (callback : Callback) (name owner : String)
    (found : Except BindingError (Option (Located σ))) :
    Only (fun event => event.isSkipped = false) (callback.conclude name owner found) := by
  rcases found with cause | _ | located
  · cases hr : callback.required <;> simp only [conclude, hr] <;> exact Only.bind (only_report rfl) (only_pure _)
  · cases hr : callback.required <;> simp only [conclude, hr] <;> exact Only.bind (only_report rfl) (only_pure _)
  · exact only_pure _

theorem searched_unskipped (callback : Callback) (registry : Registry σ) :
    Only (fun event => event.isSkipped = false) (callback.searched registry) := by
  rw [searched]
  split
  · exact only_pure _
  · refine Only.bind (only_report rfl) (Only.bind ?_ ((callback.conclude_unskipped _ _ _).bind (only_pure _)))
    exact (callback.find_only registry _).mono fun _ => Event.OfHierarchy.not_skipped

/-- A method is resolved for a signature that the shape offers. -/
theorem outcome_offered {callback : Callback} {registry : Registry σ} {found : Located σ}
    (h : callback.outcome registry = .resolved found) :
    found.method.parameters ∈ callback.shape.candidates callback.gate := by
  obtain ⟨_, _, _, _, _, _, signature, hs, ⟨_, _, _, ⟨_, hparameters⟩, _⟩, _⟩ := outcome_resolved h
  rwa [hparameters]

end Callback

/-- The instance that an invocation names, if it is there. -/
def Session.available? (session : Session σ) (target? : Option Nat) : Option (Instance σ) :=
  target?.bind fun place => session.instances[place]?

/-- The reports of left out invocations: one if there is an instance and an argument for it is missing. -/
def skips (found : Located σ) (available? : Option (Instance σ)) :
    Except ArgumentError (List Argument) → List Event
  | .ok _ => []
  | .error source =>
    if available?.isSome then
      [.invocationSkipped found.method.name (.argumentUnavailable found.method.name source)]
    else []

namespace Session

theorem available?_eq_some_iff {session : Session σ} {target? : Option Nat} {target : Instance σ} :
    session.available? target? = some target ↔
      ∃ place, target? = some place ∧ session.instances[place]? = some target := by
  rw [available?, Option.bind_eq_some_iff]

theorem settle_unskipped (session : Session σ) (found : Located σ) (place : Nat) (target : Instance σ)
    (arguments : List Argument) (fallback : MethodResult)
    (ended : Except BindingError MethodResult × σ × ServiceStates σ) :
    Only (fun event => event.isSkipped = false) (session.settle found place target arguments fallback ended) := by
  obtain ⟨error | result, state⟩ := ended
  · exact Only.bind (only_report rfl) (only_pure _)
  · exact only_pure _

theorem invokeLocated_skips (session : Session σ) (callback : Callback) (found : Located σ)
    (target? : Option Nat) (call : Call) (fallback : MethodResult) :
    (session.invokeLocated callback found target? call fallback).events.filter Event.isSkipped =
      skips found (session.available? target?) (callback.shape.arguments found.method.parameters call).value := by
  have harguments : (callback.shape.arguments found.method.parameters call).events.filter Event.isSkipped = [] :=
    ((callback.shape.arguments_ofViews _ call).mono fun _ => Event.OfViews.not_skipped).filter_isSkipped
  cases htarget : session.available? target? with
  | none =>
    rw [session.invokeLocated_unavailable callback found call fallback htarget]
    cases (callback.shape.arguments found.method.parameters call).value <;> rfl
  | some target =>
    obtain ⟨place, named, present⟩ := available?_eq_some_iff.mp htarget
    rw [session.invokeLocated_available callback found call fallback named present]
    simp only [events_bind, List.filter_append, harguments, List.nil_append]
    cases harg : (callback.shape.arguments found.method.parameters call).value with
    | error source => rfl
    | ok arguments =>
      exact (session.settle_unskipped found place target arguments fallback
        (found.method.invoke target arguments session.services)).filter_isSkipped

theorem Follows.resolve_unskipped {registry : Registry σ} {callbacks : List Callback} {history : List Step}
    {session : Session σ} (h : Follows registry callbacks history session) (index : Nat) (callback : Callback) :
    Only (fun event => event.isSkipped = false)
      (session.resolve index (Slot.after registry history index callback)) := by
  rw [h.resolve_eq]
  split
  · exact callback.searched_unskipped registry
  · exact only_pure _

/-- The step of an invocation, with the reports of what it left out. -/
theorem Follows.invoke {registry : Registry σ} {callbacks : List Callback} {history : List Step}
    {session : Session σ} (h : Follows registry callbacks history session) {index : Nat} {callback : Callback}
    (hc : callbacks[index]? = some callback) {found : Located σ}
    (hfound : callback.outcome registry = .resolved found) (target? : Option Nat) (call : Call)
    (fallback : MethodResult) :
    ∃ report after result, session.step? ⟨index, .invoke target? call fallback⟩ = some (report, after) ∧
      report.answer = .result result ∧
      InvokeRule callback.shape session.objects target? call fallback (.resolved found) result report.calls
        after.objects ∧
      report.events.filter Event.isSkipped =
        skips found (session.available? target?) (callback.shape.arguments found.method.parameters call).value := by
  obtain ⟨report, after, hstep, effect⟩ := h.step ⟨index, .invoke target? call fallback⟩ hc
  obtain ⟨result, hanswer, hrule⟩ := effect.invoked target? call fallback rfl
  refine ⟨report, after, result, hstep, hanswer, hfound ▸ hrule, ?_⟩
  have hresolved := h.resolves ⟨index, .invoke target? call fallback⟩ hc rfl
  have hunskipped := (h.resolve_unskipped index callback).filter_isSkipped
  rw [step?_eq (h.slot hc)] at hstep
  obtain ⟨rfl, -⟩ := Prod.mk.inj (Option.some.inj hstep)
  simp only [act_invoke, events_bind, events_pure, List.append_nil, List.filter_append, hunskipped,
    List.nil_append, Slot.callback_after, hresolved.outcome, hfound, dispatch, invokeLocated_skips]
  have hinstances : (session.resolve index (Slot.after registry history index callback)).value.2.instances =
      session.instances := congrArg Objects.instances hresolved.objects
  rw [available?, hinstances]
  rfl

end Session

/-- An invocation that left nothing out: if its instance is there, the body was called once, with one
argument for each parameter. -/
structure Report.Served (report : Report σ) (found : Located σ) (available? : Option (Instance σ))
    (serves : Parameter → Argument → Prop) : Prop where
  nothingSkipped : report.events.filter Event.isSkipped = []
  called : ∀ target, available? = some target → ∃ arguments,
    List.Forall₂ serves found.method.parameters arguments ∧
    report.calls = [⟨found.owner.name, found.method.name, target.classId, arguments⟩]

/-- An invocation that was left out: it says which argument was missing, calls nothing and falls back. -/
structure Report.LeftOut (report : Report σ) (found : Located σ) (missing : ArgumentError)
    (fallback : MethodResult) : Prop where
  skipped : report.events.filter Event.isSkipped =
    [.invocationSkipped found.method.name (.argumentUnavailable found.method.name missing)]
  fallsBack : report.answer = .result fallback
  notCalled : report.calls = []

namespace Session

variable {registry : Registry σ} {callbacks : List Callback} {history : List Step} {session : Session σ}
  {index : Nat} {callback : Callback} {found : Located σ}

theorem Follows.invoke_served (h : Follows registry callbacks history session)
    (hc : callbacks[index]? = some callback) (hfound : callback.outcome registry = .resolved found)
    (target? : Option Nat) (call : Call) (fallback : MethodResult) {serves : Parameter → Argument → Prop}
    (hsupplied : session.available? target? = none ∨
      ∃ arguments, (callback.shape.arguments found.method.parameters call).value = .ok arguments ∧
        List.Forall₂ serves found.method.parameters arguments) :
    ∃ report after, session.step? ⟨index, .invoke target? call fallback⟩ = some (report, after) ∧
      report.Served found (session.available? target?) serves := by
  obtain ⟨report, after, result, hstep, _, hrule, hskips⟩ := h.invoke hc hfound target? call fallback
  refine ⟨report, after, hstep, ?_, fun target htarget => ?_⟩
  · rcases hsupplied with habsent | ⟨arguments, hvalue, _⟩
    · rw [hskips, habsent]
      cases (callback.shape.arguments found.method.parameters call).value <;> rfl
    · rw [hskips, hvalue]
      rfl
  · obtain ⟨place, named, present⟩ := available?_eq_some_iff.mp htarget
    obtain ⟨arguments, hvalue, hall⟩ := hsupplied.resolve_left (by rw [htarget]; exact Option.some_ne_none _)
    have hcalled : InvokeRule callback.shape session.objects target? call fallback (.resolved found) _ _ _ :=
      .called named present hvalue rfl
    exact ⟨arguments, hall, (hrule.unique hcalled).2.1⟩

theorem Follows.invoke_leftOut (h : Follows registry callbacks history session)
    (hc : callbacks[index]? = some callback) (hfound : callback.outcome registry = .resolved found)
    (target? : Option Nat) (call : Call) (fallback : MethodResult) {target : Instance σ} {missing : ArgumentError}
    (htarget : session.available? target? = some target)
    (hvalue : (callback.shape.arguments found.method.parameters call).value = .error missing) :
    ∃ report after, session.step? ⟨index, .invoke target? call fallback⟩ = some (report, after) ∧
      report.LeftOut found missing fallback := by
  obtain ⟨report, after, result, hstep, hanswer, hrule, hskips⟩ := h.invoke hc hfound target? call fallback
  obtain ⟨place, named, present⟩ := available?_eq_some_iff.mp htarget
  have hskipped : InvokeRule callback.shape session.objects target? call fallback (.resolved found) _ _ _ :=
    .skipped named present hvalue
  obtain ⟨rfl, hcalls, _⟩ := hrule.unique hskipped
  refine ⟨report, after, hstep, ?_, hanswer, hcalls⟩
  rw [hskips, htarget, hvalue]
  rfl

theorem Follows.invoke_lifecycle (h : Follows registry callbacks history session)
    (hc : callbacks[index]? = some callback) (hfound : callback.outcome registry = .resolved found)
    {shape : LifecycleShape} (hshape : callback.shape = .lifecycle shape) (target? : Option Nat)
    (call : LifecycleCall) (fallback : MethodResult) :
    ∃ report after, session.step? ⟨index, .invoke target? (.lifecycle call) fallback⟩ = some (report, after) ∧
      report.Served found (session.available? target?) (shape.Serves call) := by
  have hoffered := Callback.outcome_offered hfound
  rw [hshape] at hoffered
  have hsupplied := LifecycleShape.arguments_of_candidate hoffered call
  exact h.invoke_served hc hfound target? (.lifecycle call) fallback (.inr (by rwa [hshape]))

theorem Follows.invoke_reference (h : Follows registry callbacks history session)
    (hc : callbacks[index]? = some callback) (hfound : callback.outcome registry = .resolved found)
    {shape : ReferenceShape} (hshape : callback.shape = .reference shape) (target? : Option Nat)
    (call : ReferenceCall) (fallback : MethodResult) :
    ∃ report after, session.step? ⟨index, .invoke target? (.reference call) fallback⟩ = some (report, after) ∧
      ((session.available? target?).isSome ∧ call.Lacks found.method.parameters →
        report.LeftOut found (.serviceUnavailable call.reference.id) fallback) ∧
      (¬ ((session.available? target?).isSome ∧ call.Lacks found.method.parameters) →
        report.Served found (session.available? target?) (ReferenceShape.Serves call)) := by
  have hoffered := Callback.outcome_offered hfound
  rw [hshape] at hoffered
  by_cases hleft : (session.available? target?).isSome ∧ call.Lacks found.method.parameters
  · obtain ⟨target, htarget⟩ := Option.isSome_iff_exists.mp hleft.1
    have hvalue := ReferenceShape.arguments_of_lacking hoffered hleft.2
    obtain ⟨report, after, hstep, hreport⟩ := h.invoke_leftOut hc hfound target? (.reference call) fallback htarget
      (by rw [hshape]; exact hvalue)
    exact ⟨report, after, hstep, fun _ => hreport, fun hn => absurd hleft hn⟩
  · have hsupplied : session.available? target? = none ∨
        ∃ arguments, (callback.shape.arguments found.method.parameters (.reference call)).value = .ok arguments ∧
          List.Forall₂ (ReferenceShape.Serves call) found.method.parameters arguments := by
      cases htarget : session.available? target? with
      | none => exact .inl rfl
      | some target =>
        rw [htarget] at hleft
        rw [hshape]
        exact .inr (ReferenceShape.arguments_of_candidate hoffered fun hlacks => hleft ⟨rfl, hlacks⟩)
    obtain ⟨report, after, hstep, hreport⟩ :=
      h.invoke_served hc hfound target? (.reference call) fallback hsupplied
    exact ⟨report, after, hstep, fun hl => absurd hl hleft, fun _ => hreport⟩

end Session

/-- Every signature that a lifecycle shape offers is served in full, and so is every one that a reference
shape offers unless it lacks the service object, which it then reports. So in every run an invocation of a
resolved lifecycle callback is never left out, and one of a resolved reference callback on an instance that
is there exactly if the service object is lacking. -/
theorem offered_signatures_served (σ : Type) :
    (∀ (shape : LifecycleShape) (gate : Gate) (call : LifecycleCall), ∀ signature ∈ shape.candidates gate,
      ∃ arguments, (shape.arguments signature call).value = .ok arguments ∧
        List.Forall₂ (shape.Serves call) signature arguments) ∧
    (∀ (shape : ReferenceShape) (gate : Gate) (call : ReferenceCall), ∀ signature ∈ shape.candidates gate,
      ((∃ arguments, (ReferenceShape.arguments signature call).value = .ok arguments ∧
        List.Forall₂ (ReferenceShape.Serves call) signature arguments) ↔ ¬ call.Lacks signature) ∧
      (call.Lacks signature →
        (ReferenceShape.arguments signature call).value = .error (.serviceUnavailable call.reference.id))) ∧
    ∀ (registry : Registry σ) (callbacks : List Callback) (instances : List (Instance σ)) (services : ServiceStates σ)
      (past : List Step), (∀ step ∈ past, step.callback < callbacks.length) →
      ∃ reports session, (start registry callbacks instances services).run? past = some (reports, session) ∧
        ∀ index callback found, callbacks[index]? = some callback → callback.outcome registry = .resolved found →
          found.method.parameters ∈ callback.shape.candidates callback.gate ∧
          ∀ target? fallback,
            (∀ shape call, callback.shape = .lifecycle shape → ∃ report after,
              session.step? ⟨index, .invoke target? (.lifecycle call) fallback⟩ = some (report, after) ∧
              report.Served found (session.available? target?) (shape.Serves call)) ∧
            ∀ shape call, callback.shape = .reference shape → ∃ report after,
              session.step? ⟨index, .invoke target? (.reference call) fallback⟩ = some (report, after) ∧
              ((session.available? target?).isSome ∧ call.Lacks found.method.parameters →
                report.LeftOut found (.serviceUnavailable call.reference.id) fallback) ∧
              (¬ ((session.available? target?).isSome ∧ call.Lacks found.method.parameters) →
                report.Served found (session.available? target?) (ReferenceShape.Serves call)) := by
  refine ⟨fun shape gate call signature h => LifecycleShape.arguments_of_candidate h call,
    fun shape gate call signature h => ⟨⟨?_, ReferenceShape.arguments_of_candidate h⟩,
      ReferenceShape.arguments_of_lacking h⟩, ?_⟩
  · rintro ⟨arguments, hvalue, _⟩ hlacks
    rw [ReferenceShape.arguments_of_lacking h hlacks] at hvalue
    cases hvalue
  · intro registry callbacks instances services past known
    obtain ⟨reports, session, hrun, hsession, _⟩ :=
      (start_follows registry callbacks instances services).run past known
    refine ⟨reports, session, hrun, fun index callback found hc hfound => ⟨Callback.outcome_offered hfound, ?_⟩⟩
    intro target? fallback
    exact ⟨fun _ call hshape => hsession.invoke_lifecycle hc hfound hshape target? call fallback,
      fun _ call hshape => hsession.invoke_reference hc hfound hshape target? call fallback⟩

/-- Two methods of one class: the one that takes a service and its properties is left out, as the service is gone when
it is called, and the one that takes a bundle and the properties of the component is called with them. -/
theorem offered_signatures_served_lost_service :
    let bind : Method Nat := {
      name := "bind"
      parameters := [.service "Log", .propertyMap]
      body := fun target _ services => (.returned none, target.state + 1, services) }
    let activate : Method Nat := { bind with name := "activate", parameters := [.bundleContext, .propertyMap] }
    let target : Class Nat := { name := "a.Target", loader := 0, methods := [bind, activate] }
    let reference : ReferenceShape := ⟨.bind, "Log"⟩
    let lifecycle : LifecycleShape := { phase := .activate }
    let binding : Callback :=
      { name? := some "bind", classId := 0, shape := .reference reference, gate := ⟨true, false⟩ }
    let activation : Callback :=
      { name? := some "activate", classId := 0, shape := .lifecycle lifecycle, gate := ⟨true, false⟩ }
    let lost : ReferenceCall := { reference := ⟨7, []⟩ }
    let properties : Properties := [("k", .bool true)]
    let call : LifecycleCall := { context := ⟨"c", properties, ⟨4, "a"⟩⟩ }
    let past : List Step := [⟨0, .methodExists⟩]
    ((∀ step ∈ past, step.callback < [binding, activation].length) ∧
      [binding, activation][0]? = some binding ∧ [binding, activation][1]? = some activation ∧
      binding.outcome ⟨[target]⟩ = .resolved ⟨target, bind⟩ ∧
      activation.outcome ⟨[target]⟩ = .resolved ⟨target, activate⟩ ∧
      bind.parameters ∈ reference.candidates ⟨true, false⟩ ∧ activate.parameters ∈ lifecycle.candidates ⟨true, false⟩ ∧
      lost.Lacks bind.parameters) ∧
    ∃ reports session leftOut served after after',
      (start ⟨[target]⟩ [binding, activation] [⟨0, 4⟩]).run? past = some (reports, session) ∧
      session.step? ⟨0, .invoke (some 0) (.reference lost) ⟨true, none⟩⟩ = some (leftOut, after) ∧
      leftOut.LeftOut ⟨target, bind⟩ (.serviceUnavailable 7) ⟨true, none⟩ ∧
      session.step? ⟨1, .invoke (some 0) (.lifecycle call) ⟨true, none⟩⟩ = some (served, after') ∧
      served.Served ⟨target, activate⟩ (some ⟨0, 4⟩) (lifecycle.Serves call) ∧
      served.calls = [⟨"a.Target", "activate", 0, [.bundleContext ⟨4, "a"⟩, .properties properties]⟩] := by
  intro bind activate target reference lifecycle binding activation lost properties call past
  have known : ∀ step ∈ past, step.callback < [binding, activation].length := by simp [past]
  have declared : [binding, activation][0]? = some binding := rfl
  have declared' : [binding, activation][1]? = some activation := rfl
  have hfound : binding.outcome ⟨[target]⟩ = .resolved ⟨target, bind⟩ := by rfl
  have hfound' : activation.outcome ⟨[target]⟩ = .resolved ⟨target, activate⟩ := by rfl
  have hoffered : bind.parameters ∈ reference.candidates ⟨true, false⟩ := by decide
  have hoffered' : activate.parameters ∈ lifecycle.candidates ⟨true, false⟩ := by decide
  have hlacks : lost.Lacks bind.parameters := ⟨rfl, "Log", List.mem_cons_self⟩
  obtain ⟨_, _, runs⟩ := offered_signatures_served Nat
  obtain ⟨reports, session, hrun, hinvoked⟩ :=
    runs ⟨[target]⟩ [binding, activation] [⟨0, 4⟩] (fun _ => none) past known
  have hthere : session.available? (some 0) = some ⟨0, 4⟩ := by
    have hafter : ((start ⟨[target]⟩ [binding, activation] [⟨0, 4⟩]).run? past).map (·.2.available? (some 0)) =
      some (some ⟨0, 4⟩) := rfl
    rw [hrun] at hafter
    exact Option.some.inj hafter
  obtain ⟨_, hinvoke⟩ := hinvoked 0 binding ⟨target, bind⟩ declared hfound
  obtain ⟨leftOut, after, hstep, hleft, _⟩ := (hinvoke (some 0) ⟨true, none⟩).2 reference lost rfl
  obtain ⟨_, hinvoke'⟩ := hinvoked 1 activation ⟨target, activate⟩ declared' hfound'
  obtain ⟨served, after', hstep', hserved⟩ := (hinvoke' (some 0) ⟨true, none⟩).1 lifecycle call rfl
  rw [hthere] at hserved
  refine ⟨⟨known, declared, declared', hfound, hfound', hoffered, hoffered', hlacks⟩, reports, session, leftOut,
    served, after, after', hrun, hstep, hleft ⟨by rw [hthere]; rfl, hlacks⟩, hstep', hserved, ?_⟩
  obtain ⟨arguments, hall, hcalls⟩ := hserved.called ⟨0, 4⟩ rfl
  have harguments : arguments = [.bundleContext ⟨4, "a"⟩, .properties properties] := by
    cases hall with
    | cons first rest =>
      cases first
      cases rest with
      | cons second none =>
        cases second
        cases none
        rfl
  rw [hcalls, harguments]

end ComponentBinding
