import ComponentBinding.Proofs.Callback.Once

/-! Every invocation of a run follows the rule, and objects change by the bodies so called alone. -/
namespace ComponentBinding
open Session

variable {σ : Type}

/-- How the objects go through a run: each invocation takes them on by its rule, and every other
step calls no body and leaves them. -/
inductive Invocations (registry : Registry σ) (callbacks : List Callback) :
    Objects σ → List Step → List (Report σ) → Objects σ → Prop where
  | nil (objects : Objects σ) : Invocations registry callbacks objects [] [] objects
  | other {objects final : Objects σ} {step : Step} {steps : List Step} {report : Report σ}
    {reports : List (Report σ)}
    (noInvoke : ∀ target? call fallback, step.action ≠ .invoke target? call fallback)
    (noCall : report.calls = [])
    (rest : Invocations registry callbacks objects steps reports final) :
    Invocations registry callbacks objects (step :: steps) (report :: reports) final
  | invoke {objects middle final : Objects σ} {index : Nat} {callback : Callback}
    {target? : Option Nat} {call : Call} {fallback result : MethodResult} {steps : List Step}
    {report : Report σ} {reports : List (Report σ)}
    (declared : callbacks[index]? = some callback)
    (answer : report.answer = .result result)
    (rule : InvokeRule callback.shape objects target? call fallback (callback.outcome registry)
      result report.calls middle)
    (rest : Invocations registry callbacks middle steps reports final) :
    Invocations registry callbacks objects (⟨index, .invoke target? call fallback⟩ :: steps)
      (report :: reports) final

namespace Session

theorem Follows.invocations {registry : Registry σ} {callbacks : List Callback} {history : List Step}
    {session final : Session σ} (h : Follows registry callbacks history session) (steps : List Step)
    {reports : List (Report σ)} (known : ∀ step ∈ steps, step.callback < callbacks.length)
    (hrun : session.run? steps = some (reports, final)) :
    Invocations registry callbacks session.objects steps reports final.objects := by
  induction steps generalizing history session reports with
  | nil =>
    obtain ⟨rfl, rfl⟩ := Prod.mk.inj (Option.some.inj hrun)
    exact .nil _
  | cons step steps ih =>
    have hc := List.getElem?_eq_getElem (known step List.mem_cons_self)
    obtain ⟨report, middle, hstep, effect⟩ := h.step step hc
    simp only [run?, hstep, Option.bind_eq_bind, Option.pure_def, Option.bind_some] at hrun
    obtain ⟨⟨reports', last⟩, hrest, heq⟩ := Option.bind_eq_some_iff.mp hrun
    obtain ⟨rfl, rfl⟩ := Prod.mk.inj (Option.some.inj heq)
    have hinvocations := ih effect.follows (fun other ho => known other (List.mem_cons_of_mem _ ho)) hrest
    obtain ⟨index, action⟩ := step
    cases action with
    | invoke target? call fallback =>
      obtain ⟨result, hanswer, hrule⟩ := effect.invoked target? call fallback rfl
      exact .invoke hc hanswer hrule hinvocations
    | _ =>
      have hquiet := effect.quiet (by intro _ _ _ hinvoke; cases hinvoke)
      refine .other ?_ hquiet.1 (hquiet.2 ▸ hinvocations)
      intro _ _ _ hinvoke
      cases hinvoke

/-- Whatever ran before, an invocation answers, calls and leaves exactly what the rule says; the flag of
a property update needs a gate that admits one, and no way that a body ends touches an outcome. -/
theorem invoke_follows_rule (registry : Registry σ) (callbacks : List Callback) (instances : List (Instance σ))
    (services : ServiceStates σ) (past : List Step) (known : ∀ step ∈ past, step.callback < callbacks.length)
    {index : Nat} {callback : Callback} (declared : callbacks[index]? = some callback) (target? : Option Nat)
    (call : Call) (fallback : MethodResult) :
    ∃ reports session report after,
      (start registry callbacks instances services).run? past = some (reports, session) ∧
      Invocations registry callbacks ⟨instances, services⟩ past reports session.objects ∧
      session.step? ⟨index, .invoke target? call fallback⟩ = some (report, after) ∧
      (∀ result calls left, (report.answer = .result result ∧ report.calls = calls ∧ after.objects = left) ↔
        InvokeRule callback.shape session.objects target? call fallback (callback.outcome registry)
          result calls left) ∧
      (∀ found, callback.outcome registry = .resolved found → found.method.returns = .propertyMap →
        callback.gate.returnProperties = true) ∧
      after.outcome? index = some (callback.outcome registry) ∧
      ∀ other, other ≠ index → after.outcome? other = session.outcome? other := by
  have hstart := start_follows registry callbacks instances services
  obtain ⟨reports, session, hrun, hsession, _⟩ := hstart.run past known
  obtain ⟨report, after, hstep, effect⟩ :=
    hsession.step ⟨index, .invoke target? call fallback⟩ declared
  obtain ⟨result, hanswer, hrule⟩ := effect.invoked target? call fallback rfl
  refine ⟨reports, session, report, after, hrun, hstart.invocations past known hrun, hstep, ?_, ?_, ?_, ?_⟩
  · intro result' calls' left'
    constructor
    · rintro ⟨hanswer', rfl, rfl⟩
      obtain rfl := Answer.result.inj (hanswer.symm.trans hanswer')
      exact hrule
    · intro hrule'
      obtain ⟨rfl, rfl, rfl⟩ := hrule.unique hrule'
      exact ⟨hanswer, rfl, rfl⟩
  · intro found hfound hreturns
    rcases Callback.outcome_returns hfound with hnothing | ⟨_, hgate⟩
    · rw [hreturns] at hnothing
      cases hnothing
    · exact hgate
  · rw [effect.follows.outcome? declared, Callback.pending_concat]
    simp [Action.resolves]
  · intro other hother
    cases ho : callbacks[other]? with
    | none => rw [effect.follows.outcome?_absent ho, hsession.outcome?_absent ho]
    | some callback' =>
      rw [effect.follows.outcome? ho, hsession.outcome? ho, Callback.pending_concat]
      simp [Ne.symm hother]

/-- A body that counts in its instance, leaves a state with a service object and then panics is called once; the
caller gets the fallback, and the callback stays resolved. -/
theorem invoke_follows_rule_panicking_body :
    let left : ServiceStates Nat := fun identity => if identity = 2 then some 9 else none
    let bind : Method Nat := {
      name := "bind"
      parameters := [.serviceReference]
      body := fun target _ _ => (.panicked .other, target.state + 1, left) }
    let target : Class Nat := { name := "a.Target", loader := 0, methods := [bind] }
    let callback : Callback :=
      { name? := some "bind", classId := 0, shape := .reference ⟨.bind, "Log"⟩, gate := ⟨false, false⟩ }
    let past : List Step := [⟨0, .methodExists⟩]
    let call : Call := .reference { reference := ⟨7, []⟩ }
    (∀ step ∈ past, step.callback < [callback].length) ∧ [callback][0]? = some callback ∧
    ∃ reports session report after,
      (start ⟨[target]⟩ [callback] [⟨0, 4⟩]).run? past = some (reports, session) ∧
      session.step? ⟨0, .invoke (some 0) call ⟨true, none⟩⟩ = some (report, after) ∧
      report.answer = .result ⟨true, none⟩ ∧ report.calls.length = 1 ∧ after.objects = ⟨[⟨0, 5⟩], left⟩ ∧
      after.state? 0 = some .resolved := by
  intro left bind target callback past call
  have known : ∀ step ∈ past, step.callback < [callback].length := by simp [past]
  have declared : [callback][0]? = some callback := rfl
  obtain ⟨reports, session, report, after, hrun, hinvocations, hstep, hrule, _, houtcome, _⟩ :=
    invoke_follows_rule ⟨[target]⟩ [callback] [⟨0, 4⟩] (fun _ => none) past known declared (some 0) call ⟨true, none⟩
  have hobjects : session.objects = ⟨[⟨0, 4⟩], fun _ => none⟩ := by
    generalize session.objects = objects at hinvocations
    simp only [past] at hinvocations
    cases hinvocations with
    | other _ _ rest => cases rest; rfl
  have hfound : callback.outcome ⟨[target]⟩ = .resolved ⟨target, bind⟩ := by rfl
  rw [hobjects, hfound] at hrule
  obtain ⟨hanswer, hcalls, hleft⟩ := (hrule _ _ _).mpr (.called rfl rfl rfl rfl)
  refine ⟨known, declared, reports, session, report, after, hrun, hstep, hanswer, by rw [hcalls]; rfl, hleft, ?_⟩
  rw [state?_of_outcome? houtcome, hfound]
  rfl

end Session
end ComponentBinding
