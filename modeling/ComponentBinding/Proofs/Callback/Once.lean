import ComponentBinding.Proofs.Callback.History

/-! Every callback is searched at most once in a run, at the first step that needs its method, and
keeps the outcome. -/
namespace ComponentBinding
open Session

variable {σ : Type}

/-- The hierarchy walks in the steps of one callback, given the walks before them. -/
def walksBy (index : Nat) : Nat → List Step → List (Report σ) → Nat
  | walks, step :: steps, report :: reports =>
    (if step.callback = index then report.walks - walks else 0) + walksBy index report.walks steps reports
  | _, _, _ => 0

/-- The events in the steps of one callback. -/
def eventsBy (index : Nat) (steps : List Step) (reports : List (Report σ)) : List Event :=
  (steps.zip reports).flatMap fun pair => if pair.1.callback = index then pair.2.events else []

namespace Session

def outcome? (session : Session σ) (index : Nat) : Option (Resolution σ) :=
  session.slots[index]?.bind Slot.outcome?

def state? (session : Session σ) (index : Nat) : Option ResolutionState :=
  session.slots[index]?.map Slot.state

theorem state?_of_outcome? {session : Session σ} {index : Nat} {outcome : Resolution σ}
    (h : session.outcome? index = some outcome) : session.state? index = some outcome.state := by
  obtain ⟨slot, hslot, houtcome⟩ := Option.bind_eq_some_iff.mp h
  simp [state?, hslot, Slot.state, houtcome]

theorem run?_append (session : Session σ) (earlier later : List Step) :
    session.run? (earlier ++ later) = (session.run? earlier).bind fun done =>
      (done.2.run? later).map fun rest => (done.1 ++ rest.1, rest.2) := by
  induction earlier generalizing session with
  | nil => simp [run?]
  | cons step earlier ih =>
    simp only [List.cons_append, run?, Option.bind_eq_bind, Option.pure_def]
    cases session.step? step with
    | none => rfl
    | some pair =>
      obtain ⟨report, middle⟩ := pair
      simp only [Option.bind_some, ih]
      cases middle.run? earlier with
      | none => rfl
      | some done =>
        simp only [Option.bind_some]
        cases done.2.run? later <;> rfl

end Session

theorem Callback.pending_concat (callback : Callback) (history : List Step) (step : Step) (index : Nat) :
    callback.pending (history ++ [step]) index =
      (callback.pending history index && !(decide (step.callback = index) && step.action.resolves)) := by
  simp only [pending, usedIn_append, usedIn_cons, usedIn_nil, Bool.or_false, Bool.not_or, Bool.and_assoc]

theorem Slot.state_after (registry : Registry σ) (history : List Step) (index : Nat) (callback : Callback) :
    (Slot.after registry history index callback).state =
      if callback.pending history index then .notResolved else (callback.outcome registry).state := by
  rw [state, outcome?_after]
  cases callback.pending history index <;> rfl

/-- What the reports of a run say of one callback that was pending or not before it. -/
structure RunReports (registry : Registry σ) (index : Nat) (callback : Callback) (history : List Step)
    (walks : Nat) (steps : List Step) (reports : List (Report σ)) : Prop where
  walks : walksBy index walks steps reports =
    if callback.pending history index = true ∧ usedIn steps index = true then 1 else 0
  errors : (eventsBy index steps reports).countP Event.isRequiredMissing =
    if (callback.pending history index = true ∧ usedIn steps index = true) ∧
      (callback.outcome registry).state = .notFound then 1 else 0
  answers : ∀ report, (⟨index, .methodExists⟩, report) ∈ steps.zip reports →
    report.answer = .truth ((callback.outcome registry).state ≠ .notFound)

theorem RunReports.cons {registry : Registry σ} {callbacks : List Callback} {history steps : List Step}
    {session after : Session σ} {step : Step} {current : Callback} {report : Report σ} {reports : List (Report σ)}
    (hcurrent : callbacks[step.callback]? = some current)
    (effect : StepEffect registry callbacks history session step current report after)
    {index : Nat} {callback : Callback} (hc : callbacks[index]? = some callback)
    (rest : RunReports registry index callback (history ++ [step]) after.walks steps reports) :
    RunReports registry index callback history session.walks (step :: steps) (report :: reports) := by
  have hw := rest.walks
  have he := rest.errors
  rw [callback.pending_concat] at hw he
  have hevents : eventsBy index (step :: steps) (report :: reports) =
      (if step.callback = index then report.events else []) ++ eventsBy index steps reports := rfl
  by_cases hi : step.callback = index
  · subst hi
    obtain rfl := Option.some.inj (hcurrent.symm.trans hc)
    refine ⟨?_, ?_, ?_⟩
    · rw [walksBy, if_pos rfl, effect.reported, hw, effect.walks]
      cases hs : step.action.resolves <;> cases hp : current.pending history step.callback <;> simp [hs]
    · rw [hevents, if_pos rfl, List.countP_append, effect.missing, he]
      cases hs : step.action.resolves <;> cases hp : current.pending history step.callback <;> simp [hs]
    · intro answer hmem
      rcases List.mem_cons.mp hmem with heq | hmem
      · obtain ⟨hstep, rfl⟩ := Prod.mk.inj heq
        exact effect.exists_answer (congrArg Step.action hstep.symm)
      · exact rest.answers answer hmem
  · refine ⟨?_, ?_, ?_⟩
    · rw [walksBy, if_neg hi, effect.reported, hw]
      simp [hi]
    · rw [hevents, if_neg hi, List.nil_append, he]
      simp [hi]
    · intro answer hmem
      rcases List.mem_cons.mp hmem with heq | hmem
      · exact absurd (congrArg (·.1.callback) heq).symm hi
      · exact rest.answers answer hmem

/-- The run lemma: a run of callbacks that exist goes through, keeps the invariant, and reports of
each callback what the history decides. -/
theorem Session.Follows.run {registry : Registry σ} {callbacks : List Callback} {history : List Step}
    {session : Session σ} (h : Follows registry callbacks history session) (steps : List Step)
    (known : ∀ step ∈ steps, step.callback < callbacks.length) :
    ∃ reports final, session.run? steps = some (reports, final) ∧
      Follows registry callbacks (history ++ steps) final ∧
      ∀ index callback, callbacks[index]? = some callback →
        RunReports registry index callback history session.walks steps reports := by
  induction steps generalizing history session with
  | nil =>
    refine ⟨[], session, rfl, by rwa [List.append_nil], fun index callback _ => ⟨?_, ?_, nofun⟩⟩
    · simp [walksBy]
    · simp [eventsBy]
  | cons step steps ih =>
    have hlt := known step List.mem_cons_self
    obtain ⟨report, middle, hstep, effect⟩ := h.step step (List.getElem?_eq_getElem hlt)
    obtain ⟨reports, final, hrun, hfinal, hreports⟩ :=
      ih effect.follows fun other ho => known other (List.mem_cons_of_mem _ ho)
    refine ⟨report :: reports, final, ?_, by rwa [List.append_cons], fun index callback hc => ?_⟩
    · simp [run?, hstep, hrun]
    · exact (hreports index callback hc).cons (List.getElem?_eq_getElem hlt) effect hc

theorem Session.Follows.outcome? {registry : Registry σ} {callbacks : List Callback} {history : List Step}
    {session : Session σ} (h : Follows registry callbacks history session) {index : Nat} {callback : Callback}
    (hc : callbacks[index]? = some callback) :
    session.outcome? index =
      if callback.pending history index then none else some (callback.outcome registry) := by
  rw [Session.outcome?, h.slot hc]
  exact Slot.outcome?_after registry history index callback

theorem Session.Follows.outcome?_absent {registry : Registry σ} {callbacks : List Callback} {history : List Step}
    {session : Session σ} (h : Follows registry callbacks history session) {index : Nat}
    (hc : callbacks[index]? = none) : session.outcome? index = none := by
  rw [Session.outcome?, h.slots_eq, List.getElem?_mapIdx, hc]
  rfl

theorem Session.Follows.state? {registry : Registry σ} {callbacks : List Callback} {history : List Step}
    {session : Session σ} (h : Follows registry callbacks history session) {index : Nat} {callback : Callback}
    (hc : callbacks[index]? = some callback) :
    session.state? index =
      some (if callback.pending history index then .notResolved else (callback.outcome registry).state) := by
  rw [Session.state?, h.slot hc, Option.map_some, Slot.state_after]

/-- What a run and the session after it show of one callback: a single walk once some step needs the
method, the outcome that only the callback and the registry decide, and one error for a missing
required method. -/
structure ResolvedOnce (registry : Registry σ) (index : Nat) (callback : Callback) (steps : List Step)
    (reports : List (Report σ)) (final : Session σ) : Prop where
  walks : walksBy index 0 steps reports =
    if callback.name?.isSome = true ∧ usedIn steps index = true then 1 else 0
  outcome : final.outcome? index =
    if callback.name?.isSome = true ∧ usedIn steps index = false then none else some (callback.outcome registry)
  errors : (eventsBy index steps reports).countP Event.isRequiredMissing =
    if final.state? index = some .notFound then 1 else 0
  answers : ∀ report, (⟨index, .methodExists⟩, report) ∈ steps.zip reports →
    report.answer = .truth ((callback.outcome registry).state ≠ .notFound)

theorem resolvedOnce_of_follows {registry : Registry σ} {callbacks : List Callback} {steps : List Step}
    {reports : List (Report σ)} {final : Session σ} (h : Follows registry callbacks steps final) {index : Nat}
    {callback : Callback} (hc : callbacks[index]? = some callback)
    (hr : RunReports registry index callback [] 0 steps reports) :
    ResolvedOnce registry index callback steps reports final := by
  have hstart : callback.pending [] index = callback.name?.isSome := by simp [Callback.pending]
  refine ⟨?_, ?_, ?_, hr.answers⟩
  · rw [hr.walks, hstart]
  · rw [h.outcome? hc]
    simp [Callback.pending]
  · rw [hr.errors, h.state? hc, hstart]
    cases hn : callback.name? with
    | none => simp [Callback.outcome_of_nameless hn, Callback.pending, hn, Resolution.state]
    | some name => cases hu : usedIn steps index <;> simp [Callback.pending, hn, hu]

namespace Session

/-- At every moment of every run each callback has been searched once if it has a name and some step
needed its method, and not at all otherwise; what it is then, it is at the end. -/
theorem run_resolves_once (registry : Registry σ) (callbacks : List Callback) (instances : List (Instance σ))
    (services : ServiceStates σ) (steps : List Step) (known : ∀ step ∈ steps, step.callback < callbacks.length) :
    ∃ reports final, (start registry callbacks instances services).run? steps = some (reports, final) ∧
      ∀ earlier later, steps = earlier ++ later → ∃ past future middle,
        (start registry callbacks instances services).run? earlier = some (past, middle) ∧
        middle.run? later = some (future, final) ∧ reports = past ++ future ∧
        ∀ index callback, callbacks[index]? = some callback →
          ResolvedOnce registry index callback earlier past middle ∧
          (middle.state? index = some .notResolved ∨ final.state? index = middle.state? index) := by
  have hstart := start_follows registry callbacks instances services
  obtain ⟨reports, final, hrun, hfinal, _⟩ := hstart.run steps known
  refine ⟨reports, final, hrun, ?_⟩
  rintro earlier later rfl
  obtain ⟨past, middle, hpast, hmiddle, hreports⟩ :=
    hstart.run earlier fun step hs => known step (List.mem_append_left _ hs)
  rw [List.nil_append] at hfinal hmiddle
  obtain ⟨future, last, hfuture, _, _⟩ :=
    hmiddle.run later fun step hs => known step (List.mem_append_right _ hs)
  rw [run?_append, hpast, Option.bind_some, hfuture] at hrun
  obtain ⟨rfl, rfl⟩ := Prod.mk.inj (Option.some.inj hrun)
  refine ⟨past, future, middle, hpast, hfuture, rfl, fun index callback hc => ⟨?_, ?_⟩⟩
  · exact resolvedOnce_of_follows hmiddle hc (hreports index callback hc)
  · rw [hmiddle.state? hc, hfinal.state? hc]
    cases hp : callback.pending earlier index with
    | true => exact .inl rfl
    | false =>
      have hlater : callback.pending (earlier ++ later) index = false := by
        simp only [Callback.pending, usedIn_append, Bool.not_or] at hp ⊢
        rw [← Bool.and_assoc, hp, Bool.false_and]
      exact .inr (by rw [hlater])

/-- A required callback on a class that no one registered: two steps need the method, and there are
one walk and one error. -/
theorem run_resolves_once_missing_class :
    let callback : Callback :=
      { name? := some "bind", classId := 3, shape := .reference ⟨.bind, "Log"⟩, gate := ⟨false, false⟩ }
    let steps : List Step := [⟨0, .state⟩, ⟨0, .methodExists⟩, ⟨0, .resolution⟩]
    (∀ step ∈ steps, step.callback < [callback].length) ∧
    ∃ reports final, (start (⟨[]⟩ : Registry Unit) [callback] []).run? steps = some (reports, final) ∧
      walksBy 0 0 steps reports = 1 ∧ (eventsBy 0 steps reports).countP Event.isRequiredMissing = 1 ∧
      final.state? 0 = some .notFound := by
  intro callback steps
  have known : ∀ step ∈ steps, step.callback < [callback].length := by simp [steps]
  obtain ⟨reports, final, hrun, hmoments⟩ := run_resolves_once (⟨[]⟩ : Registry Unit) [callback] [] (fun _ => none) steps known
  obtain ⟨past, future, middle, hpast, _, _, hcallbacks⟩ := hmoments steps [] (List.append_nil _).symm
  obtain ⟨rfl, rfl⟩ := Prod.mk.inj (Option.some.inj (hpast.symm.trans hrun))
  obtain ⟨once, _⟩ := hcallbacks 0 callback rfl
  have hstate : middle.state? 0 = some .notFound := state?_of_outcome? once.outcome
  exact ⟨known, past, middle, hrun, by simpa [callback, steps, Action.resolves] using once.walks,
    by simpa [hstate] using once.errors, hstate⟩

end Session
end ComponentBinding
