import ComponentBinding.Proofs.Callback.InvokeRule

/-! What a run has done so far decides all that its session knows of the callbacks: a named callback
has been resolved if and only if some step needed its method, and then with the one outcome that a
search over the registry has. -/
namespace ComponentBinding
open Logged

variable {σ : Type}

/-- The operations that need the method. -/
def Action.resolves : Action → Bool
  | .state | .info => false
  | .methodExists | .resolution | .invoke .. => true

/-- Some step of the history needed the method of this callback. -/
def usedIn (history : List Step) (index : Nat) : Bool :=
  history.any fun step => step.callback = index && step.action.resolves

@[simp] theorem usedIn_nil (index : Nat) : usedIn [] index = false := rfl

theorem usedIn_append (earlier later : List Step) (index : Nat) :
    usedIn (earlier ++ later) index = (usedIn earlier index || usedIn later index) :=
  List.any_append

@[simp] theorem usedIn_cons (step : Step) (steps : List Step) (index : Nat) :
    usedIn (step :: steps) index =
      ((decide (step.callback = index) && step.action.resolves) || usedIn steps index) := rfl

/-- The slot of a callback after a history. -/
def Slot.after (registry : Registry σ) (history : List Step) (index : Nat) (callback : Callback) : Slot σ :=
  ⟨callback, if callback.name?.isSome && usedIn history index then some (callback.outcome registry) else none⟩

@[simp] theorem Slot.callback_after (registry : Registry σ) (history : List Step) (index : Nat)
    (callback : Callback) : (Slot.after registry history index callback).callback = callback := rfl

/-- A callback that is still to be searched after a history. -/
def Callback.pending (callback : Callback) (history : List Step) (index : Nat) : Bool :=
  callback.name?.isSome && !usedIn history index

theorem Slot.outcome?_after (registry : Registry σ) (history : List Step) (index : Nat) (callback : Callback) :
    (Slot.after registry history index callback).outcome? =
      if callback.pending history index then none else some (callback.outcome registry) := by
  obtain ⟨name?, classId, shape, gate, required⟩ := callback
  cases name? with
  | none => rfl
  | some name =>
    cases hused : usedIn history index <;> simp [outcome?, after, Callback.pending, hused]

/-- A step changes the slot of a pending callback that it needs, and no other. -/
theorem Slot.after_concat (registry : Registry σ) (history : List Step) (step : Step) (index : Nat)
    (callback : Callback) :
    Slot.after registry (history ++ [step]) index callback =
      if step.callback = index ∧ step.action.resolves = true ∧ callback.pending history index = true then
        ⟨callback, some (callback.outcome registry)⟩
      else Slot.after registry history index callback := by
  obtain ⟨name?, classId, shape, gate, required⟩ := callback
  cases name? with
  | none => simp [after, Callback.pending]
  | some name =>
    cases hused : usedIn history index <;> cases hs : step.action.resolves <;>
      by_cases hi : step.callback = index <;> simp [after, Callback.pending, usedIn_append, hused, hs, hi]

namespace Session

/-- Callbacks that nothing has used yet. -/
def start (registry : Registry σ) (callbacks : List Callback) (instances : List (Instance σ))
    (services : ServiceStates σ := fun _ => none) : Session σ where
  registry := registry
  slots := callbacks.map fun callback => { callback }
  instances := instances
  services := services

/-- The invariant of a run: the history alone tells what is in the slots. -/
structure Follows (registry : Registry σ) (callbacks : List Callback) (history : List Step)
    (session : Session σ) : Prop where
  registry_eq : session.registry = registry
  slots_eq : session.slots = callbacks.mapIdx (Slot.after registry history)

theorem start_follows (registry : Registry σ) (callbacks : List Callback) (instances : List (Instance σ))
    (services : ServiceStates σ) : Follows registry callbacks [] (start registry callbacks instances services) := by
  refine ⟨rfl, ?_⟩
  apply List.ext_getElem?
  intro index
  simp only [start, List.getElem?_map, List.getElem?_mapIdx]
  congr 1
  funext callback
  simp [Slot.after]

variable {registry : Registry σ} {callbacks : List Callback} {history : List Step} {session : Session σ}

theorem Follows.slot (h : Follows registry callbacks history session) {index : Nat} {callback : Callback}
    (hc : callbacks[index]? = some callback) :
    session.slots[index]? = some (Slot.after registry history index callback) := by
  rw [h.slots_eq, List.getElem?_mapIdx, hc]
  rfl

/-- Resolving a callback searches if it is pending, and answers the one outcome in any case. -/
theorem Follows.resolve_eq (h : Follows registry callbacks history session) (index : Nat) (callback : Callback) :
    session.resolve index (Slot.after registry history index callback) =
      if callback.pending history index then
        ⟨(callback.outcome registry, { session with
          slots := session.slots.set index ⟨callback, some (callback.outcome registry)⟩
          walks := session.walks + 1 }), (callback.searched registry).events⟩
      else ⟨(callback.outcome registry, session), []⟩ := by
  obtain ⟨rfl, _⟩ := h
  obtain ⟨name?, classId, shape, gate, required⟩ := callback
  cases name? with
  | none => rfl
  | some name =>
    let callback : Callback := ⟨some name, classId, shape, gate, required⟩
    let resolved (found : Resolution σ × Nat) : Resolution σ × Session σ := (found.1, { session with
      slots := session.slots.set index ⟨callback, some found.1⟩
      walks := session.walks + found.2 })
    cases hused : usedIn history index with
    | true => simp [resolve, Slot.after, Callback.pending, hused]; rfl
    | false =>
      simp only [resolve, Slot.after, Callback.pending, hused]
      exact congr (congrArg (Logged.mk ∘ resolved) (callback.searched_value session.registry))
        (List.append_nil _)

/-- A step that needs no method keeps the invariant, as it keeps the session. -/
theorem Follows.idle (h : Follows registry callbacks history session) {step : Step}
    (hs : step.action.resolves = false) : Follows registry callbacks (history ++ [step]) session := by
  refine ⟨h.registry_eq, ?_⟩
  rw [h.slots_eq]
  congr 1
  funext index callback
  simp [Slot.after_concat, hs]

/-- What resolving does for a step that needs the method. -/
structure Resolves (registry : Registry σ) (callbacks : List Callback) (history : List Step)
    (session : Session σ) (step : Step) (callback : Callback) (done : Logged (Resolution σ × Session σ)) : Prop where
  outcome : done.value.1 = callback.outcome registry
  follows : Follows registry callbacks (history ++ [step]) done.value.2
  walks : done.value.2.walks = session.walks + if callback.pending history step.callback then 1 else 0
  objects : done.value.2.objects = session.objects
  missing : done.events.countP Event.isRequiredMissing =
    if callback.pending history step.callback ∧ (callback.outcome registry).state = .notFound then 1 else 0

theorem Follows.resolves (h : Follows registry callbacks history session) (step : Step) {callback : Callback}
    (hc : callbacks[step.callback]? = some callback) (hs : step.action.resolves = true) :
    Resolves registry callbacks history session step callback
      (session.resolve step.callback (Slot.after registry history step.callback callback)) := by
  rw [h.resolve_eq]
  cases hp : callback.pending history step.callback with
  | false =>
    refine ⟨rfl, ⟨h.registry_eq, ?_⟩, by simp [hp], rfl, by simp [hp]⟩
    apply List.ext_getElem?
    intro index
    simp only [Bool.false_eq_true, if_false, h.slots_eq, List.getElem?_mapIdx]
    cases ho : callbacks[index]? with
    | none => rfl
    | some other =>
      rw [Option.map_some, Option.map_some, Slot.after_concat, if_neg]
      rintro ⟨rfl, _, hother⟩
      obtain rfl := Option.some.inj (hc.symm.trans ho)
      simp [hp] at hother
  | true =>
    refine ⟨rfl, ⟨h.registry_eq, ?_⟩, by simp [hp], rfl, ?_⟩
    · apply List.ext_getElem?
      intro index
      simp only [if_true, h.slots_eq, List.getElem?_set, List.length_mapIdx, List.getElem?_mapIdx]
      by_cases hi : step.callback = index
      · subst hi
        rw [if_pos rfl, if_pos (List.getElem?_eq_some_iff.mp hc).1, hc, Option.map_some,
          Slot.after_concat, if_pos ⟨rfl, hs, hp⟩]
      · rw [if_neg hi]
        congr 1
        funext other
        rw [Slot.after_concat, if_neg fun hother => hi hother.1]
    · simpa [hp] using callback.searched_missing registry

theorem Follows.congr (h : Follows registry callbacks history session) {after : Session σ}
    (hr : after.registry = session.registry) (hs : after.slots = session.slots) :
    Follows registry callbacks history after :=
  ⟨hr.trans h.registry_eq, hs.trans h.slots_eq⟩

/-- What one step of a run does, given the history before it. -/
structure StepEffect (registry : Registry σ) (callbacks : List Callback) (history : List Step)
    (session : Session σ) (step : Step) (callback : Callback) (report : Report σ) (after : Session σ) : Prop where
  follows : Follows registry callbacks (history ++ [step]) after
  walks : after.walks = session.walks +
    if step.action.resolves = true ∧ callback.pending history step.callback = true then 1 else 0
  reported : report.walks = after.walks
  missing : report.events.countP Event.isRequiredMissing =
    if (step.action.resolves = true ∧ callback.pending history step.callback = true) ∧
      (callback.outcome registry).state = .notFound then 1 else 0
  exists_answer : step.action = .methodExists →
    report.answer = .truth ((callback.outcome registry).state ≠ .notFound)
  invoked : ∀ target? call fallback, step.action = .invoke target? call fallback →
    ∃ result, report.answer = .result result ∧ InvokeRule callback.shape session.objects target? call fallback
      (callback.outcome registry) result report.calls after.objects
  quiet : (∀ target? call fallback, step.action ≠ .invoke target? call fallback) →
    report.calls = [] ∧ after.objects = session.objects

theorem step?_eq {slot : Slot σ} {step : Step} (hslot : session.slots[step.callback]? = some slot) :
    session.step? step =
      let done := session.act step.callback slot step.action
      some (⟨done.value.1, (done.value.2.2.slots[step.callback]?.map Slot.state).getD .notResolved,
        done.value.2.2.walks, done.value.2.1, done.events⟩, done.value.2.2) := by
  simp [step?, hslot]

/-- The step lemma: a step of a callback that exists goes through and keeps the invariant. -/
theorem Follows.step (h : Follows registry callbacks history session) (step : Step) {callback : Callback}
    (hc : callbacks[step.callback]? = some callback) :
    ∃ report after, session.step? step = some (report, after) ∧
      StepEffect registry callbacks history session step callback report after := by
  refine ⟨_, _, step?_eq (h.slot hc), ?_⟩
  obtain ⟨index, action⟩ := step
  cases action with
  | state =>
    refine ⟨h.idle rfl, rfl, rfl, rfl, ?_, ?_, fun _ => ⟨rfl, rfl⟩⟩
    · intro hexists
      cases hexists
    · intro _ _ _ hinvoke
      cases hinvoke
  | info =>
    refine ⟨h.idle rfl, rfl, rfl, rfl, ?_, ?_, fun _ => ⟨rfl, rfl⟩⟩
    · intro hexists
      cases hexists
    · intro _ _ _ hinvoke
      cases hinvoke
  | methodExists =>
    have hr := h.resolves ⟨index, .methodExists⟩ hc rfl
    refine ⟨hr.follows, ?_, rfl, ?_, fun _ => ?_, ?_, fun _ => ⟨rfl, hr.objects⟩⟩
    · simpa [Action.resolves, act] using hr.walks
    · simpa [Action.resolves, act] using hr.missing
    · simp only [act, value_bind, value_pure, hr.outcome]
    · intro _ _ _ hinvoke
      cases hinvoke
  | resolution =>
    have hr := h.resolves ⟨index, .resolution⟩ hc rfl
    refine ⟨hr.follows, ?_, rfl, ?_, ?_, ?_, fun _ => ⟨rfl, hr.objects⟩⟩
    · simpa [Action.resolves, act] using hr.walks
    · simpa [Action.resolves, act] using hr.missing
    · intro hexists
      cases hexists
    · intro _ _ _ hinvoke
      cases hinvoke
  | invoke target? call fallback =>
    have hr := h.resolves ⟨index, .invoke target? call fallback⟩ hc rfl
    rw [act_invoke]
    generalize session.resolve index (Slot.after registry history index callback) = resolved at hr ⊢
    have hd := resolved.value.2.dispatch_dispatched callback target? call fallback registry
    simp only [value_bind, value_pure, events_bind, events_pure, hr.outcome, Slot.callback_after]
    refine ⟨?_, ?_, rfl, ?_, ?_, ?_, fun hn => absurd rfl (hn target? call fallback)⟩
    · exact hr.follows.congr (by rw [hd.frame]) (by rw [hd.frame])
    · rw [hd.frame]
      simpa [Action.resolves] using hr.walks
    · simpa [Action.resolves, List.countP_append, hd.only.countP_eq_zero] using hr.missing
    · intro hexists
      cases hexists
    · intro _ _ _ hinvoke
      cases hinvoke
      exact ⟨_, rfl, hr.objects ▸ hd.rule⟩

end Session
end ComponentBinding
