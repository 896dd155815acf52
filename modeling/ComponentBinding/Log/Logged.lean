import ComponentBinding.Log.Event

/-! Results together with the events reported on the way, in order. -/
namespace ComponentBinding

structure Logged (α : Type) where
  value : α
  events : List Event := []

namespace Logged

instance : Monad Logged where
  pure value := ⟨value, []⟩
  bind logged next := ⟨(next logged.value).value, logged.events ++ (next logged.value).events⟩

def report (event : Event) : Logged Unit := ⟨(), [event]⟩

/-- All results, and the events of each in turn. -/
def all {α : Type} (steps : List (Logged α)) : Logged (List α) :=
  ⟨steps.map Logged.value, steps.flatMap Logged.events⟩

variable {α β : Type}

@[simp] theorem value_pure (value : α) : (pure value : Logged α).value = value := rfl
@[simp] theorem events_pure (value : α) : (pure value : Logged α).events = [] := rfl

@[simp] theorem value_bind (logged : Logged α) (next : α → Logged β) :
    (logged >>= next).value = (next logged.value).value := rfl

@[simp] theorem events_bind (logged : Logged α) (next : α → Logged β) :
    (logged >>= next).events = logged.events ++ (next logged.value).events := rfl

@[simp] theorem value_map (f : α → β) (logged : Logged α) : (f <$> logged).value = f logged.value := rfl

@[simp] theorem events_map (f : α → β) (logged : Logged α) : (f <$> logged).events = logged.events :=
  List.append_nil _

@[simp] theorem events_report (event : Event) : (report event).events = [event] := rfl

@[simp] theorem value_all (steps : List (Logged α)) : (all steps).value = steps.map value := rfl

@[simp] theorem events_all (steps : List (Logged α)) :
    (all steps).events = steps.flatMap events := rfl

instance : LawfulMonad Logged := .mk' _
  (fun _ => by simp [Functor.map])
  (fun _ _ => by simp [pure, bind])
  (fun _ _ _ => by simp [bind])

end Logged
end ComponentBinding
