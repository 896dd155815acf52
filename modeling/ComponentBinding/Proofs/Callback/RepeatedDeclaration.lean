import ComponentBinding.Proofs.Callback.SearchRule

/-! Methods that a class declares more than once with the same parameters. The search asks a class for one method
of each candidate, the first. If that one may not be called, the others are hidden behind it: the class is reported
inaccessible, or a later candidate taken, although one of them may be called. Nothing else is passed over at the
class where the search ends. -/
namespace ComponentBinding

variable {σ : Type}

namespace Class

/-- The class declares no name twice with the same parameters. -/
def DeclaresOnce (c : Class σ) : Prop :=
  c.methods.Pairwise fun a b => ¬ (a.name = b.name ∧ a.parameters = b.parameters)

variable {c : Class σ} {method : Method σ}

theorem exists_firstDeclared (h : method ∈ c.methods) :
    ∃ first, c.FirstDeclared method.name method.parameters first := by
  have hdeclares : c.Declares method.name [method.parameters] :=
    ⟨method.parameters, List.mem_cons_self, method, h, rfl, rfl⟩
  obtain ⟨signature, hsignature, first, hfirst⟩ := (c.declares_iff method.name [method.parameters]).mp hdeclares
  obtain rfl := List.mem_singleton.mp hsignature
  exact ⟨first, hfirst⟩

theorem DeclaresOnce.firstDeclared (once : c.DeclaresOnce) (h : method ∈ c.methods) :
    c.FirstDeclared method.name method.parameters method := by
  obtain ⟨before, after, hmethods⟩ := List.append_of_mem h
  have hpairs := once
  rw [DeclaresOnce, hmethods, List.pairwise_append] at hpairs
  exact ⟨before, after, hmethods, ⟨rfl, rfl⟩, fun other ho => hpairs.2.2 other ho method List.mem_cons_self⟩

end Class

/-- One signature stands in the list before every place of another. -/
def Signature.Before (candidates : List Signature) (earlier later : Signature) : Prop :=
  ∃ place : Nat, candidates[place]? = some earlier ∧ ∀ other : Nat, candidates[other]? = some later → place < other

namespace Gate

/-- The class declares the method for a candidate, and it may be called there. -/
structure Callable (gate : Gate) (name : String) (candidates : List Signature) (ancestors : List (Class σ))
    (level : Nat) (c : Class σ) (method : Method σ) : Prop where
  declared : method ∈ c.methods
  named : method.name = name
  candidate : method.parameters ∈ candidates
  acceptable : gate.Acceptable ancestors level method.toDeclaration

/-- The first method with the name and parameters of this one may not be called. -/
def Hidden (gate : Gate) (ancestors : List (Class σ)) (level : Nat) (c : Class σ) (method : Method σ) : Prop :=
  ∃ first, c.FirstDeclared method.name method.parameters first ∧
    ¬ gate.Acceptable ancestors level first.toDeclaration

variable {gate : Gate} {name : String} {ancestors : List (Class σ)} {candidates : List Signature} {level : Nat}
  {c : Class σ} {method : Method σ}

/-- A callable method whose candidate is not accepted is hidden. -/
theorem Callable.hidden (callable : gate.Callable name candidates ancestors level c method)
    (refused : ∀ other, ¬ gate.Accepted name ancestors level c method.parameters other) :
    gate.Hidden ancestors level c method := by
  obtain ⟨first, hfirst⟩ := Class.exists_firstDeclared callable.declared
  refine ⟨first, hfirst, fun acceptable => refused first ⟨?_, acceptable⟩⟩
  exact callable.named ▸ hfirst

/-- A candidate that is accepted has a callable method, and it is not hidden. -/
theorem Accepted.callable {signature : Signature} (accepted : gate.Accepted name ancestors level c signature method)
    (candidate : signature ∈ candidates) :
    gate.Callable name candidates ancestors level c method ∧ ¬ gate.Hidden ancestors level c method := by
  obtain ⟨first, acceptable⟩ := accepted
  obtain ⟨rfl, rfl⟩ := first.name_parameters
  refine ⟨⟨first.mem, rfl, candidate, acceptable⟩, ?_⟩
  rintro ⟨other, hfirst, refused⟩
  obtain rfl := first.unique hfirst
  exact refused acceptable

theorem not_hidden_of_declaresOnce (once : c.DeclaresOnce)
    (callable : gate.Callable name candidates ancestors level c method) : ¬ gate.Hidden ancestors level c method := by
  have accepted : gate.Accepted method.name ancestors level c method.parameters method :=
    ⟨once.firstDeclared callable.declared, callable.acceptable⟩
  exact (accepted.callable callable.candidate).2

/-- A class is reported inaccessible exactly if all its callable methods are hidden. -/
theorem locate_eq_error_iff {error : BindingError} :
    (gate.locate name ancestors candidates).value = .error error ↔
      ∃ level owner leaf, FirstLevel name candidates ancestors level owner ∧ ancestors.head? = some leaf ∧
        error = .ambiguousAccess name owner.name leaf.name ∧
        ∀ method, gate.Callable name candidates ancestors level owner method →
          gate.Hidden ancestors level owner method := by
  have rule := gate.locate_follows name ancestors candidates
  constructor
  · intro h
    rw [h] at rule
    cases rule with
    | @inaccessible level owner leaf first bottom refused =>
      exact ⟨level, owner, leaf, first, bottom, rfl, fun method callable =>
        callable.hidden (refused method.parameters callable.candidate)⟩
  · rintro ⟨level, owner, leaf, first, bottom, rfl, allHidden⟩
    refine rule.unique (.inaccessible first bottom fun signature hsignature method accepted => ?_)
    obtain ⟨callable, notHidden⟩ := accepted.callable hsignature
    exact notHidden (allHidden method callable)

/-- A method found is callable, and so is one of an earlier candidate only if it is hidden. -/
theorem hidden_of_located {found : Located σ}
    (h : (gate.locate name ancestors candidates).value = .ok (some found)) :
    ∃ level, FirstLevel name candidates ancestors level found.owner ∧
      gate.Callable name candidates ancestors level found.owner found.method ∧
      ∀ method, gate.Callable name candidates ancestors level found.owner method →
        Signature.Before candidates method.parameters found.method.parameters →
          gate.Hidden ancestors level found.owner method := by
  have rule := gate.locate_follows name ancestors candidates
  rw [h] at rule
  cases rule with
  | @found level place owner signature method first candidate accepted refused =>
    refine ⟨level, first, (accepted.callable (List.mem_of_getElem? candidate)).1, ?_⟩
    rintro other callable ⟨earlier, hearlier, hbefore⟩
    have hlt : earlier < place := hbefore place (accepted.1.name_parameters.2 ▸ candidate)
    exact callable.hidden (refused earlier hlt other.parameters hearlier)

/-- The search passes over hidden methods only. A class is reported inaccessible exactly if all its callable methods
are hidden, and where one is found, the callable methods of the candidates before it are hidden. So nothing callable
is passed over at a class that declares no name twice with the same parameters. -/
theorem locate_passes_over_hidden (gate : Gate) (name : String) (ancestors : List (Class σ))
    (candidates : List Signature) :
    (∀ error, (gate.locate name ancestors candidates).value = .error error ↔
      ∃ level owner leaf, FirstLevel name candidates ancestors level owner ∧ ancestors.head? = some leaf ∧
        error = .ambiguousAccess name owner.name leaf.name ∧
        ∀ method, gate.Callable name candidates ancestors level owner method →
          gate.Hidden ancestors level owner method) ∧
    (∀ found, (gate.locate name ancestors candidates).value = .ok (some found) →
      ∃ level, FirstLevel name candidates ancestors level found.owner ∧
        gate.Callable name candidates ancestors level found.owner found.method ∧
        ∀ method, gate.Callable name candidates ancestors level found.owner method →
          Signature.Before candidates method.parameters found.method.parameters →
            gate.Hidden ancestors level found.owner method) ∧
    ∀ level owner, FirstLevel name candidates ancestors level owner → owner.DeclaresOnce →
      (∀ error, (gate.locate name ancestors candidates).value = .error error →
        ∀ method, ¬ gate.Callable name candidates ancestors level owner method) ∧
      ∀ found, (gate.locate name ancestors candidates).value = .ok (some found) →
        ∀ method, Signature.Before candidates method.parameters found.method.parameters →
          ¬ gate.Callable name candidates ancestors level owner method := by
  refine ⟨fun error => locate_eq_error_iff, fun found => hidden_of_located, fun level owner first once => ⟨?_, ?_⟩⟩
  · intro error herror method callable
    obtain ⟨_, _, _, first', _, _, allHidden⟩ := locate_eq_error_iff.mp herror
    obtain ⟨rfl, rfl⟩ := first.unique first'
    exact not_hidden_of_declaresOnce once callable (allHidden method callable)
  · intro found hfound method hbefore callable
    obtain ⟨_, first', _, allHidden⟩ := hidden_of_located hfound
    obtain ⟨rfl, rfl⟩ := first.unique first'
    exact not_hidden_of_declaresOnce once callable (allHidden method callable hbefore)

/-- A private method of the base class hides the public one that repeats it. -/
theorem locate_passes_over_hidden_bind :
    let gate : Gate := ⟨false, false⟩
    let internal : Method Unit := {
      name := "bind"
      parameters := [.serviceReference]
      visibility := .ownClass
      body := fun _ _ services => (.returned none, (), services) }
    let shared : Method Unit := { internal with visibility := .everywhere }
    let base : Class Unit := { id := 0, name := "a.Base", loader := 1, methods := [internal, shared] }
    let leaf : Class Unit := { id := 1, name := "a.Leaf", loader := 1, parent? := some 0 }
    let candidates : List Signature := [[.serviceReference]]
    (gate.locate "bind" [leaf, base] candidates).value = .error (.ambiguousAccess "bind" "a.Base" "a.Leaf") ∧
    ∃ level owner, FirstLevel "bind" candidates [leaf, base] level owner ∧
      gate.Callable "bind" candidates [leaf, base] level owner shared ∧ gate.Hidden [leaf, base] level owner shared := by
  intro gate internal shared base leaf candidates
  have herror : (gate.locate "bind" [leaf, base] candidates).value =
      .error (.ambiguousAccess "bind" "a.Base" "a.Leaf") := rfl
  have hbase : FirstLevel "bind" candidates [leaf, base] 1 base := {
    place := rfl
    declares := ⟨_, List.mem_cons_self, internal, List.mem_cons_self, rfl, rfl⟩
    below := by
      intro lower hlt b hb
      obtain rfl : lower = 0 := by omega
      cases hb
      rintro ⟨_, _, _, hmem, _⟩
      cases hmem }
  obtain ⟨level, owner, _, first, _, _, allHidden⟩ :=
    ((locate_passes_over_hidden gate "bind" [leaf, base] candidates).1 _).mp herror
  obtain ⟨rfl, rfl⟩ := hbase.unique first
  have callable : gate.Callable "bind" candidates [leaf, base] 1 base shared :=
    ⟨List.mem_cons_of_mem _ List.mem_cons_self, rfl, List.mem_cons_self, rfl, .inl rfl, .inl rfl⟩
  exact ⟨herror, 1, base, first, callable, allHidden shared callable⟩

/-- Behind a static method the one that may be called is passed over: its class is reported inaccessible, or a method
without parameters is taken although the candidate of the other stands before it. -/
theorem callable_behind_static_passed_over :
    let gate : Gate := ⟨true, true⟩
    let onClass : Method Unit := {
      name := "activate"
      parameters := [.componentContext]
      isStatic := true
      body := fun _ _ services => (.returned none, (), services) }
    let onInstance : Method Unit := { onClass with isStatic := false }
    let plain : Method Unit := { onInstance with parameters := [] }
    let leaf : Class Unit := { name := "a.Leaf", loader := 1, methods := [onClass, onInstance, plain] }
    let context : Signature := [.componentContext]
    (gate.locate "activate" [leaf] [context]).value = .error (.ambiguousAccess "activate" "a.Leaf" "a.Leaf") ∧
    gate.Callable "activate" [context] [leaf] 0 leaf onInstance ∧
    (gate.locate "activate" [leaf] [context, []]).value = .ok (some ⟨leaf, plain⟩) ∧
    gate.Callable "activate" [context, []] [leaf] 0 leaf onInstance ∧
    Signature.Before [context, []] onInstance.parameters plain.parameters := by
  intro gate onClass onInstance plain leaf context
  have declared : onInstance ∈ leaf.methods := List.mem_cons_of_mem _ List.mem_cons_self
  have acceptable : gate.Acceptable [leaf] 0 onInstance.toDeclaration := ⟨rfl, .inl rfl, .inl rfl⟩
  have hbefore : Signature.Before [context, []] onInstance.parameters plain.parameters := by
    refine ⟨0, rfl, fun other hother => Nat.pos_of_ne_zero ?_⟩
    rintro rfl
    exact List.cons_ne_nil _ _ (Option.some.inj hother)
  exact ⟨rfl, ⟨declared, rfl, List.mem_cons_self, acceptable⟩, rfl,
    ⟨declared, rfl, List.mem_cons_self, acceptable⟩, hbefore⟩

end Gate
end ComponentBinding
