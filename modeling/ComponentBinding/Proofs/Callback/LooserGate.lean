import ComponentBinding.Proofs.Callback.SearchRule

/-! Searches over the same classes and candidates under two gates, of which one permits all that the other
permits. Each search is decided at the first class that declares a candidate, so the gate has no part in where
it ends. What may be called there stays so under the looser gate, which therefore finds a method wherever the
other does, for the same candidate or an earlier one. -/
namespace ComponentBinding
namespace Gate

variable {σ : Type}

/-- The other gate permits all that this one permits. -/
structure Loosened (gate looser : Gate) : Prop where
  visibility : gate.relaxedVisibility = true → looser.relaxedVisibility = true
  returns : gate.returnProperties = true → looser.returnProperties = true

/-- The result comes from this class: it declares the method found, or the error names it. -/
def DecidedBy (name : String) (ancestors : List (Class σ)) (c : Class σ) :
    Except BindingError (Option (Located σ)) → Prop
  | .ok none => False
  | .ok (some found) => found.owner = c ∧ found.method ∈ c.methods ∧ found.method.name = name
  | .error error => ∃ leaf, ancestors.head? = some leaf ∧ error = .ambiguousAccess name c.name leaf.name

variable {gate looser : Gate} {name : String} {ancestors : List (Class σ)} {candidates : List Signature}
  {level : Nat} {c : Class σ}

theorem Acceptable.loosen (h : gate.Loosened looser) {method : Declaration}
    (acceptable : gate.Acceptable ancestors level method) : looser.Acceptable ancestors level method := by
  refine ⟨acceptable.onInstance, ?_, ?_⟩
  · rcases acceptable.returns with hnothing | ⟨hmap, hgate⟩
    · exact .inl hnothing
    · exact .inr ⟨hmap, h.returns hgate⟩
  · rcases acceptable.visible with he | hs | ⟨ho, hlevel, hgate⟩ | ⟨hp, hgate, hall⟩
    · exact .inl he
    · exact .inr (.inl hs)
    · exact .inr (.inr (.inl ⟨ho, hlevel, h.visibility hgate⟩))
    · exact .inr (.inr (.inr ⟨hp, h.visibility hgate, hall⟩))

theorem Accepted.loosen (h : gate.Loosened looser) {signature : Signature} {method : Method σ}
    (accepted : gate.Accepted name ancestors level c signature method) :
    looser.Accepted name ancestors level c signature method :=
  ⟨accepted.1, accepted.2.loosen h⟩

/-- The first class that declares a candidate decides the search, under every gate. -/
theorem FirstLevel.decided (first : FirstLevel name candidates ancestors level c) (gate : Gate) :
    DecidedBy name ancestors c (gate.locate name ancestors candidates).value := by
  have rule := gate.locate_follows name ancestors candidates
  generalize (gate.locate name ancestors candidates).value = result at rule
  cases rule with
  | absent silent => exact silent c (List.mem_of_getElem? first.place) first.declares
  | found first' _ accepted =>
    obtain ⟨_, rfl⟩ := first.unique first'
    exact ⟨rfl, accepted.1.mem, accepted.1.name_parameters.1⟩
  | inaccessible first' bottom =>
    obtain ⟨_, rfl⟩ := first.unique first'
    exact ⟨_, bottom, rfl⟩

/-- A result that comes from a class is a method of it, or the error that names it. -/
theorem DecidedBy.cases {result : Except BindingError (Option (Located σ))} {leaf : Class σ}
    (decided : DecidedBy name ancestors c result) (bottom : ancestors.head? = some leaf) :
    result = .error (.ambiguousAccess name c.name leaf.name) ∨
      ∃ method, result = .ok (some ⟨c, method⟩) ∧ method ∈ c.methods ∧ method.name = name := by
  cases result with
  | error error =>
    obtain ⟨leaf', bottom', rfl⟩ := decided
    cases bottom.symm.trans bottom'
    exact .inl rfl
  | ok found? =>
    cases found? with
    | none => exact False.elim decided
    | some found =>
      obtain ⟨owner, method⟩ := found
      obtain ⟨rfl, declared, named⟩ := decided
      exact .inr ⟨method, rfl, declared, named⟩

/-- A search that ends with nothing has met no class that declares a candidate. -/
theorem locate_eq_none_iff (gate : Gate) :
    (gate.locate name ancestors candidates).value = .ok none ↔ ∀ c ∈ ancestors, ¬ c.Declares name candidates := by
  have rule := gate.locate_follows name ancestors candidates
  constructor
  · intro h
    rw [h] at rule
    cases rule with
    | absent silent => exact silent
  · intro silent
    exact rule.unique (.absent silent)

/-- Where one candidate is accepted, the method found belongs to it or to an earlier one. -/
theorem locate_of_accepted {place : Nat} {signature : Signature} {method : Method σ}
    (first : FirstLevel name candidates ancestors level c) (candidate : candidates[place]? = some signature)
    (accepted : gate.Accepted name ancestors level c signature method) :
    ∃ found, (gate.locate name ancestors candidates).value = .ok (some ⟨c, found⟩) ∧
      found ∈ c.methods ∧ found.name = name ∧ ∃ earlier ≤ place, candidates[earlier]? = some found.parameters := by
  have rule := gate.locate_follows name ancestors candidates
  generalize (gate.locate name ancestors candidates).value = result at rule
  cases rule with
  | absent silent => exact False.elim (silent c (List.mem_of_getElem? first.place) first.declares)
  | @found level' earlier c' signature' found first' candidate' accepted' refused =>
    obtain ⟨rfl, rfl⟩ := first.unique first'
    have hplace : earlier ≤ place :=
      Nat.le_of_not_lt fun hlt => refused place hlt signature candidate method accepted
    obtain ⟨hname, hparameters⟩ := accepted'.1.name_parameters
    exact ⟨found, rfl, accepted'.1.mem, hname, earlier, hplace, hparameters ▸ candidate'⟩
  | inaccessible first' _ refused =>
    obtain ⟨rfl, rfl⟩ := first.unique first'
    exact False.elim (refused signature (List.mem_of_getElem? candidate) method accepted)

/-- Under a looser gate the search ends at the same class. It finds a method there if it found one before, and for no
later candidate; it finds nothing if it found nothing; and an inaccessible class either stays so or is now called. -/
theorem locate_loosened (h : gate.Loosened looser) (name : String) (ancestors : List (Class σ))
    (candidates : List Signature) :
    (∀ found, (gate.locate name ancestors candidates).value = .ok (some found) →
      found.method.parameters ∈ candidates ∧
      ∃ method, (looser.locate name ancestors candidates).value = .ok (some ⟨found.owner, method⟩) ∧
        method ∈ found.owner.methods ∧ method.name = name ∧
        ∀ place : Nat, candidates[place]? = some found.method.parameters →
          ∃ earlier ≤ place, candidates[earlier]? = some method.parameters) ∧
    ((gate.locate name ancestors candidates).value = .ok none ↔
      (looser.locate name ancestors candidates).value = .ok none) ∧
    (∀ error, (gate.locate name ancestors candidates).value = .error error →
      (looser.locate name ancestors candidates).value = .error error ∨
      ∃ level owner leaf method, FirstLevel name candidates ancestors level owner ∧
        ancestors.head? = some leaf ∧ error = .ambiguousAccess name owner.name leaf.name ∧
        (looser.locate name ancestors candidates).value = .ok (some ⟨owner, method⟩) ∧
        method ∈ owner.methods ∧ method.name = name) := by
  refine ⟨?_, ?_, ?_⟩
  · rintro ⟨owner, found⟩ hfound
    have rule := gate.locate_follows name ancestors candidates
    rw [hfound] at rule
    cases rule with
    | @found level place _ signature _ first candidate accepted =>
      obtain ⟨_, hparameters⟩ := accepted.1.name_parameters
      subst hparameters
      obtain ⟨method, hloose, declared, named, _⟩ := locate_of_accepted first candidate (accepted.loosen h)
      refine ⟨List.mem_of_getElem? candidate, method, hloose, declared, named, fun place' candidate' => ?_⟩
      -- the candidate may stand at several places
      obtain ⟨method', hloose', _, _, hearlier⟩ := locate_of_accepted first candidate' (accepted.loosen h)
      cases hloose.symm.trans hloose'
      exact hearlier
  · rw [locate_eq_none_iff, locate_eq_none_iff]
  · intro error herror
    have rule := gate.locate_follows name ancestors candidates
    rw [herror] at rule
    cases rule with
    | @inaccessible level owner leaf first bottom =>
      rcases (first.decided looser).cases bottom with hloose | ⟨method, hloose, declared, named⟩
      · exact .inl hloose
      · exact .inr ⟨level, owner, leaf, method, first, bottom, rfl, hloose, declared, named⟩

/-- A private method is passed over under the strict gate, and taken under the other one before what was found. -/
theorem locate_loosened_to_private :
    let strict : Gate := ⟨false, false⟩
    let relaxed : Gate := ⟨true, false⟩
    let withContext : Method Unit := {
      name := "activate"
      parameters := [.componentContext]
      visibility := .ownClass
      body := fun _ _ services => (.returned none, (), services) }
    let plain : Method Unit := { name := "activate", body := fun _ _ services => (.returned none, (), services) }
    let leaf : Class Unit := { name := "a.Leaf", loader := 1, methods := [plain, withContext] }
    let candidates : List Signature := [[.componentContext], []]
    strict.Loosened relaxed ∧
    (strict.locate "activate" [leaf] candidates).value = .ok (some ⟨leaf, plain⟩) ∧
    ∃ method, (relaxed.locate "activate" [leaf] candidates).value = .ok (some ⟨leaf, method⟩) ∧
      method ≠ plain ∧ ∃ earlier ≤ 1, candidates[earlier]? = some method.parameters := by
  intro strict relaxed withContext plain leaf candidates
  have hgates : strict.Loosened relaxed := ⟨fun h => absurd h Bool.false_ne_true, id⟩
  have hfound : (strict.locate "activate" [leaf] candidates).value = .ok (some ⟨leaf, plain⟩) := rfl
  have hrelaxed : (relaxed.locate "activate" [leaf] candidates).value = .ok (some ⟨leaf, withContext⟩) := rfl
  obtain ⟨_, method, hloose, _, _, hearlier⟩ :=
    (locate_loosened hgates "activate" [leaf] candidates).1 ⟨leaf, plain⟩ hfound
  cases hrelaxed.symm.trans hloose
  have hother : withContext ≠ plain := fun h => List.cons_ne_nil _ _ (congrArg (fun m => m.parameters) h)
  exact ⟨hgates, hfound, withContext, hloose, hother, hearlier 1 rfl⟩

end Gate
end ComponentBinding
