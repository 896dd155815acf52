import ComponentBinding.Callback.Locate

/-! The rule of the method search, said without the search: the first level that declares a candidate
decides, and there the acceptable method of the earliest candidate. -/
namespace ComponentBinding

variable {σ : Type}

namespace Class

/-- The class itself declares a method of this name with one of the signatures. -/
def Declares (c : Class σ) (name : String) (candidates : List Signature) : Prop :=
  ∃ signature ∈ candidates, ∃ method ∈ c.methods, method.name = name ∧ method.parameters = signature

/-- The first declared method of this name and signature; a repetition of both is passed over. -/
def FirstDeclared (c : Class σ) (name : String) (signature : Signature) (method : Method σ) : Prop :=
  ∃ before after, c.methods = before ++ method :: after ∧
    (method.name = name ∧ method.parameters = signature) ∧
    ∀ other ∈ before, ¬ (other.name = name ∧ other.parameters = signature)

theorem FirstDeclared.mem {c : Class σ} {name : String} {signature : Signature} {method : Method σ}
    (h : c.FirstDeclared name signature method) : method ∈ c.methods := by
  obtain ⟨before, after, hmethods, _⟩ := h
  rw [hmethods]
  exact List.mem_append_right _ List.mem_cons_self

theorem FirstDeclared.name_parameters {c : Class σ} {name : String} {signature : Signature} {method : Method σ}
    (h : c.FirstDeclared name signature method) : method.name = name ∧ method.parameters = signature := by
  obtain ⟨_, _, _, hmatch, _⟩ := h
  exact hmatch

theorem declared?_eq_some_iff (c : Class σ) (name : String) (signature : Signature)
    (method : Method σ) :
    c.declared? name signature = some method ↔ c.FirstDeclared name signature method := by
  rw [declared?, List.find?_eq_some_iff_append]
  constructor
  · rintro ⟨hm, before, after, he, hb⟩
    exact ⟨before, after, he, by simpa using hm, fun other ho => by
      simpa [← Classical.not_and_iff_not_or_not] using hb other ho⟩
  · rintro ⟨before, after, he, hm, hb⟩
    exact ⟨by simpa using hm, before, after, he, fun other ho => by
      simpa [← Classical.not_and_iff_not_or_not] using hb other ho⟩

theorem declares_iff (c : Class σ) (name : String) (candidates : List Signature) :
    c.Declares name candidates ↔ ∃ signature ∈ candidates, ∃ method, c.FirstDeclared name signature method := by
  constructor
  · rintro ⟨signature, hs, method, hm, hmatch⟩
    refine ⟨signature, hs, ?_⟩
    have hsome : (c.declared? name signature).isSome := by
      rw [declared?, List.find?_isSome]
      exact ⟨method, hm, by simpa using hmatch⟩
    obtain ⟨first, hf⟩ := Option.isSome_iff_exists.mp hsome
    exact ⟨first, (c.declared?_eq_some_iff name signature first).mp hf⟩
  · rintro ⟨signature, hs, method, before, after, he, hmatch, _⟩
    exact ⟨signature, hs, method, by rw [he]; simp, hmatch⟩

theorem FirstDeclared.unique {c : Class σ} {name : String} {signature : Signature} {method method' : Method σ}
    (h : c.FirstDeclared name signature method) (h' : c.FirstDeclared name signature method') : method = method' :=
  Option.some.inj (((c.declared?_eq_some_iff ..).mpr h).symm.trans ((c.declared?_eq_some_iff ..).mpr h'))

/-- The methods that the search tries at a class are none exactly when it declares no candidate. -/
theorem no_candidate_iff (c : Class σ) (name : String) (candidates : List Signature) :
    candidates.filterMap (c.declared? name) = [] ↔ ¬ c.Declares name candidates := by
  rw [List.filterMap_eq_nil_iff, declares_iff]
  constructor
  · rintro hn ⟨signature, hs, method, hm⟩
    have := (c.declared?_eq_some_iff name signature method).mpr hm
    rw [hn signature hs] at this
    cases this
  · intro hn signature hs
    cases hd : c.declared? name signature with
    | none => rfl
    | some method =>
      exact False.elim (hn ⟨signature, hs, method, (c.declared?_eq_some_iff name signature method).mp hd⟩)

end Class

namespace Gate

/-- What may be called at a level of an ancestor list, level zero being the leaf. A package method
needs every class up to that level in the package and the loader of the leaf. -/
structure Acceptable (gate : Gate) (ancestors : List (Class σ)) (level : Nat)
    (method : Declaration) : Prop where
  onInstance : method.isStatic = false
  returns : method.returns = .nothing ∨ method.returns = .propertyMap ∧ gate.returnProperties = true
  visible : method.visibility = .everywhere ∨ method.visibility = .subclasses ∨
    (method.visibility = .ownClass ∧ level = 0 ∧ gate.relaxedVisibility = true) ∨
    (method.visibility = .package ∧ gate.relaxedVisibility = true ∧
      ∀ leaf ∈ ancestors.head?, ∀ c ∈ ancestors.take (level + 1),
        c.loader = leaf.loader ∧ c.package = leaf.package)

/-- The level at which the search ends: its class declares a candidate, and none below it does. -/
structure FirstLevel (name : String) (candidates : List Signature) (ancestors : List (Class σ))
    (level : Nat) (c : Class σ) : Prop where
  place : ancestors[level]? = some c
  declares : c.Declares name candidates
  below : ∀ lower < level, ∀ b, ancestors[lower]? = some b → ¬ b.Declares name candidates

/-- A candidate is accepted through the first method that the class declares for it. -/
def Accepted (gate : Gate) (name : String) (ancestors : List (Class σ)) (level : Nat) (c : Class σ)
    (signature : Signature) (method : Method σ) : Prop :=
  c.FirstDeclared name signature method ∧ gate.Acceptable ancestors level method.toDeclaration

inductive SearchRule (gate : Gate) (name : String) (ancestors : List (Class σ))
    (candidates : List Signature) : Except BindingError (Option (Located σ)) → Prop where
  | absent (silent : ∀ c ∈ ancestors, ¬ c.Declares name candidates) :
    SearchRule gate name ancestors candidates (.ok none)
  | found {level place : Nat} {c : Class σ} {signature : Signature} {method : Method σ}
    (first : FirstLevel name candidates ancestors level c)
    (candidate : candidates[place]? = some signature)
    (accepted : gate.Accepted name ancestors level c signature method)
    (earlier : ∀ i < place, ∀ other, candidates[i]? = some other →
      ∀ rejected, ¬ gate.Accepted name ancestors level c other rejected) :
    SearchRule gate name ancestors candidates (.ok (some ⟨c, method⟩))
  | inaccessible {level : Nat} {c leaf : Class σ}
    (first : FirstLevel name candidates ancestors level c)
    (bottom : ancestors.head? = some leaf)
    (refused : ∀ signature ∈ candidates, ∀ method,
      ¬ gate.Accepted name ancestors level c signature method) :
    SearchRule gate name ancestors candidates (.error (.ambiguousAccess name c.name leaf.name))

variable {gate : Gate} {name : String} {ancestors : List (Class σ)} {candidates : List Signature}

theorem FirstLevel.unique {level level' : Nat} {c c' : Class σ}
    (h : FirstLevel name candidates ancestors level c)
    (h' : FirstLevel name candidates ancestors level' c') : level = level' ∧ c = c' := by
  have hl : level = level' := by
    rcases Nat.lt_trichotomy level level' with hlt | he | hgt
    · exact False.elim (h'.below level hlt c h.place h.declares)
    · exact he
    · exact False.elim (h.below level' hgt c' h'.place h'.declares)
  subst hl
  exact ⟨rfl, Option.some.inj (h.place.symm.trans h'.place)⟩

theorem Accepted.unique {level : Nat} {c : Class σ} {signature : Signature} {method method' : Method σ}
    (h : gate.Accepted name ancestors level c signature method)
    (h' : gate.Accepted name ancestors level c signature method') : method = method' :=
  h.1.unique h'.1

/-- The rule leaves no choice. -/
theorem SearchRule.unique {r r' : Except BindingError (Option (Located σ))}
    (h : SearchRule gate name ancestors candidates r)
    (h' : SearchRule gate name ancestors candidates r') : r = r' := by
  cases h with
  | absent silent =>
    cases h' with
    | absent _ => rfl
    | found first => exact False.elim (silent _ (List.mem_of_getElem? first.place) first.declares)
    | inaccessible first => exact False.elim (silent _ (List.mem_of_getElem? first.place) first.declares)
  | found first candidate accepted earlier =>
    rename_i level place c signature method
    cases h' with
    | absent silent => exact False.elim (silent _ (List.mem_of_getElem? first.place) first.declares)
    | found first' candidate' accepted' earlier' =>
      rename_i level' place' c' signature' method'
      obtain ⟨rfl, rfl⟩ := first.unique first'
      have hp : place = place' := by
        rcases Nat.lt_trichotomy place place' with hlt | he | hgt
        · exact False.elim (earlier' place hlt signature candidate method accepted)
        · exact he
        · exact False.elim (earlier place' hgt signature' candidate' method' accepted')
      subst hp
      obtain rfl := Option.some.inj (candidate.symm.trans candidate')
      rw [accepted.unique accepted']
    | inaccessible first' _ refused =>
      obtain ⟨rfl, rfl⟩ := first.unique first'
      exact False.elim (refused _ (List.mem_of_getElem? candidate) _ accepted)
  | inaccessible first bottom refused =>
    cases h' with
    | absent silent => exact False.elim (silent _ (List.mem_of_getElem? first.place) first.declares)
    | found first' candidate accepted =>
      obtain ⟨rfl, rfl⟩ := first.unique first'
      exact False.elim (refused _ (List.mem_of_getElem? candidate) _ accepted)
    | inaccessible first' bottom' =>
      obtain ⟨rfl, rfl⟩ := first.unique first'
      obtain rfl := Option.some.inj (bottom.symm.trans bottom')
      rfl

/-- Acceptance only narrows on the way up. -/
theorem Acceptable.of_succ {level : Nat} {method : Declaration}
    (h : gate.Acceptable ancestors (level + 1) method) : gate.Acceptable ancestors level method := by
  refine ⟨h.onInstance, h.returns, ?_⟩
  rcases h.visible with he | hs | ⟨_, hlevel, _⟩ | ⟨hp, hr, hall⟩
  · exact .inl he
  · exact .inr (.inl hs)
  · cases hlevel
  · refine .inr (.inr (.inr ⟨hp, hr, fun leaf hleaf c hc => hall leaf hleaf c ?_⟩))
    exact List.take_subset_take_left ancestors (Nat.le_succ _) hc

theorem sharesPackage_iff (c leaf : Class σ) :
    sharesPackage c leaf = true ↔ c.loader = leaf.loader ∧ c.package = leaf.package := by
  simp [sharesPackage]

theorem all_sharesPackage_iff (below : List (Class σ)) (c : Class σ) (above : List (Class σ)) {leaf : Class σ}
    (hleaf : (below ++ c :: above).head? = some leaf) :
    (below ++ [c]).all (sharesPackage · leaf) = true ↔
      ∀ l ∈ (below ++ c :: above).head?, ∀ b ∈ (below ++ c :: above).take (below.length + 1),
        b.loader = l.loader ∧ b.package = l.package := by
  have htake : (below ++ c :: above).take (below.length + 1) = below ++ [c] := by
    rw [List.append_cons]
    exact List.take_left' (by simp)
  rw [htake, hleaf, List.all_eq_true]
  simp only [sharesPackage_iff, Option.mem_some_iff, forall_eq']

/-- The two flags of the search, taken from the classes passed so far, say what is acceptable. -/
theorem accepts_iff (gate : Gate) (below : List (Class σ)) (c : Class σ) (above : List (Class σ))
    (leaf : Class σ) (hleaf : (below ++ c :: above).head? = some leaf) (method : Declaration) :
    (gate.acceptance below.isEmpty ((below ++ [c]).all (sharesPackage · leaf))).accepts method = true ↔
      gate.Acceptable (below ++ c :: above) below.length method := by
  have hpackage := all_sharesPackage_iff below c above hleaf
  have hempty : below.isEmpty = true ↔ below.length = 0 := by
    rw [List.isEmpty_iff, List.length_eq_zero_iff]
  constructor
  · intro h
    simp only [Acceptance.accepts, acceptance, Bool.and_eq_true, Bool.not_eq_true'] at h
    obtain ⟨⟨hr, hs⟩, hv⟩ := h
    refine ⟨hs, ?_, ?_⟩
    · cases hret : method.returns with
      | nothing => exact .inl rfl
      | propertyMap => exact .inr ⟨rfl, by simpa [hret] using hr⟩
      | other name => simp [hret] at hr
    · cases hvis : method.visibility with
      | everywhere => exact .inl rfl
      | subclasses => exact .inr (.inl rfl)
      | ownClass =>
        simp only [hvis, Bool.and_eq_true] at hv
        exact .inr (.inr (.inl ⟨rfl, hempty.mp hv.2, hv.1⟩))
      | package =>
        simp only [hvis, Bool.and_eq_true] at hv
        exact .inr (.inr (.inr ⟨rfl, hv.1, hpackage.mp hv.2⟩))
  · rintro ⟨hs, hr, hv⟩
    simp only [Acceptance.accepts, acceptance, Bool.and_eq_true, Bool.not_eq_true']
    refine ⟨⟨?_, hs⟩, ?_⟩
    · rcases hr with hr | ⟨hr, hg⟩
      · rw [hr]
      · rw [hr]
        exact hg
    · rcases hv with hv | hv | ⟨hv, hl, hg⟩ | ⟨hv, hg, hp⟩
      · rw [hv]
      · rw [hv]
      · rw [hv, hg, hempty.mpr hl]
        rfl
      · rw [hv, hg, hpackage.mpr hp]
        rfl

/-- The method that the search takes at a class belongs to the earliest accepted candidate. -/
theorem find_accepted_iff (rule : Acceptance) (c : Class σ) (name : String) (candidates : List Signature)
    (method : Method σ) :
    (candidates.filterMap (c.declared? name)).find? (fun m => rule.accepts m.toDeclaration) = some method ↔
      ∃ (place : Nat) (signature : Signature), candidates[place]? = some signature ∧
        (c.FirstDeclared name signature method ∧ rule.accepts method.toDeclaration = true) ∧
        ∀ i < place, ∀ other, candidates[i]? = some other → ∀ rejected,
          ¬ (c.FirstDeclared name other rejected ∧ rule.accepts rejected.toDeclaration = true) := by
  simp only [List.find?_filterMap, Option.bind_eq_some_iff, List.find?_eq_some_iff_getElem,
    ← Class.declared?_eq_some_iff]
  constructor
  · rintro ⟨signature, ⟨hany, place, hlt, rfl, hbefore⟩, hm⟩
    refine ⟨place, _, List.getElem?_eq_getElem hlt, ⟨hm, by simpa [hm] using hany⟩, ?_⟩
    rintro i hi other hother rejected ⟨hd, hr⟩
    obtain ⟨_, rfl⟩ := List.getElem?_eq_some_iff.mp hother
    have := hbefore i hi
    simp [hd, hr] at this
  · rintro ⟨place, signature, hplace, ⟨hm, ha⟩, hbefore⟩
    obtain ⟨hlt, rfl⟩ := List.getElem?_eq_some_iff.mp hplace
    refine ⟨_, ⟨by simpa [hm] using ha, place, hlt, rfl, fun i hi => ?_⟩, hm⟩
    cases hd : c.declared? name candidates[i] with
    | none => rfl
    | some rejected =>
      have := hbefore i hi _ (List.getElem?_eq_getElem (Nat.lt_trans hi hlt)) rejected
      simpa [hd] using this

theorem find_accepted_none {rule : Acceptance} {c : Class σ} {name : String} {candidates : List Signature}
    (h : (candidates.filterMap (c.declared? name)).find? (fun m => rule.accepts m.toDeclaration) = none)
    {signature : Signature} (hs : signature ∈ candidates) {method : Method σ}
    (hm : c.FirstDeclared name signature method) : ¬ rule.accepts method.toDeclaration = true := by
  have hmem : method ∈ candidates.filterMap (c.declared? name) :=
    List.mem_filterMap.mpr ⟨signature, hs, (c.declared?_eq_some_iff name signature method).mpr hm⟩
  exact List.find?_eq_none.mp h method hmem

/-- The search from some class upwards completes the rule, given that no class below declares a
candidate; the two flags sum up those classes. -/
theorem searchFrom_follows (gate : Gate) (name : String) (candidates : List Signature) (leaf : Class σ)
    (below rest : List (Class σ)) (hleaf : (below ++ rest).head? = some leaf)
    (silent : ∀ b ∈ below, ¬ b.Declares name candidates) :
    SearchRule gate name (below ++ rest) candidates
      (searchFrom gate name candidates leaf below.isEmpty (below.all (sharesPackage · leaf)) rest).value := by
  induction rest generalizing below with
  | nil =>
    rw [List.append_nil]
    exact .absent silent
  | cons c above ih =>
    have hflag : (below.all (sharesPackage · leaf) && sharesPackage c leaf) =
        (below ++ [c]).all (sharesPackage · leaf) := by simp
    have hplace : (below ++ c :: above)[below.length]? = some c := by simp
    have hbelow : ∀ lower < below.length, ∀ b, (below ++ c :: above)[lower]? = some b →
        ¬ b.Declares name candidates := by
      intro lower hlt b hb
      rw [List.getElem?_append_left hlt] at hb
      exact silent b (List.mem_of_getElem? hb)
    have haccepts := gate.accepts_iff below c above leaf hleaf
    have hnext := ih (below ++ [c]) (by rwa [← List.append_cons])
    rw [← List.append_cons] at hnext
    simp only [searchFrom, hflag, Logged.value_bind]
    cases hfind : (candidates.filterMap (c.declared? name)).find? fun method =>
        (gate.acceptance below.isEmpty ((below ++ [c]).all (sharesPackage · leaf))).accepts
          method.toDeclaration with
    | some method =>
      obtain ⟨place, signature, hcandidate, accepted, earlier⟩ := (find_accepted_iff ..).mp hfind
      simp only [haccepts] at accepted earlier
      have hdeclares : c.Declares name candidates :=
        (c.declares_iff name candidates).mpr
          ⟨signature, List.mem_of_getElem? hcandidate, method, accepted.1⟩
      exact .found ⟨hplace, hdeclares, hbelow⟩ hcandidate accepted earlier
    | none =>
      by_cases hdeclares : c.Declares name candidates
      · have hsome : (candidates.filterMap (c.declared? name)).isEmpty = false := by
          rw [List.isEmpty_eq_false_iff, ne_eq, c.no_candidate_iff, Classical.not_not]
          exact hdeclares
        simp only [hsome, Bool.false_eq_true, if_false, Logged.value_bind, Logged.value_pure]
        refine .inaccessible ⟨hplace, hdeclares, hbelow⟩ hleaf ?_
        rintro signature hs method ⟨hfirst, hacceptable⟩
        exact find_accepted_none hfind hs hfirst ((haccepts method.toDeclaration).mpr hacceptable)
      · have hnone : (candidates.filterMap (c.declared? name)).isEmpty = true :=
          List.isEmpty_iff.mpr ((c.no_candidate_iff name candidates).mpr hdeclares)
        simp only [hnone, if_true]
        have hall : (below ++ [c]).isEmpty = false := by simp
        rw [hall] at hnext
        apply hnext
        intro b hb
        rcases List.mem_append.mp hb with hb | hb
        · exact silent b hb
        · rwa [List.mem_singleton.mp hb]

theorem locate_follows (gate : Gate) (name : String) (ancestors : List (Class σ))
    (candidates : List Signature) :
    SearchRule gate name ancestors candidates (gate.locate name ancestors candidates).value := by
  cases ancestors with
  | nil => exact .absent (by simp)
  | cons leaf above =>
    exact searchFrom_follows gate name candidates leaf [] (leaf :: above) rfl (by simp)

/-- The search returns exactly what the rule says, for every list of ancestors and candidates, and
what is acceptable only narrows from a level to the next. -/
theorem locate_value_iff (gate : Gate) (name : String) (ancestors : List (Class σ))
    (candidates : List Signature) (r : Except BindingError (Option (Located σ))) :
    ((gate.locate name ancestors candidates).value = r ↔ SearchRule gate name ancestors candidates r) ∧
      ∀ level method, gate.Acceptable ancestors (level + 1) method →
        gate.Acceptable ancestors level method := by
  refine ⟨⟨?_, ?_⟩, fun level method => Acceptable.of_succ⟩
  · rintro rfl
    exact locate_follows gate name ancestors candidates
  · intro h
    exact (locate_follows gate name ancestors candidates).unique h

end Gate
end ComponentBinding
