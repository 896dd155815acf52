import ComponentBinding.Proofs.Class.Ancestors

/-! Registering one class after another. A registry only grows: a class keeps its identifier for good, and a name
leads to the class registered last under it. So the ancestors of a class stay what they are, unless they ended at
an identifier that is given to a class only later. -/
namespace ComponentBinding.Registry

variable {σ : Type} {registry later : Registry σ}

theorem ids_register (registry : Registry σ) (c : Class σ) :
    (registry.register c).ids = (c.name, registry.classes.length) :: registry.ids := by
  simp [ids, register]

/-- A class that is found is found ever after. -/
def Extends (registry later : Registry σ) : Prop := ∀ id c, registry.get? id = some c → later.get? id = some c

theorem extends_register (registry : Registry σ) (c : Class σ) : registry.Extends (registry.register c) := by
  intro id found hfound
  have hplace : id < registry.classes.length := (List.getElem?_eq_some_iff.mp hfound).1
  rw [get?_register, if_neg (Nat.ne_of_lt hplace), hfound]

theorem extends_foldl_register (more : List (Class σ)) (registry : Registry σ) :
    registry.Extends (more.foldl register registry) := by
  induction more generalizing registry with
  | nil => exact fun _ _ found => found
  | cons c more ih => exact fun id found hfound => ih _ id found (extends_register registry c id found hfound)

/-- The names lead to registered classes. -/
def Indexed (registry : Registry σ) : Prop :=
  ∀ name id, registry.ids.lookup name = some id → ∃ c, registry.get? id = some c

theorem indexed_register (h : registry.Indexed) (c : Class σ) : (registry.register c).Indexed := by
  intro name id hid
  rw [ids_register, List.lookup_cons] at hid
  split at hid
  · obtain rfl := Option.some.inj hid
    exact ⟨_, (get?_register registry c _).trans (if_pos rfl)⟩
  · exact (h name id hid).imp fun found => extends_register registry c id found

theorem indexed_ofList (classes : List (Class σ)) : (ofList classes).Indexed := by
  induction classes using List.reverseRecOn with
  | nil => exact fun _ _ hid => nomatch hid
  | append_singleton classes c ih =>
    rw [ofList_concat]
    exact indexed_register ih c

theorem named?_register (h : registry.Indexed) (c : Class σ) (name : String) :
    (registry.register c).named? name =
      if c.name = name then some { c with id := registry.classes.length } else registry.named? name := by
  rw [named?, ids_register, List.lookup_cons]
  split
  next heq =>
    obtain rfl := beq_iff_eq.mp heq
    simp [get?_register]
  next hne =>
    have hother : c.name ≠ name := fun heq => by simp [heq] at hne
    rw [if_neg hother, named?]
    cases hid : registry.ids.lookup name with
    | none => rfl
    | some id =>
      obtain ⟨found, hfound⟩ := h name id hid
      exact (extends_register registry c id found hfound).trans hfound.symm

/-- The last of the classes with a name, under its place among them. -/
def Latest (classes : List (Class σ)) (name : String) (found : Class σ) : Prop :=
  ∃ before c after, classes = before ++ c :: after ∧ c.name = name ∧ (∀ d ∈ after, d.name ≠ name) ∧
    found = { c with id := before.length }

/-- Where a class stands in a list with one more class at its end. -/
theorem concat_eq_split_iff {classes before after : List (Class σ)} {c d : Class σ} :
    classes ++ [c] = before ++ d :: after ↔
      (before = classes ∧ d = c ∧ after = []) ∨ ∃ rest, after = rest ++ [c] ∧ classes = before ++ d :: rest := by
  constructor
  · intro hsplit
    rcases List.eq_nil_or_concat after with rfl | ⟨rest, e, rfl⟩
    · obtain ⟨rfl, hlast⟩ := List.append_inj' hsplit rfl
      exact .inl ⟨rfl, (List.singleton_inj.mp hlast).symm, rfl⟩
    · rw [List.concat_eq_append, ← List.cons_append, ← List.append_assoc] at hsplit
      obtain ⟨rfl, hlast⟩ := List.append_inj' hsplit rfl
      exact .inr ⟨rest, by rw [List.concat_eq_append, hlast], rfl⟩
  · rintro (⟨rfl, rfl, rfl⟩ | ⟨rest, rfl, rfl⟩)
    · rfl
    · simp

theorem latest_concat {classes : List (Class σ)} {c found : Class σ} {name : String} :
    Latest (classes ++ [c]) name found ↔
      if c.name = name then found = { c with id := classes.length } else Latest classes name found := by
  split
  next hname =>
    constructor
    · rintro ⟨before, d, after, hsplit, hd, hafter, rfl⟩
      rcases concat_eq_split_iff.mp hsplit with ⟨rfl, rfl, -⟩ | ⟨rest, rfl, -⟩
      · rfl
      · exact absurd hname (hafter c (by simp))
    · rintro rfl
      exact ⟨classes, c, [], rfl, hname, by simp, rfl⟩
  next hname =>
    constructor
    · rintro ⟨before, d, after, hsplit, hd, hafter, rfl⟩
      rcases concat_eq_split_iff.mp hsplit with ⟨-, rfl, -⟩ | ⟨rest, rfl, hrest⟩
      · exact absurd hd hname
      · exact ⟨before, d, rest, hrest, hd, fun a ha => hafter a (by simp [ha]), rfl⟩
    · rintro ⟨before, d, after, rfl, hd, hafter, rfl⟩
      have hnew : ∀ a ∈ after ++ [c], a.name ≠ name := by simpa [or_imp, forall_and] using ⟨hafter, hname⟩
      exact ⟨before, d, after ++ [c], by simp, hd, hnew, rfl⟩

theorem named?_ofList_eq_some_iff (classes : List (Class σ)) (name : String) (found : Class σ) :
    (ofList classes).named? name = some found ↔ Latest classes name found := by
  induction classes using List.reverseRecOn with
  | nil => simp [Latest, ofList, named?, ids]
  | append_singleton classes c ih =>
    rw [ofList_concat, named?_register (indexed_ofList classes), length_ofList, latest_concat]
    split
    · rw [Option.some_inj, eq_comm]
    · exact ih

theorem named?_ofList_eq_none_iff (classes : List (Class σ)) (name : String) :
    (ofList classes).named? name = none ↔ ∀ c ∈ classes, c.name ≠ name := by
  induction classes using List.reverseRecOn with
  | nil => simp [ofList, named?, ids]
  | append_singleton classes c ih =>
    rw [ofList_concat, named?_register (indexed_ofList classes)]
    split
    next h => simp [h]
    next h => simp [ih, or_imp, forall_and, h]

/-- A walk stays what it is while the identifier it ends at stays without a class. -/
theorem Walk.extend {id : Nat} {chain : List (Class σ)} {lost? : Option Nat} (h : Walk registry id chain lost?)
    (hextends : registry.Extends later) (hlost : ∀ missing ∈ lost?, later.get? missing = none) :
    Walk later id chain lost? := by
  induction h with
  | lost => exact .lost (hlost _ rfl)
  | root found top => exact .root (hextends _ _ found) top
  | up found child _ ih => exact .up (hextends _ _ found) child (ih hlost)

theorem ParentOf.extend {id parent : Nat} (h : registry.ParentOf id parent) (hextends : registry.Extends later) :
    later.ParentOf id parent :=
  h.imp fun c => And.imp_left (hextends id c)

theorem ParentOf.unique {id parent parent' : Nat} (h : registry.ParentOf id parent)
    (h' : registry.ParentOf id parent') : parent = parent' := by
  obtain ⟨c, found, child⟩ := h
  obtain ⟨d, found', child'⟩ := h'
  obtain rfl := Option.some.inj (found.symm.trans found')
  exact Option.some.inj (child.symm.trans child')

/-- Parents that never end lead to nothing but classes registered already. -/
theorem Endless.extend {leaf : Nat} (h : registry.Endless leaf) (hextends : registry.Extends later) :
    later.Endless leaf := by
  have hback : ∀ id, later.Reaches leaf id → registry.Reaches leaf id := by
    intro id reaches
    induction reaches with
    | refl => exact .refl
    | tail _ step ih =>
      obtain ⟨parent, hparent⟩ := h _ ih
      obtain rfl := (hparent.extend hextends).unique step
      exact ih.tail hparent
  exact fun id reaches => (h id (hback id reaches)).imp fun _ hparent => hparent.extend hextends

/-- Registering only extends. Each class keeps its place as its identifier and is found under it for good; a name
leads to the class registered last under it, and to nothing if there is none. Whatever is registered later, the
ancestors of a class stay what they are, a chain or a cycle, and where they ended at a missing class they change
exactly if a class is registered under that identifier. -/
theorem register_extends (classes more : List (Class σ)) :
    let registry := ofList classes
    let later := more.foldl register registry
    (∀ id, registry.get? id = classes[id]?.map fun c => { c with id := id }) ∧
    (∀ id c, registry.get? id = some c → later.get? id = some c) ∧
    (∀ name found, registry.named? name = some found ↔ Latest classes name found) ∧
    (∀ name, registry.named? name = none ↔ ∀ c ∈ classes, c.name ≠ name) ∧
    ∀ leaf,
      (∀ chain, registry.ancestors leaf = .ok chain → later.ancestors leaf = .ok chain) ∧
      (∀ start, registry.ancestors leaf = .error (.cycle start) → later.ancestors leaf = .error (.cycle start)) ∧
      ∀ id, registry.ancestors leaf = .error (.missingClass id) →
        (later.ancestors leaf ≠ registry.ancestors leaf ↔
          classes.length ≤ id ∧ id < classes.length + more.length) := by
  intro registry later
  have hlater : later = ofList (classes ++ more) := by simp [later, registry, ofList]
  have hn : registry.Numbered := numbered_ofList classes
  have hn' : later.Numbered := hlater ▸ numbered_ofList (classes ++ more)
  have hextends : registry.Extends later := extends_foldl_register more registry
  refine ⟨get?_ofList classes, hextends, named?_ofList_eq_some_iff classes, named?_ofList_eq_none_iff classes,
    fun leaf => ⟨fun chain hok => ?_, fun start hcycle => ?_, fun id hmissing => ?_⟩⟩
  · have walk := (ancestors_eq_ok_iff hn).mp hok
    exact (ancestors_eq_ok_iff hn').mpr (walk.extend hextends (by simp))
  · obtain ⟨hstart, endless⟩ := (ancestors_eq_cycle_iff hn).mp hcycle
    exact (ancestors_eq_cycle_iff hn').mpr ⟨hstart, endless.extend hextends⟩
  · obtain ⟨chain, walk⟩ := (ancestors_eq_missing_iff hn).mp hmissing
    have hsame : later.ancestors leaf = registry.ancestors leaf ↔ later.get? id = none := by
      rw [hmissing, ancestors_eq_missing_iff hn']
      constructor
      · rintro ⟨_, walk'⟩
        exact (exists_walk_lost_iff.mp ⟨_, walk'⟩).2
      · exact fun hlost => ⟨chain, walk.extend hextends fun _ h => Option.some.inj h ▸ hlost⟩
    have hunregistered : classes.length ≤ id := by
      have hnone : registry.get? id = none := (exists_walk_lost_iff.mp ⟨chain, walk⟩).2
      simpa [registry, get?_ofList] using hnone
    rw [ne_eq, hsame, hlater, get?_ofList]
    simp [hunregistered]

/-- A class without a parent, one that is its own parent, and one whose parent is registered only afterwards,
under a name that is taken. -/
theorem register_extends_parent_later :
    let classes : List (Class Unit) := [⟨0, "A", 1, some 3, []⟩, ⟨0, "B", 1, some 1, []⟩, ⟨0, "C", 1, none, []⟩]
    let registry := ofList classes
    let later := [(⟨0, "A", 2, none, []⟩ : Class Unit)].foldl register registry
    registry.named? "A" = some ⟨0, "A", 1, some 3, []⟩ ∧ later.named? "A" = some ⟨3, "A", 2, none, []⟩ ∧
    registry.named? "D" = none ∧
    registry.ancestors 2 = .ok [⟨2, "C", 1, none, []⟩] ∧ later.ancestors 2 = .ok [⟨2, "C", 1, none, []⟩] ∧
    registry.ancestors 1 = .error (.cycle 1) ∧ later.ancestors 1 = .error (.cycle 1) ∧
    registry.ancestors 0 = .error (.missingClass 3) ∧ later.ancestors 0 ≠ registry.ancestors 0 := by
  intro classes registry later
  obtain ⟨_, _, _, hnone, hancestors⟩ := register_extends classes [⟨0, "A", 2, none, []⟩]
  have hchain : registry.ancestors 2 = .ok [⟨2, "C", 1, none, []⟩] := rfl
  have hcycle : registry.ancestors 1 = .error (.cycle 1) := rfl
  have hmissing : registry.ancestors 0 = .error (.missingClass 3) := rfl
  have hunnamed : ∀ c ∈ classes, c.name ≠ "D" := by simp [classes]
  exact ⟨rfl, rfl, (hnone "D").mpr hunnamed, hchain, (hancestors 2).1 _ hchain, hcycle, (hancestors 1).2.1 _ hcycle,
    hmissing, ((hancestors 0).2.2 3 hmissing).mpr (by decide)⟩

end ComponentBinding.Registry
