import ComponentBinding.Class.Registry
import Mathlib.Data.List.Chain
import Mathlib.Data.List.Nodup
import Mathlib.Logic.Relation

/-! The ancestors of a class. Parents may be named before they are registered, or never, so following them
from a class ends at a class without a parent or at an identifier that no class has, or does not end. A walk
that ends meets each class once; so the number of classes is a bound that cuts none short. -/
namespace ComponentBinding.Registry

variable {σ : Type} {registry : Registry σ}

/-- A class names another as its parent. -/
def ParentOf (registry : Registry σ) (id parent : Nat) : Prop :=
  ∃ c, registry.get? id = some c ∧ c.parent? = some parent

/-- Following parents from one identifier leads to the other. -/
def Reaches (registry : Registry σ) : Nat → Nat → Prop := Relation.ReflTransGen registry.ParentOf

/-- Whatever following parents leads to has a parent again. -/
def Endless (registry : Registry σ) (leaf : Nat) : Prop :=
  ∀ id, registry.Reaches leaf id → ∃ parent, registry.ParentOf id parent

/-- The registered classes from a leaf to a class without a parent, each once, every one the parent of the one
before it. -/
structure ParentChain (registry : Registry σ) (leaf : Nat) (chain : List (Class σ)) : Prop where
  registered : ∀ c ∈ chain, registry.get? c.id = some c
  first : chain.head?.map Class.id = some leaf
  linked : chain.IsChain fun c above => c.parent? = some above.id
  last : ∀ c ∈ chain.getLast?, c.parent? = none
  once : (chain.map Class.id).Nodup

/-- Each class carries its own place as its identifier. -/
def Numbered (registry : Registry σ) : Prop := ∀ id c, registry.get? id = some c → c.id = id

theorem getElem?_concat (classes : List (Class σ)) (c : Class σ) (id : Nat) :
    (classes ++ [c])[id]? = if id = classes.length then some c else classes[id]? := by
  split
  next h => simp [h]
  next h =>
    rw [List.getElem?_append]
    split
    · rfl
    · have hplace : id - classes.length ≠ 0 := by omega
      rw [List.getElem?_singleton, if_neg hplace, List.getElem?_eq_none (by omega)]

theorem get?_register (registry : Registry σ) (c : Class σ) (id : Nat) :
    (registry.register c).get? id =
      if id = registry.classes.length then some { c with id := id } else registry.get? id := by
  rw [get?, register, getElem?_concat]
  split
  next h => rw [h]
  next => rfl

theorem ofList_concat (classes : List (Class σ)) (c : Class σ) :
    ofList (classes ++ [c]) = (ofList classes).register c := by
  simp [ofList]

theorem length_ofList (classes : List (Class σ)) : (ofList classes).classes.length = classes.length := by
  induction classes using List.reverseRecOn with
  | nil => rfl
  | append_singleton classes c ih => simp [ofList_concat, register, ih]

/-- A class is found under its place among the calls, and has it as its identifier. -/
theorem get?_ofList (classes : List (Class σ)) (id : Nat) :
    (ofList classes).get? id = classes[id]?.map fun c => { c with id := id } := by
  induction classes using List.reverseRecOn with
  | nil => rfl
  | append_singleton classes c ih =>
    rw [ofList_concat, get?_register, length_ofList, ih, getElem?_concat]
    split <;> rfl

theorem numbered_ofList (classes : List (Class σ)) : (ofList classes).Numbered := by
  intro id found hfound
  rw [get?_ofList] at hfound
  obtain ⟨c, _, rfl⟩ := Option.map_eq_some_iff.mp hfound
  rfl

/-- A walk along the parents: the classes on it, and the identifier without a class that it ends at, if not at
a class without a parent. -/
inductive Walk (registry : Registry σ) : Nat → List (Class σ) → Option Nat → Prop where
  | lost {id : Nat} (missing : registry.get? id = none) : Walk registry id [] (some id)
  | root {id : Nat} {c : Class σ} (found : registry.get? id = some c) (top : c.parent? = none) :
    Walk registry id [c] none
  | up {id parent : Nat} {c : Class σ} {above : List (Class σ)} {lost? : Option Nat}
    (found : registry.get? id = some c) (child : c.parent? = some parent) (rest : Walk registry parent above lost?) :
    Walk registry id (c :: above) lost?

namespace Walk

variable {id : Nat} {chain : List (Class σ)} {lost? : Option Nat}

theorem unique {chain' : List (Class σ)} {lost?' : Option Nat} (h : Walk registry id chain lost?)
    (h' : Walk registry id chain' lost?') : chain = chain' ∧ lost? = lost?' := by
  induction h generalizing chain' lost?' with
  | lost missing =>
    cases h' with
    | lost => exact ⟨rfl, rfl⟩
    | root found | up found => simp [missing] at found
  | root found top =>
    cases h' with
    | lost missing => simp [missing] at found
    | root found' =>
      obtain rfl := Option.some.inj (found.symm.trans found')
      exact ⟨rfl, rfl⟩
    | up found' child =>
      obtain rfl := Option.some.inj (found.symm.trans found')
      simp [top] at child
  | up found child _ ih =>
    cases h' with
    | lost missing => simp [missing] at found
    | root found' top =>
      obtain rfl := Option.some.inj (found.symm.trans found')
      simp [top] at child
    | up found' child' rest' =>
      obtain rfl := Option.some.inj (found.symm.trans found')
      obtain rfl := Option.some.inj (child.symm.trans child')
      obtain ⟨rfl, rfl⟩ := ih rest'
      exact ⟨rfl, rfl⟩

theorem registered (hn : registry.Numbered) (h : Walk registry id chain lost?) :
    ∀ c ∈ chain, registry.get? c.id = some c := by
  induction h with
  | lost => simp
  | root found =>
    intro c hc
    obtain rfl := List.mem_singleton.mp hc
    rwa [hn _ _ found]
  | up found _ _ ih =>
    intro c hc
    rcases List.mem_cons.mp hc with rfl | hc
    · rwa [hn _ _ found]
    · exact ih c hc

/-- From each class on a walk the rest of the walk is a walk too. -/
theorem from_mem (hn : registry.Numbered) (h : Walk registry id chain lost?) {c : Class σ} (hc : c ∈ chain) :
    ∃ rest, Walk registry c.id rest lost? ∧ rest.length ≤ chain.length := by
  induction h with
  | lost => cases hc
  | root found top =>
    obtain rfl := List.mem_singleton.mp hc
    rw [hn _ _ found]
    exact ⟨_, .root found top, Nat.le_refl _⟩
  | up found child rest ih =>
    rcases List.mem_cons.mp hc with rfl | hc
    · rw [hn _ _ found]
      exact ⟨_, .up found child rest, Nat.le_refl _⟩
    · obtain ⟨part, hpart, hlength⟩ := ih hc
      exact ⟨part, hpart, Nat.le_succ_of_le hlength⟩

/-- A class met again would be the start of the same walk, which ends sooner the second time. -/
theorem nodup (hn : registry.Numbered) (h : Walk registry id chain lost?) : (chain.map Class.id).Nodup := by
  induction h with
  | lost => exact List.nodup_nil
  | root => exact List.nodup_singleton _
  | @up id parent c above lost? found child rest ih =>
    refine List.nodup_cons.mpr ⟨fun hmem => ?_, ih⟩
    obtain ⟨d, hd, hid⟩ := List.mem_map.mp hmem
    obtain ⟨part, hpart, hlength⟩ := rest.from_mem hn hd
    rw [hid, hn _ _ found] at hpart
    obtain ⟨rfl, _⟩ := (Walk.up found child rest).unique hpart
    exact absurd hlength (Nat.not_succ_le_self _)

theorem length_le (hn : registry.Numbered) (h : Walk registry id chain lost?) :
    chain.length ≤ registry.classes.length := by
  have hsubset : chain.map Class.id ⊆ List.range registry.classes.length := by
    intro place hplace
    obtain ⟨c, hc, rfl⟩ := List.mem_map.mp hplace
    exact List.mem_range.mpr (List.getElem?_eq_some_iff.mp (h.registered hn c hc)).1
  simpa using (h.nodup hn).length_le_of_subset hsubset

/-- A bound beyond the length of a walk lets the search see its end. -/
theorem chain_eq (h : Walk registry id chain lost?) (leaf : Nat) {bound : Nat} (hb : chain.length < bound) :
    registry.chain leaf bound id = lost?.elim (.ok chain) fun missing => .error (.missingClass missing) := by
  induction h generalizing bound with
  | lost missing =>
    obtain ⟨bound, rfl⟩ := Nat.exists_eq_add_one_of_ne_zero (Nat.ne_zero_of_lt hb)
    simp [Registry.chain, missing]
  | root found top =>
    obtain ⟨bound, rfl⟩ := Nat.exists_eq_add_one_of_ne_zero (Nat.ne_zero_of_lt hb)
    simp [Registry.chain, found, top]
  | @up _ _ _ _ lost? found child _ ih =>
    obtain ⟨bound, rfl⟩ := Nat.exists_eq_add_one_of_ne_zero (Nat.ne_zero_of_lt hb)
    simp only [Registry.chain, found, child, ih (Nat.lt_of_succ_lt_succ hb)]
    cases lost? <;> rfl

theorem first (hn : registry.Numbered) (h : Walk registry id chain lost?) : ∀ c ∈ chain.head?, c.id = id := by
  intro c hc
  cases h with
  | lost => cases hc
  | root found | up found =>
    obtain rfl := Option.some.inj hc
    exact hn _ _ found

theorem linked (hn : registry.Numbered) (h : Walk registry id chain lost?) :
    chain.IsChain fun c above => c.parent? = some above.id := by
  induction h with
  | lost => exact .nil
  | root => exact .singleton _
  | up _ child rest ih =>
    refine List.isChain_cons.mpr ⟨fun above habove => ?_, ih⟩
    rw [child, rest.first hn above habove]

theorem last (h : Walk registry id chain lost?) (hroot : lost? = none) : ∀ c ∈ chain.getLast?, c.parent? = none := by
  induction h with
  | lost => cases hroot
  | root _ top => simpa using top
  | up _ _ rest ih =>
    cases rest with
    | lost => cases hroot
    | root _ top => simpa using top
    | up => simpa using ih hroot

theorem parentChain (hn : registry.Numbered) (h : Walk registry id chain none) : ParentChain registry id chain where
  registered := h.registered hn
  first := by
    cases h with
    | root found | up found => exact congrArg some (hn _ _ found)
  linked := h.linked hn
  last := h.last rfl
  once := h.nodup hn

end Walk

theorem ParentChain.walk {leaf : Nat} {chain : List (Class σ)} (h : ParentChain registry leaf chain) :
    Walk registry leaf chain none := by
  induction chain generalizing leaf with
  | nil => exact absurd h.first (by simp)
  | cons c above ih =>
    obtain rfl : c.id = leaf := by simpa using h.first
    have found : registry.get? c.id = some c := h.registered c List.mem_cons_self
    cases above with
    | nil => exact .root found (h.last c rfl)
    | cons d above =>
      obtain ⟨child, linked⟩ := List.isChain_cons_cons.mp h.linked
      refine .up found child (ih ⟨?_, rfl, linked, ?_, (List.nodup_cons.mp h.once).2⟩)
      · exact fun e he => h.registered e (List.mem_cons_of_mem _ he)
      · simpa using h.last

theorem exists_walk_lost_iff {leaf id : Nat} :
    (∃ chain, Walk registry leaf chain (some id)) ↔ registry.Reaches leaf id ∧ registry.get? id = none := by
  constructor
  · rintro ⟨chain, h⟩
    generalize hend : some id = lost? at h
    induction h with
    | lost missing =>
      obtain rfl := Option.some.inj hend
      exact ⟨.refl, missing⟩
    | root => cases hend
    | up found child _ ih => exact (ih hend).imp_left (Relation.ReflTransGen.head ⟨_, found, child⟩)
  · rintro ⟨reaches, missing⟩
    induction reaches using Relation.ReflTransGen.head_induction_on with
    | refl => exact ⟨[], .lost missing⟩
    | head step _ ih =>
      obtain ⟨c, found, child⟩ := step
      obtain ⟨above, rest⟩ := ih
      exact ⟨c :: above, .up found child rest⟩

theorem exists_walk_root_iff {leaf : Nat} :
    (∃ chain, Walk registry leaf chain none) ↔
      ∃ id c, registry.Reaches leaf id ∧ registry.get? id = some c ∧ c.parent? = none := by
  constructor
  · rintro ⟨chain, h⟩
    generalize hend : (none : Option Nat) = lost? at h
    induction h with
    | lost => cases hend
    | root found top => exact ⟨_, _, .refl, found, top⟩
    | up found child _ ih =>
      obtain ⟨id, c, reaches, hroot⟩ := ih hend
      exact ⟨id, c, .head ⟨_, found, child⟩ reaches, hroot⟩
  · rintro ⟨id, c, reaches, found, top⟩
    induction reaches using Relation.ReflTransGen.head_induction_on with
    | refl => exact ⟨[c], .root found top⟩
    | head step _ ih =>
      obtain ⟨d, found', child⟩ := step
      obtain ⟨above, rest⟩ := ih
      exact ⟨d :: above, .up found' child rest⟩

/-- Where following parents cannot go on, a walk ends. -/
theorem endless_iff {leaf : Nat} : registry.Endless leaf ↔ ¬∃ chain lost?, Walk registry leaf chain lost? := by
  constructor
  · rintro endless ⟨chain, lost?, h⟩
    cases lost? with
    | some missing =>
      obtain ⟨reaches, missing⟩ := exists_walk_lost_iff.mp ⟨chain, h⟩
      obtain ⟨_, _, found, _⟩ := endless _ reaches
      simp [missing] at found
    | none =>
      obtain ⟨id, c, reaches, found, top⟩ := exists_walk_root_iff.mp ⟨chain, h⟩
      obtain ⟨_, _, found', child⟩ := endless id reaches
      obtain rfl := Option.some.inj (found.symm.trans found')
      simp [top] at child
  · intro none id reaches
    by_contra stuck
    cases hfound : registry.get? id with
    | none =>
      obtain ⟨chain, h⟩ := exists_walk_lost_iff.mpr ⟨reaches, hfound⟩
      exact none ⟨chain, _, h⟩
    | some c =>
      cases hparent : c.parent? with
      | none =>
        obtain ⟨chain, h⟩ := exists_walk_root_iff.mpr ⟨id, c, reaches, hfound, hparent⟩
        exact none ⟨chain, _, h⟩
      | some parent => exact stuck ⟨parent, c, hfound, hparent⟩

/-- No bound lets an endless search end otherwise. -/
theorem chain_of_endless {id : Nat} (h : registry.Endless id) (leaf bound : Nat) :
    registry.chain leaf bound id = .error (.cycle leaf) := by
  induction bound generalizing id with
  | zero => rfl
  | succ bound ih =>
    obtain ⟨parent, c, found, child⟩ := h id .refl
    have habove : registry.Endless parent := fun other reaches => h other (reaches.head ⟨c, found, child⟩)
    simp only [chain, found, child, ih habove]
    rfl

theorem ancestors_cases (hn : registry.Numbered) (leaf : Nat) :
    (∃ chain lost?, Walk registry leaf chain lost? ∧
      registry.ancestors leaf = lost?.elim (.ok chain) fun id => .error (.missingClass id)) ∨
    registry.Endless leaf ∧ registry.ancestors leaf = .error (.cycle leaf) := by
  by_cases hwalk : ∃ chain lost?, Walk registry leaf chain lost?
  · obtain ⟨chain, lost?, walk⟩ := hwalk
    exact .inl ⟨chain, lost?, walk, walk.chain_eq leaf (Nat.lt_succ_of_le (walk.length_le hn))⟩
  · have endless := endless_iff.mpr hwalk
    exact .inr ⟨endless, chain_of_endless endless leaf _⟩

theorem ancestors_eq_ok_iff (hn : registry.Numbered) {leaf : Nat} {chain : List (Class σ)} :
    registry.ancestors leaf = .ok chain ↔ Walk registry leaf chain none := by
  rcases ancestors_cases hn leaf with ⟨chain', lost?, walk, hsearch⟩ | ⟨endless, hsearch⟩ <;> rw [hsearch]
  · constructor
    · intro h
      cases lost? with
      | none =>
        obtain rfl := Except.ok.inj h
        exact walk
      | some id => cases h
    · intro walk'
      obtain ⟨rfl, rfl⟩ := walk.unique walk'
      rfl
  · refine iff_of_false (fun h => ?_) fun walk => endless_iff.mp endless ⟨_, _, walk⟩
    cases h

theorem ancestors_eq_missing_iff (hn : registry.Numbered) {leaf id : Nat} :
    registry.ancestors leaf = .error (.missingClass id) ↔ ∃ chain, Walk registry leaf chain (some id) := by
  rcases ancestors_cases hn leaf with ⟨chain, lost?, walk, hsearch⟩ | ⟨endless, hsearch⟩ <;> rw [hsearch]
  · constructor
    · intro h
      cases lost? with
      | none => cases h
      | some missing =>
        obtain rfl := HierarchyError.missingClass.inj (Except.error.inj h)
        exact ⟨chain, walk⟩
    · rintro ⟨chain', walk'⟩
      obtain ⟨rfl, rfl⟩ := walk.unique walk'
      rfl
  · refine iff_of_false (fun h => ?_) fun ⟨_, walk⟩ => endless_iff.mp endless ⟨_, _, walk⟩
    cases h

theorem ancestors_eq_cycle_iff (hn : registry.Numbered) {leaf start : Nat} :
    registry.ancestors leaf = .error (.cycle start) ↔ start = leaf ∧ registry.Endless leaf := by
  rcases ancestors_cases hn leaf with ⟨chain, lost?, walk, hsearch⟩ | ⟨endless, hsearch⟩ <;> rw [hsearch]
  · refine iff_of_false (fun h => ?_) fun h => endless_iff.mp h.2 ⟨_, _, walk⟩
    cases lost? <;> cases h
  · constructor
    · intro h
      cases h
      exact ⟨rfl, endless⟩
    · rintro ⟨rfl, _⟩
      rfl

/-- However classes name their parents, the search for the ancestors of a class answers the chain up to a class
without a parent if there is one, the identifier without a class that following parents leads to, or a cycle if
following parents never ends. -/
theorem ancestors_exact (classes : List (Class σ)) (leaf : Nat) :
    let registry := ofList classes
    (∀ chain, registry.ancestors leaf = .ok chain ↔ registry.ParentChain leaf chain) ∧
    ((∃ chain, registry.ancestors leaf = .ok chain) ↔
      ∃ id root, registry.Reaches leaf id ∧ registry.get? id = some root ∧ root.parent? = none) ∧
    (∀ id, registry.ancestors leaf = .error (.missingClass id) ↔
      registry.Reaches leaf id ∧ registry.get? id = none) ∧
    ∀ start, registry.ancestors leaf = .error (.cycle start) ↔ start = leaf ∧ registry.Endless leaf := by
  intro registry
  have hn : registry.Numbered := numbered_ofList classes
  refine ⟨fun chain => ?_, ?_, fun id => ?_, fun start => ancestors_eq_cycle_iff hn⟩
  · rw [ancestors_eq_ok_iff hn]
    exact ⟨Walk.parentChain hn, ParentChain.walk⟩
  · simp only [ancestors_eq_ok_iff hn]
    exact exists_walk_root_iff
  · rw [ancestors_eq_missing_iff hn]
    exact exists_walk_lost_iff

/-- A chain through every registered class, of parents named before and after they are registered. -/
example :
    let registry : Registry Unit := ofList [⟨0, "A", 1, some 2, []⟩, ⟨0, "B", 1, some 0, []⟩, ⟨0, "C", 1, none, []⟩]
    (registry.ancestors 1).map (·.map Class.id) = .ok [1, 0, 2] := rfl

end ComponentBinding.Registry
