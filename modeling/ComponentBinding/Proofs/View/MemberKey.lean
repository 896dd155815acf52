import ComponentBinding.View.Key
import Mathlib.Data.List.Induction
import Mathlib.Data.List.SplitBy
import Mathlib.Data.Nat.Init

/-! The key of a member name, run by run. The scan looks one character ahead, and what it makes of a name
is decided by the maximal runs of one character, each on its own. Every text is the key of some name. -/
namespace ComponentBinding

/-- What a run of one character stands for: `$` and `_` stand for themselves pair by pair, and of an odd
one left over `$` stands for nothing and `_` for a point. Any other run stands for itself. -/
def runKey : List Char → List Char
  | '$' :: run => .replicate ((run.length + 1) / 2) '$'
  | '_' :: run => .replicate ((run.length + 1) / 2) '_' ++ .replicate ((run.length + 1) % 2) '.'
  | run => run

theorem keyChars_cons {c : Char} (hdollar : c ≠ '$') (hunderscore : c ≠ '_') (rest : List Char) :
    keyChars (c :: rest) = c :: keyChars rest := by
  simp [keyChars, hdollar, hunderscore]

/-! The scan across one run. Only a further character of the same kind could change what it makes of it. -/

theorem keyChars_dollars (count : Nat) {rest : List Char} (apart : rest.head? ≠ some '$') :
    keyChars (.replicate count '$' ++ rest) = .replicate (count / 2) '$' ++ keyChars rest := by
  induction count using Nat.twoStepInduction with
  | zero => rfl
  | one => cases rest <;> simp_all [keyChars]
  | more count ih _ => simp [List.replicate_succ, keyChars, ih]

theorem keyChars_underscores (count : Nat) {rest : List Char} (apart : rest.head? ≠ some '_') :
    keyChars (.replicate count '_' ++ rest) =
      .replicate (count / 2) '_' ++ .replicate (count % 2) '.' ++ keyChars rest := by
  induction count using Nat.twoStepInduction with
  | zero => rfl
  | one => cases rest <;> simp_all [keyChars]
  | more count ih _ => simp [List.replicate_succ, keyChars, ih]

theorem keyChars_plain {c : Char} (hdollar : c ≠ '$') (hunderscore : c ≠ '_') (count : Nat) (rest : List Char) :
    keyChars (.replicate count c ++ rest) = .replicate count c ++ keyChars rest := by
  induction count with
  | zero => rfl
  | succ count ih => rw [List.replicate_succ, List.cons_append, keyChars_cons hdollar hunderscore, ih, List.cons_append]

theorem keyChars_run {c : Char} (count : Nat) {rest : List Char} (apart : rest.head? ≠ some c) :
    keyChars (.replicate (count + 1) c ++ rest) = runKey (.replicate (count + 1) c) ++ keyChars rest := by
  by_cases hdollar : c = '$'
  · subst hdollar
    rw [keyChars_dollars _ apart]
    simp [List.replicate_succ, runKey]
  · by_cases hunderscore : c = '_'
    · subst hunderscore
      rw [keyChars_underscores _ apart]
      simp [List.replicate_succ, runKey]
    · rw [keyChars_plain hdollar hunderscore]
      simp [List.replicate_succ, runKey, hdollar, hunderscore]

theorem eq_replicate_of_isChain {c : Char} {run : List Char} (even : (c :: run).IsChain fun d e => d == e) :
    c :: run = .replicate (run.length + 1) c := by
  induction run generalizing c with
  | nil => rfl
  | cons d run ih =>
    obtain ⟨hsame, hrun⟩ := List.isChain_cons_cons.mp even
    obtain rfl := eq_of_beq hsame
    rw [List.length_cons, List.replicate_succ, ← ih hrun]

/-- Where runs are cut as long as they can be, the next one starts with another character. -/
theorem keyChars_flatten {runs : List (List Char)} (nonempty : [] ∉ runs)
    (even : ∀ run ∈ runs, run.IsChain fun c d => c == d)
    (apart : runs.IsChain fun run next => ∃ h h', (run.getLast h == next.head h') = false) :
    keyChars runs.flatten = runs.flatMap runKey := by
  induction runs with
  | nil => rfl
  | cons run runs ih =>
    have hrest : keyChars runs.flatten = runs.flatMap runKey :=
      ih (fun h => nonempty (List.mem_cons_of_mem _ h)) (fun next h => even next (List.mem_cons_of_mem _ h)) apart.tail
    cases run with
    | nil => exact absurd List.mem_cons_self nonempty
    | cons c run =>
      have hrun : c :: run = .replicate (run.length + 1) c := eq_replicate_of_isChain (even _ List.mem_cons_self)
      have hnext : runs.flatten.head? ≠ some c := by
        cases runs with
        | nil => simp
        | cons next runs =>
          obtain ⟨⟨_, hne, hother⟩, _⟩ := List.isChain_cons_cons.mp apart
          simp only [hrun, List.getLast_replicate] at hother
          rw [List.flatten_cons, List.head?_append_of_ne_nil _ hne, List.head?_eq_some_head hne]
          simpa using (ne_of_beq_false hother).symm
      rw [List.flatten_cons, List.flatMap_cons, hrun, keyChars_run _ hnext, hrest]

theorem keyChars_eq_runs (text : List Char) : keyChars text = (text.splitBy (· == ·)).flatMap runKey := by
  obtain ⟨hspelled, nonempty, even, apart⟩ := List.splitBy_eq_iff.mp (Eq.refl (text.splitBy (· == ·)))
  conv_lhs => rw [hspelled]
  exact keyChars_flatten nonempty even apart

/-- The key of a name is what its maximal runs stand for, one after the other. So it falls apart wherever
the name does between two different characters, and no run has a say in the next. -/
theorem memberKey_eq_runs (name : String) :
    memberKey name = String.ofList ((name.toList.splitBy (· == ·)).flatMap runKey) ∧
    ∀ left right : String, name = left ++ right → (∀ c ∈ left.toList.getLast?, c ∉ right.toList.head?) →
      memberKey name = memberKey left ++ memberKey right := by
  refine ⟨congrArg String.ofList (keyChars_eq_runs _), ?_⟩
  rintro left right rfl apart
  have hsplit : (left.toList ++ right.toList).splitBy (· == ·) =
      left.toList.splitBy (· == ·) ++ right.toList.splitBy (· == ·) := by
    apply List.splitBy_append
    rintro c hc d hd
    exact beq_false_of_ne fun same => apart c hc (same ▸ hd)
  simp only [memberKey, keyChars_eq_runs, String.toList_append, hsplit, List.flatMap_append, String.ofList_append]

example : memberKey "foo$_$_bar" = "foo..bar" := by decide

/-! Names for all keys. -/

/-- A way to write one character of a key in a name. The `_` of a point takes a `$` behind it, which stands
for nothing and keeps the `_` apart from another one. -/
def spelling : Char → List Char
  | '$' => ['$', '$']
  | '_' => ['_', '_']
  | '.' => ['_', '$']
  | c => [c]

/-- A name for a key. The `$` in front stands for nothing: it is there for the empty key. -/
def nameFor (key : String) : String := String.ofList ('$' :: key.toList.flatMap spelling)

/-- The spelling is read back, also behind a single `$`: this may pair up with the next `$`, but then the
last one of their run is left over instead. -/
theorem keyChars_spelling (key : List Char) :
    keyChars (key.flatMap spelling) = key ∧ keyChars ('$' :: key.flatMap spelling) = key := by
  induction key with
  | nil => exact ⟨rfl, rfl⟩
  | cons c key ih =>
    obtain ⟨hplain, hidle⟩ := ih
    rw [List.flatMap_cons]
    by_cases hdollar : c = '$'
    · subst hdollar
      simp [spelling, keyChars, hplain, hidle]
    by_cases hunderscore : c = '_'
    · subst hunderscore
      simp [spelling, keyChars, hplain]
    by_cases hpoint : c = '.'
    · subst hpoint
      simp [spelling, keyChars, hidle]
    simp [spelling, keyChars, hdollar, hunderscore, hplain]

theorem point_notMem_spelling (c : Char) : '.' ∉ spelling c := by
  unfold spelling
  split
  · decide
  · decide
  · decide
  · rename_i _ _ hpoint
    exact fun h => hpoint (List.mem_singleton.mp h).symm

/-- Every text is the key of a name that is not empty and holds no point. -/
theorem exists_name_for_key (key : String) :
    ∃ name : String, name ≠ "" ∧ '.' ∉ name.toList ∧ memberKey name = key := by
  refine ⟨nameFor key, ?_, ?_, ?_⟩
  · rw [nameFor, Ne, String.ofList_eq_empty_iff]
    exact List.cons_ne_nil _ _
  · rw [nameFor, String.toList_ofList, List.mem_cons, List.mem_flatMap]
    rintro (h | ⟨c, _, hc⟩)
    · exact absurd h (by decide)
    · exact point_notMem_spelling c hc
  · rw [memberKey, nameFor, String.toList_ofList, (keyChars_spelling key.toList).2, String.ofList_toList]

example : nameFor "a..b_" = "$a_$_$b__" := by decide

end ComponentBinding
